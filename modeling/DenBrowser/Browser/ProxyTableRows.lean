import DenBrowser.Browser.ProxyTableText

/-!
# What the proxy table denotes

The rows that the C++ of the table stands for, with the arrays its names point to.

* `tableOf` — the rows of the table in a file;
* `tableDecls_nodup` — no name is declared twice;
* `resolveTable_tableDecls` — the rows of the table are those of the entries.
-/

set_option autoImplicit false

namespace DenBrowser.ProxyTableText

open ProxyTable SiteConfig GeneratedBlock CTables Sentinel

/-! ## Rows -/

/-- A row of the table, with the length of the key that the browser is told. -/
structure Row where
  entry : DenProxyEntry
  attestKeyLen : Nat

/-- A pointer to an array, or null. -/
def pointer {α : Type} (arrays : Str → Option (List α)) : Field → Option (Option (List α))
  | .null => some none
  | .name s => (arrays s).map some
  | _ => none

/-- A pointer to a string, or null. -/
def stringPointer : Field → Option (Option Str)
  | .null => some none
  | .text s => some (some (cString s))
  | _ => none

/-- A value of type `uint32_t`; a number is not narrowed. -/
def uint32 (ds : List Decl) : Field → Option Nat
  | .size s => (bytes ds s).map fun array => array.length % 2 ^ 32
  | .number n => if n < 2 ^ 32 then some n else none
  | _ => none

/-- A row; where the array of a null pointer is read, it is empty. -/
def resolveRow (ds : List Decl) : List Field → Option Row
  | [name, domains, key, len, pin] =>
    match stringPointer name, pointer (strings ds) domains, pointer (bytes ds) key,
      uint32 ds len, pointer (bytes ds) pin with
    | some name, some domains, some key, some len, some pin =>
      some ⟨⟨name, domains.getD [], key.getD [], pin⟩, len⟩
    | _, _, _, _, _ => none
  | _ => none

/-- The rows of `kDenProxies`; no name may be declared twice. -/
def resolveTable (ds : List Decl) : Option (List Row) :=
  if (ds.map Decl.name).Nodup then
    match find ds "kDenProxies".toList with
    | some (.rows type _ rows) =>
      if type = "DenProxyEntry".toList then rows.mapM (resolveRow ds) else none
    | _ => none
  else none

/-- The table that stands between the sentinels of a file. -/
def tableOf (source : Str) : Option (List Row) :=
  match (blocks PROXY_START.text PROXY_STOP.text source).bodies with
  | [body] => (declarations body).bind resolveTable
  | _ => none

/-- The rows of the entries, with the terminator. -/
def rowsOf (entries : List Entry) : List Row :=
  (emit entries).map fun row => ⟨row, row.attestKey.length⟩

/-! ### Names -/

theorem digits_indexed {name : String} {i : Nat}
    (h : (name.toList.getLast?).all (fun c => !c.isDigit) = true) :
    ((indexed name i).reverse.takeWhile Char.isDigit).reverse = Nat.toDigits 10 i := by
  have hdigits : ∀ c ∈ (Nat.toDigits 10 i).reverse, c.isDigit = true := by
    intro c hc
    exact Nat.isDigit_of_mem_toDigits (by decide) (by decide) (List.mem_reverse.1 hc)
  have hhead : name.toList.reverse.takeWhile Char.isDigit = [] := by
    rw [← List.head?_reverse] at h
    cases hrev : name.toList.reverse with
    | nil => rfl
    | cons c s =>
      rw [hrev] at h
      have hc : c.isDigit = false := by simpa using h
      rw [List.takeWhile_cons_of_neg (by simp [hc])]
  unfold indexed
  rw [List.reverse_append, List.takeWhile_append_of_pos hdigits, hhead, List.append_nil,
    List.reverse_reverse]

theorem toDigits_inj {i j : Nat} (h : Nat.toDigits 10 i = Nat.toDigits 10 j) : i = j := by
  have hi : Nat.ofDigitChars 10 (Nat.toDigits 10 i) 0 = i := Nat.ofDigitChars_ten_toDigits
  have hj : Nat.ofDigitChars 10 (Nat.toDigits 10 j) 0 = j := Nat.ofDigitChars_ten_toDigits
  rw [← hi, ← hj, h]

/-- The names that are declared for an entry. -/
theorem entryNames_digits {i : Nat} {e : Entry} {name : Str}
    (h : name ∈ (entryParts i e).map fun p => p.1.name) :
    (name.reverse.takeWhile Char.isDigit).reverse = Nat.toDigits 10 i := by
  have hname : name = kDenProxyDomains i ∨ name = kDenProxyKey i ∨ name = kDenProxyPin i := by
    unfold entryParts at h
    cases hpin : e.pin with
    | none =>
      rw [hpin] at h
      simp only [List.append_nil, List.map_cons, List.map_nil, List.mem_cons, List.not_mem_nil,
        or_false, Decl.name] at h
      exact h.imp_right Or.inl
    | some pin => simpa [hpin, Decl.name] using h
  rcases hname with rfl | rfl | rfl
  · exact digits_indexed (by decide)
  · exact digits_indexed (by decide)
  · exact digits_indexed (by decide)

theorem entryNames_nodup (i : Nat) (e : Entry) :
    ((entryParts i e).map fun p => p.1.name).Nodup := by
  have hne : ∀ {a b : Str}, a.take 10 ≠ b.take 10 → a ≠ b := by
    rintro a b h rfl
    exact h rfl
  have hdk : kDenProxyDomains i ≠ kDenProxyKey i := hne (by
    show "kDenProxyD".toList ≠ "kDenProxyK".toList
    decide)
  have hdp : kDenProxyDomains i ≠ kDenProxyPin i := hne (by
    show "kDenProxyD".toList ≠ "kDenProxyP".toList
    decide)
  have hkp : kDenProxyKey i ≠ kDenProxyPin i := hne (by
    show "kDenProxyK".toList ≠ "kDenProxyP".toList
    decide)
  unfold entryParts
  cases e.pin with
  | none => simp [Decl.name, hdk]
  | some pin => simp [Decl.name, hdk, hdp, hkp]

/-- The declarations of the table. -/
def tableDecls (entries : List Entry) : List Decl := (tableParts entries).map Prod.fst

theorem tableDecls_nodup (entries : List Entry) :
    ((tableDecls entries).map Decl.name).Nodup := by
  have hnames : (tableDecls entries).map Decl.name =
      (entries.zipIdx.flatMap fun e => (entryParts e.2 e.1).map fun p => p.1.name) ++
        ["kDenProxies".toList] := by
    unfold tableDecls tableParts
    simp only [List.map_append, List.map_flatMap, List.map_map, List.map_cons, List.map_nil,
      Function.comp_def, Decl.name]
  have hpairwise : entries.zipIdx.Pairwise fun e f => e.2 ≠ f.2 := by
    have hrange : (entries.zipIdx.map Prod.snd).Nodup := by
      rw [List.zipIdx_map_snd]
      exact List.nodup_range'
    exact List.pairwise_map.1 hrange
  rw [hnames, List.nodup_append]
  refine ⟨?_, by simp, ?_⟩
  · rw [List.nodup_flatMap]
    refine ⟨fun e _ => entryNames_nodup e.2 e.1, hpairwise.imp ?_⟩
    intro e f hef name he hf
    apply hef
    apply toDigits_inj
    rw [← entryNames_digits he, ← entryNames_digits hf]
  · intro name hname name' hname' heq
    obtain ⟨e, _, he⟩ := List.mem_flatMap.1 hname
    have hdigits := entryNames_digits he
    rw [heq, List.mem_singleton.1 hname'] at hdigits
    exact Nat.toDigits_ne_nil hdigits.symm

/-! ### The rows of the entries -/

/-- A character that stands for itself in a string, and is not one of a sentinel's dashes. -/
def Ordinary (c : Char) : Prop := Plain c ∧ c ≠ Char.ofNat 0 ∧ c ≠ '─'

instance (c : Char) : Decidable (Ordinary c) := by
  unfold Ordinary
  infer_instance

/-- The strings of an entry can be written as they are, and its pin is a digest. -/
structure Writes (e : Entry) : Prop where
  name : ∀ c ∈ e.name, Ordinary c
  domains : ∀ d ∈ e.domains, ∀ c ∈ d, Ordinary c
  pin : ∀ pin, e.pin = some pin → pin.length = 32

theorem Writes.literal {e : Entry} (h : Writes e) : Literal e :=
  ⟨fun c hc => (h.name c hc).1, fun d hd c hc => (h.domains d hd c hc).1⟩

theorem cString_ordinary {s : Str} (h : ∀ c ∈ s, Ordinary c) : cString s = s :=
  cString_eq_self.2 fun hmem => (h _ hmem).2.1 rfl

section

variable {entries : List Entry} {e : Entry} {i : Nat}

theorem find_entryPart (he : (e, i) ∈ entries.zipIdx) {d : Decl}
    (hd : d ∈ (entryParts i e).map Prod.fst) : find (tableDecls entries) d.name = some d := by
  apply find_eq (tableDecls_nodup entries)
  obtain ⟨p, hp, rfl⟩ := List.mem_map.1 hd
  unfold tableDecls tableParts
  rw [List.map_append]
  apply List.mem_append_left
  exact List.mem_map_of_mem (List.mem_flatMap.2 ⟨(e, i), he, hp⟩)

theorem strings_domains (he : (e, i) ∈ entries.zipIdx) (h : Writes e) :
    strings (tableDecls entries) (kDenProxyDomains i) = some (nullTerminated e.domains) := by
  have hfind := find_entryPart he
    (d := .strings (kDenProxyDomains i) (nullTerminated e.domains)) (by simp [entryParts])
  have hitems : (nullTerminated e.domains).map (fun item => item.map cString) =
      nullTerminated e.domains := by
    unfold nullTerminated
    rw [List.map_append, List.map_map]
    congr 1
    apply List.map_congr_left
    intro d hd
    exact congrArg some (cString_ordinary (h.domains d hd))
  unfold strings
  rw [show kDenProxyDomains i =
    (Decl.strings (kDenProxyDomains i) (nullTerminated e.domains)).name from rfl, hfind]
  exact congrArg some hitems

theorem bytes_key (he : (e, i) ∈ entries.zipIdx) :
    bytes (tableDecls entries) (kDenProxyKey i) = some e.key := by
  have hfind := find_entryPart he
    (d := .bytes (kDenProxyKey i) none (e.key.map UInt8.toNat)) (by simp [entryParts])
  unfold bytes
  rw [show kDenProxyKey i =
    (Decl.bytes (kDenProxyKey i) none (e.key.map UInt8.toNat)).name from rfl, hfind]
  exact arrayOf_bytes (by simp)

theorem pointer_pin (he : (e, i) ∈ entries.zipIdx) (h : Writes e) :
    pointer (bytes (tableDecls entries)) (pinField i e) = some e.pin := by
  unfold pinField
  cases hpin : e.pin with
  | none => rfl
  | some pin =>
    have hfind := find_entryPart he
      (d := .bytes (kDenProxyPin i) (some 32) (pin.map UInt8.toNat)) (by simp [entryParts, hpin])
    have hbytes : bytes (tableDecls entries) (kDenProxyPin i) = some pin := by
      unfold bytes
      rw [show kDenProxyPin i =
        (Decl.bytes (kDenProxyPin i) (some 32) (pin.map UInt8.toNat)).name from rfl, hfind]
      apply arrayOf_bytes
      intro n hn
      cases hn
      exact h.pin pin hpin
    show (bytes (tableDecls entries) (kDenProxyPin i)).map some = some (some pin)
    rw [hbytes]
    rfl

theorem resolveRow_rowFields (he : (e, i) ∈ entries.zipIdx) (h : Writes e) :
    resolveRow (tableDecls entries) (rowFields i e) =
      some ⟨⟨some e.name, nullTerminated e.domains, e.key, e.pin⟩, e.key.length % 2 ^ 32⟩ := by
  have hname : stringPointer (.text e.name) = some (some e.name) :=
    congrArg (fun s => some (some s)) (cString_ordinary h.name)
  have hdomains : pointer (strings (tableDecls entries)) (.name (kDenProxyDomains i)) =
      some (some (nullTerminated e.domains)) := congrArg (Option.map some) (strings_domains he h)
  have hkey : pointer (bytes (tableDecls entries)) (.name (kDenProxyKey i)) = some (some e.key) :=
    congrArg (Option.map some) (bytes_key he)
  have hlen : uint32 (tableDecls entries) (.size (kDenProxyKey i)) =
      some (e.key.length % 2 ^ 32) :=
    congrArg (Option.map fun array : List UInt8 => array.length % 2 ^ 32) (bytes_key he)
  unfold rowFields resolveRow
  simp only [hname, hdomains, hkey, hlen, pointer_pin he h, Option.getD_some]

end

theorem mapM_eq_some {α β : Type} {f : α → Option β} {g : α → β} {l : List α}
    (h : ∀ x ∈ l, f x = some (g x)) : l.mapM f = some (l.map g) := by
  induction l with
  | nil => rfl
  | cons x l ih =>
    obtain ⟨hx, hl⟩ := List.forall_mem_cons.1 h
    rw [List.mapM_cons, hx, ih hl]
    rfl

/-- The rows as they are written: the length of the key is a `uint32_t`. -/
def writtenRows (entries : List Entry) : List Row :=
  (emit entries).map fun row => ⟨row, row.attestKey.length % 2 ^ 32⟩

/-- **The rows of the table** are those of the entries. -/
theorem resolveTable_tableDecls {entries : List Entry} (h : ∀ e ∈ entries, Writes e) :
    resolveTable (tableDecls entries) = some (writtenRows entries) := by
  have hfind : find (tableDecls entries) "kDenProxies".toList =
      some (.rows "DenProxyEntry".toList "kDenProxies".toList (tableRows entries)) :=
    find_eq (tableDecls_nodup entries)
      (d := .rows "DenProxyEntry".toList "kDenProxies".toList (tableRows entries))
      (by simp [tableDecls, tableParts])
  have hrows : (entries.zipIdx.map fun e => rowFields e.2 e.1).mapM
      (resolveRow (tableDecls entries)) = some (entries.zipIdx.map fun e =>
        (⟨⟨some e.1.name, nullTerminated e.1.domains, e.1.key, e.1.pin⟩,
          e.1.key.length % 2 ^ 32⟩ : Row)) := by
    rw [List.mapM_map]
    apply mapM_eq_some
    intro e he
    exact resolveRow_rowFields he (h e.1 (List.fst_mem_of_mem_zipIdx he))
  have hfst : ∀ g : Entry → Row, (entries.zipIdx.map fun e => g e.1) = entries.map g := by
    intro g
    conv_rhs => rw [← List.zipIdx_map_fst 0 entries, List.map_map]
    rfl
  unfold resolveTable
  rw [if_pos (tableDecls_nodup entries), hfind]
  dsimp only
  rw [if_pos rfl]
  unfold tableRows
  rw [List.mapM_append, hrows, hfst fun e =>
    ⟨⟨some e.name, nullTerminated e.domains, e.key, e.pin⟩, e.key.length % 2 ^ 32⟩]
  unfold writtenRows emit
  rw [List.map_append, List.map_map]
  rfl

end DenBrowser.ProxyTableText
