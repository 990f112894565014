import DenBrowser.Browser.GeneratedBlock
import DenBrowser.Browser.SiteConfig
import DenBrowser.Lib.CTables

/-!
# The text of the proxy table

The table of proxies is C++ that the build writes between two sentinels of
`DenBrowserAttest.cpp`, line by line.

* `step25` — the step, from `proxies` and the source file to the file that is written;
* `run_tableLines` — the tokens of the lines;
* `declarations_body` — the declarations they are.
-/

set_option autoImplicit false

namespace DenBrowser.ProxyTableText

open ProxyTable SiteConfig GeneratedBlock CTables

/-! ## The lines -/

def PROXY_START : Marker :=
  ⟨"// ── DEN: PROXY_TABLE ──".toList, by decide, forall_mem_of_all (by decide)⟩

def PROXY_STOP : Marker :=
  ⟨"// ── DEN END: PROXY_TABLE ──".toList, by decide, forall_mem_of_all (by decide)⟩

/-- `'\n'.join(lines)`. -/
def joinLines (lines : List Str) : Str := ['\n'].intercalate lines

/-- `raw[i:i + per_line]`, for each `i`. -/
def slices (perLine : Nat) (raw : Bytes) : List Bytes :=
  (List.range ((raw.length + perLine - 1) / perLine)).map fun i =>
    (raw.drop (perLine * i)).take perLine

/-- `f'0x{b:02x},'` -/
def cByte (b : UInt8) : Str := hexWord b ++ [',']

/-- `c_bytes`. -/
def cBytes (raw : Bytes) : Str :=
  joinLines ((slices 12 raw).map fun slice => "    ".toList ++ [' '].intercalate (slice.map cByte))

/-- A name with the number of the entry. -/
def indexed (name : String) (i : Nat) : Str := name.toList ++ Nat.toDigits 10 i

def kDenProxyDomains (i : Nat) : Str := indexed "kDenProxyDomains_" i

def kDenProxyKey (i : Nat) : Str := indexed "kDenProxyKey_" i

def kDenProxyPin (i : Nat) : Str := indexed "kDenProxyPin_" i

/-- The arrays of an entry. -/
def entryLines (i : Nat) (e : Entry) : List Str :=
  ["static const char* const ".toList ++ (kDenProxyDomains i ++ "[] = \x7b".toList)] ++
  (e.domains.map fun d => "    \"".toList ++ (d ++ "\",".toList)) ++
  ["    nullptr".toList, "\x7d;".toList,
    "static const uint8_t ".toList ++ (kDenProxyKey i ++ "[] = \x7b".toList),
    cBytes e.key, "\x7d;".toList] ++
  match e.pin with
  | none => []
  | some pin => ["static const uint8_t ".toList ++ (kDenProxyPin i ++ "[32] = \x7b".toList),
      cBytes pin, "\x7d;".toList]

/-- `pin_ref`. -/
def pinRef (i : Nat) (e : Entry) : Str :=
  match e.pin with
  | none => "nullptr".toList
  | some _ => kDenProxyPin i

/-- The row of an entry. -/
def rowLine (i : Nat) (e : Entry) : Str :=
  "  \x7b\"".toList ++ (e.name ++ ("\", ".toList ++ (kDenProxyDomains i ++ (", ".toList ++
    (kDenProxyKey i ++ (", static_cast<uint32_t>(sizeof(".toList ++ (kDenProxyKey i ++
      (")), ".toList ++ (pinRef i e ++ "\x7d,".toList)))))))))

/-- The lines of the table, without the sentinels. -/
def tableLines (entries : List Entry) : List Str :=
  ["// GENERATED by build.sh (Step 2.5) from the \"proxies\" array in".toList,
    "// config/site-config.json.  Do not edit here — edit the JSON, rebuild.".toList] ++
  (entries.zipIdx.flatMap fun e => entryLines e.2 e.1) ++
  ["static const DenProxyEntry kDenProxies[] = \x7b".toList] ++
  (entries.zipIdx.map fun e => rowLine e.2 e.1) ++
  ["  \x7bnullptr, nullptr, nullptr, 0, nullptr\x7d,".toList, "\x7d;".toList]

/-- `out`. -/
def out (entries : List Entry) : List Str :=
  PROXY_START.text :: (tableLines entries ++ [PROXY_STOP.text])

/-- What stands between the sentinels. -/
def body (entries : List Entry) : Str :=
  '\n' :: (tableLines entries).flatMap fun line => line ++ ['\n']

theorem joinLines_out (entries : List Entry) :
    joinLines (out entries) = PROXY_START.text ++ (body entries ++ PROXY_STOP.text) := by
  have hlines : ∀ (lines : List Str) (first last : Str),
      joinLines (first :: (lines ++ [last])) =
        first ++ ('\n' :: ((lines.flatMap fun line => line ++ ['\n']) ++ last)) := by
    intro lines
    induction lines with
    | nil =>
      intro first last
      show ['\n'].intercalate [first, last] = _
      rw [List.intercalate_cons_cons, List.intercalate_singleton, List.append_assoc]
      rfl
    | cons line lines ih =>
      intro first last
      have hstep : joinLines (first :: (line :: lines ++ [last])) =
          first ++ ('\n' :: joinLines (line :: (lines ++ [last]))) := by
        show ['\n'].intercalate (first :: line :: (lines ++ [last])) = _
        rw [List.intercalate_cons_cons, List.append_assoc]
        rfl
      rw [hstep, ih]
      simp
  exact hlines _ _ _

/-! ## The step -/

/-- The entries of the table. -/
def checked (t : Tools) (py : PythonStr) (values : List Json) : Option (List Entry) :=
  (rawEntries t values).bind (checkEntries py [])

/-- The file after the step, given `proxies` and the file before it; `none` when the build ends.
Without a proxy nothing is written. -/
def step25 (t : Tools) (py : PythonStr) (proxies : Option Json) (source : Str) : Option Str :=
  match proxies.getD (.list []) with
  | .list [] => some source
  | .list values =>
    match checked t py values with
    | none => none
    | some entries =>
      if blockCount PROXY_START PROXY_STOP source = 1 then
        some (writeBlocks PROXY_START PROXY_STOP (fun _ => body entries) source)
      else none
  | _ => none

/-! ## The tokens of a line -/

/-- A line is C++ of these tokens, by itself. -/
def Reads (line : Str) (ts : List Token) : Prop := run .code (line ++ ['\n']) = some (ts, .code)

instance (line : Str) (ts : List Token) : Decidable (Reads line ts) := by
  unfold Reads
  infer_instance

theorem run_digits (w : Str) (i : Nat) :
    run (.word w) (Nat.toDigits 10 i) = some ([], .word (w ++ Nat.toDigits 10 i)) := by
  apply run_word
  intro c hc
  have hdigit : c.isDigit = true := Nat.isDigit_of_mem_toDigits (by decide) (by decide) hc
  unfold isWordChar Char.isAlphanum
  rw [hdigit]
  simp

theorem run_indexed {name : String} (h : run .code name.toList = some ([], .word name.toList))
    (i : Nat) : run .code (indexed name i) = some ([], .word (indexed name i)) :=
  run_trans h (run_digits name.toList i)

theorem run_kDenProxyDomains (i : Nat) :
    run .code (kDenProxyDomains i) = some ([], .word (kDenProxyDomains i)) :=
  run_indexed (by decide) i

theorem run_kDenProxyKey (i : Nat) :
    run .code (kDenProxyKey i) = some ([], .word (kDenProxyKey i)) :=
  run_indexed (by decide) i

theorem run_kDenProxyPin (i : Nat) :
    run .code (kDenProxyPin i) = some ([], .word (kDenProxyPin i)) :=
  run_indexed (by decide) i

theorem reads_domains (i : Nat) :
    Reads ("static const char* const ".toList ++ (kDenProxyDomains i ++ "[] = \x7b".toList))
      ([word "static", word "const", word "char", .punct '*', word "const",
        .word (kDenProxyDomains i)] ++ boundsTokens none) := by
  unfold Reads
  rw [List.append_assoc, List.append_assoc]
  have hhead : run .code "static const char* const ".toList =
      some ([word "static", word "const", word "char", .punct '*', word "const"], .code) := by
    decide
  have hend : run (.word (kDenProxyDomains i)) ("[] = \x7b".toList ++ ['\n']) =
      some (.word (kDenProxyDomains i) :: boundsTokens none, .code) := rfl
  have h := run_trans hhead (run_trans (run_kDenProxyDomains i) hend)
  exact h

theorem reads_key (i : Nat) :
    Reads ("static const uint8_t ".toList ++ (kDenProxyKey i ++ "[] = \x7b".toList))
      ([word "static", word "const", word "uint8_t", .word (kDenProxyKey i)] ++
        boundsTokens none) := by
  unfold Reads
  rw [List.append_assoc, List.append_assoc]
  have hhead : run .code "static const uint8_t ".toList =
      some ([word "static", word "const", word "uint8_t"], .code) := by decide
  have hend : run (.word (kDenProxyKey i)) ("[] = \x7b".toList ++ ['\n']) =
      some (.word (kDenProxyKey i) :: boundsTokens none, .code) := rfl
  have h := run_trans hhead (run_trans (run_kDenProxyKey i) hend)
  exact h

theorem reads_pin (i : Nat) :
    Reads ("static const uint8_t ".toList ++ (kDenProxyPin i ++ "[32] = \x7b".toList))
      ([word "static", word "const", word "uint8_t", .word (kDenProxyPin i)] ++
        boundsTokens (some 32)) := by
  unfold Reads
  rw [List.append_assoc, List.append_assoc]
  have hhead : run .code "static const uint8_t ".toList =
      some ([word "static", word "const", word "uint8_t"], .code) := by decide
  have hend : run (.word (kDenProxyPin i)) ("[32] = \x7b".toList ++ ['\n']) =
      some (.word (kDenProxyPin i) :: boundsTokens (some 32), .code) := rfl
  have h := run_trans hhead (run_trans (run_kDenProxyPin i) hend)
  exact h

/-- A domain of plain characters is an item of its array. -/
theorem reads_domain {d : Str} (h : ∀ c ∈ d, Plain c) :
    Reads ("    \"".toList ++ (d ++ "\",".toList)) [.literal d, .punct ','] := by
  unfold Reads
  rw [List.append_assoc, List.append_assoc]
  have hhead : run .code "    \"".toList = some ([], .literal []) := by decide
  have hend : run (.literal d) ("\",".toList ++ ['\n']) = some ([.literal d, .punct ','], .code) := rfl
  exact run_trans hhead (run_trans (run_plain h) hend)

/-! ### Bytes -/

theorem run_cByte (b : UInt8) : run .code (cByte b) = some ([.word (hexWord b), .punct ','], .code) := by
  have hdigit : ∀ n < 16, isWordChar (Nat.digitChar n) = true := by decide
  have hword : ∀ c ∈ 'x' :: [Nat.digitChar (b.toNat / 16), Nat.digitChar (b.toNat % 16)],
      isWordChar c = true := by
    intro c hc
    simp only [List.mem_cons, List.not_mem_nil, or_false] at hc
    have hlt := b.toNat_lt
    rcases hc with rfl | rfl | rfl
    · decide
    · exact hdigit _ (by omega)
    · exact hdigit _ (by omega)
  have hhead : run .code ['0'] = some ([], .word ['0']) := by decide
  have hend : run (.word (hexWord b)) [','] = some ([.word (hexWord b), .punct ','], .code) := rfl
  exact run_trans (run_trans hhead (run_word hword)) hend

theorem run_space {s : Str} {ts : List Token} {m : Mode} (h : run .code s = some (ts, m)) :
    run .code (' ' :: s) = some (ts, m) := by
  have hspace : run .code [' '] = some ([], .code) := by decide
  exact run_trans hspace h

/-- The tokens of bytes, with a comma after each. -/
def byteTokens (raw : Bytes) : List Token := raw.flatMap fun b => [.word (hexWord b), .punct ',']

theorem run_slice (slice : Bytes) :
    run .code ([' '].intercalate (slice.map cByte)) = some (byteTokens slice, .code) := by
  induction slice with
  | nil => rfl
  | cons b slice ih =>
    cases slice with
    | nil => exact run_cByte b
    | cons c slice =>
      have hshape : [' '].intercalate ((b :: c :: slice).map cByte) =
          cByte b ++ (' ' :: [' '].intercalate ((c :: slice).map cByte)) := by
        show [' '].intercalate (cByte b :: cByte c :: slice.map cByte) = _
        rw [List.intercalate_cons_cons, List.append_assoc]
        rfl
      rw [hshape]
      exact run_trans (run_cByte b) (run_space ih)

theorem flatten_slices {n : Nat} (hn : 0 < n) (raw : Bytes) : (slices n raw).flatten = raw := by
  have hrange : ∀ m, ((List.range m).map fun i => (raw.drop (n * i)).take n).flatten =
      raw.take (n * m) := by
    intro m
    induction m with
    | zero => rfl
    | succ m ih =>
      rw [List.range_succ, List.map_append, List.flatten_append, ih, Nat.mul_succ, List.take_add]
      simp
  have hle : raw.length ≤ n * ((raw.length + n - 1) / n) := by
    have hdiv := Nat.div_add_mod (raw.length + n - 1) n
    have hmod := Nat.mod_lt (raw.length + n - 1) hn
    omega
  unfold slices
  rw [hrange, List.take_of_length_le hle]

theorem reads_cBytes (raw : Bytes) : Reads (cBytes raw) (byteTokens raw) := by
  have hlines : ∀ parts : List Bytes,
      run .code (joinLines (parts.map fun slice =>
        "    ".toList ++ [' '].intercalate (slice.map cByte)) ++ ['\n']) =
      some (byteTokens parts.flatten, .code) := by
    intro parts
    have hindent : run .code "    ".toList = some ([], .code) := by decide
    have hnewline : run .code ['\n'] = some ([], .code) := by decide
    induction parts with
    | nil => rfl
    | cons slice parts ih =>
      have hslice := run_trans hindent (run_slice slice)
      cases parts with
      | nil =>
        have h := run_trans hslice hnewline
        simpa [joinLines] using h
      | cons slice' parts =>
        have hshape : joinLines ((slice :: slice' :: parts).map fun slice =>
            "    ".toList ++ [' '].intercalate (slice.map cByte)) ++ ['\n'] =
            ("    ".toList ++ [' '].intercalate (slice.map cByte)) ++ (['\n'] ++
              (joinLines ((slice' :: parts).map fun slice =>
                "    ".toList ++ [' '].intercalate (slice.map cByte)) ++ ['\n'])) := by
          simp only [joinLines, List.map_cons, List.intercalate_cons_cons, List.append_assoc]
        rw [hshape]
        have h := run_trans hslice (run_trans hnewline ih)
        simpa [byteTokens] using h
  have h := hlines (slices 12 raw)
  rw [flatten_slices (by decide)] at h
  exact h

/-! ### Rows -/

/-- The field of the pin. -/
def pinField (i : Nat) (e : Entry) : Field :=
  match e.pin with
  | none => .null
  | some _ => .name (kDenProxyPin i)

def rowFields (i : Nat) (e : Entry) : List Field :=
  [.text e.name, .name (kDenProxyDomains i), .name (kDenProxyKey i), .size (kDenProxyKey i),
    pinField i e]

/-- The last row. -/
def nullFields : List Field := [.null, .null, .null, .number 0, .null]

theorem pinField_tokens (i : Nat) (e : Entry) : (pinField i e).tokens = [.word (pinRef i e)] := by
  unfold pinField pinRef
  cases e.pin with
  | none => rfl
  | some pin => rfl

theorem run_pinRef (i : Nat) (e : Entry) :
    run .code (pinRef i e) = some ([], .word (pinRef i e)) := by
  unfold pinRef
  have hnull : run .code "nullptr".toList = some ([], .word "nullptr".toList) := by decide
  cases e.pin with
  | none => exact hnull
  | some pin => exact run_kDenProxyPin i

theorem reads_row {i : Nat} {e : Entry} (h : ∀ c ∈ e.name, Plain c) :
    Reads (rowLine i e) (rowTokens (rowFields i e)) := by
  unfold Reads rowLine
  simp only [List.append_assoc]
  have h1 : run .code "  \x7b\"".toList = some ([.punct '{'], .literal []) := by decide
  have h2 : run (.literal e.name) "\", ".toList = some ([.literal e.name, .punct ','], .code) := rfl
  have h3 : run (.word (kDenProxyDomains i)) ", ".toList =
      some ([.word (kDenProxyDomains i), .punct ','], .code) := rfl
  have h4 : run (.word (kDenProxyKey i)) ", static_cast<uint32_t>(sizeof(".toList =
      some ([.word (kDenProxyKey i), .punct ',', word "static_cast", .punct '<', word "uint32_t",
        .punct '>', .punct '(', word "sizeof", .punct '('], .code) := rfl
  have h5 : run (.word (kDenProxyKey i)) ")), ".toList =
      some ([.word (kDenProxyKey i), .punct ')', .punct ')', .punct ','], .code) := rfl
  have h6 : run (.word (pinRef i e)) ("\x7d,".toList ++ ['\n']) =
      some ([.word (pinRef i e), .punct '}', .punct ','], .code) := rfl
  have h := run_trans h1 (run_trans (run_plain h) (run_trans h2 (run_trans (run_kDenProxyDomains i)
    (run_trans h3 (run_trans (run_kDenProxyKey i) (run_trans h4 (run_trans (run_kDenProxyKey i)
      (run_trans h5 (run_trans (run_pinRef i e) h6)))))))))
  have htokens : rowTokens (rowFields i e) = [.punct '{', .literal e.name, .punct ',',
      .word (kDenProxyDomains i), .punct ',', .word (kDenProxyKey i), .punct ',',
      word "static_cast", .punct '<', word "uint32_t", .punct '>', .punct '(', word "sizeof",
      .punct '(', .word (kDenProxyKey i), .punct ')', .punct ')', .punct ',',
      .word (pinRef i e), .punct '}', .punct ','] := by
    unfold rowTokens rowFields fieldsTokens
    simp only [fieldsTokens, pinField_tokens]
    rfl
  rw [htokens]
  exact h

/-! ### All lines -/

/-- The lines are C++ of these tokens. -/
def ReadsAll (lines : List Str) (ts : List Token) : Prop :=
  run .code (lines.flatMap fun line => line ++ ['\n']) = some (ts, .code)

theorem ReadsAll.nil : ReadsAll [] [] := rfl

theorem Reads.all {line : Str} {ts : List Token} (h : Reads line ts) : ReadsAll [line] ts := by
  unfold ReadsAll
  rw [List.flatMap_singleton]
  exact h

theorem ReadsAll.append {ls ms : List Str} {ts us : List Token} (h : ReadsAll ls ts)
    (h' : ReadsAll ms us) : ReadsAll (ls ++ ms) (ts ++ us) := by
  unfold ReadsAll
  rw [List.flatMap_append]
  exact run_trans h h'

theorem readsAll_flatMap {α : Type} {lines : α → List Str} {tokens : α → List Token} {l : List α}
    (h : ∀ x ∈ l, ReadsAll (lines x) (tokens x)) :
    ReadsAll (l.flatMap lines) (l.flatMap tokens) := by
  induction l with
  | nil => exact ReadsAll.nil
  | cons x l ih =>
    obtain ⟨hx, hl⟩ := List.forall_mem_cons.1 h
    rw [List.flatMap_cons, List.flatMap_cons]
    exact hx.append (ih hl)

theorem readsAll_map {α : Type} {line : α → Str} {tokens : α → List Token} {l : List α}
    (h : ∀ x ∈ l, Reads (line x) (tokens x)) : ReadsAll (l.map line) (l.flatMap tokens) := by
  have hflat : l.map line = l.flatMap fun x => [line x] := by
    induction l with
    | nil => rfl
    | cons x l ih =>
      rw [List.map_cons, List.flatMap_cons, ih (List.forall_mem_cons.1 h).2]
      rfl
  rw [hflat]
  exact readsAll_flatMap fun x hx => (h x hx).all

/-- The strings of an entry can be written as they are. -/
def Literal (e : Entry) : Prop := (∀ c ∈ e.name, Plain c) ∧ ∀ d ∈ e.domains, ∀ c ∈ d, Plain c

/-- The arrays of an entry, as declarations and as tokens. -/
def entryParts (i : Nat) (e : Entry) : List (Decl × List Token) :=
  [(.strings (kDenProxyDomains i) (nullTerminated e.domains),
      stringsTokens (kDenProxyDomains i) e.domains),
    (.bytes (kDenProxyKey i) none (e.key.map UInt8.toNat), bytesTokens (kDenProxyKey i) none e.key)] ++
  match e.pin with
  | none => []
  | some pin => [(.bytes (kDenProxyPin i) (some 32) (pin.map UInt8.toNat),
      bytesTokens (kDenProxyPin i) (some 32) pin)]

theorem reads_nullptr : Reads "    nullptr".toList [word "nullptr"] := by decide

theorem reads_end : Reads "\x7d;".toList [.punct '}', .punct ';'] := by decide

theorem reads_generated :
    Reads "// GENERATED by build.sh (Step 2.5) from the \"proxies\" array in".toList [] := by
  decide +kernel

theorem reads_doNotEdit :
    Reads "// config/site-config.json.  Do not edit here — edit the JSON, rebuild.".toList [] := by
  decide +kernel

theorem reads_kDenProxies : Reads "static const DenProxyEntry kDenProxies[] = \x7b".toList
    ([word "static", word "const", word "DenProxyEntry", word "kDenProxies"] ++
      boundsTokens none) := by decide

theorem reads_nullRow : Reads "  \x7bnullptr, nullptr, nullptr, 0, nullptr\x7d,".toList
    (rowTokens nullFields) := by decide

theorem readsAll_entry {i : Nat} {e : Entry} (h : Literal e) :
    ReadsAll (entryLines i e) ((entryParts i e).flatMap Prod.snd) := by
  have hdomains : ReadsAll (e.domains.map fun d => "    \"".toList ++ (d ++ "\",".toList))
      (e.domains.flatMap fun d => [.literal d, .punct ',']) :=
    readsAll_map fun d hd => reads_domain (h.2 d hd)
  have hstrings := (reads_domains i).all.append (hdomains.append
    (reads_nullptr.all.append reads_end.all))
  have hkey := (reads_key i).all.append ((reads_cBytes e.key).all.append reads_end.all)
  have harrays := hstrings.append hkey
  unfold entryLines entryParts
  cases e.pin with
  | none =>
    simp only [List.append_nil, List.append_assoc, List.flatMap_cons, List.flatMap_nil,
      stringsTokens, bytesTokens, List.cons_append, List.nil_append] at harrays ⊢
    exact harrays
  | some pin =>
    have hpin := (reads_pin i).all.append ((reads_cBytes pin).all.append reads_end.all)
    have hall := harrays.append hpin
    simp only [List.append_nil, List.append_assoc, List.flatMap_cons, List.flatMap_nil,
      stringsTokens, bytesTokens, List.cons_append, List.nil_append] at hall ⊢
    exact hall

/-- The rows of the table. -/
def tableRows (entries : List Entry) : List (List Field) :=
  (entries.zipIdx.map fun e => rowFields e.2 e.1) ++ [nullFields]

/-- The declarations of the table, with their tokens. -/
def tableParts (entries : List Entry) : List (Decl × List Token) :=
  (entries.zipIdx.flatMap fun e => entryParts e.2 e.1) ++
    [(.rows "DenProxyEntry".toList "kDenProxies".toList (tableRows entries),
      rowsTokens "DenProxyEntry".toList "kDenProxies".toList (tableRows entries))]

theorem readsAll_table {entries : List Entry} (h : ∀ e ∈ entries, Literal e) :
    ReadsAll (tableLines entries) ((tableParts entries).flatMap Prod.snd) := by
  have hmem : ∀ e ∈ entries.zipIdx, Literal e.1 := fun e he => h e.1 (List.fst_mem_of_mem_zipIdx he)
  have harrays : ReadsAll (entries.zipIdx.flatMap fun e => entryLines e.2 e.1)
      (entries.zipIdx.flatMap fun e => (entryParts e.2 e.1).flatMap Prod.snd) :=
    readsAll_flatMap fun e he => readsAll_entry (hmem e he)
  have hrows : ReadsAll (entries.zipIdx.map fun e => rowLine e.2 e.1)
      (entries.zipIdx.flatMap fun e => rowTokens (rowFields e.2 e.1)) :=
    readsAll_map fun e he => reads_row (hmem e he).1
  have hall := reads_generated.all.append (reads_doNotEdit.all.append (harrays.append
    (reads_kDenProxies.all.append (hrows.append (reads_nullRow.all.append reads_end.all)))))
  unfold tableLines tableParts tableRows
  simp only [List.flatMap_append, List.flatMap_cons, List.flatMap_nil, List.append_nil,
    List.append_assoc, List.flatMap_assoc, List.flatMap_map, rowsTokens, List.cons_append, List.nil_append,
    word] at hall ⊢
  exact hall

theorem good_indexed {name : String} {c : Char} {s : Str} (hname : name.toList = c :: s)
    (hc : CTables.decValue c = none) (hzero : c ≠ '0') {i : Nat}
    (hnull : indexed name i ≠ "nullptr".toList) (hcast : indexed name i ≠ "static_cast".toList) :
    (Field.name (indexed name i)).Good := by
  refine ⟨hcast, ?_⟩
  unfold indexed at hnull ⊢
  rw [hname, List.cons_append] at hnull ⊢
  exact wordField_name hc hzero hnull

theorem good_rows (entries : List Entry) :
    ∀ r ∈ tableRows entries, r ≠ [] ∧ ∀ f ∈ r, f.Good := by
  have hne : ∀ (name : String) (c : Char) (i : Nat) (t : Str), name.toList.head? = some c →
      t.head? ≠ some c → indexed name i ≠ t := by
    intro name c i t hname ht heq
    apply ht
    rw [← heq]
    unfold indexed
    rw [List.head?_append, hname]
    rfl
  have hdomains : ∀ i, (Field.name (kDenProxyDomains i)).Good := fun i =>
    good_indexed (c := 'k') (s := "DenProxyDomains_".toList) rfl (by decide) (by decide)
      (hne _ 'k' i _ rfl (by decide)) (hne _ 'k' i _ rfl (by decide))
  have hkey : ∀ i, (Field.name (kDenProxyKey i)).Good := fun i =>
    good_indexed (c := 'k') (s := "DenProxyKey_".toList) rfl (by decide) (by decide)
      (hne _ 'k' i _ rfl (by decide)) (hne _ 'k' i _ rfl (by decide))
  have hpin : ∀ i, (Field.name (kDenProxyPin i)).Good := fun i =>
    good_indexed (c := 'k') (s := "DenProxyPin_".toList) rfl (by decide) (by decide)
      (hne _ 'k' i _ rfl (by decide)) (hne _ 'k' i _ rfl (by decide))
  intro r hr
  unfold tableRows at hr
  rcases List.mem_append.1 hr with hr | hr
  · obtain ⟨e, _, rfl⟩ := List.mem_map.1 hr
    refine ⟨by simp [rowFields], ?_⟩
    intro f hf
    unfold rowFields pinField at hf
    simp only [List.mem_cons, List.not_mem_nil, or_false] at hf
    rcases hf with rfl | rfl | rfl | rfl | rfl
    · exact trivial
    · exact hdomains _
    · exact hkey _
    · exact trivial
    · cases e.1.pin with
      | none => exact trivial
      | some pin => exact hpin _
  · rw [List.mem_singleton.1 hr]
    refine ⟨by simp [nullFields], ?_⟩
    intro f hf
    unfold nullFields at hf
    have hzero : (Field.number 0).Good := ⟨by decide, by decide⟩
    simp only [List.mem_cons, List.not_mem_nil, or_false] at hf
    rcases hf with rfl | rfl | rfl | rfl | rfl
    · exact trivial
    · exact trivial
    · exact trivial
    · exact hzero
    · exact trivial

/-- **The text between the sentinels** is the declarations of the table. -/
theorem declarations_body {entries : List Entry} (h : ∀ e ∈ entries, Literal e) :
    declarations (body entries) = some ((tableParts entries).map Prod.fst) := by
  apply declarations_eq
  · have hnewline : run .comment ['\n'] = some ([], .code) := by decide
    have hrun := run_trans hnewline (readsAll_table h)
    unfold lex
    have hbody : run .comment (body entries) =
        some ((tableParts entries).flatMap Prod.snd, .code) := hrun
    rw [hbody]
    show some (_ ++ []) = _
    rw [List.append_nil]
  · intro p hp
    unfold tableParts at hp
    rcases List.mem_append.1 hp with hp | hp
    · obtain ⟨e, _, hp⟩ := List.mem_flatMap.1 hp
      have hsize : ∀ n, some 32 = some n → number (Nat.toDigits 10 n) = some n := by
        intro n hn
        cases hn
        decide
      unfold entryParts at hp
      rcases List.mem_append.1 hp with hp | hp
      · simp only [List.mem_cons, List.not_mem_nil, or_false] at hp
        rcases hp with rfl | rfl
        · exact ⟨by simp [stringsTokens], readDecl_strings _ _⟩
        · exact ⟨by simp [bytesTokens], readDecl_bytes _ (by simp) _⟩
      · cases hpin : e.1.pin with
        | none =>
          rw [hpin] at hp
          cases hp
        | some pin =>
          rw [hpin] at hp
          rw [List.mem_singleton.1 hp]
          exact ⟨by simp [bytesTokens], readDecl_bytes _ hsize _⟩
    · rw [List.mem_singleton.1 hp]
      exact ⟨by simp [rowsTokens],
        readDecl_rows (by decide) _ _ (good_rows entries)⟩

end DenBrowser.ProxyTableText
