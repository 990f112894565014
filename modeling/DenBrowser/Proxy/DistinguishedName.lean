import DenBrowser.Lib.Rfc4514
import DenBrowser.Proxy.Mtls

/-!
# Distinguished names

`distinguished_name` writes a certificate name as one string, which ends up in the audit log and in
headers for the upstream.  Read as RFC 4514 says, the string gives the name's entries back, so that
no two names look alike.

* `readParts_escape` — an escaped value is read up to its end, character by character;
* `wellPlaced_escape` — no space or `#` stands where the grammar does not allow it;
* `noControl_escape` — no control character is left;
* `distinguishedName_unambiguous` — the round trip, and that different names are written
  differently.
-/

set_option autoImplicit false

namespace DenBrowser

open Rfc4514

/-! ## What an escaped value is read as -/

/-- The parts that `escape_dn_value` writes for character `i`. -/
def charParts (last i : Nat) (c : Char) : List Part :=
  if c ∈ "\"+,;<>\\".toList then [.pair (String.utf8EncodeChar c)]
  else if c = '#' ∧ i = 0 then [.pair (String.utf8EncodeChar c)]
  else if c = ' ' ∧ (i = 0 ∨ i = last) then [.pair (String.utf8EncodeChar c)]
  else if isControl c then (asBytes [c]).map fun b => .pair [b]
  else [.plain c]

/-- The parts that `escape_dn_value` writes from character `i` on. -/
def escapedParts (last : Nat) : Nat → Str → List Part
  | _, [] => []
  | i, c :: cs => charParts last i c ++ escapedParts last (i + 1) cs

/-- The parts put before what is read next. -/
def withParts (ps : List Part) (r : Option (List Part × Str)) : Option (List Part × Str) :=
  r.map fun r => (ps ++ r.1, r.2)

theorem withParts_withParts (ps qs : List Part) (r : Option (List Part × Str)) :
    withParts ps (withParts qs r) = withParts (ps ++ qs) r := by
  cases r <;> simp [withParts]

theorem hexUpper_digit {n : Nat} (h : n < 16) :
    hexValue (Nat.digitChar n).toUpper = some n ∧
      isPairChar (Nat.digitChar n).toUpper = false ∧
      isControl (Nat.digitChar n).toUpper = false := by
  revert n
  decide

/-- An escaped byte is read as that byte. -/
theorem readParts_hexUpper (b : UInt8) (rest : Str) :
    readParts ('\\' :: hexUpper b ++ rest) = withParts [.pair [b]] (readParts rest) := by
  have hlt := b.toNat_lt
  have hhigh := hexUpper_digit (n := b.toNat / 16) (by omega)
  have hlow := hexUpper_digit (n := b.toNat % 16) (by omega)
  have hsum : 16 * (b.toNat / 16) + b.toNat % 16 = b.toNat := by omega
  have hread := readParts_hexpair hhigh.2.1 hhigh.1 hlow.1 rest
  rw [hsum, UInt8.ofNat_toNat] at hread
  exact hread

theorem readParts_bytes (bs : Bytes) (rest : Str) :
    readParts ((bs.flatMap fun b => '\\' :: hexUpper b) ++ rest) =
      withParts (bs.map fun b => .pair [b]) (readParts rest) := by
  induction bs with
  | nil => cases h : readParts rest <;> simp [withParts, h]
  | cons b bs ih =>
    rw [List.flatMap_cons, List.append_assoc, readParts_hexUpper, ih, withParts_withParts]
    rfl

theorem not_forbidden {c : Char} (hc : c ∉ "\"+,;<>\\".toList) (hctl : isControl c = false) :
    c ≠ '\\' ∧ c ≠ ',' ∧ c ≠ '+' ∧ isForbidden c = false := by
  have hlist : "\"+,;<>\\".toList = ['"', '+', ',', ';', '<', '>', '\\'] := rfl
  rw [hlist] at hc
  simp only [List.mem_cons, List.not_mem_nil, or_false, not_or] at hc
  obtain ⟨hquote, hplus, hcomma, hsemi, hless, hmore, hesc⟩ := hc
  refine ⟨hesc, hcomma, hplus, ?_⟩
  have hnul : c ≠ Char.ofNat 0 := by
    rintro rfl
    revert hctl
    decide
  simp [isForbidden, hquote, hsemi, hless, hmore, hnul]

/-- **An escaped value is read up to its end.** -/
theorem readParts_escape (last : Nat) (value : Str) {tail : Str} (ht : Stops tail) : ∀ i,
    readParts (escapeDnFrom last i value ++ tail) = some (escapedParts last i value, tail) := by
  induction value with
  | nil => intro i; exact readParts_stops ht
  | cons c cs ih =>
    intro i
    have hrest : ∀ ps, withParts ps (readParts (escapeDnFrom last (i + 1) cs ++ tail)) =
        some (ps ++ escapedParts last (i + 1) cs, tail) := by
      intro ps
      rw [ih]
      rfl
    rw [escapeDnFrom, escapedParts]
    unfold charParts
    rw [List.append_assoc]
    by_cases hspecial : c ∈ "\"+,;<>\\".toList
    · rw [if_pos hspecial, if_pos hspecial, ← hrest]
      refine readParts_pair ?_ _
      have hlist : "\"+,;<>\\".toList = ['"', '+', ',', ';', '<', '>', '\\'] := rfl
      rw [hlist] at hspecial
      simp only [List.mem_cons, List.not_mem_nil, or_false] at hspecial
      rcases hspecial with rfl | rfl | rfl | rfl | rfl | rfl | rfl <;> decide
    rw [if_neg hspecial, if_neg hspecial]
    by_cases hsharp : c = '#' ∧ i = 0
    · rw [if_pos hsharp, if_pos hsharp, ← hrest, hsharp.1]
      exact readParts_pair (by decide) _
    rw [if_neg hsharp, if_neg hsharp]
    by_cases hspace : c = ' ' ∧ (i = 0 ∨ i = last)
    · rw [if_pos hspace, if_pos hspace, ← hrest, hspace.1]
      exact readParts_pair (by decide) _
    rw [if_neg hspace, if_neg hspace]
    by_cases hctl : isControl c = true
    · rw [if_pos hctl, if_pos hctl, ← hrest]
      exact readParts_bytes _ _
    · rw [if_neg hctl, if_neg hctl, ← hrest]
      obtain ⟨hesc, hcomma, hplus, hno⟩ := not_forbidden hspecial (by simpa using hctl)
      exact readParts_plain hesc hcomma hplus hno _

/-- The parts hold the bytes of the value. -/
theorem bytes_escapedParts (last : Nat) (value : Str) : ∀ i,
    (escapedParts last i value).flatMap Part.bytes = asBytes value := by
  induction value with
  | nil => intro i; rfl
  | cons c cs ih =>
    intro i
    have hbytes : ∀ bs : Bytes, (bs.map fun b => Part.pair [b]).flatMap Part.bytes = bs := by
      intro bs
      induction bs with
      | nil => rfl
      | cons b bs ih => rw [List.map_cons, List.flatMap_cons, ih]; rfl
    have hone : asBytes (c :: cs) = String.utf8EncodeChar c ++ asBytes cs := rfl
    rw [escapedParts, List.flatMap_append, ih, hone]
    congr 1
    unfold charParts
    repeat' split
    · simp [Part.bytes]
    · simp [Part.bytes]
    · simp [Part.bytes]
    · rw [hbytes]
      simp [asBytes]
    · simp [Part.bytes]

/-! ## Leading and trailing characters -/

theorem charParts_ne_nil (last i : Nat) (c : Char) : charParts last i c ≠ [] := by
  unfold charParts
  repeat' split
  all_goals simp [asBytes]

/-- A character is left as it stands only where it need not be escaped. -/
theorem plain_mem_charParts {last i : Nat} {c d : Char} (h : .plain d ∈ charParts last i c) :
    d = c ∧ ¬(c = '#' ∧ i = 0) ∧ ¬(c = ' ' ∧ (i = 0 ∨ i = last)) := by
  unfold charParts at h
  split at h
  · simp at h
  split at h
  · simp at h
  split at h
  · simp at h
  split at h
  · simp at h
  · rename_i hsharp hspace _
    rw [List.mem_singleton] at h
    cases h
    exact ⟨rfl, hsharp, hspace⟩

theorem escapedParts_ne_nil (last i : Nat) {value : Str} (h : value ≠ []) :
    escapedParts last i value ≠ [] := by
  cases value with
  | nil => exact absurd rfl h
  | cons c cs =>
    rw [escapedParts]
    simp [charParts_ne_nil]

/-- No space is left in the last place. -/
theorem getLast_escapedParts (last : Nat) : ∀ (value : Str) (i : Nat), value ≠ [] →
    i + value.length = last + 1 → (escapedParts last i value).getLast? ≠ some (.plain ' ') := by
  intro value
  induction value with
  | nil => intro i hne; exact absurd rfl hne
  | cons c cs ih =>
    intro i _ hlen
    rw [List.length_cons] at hlen
    rw [escapedParts]
    by_cases hcs : cs = []
    · have hi : i = last := by
        rw [hcs, List.length_nil] at hlen
        omega
      rw [hcs, escapedParts, List.append_nil]
      intro hlast
      obtain ⟨hc, _, hspace⟩ := plain_mem_charParts (List.mem_of_getLast? hlast)
      exact hspace ⟨hc.symm, Or.inr hi⟩
    · rw [List.getLast?_append_of_ne_nil _ (escapedParts_ne_nil last (i + 1) hcs)]
      exact ih (i + 1) hcs (by omega)

/-- Neither a space nor a `#` is left in the first place. -/
theorem head_escapedParts (last : Nat) {value : Str} {d : Char} (hd : d = ' ' ∨ d = '#') :
    (escapedParts last 0 value).head? ≠ some (.plain d) := by
  cases value with
  | nil => simp [escapedParts]
  | cons c cs =>
    rw [escapedParts, List.head?_append_of_ne_nil _ (charParts_ne_nil last 0 c)]
    intro hhead
    obtain ⟨rfl, hsharp, hspace⟩ := plain_mem_charParts (List.mem_of_head? hhead)
    rcases hd with rfl | rfl
    · exact hspace ⟨rfl, Or.inl rfl⟩
    · exact hsharp ⟨rfl, rfl⟩

/-- **No space or `#` stands where the grammar does not allow it.** -/
theorem wellPlaced_escape (value : Str) :
    wellPlaced (escapedParts (value.length - 1) 0 value) = true := by
  have hspace : (escapedParts (value.length - 1) 0 value).head? ≠ some (.plain ' ') :=
    head_escapedParts _ (Or.inl rfl)
  have hsharp : (escapedParts (value.length - 1) 0 value).head? ≠ some (.plain '#') :=
    head_escapedParts _ (Or.inr rfl)
  have hlast : (escapedParts (value.length - 1) 0 value).getLast? ≠ some (.plain ' ') := by
    by_cases h : value = []
    · rw [h]
      simp [escapedParts]
    · have hpos := List.length_pos_of_ne_nil h
      exact getLast_escapedParts _ value 0 h (by omega)
  unfold wellPlaced
  rw [Bool.and_eq_true, Bool.and_eq_true, bne_iff_ne, bne_iff_ne, bne_iff_ne]
  exact ⟨⟨hspace, hsharp⟩, hlast⟩

/-! ## Control characters -/

/-- **No control character is left in an escaped value.** -/
theorem noControl_escape (last : Nat) (value : Str) : ∀ i,
    ∀ c ∈ escapeDnFrom last i value, isControl c = false := by
  induction value with
  | nil => intro i c hc; cases hc
  | cons d ds ih =>
    intro i c hc
    have hword : ∀ w : Str, (w.all fun e => decide (isControl e = false)) = true →
        ∀ e ∈ w, isControl e = false := fun _ => forall_mem_of_all
    unfold escapeDnFrom at hc
    rcases List.mem_append.1 hc with hc | hc
    · split at hc
      · rename_i hd
        rcases List.mem_cons.1 hc with rfl | hc
        · decide
        · rw [List.mem_singleton] at hc
          exact hc ▸ hword _ (by decide) d hd
      split at hc
      · exact hword _ (by decide) c hc
      split at hc
      · exact hword _ (by decide) c hc
      split at hc
      · obtain ⟨b, _, hb⟩ := List.mem_flatMap.1 hc
        have hlt := b.toNat_lt
        simp only [hexUpper, List.map_cons, List.map_nil, List.mem_cons, List.not_mem_nil,
          or_false] at hb
        rcases hb with rfl | rfl | rfl
        · decide
        · exact (hexUpper_digit (by omega)).2.2
        · exact (hexUpper_digit (by omega)).2.2
      · rename_i hctl
        rw [List.mem_singleton] at hc
        rw [hc]
        simpa using hctl
    · exact ih (i + 1) c hc

theorem noControl_type {type : Str} (h : isAttributeType type = true) :
    ∀ c ∈ type, isControl c = false := by
  intro c hc
  have hsmall : c.isAlphanum = true → 48 ≤ c.toNat ∧ c.toNat < 127 := by
    intro h
    unfold Char.isAlphanum Char.isAlpha Char.isUpper Char.isLower Char.isDigit at h
    simp only [Bool.or_eq_true, Bool.and_eq_true, decide_eq_true_eq, UInt32.le_iff_toNat_le,
      ge_iff_le] at h
    have hv : c.toNat = c.val.toNat := rfl
    have : 'A'.val.toNat = 65 := rfl
    have : 'Z'.val.toNat = 90 := rfl
    have : 'a'.val.toNat = 97 := rfl
    have : 'z'.val.toNat = 122 := rfl
    have : '0'.val.toNat = 48 := rfl
    have : '9'.val.toNat = 57 := rfl
    omega
  rcases isAttributeType_chars h c hc with h | rfl | rfl
  · obtain ⟨hlow, hhigh⟩ := hsmall h
    simp only [isControl, Bool.or_eq_false_iff, Bool.and_eq_false_iff, decide_eq_false_iff_not]
    omega
  · decide
  · decide

/-! ## Names -/

/-- The names `openssl` gives attribute types.  Each is one that RFC 4514 allows, and no two types
share one. -/
structure TypeNames (τ : Type) where
  shortName : τ → Option Str
  oid : τ → Str
  valid : ∀ t, isAttributeType ((shortName t).getD (oid t)) = true
  distinct : ∀ t u, (shortName t).getD (oid t) = (shortName u).getD (oid u) → t = u

section Names

variable {τ : Type} (T : TypeNames τ)

def TypeNames.name (t : τ) : Str := (T.shortName t).getD (T.oid t)

/-- A certificate name presents these types and values, each value as UTF-8. -/
def TypeNames.Presents (name : List NameEntry) (entries : List (τ × Str)) : Prop :=
  List.Forall₂ (fun e x => e.shortName = T.shortName x.1 ∧ e.oid = T.oid x.1 ∧
    e.utf8 = some x.2) name entries

/-- The text of an entry. -/
def TypeNames.rdn (x : τ × Str) : Str := T.name x.1 ++ '=' :: escapeDnValue x.2

theorem TypeNames.rdn_ne_nil (x : τ × Str) : T.rdn x ≠ [] := by
  simp [TypeNames.rdn]

theorem TypeNames.Presents.rdn {name : List NameEntry} {entries : List (τ × Str)}
    (h : T.Presents name entries) : name.map NameEntry.rdn = entries.map T.rdn := by
  unfold TypeNames.Presents at h
  induction h with
  | nil => rfl
  | @cons e x name entries he _ ih =>
    obtain ⟨hshort, hoid, hutf8⟩ := he
    rw [List.map_cons, List.map_cons, ih]
    congr 1
    simp [NameEntry.rdn, TypeNames.rdn, TypeNames.name, hshort, hoid, hutf8]

theorem TypeNames.Presents.distinguishedName {name : List NameEntry} {entries : List (τ × Str)}
    (h : T.Presents name entries) :
    distinguishedName name = [','].intercalate (entries.reverse.map T.rdn) := by
  unfold DenBrowser.distinguishedName
  rw [List.map_reverse, h.rdn, List.map_reverse]
  rfl

/-- **An entry is read back**, whatever follows it. -/
theorem TypeNames.readAs_rdn (x : τ × Str) : ReadAs (T.rdn x) (T.name x.1, .string x.2) := by
  intro tail ht
  have htype : isAttributeType (T.name x.1) = true := T.valid x.1
  have hdecode : Unicode.utf8Decode (asBytes x.2) = some x.2 := Unicode.utf8Decode_eq_some_iff.2 rfl
  have hequals : ∀ c ∈ T.name x.1, (c != '=') = true := by
    intro c hc
    rw [bne_iff_ne]
    rintro rfl
    exact absurd (isAttributeType_chars htype _ hc) (by decide)
  have hsplit : T.rdn x ++ tail = T.name x.1 ++ '=' :: (escapeDnValue x.2 ++ tail) := by
    simp [TypeNames.rdn]
  have htake : (T.rdn x ++ tail).takeWhile (· != '=') = T.name x.1 := by
    rw [hsplit, List.takeWhile_append_of_pos hequals]
    simp
  -- an escaped value never starts with the `#` of a `hexstring`
  have hparts := readParts_escape (x.2.length - 1) x.2 ht 0
  have hvalue : readValue (escapeDnValue x.2 ++ tail) = some (.string x.2, tail) := by
    unfold readValue
    split
    · rename_i rest heq
      have hhash : readParts (escapeDnValue x.2 ++ tail) =
          (readParts rest).map fun r => (.plain '#' :: r.1, r.2) := by
        rw [heq]
        exact readParts_plain (by decide) (by decide) (by decide) (by decide) rest
      rw [show escapeDnValue x.2 = escapeDnFrom (x.2.length - 1) 0 x.2 from rfl, hparts] at hhash
      obtain ⟨⟨ps, r⟩, _, hps⟩ := Option.map_eq_some_iff.1 hhash.symm
      have hhead : (escapedParts (x.2.length - 1) 0 x.2).head? ≠ some (.plain '#') :=
        head_escapedParts _ (Or.inr rfl)
      rw [← (Prod.mk.inj hps).1] at hhead
      exact absurd rfl hhead
    · rw [show escapeDnValue x.2 = escapeDnFrom (x.2.length - 1) 0 x.2 from rfl, hparts]
      dsimp only
      rw [if_pos (wellPlaced_escape x.2), bytes_escapedParts, hdecode]
      rfl
  unfold readAttribute
  dsimp only
  rw [htake, hsplit, List.drop_left]
  dsimp only
  rw [if_pos htype, hvalue]
  rfl

theorem parse_distinguishedName {name : List NameEntry} {entries : List (τ × Str)}
    (h : T.Presents name entries) :
    parse (distinguishedName name) =
      some (entries.reverse.map fun x => [(T.name x.1, Value.string x.2)]) := by
  have hread := @parse_intercalate
    (entries.reverse.map fun x => (T.rdn x, (T.name x.1, Value.string x.2)))
    (by
      intro e he
      obtain ⟨x, _, rfl⟩ := List.mem_map.1 he
      exact ⟨T.rdn_ne_nil x, T.readAs_rdn x⟩)
  rw [List.map_map, List.map_map] at hread
  rw [h.distinguishedName]
  exact hread

theorem noControl_distinguishedName {name : List NameEntry} {entries : List (τ × Str)}
    (h : T.Presents name entries) : ∀ c ∈ distinguishedName name, isControl c = false := by
  intro c hc
  rw [h.distinguishedName] at hc
  rcases mem_intercalate hc with hc | ⟨text, htext, hc⟩
  · rw [List.mem_singleton.1 hc]
    decide
  · obtain ⟨x, _, rfl⟩ := List.mem_map.1 htext
    rcases List.mem_append.1 hc with hc | hc
    · exact noControl_type (T.valid x.1) c hc
    · rcases List.mem_cons.1 hc with rfl | hc
      · decide
      · exact noControl_escape _ x.2 0 c hc

/-- **A distinguished name is unambiguous.**  It holds no control character, RFC 4514 reads the
entries back, the last first, and two names that are written alike have the same entries. -/
theorem distinguishedName_unambiguous {name : List NameEntry} {entries : List (τ × Str)}
    (h : T.Presents name entries) :
    (∀ c ∈ distinguishedName name, isControl c = false) ∧
    parse (distinguishedName name) =
      some (entries.reverse.map fun x => [(T.name x.1, Value.string x.2)]) ∧
    ∀ (name' : List NameEntry) (entries' : List (τ × Str)), T.Presents name' entries' →
      distinguishedName name' = distinguishedName name → entries' = entries := by
  refine ⟨noControl_distinguishedName T h, parse_distinguishedName T h, ?_⟩
  intro name' entries' h' heq
  have hread := parse_distinguishedName T h'
  rw [heq, parse_distinguishedName T h, Option.some.injEq] at hread
  have hinj : Function.Injective fun x : τ × Str => [(T.name x.1, Value.string x.2)] := by
    rintro ⟨t, v⟩ ⟨u, w⟩ hxy
    simp only [List.cons.injEq, Prod.mk.injEq, Value.string.injEq, and_true] at hxy
    obtain ⟨ht, rfl⟩ := hxy
    rw [T.distinct t u ht]
  exact List.reverse_injective (List.map_injective_iff.2 hinj hread).symm

end Names

/-- Two attribute types, one of them known by its object identifier only. -/
def twoTypes : TypeNames Bool where
  shortName known := if known then some "O".toList else none
  oid known := if known then "2.5.4.10".toList else "1.3.6.1.4.1.55555.1".toList
  valid := by decide
  distinct := by decide

/-- A value with separators in it, and one that is a single space. -/
theorem distinguishedName_unambiguous_specials :
    parse (distinguishedName
      [⟨some "O".toList, "2.5.4.10".toList, false, some "Smith, Jones + Co".toList, []⟩,
        ⟨none, "1.3.6.1.4.1.55555.1".toList, false, some " ".toList, []⟩]) =
      some [[("1.3.6.1.4.1.55555.1".toList, .string " ".toList)],
        [("O".toList, .string "Smith, Jones + Co".toList)]] :=
  (@distinguishedName_unambiguous _ twoTypes _
    [(true, "Smith, Jones + Co".toList), (false, " ".toList)]
    (.cons ⟨rfl, rfl, rfl⟩ (.cons ⟨rfl, rfl, rfl⟩ .nil))).2.1

end DenBrowser
