import DenBrowser.Lib.Unicode

/-!
# Distinguished names as strings

The string form of distinguished names of RFC 4514, and a reader for it: names are lists of
relative names, each a list of attributes with a type and a value.

* `readAttribute_length` — reading an attribute moves on, so that the reader ends;
* `parse_intercalate` — attributes joined by commas are read one after the other;
* `isAttributeType_chars` — what an attribute type is written with.
-/

set_option autoImplicit false

namespace Rfc4514

/-- `HEX` -/
def hexValue (c : Char) : Option Nat :=
  if c.isDigit then some (c.toNat - 48)
  else if 'a' ≤ c ∧ c ≤ 'f' then some (c.toNat - 87)
  else if 'A' ≤ c ∧ c ≤ 'F' then some (c.toNat - 55)
  else none

/-! ## Values -/

/-- A character of a value: as it stands, or the bytes of a pair. -/
inductive Part where
  | plain (c : Char)
  | pair (bytes : List UInt8)
  deriving DecidableEq

def Part.bytes : Part → List UInt8
  | .plain c => String.utf8EncodeChar c
  | .pair bytes => bytes

/-- The characters that stand for themselves after an `ESC`: `ESC` and `special`. -/
def isPairChar (c : Char) : Bool := ['\\', '"', '+', ',', ';', '<', '>', ' ', '#', '='].contains c

/-- The characters a value holds in pairs only, other than the two that end it. -/
def isForbidden (c : Char) : Bool := ['"', ';', '<', '>', Char.ofNat 0].contains c

/-- The parts of a `string`, up to the `,` or `+` that ends it. -/
def readParts : List Char → Option (List Part × List Char)
  | [] => some ([], [])
  | '\\' :: c :: rest =>
    if isPairChar c then
      (readParts rest).map fun r => (.pair (String.utf8EncodeChar c) :: r.1, r.2)
    else
      match rest with
      | [] => none
      | d :: rest =>
        match hexValue c, hexValue d with
        | some h, some l =>
          (readParts rest).map fun r => (.pair [UInt8.ofNat (16 * h + l)] :: r.1, r.2)
        | _, _ => none
  | c :: rest =>
    if c = ',' ∨ c = '+' then some ([], c :: rest)
    else if c = '\\' ∨ isForbidden c then none
    else (readParts rest).map fun r => (.plain c :: r.1, r.2)

/-- Neither a space nor a `#` leads, and no space trails. -/
def wellPlaced (parts : List Part) : Bool :=
  parts.head? != some (.plain ' ') && parts.head? != some (.plain '#') &&
    parts.getLast? != some (.plain ' ')

/-- `hexpair`s, as many as there are. -/
def readHexPairs : List Char → List UInt8 × List Char
  | c :: d :: rest =>
    match hexValue c, hexValue d with
    | some h, some l =>
      let r := readHexPairs rest
      (UInt8.ofNat (16 * h + l) :: r.1, r.2)
    | _, _ => ([], c :: d :: rest)
  | rest => ([], rest)

inductive Value where
  | string (text : List Char)
  | hexstring (bytes : List UInt8)
  deriving DecidableEq

/-- `attributeValue` -/
def readValue (s : List Char) : Option (Value × List Char) :=
  match s with
  | '#' :: rest =>
    let r := readHexPairs rest
    if r.1 = [] then none else some (.hexstring r.1, r.2)
  | s =>
    match readParts s with
    | none => none
    | some (parts, rest) =>
      if wellPlaced parts then
        (Unicode.utf8Decode (parts.flatMap Part.bytes)).map fun text => (.string text, rest)
      else none

/-! ## Types -/

/-- `keystring` -/
def isKeystring : List Char → Bool
  | [] => false
  | c :: cs => c.isAlpha && cs.all fun d => d.isAlphanum || d == '-'

/-- `number` -/
def isNumber (s : List Char) : Bool :=
  s != [] && s.all Char.isDigit && (s.head? != some '0' || s.length == 1)

/-- `attributeType`: a `descr` or a `numericoid`. -/
def isAttributeType (s : List Char) : Bool :=
  isKeystring s || (2 ≤ (s.splitOn '.').length && (s.splitOn '.').all isNumber)

abbrev Attribute := List Char × Value

/-- `attributeTypeAndValue` -/
def readAttribute (s : List Char) : Option (Attribute × List Char) :=
  let type := s.takeWhile (· != '=')
  match s.drop type.length with
  | [] => none
  | _ :: rest =>
    if isAttributeType type then (readValue rest).map fun r => ((type, r.1), r.2) else none

/-! ## Reading a value -/

theorem readParts_pair {c : Char} (hc : isPairChar c = true) (rest : List Char) :
    readParts ('\\' :: c :: rest) =
      (readParts rest).map fun r => (.pair (String.utf8EncodeChar c) :: r.1, r.2) := by
  rw [readParts.eq_def]
  exact if_pos hc

theorem readParts_hexpair {c d : Char} {h l : Nat} (hc : isPairChar c = false)
    (hh : hexValue c = some h) (hl : hexValue d = some l) (rest : List Char) :
    readParts ('\\' :: c :: d :: rest) =
      (readParts rest).map fun r => (.pair [UInt8.ofNat (16 * h + l)] :: r.1, r.2) := by
  rw [readParts.eq_def]
  simp [hc, hh, hl]

theorem readParts_plain {c : Char} (hesc : c ≠ '\\') (hcomma : c ≠ ',') (hplus : c ≠ '+')
    (hno : isForbidden c = false) (rest : List Char) :
    readParts (c :: rest) = (readParts rest).map fun r => (.plain c :: r.1, r.2) := by
  rw [readParts.eq_def]
  split
  · rename_i heq
    cases heq
  · rename_i heq
    exact absurd (List.cons.inj heq).1 hesc
  · rename_i heq
    obtain ⟨rfl, rfl⟩ := List.cons.inj heq
    rw [if_neg (by simp [hcomma, hplus]), if_neg (by simp [hesc, hno])]

/-- What follows an attribute: nothing, or a comma. -/
def Stops (tail : List Char) : Prop := ∀ c ∈ tail.head?, c = ','

theorem readParts_stops {tail : List Char} (h : Stops tail) : readParts tail = some ([], tail) := by
  cases tail with
  | nil => rw [readParts]
  | cons c rest =>
    obtain rfl : c = ',' := h c rfl
    rw [readParts.eq_def]
    rfl

/-! ## Names -/

theorem readParts_length : ∀ {s : List Char} {parts : List Part} {rest : List Char},
    readParts s = some (parts, rest) → rest.length ≤ s.length := by
  intro s
  have hmap : ∀ {r : Option (List Part × List Char)} {p : Part} {parts : List Part}
      {rest : List Char}, (r.map fun r => (p :: r.1, r.2)) = some (parts, rest) →
      ∃ tail, r = some (tail, rest) := by
    intro r p parts rest h
    obtain ⟨⟨tail, rest'⟩, hr, heq⟩ := Option.map_eq_some_iff.1 h
    simp only [Prod.mk.injEq] at heq
    exact ⟨tail, by rw [hr, heq.2]⟩
  fun_induction readParts s with
  | case1 => intro parts rest h; cases h; simp
  | case2 c rest hc ih =>
    intro parts rest' h
    obtain ⟨tail, htail⟩ := hmap h
    have := ih htail
    simp only [List.length_cons]
    omega
  | case3 => intro parts rest h; cases h
  | case4 c hc d rest h₁ l₁ hh hl ih =>
    intro parts rest' h
    obtain ⟨tail, htail⟩ := hmap h
    have := ih htail
    simp only [List.length_cons]
    omega
  | case5 => intro parts rest h; cases h
  | case6 c rest hc hsep => intro parts rest' h; cases h; simp
  | case7 => intro parts rest h; cases h
  | case8 c rest hc hsep hno ih =>
    intro parts rest' h
    obtain ⟨tail, htail⟩ := hmap h
    have := ih htail
    simp only [List.length_cons]
    omega

theorem readHexPairs_length (s : List Char) : (readHexPairs s).2.length ≤ s.length := by
  fun_induction readHexPairs s with
  | case1 c d rest h l hh hl r ih =>
    have hr : r = readHexPairs rest := rfl
    rw [hr]
    simp only [List.length_cons]
    omega
  | case2 => exact Nat.le_refl _
  | case3 => exact Nat.le_refl _

theorem readValue_length {s rest : List Char} {v : Value} (h : readValue s = some (v, rest)) :
    rest.length ≤ s.length := by
  unfold readValue at h
  split at h
  · rename_i tail
    dsimp only at h
    split at h
    · cases h
    · cases h
      have := readHexPairs_length tail
      simp only [List.length_cons]
      omega
  · split at h
    · cases h
    · rename_i parts rest' hparts
      split at h
      · obtain ⟨text, _, heq⟩ := Option.map_eq_some_iff.1 h
        cases heq
        exact readParts_length hparts
      · cases h

theorem readAttribute_length {s rest : List Char} {a : Attribute}
    (h : readAttribute s = some (a, rest)) : rest.length < s.length := by
  unfold readAttribute at h
  dsimp only at h
  split at h
  · cases h
  · rename_i c tail hdrop
    split at h
    · obtain ⟨⟨v, rest'⟩, hv, heq⟩ := Option.map_eq_some_iff.1 h
      simp only [Prod.mk.injEq] at heq
      obtain ⟨_, rfl⟩ := heq
      have hle := readValue_length hv
      have hlen := congrArg List.length hdrop
      rw [List.length_drop, List.length_cons] at hlen
      omega
    · cases h

/-- `relativeDistinguishedName`s joined by commas, each of attributes joined by `+`. -/
def readNames (s : List Char) : Option (List (List Attribute)) :=
  match h : readAttribute s with
  | none => none
  | some (a, []) => some [[a]]
  | some (a, c :: rest) =>
    have : rest.length < s.length := by
      have := readAttribute_length h
      simp only [List.length_cons] at this
      omega
    match readNames rest with
    | none => none
    | some [] => none
    | some (rdn :: rdns) => if c = ',' then some ([a] :: rdn :: rdns) else some ((a :: rdn) :: rdns)
termination_by s.length

/-- `distinguishedName` -/
def parse (s : List Char) : Option (List (List Attribute)) :=
  if s = [] then some [] else readNames s

/-- The text is read as the attribute, whatever follows. -/
def ReadAs (text : List Char) (a : Attribute) : Prop :=
  ∀ tail, Stops tail → readAttribute (text ++ tail) = some (a, tail)

theorem readNames_last {text : List Char} {a : Attribute} (h : ReadAs text a) :
    readNames text = some [[a]] := by
  have hread := h [] (by simp [Stops])
  rw [List.append_nil] at hread
  rw [readNames]
  split
  · rename_i hnone
    rw [hread] at hnone
    cases hnone
  · rename_i hsome
    rw [hread] at hsome
    cases hsome
    rfl
  · rename_i hsome
    rw [hread] at hsome
    cases hsome

theorem readNames_comma {text rest : List Char} {a : Attribute} {rdns : List (List Attribute)}
    (h : ReadAs text a) (hrest : readNames rest = some rdns) (hne : rdns ≠ []) :
    readNames (text ++ ',' :: rest) = some ([a] :: rdns) := by
  have hread := h (',' :: rest) (by simp [Stops])
  rw [readNames]
  split
  · rename_i hnone
    rw [hread] at hnone
    cases hnone
  · rename_i hsome
    rw [hread] at hsome
    cases hsome
  · rename_i hsome
    rw [hread] at hsome
    cases hsome
    rw [hrest]
    cases rdns with
    | nil => exact absurd rfl hne
    | cons rdn rdns => rfl

/-- **Attributes joined by commas are read one after the other**, each as a relative name. -/
theorem parse_intercalate {entries : List (List Char × Attribute)}
    (h : ∀ e ∈ entries, e.1 ≠ [] ∧ ReadAs e.1 e.2) :
    parse ([','].intercalate (entries.map Prod.fst)) = some (entries.map fun e => [e.2]) := by
  have hread : ∀ entries : List (List Char × Attribute), entries ≠ [] →
      (∀ e ∈ entries, e.1 ≠ [] ∧ ReadAs e.1 e.2) →
      readNames ([','].intercalate (entries.map Prod.fst)) = some (entries.map fun e => [e.2]) ∧
        [','].intercalate (entries.map Prod.fst) ≠ [] := by
    intro entries
    induction entries with
    | nil => intro hne; exact absurd rfl hne
    | cons e entries ih =>
      intro _ h
      obtain ⟨he, hrest⟩ := List.forall_mem_cons.1 h
      cases entries with
      | nil =>
        simp only [List.map_cons, List.map_nil, List.intercalate_singleton]
        exact ⟨readNames_last he.2, he.1⟩
      | cons e' entries =>
        obtain ⟨hnames, _⟩ := ih (List.cons_ne_nil _ _) hrest
        have hcons : [','].intercalate ((e :: e' :: entries).map Prod.fst) =
            e.1 ++ ',' :: [','].intercalate ((e' :: entries).map Prod.fst) := by
          simp [List.intercalate_cons_cons]
        rw [hcons]
        refine ⟨readNames_comma he.2 hnames (by simp), ?_⟩
        intro hnil
        exact he.1 (List.append_eq_nil_iff.1 hnil).1
  cases entries with
  | nil => rfl
  | cons e entries =>
    obtain ⟨hnames, hne⟩ := hread (e :: entries) (List.cons_ne_nil _ _) h
    rw [parse, if_neg hne, hnames]

/-! ## Characters of a type -/

/-- **An attribute type is written with letters, digits, hyphens and dots.** -/
theorem isAttributeType_chars {s : List Char} (h : isAttributeType s = true) :
    ∀ c ∈ s, c.isAlphanum = true ∨ c = '-' ∨ c = '.' := by
  intro c hc
  unfold isAttributeType at h
  rw [Bool.or_eq_true] at h
  rcases h with h | h
  · cases s with
    | nil => cases hc
    | cons d s =>
      simp only [isKeystring, Bool.and_eq_true, List.all_eq_true, Bool.or_eq_true,
        beq_iff_eq] at h
      rcases List.mem_cons.1 hc with rfl | hc
      · exact Or.inl (by simp [Char.isAlphanum, h.1])
      · rcases h.2 c hc with h | h
        · exact Or.inl h
        · exact Or.inr (Or.inl h)
  · rw [Bool.and_eq_true, List.all_eq_true] at h
    have hmem : c ∈ ['.'].intercalate (s.splitOn '.') := by
      rwa [List.intercalate_splitOn]
    by_cases hdot : c = '.'
    · exact Or.inr (Or.inr hdot)
    obtain ⟨l, hl, hcl⟩ : ∃ l ∈ s.splitOn '.', c ∈ l := by
      generalize s.splitOn '.' = ls at hmem
      induction ls with
      | nil => simp at hmem
      | cons l ls ih =>
        cases ls with
        | nil => exact ⟨l, by simp, by simpa using hmem⟩
        | cons l' ls =>
          rw [List.intercalate_cons_cons, List.mem_append, List.mem_append] at hmem
          rcases hmem with (hmem | hmem) | hmem
          · exact ⟨l, by simp, hmem⟩
          · exact absurd (by simpa using hmem) hdot
          · obtain ⟨m, hm, hcm⟩ := ih hmem
            exact ⟨m, List.mem_cons_of_mem _ hm, hcm⟩
    have hnumber := h.2 l hl
    simp only [isNumber, Bool.and_eq_true, List.all_eq_true] at hnumber
    exact Or.inl (by simp [Char.isAlphanum, hnumber.1.2 c hcl])

end Rfc4514
