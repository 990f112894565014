import Mathlib.Data.List.Infix
import Mathlib.Tactic.Common

/-!
# Replacement templates of Python's `re`

The replacement of `re.sub` is a template: a backslash begins an escape for a character or for a
group of the match.  The patterns here have no group, so that only the whole match can be meant.

* `parse` — the pieces of a template, or an error;
* `parse_plain` — without a backslash a template is its own text;
* `parse_frame` — what frames a template stands for itself;
* `run_count`, `run_length` — escapes do not make backslashes, or a text longer;
* `run_first_whole` — the first place of the match;
* `inert_of_run` — a template that is its own text has no escapes.
-/

set_option autoImplicit false

namespace PyTemplate

inductive Piece
  | char (c : Char)
  /-- The whole match. -/
  | whole
  deriving DecidableEq

/-- What the parser is in. -/
inductive Mode
  | text
  | backslash
  /-- After `\0` and at most one more octal digit. -/
  | zero (value count : Nat)
  /-- After a backslash and one or two octal digits of three. -/
  | octal (value count : Nat)
  | group
  /-- In the name of a group, which has to be a number; `some` when it has a digit. -/
  | name (some : Bool)
  deriving DecidableEq

def octDigit (c : Char) : Option Nat :=
  if '0' ≤ c ∧ c ≤ '7' then some (c.toNat - 48) else none

/-- The character of a letter's escape sequence, or of the backslash's. -/
def escape (c : Char) : Option Char :=
  match c with
  | 'a' => some (Char.ofNat 7)
  | 'b' => some (Char.ofNat 8)
  | 'f' => some (Char.ofNat 12)
  | 'n' => some '\n'
  | 'r' => some '\r'
  | 't' => some '\t'
  | 'v' => some (Char.ofNat 11)
  | '\\' => some '\\'
  | _ => none

/-- A character outside of an escape. -/
def stepText (c : Char) : List Piece × Mode :=
  if c = '\\' then ([], .backslash) else ([.char c], .text)

/-- The character after a backslash.  A number of a group is an error. -/
def stepBackslash (c : Char) : Option (List Piece × Mode) :=
  match escape c with
  | some d => some ([.char d], .text)
  | none =>
    if c = 'g' then some ([], .group)
    else if c = '0' then some ([], .zero 0 0)
    else if c.isDigit then (octDigit c).map fun n => ([], .octal n 1)
    else if c.isAlpha then none
    else some ([.char '\\', .char c], .text)

/-- One character: the pieces it ends, and the mode after it. -/
def step (m : Mode) (c : Char) : Option (List Piece × Mode) :=
  match m with
  | .text => some (stepText c)
  | .backslash => stepBackslash c
  | .zero value count =>
    match octDigit c with
    | some n =>
      if count = 0 then some ([], .zero n 1) else some ([.char (Char.ofNat (8 * value + n))], .text)
    | none => some (.char (Char.ofNat value) :: (stepText c).1, (stepText c).2)
  | .octal value count =>
    match octDigit c with
    | some n =>
      if count = 1 then some ([], .octal (8 * value + n) 2)
      else if 8 * value + n ≤ 255 then some ([.char (Char.ofNat (8 * value + n))], .text)
      else none
    | none => none
  | .group => if c = '<' then some ([], .name false) else none
  | .name digits =>
    if c = '0' then some ([], .name true)
    else if c = '>' ∧ digits = true then some ([.whole], .text)
    else none

/-- The pieces of a part of a template, and the mode at its end. -/
def run : Mode → List Char → Option (List Piece × Mode)
  | m, [] => some ([], m)
  | m, c :: cs =>
    match step m c with
    | none => none
    | some r => (run r.2 cs).map fun r' => (r.1 ++ r'.1, r'.2)

/-- The end of a template. -/
def finish (m : Mode) : Option (List Piece) :=
  match m with
  | .text => some []
  | .zero value _ => some [.char (Char.ofNat value)]
  | _ => none

/-- The pieces of a template; `none` is an error. -/
def parse (template : List Char) : Option (List Piece) :=
  (run .text template).bind fun r => (finish r.2).map fun last => r.1 ++ last

/-- What stands for a match. -/
def expand (pieces : List Piece) (m : List Char) : List Char :=
  pieces.flatMap fun p =>
    match p with
    | .char c => [c]
    | .whole => m

/-! ## Parts of a template -/

theorem run_append (a b : List Char) : ∀ m : Mode,
    run m (a ++ b) = (run m a).bind fun r => (run r.2 b).map fun r' => (r.1 ++ r'.1, r'.2) := by
  induction a with
  | nil =>
    intro m
    show run m b = (run m b).map fun r' => ([] ++ r'.1, r'.2)
    simp
  | cons c a ih =>
    intro m
    rw [List.cons_append, run, run]
    cases step m c with
    | none => rfl
    | some r =>
      dsimp only
      rw [ih]
      cases run r.2 a with
      | none => rfl
      | some r' =>
        simp only [Option.bind_some, Option.map_some, Option.map_map, Function.comp_def,
          List.append_assoc]

theorem run_append_some {a b : List Char} {m m'' : Mode} {ps : List Piece}
    (h : run m (a ++ b) = some (ps, m'')) :
    ∃ qs m' rs, run m a = some (qs, m') ∧ run m' b = some (rs, m'') ∧ ps = qs ++ rs := by
  rw [run_append] at h
  obtain ⟨⟨qs, m'⟩, ha, h⟩ := Option.bind_eq_some_iff.1 h
  obtain ⟨⟨rs, m2⟩, hb, heq⟩ := Option.map_eq_some_iff.1 h
  cases heq
  exact ⟨qs, m', rs, ha, hb, rfl⟩

/-- The pieces of a text that stands for itself. -/
def chars (s : List Char) : List Piece := s.map .char

/-- Without a backslash a text stands for itself. -/
theorem run_plain {s : List Char} (h : '\\' ∉ s) : run .text s = some (chars s, .text) := by
  induction s with
  | nil => rfl
  | cons c s ih =>
    rw [List.mem_cons, not_or] at h
    have hstep : step .text c = some ([.char c], .text) := by
      show some (stepText c) = _
      rw [stepText, if_neg (Ne.symm h.1)]
    rw [run, hstep]
    dsimp only
    rw [ih h.2]
    rfl

theorem parse_plain {s : List Char} (h : '\\' ∉ s) : parse s = some (chars s) := by
  unfold parse
  rw [run_plain h, Option.bind_some]
  show some (chars s ++ []) = _
  rw [List.append_nil]

theorem expand_append (ps qs : List Piece) (m : List Char) :
    expand (ps ++ qs) m = expand ps m ++ expand qs m := List.flatMap_append

theorem expand_chars (s m : List Char) : expand (chars s) m = s := by
  induction s with
  | nil => rfl
  | cons c s ih => exact congrArg (c :: ·) ih

/-- No escape goes on after a newline. -/
theorem step_newline {m m' : Mode} {ps : List Piece} (h : step m '\n' = some (ps, m')) :
    m' = .text := by
  cases m with
  | text =>
    cases h
    rfl
  | backslash =>
    cases h
    rfl
  | zero value count =>
    cases h
    rfl
  | octal value count => cases h
  | group => cases h
  | name digits => cases h

/-- **The end of a template** stands for itself after a newline. -/
theorem run_newline {m m' : Mode} {s : List Char} (hs : '\\' ∉ s) {ps : List Piece}
    (h : run m ('\n' :: s) = some (ps, m')) : (∃ qs, ps = qs ++ chars s) ∧ m' = .text := by
  rw [run] at h
  cases hstep : step m '\n' with
  | none =>
    rw [hstep] at h
    cases h
  | some r =>
    obtain ⟨qs, m1⟩ := r
    rw [hstep, step_newline hstep] at h
    dsimp only at h
    rw [run_plain hs] at h
    cases h
    exact ⟨⟨qs, rfl⟩, rfl⟩

/-- **A template in its frame**: what comes before the first escape and what comes after a last
newline stand for themselves. -/
theorem parse_frame {a b c : List Char} (ha : '\\' ∉ a) (hc : '\\' ∉ c) {ps : List Piece}
    (h : parse (a ++ (b ++ '\n' :: c)) = some ps) :
    ∃ qs, run .text (b ++ ['\n']) = some (qs, .text) ∧ ps = chars a ++ (qs ++ chars c) := by
  unfold parse at h
  obtain ⟨⟨ps', m⟩, hrun, h⟩ := Option.bind_eq_some_iff.1 h
  obtain ⟨last, hlast, rfl⟩ := Option.map_eq_some_iff.1 h
  obtain ⟨as, m1, rest, hra, hrest, rfl⟩ := run_append_some hrun
  rw [run_plain ha] at hra
  cases hra
  have hassoc : b ++ '\n' :: c = (b ++ ['\n']) ++ c := by simp
  rw [hassoc] at hrest
  obtain ⟨qs, m2, cs, hrb, hrc, rfl⟩ := run_append_some hrest
  have htext : m2 = .text := by
    obtain ⟨_, m3, _, _, hn, _⟩ := run_append_some hrb
    exact (run_newline (by simp) hn).2
  rw [htext] at hrb hrc
  rw [run_plain hc] at hrc
  cases hrc
  cases hlast
  exact ⟨qs, hrb, by simp⟩

/-! ## Counting -/

/-- The characters among the pieces. -/
def charsOf (ps : List Piece) : List Char := expand ps []

theorem charsOf_append (ps qs : List Piece) : charsOf (ps ++ qs) = charsOf ps ++ charsOf qs :=
  expand_append ps qs []

theorem charsOf_chars (s : List Char) : charsOf (chars s) = s := expand_chars s []

/-- Without the match, what comes out is the characters. -/
theorem expand_eq_charsOf {ps : List Piece} (h : .whole ∉ ps) (m : List Char) :
    expand ps m = charsOf ps := by
  induction ps with
  | nil => rfl
  | cons p ps ih =>
    rw [List.mem_cons, not_or] at h
    cases p with
    | char c => exact congrArg (c :: ·) (ih h.2)
    | whole => exact absurd rfl h.1

/-- With the match in it, what comes out is at least as long as the match and the characters. -/
theorem length_expand {ps : List Piece} (h : .whole ∈ ps) (m : List Char) :
    (charsOf ps).length + m.length ≤ (expand ps m).length := by
  have hle : ∀ ps : List Piece, (charsOf ps).length ≤ (expand ps m).length := by
    intro ps
    induction ps with
    | nil => exact Nat.le_refl _
    | cons p ps ih =>
      cases p with
      | char c =>
        show (c :: charsOf ps).length ≤ (c :: expand ps m).length
        simpa using ih
      | whole =>
        show (charsOf ps).length ≤ (m ++ expand ps m).length
        rw [List.length_append]
        omega
  induction ps with
  | nil => cases h
  | cons p ps ih =>
    cases p with
    | char c =>
      have hmem : .whole ∈ ps := by simpa using h
      show (c :: charsOf ps).length + m.length ≤ (c :: expand ps m).length
      have := ih hmem
      simp only [List.length_cons]
      omega
    | whole =>
      show (charsOf ps).length + m.length ≤ (m ++ expand ps m).length
      have := hle ps
      rw [List.length_append]
      omega

/-- The backslash that an escape has begun with. -/
def pending (m : Mode) : Nat :=
  match m with
  | .text => 0
  | _ => 1

/-- Counting what a backslash belongs to. -/
theorem step_countP {p : Char → Bool} (hp : p '\\' = true) {m m' : Mode} {c : Char}
    {ps : List Piece} (h : step m c = some (ps, m')) :
    (charsOf ps).countP p + pending m' ≤ pending m + [c].countP p := by
  have htext : ∀ c : Char, (charsOf (stepText c).1).countP p + pending (stepText c).2 ≤
      [c].countP p := by
    intro c
    unfold stepText
    split
    · rename_i hc
      rw [hc, List.countP_singleton, if_pos hp]
      exact Nat.le_refl _
    · exact Nat.le_refl _
  have hone : ∀ d : Char, (charsOf [.char d]).countP p ≤ 1 := fun d => List.countP_le_length
  cases m with
  | text =>
    have hstep : stepText c = (ps, m') := Option.some.inj h
    have hcount := htext c
    rw [hstep] at hcount
    exact hcount.trans (Nat.le_add_left _ _)
  | backslash =>
    simp only [step, stepBackslash] at h
    split at h
    · cases h
      exact (hone _).trans (Nat.le_add_right _ _)
    · split at h
      · cases h
        exact Nat.le_add_right _ _
      split at h
      · cases h
        exact Nat.le_add_right _ _
      split at h
      · obtain ⟨n, _, heq⟩ := Option.map_eq_some_iff.1 h
        cases heq
        exact Nat.le_add_right _ _
      split at h
      · cases h
      · cases h
        have htwo : ['\\', c].countP p = [c].countP p + 1 := List.countP_cons_of_pos hp
        show (['\\', c].countP p) + 0 ≤ 1 + _
        omega
  | zero value count =>
    simp only [step] at h
    split at h
    · split at h
      · cases h
        exact Nat.le_add_right _ _
      · cases h
        exact (hone _).trans (Nat.le_add_right _ _)
    · cases h
      have hsplit : charsOf (.char (Char.ofNat value) :: (stepText c).1) =
          charsOf [.char (Char.ofNat value)] ++ charsOf (stepText c).1 :=
        charsOf_append [.char (Char.ofNat value)] _
      rw [hsplit, List.countP_append]
      have h1 := hone (Char.ofNat value)
      have h2 := htext c
      show _ ≤ 1 + _
      omega
  | octal value count =>
    simp only [step] at h
    split at h
    · split at h
      · cases h
        exact Nat.le_add_right _ _
      · split at h
        · cases h
          exact (hone _).trans (Nat.le_add_right _ _)
        · cases h
    · cases h
  | group =>
    simp only [step] at h
    split at h
    · cases h
      exact Nat.le_add_right _ _
    · cases h
  | name digits =>
    simp only [step] at h
    split at h
    · cases h
      exact Nat.le_add_right _ _
    · split at h
      · cases h
        exact Nat.zero_le _
      · cases h

theorem run_cons_some {m m' : Mode} {c : Char} {s : List Char} {ps : List Piece}
    (h : run m (c :: s) = some (ps, m')) :
    ∃ qs m₁ rs, step m c = some (qs, m₁) ∧ run m₁ s = some (rs, m') ∧ ps = qs ++ rs := by
  rw [run] at h
  cases hstep : step m c with
  | none =>
    rw [hstep] at h
    cases h
  | some r =>
    obtain ⟨qs, m₁⟩ := r
    rw [hstep] at h
    obtain ⟨⟨rs, m₂⟩, hrun, heq⟩ := Option.map_eq_some_iff.1 h
    cases heq
    exact ⟨qs, m₁, rs, rfl, hrun, rfl⟩

theorem run_countP {p : Char → Bool} (hp : p '\\' = true) {s : List Char} :
    ∀ {m m' : Mode} {ps : List Piece}, run m s = some (ps, m') →
      (charsOf ps).countP p + pending m' ≤ pending m + s.countP p := by
  induction s with
  | nil =>
    intro m m' ps h
    cases h
    exact Nat.le_of_eq (Nat.add_comm _ _)
  | cons c s ih =>
    intro m m' ps h
    obtain ⟨qs, m₁, rs, hstep, hrun, rfl⟩ := run_cons_some h
    have h1 := step_countP hp hstep
    have h2 := ih hrun
    have hcons : ([c] ++ s).countP p = [c].countP p + s.countP p := List.countP_append
    rw [List.singleton_append] at hcons
    rw [hcons, charsOf_append, List.countP_append]
    omega

/-- **Escapes do not make backslashes.** -/
theorem run_count {s : List Char} {m m' : Mode} {ps : List Piece}
    (h : run m s = some (ps, m')) :
    (charsOf ps).count '\\' + pending m' ≤ pending m + s.count '\\' :=
  run_countP (p := fun c => c == '\\') rfl h

/-- **Escapes do not make a text longer.** -/
theorem run_length {s : List Char} {m m' : Mode} {ps : List Piece}
    (h : run m s = some (ps, m')) : (charsOf ps).length + pending m' ≤ pending m + s.length := by
  have hcount := run_countP (p := fun _ => true) rfl h
  rw [List.countP_true] at hcount
  exact hcount

/-- A character that is in no escape is kept. -/
theorem step_keeps {x : Char} (hx : 127 < x.toNat) {m m' : Mode} {c : Char} {ps : List Piece}
    (h : step m c = some (ps, m')) : [c].count x ≤ (charsOf ps).count x := by
  by_cases hc : c = x
  · subst hc
    have hne : ∀ d : Char, d.toNat ≤ 127 → c ≠ d := by
      rintro d hd rfl
      omega
    have htext : stepText c = ([.char c], .text) := if_neg (hne _ (by decide))
    have hoct : octDigit c = none := by
      unfold octDigit
      rw [if_neg]
      rintro ⟨_, h7⟩
      have hle : c.toNat ≤ '7'.toNat := h7
      have h7' : '7'.toNat = 55 := rfl
      omega
    cases m with
    | text =>
      rw [step, htext] at h
      cases h
      exact Nat.le_refl _
    | backslash =>
      simp only [step, stepBackslash] at h
      split at h
      · rename_i d hescape
        unfold escape at hescape
        split at hescape <;> first | exact absurd hx (by decide) | cases hescape
      · rw [if_neg (hne _ (by decide)), if_neg (hne _ (by decide))] at h
        split at h
        · rw [hoct] at h
          cases h
        · split at h
          · cases h
          · cases h
            have hkept : (charsOf [.char '\\', .char c]).count c = ['\\', c].count c := rfl
            rw [hkept]
            exact (List.sublist_cons_self _ [c]).count_le c
    | zero value count =>
      simp only [step, hoct, htext] at h
      cases h
      have hkept : (charsOf [.char (Char.ofNat value), .char c]).count c =
          [Char.ofNat value, c].count c := rfl
      rw [hkept]
      exact (List.sublist_cons_self _ [c]).count_le c
    | octal value count =>
      simp only [step, hoct] at h
      cases h
    | group =>
      rw [step, if_neg (hne _ (by decide))] at h
      cases h
    | name digits =>
      rw [step, if_neg (hne _ (by decide)), if_neg fun hgt => hne _ (by decide) hgt.1] at h
      cases h
  · rw [List.count_singleton, if_neg (by simpa using hc)]
    exact Nat.zero_le _

theorem run_keeps {x : Char} (hx : 127 < x.toNat) {s : List Char} :
    ∀ {m m' : Mode} {ps : List Piece}, run m s = some (ps, m') →
      s.count x ≤ (charsOf ps).count x := by
  induction s with
  | nil =>
    intro m m' ps h
    exact Nat.zero_le _
  | cons c s ih =>
    intro m m' ps h
    obtain ⟨qs, m₁, rs, hstep, hrun, rfl⟩ := run_cons_some h
    have h1 := step_keeps hx hstep
    have h2 := ih hrun
    have hcons : ([c] ++ s).count x = [c].count x + s.count x := List.count_append
    rw [List.singleton_append] at hcons
    rw [hcons, charsOf_append, List.count_append]
    omega

/-! ## The first match -/

theorem step_whole {m m' : Mode} {c : Char} {ps : List Piece} (h : step m c = some (ps, m'))
    (hw : .whole ∈ ps) : m = .name true ∧ c = '>' ∧ ps = [.whole] := by
  have htext : ∀ c : Char, .whole ∉ (stepText c).1 := by
    intro c
    unfold stepText
    split <;> simp
  cases m with
  | text =>
    have hstep : stepText c = (ps, m') := Option.some.inj h
    have hno := htext c
    rw [hstep] at hno
    exact absurd hw hno
  | backslash =>
    simp only [step, stepBackslash] at h
    split at h
    · cases h
      simp at hw
    · split at h
      · cases h
        cases hw
      split at h
      · cases h
        cases hw
      split at h
      · obtain ⟨n, _, heq⟩ := Option.map_eq_some_iff.1 h
        cases heq
        cases hw
      split at h
      · cases h
      · cases h
        simp at hw
  | zero value count =>
    simp only [step] at h
    split at h
    · split at h
      · cases h
        cases hw
      · cases h
        simp at hw
    · cases h
      rcases List.mem_cons.1 hw with hw | hw
      · cases hw
      · exact absurd hw (htext c)
  | octal value count =>
    simp only [step] at h
    split at h
    · split at h
      · cases h
        cases hw
      · split at h
        · cases h
          simp at hw
        · cases h
    · cases h
  | group =>
    simp only [step] at h
    split at h
    · cases h
      cases hw
    · cases h
  | name digits =>
    simp only [step] at h
    split at h
    · cases h
      cases hw
    · split at h
      · rename_i hgt
        cases h
        exact ⟨by rw [hgt.2], hgt.1, rfl⟩
      · cases h

/-- **The first place of the match** in a template. -/
theorem run_first_whole {s : List Char} : ∀ {m m' : Mode} {ps : List Piece},
    run m s = some (ps, m') → .whole ∈ ps →
    ∃ u v qs rs, s = u ++ '>' :: v ∧ run m u = some (qs, .name true) ∧ .whole ∉ qs ∧
      ps = qs ++ .whole :: rs := by
  induction s with
  | nil =>
    intro m m' ps h hw
    cases h
    cases hw
  | cons c s ih =>
    intro m m' ps h hw
    obtain ⟨qs, m₁, rs, hstep, hrun, rfl⟩ := run_cons_some h
    by_cases hq : .whole ∈ qs
    · obtain ⟨rfl, rfl, rfl⟩ := step_whole hstep hq
      exact ⟨[], s, [], rs, rfl, rfl, by simp, rfl⟩
    · have hr : .whole ∈ rs := (List.mem_append.1 hw).resolve_left hq
      obtain ⟨u, v, qs', rs', rfl, hu, hno, rfl⟩ := ih hrun hr
      refine ⟨c :: u, v, qs ++ qs', rs', rfl, ?_, ?_, by rw [List.append_assoc]⟩
      · rw [run, hstep]
        dsimp only
        rw [hu]
        rfl
      · rw [List.mem_append, not_or]
        exact ⟨hq, hno⟩

/-- What a quote ends. -/
theorem step_quote {m m' : Mode} {ps : List Piece} (h : step m '"' = some (ps, m')) :
    m' = .text ∧ ∃ e, ps = chars (e ++ ['"']) ∧ (m = .text → e = []) := by
  cases m with
  | text =>
    cases h
    exact ⟨rfl, [], rfl, fun _ => rfl⟩
  | backslash =>
    cases h
    exact ⟨rfl, ['\\'], rfl, by simp⟩
  | zero value count =>
    cases h
    exact ⟨rfl, [Char.ofNat value], rfl, by simp⟩
  | octal value count => cases h
  | group => cases h
  | name digits => cases h

/-! ## Templates without escapes -/

/-- What a backslash before it is an escape with. -/
def Active (c : Char) : Prop := c = '\\' ∨ c.isDigit = true ∨ c.isAlpha = true

instance (c : Char) : Decidable (Active c) := by
  unfold Active
  infer_instance

/-- No backslash begins an escape. -/
def Inert : List Char → Prop
  | [] => True
  | c :: s => (c = '\\' → ∀ d ∈ s.head?, ¬Active d) ∧ Inert s

instance decidableInert : (s : List Char) → Decidable (Inert s)
  | [] => isTrue trivial
  | c :: s =>
    have := decidableInert s
    inferInstanceAs (Decidable ((c = '\\' → ∀ d ∈ s.head?, ¬Active d) ∧ Inert s))

/-- An escape is shorter than it is written. -/
theorem step_active {c : Char} (hc : Active c) {m : Mode} {ps : List Piece}
    (h : stepBackslash c = some (ps, m)) : (charsOf ps).length + pending m ≤ 1 := by
  unfold stepBackslash at h
  split at h
  · cases h
    exact Nat.le_refl _
  · rename_i hescape
    split at h
    · cases h
      exact Nat.le_refl _
    split at h
    · cases h
      exact Nat.le_refl _
    split at h
    · obtain ⟨n, _, heq⟩ := Option.map_eq_some_iff.1 h
      cases heq
      exact Nat.le_refl _
    split at h
    · cases h
    · rename_i hdigit halpha
      rcases hc with rfl | hd | ha
      · cases hescape
      · exact absurd hd hdigit
      · exact absurd ha halpha

theorem stepBackslash_inactive {c : Char} (hc : ¬Active c) :
    stepBackslash c = some ([.char '\\', .char c], .text) := by
  have hne : ∀ d : Char, Active d → c ≠ d := by
    rintro d hd rfl
    exact hc hd
  have hescape : escape c = none := by
    unfold escape
    split <;> first | rfl | exact absurd (by decide) hc
  unfold stepBackslash
  rw [hescape]
  dsimp only
  rw [if_neg (hne 'g' (by decide)), if_neg (hne '0' (by decide)),
    if_neg fun h => hc (Or.inr (Or.inl h)), if_neg fun h => hc (Or.inr (Or.inr h))]

/-- **A template that is its own text** has no escapes. -/
theorem inert_of_run : ∀ {s : List Char} {ps : List Piece}, run .text s = some (ps, .text) →
    charsOf ps = s → Inert s
  | [], _, _, _ => trivial
  | [c], _, _, _ => ⟨fun _ d hd => (by cases hd), trivial⟩
  | c :: d :: s, ps, h, hs => by
    obtain ⟨qs, m₁, rs, hstep, hrun, rfl⟩ := run_cons_some h
    have hstep' : stepText c = (qs, m₁) := Option.some.inj hstep
    unfold stepText at hstep'
    rw [charsOf_append] at hs
    split at hstep'
    · cases hstep'
      obtain ⟨qs, m₂, rs, hd, hrest, rfl⟩ := run_cons_some hrun
      by_cases hactive : Active d
      · -- the text that comes out would be shorter
        have hshort := step_active hactive hd
        have hle := run_length hrest
        have hlen := congrArg List.length hs
        rw [charsOf_append] at hlen
        have hnil : (charsOf []).length = 0 := rfl
        have htext : pending .text = 0 := rfl
        simp only [List.length_append, List.length_cons, hnil] at hlen
        omega
      · have hd' : step .backslash d = some ([.char '\\', .char d], .text) :=
          stepBackslash_inactive hactive
        rw [hd'] at hd
        cases hd
        have hs' : '\\' :: d :: charsOf rs = c :: d :: s := hs
        have htail : charsOf rs = s := (List.cons.inj (List.cons.inj hs').2).2
        refine ⟨fun _ e he => ?_, fun hslash => absurd (Or.inl hslash) hactive,
          inert_of_run hrest htail⟩
        cases he
        exact hactive
    · rename_i hc
      cases hstep'
      have htail : charsOf rs = d :: s := (List.cons.inj hs).2
      exact ⟨fun h => absurd h hc, inert_of_run hrun htail⟩

theorem run_char {c : Char} (hc : c ≠ '\\') {s : List Char}
    (h : run .text s = some (chars s, .text)) :
    run .text (c :: s) = some (chars (c :: s), .text) := by
  have hstep : step .text c = some ([.char c], .text) := by
    show some (stepText c) = _
    rw [stepText, if_neg hc]
  rw [run, hstep]
  dsimp only
  rw [h]
  rfl

/-- **Without escapes** a template is its own text, when it does not end in a backslash. -/
theorem run_inert : ∀ {s : List Char}, Inert s → s.getLast? ≠ some '\\' →
    run .text s = some (chars s, .text)
  | [], _, _ => rfl
  | [c], _, hlast => run_char (fun hc => hlast (congrArg some hc)) rfl
  | c :: d :: s, ⟨hc, hs⟩, hlast => by
    have hlast' : (d :: s).getLast? ≠ some '\\' := by
      rw [List.getLast?_cons_cons] at hlast
      exact hlast
    by_cases hslash : c = '\\'
    · have hd : ¬Active d := hc hslash d rfl
      have hlast'' : s.getLast? ≠ some '\\' := by
        cases s with
        | nil => simp
        | cons e s =>
          rw [List.getLast?_cons_cons] at hlast'
          exact hlast'
      have hstep : step .backslash d = some ([.char '\\', .char d], .text) :=
        stepBackslash_inactive hd
      have hrest : run .backslash (d :: s) = some ([.char '\\', .char d] ++ chars s, .text) := by
        rw [run, hstep]
        dsimp only
        rw [run_inert hs.2 hlast'']
        rfl
      subst hslash
      show (run .backslash (d :: s)).map _ = _
      rw [hrest]
      rfl
    · exact run_char hslash (run_inert hs hlast')

theorem parse_inert {s : List Char} (h : Inert s) (hlast : s.getLast? ≠ some '\\') :
    parse s = some (chars s) := by
  unfold parse
  rw [run_inert h hlast, Option.bind_some]
  show some (chars s ++ []) = _
  rw [List.append_nil]

theorem inert_of_not_mem {s : List Char} (h : '\\' ∉ s) : Inert s := by
  induction s with
  | nil => trivial
  | cons c s ih =>
    rw [List.mem_cons, not_or] at h
    exact ⟨fun hc => absurd hc.symm h.1, ih h.2⟩

/-- Parts without escapes, of which the second begins with none. -/
theorem inert_append {a b : List Char} (hb : ∀ d ∈ b.head?, ¬Active d) :
    Inert (a ++ b) ↔ Inert a ∧ Inert b := by
  induction a with
  | nil => exact ⟨fun h => ⟨trivial, h⟩, fun h => h.2⟩
  | cons c a ih =>
    rw [List.cons_append, Inert, Inert, ih, and_assoc]
    refine and_congr_left fun _ => ?_
    cases a with
    | nil => exact ⟨fun _ _ d hd => (by cases hd), fun _ _ => hb⟩
    | cons d a => exact Iff.rfl

/-- What the name of a group is read after. -/
theorem step_name {m : Mode} {c : Char} {ps : List Piece} {digits : Bool}
    (h : step m c = some (ps, .name digits)) :
    (m = .group ∧ c = '<' ∧ digits = false) ∨ ∃ d, m = .name d ∧ c = '0' ∧ digits = true := by
  have htext : ∀ c : Char, (stepText c).2 ≠ .name digits := by
    intro c
    unfold stepText
    split <;> exact fun h => by cases h
  cases m with
  | text => exact absurd (congrArg Prod.snd (Option.some.inj h)) (htext c)
  | backslash =>
    simp only [step, stepBackslash] at h
    split at h
    · cases h
    split at h
    · cases h
    split at h
    · cases h
    split at h
    · obtain ⟨n, _, heq⟩ := Option.map_eq_some_iff.1 h
      cases heq
    split at h <;> cases h
  | zero value count =>
    simp only [step] at h
    split at h
    · split at h <;> cases h
    · exact absurd (congrArg Prod.snd (Option.some.inj h)) (htext c)
  | octal value count =>
    simp only [step] at h
    split at h
    · split at h
      · cases h
      · split at h <;> cases h
    · cases h
  | group =>
    simp only [step] at h
    split at h
    · rename_i hc
      cases h
      exact Or.inl ⟨rfl, hc, rfl⟩
    · cases h
  | name d =>
    simp only [step] at h
    split at h
    · rename_i hc
      cases h
      exact Or.inr ⟨d, rfl, hc, rfl⟩
    · split at h <;> cases h

/-- The name of a group begins with an angle bracket and the number. -/
theorem run_name {s : List Char} : ∀ {m : Mode} {ps : List Piece},
    run m s = some (ps, .name true) →
    m = .name true ∨ (m = .name false ∧ ∃ b, s = '0' :: b) ∨ ∃ a b, s = a ++ '<' :: '0' :: b := by
  induction s with
  | nil =>
    intro m ps h
    cases h
    exact Or.inl rfl
  | cons c s ih =>
    intro m ps h
    obtain ⟨qs, m₁, rs, hstep, hrun, rfl⟩ := run_cons_some h
    rcases ih hrun with rfl | ⟨rfl, b, rfl⟩ | ⟨a, b, rfl⟩
    · rcases step_name hstep with ⟨_, _, h⟩ | ⟨d, rfl, rfl, _⟩
      · cases h
      · cases d with
        | true => exact Or.inl rfl
        | false => exact Or.inr (Or.inl ⟨rfl, s, rfl⟩)
    · rcases step_name hstep with ⟨_, rfl, _⟩ | ⟨_, _, _, h⟩
      · exact Or.inr (Or.inr ⟨[], b, rfl⟩)
      · cases h
    · exact Or.inr (Or.inr ⟨c :: a, b, rfl⟩)

/-- **The match** is only in a template that names the group `0`. -/
theorem infix_of_whole {s : List Char} {m' : Mode} {ps : List Piece}
    (h : run .text s = some (ps, m')) (hw : .whole ∈ ps) : ['<', '0'] <:+: s := by
  obtain ⟨u, v, qs, rs, rfl, hu, _, _⟩ := run_first_whole h hw
  rcases run_name hu with h | ⟨h, _⟩ | ⟨a, b, rfl⟩
  · cases h
  · cases h
  · exact ⟨a, b ++ '>' :: v, by simp⟩

end PyTemplate
