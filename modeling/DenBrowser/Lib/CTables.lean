import Mathlib.Data.List.Infix
import Mathlib.Tactic.Common
import Mathlib.Data.List.TakeWhile

/-!
# Constant tables in C++

A reader of the declarations of constant arrays: of string pointers, of bytes, and of rows whose
fields are string literals, names of arrays, sizes of arrays and numbers.  What it does not know
it does not read.

* `lex` — the tokens; a string literal ends on its line;
* `lex_append` — a text is read in parts;
* `readDecls_tokens` — declarations are read back from their tokens;
* `of_lex_literal`, `Spells` — what a string literal stands for;
* `of_declarations_strings` — the tokens of an array of strings;
* `strings`, `bytes` — the arrays that names stand for.
-/

set_option autoImplicit false

namespace CTables

/-! ## Tokens -/

inductive Token
  | word (s : List Char)
  /-- A string literal, by its characters. -/
  | literal (s : List Char)
  | punct (c : Char)
  deriving DecidableEq

def isBlank (c : Char) : Bool := [' ', '\t', '\n', '\r', '\x0b', '\x0c'].contains c

def isWordChar (c : Char) : Bool := c.isAlphanum || c == '_'

def isPunct (c : Char) : Bool := ['[', ']', '{', '}', '(', ')', '<', '>', '=', '*', ',', ';'].contains c

/-- The character of a simple escape sequence. -/
def escaped (c : Char) : Option Char :=
  match c with
  | '"' => some '"'
  | '\'' => some '\''
  | '?' => some '?'
  | '\\' => some '\\'
  | 'a' => some (Char.ofNat 7)
  | 'b' => some (Char.ofNat 8)
  | 'f' => some (Char.ofNat 12)
  | 'n' => some '\n'
  | 'r' => some '\r'
  | 't' => some '\t'
  | 'v' => some (Char.ofNat 11)
  | _ => none

/-- What the lexer is in. -/
inductive Mode
  | code
  | word (s : List Char)
  | slash
  | comment
  | literal (s : List Char)
  | escape (s : List Char)
  deriving DecidableEq

/-- A character outside of words, comments and literals. -/
def begin (c : Char) : Option (List Token × Mode) :=
  if isBlank c then some ([], .code)
  else if isWordChar c then some ([], .word [c])
  else if c = '"' then some ([], .literal [])
  else if c = '/' then some ([], .slash)
  else if isPunct c then some ([.punct c], .code)
  else none

/-- One character: the tokens it ends, and the mode after it. -/
def step (m : Mode) (c : Char) : Option (List Token × Mode) :=
  match m with
  | .code => begin c
  | .word w =>
    if isWordChar c then some ([], .word (w ++ [c]))
    else (begin c).map fun r => (.word w :: r.1, r.2)
  | .slash => if c = '/' then some ([], .comment) else none
  | .comment => some ([], if c = '\n' then .code else .comment)
  | .literal s =>
    if c = '"' then some ([.literal s], .code)
    else if c = '\n' ∨ c = '\r' then none
    else if c = '\\' then some ([], .escape s)
    else some ([], .literal (s ++ [c]))
  | .escape s => (escaped c).map fun d => ([], .literal (s ++ [d]))

/-- The tokens of a part of a text, and the mode at its end. -/
def run : Mode → List Char → Option (List Token × Mode)
  | m, [] => some ([], m)
  | m, c :: cs =>
    match step m c with
    | none => none
    | some r => (run r.2 cs).map fun r' => (r.1 ++ r'.1, r'.2)

/-- The end of the text. -/
def finish (m : Mode) : Option (List Token) :=
  match m with
  | .code => some []
  | .comment => some []
  | .word w => some [.word w]
  | _ => none

/-- The tokens of a text that begins in a mode. -/
def lex (m : Mode) (s : List Char) : Option (List Token) :=
  match run m s with
  | none => none
  | some r => (finish r.2).map fun ts => r.1 ++ ts

theorem run_append (a b : List Char) : ∀ m : Mode,
    run m (a ++ b) = (run m a).bind fun r => (run r.2 b).map fun r' => (r.1 ++ r'.1, r'.2) := by
  induction a with
  | nil =>
    intro m
    show run m b = (run m b).map fun r' => ([] ++ r'.1, r'.2)
    simp
  | cons c a ih =>
    intro m
    rw [List.cons_append, run, run]
    cases step m c with
    | none => rfl
    | some r =>
      dsimp only
      rw [ih]
      cases run r.2 a with
      | none => rfl
      | some r' =>
        simp only [Option.bind_some, Option.map_some, Option.map_map, Function.comp_def,
          List.append_assoc]

theorem run_trans {m m' m'' : Mode} {a b : List Char} {ts ts' : List Token}
    (ha : run m a = some (ts, m')) (hb : run m' b = some (ts', m'')) :
    run m (a ++ b) = some (ts ++ ts', m'') := by
  rw [run_append, ha, Option.bind_some, hb]
  rfl

theorem run_none {m m' : Mode} {a b : List Char} {ts : List Token}
    (ha : run m a = some (ts, m')) (hb : run m' b = none) : run m (a ++ b) = none := by
  rw [run_append, ha, Option.bind_some, hb]
  rfl

/-- **A text is read in parts.** -/
theorem lex_append {m m' : Mode} {a : List Char} {ts : List Token} (ha : run m a = some (ts, m'))
    (b : List Char) : lex m (a ++ b) = (lex m' b).map fun ts' => ts ++ ts' := by
  unfold lex
  rw [run_append, ha, Option.bind_some]
  cases run m' b with
  | none => rfl
  | some r =>
    simp only [Option.map_some, Option.map_map, Function.comp_def, List.append_assoc]

/-- A part without a token of its own. -/
theorem lex_silent {m m' : Mode} {a : List Char} (ha : run m a = some ([], m')) (b : List Char) :
    lex m (a ++ b) = lex m' b := by
  rw [lex_append ha]
  simp

theorem lex_eq_none {m m' : Mode} {a : List Char} {ts : List Token}
    (ha : run m a = some (ts, m')) {b : List Char} (hb : run m' b = none) (c : List Char) :
    lex m (a ++ (b ++ c)) = none := by
  rw [lex_append ha]
  unfold lex
  rw [run_append, hb]
  rfl

/-! ### Parts -/

theorem run_word {w s : List Char} (h : ∀ c ∈ s, isWordChar c = true) :
    run (.word w) s = some ([], .word (w ++ s)) := by
  induction s generalizing w with
  | nil =>
    rw [List.append_nil]
    rfl
  | cons c s ih =>
    obtain ⟨hc, hs⟩ := List.forall_mem_cons.1 h
    rw [run, step, if_pos hc]
    dsimp only
    rw [ih hs, List.append_assoc]
    rfl

/-- A character that stands for itself in a string literal. -/
def Plain (c : Char) : Prop := c ≠ '"' ∧ c ≠ '\\' ∧ c ≠ '\n' ∧ c ≠ '\r'

instance (c : Char) : Decidable (Plain c) := by
  unfold Plain
  infer_instance

theorem step_plain {s : List Char} {c : Char} (h : Plain c) :
    step (.literal s) c = some ([], .literal (s ++ [c])) := by
  obtain ⟨h1, h2, h3, h4⟩ := h
  rw [step, if_neg h1, if_neg fun h => h.elim h3 h4, if_neg h2]

theorem run_plain {s t : List Char} (h : ∀ c ∈ t, Plain c) :
    run (.literal s) t = some ([], .literal (s ++ t)) := by
  induction t generalizing s with
  | nil =>
    rw [List.append_nil]
    rfl
  | cons c t ih =>
    obtain ⟨hc, ht⟩ := List.forall_mem_cons.1 h
    rw [run, step_plain hc]
    dsimp only
    rw [ih ht, List.append_assoc]
    rfl

/-- A newline does not end a string literal. -/
theorem run_newline {s t : List Char} (h : ∀ c ∈ t, Plain c) (rest : List Char) :
    run (.literal s) (t ++ '\n' :: rest) = none :=
  run_none (run_plain h) rfl

/-! ### String literals -/

/-- What the characters between the quotes of a string literal stand for. -/
inductive Spells : List Char → List Char → Prop
  | nil : Spells [] []
  | plain {c : Char} {t v : List Char} (hc : Plain c) (h : Spells t v) : Spells (c :: t) (c :: v)
  | escape {e d : Char} {t v : List Char} (he : escaped e = some d) (h : Spells t v) :
      Spells ('\\' :: e :: t) (d :: v)

theorem Plain.not_newline {c : Char} (h : Plain c) : c ≠ '\n' := h.2.2.1

/-- The tokens of a text that begins in a string literal: the literal ends at a quote. -/
theorem of_lex_literal {s b : List Char} {ts : List Token} (h : lex (.literal s) b = some ts) :
    ∃ t v b' ts', b = t ++ '"' :: b' ∧ Spells t v ∧ ts = .literal (s ++ v) :: ts' ∧
      lex .code b' = some ts' := by
  induction hn : b.length using Nat.strongRecOn generalizing s b with
  | ind n ih =>
    have hnone : ∀ {m : Mode} {c : Char} {b : List Char}, run m [c] = none →
        lex m (c :: b) = none := by
      intro m c b hrun
      have hnil : lex m ([] ++ ([c] ++ b)) = none := lex_eq_none rfl hrun b
      exact hnil
    cases b with
    | nil => cases h
    | cons c b =>
      by_cases hquote : c = '"'
      · subst hquote
        have hrun : run (.literal s) ['"'] = some ([.literal s], .code) := rfl
        have hlex : lex (.literal s) ('"' :: b) = (lex .code b).map fun ts' => .literal s :: ts' :=
          lex_append hrun b
        rw [hlex] at h
        obtain ⟨ts', hts', rfl⟩ := Option.map_eq_some_iff.1 h
        exact ⟨[], [], b, ts', rfl, .nil, by rw [List.append_nil], hts'⟩
      by_cases hslash : c = '\\'
      · subst hslash
        cases b with
        | nil => cases h
        | cons e b =>
          cases he : escaped e with
          | none =>
            have hrun : run (.literal s) ['\\', e] = none := by
              rw [run, step, if_neg (by decide), if_neg (by decide), if_pos rfl]
              dsimp only
              rw [run, step, he]
              rfl
            have hnil : lex (.literal s) ([] ++ (['\\', e] ++ b)) = none := lex_eq_none rfl hrun b
            rw [List.nil_append, List.cons_append, List.singleton_append, h] at hnil
            cases hnil
          | some d =>
            have hrun : run (.literal s) ['\\', e] = some ([], .literal (s ++ [d])) := by
              rw [run, step, if_neg (by decide), if_neg (by decide), if_pos rfl]
              dsimp only
              rw [run, step, he]
              rfl
            have hlex : lex (.literal s) ('\\' :: e :: b) = lex (.literal (s ++ [d])) b :=
              lex_silent hrun b
            rw [hlex] at h
            obtain ⟨t, v, b', ts', rfl, hspells, rfl, hrest⟩ :=
              ih b.length (by rw [← hn]; simp only [List.length_cons]; omega) h rfl
            exact ⟨'\\' :: e :: t, d :: v, b', ts', rfl, .escape he hspells, by simp, hrest⟩
      by_cases hline : c = '\n' ∨ c = '\r'
      · have hrun : run (.literal s) [c] = none := by
          rw [run, step, if_neg hquote, if_pos hline]
        rw [hnone hrun] at h
        cases h
      · rw [not_or] at hline
        have hplain : Plain c := ⟨hquote, hslash, hline.1, hline.2⟩
        have hrun : run (.literal s) [c] = some ([], .literal (s ++ [c])) :=
          run_plain (by simpa using hplain)
        have hlex : lex (.literal s) (c :: b) = lex (.literal (s ++ [c])) b := lex_silent hrun b
        rw [hlex] at h
        obtain ⟨t, v, b', ts', rfl, hspells, rfl, hrest⟩ :=
          ih b.length (by rw [← hn]; simp) h rfl
        exact ⟨c :: t, c :: v, b', ts', rfl, .plain hplain hspells, by simp, hrest⟩

namespace Spells

variable {t v : List Char}

theorem newline_not_mem (h : Spells t v) : '\n' ∉ t := by
  induction h with
  | nil => simp
  | plain hc _ ih =>
    rw [List.mem_cons, not_or]
    exact ⟨hc.not_newline.symm, ih⟩
  | @escape e d _ _ he _ ih =>
    have hne : e ≠ '\n' := by
      rintro rfl
      cases he
    simp only [List.mem_cons, not_or]
    exact ⟨by decide, hne.symm, ih⟩

theorem length_le (h : Spells t v) : v.length ≤ t.length := by
  induction h with
  | nil => exact Nat.le_refl _
  | plain _ _ ih => exact Nat.succ_le_succ ih
  | escape _ _ ih =>
    simp only [List.length_cons]
    omega

/-- **A backslash takes two.** -/
theorem count_backslash (h : Spells t v) : 2 * v.count '\\' ≤ t.count '\\' := by
  induction h with
  | nil => exact Nat.le_refl _
  | plain hc _ ih =>
    rw [List.count_cons_of_ne hc.2.1, List.count_cons_of_ne hc.2.1]
    exact ih
  | @escape e d t v he _ ih =>
    by_cases hd : d = '\\'
    · have hee : e = '\\' := by
        rw [hd] at he
        unfold escaped at he
        split at he <;> simp_all
      rw [hd, hee, List.count_cons_self, List.count_cons_self, List.count_cons_self]
      omega
    · rw [List.count_cons_of_ne hd, List.count_cons_self, List.count_cons]
      omega

/-- A character that no escape sequence makes or takes is kept. -/
theorem count_le {x : Char} (hx : 127 < x.toNat) (h : Spells t v) : t.count x ≤ v.count x := by
  induction h with
  | nil => exact Nat.le_refl _
  | plain hc _ ih =>
    rw [List.count_cons, List.count_cons]
    exact Nat.add_le_add_right ih _
  | @escape e d t v he _ ih =>
    have he' : e ≠ x := by
      rintro rfl
      unfold escaped at he
      split at he <;> first | exact absurd hx (by decide) | cases he
    have hslash : '\\' ≠ x := by
      rintro rfl
      exact absurd hx (by decide)
    rw [List.count_cons_of_ne hslash, List.count_cons_of_ne he', List.count_cons]
    omega

/-- Without a backslash the characters stand for themselves. -/
theorem eq_self (h : Spells t v) (ht : '\\' ∉ t) : v = t ∧ ∀ c ∈ t, Plain c := by
  induction h with
  | nil => exact ⟨rfl, by simp⟩
  | plain hc _ ih =>
    rw [List.mem_cons, not_or] at ht
    obtain ⟨rfl, hall⟩ := ih ht.2
    exact ⟨rfl, List.forall_mem_cons.2 ⟨hc, hall⟩⟩
  | escape _ _ _ => simp at ht

theorem of_plain (h : ∀ c ∈ t, Plain c) : Spells t t := by
  induction t with
  | nil => exact .nil
  | cons c t ih =>
    obtain ⟨hc, ht⟩ := List.forall_mem_cons.1 h
    exact .plain hc (ih ht)

/-- A character that cannot follow a backslash is where two parts meet. -/
theorem split {x y : List Char} {c : Char} (hc : escaped c = none) :
    ∀ {v : List Char}, Spells (x ++ c :: y) v →
      ∃ v₁ v₂, v = v₁ ++ v₂ ∧ Spells x v₁ ∧ Spells (c :: y) v₂ := by
  induction hn : x.length using Nat.strongRecOn generalizing x with
  | ind n ih =>
    intro v h
    cases x with
    | nil => exact ⟨[], v, rfl, .nil, h⟩
    | cons a x =>
      rw [List.cons_append] at h
      generalize hs : x ++ c :: y = s at h
      cases h with
      | plain ha h =>
        subst hs
        obtain ⟨v₁, v₂, rfl, h₁, h₂⟩ := ih x.length (by rw [← hn]; simp) rfl h
        exact ⟨a :: v₁, v₂, rfl, .plain ha h₁, h₂⟩
      | @escape e d t v he h =>
        cases x with
        | nil =>
          obtain ⟨rfl, _⟩ := List.cons.inj hs
          rw [hc] at he
          cases he
        | cons b x =>
          obtain ⟨rfl, rfl⟩ := List.cons.inj hs
          obtain ⟨v₁, v₂, rfl, h₁, h₂⟩ :=
            ih x.length (by rw [← hn]; simp only [List.length_cons]; omega) rfl h
          exact ⟨d :: v₁, v₂, rfl, .escape he h₁, h₂⟩

/-- Characters that stand for themselves at the beginning. -/
theorem plain_append {x y v : List Char} (hx : '\\' ∉ x) (h : Spells (x ++ y) v) :
    (∀ c ∈ x, Plain c) ∧ ∃ v', v = x ++ v' ∧ Spells y v' := by
  induction x generalizing v with
  | nil => exact ⟨by simp, v, rfl, h⟩
  | cons c x ih =>
    rw [List.mem_cons, not_or] at hx
    rw [List.cons_append] at h
    generalize hs : x ++ y = s at h
    cases h with
    | plain hc h =>
      subst hs
      obtain ⟨hall, v', rfl, h'⟩ := ih hx.2 h
      exact ⟨List.forall_mem_cons.2 ⟨hc, hall⟩, v', rfl, h'⟩
    | escape _ _ => exact absurd rfl hx.1

end Spells

/-! ## Declarations -/

/-- A field of a row. -/
inductive Field
  | null
  | text (s : List Char)
  | name (s : List Char)
  /-- `static_cast<uint32_t>(sizeof(name))` -/
  | size (s : List Char)
  | number (n : Nat)
  deriving DecidableEq

inductive Decl
  /-- `static const char* const name[] = ...` -/
  | strings (name : List Char) (items : List (Option (List Char)))
  /-- `static const uint8_t name[size] = ...` -/
  | bytes (name : List Char) (size : Option Nat) (values : List Nat)
  /-- `static const type name[] = ...` -/
  | rows (type name : List Char) (rows : List (List Field))
  deriving DecidableEq

def word (s : String) : Token := .word s.toList

/-- The number that digits of a base stand for. -/
def digits (base : Nat) (value : Char → Option Nat) : List Char → Option Nat :=
  List.foldl (fun n c => n.bind fun n => (value c).map fun d => n * base + d) (some 0)

def hexValue (c : Char) : Option Nat :=
  if '0' ≤ c ∧ c ≤ '9' then some (c.toNat - 48)
  else if 'a' ≤ c ∧ c ≤ 'f' then some (c.toNat - 87)
  else none

def decValue (c : Char) : Option Nat := if c.isDigit then some (c.toNat - 48) else none

/-- A number: `0x` and digits, or a decimal one. -/
def number (w : List Char) : Option Nat :=
  if ['0', 'x'].isPrefixOf w then digits 16 hexValue (w.drop 2) else digits 10 decValue w

def expect (expected ts : List Token) : Option (List Token) :=
  if expected.isPrefixOf ts then some (ts.drop expected.length) else none

/-- The items of an array of strings, up to the closing brace. -/
def readItems : List Token → Option (List (Option (List Char)) × List Token)
  | .literal s :: .punct ',' :: ts => (readItems ts).map fun r => (some s :: r.1, r.2)
  | .word w :: .punct '}' :: ts => if w = "nullptr".toList then some ([none], ts) else none
  | _ => none

/-- The values of an array of bytes, each with a comma. -/
def readValues : List Token → Option (List Nat × List Token)
  | .word w :: .punct ',' :: ts =>
    match number w with
    | none => none
    | some n => (readValues ts).map fun r => (n :: r.1, r.2)
  | .punct '}' :: ts => some ([], ts)
  | _ => none

/-- A field that is one word. -/
def wordField (w : List Char) : Field :=
  if w = "nullptr".toList then .null
  else
    match number w with
    | some n => .number n
    | none => .name w

/-- A field, and what follows it. -/
def readField : List Token → Option (Field × List Token)
  | .literal s :: ts => some (.text s, ts)
  | .word w :: ts =>
    if w = "static_cast".toList then
      match expect [.punct '<', word "uint32_t", .punct '>', .punct '(', word "sizeof",
          .punct '('] ts with
      | some (.word name :: .punct ')' :: .punct ')' :: ts) => some (.size name, ts)
      | _ => none
    else some (wordField w, ts)
  | _ => none

/-- The fields of a row, up to the closing brace; at most `n`. -/
def readFields : Nat → List Token → Option (List Field × List Token)
  | 0, _ => none
  | n + 1, ts =>
    match readField ts with
    | some (f, .punct ',' :: ts) => (readFields n ts).map fun r => (f :: r.1, r.2)
    | some (f, .punct '}' :: ts) => some ([f], ts)
    | _ => none

/-- A row after its opening brace, with the comma after it. -/
def readRow (ts : List Token) : Option (List Field × List Token) :=
  match readFields ts.length ts with
  | some (fields, .punct ',' :: ts) => some (fields, ts)
  | _ => none

/-- The rows of a table, each with a comma; at most `n`. -/
def readRows : Nat → List Token → Option (List (List Field) × List Token)
  | 0, _ => none
  | n + 1, ts =>
    match ts with
    | .punct '{' :: ts =>
      (readRow ts).bind fun row => (readRows n row.2).map fun r => (row.1 :: r.1, r.2)
    | .punct '}' :: ts => some ([], ts)
    | _ => none

/-- `[] = {`, or with a size. -/
def readBounds : List Token → Option (Option Nat × List Token)
  | .punct '[' :: .punct ']' :: .punct '=' :: .punct '{' :: ts => some (none, ts)
  | .punct '[' :: .word w :: .punct ']' :: .punct '=' :: .punct '{' :: ts =>
    (number w).map fun n => (some n, ts)
  | _ => none

/-- The semicolon after an initializer. -/
def endDecl {α : Type} (make : α → Decl) : Option (α × List Token) → Option (Decl × List Token)
  | some (x, .punct ';' :: ts) => some (make x, ts)
  | _ => none

def readPointers (type const name : List Char) (ts : List Token) : Option (Decl × List Token) :=
  if type = "char".toList ∧ const = "const".toList then
    (readBounds ts).bind fun r => if r.1 = none then endDecl (.strings name) (readItems r.2) else none
  else none

def readArray (type name : List Char) (ts : List Token) : Option (Decl × List Token) :=
  (readBounds ts).bind fun r =>
    if type = "uint8_t".toList then endDecl (.bytes name r.1) (readValues r.2)
    else if r.1 = none then endDecl (.rows type name) (readRows r.2.length r.2)
    else none

/-- One declaration, and what follows it. -/
def readDecl (ts : List Token) : Option (Decl × List Token) :=
  match expect [word "static", word "const"] ts with
  | some (.word type :: .punct '*' :: .word const :: .word name :: ts) =>
    readPointers type const name ts
  | some (.word type :: .word name :: ts) => readArray type name ts
  | _ => none

/-- At most `n` declarations. -/
def readDecls : Nat → List Token → Option (List Decl)
  | _, [] => some []
  | 0, _ :: _ => none
  | n + 1, t :: ts =>
    match readDecl (t :: ts) with
    | none => none
    | some (d, rest) => (readDecls n rest).map fun ds => d :: ds

/-- The declarations of a text that begins in a comment. -/
def declarations (text : List Char) : Option (List Decl) :=
  match lex .comment text with
  | none => none
  | some ts => readDecls ts.length ts

theorem digits_none (base : Nat) (value : Char → Option Nat) {c : Char} (hc : value c = none)
    (s : List Char) : digits base value (c :: s) = none := by
  have hnone : ∀ s : List Char, s.foldl
      (fun n c => n.bind fun n => (value c).map fun d => n * base + d) none = none := by
    intro s
    induction s with
    | nil => rfl
    | cons c s ih => exact ih
  unfold digits
  rw [List.foldl_cons, hc]
  exact hnone s

/-- A word that begins with a letter is a name, but for the null pointer. -/
theorem wordField_name {c : Char} (hc : decValue c = none) (hzero : c ≠ '0') {s : List Char}
    (hnull : c :: s ≠ "nullptr".toList) : wordField (c :: s) = .name (c :: s) := by
  have hhex : ['0', 'x'].isPrefixOf (c :: s) = false := by simp [List.isPrefixOf, hzero.symm]
  have hnumber : number (c :: s) = none := by
    unfold number
    rw [hhex]
    exact digits_none 10 decValue hc s
  unfold wordField
  rw [if_neg hnull, hnumber]

/-! ### Tokens of declarations -/

def Field.tokens : Field → List Token
  | .null => [word "nullptr"]
  | .text s => [.literal s]
  | .name s => [.word s]
  | .size s => [word "static_cast", .punct '<', word "uint32_t", .punct '>', .punct '(',
      word "sizeof", .punct '(', .word s, .punct ')', .punct ')']
  | .number n => [.word (Nat.toDigits 10 n)]

/-- The field is read back: its name is not a number or a keyword. -/
def Field.Good : Field → Prop
  | .name s => s ≠ "static_cast".toList ∧ wordField s = .name s
  | .number n => Nat.toDigits 10 n ≠ "static_cast".toList ∧
      wordField (Nat.toDigits 10 n) = .number n
  | _ => True

/-- Fields with a comma between two of them. -/
def fieldsTokens : List Field → List Token
  | [] => []
  | [f] => f.tokens
  | f :: g :: fs => f.tokens ++ .punct ',' :: fieldsTokens (g :: fs)

/-- `0x` and two digits. -/
def hexWord (b : UInt8) : List Char :=
  '0' :: 'x' :: [Nat.digitChar (b.toNat / 16), Nat.digitChar (b.toNat % 16)]

def boundsTokens (size : Option Nat) : List Token :=
  match size with
  | none => [.punct '[', .punct ']', .punct '=', .punct '{']
  | some n => [.punct '[', .word (Nat.toDigits 10 n), .punct ']', .punct '=', .punct '{']

/-- An array of strings that a null pointer ends. -/
def stringsTokens (name : List Char) (items : List (List Char)) : List Token :=
  [word "static", word "const", word "char", .punct '*', word "const", .word name] ++
    (boundsTokens none ++ (items.flatMap (fun s => [.literal s, .punct ',']) ++
      [word "nullptr", .punct '}', .punct ';']))

def bytesTokens (name : List Char) (size : Option Nat) (values : List UInt8) : List Token :=
  [word "static", word "const", word "uint8_t", .word name] ++
    (boundsTokens size ++ (values.flatMap (fun b => [.word (hexWord b), .punct ',']) ++
      [.punct '}', .punct ';']))

def rowTokens (fields : List Field) : List Token :=
  .punct '{' :: (fieldsTokens fields ++ [.punct '}', .punct ','])

def rowsTokens (type name : List Char) (rows : List (List Field)) : List Token :=
  [word "static", word "const", .word type, .word name] ++
    (boundsTokens none ++ (rows.flatMap rowTokens ++ [.punct '}', .punct ';']))

/-! ### Reading them back -/

theorem expect_append (expected ts : List Token) : expect expected (expected ++ ts) = some ts := by
  unfold expect
  rw [if_pos (by simp), List.drop_left]

theorem readItems_tokens (items : List (List Char)) (rest : List Token) :
    readItems (items.flatMap (fun s => [.literal s, .punct ',']) ++
      word "nullptr" :: .punct '}' :: rest) = some (items.map some ++ [none], rest) := by
  induction items with
  | nil => rfl
  | cons s items ih =>
    have hshape : (s :: items).flatMap (fun s => [.literal s, .punct ',']) ++
        word "nullptr" :: .punct '}' :: rest = .literal s :: .punct ',' ::
          (items.flatMap (fun s => [.literal s, .punct ',']) ++
            word "nullptr" :: .punct '}' :: rest) := by simp
    rw [hshape, readItems, ih]
    rfl

theorem number_hexWord (b : UInt8) : number (hexWord b) = some b.toNat := by
  have hall : ∀ n < 256, number ('0' :: 'x' :: [Nat.digitChar (n / 16), Nat.digitChar (n % 16)]) =
      some n := by decide +kernel
  exact hall b.toNat b.toNat_lt

theorem readValues_tokens (values : List UInt8) (rest : List Token) :
    readValues (values.flatMap (fun b => [.word (hexWord b), .punct ',']) ++
      .punct '}' :: rest) = some (values.map UInt8.toNat, rest) := by
  induction values with
  | nil => rfl
  | cons b values ih =>
    have hshape : (b :: values).flatMap (fun b => [.word (hexWord b), .punct ',']) ++
        .punct '}' :: rest = .word (hexWord b) :: .punct ',' ::
          (values.flatMap (fun b => [.word (hexWord b), .punct ',']) ++ .punct '}' :: rest) := by
      simp
    rw [hshape, readValues, number_hexWord]
    dsimp only
    rw [ih]
    rfl

theorem readField_tokens {f : Field} (h : f.Good) (rest : List Token) :
    readField (f.tokens ++ rest) = some (f, rest) := by
  cases f with
  | null => rfl
  | text s => rfl
  | name s =>
    show readField (.word s :: rest) = _
    rw [readField, if_neg h.1, h.2]
  | size s => rfl
  | number n =>
    show readField (.word (Nat.toDigits 10 n) :: rest) = _
    rw [readField, if_neg h.1, h.2]

theorem readFields_tokens (fields : List Field) (h : ∀ f ∈ fields, f.Good) (hne : fields ≠ [])
    (rest : List Token) : ∀ n, fields.length ≤ n →
      readFields n (fieldsTokens fields ++ .punct '}' :: rest) = some (fields, rest) := by
  induction fields with
  | nil => exact absurd rfl hne
  | cons f fs ih =>
    intro n hn
    obtain ⟨hf, hfs⟩ := List.forall_mem_cons.1 h
    cases n with
    | zero => simp at hn
    | succ n =>
      cases fs with
      | nil =>
        show readFields (n + 1) (f.tokens ++ .punct '}' :: rest) = _
        rw [readFields, readField_tokens hf]
        rfl
      | cons g fs =>
        have hshape : fieldsTokens (f :: g :: fs) ++ .punct '}' :: rest =
            f.tokens ++ .punct ',' :: (fieldsTokens (g :: fs) ++ .punct '}' :: rest) := by
          simp [fieldsTokens]
        rw [hshape, readFields, readField_tokens hf]
        show (readFields n (fieldsTokens (g :: fs) ++ .punct '}' :: rest)).map _ = _
        rw [ih hfs (by simp) n (by simpa using hn)]
        rfl

theorem length_fieldsTokens (fields : List Field) :
    fields.length ≤ (fieldsTokens fields).length + 1 := by
  induction fields with
  | nil => simp
  | cons f fs ih =>
    cases fs with
    | nil => simp
    | cons g fs =>
      simp only [fieldsTokens, List.length_append, List.length_cons] at ih ⊢
      omega

theorem readRow_tokens {fields : List Field} (hne : fields ≠ []) (h : ∀ f ∈ fields, f.Good)
    (rest : List Token) :
    readRow (fieldsTokens fields ++ .punct '}' :: .punct ',' :: rest) = some (fields, rest) := by
  have hlen := length_fieldsTokens fields
  unfold readRow
  rw [readFields_tokens fields h hne]
  · rfl
  · simp only [List.length_append, List.length_cons]
    omega

theorem readRows_tokens (rows : List (List Field))
    (h : ∀ r ∈ rows, r ≠ [] ∧ ∀ f ∈ r, f.Good) (rest : List Token) : ∀ n, rows.length < n →
      readRows n (rows.flatMap rowTokens ++ .punct '}' :: rest) = some (rows, rest) := by
  induction rows with
  | nil =>
    intro n hn
    cases n with
    | zero => cases hn
    | succ n => rfl
  | cons r rows ih =>
    intro n hn
    obtain ⟨⟨hne, hr⟩, hrows⟩ := List.forall_mem_cons.1 h
    cases n with
    | zero => cases hn
    | succ n =>
      have hshape : (r :: rows).flatMap rowTokens ++ .punct '}' :: rest =
          .punct '{' :: (fieldsTokens r ++
            .punct '}' :: .punct ',' :: (rows.flatMap rowTokens ++ .punct '}' :: rest)) := by
        simp [rowTokens]
      rw [hshape, readRows]
      show (readRow _).bind _ = _
      rw [readRow_tokens hne hr, Option.bind_some, ih hrows n (by simpa using hn)]
      rfl

theorem readBounds_tokens {size : Option Nat}
    (h : ∀ n, size = some n → number (Nat.toDigits 10 n) = some n) (rest : List Token) :
    readBounds (boundsTokens size ++ rest) = some (size, rest) := by
  cases size with
  | none => rfl
  | some n =>
    show (number (Nat.toDigits 10 n)).map _ = _
    rw [h n rfl]
    rfl

theorem readDecl_strings (name : List Char) (items : List (List Char)) (rest : List Token) :
    readDecl (stringsTokens name items ++ rest) =
      some (.strings name (items.map some ++ [none]), rest) := by
  have hshape : stringsTokens name items ++ rest = [word "static", word "const"] ++
      (word "char" :: .punct '*' :: word "const" :: .word name :: (boundsTokens none ++
        (items.flatMap (fun s => [.literal s, .punct ',']) ++
          word "nullptr" :: .punct '}' :: .punct ';' :: rest))) := by
    simp [stringsTokens]
  unfold readDecl
  rw [hshape, expect_append]
  show readPointers "char".toList "const".toList name _ = _
  unfold readPointers
  rw [if_pos ⟨rfl, rfl⟩, readBounds_tokens (by simp), Option.bind_some, if_pos rfl,
    readItems_tokens]
  rfl

theorem readDecl_bytes (name : List Char) {size : Option Nat}
    (h : ∀ n, size = some n → number (Nat.toDigits 10 n) = some n) (values : List UInt8)
    (rest : List Token) :
    readDecl (bytesTokens name size values ++ rest) =
      some (.bytes name size (values.map UInt8.toNat), rest) := by
  have hshape : bytesTokens name size values ++ rest = [word "static", word "const"] ++
      (word "uint8_t" :: .word name :: (boundsTokens size ++
        (values.flatMap (fun b => [.word (hexWord b), .punct ',']) ++
          .punct '}' :: .punct ';' :: rest))) := by
    simp [bytesTokens]
  unfold readDecl
  rw [hshape, expect_append]
  show readArray "uint8_t".toList name _ = _
  unfold readArray
  rw [readBounds_tokens h, Option.bind_some, if_pos rfl, readValues_tokens]
  rfl

theorem readDecl_rows {type : List Char} (htype : type ≠ "uint8_t".toList) (name : List Char)
    (rows : List (List Field)) (h : ∀ r ∈ rows, r ≠ [] ∧ ∀ f ∈ r, f.Good) (rest : List Token) :
    readDecl (rowsTokens type name rows ++ rest) = some (.rows type name rows, rest) := by
  have hshape : rowsTokens type name rows ++ rest = [word "static", word "const"] ++
      (.word type :: .word name :: (boundsTokens none ++
        (rows.flatMap rowTokens ++ .punct '}' :: .punct ';' :: rest))) := by
    simp [rowsTokens]
  have hlen : ∀ rows : List (List Field), rows.length ≤ (rows.flatMap rowTokens).length := by
    intro rows
    induction rows with
    | nil => simp
    | cons r rows ih =>
      simp only [List.flatMap_cons, List.length_append, rowTokens, List.length_cons]
      omega
  have hlen := hlen rows
  unfold readDecl
  rw [hshape, expect_append]
  show readArray type name _ = _
  unfold readArray
  rw [readBounds_tokens (by simp), Option.bind_some, if_neg htype, if_pos rfl,
    readRows_tokens rows h _ _ (by
      simp only [List.length_append, List.length_cons]
      omega)]
  rfl

/-- **Declarations** are read back one after the other. -/
theorem readDecls_tokens {parts : List (Decl × List Token)}
    (h : ∀ p ∈ parts, p.2 ≠ [] ∧ ∀ rest, readDecl (p.2 ++ rest) = some (p.1, rest)) :
    ∀ n, parts.length ≤ n →
      readDecls n (parts.flatMap Prod.snd) = some (parts.map Prod.fst) := by
  induction parts with
  | nil =>
    intro n _
    cases n with
    | zero => rfl
    | succ n => rfl
  | cons p parts ih =>
    intro n hn
    obtain ⟨⟨hne, hread⟩, hparts⟩ := List.forall_mem_cons.1 h
    cases n with
    | zero => simp at hn
    | succ n =>
      obtain ⟨d, ts⟩ := p
      have hread := hread (parts.flatMap Prod.snd)
      rw [List.flatMap_cons]
      cases ts with
      | nil => exact absurd rfl hne
      | cons t ts =>
        rw [List.cons_append] at hread ⊢
        rw [readDecls, hread]
        show (readDecls n _).map _ = _
        rw [ih hparts n (by simpa using hn)]
        rfl

theorem length_le_tokens {parts : List (Decl × List Token)} (h : ∀ p ∈ parts, p.2 ≠ []) :
    parts.length ≤ (parts.flatMap Prod.snd).length := by
  induction parts with
  | nil => simp
  | cons p parts ih =>
    obtain ⟨hp, hparts⟩ := List.forall_mem_cons.1 h
    have hpos := List.length_pos_iff.2 hp
    have := ih hparts
    simp only [List.flatMap_cons, List.length_append, List.length_cons]
    omega

theorem declarations_eq {text : List Char} {parts : List (Decl × List Token)}
    (hlex : lex .comment text = some (parts.flatMap Prod.snd))
    (h : ∀ p ∈ parts, p.2 ≠ [] ∧ ∀ rest, readDecl (p.2 ++ rest) = some (p.1, rest)) :
    declarations text = some (parts.map Prod.fst) := by
  unfold declarations
  rw [hlex]
  exact readDecls_tokens h _ (length_le_tokens fun p hp => (h p hp).1)

/-! ### Back from a declaration -/

theorem of_expect {expected ts r : List Token} (h : expect expected ts = some r) :
    ts = expected ++ r := by
  unfold expect at h
  split at h
  · rename_i hp
    obtain ⟨b, rfl⟩ := List.isPrefixOf_iff_prefix.1 hp
    rw [List.drop_left] at h
    cases h
    rfl
  · cases h

theorem of_readItems {ts rest : List Token} {items : List (Option (List Char))}
    (h : readItems ts = some (items, rest)) :
    ∃ lits : List (List Char), items = lits.map some ++ [none] ∧
      ts = lits.flatMap (fun s => [.literal s, .punct ',']) ++ word "nullptr" :: .punct '}' :: rest := by
  induction ts using readItems.induct generalizing items with
  | case1 s ts ih =>
    rw [readItems] at h
    obtain ⟨⟨items', rest'⟩, hrec, heq⟩ := Option.map_eq_some_iff.1 h
    cases heq
    obtain ⟨lits, rfl, rfl⟩ := ih hrec
    exact ⟨s :: lits, rfl, rfl⟩
  | case2 ts =>
    rw [readItems, if_pos rfl] at h
    cases h
    exact ⟨[], rfl, rfl⟩
  | case3 w ts hw =>
    rw [readItems, if_neg hw] at h
    cases h
  | case4 ts h₁ h₂ =>
    rw [readItems] at h
    · cases h
    · exact h₁
    · exact h₂

theorem of_readBounds {ts rest : List Token} (h : readBounds ts = some (none, rest)) :
    ts = boundsTokens none ++ rest := by
  unfold readBounds at h
  split at h
  · cases h
    rfl
  · obtain ⟨n, _, hn⟩ := Option.map_eq_some_iff.1 h
    cases hn
  · cases h

theorem of_readDecl_strings {ts rest : List Token} {name : List Char}
    {items : List (Option (List Char))} (h : readDecl ts = some (.strings name items, rest)) :
    ∃ lits : List (List Char), items = lits.map some ++ [none] ∧
      ts = stringsTokens name lits ++ rest := by
  unfold readDecl at h
  split at h
  · rename_i type const name' ts' hexpect
    unfold readPointers at h
    split at h
    · rename_i hwords
      obtain ⟨rfl, rfl⟩ := hwords
      obtain ⟨⟨size, r⟩, hbounds, h⟩ := Option.bind_eq_some_iff.1 h
      dsimp only at h
      split at h
      · rename_i hsize
        subst hsize
        unfold endDecl at h
        split at h
        · rename_i items' ts'' hitems
          cases h
          obtain ⟨lits, rfl, hr⟩ := of_readItems hitems
          refine ⟨lits, rfl, ?_⟩
          rw [of_expect hexpect, of_readBounds hbounds, hr]
          simp [stringsTokens, word]
        · cases h
      · cases h
    · cases h
  · rename_i type name' ts' _ hexpect
    unfold readArray at h
    obtain ⟨⟨size, r⟩, hbounds, h⟩ := Option.bind_eq_some_iff.1 h
    dsimp only at h
    have hno : ∀ {α : Type} {make : α → Decl} {o : Option (α × List Token)},
        (∀ x, make x ≠ .strings name items) → endDecl make o ≠ some (.strings name items, rest) := by
      intro α make o hmake heq
      unfold endDecl at heq
      split at heq
      · exact hmake _ (Prod.mk.inj (Option.some.inj heq)).1
      · cases heq
    split at h
    · exact absurd h (hno fun _ => by simp)
    · split at h
      · exact absurd h (hno fun _ => by simp)
      · cases h
  · cases h

theorem of_readDecls_nil {n : Nat} {ts : List Token} (h : readDecls n ts = some []) : ts = [] := by
  cases ts with
  | nil => rfl
  | cons t ts =>
    cases n with
    | zero => cases h
    | succ n =>
      rw [readDecls] at h
      split at h
      · cases h
      · obtain ⟨ds, _, hds⟩ := Option.map_eq_some_iff.1 h
        cases hds

/-- **A text of one array of strings** has the tokens of the array. -/
theorem of_declarations_strings {text name : List Char} {items : List (Option (List Char))}
    (h : declarations text = some [.strings name items]) :
    ∃ lits : List (List Char), items = lits.map some ++ [none] ∧
      lex .comment text = some (stringsTokens name lits) := by
  unfold declarations at h
  cases hlex : lex .comment text with
  | none =>
    rw [hlex] at h
    cases h
  | some ts =>
    rw [hlex] at h
    dsimp only at h
    cases ts with
    | nil => cases h
    | cons t ts =>
      rw [List.length_cons, readDecls] at h
      split at h
      · cases h
      · rename_i d rest hdecl
        obtain ⟨ds, hds, heq⟩ := Option.map_eq_some_iff.1 h
        cases heq
        obtain ⟨lits, hitems, hts⟩ := of_readDecl_strings hdecl
        rw [of_readDecls_nil hds, List.append_nil] at hts
        exact ⟨lits, hitems, by rw [hts]⟩

/-! ## What the names stand for -/

def Decl.name : Decl → List Char
  | .strings name _ => name
  | .bytes name _ _ => name
  | .rows _ name _ => name

/-- The declaration of a name. -/
def find (ds : List Decl) (name : List Char) : Option Decl := ds.find? fun d => d.name == name

/-- What is read through a pointer to a string: up to the first null character. -/
def cString (s : List Char) : List Char := s.takeWhile fun c => c != Char.ofNat 0

/-- The array of string pointers of a name. -/
def strings (ds : List Decl) (name : List Char) : Option (List (Option (List Char))) :=
  match find ds name with
  | some (.strings _ items) => some (items.map fun item => item.map cString)
  | _ => none

/-- The array of an initializer: a size that is given is filled up with zeros. -/
def arrayOf (size : Option Nat) (values : List Nat) : Option (List UInt8) :=
  let size := size.getD values.length
  if values.length ≤ size ∧ ∀ n ∈ values, n < 256 then
    some (values.map UInt8.ofNat ++ List.replicate (size - values.length) 0)
  else none

/-- The array of bytes of a name. -/
def bytes (ds : List Decl) (name : List Char) : Option (List UInt8) :=
  match find ds name with
  | some (.bytes _ size values) => arrayOf size values
  | _ => none

/-- A name that is declared once stands for its declaration. -/
theorem find_eq {ds : List Decl} (h : (ds.map Decl.name).Nodup) {d : Decl} (hd : d ∈ ds) :
    find ds d.name = some d := by
  induction ds with
  | nil => cases hd
  | cons e ds ih =>
    rw [List.map_cons, List.nodup_cons] at h
    unfold find
    rcases List.mem_cons.1 hd with rfl | hd
    · rw [List.find?_cons_of_pos (by simp)]
    · have hne : e.name ≠ d.name := by
        intro heq
        exact h.1 (heq ▸ List.mem_map_of_mem hd)
      rw [List.find?_cons_of_neg (by simpa using hne)]
      exact ih h.2 hd

theorem cString_eq_self {s : List Char} : cString s = s ↔ Char.ofNat 0 ∉ s := by
  unfold cString
  rw [List.takeWhile_eq_self_iff]
  constructor
  · intro h hmem
    have := h _ hmem
    simp at this
  · intro h c hc
    rw [bne_iff_ne]
    rintro rfl
    exact h hc

theorem arrayOf_bytes {size : Option Nat} {values : List UInt8}
    (h : ∀ n, size = some n → values.length = n) :
    arrayOf size (values.map UInt8.toNat) = some values := by
  have hsize : size.getD (values.map UInt8.toNat).length = values.length := by
    cases size with
    | none => simp
    | some n => exact (h n rfl).symm
  have hlt : ∀ n ∈ values.map UInt8.toNat, n < 256 := by
    intro n hn
    obtain ⟨b, _, rfl⟩ := List.mem_map.1 hn
    exact b.toNat_lt
  unfold arrayOf
  rw [hsize]
  dsimp only
  rw [if_pos ⟨by simp, hlt⟩]
  simp [List.map_map, Function.comp_def]

end CTables
