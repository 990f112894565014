import Mathlib.Data.List.Basic
import Mathlib.Tactic.Common

/-!
# Fragments of HTML

A reader of a part of HTML: text, the character references that `html.escape` writes, and elements
with double-quoted attributes, as the tokenizer and the tree construction of the HTML standard read
them.  At anything else the reader gives up.

* `escape` — Python's `html.escape`;
* `run_escape`, `run_value` — an escaped text is read back, but for its null characters;
* `nodes` — the tree that a text is.
-/

set_option autoImplicit false

namespace HtmlFragment

/-! ## Escaping -/

/-- The character reference of a character that is escaped. -/
def reference (c : Char) : Option (List Char) :=
  if c = '&' then some "&amp;".toList
  else if c = '<' then some "&lt;".toList
  else if c = '>' then some "&gt;".toList
  else if c = '"' then some "&quot;".toList
  else if c = '\'' then some "&#x27;".toList
  else none

/-- `html.escape(s)`, which escapes quotes too. -/
def escape (s : List Char) : List Char := s.flatMap fun c => (reference c).getD [c]

/-! ## Tokens -/

inductive Token
  | char (c : Char)
  | start (name : List Char) (attrs : List (List Char × List Char))
  | stop (name : List Char)
  deriving DecidableEq

/-- The states of the tokenizer; a tag carries what was read of it. -/
inductive Mode
  | data
  | dataReference (ref : List Char)
  | tagOpen
  | endTagOpen
  | tagName (name : List Char)
  | endTagName (name : List Char)
  | beforeAttribute (name : List Char) (attrs : List (List Char × List Char))
  | attribute (name : List Char) (attrs : List (List Char × List Char)) (attr : List Char)
  | beforeValue (name : List Char) (attrs : List (List Char × List Char)) (attr : List Char)
  | value (name : List Char) (attrs : List (List Char × List Char)) (attr value : List Char)
  | valueReference (name : List Char) (attrs : List (List Char × List Char))
      (attr value ref : List Char)
  | afterValue (name : List Char) (attrs : List (List Char × List Char))
  deriving DecidableEq

/-- The character that a reference stands for, by what is between the ampersand and the
semicolon. -/
def referred (ref : List Char) : Option Char :=
  if ref = "amp".toList then some '&'
  else if ref = "lt".toList then some '<'
  else if ref = "gt".toList then some '>'
  else if ref = "quot".toList then some '"'
  else if ref = "#x27".toList then some '\''
  else none

def referenceChar (c : Char) : Bool := c = '#' || c.isAlphanum

/-- The null character, which is dropped from text. -/
def nul : Char := Char.ofNat 0

/-- What stands for a null character in an attribute. -/
def replacementChar : Char := Char.ofNat 0xFFFD

/-- Named, so that what follows does not carry a proof of it under another name. -/
local instance lawfulName : LawfulBEq (List Char) := inferInstance

/-- One character: the tokens it ends, and the state after it.  The newlines of the text are
normalized before. -/
def step (m : Mode) (c : Char) : Option (List Token × Mode) :=
  match m with
  | .data =>
    if c = '&' then some ([], .dataReference [])
    else if c = '<' then some ([], .tagOpen)
    else if c = nul then some ([], .data)
    else some ([.char c], .data)
  | .dataReference ref =>
    if c = ';' then (referred ref).map fun d => ([.char d], .data)
    else if referenceChar c then some ([], .dataReference (ref ++ [c])) else none
  | .tagOpen =>
    if c = '/' then some ([], .endTagOpen)
    else if c.isLower then some ([], .tagName [c]) else none
  | .endTagOpen => if c.isLower then some ([], .endTagName [c]) else none
  | .tagName name =>
    if c = ' ' then some ([], .beforeAttribute name [])
    else if c = '>' then some ([.start name []], .data)
    else if c.isLower then some ([], .tagName (name ++ [c])) else none
  | .endTagName name =>
    if c = '>' then some ([.stop name], .data)
    else if c.isLower then some ([], .endTagName (name ++ [c])) else none
  | .beforeAttribute name attrs =>
    if c.isLower then some ([], .attribute name attrs [c]) else none
  | .attribute name attrs attr =>
    -- of two attributes with one name the second is dropped
    if c = '=' then
      if attr ∈ attrs.map Prod.fst then none else some ([], .beforeValue name attrs attr)
    else if c.isLower then some ([], .attribute name attrs (attr ++ [c])) else none
  | .beforeValue name attrs attr =>
    if c = '"' then some ([], .value name attrs attr []) else none
  | .value name attrs attr value =>
    if c = '"' then some ([], .afterValue name (attrs ++ [(attr, value)]))
    else if c = '&' then some ([], .valueReference name attrs attr value [])
    else if c = nul then some ([], .value name attrs attr (value ++ [replacementChar]))
    else some ([], .value name attrs attr (value ++ [c]))
  | .valueReference name attrs attr value ref =>
    if c = ';' then (referred ref).map fun d => ([], .value name attrs attr (value ++ [d]))
    else if referenceChar c then some ([], .valueReference name attrs attr value (ref ++ [c]))
    else none
  | .afterValue name attrs =>
    if c = ' ' then some ([], .beforeAttribute name attrs)
    else if c = '>' then some ([.start name attrs], .data) else none

/-- The tokens of a part of a text, and the state at its end. -/
def run : Mode → List Char → Option (List Token × Mode)
  | m, [] => some ([], m)
  | m, c :: cs =>
    match step m c with
    | none => none
    | some r => (run r.2 cs).map fun r' => (r.1 ++ r'.1, r'.2)

/-- The tokens of a text. -/
def tokens (text : List Char) : Option (List Token) :=
  match run .data text with
  | some (ts, .data) => some ts
  | _ => none

theorem run_trans {m m' m'' : Mode} {a b : List Char} {ts us : List Token}
    (ha : run m a = some (ts, m')) (hb : run m' b = some (us, m'')) :
    run m (a ++ b) = some (ts ++ us, m'') := by
  induction a generalizing m ts with
  | nil =>
    cases ha
    exact hb
  | cons c a ih =>
    rw [run] at ha
    rw [List.cons_append, run]
    cases hstep : step m c with
    | none =>
      rw [hstep] at ha
      cases ha
    | some r =>
      rw [hstep] at ha
      dsimp only at ha ⊢
      obtain ⟨r', hr, heq⟩ := Option.map_eq_some_iff.1 ha
      obtain ⟨rs, m₂⟩ := r'
      cases heq
      rw [ih hr]
      simp

theorem tokens_eq {text : List Char} {ts : List Token} (h : run .data text = some (ts, .data)) :
    tokens text = some ts := by
  unfold tokens
  rw [h]

/-! ## Escaped text -/

/-- What is left of a text. -/
def seen (s : List Char) : List Char := s.filter fun c => decide (c ≠ nul)

/-- What is left of a text in an attribute. -/
def seenValue (s : List Char) : List Char := s.map fun c => if c = nul then replacementChar else c

theorem seen_eq_self {s : List Char} : seen s = s ↔ nul ∉ s := by
  unfold seen
  rw [List.filter_eq_self]
  constructor
  · intro h hmem
    exact absurd rfl (of_decide_eq_true (h nul hmem))
  · intro h c hc
    rw [decide_eq_true_eq]
    rintro rfl
    exact h hc

theorem seenValue_eq_self {s : List Char} : seenValue s = s ↔ nul ∉ s := by
  induction s with
  | nil => simp [seenValue]
  | cons c s ih =>
    have hcons : seenValue (c :: s) = (if c = nul then replacementChar else c) :: seenValue s := rfl
    rw [hcons, List.cons.injEq, ih, List.mem_cons, not_or]
    refine and_congr_left fun _ => ?_
    by_cases hc : c = nul
    · rw [if_pos hc, hc]
      exact iff_of_false (by decide) fun h => h rfl
    · rw [if_neg hc]
      exact iff_of_true rfl (Ne.symm hc)

theorem escape_cons (c : Char) (s : List Char) :
    escape (c :: s) = (reference c).getD [c] ++ escape s := rfl

theorem escape_append (s t : List Char) : escape (s ++ t) = escape s ++ escape t :=
  List.flatMap_append

/-- The characters that are escaped, with their references. -/
theorem reference_cases (c : Char) :
    (reference c = some "&amp;".toList ∧ c = '&') ∨ (reference c = some "&lt;".toList ∧ c = '<') ∨
      (reference c = some "&gt;".toList ∧ c = '>') ∨
      (reference c = some "&quot;".toList ∧ c = '"') ∨
      (reference c = some "&#x27;".toList ∧ c = '\'') ∨
      (reference c = none ∧ c ≠ '&' ∧ c ≠ '<' ∧ c ≠ '>' ∧ c ≠ '"' ∧ c ≠ '\'') := by
  unfold reference
  by_cases h1 : c = '&'
  · simp [h1]
  by_cases h2 : c = '<'
  · simp [h2]
  by_cases h3 : c = '>'
  · simp [h3]
  by_cases h4 : c = '"'
  · simp [h4]
  by_cases h5 : c = '\''
  · simp [h5]
  simp [h1, h2, h3, h4, h5]

theorem step_data {c : Char} (hamp : c ≠ '&') (hlt : c ≠ '<') :
    step .data c = some ((seen [c]).map .char, .data) := by
  unfold step seen
  dsimp only
  rw [if_neg hamp, if_neg hlt]
  by_cases hc : c = nul
  · rw [if_pos hc, List.filter_cons_of_neg (by simp [hc])]
    rfl
  · rw [if_neg hc, List.filter_cons_of_pos (by simp [hc])]
    rfl

theorem step_value {name : List Char} {attrs : List (List Char × List Char)}
    {attr value : List Char} {c : Char} (hquote : c ≠ '"') (hamp : c ≠ '&') :
    step (.value name attrs attr value) c =
      some ([], .value name attrs attr (value ++ seenValue [c])) := by
  unfold step seenValue
  dsimp only
  rw [if_neg hquote, if_neg hamp, List.map_singleton]
  split <;> rfl

/-- One character of a text. -/
theorem run_reference (c : Char) :
    run .data ((reference c).getD [c]) = some ((seen [c]).map .char, .data) := by
  rcases reference_cases c with ⟨h, rfl⟩ | ⟨h, rfl⟩ | ⟨h, rfl⟩ | ⟨h, rfl⟩ | ⟨h, rfl⟩ |
    ⟨h, hamp, hlt, _⟩
  · rw [h]
    rfl
  · rw [h]
    rfl
  · rw [h]
    rfl
  · rw [h]
    rfl
  · rw [h]
    rfl
  · rw [h, Option.getD_none, run, step_data hamp hlt]
    simp [run]

/-- **An escaped text** is read back. -/
theorem run_escape (s : List Char) : run .data (escape s) = some ((seen s).map .char, .data) := by
  induction s with
  | nil => rfl
  | cons c s ih =>
    have hsplit : seen (c :: s) = seen [c] ++ seen s := List.filter_append [c] s
    rw [escape_cons, hsplit, List.map_append]
    exact run_trans (run_reference c) ih

/-- One character of an attribute. -/
theorem run_valueReference (name : List Char) (attrs : List (List Char × List Char))
    (attr value : List Char) (c : Char) :
    run (.value name attrs attr value) ((reference c).getD [c]) =
      some ([], .value name attrs attr (value ++ seenValue [c])) := by
  rcases reference_cases c with ⟨h, rfl⟩ | ⟨h, rfl⟩ | ⟨h, rfl⟩ | ⟨h, rfl⟩ | ⟨h, rfl⟩ |
    ⟨h, hamp, _, _, hquote, _⟩
  · rw [h]
    rfl
  · rw [h]
    rfl
  · rw [h]
    rfl
  · rw [h]
    rfl
  · rw [h]
    rfl
  · rw [h, Option.getD_none, run, step_value hquote hamp]
    rfl

/-- **An escaped attribute** is read back. -/
theorem run_value (name : List Char) (attrs : List (List Char × List Char)) (attr : List Char)
    (s : List Char) : ∀ value : List Char,
    run (.value name attrs attr value) (escape s) =
      some ([], .value name attrs attr (value ++ seenValue s)) := by
  induction s with
  | nil =>
    intro value
    show some _ = _
    simp [seenValue]
  | cons c s ih =>
    intro value
    have hsplit : seenValue (c :: s) = seenValue [c] ++ seenValue s := rfl
    rw [escape_cons, hsplit, ← List.append_assoc]
    exact run_trans (run_valueReference name attrs attr value c) (ih _)

/-- The end of a tag, after an attribute. -/
theorem run_close (name : List Char) (attrs : List (List Char × List Char))
    (attr value : List Char) : run (.value name attrs attr value) "\">".toList =
      some ([.start name (attrs ++ [(attr, value)])], .data) := rfl

/-! ## The tree -/

inductive Node
  | char (c : Char)
  | element (name : List Char) (attrs : List (List Char × List Char)) (children : List Node)

/-- An element that is open, with what comes before it in its parent. -/
structure Frame where
  name : List Char
  attrs : List (List Char × List Char)
  before : List Node

/-- The elements the reader knows.  An `a` or a `p` would end one that is open. -/
def opens (name : List Char) (names : List (List Char)) : Bool :=
  name = "span".toList || ((name = "a".toList || name = "p".toList) && name ∉ names)

theorem opens_span (names : List (List Char)) : opens "span".toList names = true := rfl

/-- The nodes of a text: the elements that are open, innermost first, what the innermost has so far,
and the rest of the tokens. -/
def build : List Frame → List Node → List Token → Option (List Node)
  | [], ns, [] => some ns
  | _ :: _, _, [] => none
  | fs, ns, .char c :: ts => build fs (ns ++ [.char c]) ts
  | fs, ns, .start name attrs :: ts =>
    if opens name (fs.map Frame.name) then build (⟨name, attrs, ns⟩ :: fs) [] ts else none
  | [], _, .stop _ :: _ => none
  | f :: fs, ns, .stop name :: ts =>
    if f.name = name then build fs (f.before ++ [.element f.name f.attrs ns]) ts else none

/-- The nodes of a text. -/
def nodes (text : List Char) : Option (List Node) := (tokens text).bind (build [] [])

theorem build_char (fs : List Frame) (ns : List Node) (c : Char) (ts : List Token) :
    build fs ns (.char c :: ts) = build fs (ns ++ [.char c]) ts := by
  cases fs <;> rfl

theorem build_chars (fs : List Frame) (s : List Char) (ts : List Token) : ∀ ns : List Node,
    build fs ns (s.map .char ++ ts) = build fs (ns ++ s.map .char) ts := by
  induction s with
  | nil =>
    intro ns
    simp
  | cons c s ih =>
    intro ns
    rw [List.map_cons, List.cons_append, build_char, ih, List.append_assoc]
    rfl

theorem build_start {fs : List Frame} {name : List Char} (h : opens name (fs.map Frame.name) = true)
    (attrs : List (List Char × List Char)) (ns : List Node) (ts : List Token) :
    build fs ns (.start name attrs :: ts) = build (⟨name, attrs, ns⟩ :: fs) [] ts := by
  cases fs <;> exact if_pos h

theorem build_stop (name : List Char) (attrs : List (List Char × List Char)) (before : List Node)
    (fs : List Frame) (ns : List Node) (ts : List Token) :
    build (⟨name, attrs, before⟩ :: fs) ns (.stop name :: ts) =
      build fs (before ++ [.element name attrs ns]) ts := if_pos rfl

/-- An escaped text has no tag. -/
theorem lt_not_mem_escape (s : List Char) : '<' ∉ escape s := by
  intro hmem
  obtain ⟨c, _, hc⟩ := List.mem_flatMap.1 hmem
  rcases reference_cases c with ⟨h, rfl⟩ | ⟨h, rfl⟩ | ⟨h, rfl⟩ | ⟨h, rfl⟩ | ⟨h, rfl⟩ |
    ⟨h, _, hlt, _⟩
  · rw [h] at hc
    exact absurd hc (by decide)
  · rw [h] at hc
    exact absurd hc (by decide)
  · rw [h] at hc
    exact absurd hc (by decide)
  · rw [h] at hc
    exact absurd hc (by decide)
  · rw [h] at hc
    exact absurd hc (by decide)
  · rw [h, Option.getD_none, List.mem_singleton] at hc
    exact hlt hc.symm

end HtmlFragment
