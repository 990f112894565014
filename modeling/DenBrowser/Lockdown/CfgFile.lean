import DenBrowser.Lockdown.AutoConfig

/-!
# The form of `mozilla.cfg`

The first line of the file is free; below it stand blank lines, comments of either kind and
`lockPref` statements on lines of their own.  `CfgFile` says this piece by piece, so that each
reader can be followed through a file.

* `Statement`, `Item`, `CfgFile` — the pieces, whose fields say what each may hold;
* `Literal.value`, `Literal.compiled` — what a literal means to JavaScript and to the compiler;
* `Statement.oneLine` — a statement stands on one line.
-/

set_option autoImplicit false

namespace DenBrowser.Lockdown

open Backtrack

/-! ## The pieces -/

/-- White space within a line, for Python and for JavaScript. -/
def isGap (c : Char) : Bool := isSpace c && isJsGap c && c != '\n' && c != '\r'

abbrev Gap := {s : Str // ∀ c ∈ s, isGap c = true}

/-- What may stand between quotes without an escape. -/
def isPlain (c : Char) : Bool := c != '"' && c != '\\' && c != '\n' && c != '\r'

abbrev Quoted := {s : Str // ∀ c ∈ s, isPlain c = true}

abbrev Name := {s : Str // s ≠ [] ∧ ∀ c ∈ s, isPlain c = true}

abbrev Digits := {s : Str // s ≠ [] ∧ ∀ c ∈ s, c.isDigit = true}

abbrev CommentText := {s : Str // ∀ c ∈ s, isLineTerminator c = false}

/-- A block comment that does not mention `lockPref`; it may span lines. -/
abbrev NoteText :=
  {s : Str // ¬ ['*', '/'] <:+: s ∧ ¬ lockPrefWord <:+: '/' :: '*' :: s ++ ['*', '/']}

inductive Literal
  | bool (b : Bool)
  | int (negative : Bool) (digits : Digits)
  | str (s : Quoted)

def Literal.render : Literal → Str
  | .bool true => "true".toList
  | .bool false => "false".toList
  | .int true digits => '-' :: digits.1
  | .int false digits => digits.1
  | .str s => '"' :: s.1 ++ ['"']

structure Statement where
  indent : Gap
  afterParen : Gap
  name : Name
  afterName : Gap
  beforeValue : Gap
  literal : Literal
  afterValue : Gap
  beforeSemi : Gap
  afterSemi : Gap
  comment : Option CommentText

def renderComment : Option CommentText → Str
  | none => []
  | some text => '/' :: '/' :: text.1

/-- The statement from the end of its value. -/
def Statement.tail (s : Statement) : Str :=
  s.afterValue.1 ++ ')' :: (s.beforeSemi.1 ++ ';' :: (s.afterSemi.1 ++ renderComment s.comment))

/-- The statement from its value. -/
def Statement.fromValue (s : Statement) : Str := s.literal.render ++ s.tail

def Statement.render (s : Statement) : Str :=
  s.indent.1 ++ (['l', 'o', 'c', 'k', 'P', 'r', 'e', 'f', '('] ++ (s.afterParen.1 ++
    '"' :: (s.name.1 ++ '"' :: (s.afterName.1 ++ ',' :: (s.beforeValue.1 ++ s.fromValue)))))

inductive Item
  | blank (gap : Gap)
  | comment (indent : Gap) (text : CommentText)
  | note (indent : Gap) (text : NoteText) (after : Gap)
  | lockPref (s : Statement)

def Item.render : Item → Str
  | .blank gap => gap.1
  | .comment indent text => indent.1 ++ '/' :: '/' :: text.1
  | .note indent text after => indent.1 ++ ('/' :: '*' :: text.1 ++ ['*', '/']) ++ after.1
  | .lockPref s => s.render

def Item.statement : Item → List Statement
  | .lockPref s => [s]
  | _ => []

inductive FirstLine
  | free (line : Str) (oneLine : '\n' ∉ line) (quiet : ¬ lockPrefWord <:+: line)
  | comment (indent : Gap) (text : CommentText)
  | lockPref (s : Statement)

def FirstLine.render : FirstLine → Str
  | .free line _ _ => line
  | .comment indent text => (Item.comment indent text).render
  | .lockPref s => s.render

def FirstLine.statement : FirstLine → List Statement
  | .lockPref s => [s]
  | _ => []

structure CfgFile where
  first : FirstLine
  items : List Item

/-- The items, each on a new line. -/
def below (items : List Item) : Str := items.flatMap fun it => '\n' :: it.render

def CfgFile.render (cfg : CfgFile) : Str := cfg.first.render ++ below cfg.items

/-- The statements below the first line. -/
def CfgFile.executed (cfg : CfgFile) : List Statement := cfg.items.flatMap Item.statement

/-- The statements of all lines. -/
def CfgFile.written (cfg : CfgFile) : List Statement := cfg.first.statement ++ cfg.executed

/-! ## What the literals mean -/

/-- The string starts like the end of a statement with a comment: `\s*\)\s*;\s*//`. -/
def statementEnd : Pat Char Unit := do
  closing
  lit ['/', '/']

def endsStatement (s : Str) : Bool := (statementEnd.first s).isSome

/-- The value in JavaScript. -/
def Literal.value : Literal → PrefValue
  | .bool b => .bool b
  | .int true digits => .int (-(jsDigits digits.1 : Int))
  | .int false digits => .int (jsDigits digits.1)
  | .str s => .str s.1

/-- The value that the compiler takes: it cuts a string that reads like the end of the statement. -/
def Literal.compiled : Literal → PrefValue
  | .str s => .str (if endsStatement s.1 then [] else s.1)
  | l => l.value

/-- The entry that the compiler makes of it. -/
def Literal.entry (name : Str) : Literal → Entry
  | .bool b => ⟨.bool, name, (Literal.bool b).render⟩
  | .int negative digits => ⟨.int, name, (Literal.int negative digits).render⟩
  | .str s => ⟨.str, name, '"' :: (if endsStatement s.1 then [] else s.1) ++ ['"']⟩

/-- C++ has no decimal literal with a leading zero. -/
def Literal.Cxx : Literal → Prop
  | .int _ digits => digits.1.head? = some '0' → digits.1.all isOctal = true
  | _ => True

/-- The range that the compiler checks, reading the digits as decimal. -/
def Literal.InRange : Literal → Prop
  | .int negative digits =>
    -2 ^ 31 ≤ pyInt (Literal.int negative digits).render ∧
      pyInt (Literal.int negative digits).render ≤ 2 ^ 31 - 1
  | _ => True

def Statement.entry (s : Statement) : Entry := s.literal.entry s.name.1

/-! ## Characters -/

theorem Gap.space {g : Gap} {c : Char} (h : c ∈ g.1) : isSpace c = true := by
  have hc := g.2 c h
  simp only [isGap, Bool.and_eq_true] at hc
  exact hc.1.1.1

theorem Gap.jsGap {g : Gap} {c : Char} (h : c ∈ g.1) : isJsGap c = true := by
  have hc := g.2 c h
  simp only [isGap, Bool.and_eq_true] at hc
  exact hc.1.1.2

theorem Gap.oneLine (g : Gap) : '\n' ∉ g.1 := by
  intro h
  have hc := g.2 _ h
  revert hc
  decide

theorem oneLine_of_plain {s : Str} (h : ∀ c ∈ s, isPlain c = true) : '\n' ∉ s := by
  intro hmem
  have hc := h _ hmem
  revert hc
  decide

theorem CommentText.oneLine (text : CommentText) : '\n' ∉ text.1 := by
  intro h
  have hc := text.2 _ h
  revert hc
  decide

theorem oneLine_of_digits {s : Str} (h : ∀ c ∈ s, c.isDigit = true) : '\n' ∉ s := by
  intro hmem
  have hc := h _ hmem
  revert hc
  decide

theorem Literal.oneLine (l : Literal) : '\n' ∉ l.render := by
  cases l with
  | bool b =>
    cases b with
    | true => decide
    | false => decide
  | int negative digits =>
    have hd := oneLine_of_digits digits.2.2
    cases negative with
    | true => exact fun h => hd ((List.mem_cons.1 h).resolve_left (by decide))
    | false => exact hd
  | str s =>
    intro h
    rcases List.mem_append.1 h with h | h
    · rcases List.mem_cons.1 h with h | h
      · cases h
      · exact oneLine_of_plain s.2 h
    · cases List.mem_singleton.1 h

theorem renderComment_oneLine (c : Option CommentText) : '\n' ∉ renderComment c := by
  cases c with
  | none => exact List.not_mem_nil
  | some text =>
    have ht := CommentText.oneLine text
    intro h
    rcases List.mem_cons.1 h with h | h
    · cases h
    · rcases List.mem_cons.1 h with h | h
      · cases h
      · exact ht h

theorem Statement.tail_oneLine (s : Statement) : '\n' ∉ s.tail := by
  have h1 := s.afterValue.oneLine
  have h2 := s.beforeSemi.oneLine
  have h3 := s.afterSemi.oneLine
  have h4 := renderComment_oneLine s.comment
  unfold Statement.tail
  simp only [List.mem_append, List.mem_cons, not_or]
  exact ⟨h1, by decide, h2, by decide, h3, h4⟩

theorem Statement.oneLine (s : Statement) : '\n' ∉ s.render := by
  have h1 := s.indent.oneLine
  have h2 := s.afterParen.oneLine
  have h3 := oneLine_of_plain s.name.2.2
  have h4 := s.afterName.oneLine
  have h5 := s.beforeValue.oneLine
  have h6 := s.literal.oneLine
  have h7 := s.tail_oneLine
  unfold Statement.render Statement.fromValue
  simp only [List.mem_append, List.mem_cons, not_or]
  exact ⟨h1, by decide, h2, by decide, h3, by decide, h4, by decide, h5, h6, h7⟩

end DenBrowser.Lockdown
