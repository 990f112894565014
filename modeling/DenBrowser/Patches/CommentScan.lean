import DenBrowser.Lib.Lines
import DenBrowser.Lockdown.LockPref
import DenBrowser.Patches.PatchFile
import Mathlib.Data.List.TakeWhile

/-!
# Comments and strings of a source line

`scripts/patch-stats.py` sorts the lines of a file into code, comments and blanks.  It knows, by
the name of the file, how comments and strings are written, and carries from line to line the
block comment or the string it is in.

* `Scan.run` — the loop over the characters of a line;
* `classifyLine_space` — white space at the end of a line changes nothing.
-/

set_option autoImplicit false

namespace DenBrowser.PatchStats

open Lockdown

/-- A comment or string delimiter, which white space does not end. -/
structure Token where
  text : Str
  solid : text.getLast?.map isSpace = some false
  deriving DecidableEq

structure CommentSyntax where
  name : Str
  lineTokens : List Token := []
  blockStart : Option Token := none
  blockEnd : Option Token := none
  quotes : List Char := ['"', '\'']
  nestedBlocks : Bool := false
  codePrefixes : List Str := []
  deriving DecidableEq

def C_LIKE : CommentSyntax where
  name := "C-like".toList
  lineTokens := [⟨"//".toList, by decide⟩]
  blockStart := some ⟨"/*".toList, by decide⟩
  blockEnd := some ⟨"*/".toList, by decide⟩

def RUST : CommentSyntax where
  name := "Rust".toList
  lineTokens := [⟨"//".toList, by decide⟩]
  blockStart := some ⟨"/*".toList, by decide⟩
  blockEnd := some ⟨"*/".toList, by decide⟩
  nestedBlocks := true

def CSS : CommentSyntax where
  name := "CSS".toList
  blockStart := some ⟨"/*".toList, by decide⟩
  blockEnd := some ⟨"*/".toList, by decide⟩

def MARKUP : CommentSyntax where
  name := "markup".toList
  blockStart := some ⟨"<!--".toList, by decide⟩
  blockEnd := some ⟨"-->".toList, by decide⟩

def HASH : CommentSyntax where
  name := "hash".toList
  lineTokens := [⟨['#'], by decide⟩]
  quotes := ['"', '\'', Char.ofNat 96]

def INI : CommentSyntax where
  name := "INI".toList
  lineTokens := [⟨['#'], by decide⟩, ⟨[';'], by decide⟩]

def PROPERTIES : CommentSyntax where
  name := "properties".toList
  lineTokens := [⟨['#'], by decide⟩, ⟨['!'], by decide⟩]

def NSIS : CommentSyntax where
  name := "NSIS".toList
  lineTokens := [⟨['#'], by decide⟩, ⟨[';'], by decide⟩]
  blockStart := some ⟨"/*".toList, by decide⟩
  blockEnd := some ⟨"*/".toList, by decide⟩

def PLAIN : CommentSyntax where
  name := "plain".toList

def JAR_MN : CommentSyntax where
  name := "jar.mn".toList
  lineTokens := [⟨['#'], by decide⟩]
  codePrefixes := ["#filter".toList, "#include".toList, "#if".toList, "#ifdef".toList,
    "#ifndef".toList, "#else".toList, "#elif".toList, "#endif".toList, "#define".toList,
    "#undef".toList, "#expand".toList, "#literal".toList]

/-! ## Strings -/

/-- What the code uses of the Unicode tables of Python. -/
structure Unicode where
  /-- `str.lower`. -/
  lower : Str → Str
  /-- `str.isalnum` of one character. -/
  isalnum : Char → Bool

/-- How many characters `skip_quoted` passes after the opening quote; `escaped` is whether the
last one was a backslash. -/
def skipQuoted (quote : Char) : Bool → Str → Nat
  | _, [] => 0
  | true, _ :: cs => 1 + skipQuoted quote false cs
  | false, c :: cs =>
    if c = '\\' then 1 + skipQuoted quote true cs
    else if c = quote then 1
    else 1 + skipQuoted quote false cs

/-- Where the token is next; `before` is the line up to here, backwards. -/
def findStringEnd (token : Token) (backslashEscapes : Bool) : Str → Str → Option Nat
  | _, [] => none
  | before, c :: cs =>
    if token.text.isPrefixOf (c :: cs) = true ∧
        (backslashEscapes = false ∨ (before.takeWhile fun b => b == '\\').length % 2 = 0) then
      some 0
    else (findStringEnd token backslashEscapes (c :: before) cs).map fun n => n + 1

/-- A string that has begun: the length of its opening, its closing token, and whether a
backslash escapes that. -/
structure StringStart where
  length : Nat
  token : Token
  backslashEscapes : Bool

/-- A run of a class, which has at most `most` characters, and the character after it. -/
def runThen (p : Char → Bool) (most : Nat) (close : Char) (s : Str) : Option Str :=
  let run := s.takeWhile p
  if run.length ≤ most ∧ (s.drop run.length).head? = some close then some run else none

/-- The first of the openings that the text begins with. -/
def opening (openings : List Token) (s : Str) : Option Token :=
  openings.find? fun t => t.text.isPrefixOf s

/-- `"` and `n` hashes. -/
def hashesToken (n : Nat) : Token where
  text := '"' :: List.replicate n '#'
  solid := by
    cases n with
    | zero => decide
    | succ n =>
      rw [List.replicate_succ', ← List.cons_append, List.getLast?_concat]
      decide

/-- `)`, the delimiter and `"`. -/
def delimiterToken (delimiter : Str) : Token where
  text := ')' :: (delimiter ++ ['"'])
  solid := by
    rw [← List.cons_append, List.getLast?_concat]
    decide

/-- `CXX_RAW_STRING_RE`: `(?:u8|u|U|L)?R"([^ ()\\\t\r\n]{0,16})\(`. -/
def cxxRawString (s : Str) : Option StringStart :=
  match opening [⟨"u8R\"".toList, by decide⟩, ⟨"uR\"".toList, by decide⟩,
      ⟨"UR\"".toList, by decide⟩, ⟨"LR\"".toList, by decide⟩, ⟨"R\"".toList, by decide⟩] s with
  | none => none
  | some t =>
    (runThen (fun c => !(" ()\\\t\r\n".toList.contains c)) 16 '(' (s.drop t.text.length)).map
      fun delimiter =>
        ⟨t.text.length + delimiter.length + 1, delimiterToken delimiter, false⟩

/-- `RUST_RAW_STRING_RE`: `(?:br|r)(#{0,255})"`. -/
def rustRawString (s : Str) : Option StringStart :=
  match opening [⟨"br".toList, by decide⟩, ⟨"r".toList, by decide⟩] s with
  | none => none
  | some t =>
    (runThen (fun c => c == '#') 255 '"' (s.drop t.text.length)).map fun hashes =>
      ⟨t.text.length + hashes.length + 1, hashesToken hashes.length, false⟩

/-- A string that opens and closes with the same token. -/
def quotedBy (token : Token) (s : Str) : Option StringStart :=
  if token.text.isPrefixOf s then some ⟨token.text.length, token, true⟩ else none

def atTokenBoundary (u : Unicode) (before : Str) : Bool :=
  match before with
  | [] => true
  | b :: _ => !(u.isalnum b || b == '_')

/-- `multiline_string_start`: the first of the forms of the language that begins here. -/
def multilineStringStart (u : Unicode) (syn : CommentSyntax) (before s : Str) :
    Option StringStart :=
  (if syn = C_LIKE ∧ atTokenBoundary u before = true then cxxRawString s else none).or <|
  (if syn = RUST ∧ atTokenBoundary u before = true then rustRawString s else none).or <|
  (if syn = HASH then
    (quotedBy ⟨['"', '"', '"'], by decide⟩ s).or (quotedBy ⟨['\'', '\'', '\''], by decide⟩ s)
    else none).or <|
  if syn = C_LIKE ∨ syn = HASH then quotedBy ⟨[Char.ofNat 96], by decide⟩ s else none

/-! ## The loop over a line -/

/-- What the classifier carries from line to line. -/
inductive Mode
  | plain
  /-- A block comment, inside of `depth` others. -/
  | block (depth : Nat)
  | string (token : Token) (backslashEscapes : Bool)
  deriving DecidableEq

structure Scan where
  mode : Mode
  sawCode : Bool
  sawComment : Bool
  deriving DecidableEq

/-- One turn of the loop: `break`, or a number of characters passed. -/
inductive Turn
  | stop (s : Scan)
  | pass (n : Nat) (s : Scan)

/-- In a string whose content goes on at `s`, after `length` characters of this turn. -/
def Scan.inString (sc : Scan) (length : Nat) (token : Token) (backslashEscapes : Bool)
    (before s : Str) : Turn :=
  match findStringEnd token backslashEscapes before s with
  | none =>
    .pass (length + s.length) { sc with mode := .string token backslashEscapes, sawCode := true }
  | some n => .pass (length + n + token.text.length) { sc with mode := .plain, sawCode := true }

/-- One turn of the loop at the character `c`. -/
def Scan.turn (u : Unicode) (syn : CommentSyntax) (sc : Scan) (before : Str) (c : Char)
    (cs : Str) : Turn :=
  match sc.mode with
  | .string token backslashEscapes => sc.inString 0 token backslashEscapes before (c :: cs)
  | .block depth =>
    match syn.nestedBlocks, syn.blockStart.filter fun t => t.text.isPrefixOf (c :: cs) with
    | true, some start =>
      .pass start.text.length { sc with mode := .block (depth + 1), sawComment := true }
    | _, _ =>
      match syn.blockEnd.filter fun t => t.text.isPrefixOf (c :: cs) with
      | some stop =>
        .pass stop.text.length
          { sc with
            mode := match depth with
              | 0 => .plain
              | depth + 1 => .block depth
            sawComment := true }
      | none => .pass 1 { sc with sawComment := true }
  | .plain =>
    if isSpace c then .pass 1 sc
    else if syn.lineTokens.any fun t => t.text.isPrefixOf (c :: cs) then
      .stop { sc with sawComment := true }
    else
      match syn.blockStart.filter fun t => t.text.isPrefixOf (c :: cs) with
      | some start =>
        .pass start.text.length { sc with mode := .block 0, sawComment := true }
      | none =>
        match multilineStringStart u syn before (c :: cs) with
        | some st =>
          sc.inString st.length st.token st.backslashEscapes
            (((c :: cs).take st.length).reverse ++ before) ((c :: cs).drop st.length)
        | none =>
          if syn.quotes.contains c then
            .pass (1 + skipQuoted c false cs) { sc with sawCode := true }
          else .pass 1 { sc with sawCode := true }

/-- The loop; `skip` characters have been passed already. -/
def Scan.run (u : Unicode) (syn : CommentSyntax) : Scan → Nat → Str → Str → Scan
  | sc, _, _, [] => sc
  | sc, skip + 1, before, c :: cs => sc.run u syn skip (c :: before) cs
  | sc, 0, before, c :: cs =>
    match sc.turn u syn before c cs with
    | .stop sc => sc
    | .pass n sc => sc.run u syn (n - 1) (c :: before) cs

/-! ## The category of a line -/

inductive Category
  | code
  | comment
  | blank
  deriving DecidableEq, Repr

def Scan.category (sc : Scan) : Category :=
  if sc.sawCode then .code else if sc.sawComment then .comment else .blank

def hasCodePrefix (stripped : Str) (syn : CommentSyntax) : Bool :=
  syn.codePrefixes.any fun p => stripped == p || (p ++ [' ']).isPrefixOf stripped

def Mode.inBlock : Mode → Bool
  | .block _ => true
  | _ => false

/-- A line: its category, and the mode after it. -/
def classifyLine (u : Unicode) (syn : CommentSyntax) (first : Bool) (mode : Mode) (line : Str) :
    Category × Mode :=
  let stripped := strip line
  if stripped = [] then (.blank, mode)
  else if !mode.inBlock && first && "#!".toList.isPrefixOf stripped then (.code, mode)
  else if !mode.inBlock && hasCodePrefix stripped syn then (.code, mode)
  else
    let sc := Scan.run u syn ⟨mode, false, false⟩ 0 [] line
    (sc.category, sc.mode)

def classifyLines (u : Unicode) (syn : CommentSyntax) : Bool → Mode → List Str → List Category
  | _, _, [] => []
  | first, mode, line :: lines =>
    (classifyLine u syn first mode line).1 ::
      classifyLines u syn false (classifyLine u syn first mode line).2 lines

theorem length_classifyLines (u : Unicode) (syn : CommentSyntax) (lines : List Str) :
    ∀ (first : Bool) (mode : Mode), (classifyLines u syn first mode lines).length = lines.length := by
  induction lines with
  | nil =>
    intro first mode
    rfl
  | cons line lines ih =>
    intro first mode
    show (classifyLines u syn false _ lines).length + 1 = lines.length + 1
    rw [ih]

/-! ## The length of an opening -/

theorem length_opening {openings : List Token} {s : Str} {t : Token}
    (h : opening openings s = some t) : t.text.length ≤ s.length := by
  unfold opening at h
  have hprefix : t.text <+: s := List.isPrefixOf_iff_prefix.1 (by simpa using List.find?_some h)
  exact hprefix.length_le

theorem length_runThen {p : Char → Bool} {most : Nat} {close : Char} {s run : Str}
    (h : runThen p most close s = some run) : run.length + 1 ≤ s.length := by
  unfold runThen at h
  dsimp only at h
  split at h
  · rename_i hend
    cases h
    have hlt : (s.takeWhile p).length < s.length := by
      by_contra hge
      rw [List.drop_eq_nil_of_le (Nat.le_of_not_lt hge)] at hend
      cases hend.2
    omega
  · cases h

theorem length_quotedBy {t : Token} {s : Str} {st : StringStart} (h : quotedBy t s = some st) :
    st.length ≤ s.length := by
  unfold quotedBy at h
  split at h
  · rename_i hprefix
    cases h
    exact (List.isPrefixOf_iff_prefix.1 hprefix).length_le
  · cases h

theorem length_cxxRawString {s : Str} {st : StringStart} (h : cxxRawString s = some st) :
    st.length ≤ s.length := by
  unfold cxxRawString at h
  split at h
  · cases h
  · rename_i t ht
    obtain ⟨run, hrun, rfl⟩ := Option.map_eq_some_iff.1 h
    have h1 := length_opening ht
    have h2 := length_runThen hrun
    rw [List.length_drop] at h2
    show t.text.length + run.length + 1 ≤ s.length
    omega

theorem length_rustRawString {s : Str} {st : StringStart} (h : rustRawString s = some st) :
    st.length ≤ s.length := by
  unfold rustRawString at h
  split at h
  · cases h
  · rename_i t ht
    obtain ⟨run, hrun, rfl⟩ := Option.map_eq_some_iff.1 h
    have h1 := length_opening ht
    have h2 := length_runThen hrun
    rw [List.length_drop] at h2
    show t.text.length + run.length + 1 ≤ s.length
    omega

theorem length_multilineStringStart {u : Unicode} {syn : CommentSyntax} {before s : Str}
    {st : StringStart} (h : multilineStringStart u syn before s = some st) :
    st.length ≤ s.length := by
  unfold multilineStringStart at h
  simp only [Option.or_eq_some_iff, Option.ite_none_right_eq_some] at h
  rcases h with ⟨_, h⟩ | ⟨_, ⟨_, h⟩ | ⟨_, ⟨_, h | ⟨_, h⟩⟩ | ⟨_, _, h⟩⟩⟩
  · exact length_cxxRawString h
  · exact length_rustRawString h
  · exact length_quotedBy h
  · exact length_quotedBy h
  · exact length_quotedBy h

/-! ## White space at the end of a line -/

section Space

variable {sp : Char} (hsp : isSpace sp = true)
include hsp

theorem Token.ne_of_mem (t : Token) {s : Str} : t.text ≠ s ++ [sp] := by
  intro h
  have hsolid := t.solid
  rw [h, List.getLast?_concat, Option.map_some, hsp] at hsolid
  cases hsolid

theorem Token.isPrefixOf_space (t : Token) (s : Str) :
    t.text.isPrefixOf (s ++ [sp]) = t.text.isPrefixOf s := by
  rw [Bool.eq_iff_iff, List.isPrefixOf_iff_prefix, List.isPrefixOf_iff_prefix]
  constructor
  · intro h
    rcases List.prefix_concat_iff.1 h with h | h
    · exact absurd h (t.ne_of_mem hsp)
    · exact h
  · intro h
    exact h.trans (List.prefix_append s [sp])

theorem findStringEnd_space (t : Token) (esc : Bool) (s : Str) : ∀ before : Str,
    findStringEnd t esc before (s ++ [sp]) = findStringEnd t esc before s := by
  induction s with
  | nil =>
    intro before
    have hno : t.text.isPrefixOf [sp] = false := by
      rw [show [sp] = [] ++ [sp] from rfl, t.isPrefixOf_space hsp]
      have hsolid := t.solid
      cases htext : t.text with
      | nil =>
        rw [htext] at hsolid
        cases hsolid
      | cons c cs => rfl
    simp [findStringEnd, hno]
  | cons c s ih =>
    intro before
    rw [List.cons_append, findStringEnd, findStringEnd, ih, ← List.cons_append,
      t.isPrefixOf_space hsp]

/-- A quoted part that is closed ends where it did; one that is open takes the space too. -/
theorem skipQuoted_space {quote : Char} (hquote : quote ≠ sp) (s : Str) : ∀ escaped : Bool,
    skipQuoted quote escaped (s ++ [sp]) = skipQuoted quote escaped s ∨
    skipQuoted quote escaped s = s.length ∧
      skipQuoted quote escaped (s ++ [sp]) = s.length + 1 := by
  have hslash : sp ≠ '\\' := by
    rintro rfl
    exact absurd hsp (by decide)
  induction s with
  | nil =>
    intro escaped
    cases escaped with
    | true => simp [skipQuoted]
    | false => simp [skipQuoted, hslash, hquote.symm]
  | cons c s ih =>
    intro escaped
    cases escaped with
    | true =>
      have := ih false
      simp only [List.cons_append, skipQuoted, List.length_cons]
      omega
    | false =>
      have h1 := ih true
      have h2 := ih false
      simp only [List.cons_append, skipQuoted, List.length_cons]
      split
      · omega
      · split
        · exact Or.inl rfl
        · omega

omit hsp in
theorem runThen_space {close : Char} (hclose : close ≠ sp) (p : Char → Bool) (most : Nat)
    (s : Str) : runThen p most close (s ++ [sp]) = runThen p most close s := by
  by_cases hall : ∀ c ∈ s, p c = true
  · have hs : s.takeWhile p = s := List.takeWhile_eq_self_iff.2 hall
    by_cases hpsp : p sp = true
    · have hs' : (s ++ [sp]).takeWhile p = s ++ [sp] := by
        rw [List.takeWhile_eq_self_iff]
        intro c hc
        rcases List.mem_append.1 hc with hc | hc
        · exact hall c hc
        · rw [List.mem_singleton.1 hc]
          exact hpsp
      simp [runThen, hs, hs']
    · have hs' : (s ++ [sp]).takeWhile p = s := by
        rw [List.takeWhile_append_of_pos hall]
        simp [hpsp]
      simp [runThen, hs, hs', hclose.symm]
  · push Not at hall
    obtain ⟨c, hc, hpc⟩ := hall
    have hlt : (s.takeWhile p).length < s.length := by
      have hprefix := List.takeWhile_prefix (l := s) p
      rcases Nat.lt_or_eq_of_le hprefix.length_le with h | h
      · exact h
      · have heq := hprefix.eq_of_length h
        exact absurd (List.takeWhile_eq_self_iff.1 heq c hc) hpc
    have hs' : (s ++ [sp]).takeWhile p = s.takeWhile p := by
      rw [List.takeWhile_append, if_neg (by omega)]
    have hhead : ((s ++ [sp]).drop (s.takeWhile p).length).head? =
        (s.drop (s.takeWhile p).length).head? := by
      rw [List.head?_drop, List.head?_drop, List.getElem?_append_left hlt]
    unfold runThen
    rw [hs']
    dsimp only
    rw [hhead]

theorem opening_space (openings : List Token) (s : Str) :
    opening openings (s ++ [sp]) = opening openings s := by
  unfold opening
  congr 1
  funext t
  exact t.isPrefixOf_space hsp s

omit hsp in
theorem drop_opening {openings : List Token} {s : Str} {t : Token}
    (h : opening openings s = some t) (sp : Char) :
    (s ++ [sp]).drop t.text.length = s.drop t.text.length ++ [sp] :=
  List.drop_append_of_le_length (length_opening h)

theorem cxxRawString_space (s : Str) : cxxRawString (s ++ [sp]) = cxxRawString s := by
  have hne : '(' ≠ sp := by
    rintro rfl
    exact absurd hsp (by decide)
  unfold cxxRawString
  rw [opening_space hsp]
  split
  · rfl
  · rename_i t h
    rw [drop_opening h, runThen_space hne]

theorem rustRawString_space (s : Str) : rustRawString (s ++ [sp]) = rustRawString s := by
  have hne : '"' ≠ sp := by
    rintro rfl
    exact absurd hsp (by decide)
  unfold rustRawString
  rw [opening_space hsp]
  split
  · rfl
  · rename_i t h
    rw [drop_opening h, runThen_space hne]

theorem quotedBy_space (t : Token) (s : Str) : quotedBy t (s ++ [sp]) = quotedBy t s := by
  unfold quotedBy
  rw [t.isPrefixOf_space hsp]

theorem multilineStringStart_space (u : Unicode) (syn : CommentSyntax) (before s : Str) :
    multilineStringStart u syn before (s ++ [sp]) = multilineStringStart u syn before s := by
  unfold multilineStringStart
  rw [cxxRawString_space hsp, rustRawString_space hsp, quotedBy_space hsp, quotedBy_space hsp,
    quotedBy_space hsp]

/-! ### The loop -/

omit hsp in
/-- The same turn on a line of `len` characters and on that line with one character more: what it
passes ends at the same place, or at the end of both. -/
def Turn.Agrees (len : Nat) : Turn → Turn → Prop
  | .stop sc', .stop sc => sc' = sc
  | .pass n' sc', .pass n sc => sc' = sc ∧ (n' = n ∨ len ≤ n ∧ n' = len + 1)
  | _, _ => False

theorem inString_space (sc : Scan) (length : Nat) (t : Token) (esc : Bool) (before s : Str) :
    Turn.Agrees (length + s.length) (sc.inString length t esc before (s ++ [sp]))
      (sc.inString length t esc before s) := by
  unfold Scan.inString
  rw [findStringEnd_space hsp]
  cases findStringEnd t esc before s with
  | none =>
    refine ⟨rfl, Or.inr ⟨Nat.le_refl _, ?_⟩⟩
    rw [List.length_append]
    rfl
  | some n => exact ⟨rfl, Or.inl rfl⟩

theorem filter_space (t : Option Token) (s : Str) :
    (t.filter fun t => t.text.isPrefixOf (s ++ [sp])) = t.filter fun t => t.text.isPrefixOf s := by
  congr 1
  funext t
  exact t.isPrefixOf_space hsp s

theorem turn_space (u : Unicode) (syn : CommentSyntax) (sc : Scan) (before : Str) (c : Char)
    (cs : Str) :
    Turn.Agrees (cs.length + 1) (sc.turn u syn before c (cs ++ [sp]))
      (sc.turn u syn before c cs) := by
  unfold Scan.turn
  rw [← List.cons_append]
  split
  · rename_i t esc _
    have h := inString_space hsp sc 0 t esc before (c :: cs)
    rw [Nat.zero_add] at h
    exact h
  · rw [filter_space hsp, filter_space hsp]
    split
    · exact ⟨rfl, Or.inl rfl⟩
    · split
      · exact ⟨rfl, Or.inl rfl⟩
      · exact ⟨rfl, Or.inl rfl⟩
  · split
    · exact ⟨rfl, Or.inl rfl⟩
    · rename_i hc
      have hline : (syn.lineTokens.any fun t => t.text.isPrefixOf (c :: cs ++ [sp])) =
          syn.lineTokens.any fun t => t.text.isPrefixOf (c :: cs) := by
        congr 1
        funext t
        exact t.isPrefixOf_space hsp _
      rw [hline, filter_space hsp, multilineStringStart_space hsp]
      split
      · exact rfl
      · split
        · exact ⟨rfl, Or.inl rfl⟩
        · split
          · rename_i st hst
            have hle := length_multilineStringStart hst
            have h := inString_space hsp sc st.length st.token st.backslashEscapes
              (((c :: cs).take st.length).reverse ++ before) ((c :: cs).drop st.length)
            rw [List.length_drop, Nat.add_sub_cancel' hle] at h
            rw [List.take_append_of_le_length hle, List.drop_append_of_le_length hle]
            exact h
          · split
            · have hne : c ≠ sp := by
                rintro rfl
                exact hc hsp
              refine ⟨rfl, ?_⟩
              rcases skipQuoted_space hsp hne cs false with h | ⟨h1, h2⟩
              · exact Or.inl (by rw [h])
              · exact Or.inr ⟨by omega, by omega⟩
            · exact ⟨rfl, Or.inl rfl⟩

omit hsp in
/-- In a comment or a string, the loop has seen one. -/
def Scan.Settled (sc : Scan) : Prop :=
  match sc.mode with
  | .plain => True
  | .block _ => sc.sawComment = true
  | .string _ _ => sc.sawCode = true

omit hsp in
def Turn.Settled : Turn → Prop
  | .stop sc => sc.Settled
  | .pass _ sc => sc.Settled

omit hsp in
theorem inString_settled (sc : Scan) (length : Nat) (t : Token) (esc : Bool) (before s : Str) :
    (sc.inString length t esc before s).Settled := by
  unfold Scan.inString
  split
  · exact rfl
  · exact trivial

omit hsp in
theorem turn_settled (u : Unicode) (syn : CommentSyntax) (sc : Scan) (before : Str) (c : Char)
    (cs : Str) : (sc.turn u syn before c cs).Settled := by
  unfold Scan.turn
  split
  · exact inString_settled sc 0 _ _ before (c :: cs)
  · rename_i depth hmode
    split
    · exact rfl
    · split
      · cases depth with
        | zero => exact trivial
        | succ depth => exact rfl
      · unfold Turn.Settled Scan.Settled
        rw [hmode]
  · rename_i hmode
    have hplain : ∀ code comment : Bool, Scan.Settled ⟨sc.mode, code, comment⟩ := by
      intro code comment
      unfold Scan.Settled
      rw [hmode]
      trivial
    split
    · exact hplain _ _
    · split
      · exact hplain _ _
      · split
        · exact rfl
        · split
          · exact inString_settled sc _ _ _ _ _
          · split
            · exact hplain _ _
            · exact hplain _ _

theorem turn_only {sc : Scan} (h : sc.Settled) (u : Unicode) (syn : CommentSyntax) (before : Str) :
    sc.turn u syn before sp [] = .pass 1 sc := by
  have hno : ∀ t : Token, t.text.isPrefixOf [sp] = false := by
    intro t
    have hnil := t.isPrefixOf_space hsp []
    rw [List.nil_append] at hnil
    rw [hnil]
    have hsolid := t.solid
    cases htext : t.text with
    | nil =>
      rw [htext] at hsolid
      cases hsolid
    | cons c cs => rfl
  have hfilter : ∀ t : Option Token, (t.filter fun t => t.text.isPrefixOf [sp]) = none := by
    intro t
    cases t with
    | none => rfl
    | some t => simp [hno]
  obtain ⟨mode, code, comment⟩ := sc
  cases mode with
  | plain => simp [Scan.turn, hsp]
  | block depth =>
    have hcomment : comment = true := h
    simp [Scan.turn, hfilter, hcomment]
  | string t esc =>
    have hcode : code = true := h
    have hend : findStringEnd t esc before [sp] = none := findStringEnd_space hsp t esc [] before
    simp [Scan.turn, Scan.inString, hend, hcode]

omit hsp in
theorem run_past (u : Unicode) (syn : CommentSyntax) (sc : Scan) (s : Str) :
    ∀ (skip : Nat) (before : Str), s.length ≤ skip → sc.run u syn skip before s = sc := by
  induction s with
  | nil =>
    intro skip before _
    rfl
  | cons c s ih =>
    intro skip before h
    cases skip with
    | zero => cases h
    | succ skip => exact ih skip (c :: before) (by simpa using h)

/-- **The loop** ends in the same state with and without the space. -/
theorem run_space (u : Unicode) (syn : CommentSyntax) (s : Str) :
    ∀ (sc : Scan) (skip : Nat) (before : Str), sc.Settled ∨ s ≠ [] ∧ skip = 0 →
      sc.run u syn skip before (s ++ [sp]) = sc.run u syn skip before s := by
  induction s with
  | nil =>
    intro sc skip before h
    have hsettled : sc.Settled := h.resolve_right fun h => h.1 rfl
    cases skip with
    | succ skip => rfl
    | zero =>
      show Scan.run u syn sc 0 before [sp] = sc
      rw [Scan.run, turn_only hsp hsettled]
      rfl
  | cons c s ih =>
    intro sc skip before h
    cases skip with
    | succ skip => exact ih sc skip (c :: before) (Or.inl (h.resolve_right fun h => by omega))
    | zero =>
      have hturn := turn_space hsp u syn sc before c s
      have hsettled := turn_settled u syn sc before c s
      rw [List.cons_append, Scan.run, Scan.run]
      revert hturn hsettled
      generalize sc.turn u syn before c (s ++ [sp]) = turn'
      generalize sc.turn u syn before c s = turn
      intro hturn hsettled
      cases turn with
      | stop sc =>
        cases turn' with
        | stop sc' => exact hturn
        | pass n' sc' => exact hturn.elim
      | pass n sc =>
        cases turn' with
        | stop sc' => exact hturn.elim
        | pass n' sc' =>
          obtain ⟨rfl, rfl | ⟨hn, rfl⟩⟩ := hturn
          · exact ih sc' _ _ (Or.inl hsettled)
          · show sc'.run u syn (s.length + 1) (c :: before) (s ++ [sp]) =
              sc'.run u syn (n - 1) (c :: before) s
            rw [run_past, run_past]
            · omega
            · rw [List.length_append, List.length_singleton]

/-! ### The line -/

theorem strip_space (s : Str) : strip (s ++ [sp]) = strip s := by
  unfold strip rstrip
  rw [List.dropWhile_append]
  split
  · rename_i h
    have hnil : s.dropWhile isSpace = [] := by simpa using h
    simp [hnil, hsp]
  · simp [hsp]

theorem classifyLine_space (u : Unicode) (syn : CommentSyntax) (first : Bool) (mode : Mode)
    (line : Str) :
    classifyLine u syn first mode (line ++ [sp]) = classifyLine u syn first mode line := by
  unfold classifyLine
  rw [strip_space hsp]
  dsimp only
  split
  · rfl
  · rename_i hne
    have hline : line ≠ [] := by
      rintro rfl
      exact hne rfl
    rw [run_space hsp u syn line _ 0 [] (Or.inr ⟨hline, rfl⟩)]

omit hsp in
/-- Lines that are the same but for white space at the end. -/
theorem classifyLines_space {brk : Char → Bool} (hbrk : ∀ c, brk c = true → isSpace c = true)
    (u : Unicode) (syn : CommentSyntax) {lines lines' : List Str}
    (h : List.Forall₂ (Lines.Same brk) lines lines') :
    ∀ (first : Bool) (mode : Mode),
      classifyLines u syn first mode lines' = classifyLines u syn first mode lines := by
  induction h with
  | nil =>
    intro first mode
    rfl
  | @cons l l' lines lines' hsame _ ih =>
    intro first mode
    have hline : classifyLine u syn first mode l' = classifyLine u syn first mode l := by
      rcases hsame with rfl | ⟨c, hc, rfl⟩
      · rfl
      · exact classifyLine_space (hbrk c hc) u syn first mode l
    rw [classifyLines, classifyLines, hline, ih]

end Space

end DenBrowser.PatchStats
