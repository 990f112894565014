import DenBrowser.Lib.Backtrack
import DenBrowser.Text
import Mathlib.Algebra.Group.Int.Defs

/-!
# The lockPref compiler

`scripts/gen-017-patch.sh` reads `config/mozilla.cfg` line by line with a regular expression and
writes, for each `lockPref` statement it finds, a pair of libpref calls into the source of the
browser.  A text is a list of characters, opened by Python with universal newlines.

* `parseCfg` — the parser, with every refusal of it;
* `lineEntry_quiet` — a line without the word `lockPref` is passed over;
* `entriesFrom_append` — the entries of a file are read line by line.
-/

set_option autoImplicit false

namespace DenBrowser.Lockdown

open Backtrack

/-! ## Python -/

/-- `str.isspace`, which is also `\s` of `re`. -/
def isSpace (c : Char) : Bool := isWhitespace c || (28 ≤ c.toNat && c.toNat ≤ 31)

/-- `str.rstrip`. -/
def rstrip (s : Str) : Str := (s.reverse.dropWhile isSpace).reverse

/-- `str.strip`. -/
def strip (s : Str) : Str := rstrip (s.dropWhile isSpace)

/-- Reading in text mode: every line ends in `\n`. -/
def universalNewlines : Str → Str
  | [] => []
  | c :: s =>
    if c = '\r' then
      match s with
      | [] => ['\n']
      | d :: t => if d = '\n' then '\n' :: universalNewlines t
          else '\n' :: universalNewlines (d :: t)
    else c :: universalNewlines s

theorem universalNewlines_cons {c : Char} (h : c ≠ '\r') (s : Str) :
    universalNewlines (c :: s) = c :: universalNewlines s := by
  rw [universalNewlines.eq_def]
  exact if_neg h

/-- `readlines`: each line with its newline; the last one may have none. -/
def readlines : Str → List Str
  | [] => []
  | c :: s =>
    if c = '\n' then [c] :: readlines s
    else
      match readlines s with
      | [] => [[c]]
      | l :: ls => (c :: l) :: ls

/-- The zeros of the runs of decimal digits (category Nd). -/
def zeros : List Nat :=
  [0x30, 0x660, 0x6f0, 0x7c0, 0x966, 0x9e6, 0xa66, 0xae6, 0xb66, 0xbe6, 0xc66, 0xce6, 0xd66, 0xde6,
    0xe50, 0xed0, 0xf20, 0x1040, 0x1090, 0x17e0, 0x1810, 0x1946, 0x19d0, 0x1a80, 0x1a90, 0x1b50,
    0x1bb0, 0x1c40, 0x1c50, 0xa620, 0xa8d0, 0xa900, 0xa9d0, 0xa9f0, 0xaa50, 0xabf0, 0xff10,
    0x104a0, 0x10d30, 0x11066, 0x110f0, 0x11136, 0x111d0, 0x112f0, 0x11450, 0x114d0, 0x11650,
    0x116c0, 0x11730, 0x118e0, 0x11950, 0x11c50, 0x11d50, 0x11da0, 0x16a60, 0x16ac0, 0x16b50,
    0x1d7ce, 0x1d7d8, 0x1d7e2, 0x1d7ec, 0x1d7f6, 0x1e140, 0x1e2f0, 0x1e950, 0x1fbf0]

/-- The value of a decimal digit, which `\d` matches. -/
def decimal (c : Char) : Option Nat :=
  (zeros.find? fun z => z ≤ c.toNat && c.toNat < z + 10).map fun z => c.toNat - z

/-- `re.fullmatch(r'-?\d+', value)`. -/
def isInteger : Str → Bool
  | '-' :: digits => digits ≠ [] && digits.all fun c => (decimal c).isSome
  | digits => digits ≠ [] && digits.all fun c => (decimal c).isSome

/-- The digits as a number. -/
def magnitude (digits : Str) : Nat := digits.foldl (fun n c => 10 * n + (decimal c).getD 0) 0

/-- `int(value)`, on a text that `isInteger` accepts. -/
def pyInt : Str → Int
  | '-' :: digits => -(magnitude digits : Int)
  | digits => magnitude digits

/-! ## The regular expression -/

/-- `\s*\)\s*;\s*` -/
def closing : Pat Char Unit := do
  let _ ← many isSpace
  lit [')']
  let _ ← many isSpace
  lit [';']
  let _ ← many isSpace
  pure ()

/-- `\s*\)\s*;\s*(?://.*)?$` -/
def lineTail : Pat Char Unit := do
  closing
  let _ ← opt (do
    lit ['/', '/']
    many fun c => c ≠ '\n')
  atEnd '\n'

/-- `(.+?)` and the rest of the line, after `\s*`. -/
def valueTail (name : Str) : Pat Char (Str × Str) := do
  let value ← many1Lazy fun c => c ≠ '\n'
  lineTail
  pure (name, value)

/-- The groups of `^\s*lockPref\(\s*"([^"]+)"\s*,\s*(.+?)\s*\)\s*;\s*(?://.*)?$`. -/
def LOCKPREF_RE : Pat Char (Str × Str) := do
  let _ ← many isSpace
  lit ['l', 'o', 'c', 'k', 'P', 'r', 'e', 'f', '(']
  let _ ← many isSpace
  lit ['"']
  let name ← many1 fun c => c ≠ '"'
  lit ['"']
  let _ ← many isSpace
  lit [',']
  let _ ← many isSpace
  valueTail name

/-! ## Parsing `mozilla.cfg` -/

inductive Kind
  | bool
  | int
  | str
  deriving DecidableEq, Repr

/-- `(kind, name, c_literal)` -/
structure Entry where
  kind : Kind
  name : Str
  lit : Str
  deriving DecidableEq, Repr

/-- Why the script gives up. -/
inductive Refusal
  | unparseable (lineno : Nat) (raw : Str)
  | intRange (lineno : Nat) (n : Int)
  | escape (lineno : Nat)
  | valueForm (lineno : Nat) (value : Str)
  | noEntries
  deriving DecidableEq, Repr

/-- What the script writes to `stderr`. -/
def Refusal.message (cfg_path : Str) : Refusal → Str
  | .unparseable lineno raw =>
    "ERROR: ".toList ++ cfg_path ++ [':'] ++ showInt lineno ++
      ": unparseable lockPref line:\n".toList ++ "       ".toList ++ raw ++ ['\n']
  | .intRange lineno n =>
    "ERROR: ".toList ++ cfg_path ++ [':'] ++ showInt lineno ++
      ": int out of int32_t range: ".toList ++ showInt n ++ ['\n']
  | .escape lineno =>
    "ERROR: ".toList ++ cfg_path ++ [':'] ++ showInt lineno ++
      ": string contains quote or backslash; extend gen-017 to handle escapes.\n".toList
  | .valueForm lineno value =>
    "ERROR: ".toList ++ cfg_path ++ [':'] ++ showInt lineno ++
      ": unrecognised value form: ".toList ++ value ++ ['\n']
  | .noEntries => "ERROR: no lockPref entries parsed from mozilla.cfg.\n".toList

/-- The three literal forms; `value` is already stripped. -/
def valueEntry (lineno : Nat) (name value : Str) : Except Refusal Entry :=
  if value = "true".toList ∨ value = "false".toList then .ok ⟨.bool, name, value⟩
  else if isInteger value then
    if -2 ^ 31 ≤ pyInt value ∧ pyInt value ≤ 2 ^ 31 - 1 then .ok ⟨.int, name, value⟩
    else .error (.intRange lineno (pyInt value))
  else if value.head? = some '"' ∧ value.getLast? = some '"' then
    -- `value[1:-1]` of a lone quote is empty
    let inner := (value.drop 1).dropLast
    if '"' ∈ inner ∨ '\\' ∈ inner then .error (.escape lineno)
    else .ok ⟨.str, name, '"' :: inner ++ ['"']⟩
  else .error (.valueForm lineno value)

/-- `'lockPref'`, which an unparsed line may not contain. -/
def lockPrefWord : Str := ['l', 'o', 'c', 'k', 'P', 'r', 'e', 'f']

/-- The body of the loop over the lines. -/
def lineEntry (lineno : Nat) (raw : Str) : Except Refusal (Option Entry) :=
  if strip raw = [] ∨ ['/', '/'] <+: strip raw then .ok none
  else
    match LOCKPREF_RE.first raw with
    | none => if lockPrefWord <:+: raw then .error (.unparseable lineno (rstrip raw)) else .ok none
    | some (name, value) => (valueEntry lineno name (strip value)).map some

/-- `for lineno, raw in enumerate(cfg_lines, 1)`. -/
def entriesFrom : Nat → List Str → Except Refusal (List Entry)
  | _, [] => .ok []
  | lineno, raw :: rest => do
    let entry ← lineEntry lineno raw
    let entries ← entriesFrom (lineno + 1) rest
    .ok (entry.toList ++ entries)

/-- The entries of a configuration file, or why there are none. -/
def parseCfg (text : Str) : Except Refusal (List Entry) := do
  let entries ← entriesFrom 1 (readlines (universalNewlines text))
  if entries = [] then .error .noEntries else .ok entries

/-! ## The calls it writes -/

/-- A call in the generated function: the name as it stands between the quotes, the literal as it
stands in the source. -/
inductive Call
  | setBool (name lit : Str)
  | setInt (name lit : Str)
  | setCString (name lit : Str)
  | lock (name : Str)
  deriving DecidableEq, Repr

def emit (e : Entry) : List Call :=
  match e.kind with
  | .bool => [.setBool e.name e.lit, .lock e.name]
  | .int => [.setInt e.name e.lit, .lock e.name]
  | .str => [.setCString e.name e.lit, .lock e.name]

/-- `body`: the calls of `SetupDenBrowserLockdown`. -/
def lockdownBody (entries : List Entry) : List Call := entries.flatMap emit

/-! ## Lines -/

theorem readlines_cons_newline (s : Str) : readlines ('\n' :: s) = ['\n'] :: readlines s := rfl

theorem readlines_cons {c : Char} (h : c ≠ '\n') {s l : Str} {ls : List Str}
    (hs : readlines s = l :: ls) : readlines (c :: s) = (c :: l) :: ls := by
  unfold readlines
  rw [if_neg h, hs]

theorem readlines_append_newline {l : Str} (hl : '\n' ∉ l) (s : Str) :
    readlines (l ++ '\n' :: s) = (l ++ ['\n']) :: readlines s := by
  induction l with
  | nil => rfl
  | cons c l ih =>
    obtain ⟨hc, htail⟩ := List.ne_and_not_mem_of_not_mem_cons hl
    exact readlines_cons (Ne.symm hc) (ih htail)

theorem readlines_last {l : Str} (hl : '\n' ∉ l) : readlines l = [l] ∨ l = [] := by
  induction l with
  | nil => exact Or.inr rfl
  | cons c l ih =>
    obtain ⟨hc, htail⟩ := List.ne_and_not_mem_of_not_mem_cons hl
    left
    rcases ih htail with h | rfl
    · exact readlines_cons (Ne.symm hc) h
    · unfold readlines
      rw [if_neg (Ne.symm hc)]
      rfl

theorem infix_of_mem_readlines {s raw : Str} (h : raw ∈ readlines s) : raw <:+: s := by
  have hjoin : ∀ s : Str, (readlines s).flatten = s := by
    intro s
    induction s with
    | nil => rfl
    | cons c s ih =>
      unfold readlines
      split
      · rw [List.flatten_cons, ih]
        rfl
      · split
        · rename_i hnil
          rw [hnil] at ih
          rw [← ih]
          rfl
        · rename_i l ls hls
          rw [hls] at ih
          rw [← ih]
          rfl
  obtain ⟨before, after, hsplit⟩ := List.append_of_mem h
  refine ⟨before.flatten, after.flatten, ?_⟩
  rw [← hjoin s, hsplit, List.flatten_append, List.flatten_cons, List.append_assoc]

/-- What the pattern matches contains the word. -/
theorem lockPref_infix_of_match {raw : Str} {m : (Str × Str) × Str} (h : m ∈ LOCKPREF_RE raw) :
    lockPrefWord <:+: raw := by
  unfold LOCKPREF_RE at h
  obtain ⟨gap, afterGap, hgap, h⟩ := mem_bind.1 h
  obtain ⟨_, rest, hlit, _⟩ := mem_bind.1 h
  have hraw := (mem_many.1 hgap).1
  have hword := mem_lit.1 hlit
  refine ⟨gap, '(' :: rest, ?_⟩
  rw [hraw, hword, List.append_assoc]
  rfl

/-- **A line without the word is passed over**, whatever it says. -/
theorem lineEntry_quiet {raw : Str} (h : ¬ lockPrefWord <:+: raw) (lineno : Nat) :
    lineEntry lineno raw = .ok none := by
  unfold lineEntry
  split
  · rfl
  · have hnone : LOCKPREF_RE.first raw = none := by
      unfold Pat.first
      cases hm : LOCKPREF_RE raw with
      | nil => rfl
      | cons m ms =>
        have hmem : m ∈ LOCKPREF_RE raw := by
          rw [hm]
          exact List.mem_cons_self
        exact absurd (lockPref_infix_of_match hmem) h
    rw [hnone]

theorem entriesFrom_cons (lineno : Nat) (raw : Str) (rest : List Str) :
    entriesFrom lineno (raw :: rest) = (do
      let entry ← lineEntry lineno raw
      let entries ← entriesFrom (lineno + 1) rest
      .ok (entry.toList ++ entries)) := rfl

/-- The entries of one part of the lines, then those of the next. -/
theorem entriesFrom_append (ls ms : List Str) (lineno : Nat) :
    entriesFrom lineno (ls ++ ms) = (do
      let before ← entriesFrom lineno ls
      let after ← entriesFrom (lineno + ls.length) ms
      .ok (before ++ after)) := by
  induction ls generalizing lineno with
  | nil =>
    rw [List.nil_append, List.length_nil, Nat.add_zero]
    cases entriesFrom lineno ms <;> rfl
  | cons raw ls ih =>
    rw [List.cons_append, entriesFrom_cons, entriesFrom_cons, ih, List.length_cons,
      show lineno + (ls.length + 1) = lineno + 1 + ls.length by omega]
    cases lineEntry lineno raw with
    | error e => rfl
    | ok entry =>
      cases entriesFrom (lineno + 1) ls with
      | error e => rfl
      | ok before =>
        cases entriesFrom (lineno + 1 + ls.length) ms with
        | error e => rfl
        | ok after => exact congrArg Except.ok (List.append_assoc _ _ _).symm

/-- Lines without the word leave no entry. -/
theorem entriesFrom_quiet {ls : List Str} (h : ∀ raw ∈ ls, ¬ lockPrefWord <:+: raw)
    (lineno : Nat) : entriesFrom lineno ls = .ok [] := by
  induction ls generalizing lineno with
  | nil => rfl
  | cons raw ls ih =>
    obtain ⟨hraw, htail⟩ := List.forall_mem_cons.1 h
    rw [entriesFrom_cons, lineEntry_quiet hraw, ih htail]
    rfl

end DenBrowser.Lockdown
