import DenBrowser.Lockdown.LockPref
import Mathlib.Logic.Function.Basic

/-!
# The two readers of the lockdown

Production runs the calls that the lockPref compiler wrote, through libpref; a development build
gives the same file to AutoConfig, which skips the first line and runs the rest as JavaScript.

* `Prefs` — what libpref keeps of a preference: its default value and whether it is locked;
* `lockdown` — the generated function, as C++ reads its literals;
* `script` — ECMAScript (sloppy mode), on the statements a configuration file is made of;
  `none` for a text outside this part of the language;
* `locked_runSettings`, `locked_runLockPrefs` — the first setting of a name counts in production,
  the last one under AutoConfig.
-/

set_option autoImplicit false

namespace DenBrowser.Lockdown

/-! ## libpref -/

inductive PrefValue
  | bool (b : Bool)
  | int (n : Int)
  | str (s : Str)
  deriving DecidableEq, Repr

structure Pref where
  value : PrefValue
  locked : Bool
  deriving DecidableEq, Repr

abbrev Prefs := Str → Option Pref

/-- `Preferences::SetBool`, `SetInt`, `SetCString` with `PrefValueKind::Default`. -/
def setDefault (name : Str) (v : PrefValue) (p : Prefs) : Prefs :=
  match p name with
  | some ⟨_, true⟩ => p
  | _ => Function.update p name (some ⟨v, false⟩)

/-- `Preferences::Lock`, which fails where there is no such preference. -/
def lock (name : Str) (p : Prefs) : Prefs :=
  match p name with
  | none => p
  | some pref => Function.update p name (some { pref with locked := true })

/-- The locked preferences, with their types and values. -/
def locked (p : Prefs) (name : Str) : Option PrefValue :=
  (p name).bind fun pref => if pref.locked then some pref.value else none

/-! ## The generated function -/

/-- The value of digits in base `b`. -/
def digitsValue (b : Nat) (digits : Str) : Nat :=
  digits.foldl (fun n c => b * n + (c.toNat - '0'.toNat)) 0

def isOctal (c : Char) : Bool := '0' ≤ c && c ≤ '7'

/-- A C++ integer literal; a leading zero makes it octal. -/
def cxxNat (digits : Str) : Option Nat :=
  if digits = [] ∨ ¬ digits.all Char.isDigit then none
  else if digits.head? = some '0' then
    if digits.all isOctal then some (digitsValue 8 digits) else none
  else some (digitsValue 10 digits)

def cxxInt : Str → Option Int
  | '-' :: digits => (cxxNat digits).map fun n => -(n : Int)
  | digits => (cxxNat digits).map fun n => (n : Int)

def cxxBool (lit : Str) : Option Bool :=
  if lit = "true".toList then some true else if lit = "false".toList then some false else none

/-- What stands between the quotes of a string literal; escapes are outside the model. -/
def cxxChars (s : Str) : Option Str :=
  if '"' ∈ s ∨ '\\' ∈ s ∨ '\n' ∈ s then none else some s

def cxxString (lit : Str) : Option Str :=
  if lit.head? = some '"' ∧ lit.getLast? = some '"' ∧ 2 ≤ lit.length then
    cxxChars (lit.drop 1).dropLast
  else none

/-- One call of the function; `none` where it does not compile. -/
def runCall : Call → Option (Prefs → Prefs)
  | .setBool name lit => do
    let name ← cxxChars name
    let b ← cxxBool lit
    some (setDefault name (.bool b))
  | .setInt name lit => do
    let name ← cxxChars name
    let n ← cxxInt lit
    some (setDefault name (.int n))
  | .setCString name lit => do
    let name ← cxxChars name
    let s ← cxxString lit
    some (setDefault name (.str s))
  | .lock name => do
    let name ← cxxChars name
    some (lock name)

/-- `SetupDenBrowserLockdown`: the calls in turn. -/
def lockdown : List Call → Prefs → Option Prefs
  | [], p => some p
  | c :: cs, p => do
    let f ← runCall c
    lockdown cs (f p)

/-! ## JavaScript -/

/-- `WhiteSpace`. -/
def isJsWhiteSpace (c : Char) : Bool :=
  (0x2000 ≤ c.toNat && c.toNat ≤ 0x200a) ||
    [0x9, 0xb, 0xc, 0x20, 0xa0, 0x1680, 0x202f, 0x205f, 0x3000, 0xfeff].contains c.toNat

/-- `LineTerminator`. -/
def isLineTerminator (c : Char) : Bool :=
  [0xa, 0xd, 0x2028, 0x2029].contains c.toNat

/-- Between tokens. -/
def isJsGap (c : Char) : Bool := isJsWhiteSpace c || isLineTerminator c

inductive Token
  | open
  | close
  | comma
  | semi
  | lbrace
  | rbrace
  | minus
  | word (w : Str)
  | str (s : Str)
  deriving DecidableEq, Repr

def punctuator (c : Char) : Option Token :=
  [('(', Token.open), (')', .close), (',', .comma), (';', .semi), ('\x7b', .lbrace),
    ('\x7d', .rbrace), ('-', .minus)].lookup c

/-- The characters of a name or a number. -/
def isWordChar (c : Char) : Bool := c.isAlphanum || c == '_' || c == '$' || c == '.'

/-- Where the scanner stands: in code, after the characters of an unfinished word; in a comment of
either kind; in a string, after some of its characters. -/
inductive Mode
  | code (word : Str)
  | lineComment
  | blockComment
  | str (chars : Str)

/-- The end of a word. -/
def flush : Str → List Token
  | [] => []
  | word => [.word word]

def scan : Mode → Str → Option (List Token)
  | .code w, [] => some (flush w)
  | .code w, c :: t =>
    if isJsGap c then (scan (.code []) t).map (flush w ++ ·)
    else if isWordChar c then scan (.code (w ++ [c])) t
    else if c = '"' then (scan (.str []) t).map (flush w ++ ·)
    else if c = '/' then
      match t with
      | [] => none
      | d :: u =>
        if d = '/' then (scan .lineComment u).map (flush w ++ ·)
        else if d = '*' then (scan .blockComment u).map (flush w ++ ·)
        else none
    else
      match punctuator c with
      | none => none
      | some tok => (scan (.code []) t).map fun ts => flush w ++ tok :: ts
  | .lineComment, [] => some []
  | .lineComment, c :: t => if isLineTerminator c then scan (.code []) t else scan .lineComment t
  | .blockComment, [] => none
  | .blockComment, c :: t =>
    if c = '*' then
      match t with
      | [] => none
      | d :: u => if d = '/' then scan (.code []) u else scan .blockComment (d :: u)
    else scan .blockComment t
  | .str _, [] => none
  | .str cs, c :: t =>
    if c = '"' then (scan (.code []) t).map (.str cs :: ·)
    else if c = '\\' ∨ c = '\n' ∨ c = '\r' then none
    else scan (.str (cs ++ [c])) t

theorem scan_code_cons (w : Str) (c : Char) (t : Str) :
    scan (.code w) (c :: t) =
      if isJsGap c then (scan (.code []) t).map (flush w ++ ·)
      else if isWordChar c then scan (.code (w ++ [c])) t
      else if c = '"' then (scan (.str []) t).map (flush w ++ ·)
      else if c = '/' then
        match t with
        | [] => none
        | d :: u =>
          if d = '/' then (scan .lineComment u).map (flush w ++ ·)
          else if d = '*' then (scan .blockComment u).map (flush w ++ ·)
          else none
      else
        match punctuator c with
        | none => none
        | some tok => (scan (.code []) t).map fun ts => flush w ++ tok :: ts := by
  rw [scan.eq_def]
  rfl

theorem scan_blockComment_cons (c : Char) (t : Str) :
    scan .blockComment (c :: t) =
      if c = '*' then
        match t with
        | [] => none
        | d :: u => if d = '/' then scan (.code []) u else scan .blockComment (d :: u)
      else scan .blockComment t := by
  rw [scan.eq_def]
  rfl

theorem scan_lineComment_cons (c : Char) (t : Str) :
    scan .lineComment (c :: t) =
      if isLineTerminator c then scan (.code []) t else scan .lineComment t := by
  rw [scan.eq_def]

theorem scan_str_cons (cs : Str) (c : Char) (t : Str) :
    scan (.str cs) (c :: t) =
      if c = '"' then (scan (.code []) t).map (.str cs :: ·)
      else if c = '\\' ∨ c = '\n' ∨ c = '\r' then none
      else scan (.str (cs ++ [c])) t := by
  rw [scan.eq_def]

/-- A `lockPref` call that the script makes. -/
abbrev LockCall := Str × PrefValue

inductive Stmt
  | empty
  | lock (call : LockCall)
  | seq (s t : Stmt)
  | cond (b : Bool) (s : Stmt)

/-- A numeric literal: a leading zero makes it octal, unless an 8 or a 9 follows. -/
def jsDigits (digits : Str) : Nat :=
  if digits.head? = some '0' ∧ digits.all isOctal then digitsValue 8 digits
  else digitsValue 10 digits

def jsNat (digits : Str) : Option Nat :=
  if digits = [] ∨ ¬ digits.all Char.isDigit then none else some (jsDigits digits)

/-- A number as `setIntPref` takes it, without wrapping. -/
def int32 (n : Int) : Option PrefValue :=
  if -2 ^ 31 ≤ n ∧ n ≤ 2 ^ 31 - 1 then some (.int n) else none

def boolWord (w : Str) : Option Bool :=
  if w = "true".toList then some true else if w = "false".toList then some false else none

/-- A word as a literal. -/
def wordValue (w : Str) : Option PrefValue :=
  match boolWord w with
  | some b => some (.bool b)
  | none => (jsNat w).bind fun n => int32 n

def literal : List Token → Option (PrefValue × List Token)
  | .str s :: rest => some (.str s, rest)
  | .word w :: rest => (wordValue w).map fun v => (v, rest)
  | .minus :: .word w :: rest => ((jsNat w).bind fun n => int32 (-(n : Int))).map fun v => (v, rest)
  | _ => none

/-- What follows `lockPref`. -/
def lockPrefCall : List Token → Option (Stmt × List Token)
  | .open :: .str name :: .comma :: rest =>
    match literal rest with
    | some (v, .close :: .semi :: rest) => some (.lock (name, v), rest)
    | _ => none
  | _ => none

mutual

def statement : Nat → List Token → Option (Stmt × List Token)
  | 0, _ => none
  | fuel + 1, .word w :: rest =>
    if w = lockPrefWord then lockPrefCall rest
    else if w = "if".toList then
      match rest with
      | .open :: .word b :: .close :: rest => do
        let b ← boolWord b
        let (s, rest) ← statement fuel rest
        some (.cond b s, rest)
      | _ => none
    else none
  | _ + 1, .semi :: rest => some (.empty, rest)
  | fuel + 1, .lbrace :: rest =>
    match statements fuel rest with
    | some (s, .rbrace :: rest) => some (s, rest)
    | _ => none
  | _ + 1, _ => none

def statements : Nat → List Token → Option (Stmt × List Token)
  | 0, _ => none
  | _ + 1, [] => some (.empty, [])
  | _ + 1, .rbrace :: rest => some (.empty, .rbrace :: rest)
  | fuel + 1, ts => do
    let (s, rest) ← statement fuel ts
    let (t, rest) ← statements fuel rest
    some (.seq s t, rest)

end

/-- The calls a statement makes, in order. -/
def Stmt.calls : Stmt → List LockCall
  | .empty => []
  | .lock call => [call]
  | .seq s t => s.calls ++ t.calls
  | .cond b s => if b then s.calls else []

/-- The calls of a program that is all tokens `ts`. -/
def program (ts : List Token) : Option (List LockCall) :=
  match statements (2 * ts.length + 2) ts with
  | some (s, []) => some s.calls
  | _ => none

/-- Running a script. -/
def script (text : Str) : Option (List LockCall) := (scan (.code []) text).bind program

/-! ## AutoConfig -/

/-- The first line is not run. -/
def skipFirstLine : Str → Str
  | [] => []
  | c :: s =>
    if c = '\n' then s
    else if c = '\r' then
      match s with
      | [] => []
      | d :: t => if d = '\n' then t else d :: t
    else skipFirstLine s

/-- `lockPref` of AutoConfig: the name is unlocked, set and locked again. -/
def lockPref (p : Prefs) (call : LockCall) : Prefs :=
  Function.update p call.1 (some ⟨call.2, true⟩)

/-- AutoConfig, with the JavaScript engine `js`; `none` where the script fails. -/
def autoConfig (js : Str → Option (List LockCall)) (text : Str) (p : Prefs) : Option Prefs :=
  (js (skipFirstLine text)).map fun calls => calls.foldl lockPref p

/-- The engine runs a script of this part of the language as the language says. -/
def FollowsEcmaScript (js : Str → Option (List LockCall)) : Prop :=
  ∀ text calls, script text = some calls → js text = some calls

/-! ## First and last -/

theorem locked_update (p : Prefs) (name : Str) (pref : Pref) (n : Str) :
    locked (Function.update p name (some pref)) n =
      if n = name then (if pref.locked then some pref.value else none) else locked p n := by
  unfold locked
  by_cases h : n = name
  · rw [if_pos h, h, Function.update_self]
    rfl
  · rw [if_neg h, Function.update_of_ne h]

/-- Setting a default and locking it. -/
def settle (p : Prefs) (call : LockCall) : Prefs := lock call.1 (setDefault call.1 call.2 p)

theorem lock_fresh (p : Prefs) (name : Str) (v : PrefValue) :
    lock name (Function.update p name (some ⟨v, false⟩)) =
      Function.update p name (some ⟨v, true⟩) := by
  unfold lock
  rw [Function.update_self]
  exact Function.update_idem _ _ _

/-- Unlocked until then, the name gets the value. -/
theorem settle_of_unlocked {p : Prefs} {name : Str} (v : PrefValue) (h : locked p name = none) :
    settle p (name, v) = Function.update p name (some ⟨v, true⟩) := by
  unfold settle setDefault
  cases hp : p name with
  | none => exact lock_fresh p name v
  | some pref =>
    obtain ⟨w, b⟩ := pref
    cases b with
    | true =>
      unfold locked at h
      rw [hp] at h
      cases h
    | false => exact lock_fresh p name v

/-- Already locked, it keeps the one it has. -/
theorem settle_of_locked {p : Prefs} {name : Str} {w : PrefValue} (v : PrefValue)
    (h : locked p name = some w) : settle p (name, v) = p := by
  unfold locked at h
  obtain ⟨⟨w', b⟩, hp, hb⟩ := Option.bind_eq_some_iff.1 h
  cases b with
  | false => cases hb
  | true =>
    unfold settle setDefault
    rw [hp]
    show lock name p = p
    unfold lock
    rw [hp]
    show Function.update p name _ = p
    rw [← hp, Function.update_eq_self]

theorem locked_settle (p : Prefs) (call : LockCall) (n : Str) :
    locked (settle p call) n =
      (locked p n).or (if n = call.1 then some call.2 else none) := by
  obtain ⟨name, v⟩ := call
  by_cases hn : n = name
  · rw [if_pos hn, hn]
    cases hl : locked p name with
    | none =>
      rw [settle_of_unlocked v hl, locked_update, if_pos rfl]
      rfl
    | some w =>
      rw [settle_of_locked v hl, hl]
      rfl
  · rw [if_neg hn, Option.or_none]
    cases hl : locked p name with
    | none => rw [settle_of_unlocked v hl, locked_update, if_neg hn]
    | some w => rw [settle_of_locked v hl]

theorem lookup_cons (call : LockCall) (calls : List LockCall) (n : Str) :
    (call :: calls).lookup n = (if n = call.1 then some call.2 else none).or (calls.lookup n) := by
  obtain ⟨name, v⟩ := call
  rw [List.lookup_cons]
  by_cases hn : n = name
  · rw [if_pos hn, beq_iff_eq.2 hn]
    rfl
  · rw [if_neg hn, beq_eq_false_iff_ne.2 hn]
    rfl

/-- **In production the first setting of a name counts.** -/
theorem locked_runSettings (calls : List LockCall) (p : Prefs) (n : Str) :
    locked (calls.foldl settle p) n = (locked p n).or (calls.lookup n) := by
  induction calls generalizing p with
  | nil => exact (Option.or_none).symm
  | cons call calls ih =>
    rw [List.foldl_cons, ih, locked_settle, lookup_cons, Option.or_assoc]

/-- **Under AutoConfig the last one does.** -/
theorem locked_runLockPrefs (calls : List LockCall) (p : Prefs) (n : Str) :
    locked (calls.foldl lockPref p) n = (calls.reverse.lookup n).or (locked p n) := by
  induction calls generalizing p with
  | nil => rfl
  | cons call calls ih =>
    rw [List.foldl_cons, ih, List.reverse_cons, List.lookup_append, lookup_cons]
    unfold lockPref
    rw [locked_update, Option.or_assoc]
    congr 1
    split
    · rfl
    · rfl

end DenBrowser.Lockdown
