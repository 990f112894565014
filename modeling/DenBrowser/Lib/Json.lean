import Mathlib.Data.List.Basic
import Mathlib.Tactic.Common
import Mathlib.Tactic.IntervalCases

/-!
# JSON texts

The values of JSON with integers for numbers, the compact text of a value, and a reader of
texts: a machine that takes one character at a time and keeps the open arrays and objects on a
stack.  The reader knows the whole string syntax, blanks between tokens included; a number with
a fraction or an exponent it does not read.

* `read_text` — the text of a value is read back as that value;
* `text_injective` — a text is of one value only;
* `printable_text` — no text has a control character in it.
-/

set_option autoImplicit false

/-- A JSON value; the members of an object are in order. -/
inductive JsonValue where
  | null
  | bool (b : Bool)
  | int (n : Int)
  | str (s : List Char)
  | arr (items : List JsonValue)
  | obj (members : List (List Char × JsonValue))

namespace JsonValue

/-- The member of an object with a key. -/
def get? : JsonValue → List Char → Option JsonValue
  | .obj members, key => (members.find? fun m => m.1 == key).map Prod.snd
  | _, _ => none

/-! ## The text of a value -/

/-- The lowercase hexadecimal digit of a number below 16. -/
def hexDigit (n : Nat) : Char := Nat.digitChar n

/-- A character inside a string. -/
def escapeChar (c : Char) : List Char :=
  if c = '"' then ['\\', '"']
  else if c = '\\' then ['\\', '\\']
  else if c = '\x08' then ['\\', 'b']
  else if c = '\x0c' then ['\\', 'f']
  else if c = '\n' then ['\\', 'n']
  else if c = '\r' then ['\\', 'r']
  else if c = '\t' then ['\\', 't']
  else if c.toNat < 32 then
    ['\\', 'u', '0', '0', hexDigit (c.toNat / 16), hexDigit (c.toNat % 16)]
  else [c]

/-- A string between quotation marks. -/
def quoted (s : List Char) : List Char := '"' :: (s.flatMap escapeChar ++ ['"'])

def intText : Int → List Char
  | .ofNat n => Nat.toDigits 10 n
  | .negSucc n => '-' :: Nat.toDigits 10 (n + 1)

/-- The comma before every item but the first. -/
def comma (sep : Bool) : List Char := if sep then [','] else []

mutual

/-- The text of a value, without blanks. -/
def text : JsonValue → List Char
  | .null => ['n', 'u', 'l', 'l']
  | .bool true => ['t', 'r', 'u', 'e']
  | .bool false => ['f', 'a', 'l', 's', 'e']
  | .int n => intText n
  | .str s => quoted s
  | .arr items => '[' :: (textItems false items ++ [']'])
  | .obj members => '{' :: (textMembers false members ++ ['}'])

def textItems (sep : Bool) : List JsonValue → List Char
  | [] => []
  | v :: items => comma sep ++ text v ++ textItems true items

def textMembers (sep : Bool) : List (List Char × JsonValue) → List Char
  | [] => []
  | (k, v) :: members => comma sep ++ quoted k ++ ':' :: text v ++ textMembers true members

end

/-! ## The reader -/

/-- An array or an object that is still open; an object also has the key read last. -/
inductive Frame where
  | arr (items : List JsonValue)
  | obj (members : List (List Char × JsonValue)) (key : List Char)

/-- What is read next.  `key` says whether a string is a member's key. -/
inductive Mode where
  | value
  /-- After an opening bracket: an item or the end. -/
  | first
  /-- After an opening brace: a key or the end. -/
  | start
  | key
  | colon
  /-- After an item or a member: a comma or the end. -/
  | next
  | done (v : JsonValue)
  /-- The letters left of `null`, `true` or `false`. -/
  | word (left : List Char) (v : JsonValue)
  | minus
  | zero
  | digits (neg : Bool) (n : Nat)
  | string (key : Bool) (s : List Char)
  | escape (key : Bool) (s : List Char)
  /-- Hexadecimal digits of a `\u` escape, after the high surrogate `high`. -/
  | hex (key : Bool) (s : List Char) (high : Option Nat) (count n : Nat)
  /-- After a high surrogate: the backslash and the `u` of the low one. -/
  | low (key : Bool) (s : List Char) (high : Nat) (left : List Char)

structure State where
  stack : List Frame
  mode : Mode

def isBlank (c : Char) : Bool := c = ' ' || c = '\t' || c = '\n' || c = '\r'

/-- A value is complete. -/
def deliver (v : JsonValue) : List Frame → State
  | [] => ⟨[], .done v⟩
  | .arr items :: σ => ⟨.arr (items ++ [v]) :: σ, .next⟩
  | .obj members key :: σ => ⟨.obj (members ++ [(key, v)]) [] :: σ, .next⟩

/-- A string is complete. -/
def closeString (σ : List Frame) (key : Bool) (s : List Char) : Option State :=
  if key then
    match σ with
    | .obj members _ :: σ => some ⟨.obj members s :: σ, .colon⟩
    | _ => none
  else some (deliver (.str s) σ)

/-- The first character of a value. -/
def beginValue (σ : List Frame) (c : Char) : Option State :=
  if c = '"' then some ⟨σ, .string false []⟩
  else if c = '[' then some ⟨.arr [] :: σ, .first⟩
  else if c = '{' then some ⟨.obj [] [] :: σ, .start⟩
  else if c = 'n' then some ⟨σ, .word ['u', 'l', 'l'] .null⟩
  else if c = 't' then some ⟨σ, .word ['r', 'u', 'e'] (.bool true)⟩
  else if c = 'f' then some ⟨σ, .word ['a', 'l', 's', 'e'] (.bool false)⟩
  else if c = '-' then some ⟨σ, .minus⟩
  else if c = '0' then some ⟨σ, .zero⟩
  else if c.isDigit then some ⟨σ, .digits false (c.toNat - 48)⟩
  else none

/-- The bracket or the brace that ends what is open. -/
def closeFrame : List Frame → Char → Option State
  | .arr items :: σ, c => if c = ']' then some (deliver (.arr items) σ) else none
  | .obj members _ :: σ, c => if c = '}' then some (deliver (.obj members) σ) else none
  | [], _ => none

/-- A comma, or the end of what is open. -/
def continueFrame (σ : List Frame) (c : Char) : Option State :=
  if c = ',' then
    match σ with
    | .arr _ :: _ => some ⟨σ, .value⟩
    | .obj _ _ :: _ => some ⟨σ, .key⟩
    | [] => none
  else closeFrame σ c

/-- The character after a backslash. -/
def unescape (c : Char) : Option Char :=
  if c = '"' then some '"'
  else if c = '\\' then some '\\'
  else if c = '/' then some '/'
  else if c = 'b' then some '\x08'
  else if c = 'f' then some '\x0c'
  else if c = 'n' then some '\n'
  else if c = 'r' then some '\r'
  else if c = 't' then some '\t'
  else none

def hexValue (c : Char) : Option Nat :=
  if c.isDigit then some (c.toNat - 48)
  else if 'a' ≤ c ∧ c ≤ 'f' then some (c.toNat - 87)
  else if 'A' ≤ c ∧ c ≤ 'F' then some (c.toNat - 55)
  else none

/-- Four hexadecimal digits are complete: a character, or half of one. -/
def closeHex (σ : List Frame) (key : Bool) (s : List Char) (high : Option Nat) (n : Nat) :
    Option State :=
  match high with
  | none =>
    if 0xD800 ≤ n ∧ n < 0xDC00 then some ⟨σ, .low key s n ['\\', 'u']⟩
    else if 0xDC00 ≤ n ∧ n < 0xE000 then none
    else some ⟨σ, .string key (s ++ [Char.ofNat n])⟩
  | some h =>
    if 0xDC00 ≤ n ∧ n < 0xE000 then
      some ⟨σ, .string key (s ++ [Char.ofNat (0x10000 + (h - 0xD800) * 0x400 + (n - 0xDC00))])⟩
    else none

/-- A character outside a number. -/
def stepToken (σ : List Frame) (c : Char) : Mode → Option State
  | .value => if isBlank c then some ⟨σ, .value⟩ else beginValue σ c
  | .first =>
    if isBlank c then some ⟨σ, .first⟩ else if c = ']' then closeFrame σ c else beginValue σ c
  | .start =>
    if isBlank c then some ⟨σ, .start⟩
    else if c = '"' then some ⟨σ, .string true []⟩ else closeFrame σ c
  | .key =>
    if isBlank c then some ⟨σ, .key⟩ else if c = '"' then some ⟨σ, .string true []⟩ else none
  | .colon =>
    if isBlank c then some ⟨σ, .colon⟩ else if c = ':' then some ⟨σ, .value⟩ else none
  | .next => if isBlank c then some ⟨σ, .next⟩ else continueFrame σ c
  | .done v => if isBlank c then some ⟨σ, .done v⟩ else none
  | .word [] _ => none
  | .word [d] v => if c = d then some (deliver v σ) else none
  | .word (d :: left) v => if c = d then some ⟨σ, .word left v⟩ else none
  | .string key s =>
    if c = '"' then closeString σ key s
    else if c = '\\' then some ⟨σ, .escape key s⟩
    else if c.toNat < 32 then none
    else some ⟨σ, .string key (s ++ [c])⟩
  | .escape key s =>
    if c = 'u' then some ⟨σ, .hex key s none 0 0⟩
    else (unescape c).map fun d => ⟨σ, .string key (s ++ [d])⟩
  | .hex key s high count n =>
    (hexValue c).bind fun d =>
      if count = 3 then closeHex σ key s high (16 * n + d)
      else some ⟨σ, .hex key s high (count + 1) (16 * n + d)⟩
  | .low _ _ _ [] => none
  | .low key s h [d] => if c = d then some ⟨σ, .hex key s (some h) 0 0⟩ else none
  | .low key s h (d :: left) => if c = d then some ⟨σ, .low key s h left⟩ else none
  | .minus | .zero | .digits _ _ => none

/-- A number ends where the next token begins. -/
def State.settled (s : State) : State :=
  match s.mode with
  | .zero => deliver (.int 0) s.stack
  | .digits neg n => deliver (.int (if neg then -n else n)) s.stack
  | _ => s

/-- One character. -/
def step (s : State) (c : Char) : Option State :=
  match s.mode with
  | .minus =>
    if c = '0' then some ⟨s.stack, .zero⟩
    else if c.isDigit then some ⟨s.stack, .digits true (c.toNat - 48)⟩
    else none
  | .zero => if c.isDigit then none else stepToken s.settled.stack c s.settled.mode
  | .digits neg n =>
    if c.isDigit then some ⟨s.stack, .digits neg (10 * n + (c.toNat - 48))⟩
    else stepToken s.settled.stack c s.settled.mode
  | m => stepToken s.stack c m

def run (s : State) (cs : List Char) : Option State := cs.foldlM step s

def finish (s : State) : Option JsonValue :=
  match s.settled.mode with
  | .done v => some v
  | _ => none

/-- The value a text is of. -/
def read (cs : List Char) : Option JsonValue := (run ⟨[], .value⟩ cs).bind finish

theorem run_nil (s : State) : run s [] = some s := rfl

theorem run_cons (s : State) (c : Char) (cs : List Char) :
    run s (c :: cs) = (step s c).bind fun t => run t cs := by
  simp [run, List.foldlM_cons]

theorem run_append (s : State) (a b : List Char) :
    run s (a ++ b) = (run s a).bind fun t => run t b := by
  simp [run, List.foldlM_append]

theorem run_cons_of_step {s t : State} {c : Char} (h : step s c = some t) (cs : List Char) :
    run s (c :: cs) = run t cs := by
  rw [run_cons, h]
  rfl

theorem run_append_of_run {s t : State} {a : List Char} (h : run s a = some t) (b : List Char) :
    run s (a ++ b) = run t b := by
  rw [run_append, h]
  rfl

/-! ## Strings -/

theorem hexValue_hexDigit : ∀ n < 16, hexValue (hexDigit n) = some n := by decide

section Strings

variable (σ : List Frame) (key : Bool) (s : List Char)

theorem step_backslash : step ⟨σ, .string key s⟩ '\\' = some ⟨σ, .escape key s⟩ := rfl

/-- The two characters of a short escape. -/
theorem run_short {c d : Char} (hu : c ≠ 'u') (h : unescape c = some d) :
    run ⟨σ, .string key s⟩ ['\\', c] = some ⟨σ, .string key (s ++ [d])⟩ := by
  rw [run_cons_of_step (step_backslash σ key s), run_cons]
  show ((if c = 'u' then _
    else (unescape c).map fun d => (⟨σ, .string key (s ++ [d])⟩ : State)).bind
      fun t => run t []) = _
  rw [if_neg hu, h]
  rfl

/-- A hexadecimal digit that is not the last one. -/
theorem step_hex {d count n : Nat} (hd : d < 16) (hcount : count ≠ 3) (high : Option Nat) :
    step ⟨σ, .hex key s high count n⟩ (hexDigit d) =
      some ⟨σ, .hex key s high (count + 1) (16 * n + d)⟩ := by
  show (hexValue (hexDigit d)).bind _ = _
  rw [hexValue_hexDigit d hd, Option.bind_some, if_neg hcount]

theorem step_hex_last {d n : Nat} (hd : d < 16) (high : Option Nat) :
    step ⟨σ, .hex key s high 3 n⟩ (hexDigit d) = closeHex σ key s high (16 * n + d) := by
  show (hexValue (hexDigit d)).bind _ = _
  rw [hexValue_hexDigit d hd, Option.bind_some, if_pos rfl]

/-- The escape of a character below 256. -/
theorem run_unicode {n : Nat} (h : n < 256) :
    run ⟨σ, .string key s⟩ ['\\', 'u', '0', '0', hexDigit (n / 16), hexDigit (n % 16)] =
      some ⟨σ, .string key (s ++ [Char.ofNat n])⟩ := by
  have hzero : '0' = hexDigit 0 := rfl
  have hopen : step ⟨σ, .escape key s⟩ 'u' = some ⟨σ, .hex key s none 0 0⟩ := rfl
  rw [run_cons_of_step (step_backslash σ key s), run_cons_of_step hopen, hzero,
    run_cons_of_step (step_hex σ key s (by decide) (by decide) none),
    run_cons_of_step (step_hex σ key s (by decide) (by decide) none),
    run_cons_of_step (step_hex σ key s (by omega) (by decide) none), run_cons,
    step_hex_last σ key s (by omega)]
  have hval : 16 * (16 * (16 * (16 * 0 + 0) + 0) + n / 16) + n % 16 = n := by omega
  rw [hval]
  show ((if 0xD800 ≤ n ∧ n < 0xDC00 then _ else if 0xDC00 ≤ n ∧ n < 0xE000 then _ else
    some (⟨σ, .string key (s ++ [Char.ofNat n])⟩ : State)).bind fun t => run t []) = _
  rw [if_neg (by omega), if_neg (by omega)]
  rfl

/-- **A character is read back from its escape.** -/
theorem run_escapeChar (c : Char) :
    run ⟨σ, .string key s⟩ (escapeChar c) = some ⟨σ, .string key (s ++ [c])⟩ := by
  unfold escapeChar
  split_ifs with hquote hslash hb hf hn hr ht hcontrol
  · rw [run_short σ key s (by decide) (d := '"') rfl, hquote]
  · rw [run_short σ key s (by decide) (d := '\\') rfl, hslash]
  · rw [run_short σ key s (by decide) (d := '\x08') rfl, hb]
  · rw [run_short σ key s (by decide) (d := '\x0c') rfl, hf]
  · rw [run_short σ key s (by decide) (d := '\n') rfl, hn]
  · rw [run_short σ key s (by decide) (d := '\r') rfl, hr]
  · rw [run_short σ key s (by decide) (d := '\t') rfl, ht]
  · rw [run_unicode σ key s (by omega), Char.ofNat_toNat]
  · rw [run_cons]
    show ((if c = '"' then _ else if c = '\\' then _ else if c.toNat < 32 then none else
      some (⟨σ, .string key (s ++ [c])⟩ : State)).bind fun t => run t []) = _
    rw [if_neg hquote, if_neg hslash, if_neg hcontrol]
    rfl

theorem run_escaped (t : List Char) :
    run ⟨σ, .string key s⟩ (t.flatMap escapeChar) = some ⟨σ, .string key (s ++ t)⟩ := by
  induction t generalizing s with
  | nil => simp [run_nil]
  | cons c t ih =>
    rw [List.flatMap_cons, run_append_of_run (run_escapeChar σ key s c), ih,
      List.append_assoc, List.singleton_append]

/-- A string up to its closing quotation mark. -/
theorem run_escaped_close (t : List Char) :
    run ⟨σ, .string key []⟩ (t.flatMap escapeChar ++ ['"']) = closeString σ key t := by
  rw [run_append_of_run (run_escaped σ key [] t), run_cons, List.nil_append]
  show (closeString σ key t).bind (fun u => run u []) = _
  cases closeString σ key t <;> rfl

end Strings

/-! ## Numbers -/

theorem isDigit_digitChar : ∀ d < 10, (Nat.digitChar d).isDigit = true := by decide

/-- Once a digit other than zero has been read, the digits of a number are read to its value. -/
theorem run_toDigits {σ : List Frame} {neg : Bool} {s : State}
    (hs : ∀ d, 0 < d → d < 10 → step s (Nat.digitChar d) = some ⟨σ, .digits neg d⟩) (n : Nat) :
    0 < n → run s (Nat.toDigits 10 n) = some ⟨σ, .digits neg n⟩ := by
  induction n using Nat.strongRecOn with
  | ind n ih =>
    intro hn
    by_cases hlt : n < 10
    · rw [Nat.toDigits_of_lt_base hlt, run_cons_of_step (hs n hn hlt), run_nil]
    · have hsplit := Nat.toDigits_append_toDigits (b := 10) (n := n / 10) (d := n % 10)
        (by decide) (by omega) (by omega)
      rw [Nat.div_add_mod] at hsplit
      have hd : n % 10 < 10 := by omega
      have hlast : step ⟨σ, .digits neg (n / 10)⟩ (Nat.digitChar (n % 10)) =
          some ⟨σ, .digits neg n⟩ := by
        show (if (Nat.digitChar (n % 10)).isDigit then _ else _) = _
        rw [if_pos (isDigit_digitChar _ hd)]
        have hval : 10 * (n / 10) + ((Nat.digitChar (n % 10)).toNat - 48) = n := by
          rw [Nat.toNat_digitChar_sub_48_of_lt_ten hd]
          omega
        rw [hval]
      rw [← hsplit, run_append_of_run (ih (n / 10) (by omega) (by omega)),
        Nat.toDigits_of_lt_base hd, run_cons_of_step hlast, run_nil]

theorem beginValue_digitChar (σ : List Frame) : ∀ d, 0 < d → d < 10 →
    step ⟨σ, .value⟩ (Nat.digitChar d) = some ⟨σ, .digits false d⟩ := by
  intro d hpos hlt
  interval_cases d <;> rfl

theorem minus_digitChar (σ : List Frame) : ∀ d, 0 < d → d < 10 →
    step ⟨σ, .minus⟩ (Nat.digitChar d) = some ⟨σ, .digits true d⟩ := by
  intro d hpos hlt
  interval_cases d <;> rfl

theorem run_intText (σ : List Frame) (n : Int) :
    ∃ s, run ⟨σ, .value⟩ (intText n) = some s ∧ s.settled = deliver (.int n) σ := by
  cases n with
  | ofNat n =>
    rcases Nat.eq_zero_or_pos n with hzero | hpos
    · subst hzero
      exact ⟨⟨σ, .zero⟩, rfl, rfl⟩
    · exact ⟨_, run_toDigits (beginValue_digitChar σ) n hpos, rfl⟩
  | negSucc n =>
    have hminus : step ⟨σ, .value⟩ '-' = some ⟨σ, .minus⟩ := rfl
    refine ⟨⟨σ, .digits true (n + 1)⟩, ?_, rfl⟩
    exact (run_cons_of_step hminus _).trans
      (run_toDigits (minus_digitChar σ) (n + 1) (Nat.succ_pos n))

/-! ## Where a value ends -/

/-- After a complete value the reader is not inside a number. -/
theorem settled_deliver (v : JsonValue) (σ : List Frame) : (deliver v σ).settled = deliver v σ := by
  match σ with
  | [] => rfl
  | .arr _ :: _ => rfl
  | .obj _ _ :: _ => rfl

theorem step_deliver (v : JsonValue) (σ : List Frame) (c : Char) :
    step (deliver v σ) c = stepToken (deliver v σ).stack c (deliver v σ).mode := by
  match σ with
  | [] => rfl
  | .arr _ :: _ => rfl
  | .obj _ _ :: _ => rfl

/-- **A character that is not a digit is read as after the number.** -/
theorem step_settled {c : Char} (hc : c.isDigit = false) (s : State) :
    step s c = step s.settled c := by
  obtain ⟨σ, m⟩ := s
  cases m with
  | zero =>
    have hend : step ⟨σ, .zero⟩ c =
        stepToken (deliver (.int 0) σ).stack c (deliver (.int 0) σ).mode := by
      show (if c.isDigit then none else _) = _
      rw [if_neg (by simp [hc])]
      rfl
    rw [hend]
    exact (step_deliver _ _ _).symm
  | digits neg n =>
    have hend : step ⟨σ, .digits neg n⟩ c =
        stepToken (deliver (.int (if neg then -n else n)) σ).stack c
          (deliver (.int (if neg then -n else n)) σ).mode := by
      show (if c.isDigit then _ else _) = _
      rw [if_neg (by simp [hc])]
      rfl
    rw [hend]
    exact (step_deliver _ _ _).symm
  | _ => rfl

theorem run_settled {c : Char} (hc : c.isDigit = false) (s : State) (cs : List Char) :
    run s (c :: cs) = run s.settled (c :: cs) := by
  rw [run_cons, run_cons, step_settled hc]

/-! ## The round trip -/

/-- Where an array or an object stands: before the first item, or after one. -/
def between (none : Mode) (some : Bool) : Mode := if some then .next else none

theorem text_head (v : JsonValue) : ∃ c cs, text v = c :: cs ∧ isBlank c = false ∧ c ≠ ']' := by
  have hdigits : ∀ n : Nat, ∃ c cs, Nat.toDigits 10 n = c :: cs ∧ isBlank c = false ∧
      c ≠ ']' := by
    intro n
    cases hd : Nat.toDigits 10 n with
    | nil => exact absurd hd Nat.toDigits_ne_nil
    | cons c cs =>
      have hdigit : c.isDigit = true :=
        Nat.isDigit_of_mem_toDigits (b := 10) (n := n) (by decide) (by decide) (by simp [hd])
      refine ⟨c, cs, rfl, ?_, ?_⟩
      · cases hb : isBlank c with
        | false => rfl
        | true =>
          simp only [isBlank, Bool.or_eq_true, decide_eq_true_eq] at hb
          rcases hb with ((rfl | rfl) | rfl) | rfl <;> cases hdigit
      · rintro rfl
        cases hdigit
  match v with
  | .null => exact ⟨_, _, rfl, by decide, by decide⟩
  | .bool true => exact ⟨_, _, rfl, by decide, by decide⟩
  | .bool false => exact ⟨_, _, rfl, by decide, by decide⟩
  | .int (.ofNat n) => exact hdigits n
  | .int (.negSucc n) => exact ⟨_, _, rfl, by decide, by decide⟩
  | .str s => exact ⟨_, _, rfl, by decide, by decide⟩
  | .arr items => exact ⟨_, _, rfl, by decide, by decide⟩
  | .obj members => exact ⟨_, _, rfl, by decide, by decide⟩

/-- The first item of an array is read as any value. -/
theorem run_first (v : JsonValue) (σ : List Frame) :
    run ⟨σ, .first⟩ (text v) = run ⟨σ, .value⟩ (text v) := by
  obtain ⟨c, cs, htext, hblank, hclose⟩ := text_head v
  have hstep : step ⟨σ, .first⟩ c = step ⟨σ, .value⟩ c := by
    show (if isBlank c then _ else if c = ']' then _ else beginValue σ c) =
      (if isBlank c then _ else beginValue σ c)
    rw [if_neg (by simp [hblank]), if_neg hclose, if_neg (by simp [hblank])]
  rw [htext, run_cons, run_cons, hstep]

/-- The comma before an item, where there is one. -/
theorem run_comma_arr (sep : Bool) (items : List JsonValue) (σ : List Frame) (v : JsonValue) :
    run ⟨.arr items :: σ, between .first sep⟩ (comma sep ++ text v) =
      run ⟨.arr items :: σ, .value⟩ (text v) := by
  cases sep with
  | false => exact run_first v _
  | true =>
    have hstep : step ⟨.arr items :: σ, .next⟩ ',' = some ⟨.arr items :: σ, .value⟩ := rfl
    exact run_cons_of_step hstep _

/-- A key with the colon after it. -/
theorem run_key (sep : Bool) (members : List (List Char × JsonValue)) (σ : List Frame)
    (k rest : List Char) :
    run ⟨.obj members [] :: σ, between .start sep⟩ (comma sep ++ quoted k ++ ':' :: rest) =
      run ⟨.obj members k :: σ, .value⟩ rest := by
  have hquote : run ⟨.obj members [] :: σ, between .start sep⟩ (comma sep ++ quoted k) =
      some ⟨.obj members k :: σ, .colon⟩ := by
    have hclose : run ⟨.obj members [] :: σ, .string true []⟩ (k.flatMap escapeChar ++ ['"']) =
        some ⟨.obj members k :: σ, .colon⟩ := run_escaped_close _ true k
    cases sep with
    | false =>
      have hstep : step ⟨.obj members [] :: σ, .start⟩ '"' =
          some ⟨.obj members [] :: σ, .string true []⟩ := rfl
      exact (run_cons_of_step hstep _).trans hclose
    | true =>
      have hcomma : step ⟨.obj members [] :: σ, .next⟩ ',' =
          some ⟨.obj members [] :: σ, .key⟩ := rfl
      have hstep : step ⟨.obj members [] :: σ, .key⟩ '"' =
          some ⟨.obj members [] :: σ, .string true []⟩ := rfl
      exact (run_cons_of_step hcomma _).trans ((run_cons_of_step hstep _).trans hclose)
  have hcolon : step ⟨.obj members k :: σ, .colon⟩ ':' =
      some ⟨.obj members k :: σ, .value⟩ := rfl
  rw [run_append_of_run hquote, run_cons_of_step hcolon]

mutual

/-- **A value is read from its text**, up to the end of a number. -/
theorem run_text (σ : List Frame) : ∀ v : JsonValue,
    ∃ s, run ⟨σ, .value⟩ (text v) = some s ∧ s.settled = deliver v σ
  | .null => ⟨_, rfl, settled_deliver _ _⟩
  | .bool true => ⟨_, rfl, settled_deliver _ _⟩
  | .bool false => ⟨_, rfl, settled_deliver _ _⟩
  | .int n => run_intText σ n
  | .str s => by
    have hstep : step ⟨σ, .value⟩ '"' = some ⟨σ, .string false []⟩ := rfl
    exact ⟨_, (run_cons_of_step hstep _).trans (run_escaped_close σ false s),
      settled_deliver _ _⟩
  | .arr items => by
    have hopen : step ⟨σ, .value⟩ '[' = some ⟨.arr [] :: σ, .first⟩ := rfl
    obtain ⟨s, hrun, hset⟩ := run_textItems σ false [] items
    refine ⟨deliver (.arr items) σ, ?_, settled_deliver _ _⟩
    show run ⟨σ, .value⟩ ('[' :: (textItems false items ++ [']'])) = _
    rw [run_cons_of_step hopen]
    refine (run_append_of_run hrun _).trans ?_
    rw [run_settled (by decide), hset]
    cases items <;> rfl
  | .obj members => by
    have hopen : step ⟨σ, .value⟩ '{' = some ⟨.obj [] [] :: σ, .start⟩ := rfl
    obtain ⟨s, hrun, hset⟩ := run_textMembers σ false [] members
    refine ⟨deliver (.obj members) σ, ?_, settled_deliver _ _⟩
    show run ⟨σ, .value⟩ ('{' :: (textMembers false members ++ ['}'])) = _
    rw [run_cons_of_step hopen]
    refine (run_append_of_run hrun _).trans ?_
    rw [run_settled (by decide), hset]
    cases members <;> rfl

theorem run_textItems (σ : List Frame) (sep : Bool) (before : List JsonValue) :
    ∀ items : List JsonValue,
      ∃ s, run ⟨.arr before :: σ, between .first sep⟩ (textItems sep items) = some s ∧
        s.settled = ⟨.arr (before ++ items) :: σ, between .first (sep || !items.isEmpty)⟩
  | [] => ⟨_, rfl, by cases sep <;> simp [between, State.settled]⟩
  | v :: items => by
    obtain ⟨s, hrun, hset⟩ := run_text (.arr before :: σ) v
    obtain ⟨t, hrest, hdone⟩ := run_textItems σ true (before ++ [v]) items
    have hv : run ⟨.arr before :: σ, between .first sep⟩ (comma sep ++ text v) = some s :=
      (run_comma_arr sep before σ v).trans hrun
    have hgoal : ∀ u : State, u.settled = ⟨.arr (before ++ [v] ++ items) :: σ, .next⟩ →
        u.settled = ⟨.arr (before ++ v :: items) :: σ,
          between .first (sep || !(v :: items).isEmpty)⟩ := by
      intro u hu
      rw [hu, List.append_assoc]
      simp [between]
    rw [textItems, run_append_of_run hv]
    match items with
    | [] => exact ⟨s, rfl, hgoal s (by rw [hset]; simp [deliver])⟩
    | w :: items =>
      refine ⟨t, ?_, hgoal t (by rw [hdone]; simp [between])⟩
      have hcomma : textItems true (w :: items) = ',' :: (text w ++ textItems true items) := rfl
      rw [hcomma, run_settled (by decide), hset]
      exact hrest

theorem run_textMembers (σ : List Frame) (sep : Bool) (before : List (List Char × JsonValue)) :
    ∀ members : List (List Char × JsonValue),
      ∃ s, run ⟨.obj before [] :: σ, between .start sep⟩ (textMembers sep members) = some s ∧
        s.settled = ⟨.obj (before ++ members) [] :: σ,
          between .start (sep || !members.isEmpty)⟩
  | [] => ⟨_, rfl, by cases sep <;> simp [between, State.settled]⟩
  | (k, v) :: members => by
    obtain ⟨s, hrun, hset⟩ := run_text (.obj before k :: σ) v
    obtain ⟨t, hrest, hdone⟩ := run_textMembers σ true (before ++ [(k, v)]) members
    have hv : run ⟨.obj before [] :: σ, between .start sep⟩
        (comma sep ++ quoted k ++ ':' :: text v) = some s :=
      (run_key sep before σ k (text v)).trans hrun
    have hgoal : ∀ u : State, u.settled = ⟨.obj (before ++ [(k, v)] ++ members) [] :: σ, .next⟩ →
        u.settled = ⟨.obj (before ++ (k, v) :: members) [] :: σ,
          between .start (sep || !((k, v) :: members).isEmpty)⟩ := by
      intro u hu
      rw [hu, List.append_assoc]
      simp [between]
    rw [textMembers, run_append_of_run hv]
    match members with
    | [] => exact ⟨s, rfl, hgoal s (by rw [hset]; simp [deliver])⟩
    | (k', w) :: members =>
      refine ⟨t, ?_, hgoal t (by rw [hdone]; simp [between])⟩
      have hcomma : textMembers true ((k', w) :: members) =
          ',' :: (quoted k' ++ ':' :: text w ++ textMembers true members) := rfl
      rw [hcomma, run_settled (by decide), hset]
      exact hrest

end

/-- **The text of a value is read back as that value.** -/
theorem read_text (v : JsonValue) : read (text v) = some v := by
  obtain ⟨s, hrun, hset⟩ := run_text [] v
  have hfin : finish s = some v := by
    rw [finish, hset]
    rfl
  rw [read, hrun, Option.bind_some, hfin]

/-- A text is of one value only. -/
theorem text_injective {v w : JsonValue} (h : text v = text w) : v = w := by
  have hv := read_text v
  rw [h, read_text w] at hv
  exact (Option.some.inj hv).symm

/-! ## Control characters -/

theorem printable_hexDigit : ∀ n < 16, 32 ≤ (hexDigit n).toNat := by decide

theorem printable_pair {a b d : Char} (ha : 32 ≤ a.toNat) (hb : 32 ≤ b.toNat)
    (h : d ∈ [a, b]) : 32 ≤ d.toNat := by
  rcases List.mem_cons.1 h with rfl | h
  · exact ha
  · rw [List.mem_singleton.1 h]
    exact hb

theorem printable_escapeChar {c d : Char} (h : d ∈ escapeChar c) : 32 ≤ d.toNat := by
  unfold escapeChar at h
  split_ifs at h with hquote hslash hb hf hn hr ht hcontrol
  · exact printable_pair (by decide) (by decide) h
  · exact printable_pair (by decide) (by decide) h
  · exact printable_pair (by decide) (by decide) h
  · exact printable_pair (by decide) (by decide) h
  · exact printable_pair (by decide) (by decide) h
  · exact printable_pair (by decide) (by decide) h
  · exact printable_pair (by decide) (by decide) h
  · have hsplit : d ∈ ['\\', 'u'] ∨ d ∈ ['0', '0'] ∨
        d ∈ [hexDigit (c.toNat / 16), hexDigit (c.toNat % 16)] := by
      simpa [or_assoc] using h
    rcases hsplit with h | h | h
    · exact printable_pair (by decide) (by decide) h
    · exact printable_pair (by decide) (by decide) h
    · exact printable_pair (printable_hexDigit _ (by omega)) (printable_hexDigit _ (by omega)) h
  · rw [List.mem_singleton.1 h]
    omega

theorem printable_quoted {s : List Char} {d : Char} (h : d ∈ quoted s) : 32 ≤ d.toNat := by
  rcases List.mem_cons.1 h with rfl | h
  · decide
  · rcases List.mem_append.1 h with h | h
    · obtain ⟨c, _, hc⟩ := List.mem_flatMap.1 h
      exact printable_escapeChar hc
    · rw [List.mem_singleton.1 h]
      decide

theorem printable_toDigits {n : Nat} {d : Char} (h : d ∈ Nat.toDigits 10 n) : 32 ≤ d.toNat := by
  have hdigit : d.isDigit = true := Nat.isDigit_of_mem_toDigits (by decide) (by decide) h
  have hlow : '0'.toNat ≤ d.toNat := (Char.isDigit_iff_toNat.1 hdigit).1
  have hzero : '0'.toNat = 48 := rfl
  omega

theorem printable_comma {sep : Bool} {d : Char} (h : d ∈ comma sep) : 32 ≤ d.toNat := by
  cases sep with
  | false => exact absurd h (List.not_mem_nil)
  | true =>
    rw [List.mem_singleton.1 h]
    decide

mutual

/-- **No text has a control character in it**: what a string holds of them is escaped. -/
theorem printable_text {d : Char} : ∀ v : JsonValue, d ∈ text v → 32 ≤ d.toNat
  | .null, h => by
    simp only [text, List.mem_cons, List.not_mem_nil, or_false] at h
    rcases h with rfl | rfl | rfl | rfl <;> decide
  | .bool true, h => by
    simp only [text, List.mem_cons, List.not_mem_nil, or_false] at h
    rcases h with rfl | rfl | rfl | rfl <;> decide
  | .bool false, h => by
    simp only [text, List.mem_cons, List.not_mem_nil, or_false] at h
    rcases h with rfl | rfl | rfl | rfl | rfl <;> decide
  | .int (.ofNat n), h => printable_toDigits h
  | .int (.negSucc n), h => by
    rcases List.mem_cons.1 h with rfl | h
    · decide
    · exact printable_toDigits h
  | .str s, h => printable_quoted h
  | .arr items, h => by
    rw [text, List.mem_cons, List.mem_append, List.mem_singleton] at h
    rcases h with rfl | h | rfl
    · decide
    · exact printable_textItems items h
    · decide
  | .obj members, h => by
    rw [text, List.mem_cons, List.mem_append, List.mem_singleton] at h
    rcases h with rfl | h | rfl
    · decide
    · exact printable_textMembers members h
    · decide

theorem printable_textItems {d : Char} {sep : Bool} :
    ∀ items : List JsonValue, d ∈ textItems sep items → 32 ≤ d.toNat
  | [], h => absurd h List.not_mem_nil
  | v :: items, h => by
    rw [textItems, List.mem_append, List.mem_append] at h
    rcases h with (h | h) | h
    · exact printable_comma h
    · exact printable_text v h
    · exact printable_textItems items h

theorem printable_textMembers {d : Char} {sep : Bool} :
    ∀ members : List (List Char × JsonValue), d ∈ textMembers sep members → 32 ≤ d.toNat
  | [], h => absurd h List.not_mem_nil
  | (k, v) :: members, h => by
    rw [textMembers, List.mem_append, List.mem_append, List.mem_append, List.mem_cons] at h
    rcases h with ((h | h) | rfl | h) | h
    · exact printable_comma h
    · exact printable_quoted h
    · decide
    · exact printable_text v h
    · exact printable_textMembers members h

end

theorem newline_not_mem_text (v : JsonValue) : '\n' ∉ text v := by
  intro h
  have hle := printable_text v h
  have hval : '\n'.toNat = 10 := rfl
  omega

end JsonValue
