import DenBrowser.Lib.Unicode
import Mathlib.Data.List.Basic
import Mathlib.Tactic.Common

/-!
# Text and bytes

Rust `&str` / `String` values are lists of characters, byte slices are lists of bytes.
`asBytes` is UTF-8 encoding, `toStr` the conversion of an HTTP header value that
`http::HeaderValue::to_str` performs (visible ASCII and tab only).  Integer parsing follows
`core::num::from_str_radix`: one optional sign (a lone sign is an error, `-` only for signed
types), then digits of the radix, with an overflow error outside the type's range.

* `asBytes_toStr` — reading a header value as text and encoding it again is the identity;
* `parseI64_showInt` — a decimal `i64` is parsed back;
* `newline_not_mem_asBytes` — encoding brings in no newline.
-/

set_option autoImplicit false

namespace DenBrowser

abbrev Str := List Char

theorem forall_mem_of_all {P : Char → Prop} [DecidablePred P] {s : Str}
    (h : (s.all fun c => decide (P c)) = true) : ∀ c ∈ s, P c :=
  fun c hc => of_decide_eq_true (List.all_eq_true.1 h c hc)

abbrev Bytes := List UInt8

/-- Rust `str::as_bytes`. -/
def asBytes (s : Str) : Bytes := s.flatMap String.utf8EncodeChar

@[simp] theorem asBytes_append (s t : Str) : asBytes (s ++ t) = asBytes s ++ asBytes t := by
  simp [asBytes]

/-- A decimal integer, as `{}` formats it. -/
def showInt (n : Int) : Str := (toString n).toList

/-- `char::is_whitespace`. -/
def isWhitespace (c : Char) : Bool :=
  (9 ≤ c.toNat && c.toNat ≤ 13) || (0x2000 ≤ c.toNat && c.toNat ≤ 0x200a) ||
    [0x20, 0x85, 0xa0, 0x1680, 0x2028, 0x2029, 0x202f, 0x205f, 0x3000].contains c.toNat

/-- `str::trim`. -/
def trim (s : Str) : Str :=
  ((s.dropWhile isWhitespace).reverse.dropWhile isWhitespace).reverse

/-- `str::to_ascii_lowercase`. -/
def toAsciiLowercase (s : Str) : Str := s.map Char.toLower

/-- `{s:?}`, with the escapes of a string whose characters are printable or ASCII. -/
def debugStr (s : Str) : Str :=
  ['"'] ++ s.flatMap (fun c =>
    if c = '"' ∨ c = '\\' then ['\\', c]
    else if c = '\t' then "\\t".toList
    else if c = '\r' then "\\r".toList
    else if c = '\n' then "\\n".toList
    else if c.toNat = 0 then "\\0".toList
    else if c.toNat < 32 ∨ c.toNat = 127 then
      "\\u\x7b".toList ++ Nat.toDigits 16 c.toNat ++ "\x7d".toList
    else [c]) ++ ['"']

/-- What a joined list holds is in a separator or in a part. -/
theorem mem_intercalate {α : Type} {sep : List α} {a : α} : ∀ {ls : List (List α)},
    a ∈ sep.intercalate ls → a ∈ sep ∨ ∃ l ∈ ls, a ∈ l
  | [], h => by simp at h
  | [l], h => by
    rw [List.intercalate_singleton] at h
    exact Or.inr ⟨l, by simp, h⟩
  | l :: l' :: ls, h => by
    rw [List.intercalate_cons_cons, List.mem_append, List.mem_append] at h
    rcases h with (h | h) | h
    · exact Or.inr ⟨l, by simp, h⟩
    · exact Or.inl h
    · rcases mem_intercalate h with h | ⟨m, hm, h⟩
      · exact Or.inl h
      · exact Or.inr ⟨m, by simp [hm], h⟩

/-! ## HTTP header text -/

/-- The bytes `HeaderValue::to_str` accepts: visible ASCII, space and tab. -/
def visible (b : UInt8) : Bool := (32 ≤ b && b < 127) || b == 9

/-- `HeaderValue::to_str`. -/
def toStr (v : Bytes) : Option Str :=
  if v.all visible then some (v.map fun b => Char.ofNat b.toNat) else none

/-- What holds of the 128 ASCII characters holds of an ASCII character. -/
theorem of_ascii {P : Char → Prop} {c : Char} (hc : c.toNat < 128)
    (h : ∀ n < 128, P (Char.ofNat n)) : P c := by
  have hchar := h c.toNat hc
  rwa [Char.ofNat_toNat] at hchar

theorem utf8EncodeChar_ofNat {n : Nat} (h : n < 128) :
    String.utf8EncodeChar (Char.ofNat n) = [UInt8.ofNat n] := by
  revert n; decide

theorem utf8EncodeChar_ascii {c : Char} (h : c.toNat < 128) :
    String.utf8EncodeChar c = [UInt8.ofNat c.toNat] := by
  have henc := utf8EncodeChar_ofNat h
  rwa [Char.ofNat_toNat] at henc

theorem visible_lt {b : UInt8} (h : visible b = true) : b.toNat < 128 := by
  simp only [visible, Bool.or_eq_true, Bool.and_eq_true, decide_eq_true_eq, beq_iff_eq,
    UInt8.le_iff_toNat_le, UInt8.lt_iff_toNat_lt] at h
  rcases h with h | rfl
  · have : (127 : UInt8).toNat = 127 := rfl
    omega
  · decide

theorem asBytes_toStr : ∀ {v : Bytes} {s : Str}, toStr v = some s → asBytes s = v := by
  intro v s h
  unfold toStr at h
  split at h
  · rename_i hv
    simp only [Option.some.injEq] at h
    subst h
    induction v with
    | nil => rfl
    | cons b v ih =>
      simp only [List.all_cons, Bool.and_eq_true] at hv
      rw [List.map_cons, asBytes, List.flatMap_cons, utf8EncodeChar_ofNat (visible_lt hv.1)]
      have := ih hv.2
      rw [asBytes] at this
      rw [this]
      simp
  · cases h

/-! ## Integer parsing -/

/-- `char::to_digit(10)`, on a character that is a decimal digit. -/
def decDigit (c : Char) : Option Nat := if c.isDigit then some (c.toNat - 48) else none

/-- The digit loop of `from_str_radix(10)` (the magnitude; the range check comes last). -/
def decValue : Nat → Str → Option Nat
  | acc, [] => some acc
  | acc, c :: cs =>
    match decDigit c with
    | none => none
    | some d => decValue (10 * acc + d) cs

def I64_MIN : Int := -9223372036854775808

def I64_MAX : Int := 9223372036854775807

/-- Range check of the parsed value. -/
def checkI64 (n : Int) : Option Int := if I64_MIN ≤ n ∧ n ≤ I64_MAX then some n else none

/-- `str::parse::<i64>`. -/
def parseI64 : Str → Option Int
  | [] => none
  | ['+'] => none
  | ['-'] => none
  | '+' :: cs => (decValue 0 cs).bind fun n => checkI64 n
  | '-' :: cs => (decValue 0 cs).bind fun n => checkI64 (-n)
  | cs => (decValue 0 cs).bind fun n => checkI64 n

theorem decValue_eq : ∀ (cs : Str) (acc : Nat), (∀ c ∈ cs, c.isDigit = true) →
    decValue acc cs = some (Nat.ofDigitChars 10 cs acc)
  | [], acc, _ => by simp [decValue]
  | c :: cs, acc, h => by
    have hc := h c (by simp)
    simp only [decValue, decDigit, hc, if_true]
    rw [decValue_eq cs _ (fun c hc => h c (by simp [hc])), Nat.ofDigitChars_cons]
    rfl

theorem decValue_toDigits (n : Nat) : decValue 0 (Nat.toDigits 10 n) = some n := by
  rw [decValue_eq _ _ (fun c hc => Nat.isDigit_of_mem_toDigits (by decide) (by decide) hc),
    Nat.ofDigitChars_ten_toDigits]

theorem isDigit_ne_sign {c : Char} (h : c.isDigit = true) : c ≠ '+' ∧ c ≠ '-' := by
  constructor <;> (rintro rfl; revert h; decide)

theorem parseI64_digits {cs : Str} (hne : cs ≠ []) (hd : ∀ c ∈ cs, c.isDigit = true) :
    parseI64 cs = (decValue 0 cs).bind fun n => checkI64 n := by
  cases cs with
  | nil => exact absurd rfl hne
  | cons c cs =>
    obtain ⟨h1, h2⟩ := isDigit_ne_sign (hd c (by simp))
    unfold parseI64
    split <;> simp_all

theorem showInt_ofNat (n : Nat) : showInt (Int.ofNat n) = Nat.toDigits 10 n := by
  simp [showInt, Int.toString_eq_repr, Int.repr]

theorem showInt_negSucc (n : Nat) : showInt (Int.negSucc n) = '-' :: Nat.toDigits 10 (n + 1) := by
  simp [showInt, Int.toString_eq_repr, Int.repr]

theorem showInt_ne_nil (n : Int) : showInt n ≠ [] := by
  cases n with
  | ofNat n =>
    rw [showInt_ofNat]
    exact Nat.toDigits_ne_nil
  | negSucc n =>
    rw [showInt_negSucc]
    simp

theorem checkI64_of_range {n : Int} (h : I64_MIN ≤ n ∧ n ≤ I64_MAX) : checkI64 n = some n := by
  unfold checkI64
  rw [if_pos h]

/-- A decimal `i64` is parsed back. -/
theorem parseI64_showInt {n : Int} (h : I64_MIN ≤ n ∧ n ≤ I64_MAX) :
    parseI64 (showInt n) = some n := by
  cases n with
  | ofNat n =>
    rw [showInt_ofNat, parseI64_digits Nat.toDigits_ne_nil
      (fun c hc => Nat.isDigit_of_mem_toDigits (by decide) (by decide) hc), decValue_toDigits]
    exact checkI64_of_range h
  | negSucc n =>
    have hne : Nat.toDigits 10 (n + 1) ≠ [] := Nat.toDigits_ne_nil
    have hcons : parseI64 ('-' :: Nat.toDigits 10 (n + 1)) =
        (decValue 0 (Nat.toDigits 10 (n + 1))).bind fun m => checkI64 (-m) := by
      cases hds : Nat.toDigits 10 (n + 1) with
      | nil => exact absurd hds hne
      | cons d ds => simp only [parseI64]
    have hn : -((n + 1 : Nat) : Int) = Int.negSucc n := rfl
    rw [showInt_negSucc, hcons, decValue_toDigits, Option.bind_some, hn]
    exact checkI64_of_range h

/-! ## Newlines -/

theorem newline_not_mem_asBytes {s : Str} (h : '\n' ∉ s) : (10 : UInt8) ∉ asBytes s := by
  intro hmem
  obtain ⟨c, hc, hb⟩ := List.mem_flatMap.1 hmem
  have hnat : c.toNat = 10 := Unicode.toNat_of_mem_utf8EncodeChar hb (by decide)
  have hc' : c = '\n' := Char.toNat_inj.1 hnat
  exact h (hc' ▸ hc)

theorem newline_not_mem_showInt (n : Int) : '\n' ∉ showInt n := by
  have hdigits : ∀ m : Nat, '\n' ∉ Nat.toDigits 10 m := by
    intro m hm
    have := Nat.isDigit_of_mem_toDigits (b := 10) (by decide) (by decide) hm
    revert this
    decide
  cases n with
  | ofNat n =>
    rw [showInt_ofNat]
    exact hdigits n
  | negSucc n =>
    rw [showInt_negSucc, List.mem_cons, not_or]
    exact ⟨by decide, hdigits _⟩

end DenBrowser
