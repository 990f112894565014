import Mathlib.Data.List.Basic
import Mathlib.Tactic.Common

/-!
# Base64

The standard alphabet with padding.  Decoding is canonical: padding is required and the bits
it leaves over must be zero.

* `decode_encode` — an encoded byte string is decoded back;
* `mem_encode` — the characters an encoding consists of.
-/

set_option autoImplicit false

namespace Base64

/-- The character of a 6-bit value. -/
def digit (n : Nat) : Char :=
  if n < 26 then Char.ofNat (65 + n)
  else if n < 52 then Char.ofNat (71 + n)
  else if n < 62 then Char.ofNat (n - 4)
  else if n = 62 then '+'
  else '/'

/-- The 6-bit value of a character of the alphabet. -/
def value (c : Char) : Option Nat :=
  if 65 ≤ c.toNat ∧ c.toNat ≤ 90 then some (c.toNat - 65)
  else if 97 ≤ c.toNat ∧ c.toNat ≤ 122 then some (c.toNat - 71)
  else if 48 ≤ c.toNat ∧ c.toNat ≤ 57 then some (c.toNat + 4)
  else if c = '+' then some 62
  else if c = '/' then some 63
  else none

def encode : List UInt8 → List Char
  | [] => []
  | [a] => [digit (a.toNat / 4), digit (a.toNat % 4 * 16), '=', '=']
  | [a, b] =>
    [digit (a.toNat / 4), digit (a.toNat % 4 * 16 + b.toNat / 16), digit (b.toNat % 16 * 4), '=']
  | a :: b :: c :: rest =>
    digit (a.toNat / 4) :: digit (a.toNat % 4 * 16 + b.toNat / 16) ::
      digit (b.toNat % 16 * 4 + c.toNat / 64) :: digit (c.toNat % 64) :: encode rest

/-- The bytes of a final quantum padded with `==`. -/
def decode1 (p q : Char) : Option (List UInt8) :=
  match value p, value q with
  | some x, some y => if y % 16 = 0 then some [UInt8.ofNat (x * 4 + y / 16)] else none
  | _, _ => none

/-- The bytes of a final quantum padded with `=`. -/
def decode2 (p q r : Char) : Option (List UInt8) :=
  match value p, value q, value r with
  | some x, some y, some z =>
    if z % 4 = 0 then
      some [UInt8.ofNat (x * 4 + y / 16), UInt8.ofNat (y % 16 * 16 + z / 4)]
    else none
  | _, _, _ => none

/-- The bytes of a full quantum. -/
def decode3 (p q r s : Char) : Option (List UInt8) :=
  match value p, value q, value r, value s with
  | some x, some y, some z, some w =>
    some [UInt8.ofNat (x * 4 + y / 16), UInt8.ofNat (y % 16 * 16 + z / 4),
      UInt8.ofNat (z % 4 * 64 + w)]
  | _, _, _, _ => none

def decode : List Char → Option (List UInt8)
  | [] => some []
  | p :: q :: r :: s :: rest =>
    if rest = [] ∧ s = '=' then
      if r = '=' then decode1 p q else decode2 p q r
    else
      match decode3 p q r s, decode rest with
      | some xs, some ys => some (xs ++ ys)
      | _, _ => none
  | _ => none

theorem value_digit {n : Nat} (h : n < 64) : value (digit n) = some n := by
  revert n; decide

theorem digit_ne_pad {n : Nat} (h : n < 64) : digit n ≠ '=' := by
  revert n; decide

theorem decode1_encode (a : UInt8) :
    decode1 (digit (a.toNat / 4)) (digit (a.toNat % 4 * 16)) = some [a] := by
  have ha := a.toNat_lt
  unfold decode1
  rw [value_digit (by omega), value_digit (by omega)]
  simp only
  have h : a.toNat / 4 * 4 + a.toNat % 4 * 16 / 16 = a.toNat := by omega
  rw [if_pos (by omega), h, UInt8.ofNat_toNat]

theorem decode2_encode (a b : UInt8) :
    decode2 (digit (a.toNat / 4)) (digit (a.toNat % 4 * 16 + b.toNat / 16))
      (digit (b.toNat % 16 * 4)) = some [a, b] := by
  have ha := a.toNat_lt
  have hb := b.toNat_lt
  unfold decode2
  rw [value_digit (by omega), value_digit (by omega), value_digit (by omega)]
  simp only
  have h1 : a.toNat / 4 * 4 + (a.toNat % 4 * 16 + b.toNat / 16) / 16 = a.toNat := by omega
  have h2 : (a.toNat % 4 * 16 + b.toNat / 16) % 16 * 16 + b.toNat % 16 * 4 / 4 = b.toNat := by
    omega
  rw [if_pos (by omega), h1, h2, UInt8.ofNat_toNat, UInt8.ofNat_toNat]

theorem decode3_encode (a b c : UInt8) :
    decode3 (digit (a.toNat / 4)) (digit (a.toNat % 4 * 16 + b.toNat / 16))
      (digit (b.toNat % 16 * 4 + c.toNat / 64)) (digit (c.toNat % 64)) = some [a, b, c] := by
  have ha := a.toNat_lt
  have hb := b.toNat_lt
  have hc := c.toNat_lt
  unfold decode3
  rw [value_digit (by omega), value_digit (by omega), value_digit (by omega),
    value_digit (by omega)]
  simp only
  have h1 : a.toNat / 4 * 4 + (a.toNat % 4 * 16 + b.toNat / 16) / 16 = a.toNat := by omega
  have h2 : (a.toNat % 4 * 16 + b.toNat / 16) % 16 * 16 +
      (b.toNat % 16 * 4 + c.toNat / 64) / 4 = b.toNat := by omega
  have h3 : (b.toNat % 16 * 4 + c.toNat / 64) % 4 * 64 + c.toNat % 64 = c.toNat := by omega
  rw [h1, h2, h3, UInt8.ofNat_toNat, UInt8.ofNat_toNat, UInt8.ofNat_toNat]

/-- **An encoded byte string is decoded back.** -/
theorem decode_encode : ∀ b : List UInt8, decode (encode b) = some b
  | [] => rfl
  | [a] => by
    unfold encode decode
    rw [if_pos ⟨rfl, rfl⟩, if_pos rfl, decode1_encode]
  | [a, b] => by
    have hb := b.toNat_lt
    unfold encode decode
    rw [if_pos ⟨rfl, rfl⟩, if_neg (digit_ne_pad (by omega)), decode2_encode]
  | a :: b :: c :: rest => by
    unfold encode decode
    rw [if_neg fun h => digit_ne_pad (by omega) h.2, decode3_encode, decode_encode rest]
    rfl

theorem encode_ne_nil : ∀ {b : List UInt8}, b ≠ [] → encode b ≠ []
  | [], h => absurd rfl h
  | [_], _ => by simp [encode]
  | [_, _], _ => by simp [encode]
  | _ :: _ :: _ :: _, _ => by simp [encode]

/-- The characters of the alphabet, as an encoding uses them. -/
def isDigit (c : Char) : Bool := (value c).isSome

theorem isDigit_digit {n : Nat} (h : n < 64) : isDigit (digit n) = true := by
  unfold isDigit
  rw [value_digit h]
  rfl

/-- The characters an encoding consists of. -/
theorem mem_encode : ∀ {b : List UInt8} {c : Char}, c ∈ encode b → isDigit c = true ∨ c = '='
  | [], c, h => by simp [encode] at h
  | [a], c, h => by
    have ha := a.toNat_lt
    simp only [encode, List.mem_cons, List.not_mem_nil, or_false] at h
    rcases h with rfl | rfl | rfl | rfl
    · exact Or.inl (isDigit_digit (by omega))
    · exact Or.inl (isDigit_digit (by omega))
    · exact Or.inr rfl
    · exact Or.inr rfl
  | [a, b], c, h => by
    have ha := a.toNat_lt
    have hb := b.toNat_lt
    simp only [encode, List.mem_cons, List.not_mem_nil, or_false] at h
    rcases h with rfl | rfl | rfl | rfl
    · exact Or.inl (isDigit_digit (by omega))
    · exact Or.inl (isDigit_digit (by omega))
    · exact Or.inl (isDigit_digit (by omega))
    · exact Or.inr rfl
  | a :: b :: c' :: rest, c, h => by
    have ha := a.toNat_lt
    have hb := b.toNat_lt
    have hc := c'.toNat_lt
    simp only [encode, List.mem_cons] at h
    rcases h with rfl | rfl | rfl | rfl | h
    · exact Or.inl (isDigit_digit (by omega))
    · exact Or.inl (isDigit_digit (by omega))
    · exact Or.inl (isDigit_digit (by omega))
    · exact Or.inl (isDigit_digit (by omega))
    · exact mem_encode h

end Base64
