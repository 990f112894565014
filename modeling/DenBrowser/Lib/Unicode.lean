import Mathlib.Data.List.Basic
import Mathlib.Tactic.Common

/-!
# UTF-8 and UTF-16

Texts are lists of characters, encoded as bytes or as 16-bit units.

* `utf8Decode_eq_some_iff`, `utf16Decode_eq_some_iff` — what decodes to a text is its encoding,
  and nothing else;
* `zero_mem_utf8`, `zero_mem_utf16` — only the NUL character encodes to a zero.
-/

set_option autoImplicit false

namespace Unicode

/-! ## UTF-8 -/

def utf8 (cs : List Char) : List UInt8 := cs.flatMap String.utf8EncodeChar

def utf8Decode (bytes : List UInt8) : Option (List Char) :=
  bytes.toByteArray.utf8Decode?.map Array.toList

/-- The bytes are valid UTF-8. -/
def isUtf8 (bytes : List UInt8) : Bool := (utf8Decode bytes).isSome

/-- **UTF-8 decoding inverts the encoding, and accepts nothing else.** -/
theorem utf8Decode_eq_some_iff {bytes : List UInt8} {cs : List Char} :
    utf8Decode bytes = some cs ↔ bytes = utf8 cs := by
  have hbytes : ∀ l : List UInt8, l.toByteArray.data.toList = l := by
    intro l
    simp
  constructor
  · intro h
    obtain ⟨a, ha, rfl⟩ := Option.map_eq_some_iff.1 h
    have henc := ByteArray.utf8Encode_get_utf8Decode? (b := bytes.toByteArray)
      (h := by rw [ha]; rfl)
    simp only [ha, Option.get_some] at henc
    have hlist := congrArg (fun b => b.data.toList) henc
    rw [hbytes] at hlist
    rw [← hlist]
    unfold List.utf8Encode utf8
    rw [hbytes]
  · rintro rfl
    unfold utf8Decode utf8
    have henc : (cs.flatMap String.utf8EncodeChar).toByteArray = cs.utf8Encode := rfl
    rw [henc, List.utf8Decode?_utf8Encode]
    simp

theorem utf8_injective {cs ds : List Char} (h : utf8 cs = utf8 ds) : cs = ds := by
  have hcs : utf8Decode (utf8 cs) = some cs := utf8Decode_eq_some_iff.2 rfl
  rw [h, utf8Decode_eq_some_iff.2 rfl] at hcs
  exact (Option.some.inj hcs).symm

/-- A byte below 128 in a character's encoding is the character itself. -/
theorem toNat_of_mem_utf8EncodeChar {c : Char} {b : UInt8} (h : b ∈ String.utf8EncodeChar c)
    (hb : b.toNat < 128) : c.toNat = b.toNat := by
  have hv : c.val.toNat = c.toNat := rfl
  unfold String.utf8EncodeChar at h
  simp only [hv] at h
  have hlead : ∀ m k : Nat, k + m < 256 → 128 ≤ k → b = UInt8.ofNat (m + k) → False := by
    intro m k hsum hk hbk
    rw [hbk, UInt8.toNat_ofNat_of_lt' (by simp [UInt8.size]; omega)] at hb
    omega
  split at h
  · rename_i hle
    rw [List.mem_singleton] at h
    rw [h, UInt8.toNat_ofNat_of_lt' (by simp [UInt8.size]; omega)]
  · exfalso
    split at h
    · simp only [List.mem_cons, List.not_mem_nil, or_false] at h
      rcases h with h | h <;> exact hlead _ _ (by omega) (by omega) h
    · split at h
      · simp only [List.mem_cons, List.not_mem_nil, or_false] at h
        rcases h with h | h | h <;> exact hlead _ _ (by omega) (by omega) h
      · simp only [List.mem_cons, List.not_mem_nil, or_false] at h
        rcases h with h | h | h | h <;> exact hlead _ _ (by omega) (by omega) h

theorem zero_mem_utf8 {cs : List Char} (h : 0 ∈ utf8 cs) : Char.ofNat 0 ∈ cs := by
  obtain ⟨c, hc, hb⟩ := List.mem_flatMap.1 h
  have hnat : c.toNat = 0 := toNat_of_mem_utf8EncodeChar hb (by decide)
  rw [← Char.ofNat_toNat c, hnat] at hc
  exact hc

/-! ## UTF-16 -/

def isHigh (u : UInt16) : Bool := 0xD800 ≤ u.toNat && u.toNat < 0xDC00

def isLow (u : UInt16) : Bool := 0xDC00 ≤ u.toNat && u.toNat < 0xE000

/-- The units of a character: itself, or a surrogate pair. -/
def utf16Char (c : Char) : List UInt16 :=
  if c.toNat < 0x10000 then [UInt16.ofNat c.toNat]
  else [UInt16.ofNat (0xD800 + (c.toNat - 0x10000) / 0x400),
    UInt16.ofNat (0xDC00 + (c.toNat - 0x10000) % 0x400)]

def utf16 (cs : List Char) : List UInt16 := cs.flatMap utf16Char

def utf16Decode : List UInt16 → Option (List Char)
  | [] => some []
  | u :: rest =>
    if isLow u then none
    else if isHigh u then
      match rest with
      | v :: rest =>
        if isLow v then
          (utf16Decode rest).map fun cs =>
            Char.ofNat (0x10000 + (u.toNat - 0xD800) * 0x400 + (v.toNat - 0xDC00)) :: cs
        else none
      | [] => none
    else (utf16Decode rest).map fun cs => Char.ofNat u.toNat :: cs

theorem toNat_ofNat {n : Nat} (h : n < 0xD800 ∨ 0xDFFF < n ∧ n < 0x110000) :
    (Char.ofNat n).toNat = n := by
  unfold Char.ofNat
  rw [dif_pos h]
  rfl

theorem char_range (c : Char) : c.toNat < 0xD800 ∨ 0xDFFF < c.toNat ∧ c.toNat < 0x110000 := c.valid

theorem unit_toNat {n : Nat} (h : n < 0x10000) : (UInt16.ofNat n).toNat = n :=
  UInt16.toNat_ofNat_of_lt h

/-- Decoding takes one character off. -/
theorem utf16Decode_char (c : Char) (us : List UInt16) :
    utf16Decode (utf16Char c ++ us) = (utf16Decode us).map fun cs => c :: cs := by
  have hr := char_range c
  unfold utf16Char
  by_cases hsmall : c.toNat < 0x10000
  · rw [if_pos hsmall, List.singleton_append, utf16Decode.eq_def]
    dsimp only
    have hu := unit_toNat hsmall
    have hlow : isLow (UInt16.ofNat c.toNat) = false := by
      simp only [isLow, hu, Bool.and_eq_false_iff, decide_eq_false_iff_not]
      omega
    have hhigh : isHigh (UInt16.ofNat c.toNat) = false := by
      simp only [isHigh, hu, Bool.and_eq_false_iff, decide_eq_false_iff_not]
      omega
    rw [hlow, hhigh, hu, Char.ofNat_toNat]
    rfl
  · rw [if_neg hsmall, List.cons_append, List.singleton_append, utf16Decode.eq_def]
    dsimp only
    have hu : (UInt16.ofNat (0xD800 + (c.toNat - 0x10000) / 0x400)).toNat =
        0xD800 + (c.toNat - 0x10000) / 0x400 := unit_toNat (by omega)
    have hv : (UInt16.ofNat (0xDC00 + (c.toNat - 0x10000) % 0x400)).toNat =
        0xDC00 + (c.toNat - 0x10000) % 0x400 := unit_toNat (by omega)
    have hnot : isLow (UInt16.ofNat (0xD800 + (c.toNat - 0x10000) / 0x400)) = false := by
      simp only [isLow, hu, Bool.and_eq_false_iff, decide_eq_false_iff_not]
      omega
    have hhigh : isHigh (UInt16.ofNat (0xD800 + (c.toNat - 0x10000) / 0x400)) = true := by
      simp only [isHigh, hu, Bool.and_eq_true, decide_eq_true_eq]
      omega
    have hlow : isLow (UInt16.ofNat (0xDC00 + (c.toNat - 0x10000) % 0x400)) = true := by
      simp only [isLow, hv, Bool.and_eq_true, decide_eq_true_eq]
      omega
    have hsum : 0x10000 + (0xD800 + (c.toNat - 0x10000) / 0x400 - 0xD800) * 0x400 +
        (0xDC00 + (c.toNat - 0x10000) % 0x400 - 0xDC00) = c.toNat := by omega
    rw [hnot, hhigh, hlow, hu, hv, hsum, Char.ofNat_toNat]
    rfl

/-- What decodes was encoded. -/
theorem utf16_of_decode : ∀ (us : List UInt16) (cs : List Char), utf16Decode us = some cs →
    us = utf16 cs := by
  have hsingle : ∀ u : UInt16, isLow u = false → isHigh u = false →
      utf16Char (Char.ofNat u.toNat) = [u] := by
    intro u hlow hhigh
    have hlt := u.toNat_lt
    have hchar : (Char.ofNat u.toNat).toNat = u.toNat := by
      apply toNat_ofNat
      simp only [isLow, isHigh, Bool.and_eq_false_iff, decide_eq_false_iff_not] at hlow hhigh
      omega
    unfold utf16Char
    rw [hchar, if_pos (by omega), UInt16.ofNat_toNat]
  have hpair : ∀ u v : UInt16, isHigh u = true → isLow v = true →
      utf16Char (Char.ofNat (0x10000 + (u.toNat - 0xD800) * 0x400 + (v.toNat - 0xDC00))) =
        [u, v] := by
    intro u v hhigh hlow
    simp only [isHigh, isLow, Bool.and_eq_true, decide_eq_true_eq] at hhigh hlow
    have hchar : (Char.ofNat (0x10000 + (u.toNat - 0xD800) * 0x400 + (v.toNat - 0xDC00))).toNat =
        0x10000 + (u.toNat - 0xD800) * 0x400 + (v.toNat - 0xDC00) := toNat_ofNat (by omega)
    unfold utf16Char
    rw [hchar, if_neg (by omega)]
    have hu : 0xD800 + (0x10000 + (u.toNat - 0xD800) * 0x400 + (v.toNat - 0xDC00) - 0x10000) /
        0x400 = u.toNat := by omega
    have hv : 0xDC00 + (0x10000 + (u.toNat - 0xD800) * 0x400 + (v.toNat - 0xDC00) - 0x10000) %
        0x400 = v.toNat := by omega
    rw [hu, hv, UInt16.ofNat_toNat, UInt16.ofNat_toNat]
  intro us
  fun_induction utf16Decode us with
  | case1 =>
    intro cs h
    cases h
    rfl
  | case2 => intro cs h; cases h
  | case3 u hnot hhigh v rest hlow ih =>
    intro cs h
    obtain ⟨ds, hds, rfl⟩ := Option.map_eq_some_iff.1 h
    rw [utf16, List.flatMap_cons, hpair u v hhigh hlow, ih ds hds]
    rfl
  | case4 => intro cs h; cases h
  | case5 => intro cs h; cases h
  | case6 u rest hnot hhigh ih =>
    intro cs h
    obtain ⟨ds, hds, rfl⟩ := Option.map_eq_some_iff.1 h
    rw [utf16, List.flatMap_cons, hsingle u (by simpa using hnot) (by simpa using hhigh),
      ih ds hds]
    rfl

/-- **UTF-16 decoding inverts the encoding, and accepts nothing else.** -/
theorem utf16Decode_eq_some_iff {us : List UInt16} {cs : List Char} :
    utf16Decode us = some cs ↔ us = utf16 cs := by
  constructor
  · exact utf16_of_decode us cs
  · rintro rfl
    induction cs with
    | nil => rfl
    | cons c cs ih => rw [utf16, List.flatMap_cons, utf16Decode_char, ← utf16, ih]; rfl

theorem zero_mem_utf16 {cs : List Char} (h : 0 ∈ utf16 cs) : Char.ofNat 0 ∈ cs := by
  obtain ⟨c, hc, hu⟩ := List.mem_flatMap.1 h
  have hr := char_range c
  have hnat : c.toNat = 0 := by
    unfold utf16Char at hu
    split at hu
    · rename_i hsmall
      have hu' := congrArg UInt16.toNat (List.mem_singleton.1 hu)
      rw [unit_toNat hsmall] at hu'
      exact hu'.symm
    · exfalso
      rcases List.mem_cons.1 hu with hu | hu
      · have hu' := congrArg UInt16.toNat hu
        rw [unit_toNat (by omega)] at hu'
        simp only [UInt16.toNat_zero] at hu'
        omega
      · have hu' := congrArg UInt16.toNat (List.mem_singleton.1 hu)
        rw [unit_toNat (by omega)] at hu'
        simp only [UInt16.toNat_zero] at hu'
        omega
  rw [← Char.ofNat_toNat c, hnat] at hc
  exact hc

/-- What follows a unit that is no surrogate decodes by itself. -/
theorem utf16Decode_cons {u : UInt16} (hlow : isLow u = false) (hhigh : isHigh u = false)
    (us : List UInt16) :
    utf16Decode (u :: us) = (utf16Decode us).map fun cs => Char.ofNat u.toNat :: cs := by
  rw [utf16Decode.eq_def]
  dsimp only
  rw [hlow, hhigh]
  rfl

end Unicode
