import Mathlib.Algebra.Order.Ring.Nat
import Mathlib.Data.Char
import Mathlib.Data.List.Lex
import Mathlib.Order.Lattice
import Mathlib.Tactic.Common

/-!
# Fixed-width fields

Numbers written in a fixed number of decimal digits, one after another with separators between
them.  Texts of one layout are in the order of the numbers they hold.

* `decimals_lt_iff` — the digits of a fixed width are in the order of the numbers;
* `render_lt_iff` — the texts of one layout are in the order of their fields.
-/

set_option autoImplicit false

namespace FixedWidth

/-! ## Lexicographic order -/

section Order

variable {α : Type} [LinearOrder α]

/-- Equally long beginnings are compared first. -/
theorem append_lt_append_iff {a b : List α} (h : a.length = b.length) (c d : List α) :
    a ++ c < b ++ d ↔ a < b ∨ a = b ∧ c < d := by
  induction a generalizing b with
  | nil =>
    have hb : b = [] := List.length_eq_zero_iff.1 h.symm
    subst hb
    simp
  | cons x a ih =>
    match b with
    | [] => cases h
    | y :: b =>
      have hlen : a.length = b.length := by simpa using h
      rw [List.cons_append, List.cons_append, List.cons_lt_cons_iff, List.cons_lt_cons_iff,
        ih hlen]
      constructor
      · rintro (hxy | ⟨rfl, hab | ⟨rfl, hcd⟩⟩)
        · exact Or.inl (Or.inl hxy)
        · exact Or.inl (Or.inr ⟨rfl, hab⟩)
        · exact Or.inr ⟨rfl, hcd⟩
      · rintro ((hxy | ⟨rfl, hab⟩) | ⟨heq, hcd⟩)
        · exact Or.inl hxy
        · exact Or.inr ⟨rfl, Or.inl hab⟩
        · obtain ⟨rfl, rfl⟩ := List.cons.inj heq
          exact Or.inr ⟨rfl, Or.inr ⟨rfl, hcd⟩⟩

/-- A common beginning is not compared. -/
theorem append_lt_append_left_iff (a c d : List α) : a ++ c < a ++ d ↔ c < d := by
  rw [append_lt_append_iff rfl]
  simp

end Order

/-! ## Digits -/

/-- The last `k` decimal digits of a number. -/
def decimals : Nat → Nat → List Char
  | 0, _ => []
  | k + 1, n => Nat.digitChar (n / 10 ^ k % 10) :: decimals k n

theorem length_decimals (k n : Nat) : (decimals k n).length = k := by
  induction k with
  | zero => rfl
  | succ k ih => rw [decimals, List.length_cons, ih]

theorem digitChar_lt_iff : ∀ m < 10, ∀ n < 10, Nat.digitChar m < Nat.digitChar n ↔ m < n := by
  decide

theorem digitChar_inj : ∀ m < 10, ∀ n < 10, Nat.digitChar m = Nat.digitChar n ↔ m = n := by
  decide

/-- The digits above the last `k` change nothing. -/
theorem decimals_mod (k n : Nat) : decimals k (n % 10 ^ k) = decimals k n := by
  have hmod : ∀ j i, decimals j (n % 10 ^ (j + i)) = decimals j n := by
    intro j
    induction j with
    | zero => intro i; rfl
    | succ j ih =>
      intro i
      have hpow : 10 ^ (j + 1 + i) = 10 ^ j * (10 * 10 ^ i) := by
        rw [show j + 1 + i = j + (1 + i) by omega, Nat.pow_add, Nat.pow_add, Nat.pow_one]
      have hdigit : n % 10 ^ (j + 1 + i) / 10 ^ j % 10 = n / 10 ^ j % 10 := by
        rw [hpow, Nat.mod_mul_right_div_self, Nat.mod_mul_right_mod]
      rw [decimals, decimals, hdigit, show j + 1 + i = j + (i + 1) by omega, ih (i + 1)]
  simpa using hmod k 0

/-- **The digits of a fixed width are in the order of the numbers.** -/
theorem decimals_lt_iff {k m n : Nat} (hm : m < 10 ^ k) (hn : n < 10 ^ k) :
    decimals k m < decimals k n ↔ m < n := by
  induction k generalizing m n with
  | zero =>
    have hm' : m = 0 := by simpa using hm
    have hn' : n = 0 := by simpa using hn
    subst hm' hn'
    simp [decimals]
  | succ k ih =>
    have hpos : 0 < 10 ^ k := Nat.pow_pos (by decide)
    rw [Nat.pow_succ] at hm hn
    have hq : m / 10 ^ k < 10 := Nat.div_lt_of_lt_mul hm
    have hr : n / 10 ^ k < 10 := Nat.div_lt_of_lt_mul hn
    rw [decimals, decimals, List.cons_lt_cons_iff, Nat.mod_eq_of_lt hq, Nat.mod_eq_of_lt hr,
      digitChar_lt_iff _ hq _ hr, digitChar_inj _ hq _ hr, ← decimals_mod k m,
      ← decimals_mod k n, ih (Nat.mod_lt _ hpos) (Nat.mod_lt _ hpos)]
    have hsplitm := Nat.div_add_mod m (10 ^ k)
    have hsplitn := Nat.div_add_mod n (10 ^ k)
    have hremm := Nat.mod_lt m hpos
    have hremn := Nat.mod_lt n hpos
    constructor
    · rintro (hlt | ⟨heq, hlt⟩)
      · have hstep : 10 ^ k * (m / 10 ^ k + 1) ≤ 10 ^ k * (n / 10 ^ k) :=
          Nat.mul_le_mul_left _ hlt
        rw [Nat.mul_add, Nat.mul_one] at hstep
        omega
      · rw [heq] at hsplitm
        omega
    · intro hlt
      rcases Nat.lt_trichotomy (m / 10 ^ k) (n / 10 ^ k) with h | h | h
      · exact Or.inl h
      · refine Or.inr ⟨h, ?_⟩
        rw [h] at hsplitm
        omega
      · have hstep : 10 ^ k * (n / 10 ^ k + 1) ≤ 10 ^ k * (m / 10 ^ k) :=
          Nat.mul_le_mul_left _ h
        rw [Nat.mul_add, Nat.mul_one] at hstep
        omega

theorem decimals_injective {k m n : Nat} (hm : m < 10 ^ k) (hn : n < 10 ^ k)
    (h : decimals k m = decimals k n) : m = n := by
  rcases Nat.lt_trichotomy m n with hlt | heq | hlt
  · have hd := (decimals_lt_iff hm hn).2 hlt
    rw [h] at hd
    exact absurd hd (List.lt_irrefl _)
  · exact heq
  · have hd := (decimals_lt_iff hn hm).2 hlt
    rw [h] at hd
    exact absurd hd (List.lt_irrefl _)

/-- The last digit apart. -/
theorem decimals_succ_right (k n : Nat) :
    decimals (k + 1) n = decimals k (n / 10) ++ [Nat.digitChar (n % 10)] := by
  induction k with
  | zero => simp [decimals]
  | succ k ih =>
    have hdigit : n / 10 ^ (k + 1) = n / 10 / 10 ^ k := by
      rw [Nat.div_div_eq_div_mul, Nat.pow_succ, Nat.mul_comm]
    rw [decimals, ih, hdigit]
    rfl

/-- The digits of a number, with zeros before them. -/
theorem decimals_eq_toDigits {k n : Nat} (hk : 0 < k) (hn : n < 10 ^ k) :
    decimals k n =
      List.replicate (k - (Nat.toDigits 10 n).length) '0' ++ Nat.toDigits 10 n := by
  induction k generalizing n with
  | zero => omega
  | succ k ih =>
    rw [decimals_succ_right]
    by_cases hlt : n < 10
    · have hzero : ∀ j, decimals j 0 = List.replicate j '0' := by
        intro j
        induction j with
        | zero => rfl
        | succ j ihj =>
          rw [decimals, ihj, List.replicate_succ, Nat.zero_div]
          rfl
      have hdiv : n / 10 = 0 := by omega
      rw [hdiv, hzero, Nat.toDigits_of_lt_base hlt, Nat.mod_eq_of_lt hlt]
      rfl
    · have hkpos : 0 < k := by
        rcases Nat.eq_zero_or_pos k with rfl | h
        · simp at hn
          omega
        · exact h
      have hdiv : n / 10 < 10 ^ k := by
        rw [Nat.pow_succ] at hn
        omega
      have hsplit := Nat.toDigits_append_toDigits (b := 10) (n := n / 10) (d := n % 10)
        (by decide) (by omega) (by omega)
      rw [Nat.div_add_mod, Nat.toDigits_of_lt_base (n := n % 10) (by omega)] at hsplit
      rw [ih hkpos hdiv, ← hsplit, List.append_assoc, List.length_append]
      simp

/-! ## Layouts -/

/-- Fields of given widths, each with what follows it. -/
def render : List (Nat × List Char) → List Nat → List Char
  | (k, sep) :: layout, n :: ns => decimals k n ++ sep ++ render layout ns
  | _, _ => []

/-- Every field fits its width. -/
def Fits : List (Nat × List Char) → List Nat → Prop
  | [], [] => True
  | (k, _) :: layout, n :: ns => n < 10 ^ k ∧ Fits layout ns
  | _, _ => False

/-- **The texts of one layout are in the order of their fields.** -/
theorem render_lt_iff {layout : List (Nat × List Char)} {ms ns : List Nat} (hm : Fits layout ms)
    (hn : Fits layout ns) : render layout ms < render layout ns ↔ ms < ns := by
  induction layout generalizing ms ns with
  | nil =>
    match ms, ns, hm, hn with
    | [], [], _, _ => simp [render]
  | cons field layout ih =>
    obtain ⟨k, sep⟩ := field
    match ms, ns, hm, hn with
    | m :: ms, n :: ns, hm, hn =>
      have hlen : (decimals k m).length = (decimals k n).length := by
        rw [length_decimals, length_decimals]
      rw [render, render, List.append_assoc, List.append_assoc, append_lt_append_iff hlen,
        append_lt_append_left_iff, ih hm.2 hn.2, decimals_lt_iff hm.1 hn.1,
        List.cons_lt_cons_iff]
      constructor
      · rintro (h | ⟨h, hlt⟩)
        · exact Or.inl h
        · exact Or.inr ⟨decimals_injective hm.1 hn.1 h, hlt⟩
      · rintro (h | ⟨rfl, hlt⟩)
        · exact Or.inl h
        · exact Or.inr ⟨rfl, hlt⟩

/-- The length of the texts of a layout. -/
def width (layout : List (Nat × List Char)) : Nat :=
  (layout.map fun field => field.1 + field.2.length).sum

theorem length_render {layout : List (Nat × List Char)} {ns : List Nat} (h : Fits layout ns) :
    (render layout ns).length = width layout := by
  induction layout generalizing ns with
  | nil =>
    match ns, h with
    | [], _ => rfl
  | cons field layout ih =>
    obtain ⟨k, sep⟩ := field
    match ns, h with
    | n :: ns, h =>
      rw [render, List.length_append, List.length_append, length_decimals, ih h.2]
      simp [width]

end FixedWidth
