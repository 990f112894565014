import Mathlib.Data.List.Basic
import Mathlib.Tactic.Common

/-!
# Terminated strings

A string in memory ends with a terminator.  A pointer into it is the memory from there to the end
of its allocation, which the terminator is; a read past the terminator gives `none`.

* `Decides` — a computation that reads in bounds and decides a proposition;
* `same_ptr`, `sameUpTo_ptr` — what the comparison loops of C decide.
-/

set_option autoImplicit false

namespace CString

/-- A pointer: the memory from it on. -/
abbrev Ptr (α : Type) := List α

/-- The characters of a string that ends with `nul`. -/
@[ext] structure Terminated {α : Type} (nul : α) where
  chars : List α
  clean : nul ∉ chars
  deriving DecidableEq

/-- The pointer to a string's first character. -/
def Terminated.ptr {α : Type} {nul : α} (s : Terminated nul) : Ptr α := s.chars ++ [nul]

/-- The string from its `n`-th character on. -/
def Terminated.drop {α : Type} {nul : α} (s : Terminated nul) (n : Nat) : Terminated nul :=
  ⟨s.chars.drop n, fun h => s.clean (List.mem_of_mem_drop h)⟩

theorem Terminated.drop_ptr {α : Type} {nul : α} (s : Terminated nul) {n : Nat}
    (h : n ≤ s.chars.length) : s.ptr.drop n = (s.drop n).ptr := by
  unfold Terminated.ptr Terminated.drop
  rw [List.drop_append_of_le_length h]

/-- The computation stays in bounds, and decides `P`. -/
def Decides (x : Option Bool) (P : Prop) : Prop := ∃ b, x = some b ∧ (b = true ↔ P)

theorem Decides.of_true {P : Prop} (h : P) : Decides (some true) P := ⟨true, rfl, by simp [h]⟩

theorem Decides.of_false {P : Prop} (h : ¬P) : Decides (some false) P := ⟨false, rfl, by simp [h]⟩

theorem Decides.congr {x : Option Bool} {P Q : Prop} (h : Decides x P) (hpq : P ↔ Q) :
    Decides x Q := by
  obtain ⟨b, hb, hp⟩ := h
  exact ⟨b, hb, hp.trans hpq⟩

/-- What a computation decides, it decides up to equivalence. -/
theorem Decides.decides_iff {x : Option Bool} {P Q : Prop} (h : Decides x P) :
    Decides x Q ↔ (P ↔ Q) := by
  constructor
  · rintro ⟨c, hc, hq⟩
    obtain ⟨b, hb, hp⟩ := h
    obtain rfl : b = c := Option.some.inj (hb.symm.trans hc)
    exact hp.symm.trans hq
  · exact h.congr

/-- `x && y`, which computes `y` only when `x` holds. -/
def both (x y : Option Bool) : Option Bool :=
  match x with
  | none => none
  | some false => some false
  | some true => y

theorem Decides.both {x y : Option Bool} {P Q : Prop} (hx : Decides x P)
    (hy : P → Decides y Q) : Decides (both x y) (P ∧ Q) := by
  obtain ⟨b, rfl, hp⟩ := hx
  cases b with
  | false => exact Decides.of_false fun h => absurd (hp.2 h.1) (by decide)
  | true =>
    obtain ⟨c, hc, hq⟩ := hy (hp.1 rfl)
    exact ⟨c, hc, by simp [hq, hp.1 rfl]⟩

/-- Comparing one character of a string, the terminator included, with another character. -/
theorem Terminated.read_ptr {α : Type} [DecidableEq α] {nul c : α} (s : Terminated nul) {i : Nat}
    (h : i ≤ s.chars.length) (hc : c ≠ nul) :
    Decides (s.ptr[i]?.map fun x => x == c) (s.chars[i]? = some c) := by
  unfold Terminated.ptr
  by_cases hi : i < s.chars.length
  · rw [List.getElem?_append_left hi, List.getElem?_eq_getElem hi]
    exact ⟨_, rfl, by simp⟩
  · obtain rfl : i = s.chars.length := by omega
    rw [List.getElem?_concat_length, List.getElem?_eq_none (Nat.le_refl _)]
    exact ⟨false, by simp [Ne.symm hc], by simp⟩

section Compare

variable {α : Type} [DecidableEq α] (nul : α) (f : α → α)

/-- `strcmp(p, q) == 0`, each character taken through `f`. -/
def same : Ptr α → Ptr α → Option Bool
  | x :: p, y :: q =>
    if f x ≠ f y then some false
    else if x = nul then some true
    else same p q
  | _, _ => none

/-- `strncmp(p, q, n) == 0`, each character taken through `f`. -/
def sameUpTo : (n : Nat) → Ptr α → Ptr α → Option Bool
  | 0, _, _ => some true
  | n + 1, x :: p, y :: q =>
    if f x ≠ f y then some false
    else if x = nul then some true
    else sameUpTo n p q
  | _ + 1, _, _ => none

variable {nul f}

/-- One step of a comparison, past a character of the first string. -/
theorem Decides.compare_step {x y : α} {rest : Option Bool} {P : Prop} (hx : x ≠ nul)
    (hrest : Decides rest P) :
    Decides (if f x ≠ f y then some false else if x = nul then some true else rest)
      (f x = f y ∧ P) := by
  by_cases hxy : f x = f y
  · rw [if_neg (by simpa using hxy), if_neg hx]
    exact hrest.congr (by simp [hxy])
  · rw [if_pos hxy]
    exact Decides.of_false fun h => hxy h.1

/-- Two strings compare equal when their characters do. -/
theorem same_ptr (hf : ∀ x, f x = f nul → x = nul) (s t : Terminated nul) :
    Decides (same nul f s.ptr t.ptr) (s.chars.map f = t.chars.map f) := by
  have key : ∀ a b : List α, nul ∉ a → nul ∉ b →
      Decides (same nul f (a ++ [nul]) (b ++ [nul])) (a.map f = b.map f) := by
    intro a
    induction a with
    | nil =>
      intro b _ hb
      cases b with
      | nil => exact ⟨true, by simp [same], by simp⟩
      | cons y b =>
        have hy : f nul ≠ f y := fun h => hb (by rw [hf y h.symm]; exact List.mem_cons_self)
        exact ⟨false, by simp [same, hy], by simp⟩
    | cons x a ih =>
      intro b ha hb
      rw [List.mem_cons, not_or] at ha
      cases b with
      | nil =>
        have hx : f x ≠ f nul := fun h => ha.1 (hf x h).symm
        exact ⟨false, by simp [same, hx], by simp⟩
      | cons y b =>
        rw [List.mem_cons, not_or] at hb
        exact (Decides.compare_step (Ne.symm ha.1) (ih b ha.2 hb.2)).congr (by simp)
  exact key s.chars t.chars s.clean t.clean

/-- A bounded comparison with a string of that length decides whether it is a prefix. -/
theorem sameUpTo_ptr (hf : ∀ x, f x = f nul → x = nul) (s t : Terminated nul) :
    Decides (sameUpTo nul f t.chars.length s.ptr t.ptr)
      ((s.chars.take t.chars.length).map f = t.chars.map f) := by
  have key : ∀ b a : List α, nul ∉ a → nul ∉ b →
      Decides (sameUpTo nul f b.length (a ++ [nul]) (b ++ [nul]))
        ((a.take b.length).map f = b.map f) := by
    intro b
    induction b with
    | nil =>
      intro a _ _
      exact Decides.of_true (by simp)
    | cons y b ih =>
      intro a ha hb
      rw [List.mem_cons, not_or] at hb
      cases a with
      | nil =>
        have hy : f nul ≠ f y := fun h => hb.1 (hf y h.symm).symm
        exact ⟨false, by simp [sameUpTo, hy], by simp⟩
      | cons x a =>
        rw [List.mem_cons, not_or] at ha
        exact (Decides.compare_step (Ne.symm ha.1) (ih a ha.2 hb.2)).congr (by simp)
  exact key t.chars s.chars s.clean t.clean

end Compare

end CString
