import Mathlib.Order.Lattice
import Mathlib.Data.List.Induction
import Mathlib.Tactic.Common

/-!
# The best of a scan

A scan goes through a list once and keeps the best eligible element seen so far: the first one
with the greatest key.

* `scan_eq_none_iff` — nothing is kept exactly when nothing is eligible;
* `scan_isBest` — what is kept is eligible, and no eligible element has a greater key.
-/

set_option autoImplicit false

namespace Best

variable {α β : Type*} [LinearOrder β] (eligible : α → Bool) (key : α → β)

/-- One step of the scan: an element replaces a kept one only with a greater key. -/
def step (best : Option α) (x : α) : Option α :=
  if eligible x then
    match best with
    | none => some x
    | some b => if key x ≤ key b then some b else some x
  else best

def scan (xs : List α) : Option α := xs.foldl (step eligible key) none

/-- `b` is the best of the eligible elements of `xs`. -/
structure IsBest (xs : List α) (b : α) : Prop where
  mem : b ∈ xs
  isEligible : eligible b = true
  greatest : ∀ x ∈ xs, eligible x = true → key x ≤ key b

/-- What the scan keeps of the elements it has seen. -/
def Kept (xs : List α) : Option α → Prop
  | none => ∀ x ∈ xs, eligible x = false
  | some b => IsBest eligible key xs b

variable {eligible key}

theorem Kept.step {xs : List α} {best : Option α} (h : Kept eligible key xs best) (x : α) :
    Kept eligible key (xs ++ [x]) (Best.step eligible key best x) := by
  unfold Best.step
  cases hx : eligible x with
  | false =>
    rw [if_neg (by simp)]
    cases best with
    | none =>
      intro y hy
      rcases List.mem_append.1 hy with hy | hy
      · exact h y hy
      · rw [List.mem_singleton.1 hy, hx]
    | some b =>
      refine ⟨List.mem_append_left _ h.mem, h.isEligible, ?_⟩
      intro y hy hey
      rcases List.mem_append.1 hy with hy | hy
      · exact h.greatest y hy hey
      · rw [List.mem_singleton.1 hy, hx] at hey
        cases hey
  | true =>
    rw [if_pos rfl]
    cases best with
    | none =>
      refine ⟨by simp, hx, ?_⟩
      intro y hy hey
      rcases List.mem_append.1 hy with hy | hy
      · rw [h y hy] at hey
        cases hey
      · rw [List.mem_singleton.1 hy]
    | some b =>
      dsimp only
      by_cases hle : key x ≤ key b
      · rw [if_pos hle]
        refine ⟨List.mem_append_left _ h.mem, h.isEligible, ?_⟩
        intro y hy hey
        rcases List.mem_append.1 hy with hy | hy
        · exact h.greatest y hy hey
        · rw [List.mem_singleton.1 hy]
          exact hle
      · rw [if_neg hle]
        refine ⟨by simp, hx, ?_⟩
        intro y hy hey
        rcases List.mem_append.1 hy with hy | hy
        · exact le_trans (h.greatest y hy hey) (le_of_lt (not_le.1 hle))
        · rw [List.mem_singleton.1 hy]

/-- The scan keeps the best of what it has seen. -/
theorem kept_scan (xs : List α) : Kept eligible key xs (scan eligible key xs) := by
  induction xs using List.reverseRecOn with
  | nil =>
    intro x hx
    cases hx
  | append_singleton xs x ih =>
    have hscan : scan eligible key (xs ++ [x]) =
        Best.step eligible key (scan eligible key xs) x := by
      simp [scan, List.foldl_append]
    rw [hscan]
    exact ih.step x

theorem scan_isBest {xs : List α} {b : α} (h : scan eligible key xs = some b) :
    IsBest eligible key xs b := by
  have hkept : Kept eligible key xs (scan eligible key xs) := kept_scan xs
  rw [h] at hkept
  exact hkept

/-- **Nothing is kept exactly when nothing is eligible.** -/
theorem scan_eq_none_iff {xs : List α} :
    scan eligible key xs = none ↔ ∀ x ∈ xs, eligible x = false := by
  have hkept : Kept eligible key xs (scan eligible key xs) := kept_scan xs
  cases hscan : scan eligible key xs with
  | none =>
    rw [hscan] at hkept
    exact ⟨fun _ => hkept, fun _ => rfl⟩
  | some b =>
    rw [hscan] at hkept
    constructor
    · intro h
      cases h
    intro h
    have hfalse := h b hkept.mem
    rw [hkept.isEligible] at hfalse
    cases hfalse

end Best
