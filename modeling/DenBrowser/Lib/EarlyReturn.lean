import Mathlib.Tactic.Common

/-!
# Commands that may return early

A command runs on a state.  It goes on with a value, returns early from the function it stands
in, or is stuck (its behaviour is undefined); in each case it leaves a state.

* `wp` — what must hold of a state for a command run in it not to be stuck, and to end as a
  postcondition says;
* `wp_bind`, `wp_call` — the rules for sequencing and for a call;
* `exists_run` — a function whose body meets a postcondition returns;
* `wp_each` — the rule for a loop over a list, with an invariant over the part done.
-/

set_option autoImplicit false

namespace EarlyReturn

/-- How a command ends. -/
inductive Outcome (ρ α : Type) where
  | next (a : α)
  | returned (r : ρ)
  | stuck

/-- A command on states `σ`, in a function that returns a `ρ`. -/
def Cmd (σ ρ α : Type) : Type := σ → Outcome ρ α × σ

variable {σ ρ α β : Type}

namespace Cmd

def bind (m : Cmd σ ρ α) (f : α → Cmd σ ρ β) : Cmd σ ρ β := fun w =>
  match m w with
  | (.next a, w') => f a w'
  | (.returned r, w') => (.returned r, w')
  | (.stuck, w') => (.stuck, w')

instance : Monad (Cmd σ ρ) where
  pure a := fun w => (.next a, w)
  bind := Cmd.bind

/-- `return r`. -/
def ret (r : ρ) : Cmd σ ρ α := fun w => (.returned r, w)

/-- Read the state. -/
def get : Cmd σ ρ σ := fun w => (.next w, w)

/-- Change the state. -/
def modify (f : σ → σ) : Cmd σ ρ Unit := fun w => (.next (), f w)

/-- Use a value that is undefined behaviour when absent. -/
def defined : Option α → Cmd σ ρ α
  | some a => pure a
  | none => fun w => (.stuck, w)

/-- Use a value, or return when it is absent. -/
def orReturn (r : ρ) : Option α → Cmd σ ρ α
  | some a => pure a
  | none => ret r

/-- Go on if the condition holds, else return. -/
def require (r : ρ) : Bool → Cmd σ ρ Unit
  | true => pure ()
  | false => ret r

/-- Call a function: whichever way its body ends, its value is the call's. -/
def fn {ρ' : Type} (body : Cmd σ ρ ρ) : Cmd σ ρ' ρ := fun w =>
  match body w with
  | (.next r, w') => (.next r, w')
  | (.returned r, w') => (.next r, w')
  | (.stuck, w') => (.stuck, w')

/-- Run a function's body: the value it returns, unless it gets stuck. -/
def run (body : Cmd σ ρ ρ) (w : σ) : Option ρ × σ :=
  match body w with
  | (.next r, w') => (some r, w')
  | (.returned r, w') => (some r, w')
  | (.stuck, w') => (none, w')

/-- `for (a : l) body`. -/
def each (l : List α) (body : α → Cmd σ ρ Unit) : Cmd σ ρ Unit :=
  match l with
  | [] => pure ()
  | a :: l => do
    body a
    each l body

end Cmd

open Cmd

/-- Run in `w`, the command is not stuck: it goes on as `Q` says or returns as `R` says. -/
def wp (m : Cmd σ ρ α) (Q : α → σ → Prop) (R : ρ → σ → Prop) (w : σ) : Prop :=
  match m w with
  | (.next a, w') => Q a w'
  | (.returned r, w') => R r w'
  | (.stuck, _) => False

theorem wp_mono {m : Cmd σ ρ α} {Q Q' : α → σ → Prop} {R R' : ρ → σ → Prop} {w : σ}
    (h : wp m Q R w) (hQ : ∀ a w', Q a w' → Q' a w') (hR : ∀ r w', R r w' → R' r w') :
    wp m Q' R' w := by
  unfold wp at *
  split
  · rename_i a w' heq
    rw [heq] at h
    exact hQ a w' h
  · rename_i r w' heq
    rw [heq] at h
    exact hR r w' h
  · rename_i w' heq
    rw [heq] at h
    exact h

section Rules

variable {Q : α → σ → Prop} {R : ρ → σ → Prop} {w : σ}

@[simp] theorem wp_pure {a : α} : wp (pure a : Cmd σ ρ α) Q R w ↔ Q a w := Iff.rfl

@[simp] theorem wp_ret {r : ρ} : wp (ret r : Cmd σ ρ α) Q R w ↔ R r w := Iff.rfl

@[simp] theorem wp_get {Q : σ → σ → Prop} : wp (get : Cmd σ ρ σ) Q R w ↔ Q w w := Iff.rfl

@[simp] theorem wp_modify {f : σ → σ} {Q : Unit → σ → Prop} :
    wp (modify f : Cmd σ ρ Unit) Q R w ↔ Q () (f w) := Iff.rfl

/-- **Sequencing.** -/
@[simp] theorem wp_bind {m : Cmd σ ρ α} {f : α → Cmd σ ρ β} {Q : β → σ → Prop} :
    wp (m >>= f) Q R w ↔ wp m (fun a w' => wp (f a) Q R w') R w := by
  show wp (Cmd.bind m f) Q R w ↔ _
  unfold wp Cmd.bind
  cases h : m w with
  | mk o w' => cases o <;> rfl

@[simp] theorem wp_defined {x : Option α} :
    wp (defined x : Cmd σ ρ α) Q R w ↔ ∃ a, x = some a ∧ Q a w := by
  cases x with
  | none => exact ⟨fun h => h.elim, fun ⟨_, h, _⟩ => nomatch h⟩
  | some a => exact ⟨fun h => ⟨a, rfl, h⟩, fun ⟨_, h, hq⟩ => by cases h; exact hq⟩

@[simp] theorem wp_orReturn {r : ρ} {x : Option α} :
    wp (orReturn r x : Cmd σ ρ α) Q R w ↔ (∀ a, x = some a → Q a w) ∧ (x = none → R r w) := by
  cases x with
  | none => exact ⟨fun h => ⟨fun _ ha => (nomatch ha), fun _ => h⟩, fun h => h.2 rfl⟩
  | some a => exact ⟨fun h => ⟨fun _ ha => by cases ha; exact h, fun ha => nomatch ha⟩,
      fun h => h.1 a rfl⟩

@[simp] theorem wp_require {r : ρ} {b : Bool} {Q : Unit → σ → Prop} :
    wp (require r b : Cmd σ ρ Unit) Q R w ↔ (b = true → Q () w) ∧ (b = false → R r w) := by
  cases b with
  | true => exact ⟨fun h => ⟨fun _ => h, fun hb => nomatch hb⟩, fun h => h.1 rfl⟩
  | false => exact ⟨fun h => ⟨fun hb => (nomatch hb), fun _ => h⟩, fun h => h.2 rfl⟩

/-- **Calls**: how the body ends, the call goes on. -/
@[simp] theorem wp_fn {ρ' : Type} {body : Cmd σ ρ ρ} {Q : ρ → σ → Prop} {R : ρ' → σ → Prop} :
    wp (fn body : Cmd σ ρ' ρ) Q R w ↔ wp body Q Q w := by
  unfold wp fn
  cases h : body w with
  | mk o w' => cases o <;> rfl

/-- A call through the specification of the function. -/
theorem wp_call {ρ' : Type} {body : Cmd σ ρ ρ} {P Q : ρ → σ → Prop} {R : ρ' → σ → Prop}
    (h : wp body P P w) (hPQ : ∀ r w', P r w' → Q r w') : wp (fn body : Cmd σ ρ' ρ) Q R w :=
  wp_fn.2 (wp_mono h hPQ hPQ)

/-- A body that meets a postcondition returns a value that does. -/
theorem exists_run {body : Cmd σ ρ ρ} {Q : ρ → σ → Prop} (h : wp body Q Q w) :
    ∃ r w', run body w = (some r, w') ∧ Q r w' := by
  unfold wp at h
  unfold run
  cases hb : body w with
  | mk o w' =>
    rw [hb] at h
    cases o with
    | next r => exact ⟨r, w', rfl, h⟩
    | returned r => exact ⟨r, w', rfl, h⟩
    | stuck => exact h.elim

theorem wp_ite {c : Prop} [Decidable c] {m m' : Cmd σ ρ α} :
    wp (if c then m else m') Q R w ↔ (c → wp m Q R w) ∧ (¬c → wp m' Q R w) := by
  by_cases h : c
  · simp [h]
  · simp [h]

end Rules

/-- **Loops.**  `I` holds of the part of the list done and the state; a body may return. -/
theorem wp_each {R : ρ → σ → Prop} {body : α → Cmd σ ρ Unit} (I : List α → σ → Prop)
    (hbody : ∀ (done : List α) (a : α) (w : σ), I done w →
      wp (body a) (fun _ w' => I (done ++ [a]) w') R w) :
    ∀ (l done : List α) (w : σ), I done w →
      wp (each l body) (fun _ w' => I (done ++ l) w') R w := by
  intro l
  induction l with
  | nil =>
    intro done w h
    simpa [each] using h
  | cons a l ih =>
    intro done w h
    rw [each, wp_bind]
    refine wp_mono (hbody done a w h) ?_ (fun _ _ hr => hr)
    intro _ w' h'
    have := ih (done ++ [a]) w' h'
    simpa using this

end EarlyReturn
