import Mathlib.Tactic.Common

/-!
# Scripts that can be interrupted

A script is a list of tasks.  Executing one changes the state and may put further tasks before
those that are left; a task that fails ends the script, and so does an interruption, which leaves
a task partly done.  Scripts are started one after the other, as often as one likes.

* `Reaches` — what can be reached when every task that is begun meets a condition;
* `Invariant.reaches` — an invariant between scripts and one within them hold throughout;
* `Settles` — an execution that nothing interrupts.
-/

set_option autoImplicit false

namespace ScriptLib

/-- `exec` is what a task does, `.error` where it fails; `partway` relates the states before and
after a task that was interrupted. -/
structure Script (ι τ σ : Type) where
  begin : ι → σ → σ
  tasks : ι → List τ
  exec : ι → τ → σ → Except σ (σ × List τ)
  partway : ι → τ → σ → σ → Prop

variable {ι τ σ : Type}

/-- Between scripts there is only the state. -/
inductive Config (ι τ σ : Type) where
  | between (s : σ)
  | within (i : ι) (todo : List τ) (s : σ)

/-- `Reaches S C s₀ c`: from `s₀` the configuration `c` can be reached, and every task that was
begun met the condition `C` in the state before it. -/
inductive Reaches (S : Script ι τ σ) (C : ι → τ → σ → Prop) (s₀ : σ) : Config ι τ σ → Prop
  | init : Reaches S C s₀ (.between s₀)
  | start {s : σ} (i : ι) : Reaches S C s₀ (.between s) →
      Reaches S C s₀ (.within i (S.tasks i) (S.begin i s))
  | done {s s' : σ} {i : ι} {t : τ} {todo new : List τ} :
      Reaches S C s₀ (.within i (t :: todo) s) → C i t s → S.exec i t s = .ok (s', new) →
      Reaches S C s₀ (.within i (new ++ todo) s')
  | failed {s s' : σ} {i : ι} {t : τ} {todo : List τ} :
      Reaches S C s₀ (.within i (t :: todo) s) → C i t s → S.exec i t s = .error s' →
      Reaches S C s₀ (.between s')
  | interrupted {s s' : σ} {i : ι} {t : τ} {todo : List τ} :
      Reaches S C s₀ (.within i (t :: todo) s) → C i t s → S.partway i t s s' →
      Reaches S C s₀ (.between s')
  | finished {s : σ} {i : ι} : Reaches S C s₀ (.within i [] s) → Reaches S C s₀ (.between s)

/-- `J` is to hold between scripts, and `K` of the tasks left within one. -/
structure Invariant (S : Script ι τ σ) (C : ι → τ → σ → Prop) (J : σ → Prop)
    (K : ι → List τ → σ → Prop) : Prop where
  start : ∀ i s, J s → K i (S.tasks i) (S.begin i s)
  done : ∀ i t todo s s' new, K i (t :: todo) s → C i t s → S.exec i t s = .ok (s', new) →
    K i (new ++ todo) s'
  failed : ∀ i t todo s s', K i (t :: todo) s → C i t s → S.exec i t s = .error s' → J s'
  interrupted : ∀ i t todo s s', K i (t :: todo) s → C i t s → S.partway i t s s' → J s'
  finished : ∀ i s, K i [] s → J s

def Config.Satisfies (J : σ → Prop) (K : ι → List τ → σ → Prop) : Config ι τ σ → Prop
  | .between s => J s
  | .within i todo s => K i todo s

/-- **Invariants of scripts.** -/
theorem Invariant.reaches {S : Script ι τ σ} {C : ι → τ → σ → Prop} {J : σ → Prop}
    {K : ι → List τ → σ → Prop} (h : Invariant S C J K) {s₀ : σ} (h₀ : J s₀)
    {c : Config ι τ σ} (hr : Reaches S C s₀ c) : c.Satisfies J K := by
  induction hr with
  | init => exact h₀
  | start i _ ih => exact h.start i _ ih
  | done _ hC he ih => exact h.done _ _ _ _ _ _ ih hC he
  | failed _ hC he ih => exact h.failed _ _ _ _ _ ih hC he
  | interrupted _ hC hp ih => exact h.interrupted _ _ _ _ _ ih hC hp
  | finished _ ih => exact h.finished _ _ ih

/-- Executed without interruption, the tasks end in this state: all are done, or one failed. -/
inductive Settles (S : Script ι τ σ) (i : ι) : List τ → σ → σ → Prop
  | nil (s : σ) : Settles S i [] s s
  | done {s s' s'' : σ} {t : τ} {todo new : List τ} (he : S.exec i t s = .ok (s', new))
      (h : Settles S i (new ++ todo) s' s'') : Settles S i (t :: todo) s s''
  | failed {s s' : σ} {t : τ} {todo : List τ} (he : S.exec i t s = .error s') :
      Settles S i (t :: todo) s s'

/-- A task on its own. -/
theorem Settles.single {S : Script ι τ σ} {i : ι} {t : τ} {new : List τ} {s s' s'' : σ}
    (he : S.exec i t s = .ok (s', new)) (h : Settles S i new s' s'') :
    Settles S i [t] s s'' :=
  .done he (by rwa [List.append_nil])

end ScriptLib
