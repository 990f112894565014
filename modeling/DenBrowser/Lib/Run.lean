import Mathlib.Data.List.Induction
import Mathlib.Tactic.TypeStar

/-!
# Runs of labelled machines

A `System` is a deterministic labelled machine: a step consumes an input, may be disabled
(`none`), and emits an output.  A run is recorded as its trace, the list of the inputs with
the outputs they produced.

* `Run.invariant_under` — the induction rule: a property of the trace and the state that
  holds initially and is kept by every step holds of every run that satisfies an assumption
  `A`, provided `A` passes to initial segments.
* `Run.invariant` — the same without an assumption.
* `Run.initial_segment` — every initial segment of a run is a run.
* `Meets` — every step of a run satisfies a condition on its input and the state before it.
* `Run.meets_iff` — a step-wise equivalence between such a condition and a property of what
  the step shows holds of whole runs.
* `exec_run` — the executable runner only produces runs.
-/

set_option autoImplicit false

namespace RunLib

variable {σ ι ω : Type*}

/-- A deterministic labelled machine with partial steps. -/
structure System (σ ι ω : Type*) where
  init : σ
  step : σ → ι → Option (σ × ω)

/-- `Run S tr s`: from the initial state, the inputs of `tr` are enabled one after the other,
produce the outputs of `tr` and lead to `s`. -/
inductive Run (S : System σ ι ω) : List (ι × ω) → σ → Prop
  | init : Run S [] S.init
  | snoc {tr : List (ι × ω)} {s s' : σ} {i : ι} {o : ω} :
      Run S tr s → S.step s i = some (s', o) → Run S (tr ++ [(i, o)]) s'

namespace Run

variable {S : System σ ι ω}

/-- **Invariants under an assumption on the trace.** -/
theorem invariant_under (A : List (ι × ω) → Prop) (P : List (ι × ω) → σ → Prop)
    (hA : ∀ tr e, A (tr ++ [e]) → A tr) (h0 : P [] S.init)
    (hstep : ∀ tr s i s' o, Run S tr s → P tr s → A (tr ++ [(i, o)]) →
      S.step s i = some (s', o) → P (tr ++ [(i, o)]) s')
    {tr : List (ι × ω)} {s : σ} (h : Run S tr s) : A tr → P tr s := by
  induction h with
  | init => intro _; exact h0
  | snoc hr hs ih => intro hAe; exact hstep _ _ _ _ _ hr (ih (hA _ _ hAe)) hAe hs

/-- **Invariants of all runs.** -/
theorem invariant (P : List (ι × ω) → σ → Prop) (h0 : P [] S.init)
    (hstep : ∀ tr s i s' o, Run S tr s → P tr s → S.step s i = some (s', o) →
      P (tr ++ [(i, o)]) s')
    {tr : List (ι × ω)} {s : σ} (h : Run S tr s) : P tr s :=
  invariant_under (fun _ => True) P (fun _ _ _ => trivial) h0
    (fun tr s i s' o hr hp _ hs => hstep tr s i s' o hr hp hs) h trivial

/-- The last step of a nonempty run. -/
theorem last {tr : List (ι × ω)} {i : ι} {o : ω} {s' : σ} (h : Run S (tr ++ [(i, o)]) s') :
    ∃ s, Run S tr s ∧ S.step s i = some (s', o) := by
  generalize ht : tr ++ [(i, o)] = t at h
  cases h with
  | init => simp at ht
  | snoc hr hs =>
    obtain ⟨rfl, he⟩ := List.append_inj' ht rfl
    simp only [List.cons.injEq, Prod.mk.injEq, and_true] at he
    obtain ⟨rfl, rfl⟩ := he
    exact ⟨_, hr, hs⟩

/-- Every initial segment of a run is a run. -/
theorem initial_segment (tr₁ : List (ι × ω)) : ∀ {tr₂ : List (ι × ω)} {s : σ},
    Run S (tr₁ ++ tr₂) s → ∃ m, Run S tr₁ m := by
  intro tr₂
  induction tr₂ using List.reverseRecOn with
  | nil => intro s h; exact ⟨s, by simpa using h⟩
  | append_singleton tr₂ e ih =>
    intro s h
    rw [← List.append_assoc] at h
    obtain ⟨m, hm, _⟩ := last h
    exact ih hm

/-- The state a run reaches is determined by its trace. -/
theorem state_unique {tr : List (ι × ω)} : ∀ {s t : σ}, Run S tr s → Run S tr t → s = t := by
  induction tr using List.reverseRecOn with
  | nil =>
    have hinit : ∀ {u : σ} {l : List (ι × ω)}, Run S l u → l = [] → u = S.init := by
      intro u l h hl
      cases h with
      | init => rfl
      | snoc _ _ => simp at hl
    intro s t hs ht
    rw [hinit hs rfl, hinit ht rfl]
  | append_singleton tr e ih =>
    intro s t hs ht
    obtain ⟨s₀, hs₀, hs₁⟩ := last hs
    obtain ⟨t₀, ht₀, ht₁⟩ := last ht
    rw [ih hs₀ ht₀, ht₁] at hs₁
    simpa using (Prod.mk.inj (Option.some.inj hs₁)).1.symm

end Run

/-- Every step of the run with trace `tr` satisfies `C` on the state before it and its
input. -/
def Meets (S : System σ ι ω) (C : σ → ι → Prop) (tr : List (ι × ω)) : Prop :=
  ∀ tr₁ i o tr₂ s, tr = tr₁ ++ (i, o) :: tr₂ → Run S tr₁ s → C s i

theorem Meets.of_append {S : System σ ι ω} {C : σ → ι → Prop} {tr : List (ι × ω)} {e : ι × ω}
    (h : Meets S C (tr ++ [e])) : Meets S C tr := by
  intro tr₁ i o tr₂ s ht hr
  exact h tr₁ i o (tr₂ ++ [e]) s (by rw [ht]; simp) hr

theorem Meets.last {S : System σ ι ω} {C : σ → ι → Prop} {tr : List (ι × ω)} {i : ι} {o : ω}
    {s : σ} (h : Meets S C (tr ++ [(i, o)])) (hr : Run S tr s) : C s i :=
  h tr i o [] s rfl hr

/-- **Conditions on steps and properties of what they show.**  When each step satisfies `C`
exactly if its input and output satisfy `Q`, so does each run. -/
theorem Run.meets_iff {S : System σ ι ω} {C : σ → ι → Prop} {Q : ι × ω → Prop}
    (hstep : ∀ {tr s i s' o}, Run S tr s → S.step s i = some (s', o) → (C s i ↔ Q (i, o)))
    {tr : List (ι × ω)} {s : σ} (h : Run S tr s) : Meets S C tr ↔ ∀ e ∈ tr, Q e := by
  constructor
  · intro hm
    induction h with
    | init =>
      intro e he
      cases he
    | @snoc tr s s' i o hr hs ih =>
      intro e he
      rcases List.mem_append.1 he with he | he
      · exact ih hm.of_append e he
      · rw [List.mem_singleton.1 he]
        exact (hstep hr hs).1 (hm.last hr)
  · intro hq tr₁ i o tr₂ s₁ ht hr
    have hsplit : tr = (tr₁ ++ [(i, o)]) ++ tr₂ := by
      rw [ht]
      simp
    rw [hsplit] at h
    obtain ⟨m, hm⟩ := initial_segment _ h
    obtain ⟨s₂, hr₂, hs⟩ := Run.last hm
    have heq : s₁ = s₂ := state_unique hr hr₂
    rw [heq]
    refine (hstep hr₂ hs).2 (hq _ ?_)
    rw [ht]
    simp

/-- Run a list of inputs from `s`, collecting the trace. -/
def execFrom (S : System σ ι ω) : σ → List ι → Option (List (ι × ω) × σ)
  | s, [] => some ([], s)
  | s, i :: l =>
    match S.step s i with
    | none => none
    | some (s', o) => (execFrom S s' l).map fun p => ((i, o) :: p.1, p.2)

/-- Run a list of inputs from the initial state. -/
def exec (S : System σ ι ω) (l : List ι) : Option (List (ι × ω) × σ) := execFrom S S.init l

theorem execFrom_run {S : System σ ι ω} : ∀ {l : List ι} {s : σ} {tr₀ tr : List (ι × ω)}
    {s' : σ}, Run S tr₀ s → execFrom S s l = some (tr, s') → Run S (tr₀ ++ tr) s'
  | [], s, tr₀, tr, s', h₀, h => by
    simp only [execFrom, Option.some.injEq, Prod.mk.injEq] at h
    obtain ⟨rfl, rfl⟩ := h
    simpa using h₀
  | i :: l, s, tr₀, tr, s', h₀, h => by
    simp only [execFrom] at h
    split at h
    · cases h
    · rename_i s₁ o hs
      obtain ⟨⟨tr₁, s₂⟩, hrest, he⟩ := Option.map_eq_some_iff.1 h
      simp only [Prod.mk.injEq] at he
      obtain ⟨rfl, rfl⟩ := he
      have := execFrom_run (h₀.snoc hs) hrest
      simpa using this

/-- The executable runner only produces runs. -/
theorem exec_run {S : System σ ι ω} {l : List ι} {tr : List (ι × ω)} {s : σ}
    (h : exec S l = some (tr, s)) : Run S tr s := by
  simpa using execFrom_run Run.init h

/-- The trace has the inputs that were given. -/
theorem execFrom_inputs {S : System σ ι ω} : ∀ {l : List ι} {s s' : σ} {tr : List (ι × ω)},
    execFrom S s l = some (tr, s') → tr.map Prod.fst = l
  | [], s, s', tr, h => by
    simp only [execFrom, Option.some.injEq, Prod.mk.injEq] at h
    rw [← h.1, List.map_nil]
  | i :: l, s, s', tr, h => by
    simp only [execFrom] at h
    split at h
    · cases h
    · obtain ⟨⟨tr₁, s₂⟩, hrest, he⟩ := Option.map_eq_some_iff.1 h
      simp only [Prod.mk.injEq] at he
      rw [← he.1, List.map_cons, execFrom_inputs hrest]

end RunLib
