import Mathlib.Data.List.Infix
import Mathlib.Tactic.Common

/-!
# Backtracking patterns

A pattern lists its matches at the head of a text in the order in which a backtracking search
meets them; the match of a regular expression is the first of them.

* `mem_many`, `mem_lit`, `mem_bind` — what matches, whatever the order;
* `bind_many_possessive` — a greedy run is taken whole when what follows cannot start in it;
* `head_bind_many`, `head_bind_manyLazy` — the first match takes the longest run that works for a
  greedy repetition, the shortest for a lazy one.
-/

set_option autoImplicit false

namespace Backtrack

variable {τ α β : Type}

/-- What is captured and the text after it, in the order of the search. -/
def Pat (τ α : Type) : Type := List τ → List (α × List τ)

/-- The match of the pattern at the head of the text. -/
def Pat.first (p : Pat τ α) (s : List τ) : Option α := ((p s).head?).map Prod.fst

instance : Monad (Pat τ) where
  pure a := fun s => [(a, s)]
  bind p f := fun s => (p s).flatMap fun m => f m.1 m.2

theorem bind_apply (p : Pat τ α) (f : α → Pat τ β) (s : List τ) :
    (p >>= f) s = (p s).flatMap fun m => f m.1 m.2 := rfl

theorem mem_bind {p : Pat τ α} {f : α → Pat τ β} {s : List τ} {m : β × List τ} :
    m ∈ (p >>= f) s ↔ ∃ a mid, (a, mid) ∈ p s ∧ m ∈ f a mid := by
  rw [bind_apply, List.mem_flatMap]
  constructor
  · rintro ⟨⟨a, mid⟩, hp, hf⟩
    exact ⟨a, mid, hp, hf⟩
  · rintro ⟨a, mid, hp, hf⟩
    exact ⟨(a, mid), hp, hf⟩

/-! ## Literals, options, the end of the text -/

/-- The literal text `w`. -/
def lit [DecidableEq τ] (w : List τ) : Pat τ Unit := fun s =>
  if w <+: s then [((), s.drop w.length)] else []

/-- `p?`, greedy. -/
def opt (p : Pat τ α) : Pat τ (Option α) := fun s =>
  (p s).map (fun m => (some m.1, m.2)) ++ [(none, s)]

/-- `$`: the end of the text, or the newline that ends it. -/
def atEnd [DecidableEq τ] (newline : τ) : Pat τ Unit := fun s =>
  if s = [] ∨ s = [newline] then [((), s)] else []

theorem mem_opt {p : Pat τ α} {s : List τ} {m : Option α × List τ} :
    m ∈ opt p s ↔ (∃ a, m.1 = some a ∧ (a, m.2) ∈ p s) ∨ m = (none, s) := by
  unfold opt
  rw [List.mem_append, List.mem_singleton, List.mem_map]
  constructor
  · rintro (⟨⟨a, rest⟩, hp, rfl⟩ | h)
    · exact Or.inl ⟨a, rfl, hp⟩
    · exact Or.inr h
  · rintro (⟨a, ha, hp⟩ | h)
    · exact Or.inl ⟨(a, m.2), hp, Prod.ext ha.symm rfl⟩
    · exact Or.inr h

section Literals

variable [DecidableEq τ]

theorem mem_lit {w s : List τ} {m : Unit × List τ} : m ∈ lit w s ↔ s = w ++ m.2 := by
  unfold lit
  split
  · rename_i h
    obtain ⟨rest, rfl⟩ := h
    rw [List.drop_left, List.mem_singleton]
    constructor
    · rintro rfl
      rfl
    · intro h
      exact Prod.ext rfl (List.append_cancel_left h).symm
  · rename_i h
    constructor
    · intro hm
      cases hm
    · intro hs
      exact absurd ⟨m.2, hs.symm⟩ h

@[simp] theorem lit_append (w rest : List τ) : lit w (w ++ rest) = [((), rest)] := by
  unfold lit
  rw [if_pos (List.prefix_append w rest), List.drop_left]

theorem lit_cons_ne {c d : τ} (h : c ≠ d) (w rest : List τ) : lit (c :: w) (d :: rest) = [] := by
  unfold lit
  rw [if_neg]
  rintro ⟨tail, htail⟩
  rw [List.cons_append] at htail
  exact h (List.cons.inj htail).1

theorem bind_lit_append (w rest : List τ) (f : Unit → Pat τ β) :
    (lit w >>= f) (w ++ rest) = f () rest := by
  rw [bind_apply, lit_append, List.flatMap_singleton]

theorem bind_lit_cons (c : τ) (rest : List τ) (f : Unit → Pat τ β) :
    (lit [c] >>= f) (c :: rest) = f () rest := bind_lit_append [c] rest f

theorem bind_lit_cons_ne {c d : τ} (h : c ≠ d) (w rest : List τ) (f : Unit → Pat τ β) :
    (lit (c :: w) >>= f) (d :: rest) = [] := by
  rw [bind_apply, lit_cons_ne h, List.flatMap_nil]

theorem mem_atEnd {n : τ} {s : List τ} {m : Unit × List τ} :
    m ∈ atEnd n s ↔ (s = [] ∨ s = [n]) ∧ m.2 = s := by
  unfold atEnd
  split
  · rename_i h
    rw [List.mem_singleton]
    constructor
    · rintro rfl
      exact ⟨h, rfl⟩
    · rintro ⟨_, hm⟩
      exact Prod.ext rfl hm
  · rename_i h
    constructor
    · intro hm
      cases hm
    · rintro ⟨hs, _⟩
      exact absurd hs h

end Literals

/-! ## Repetitions -/

/-- `p*`, greedy: the longest run first. -/
def many (p : τ → Bool) : Pat τ (List τ)
  | [] => [([], [])]
  | c :: s =>
    if p c then ((many p s).map fun m => (c :: m.1, m.2)) ++ [([], c :: s)] else [([], c :: s)]

/-- `p*?`: the shortest run first. -/
def manyLazy (p : τ → Bool) : Pat τ (List τ)
  | [] => [([], [])]
  | c :: s => ([], c :: s) :: if p c then (manyLazy p s).map fun m => (c :: m.1, m.2) else []

/-- `p+`, greedy. -/
def many1 (p : τ → Bool) : Pat τ (List τ)
  | [] => []
  | c :: s => if p c then (many p s).map fun m => (c :: m.1, m.2) else []

/-- `p+?`. -/
def many1Lazy (p : τ → Bool) : Pat τ (List τ)
  | [] => []
  | c :: s => if p c then (manyLazy p s).map fun m => (c :: m.1, m.2) else []

variable {p : τ → Bool}

theorem many_cons (c : τ) (s : List τ) :
    many p (c :: s) = if p c then ((many p s).map fun m => (c :: m.1, m.2)) ++ [([], c :: s)]
      else [([], c :: s)] := rfl

theorem manyLazy_cons (c : τ) (s : List τ) :
    manyLazy p (c :: s) =
      ([], c :: s) :: if p c then (manyLazy p s).map fun m => (c :: m.1, m.2) else [] := rfl

theorem many1_cons (c : τ) (s : List τ) :
    many1 p (c :: s) = if p c then (many p s).map fun m => (c :: m.1, m.2) else [] := rfl

theorem many1Lazy_cons (c : τ) (s : List τ) :
    many1Lazy p (c :: s) = if p c then (manyLazy p s).map fun m => (c :: m.1, m.2) else [] := rfl

theorem mem_many {s : List τ} {m : List τ × List τ} :
    m ∈ many p s ↔ s = m.1 ++ m.2 ∧ ∀ c ∈ m.1, p c = true := by
  induction s generalizing m with
  | nil =>
    obtain ⟨w, rest⟩ := m
    simp only [many, List.mem_singleton, Prod.mk.injEq]
    constructor
    · rintro ⟨rfl, rfl⟩
      simp
    · rintro ⟨h, _⟩
      exact List.append_eq_nil_iff.1 h.symm
  | cons c s ih =>
    obtain ⟨w, rest⟩ := m
    have hnil : (w, rest) = ([], c :: s) → c :: s = w ++ rest ∧ ∀ d ∈ w, p d = true := by
      intro h
      obtain ⟨rfl, rfl⟩ := Prod.mk.inj h
      simp
    rw [many_cons]
    split
    · rename_i hc
      rw [List.mem_append, List.mem_map, List.mem_singleton]
      constructor
      · rintro (⟨⟨v, tail⟩, hv, heq⟩ | h)
        · obtain ⟨rfl, rfl⟩ := Prod.mk.inj heq
          obtain ⟨hs, hall⟩ := ih.1 hv
          exact ⟨congrArg (c :: ·) hs, List.forall_mem_cons.2 ⟨hc, hall⟩⟩
        · exact hnil h
      · rintro ⟨hs, hall⟩
        cases w with
        | nil => exact Or.inr (Prod.ext rfl hs.symm)
        | cons d v =>
          obtain ⟨rfl, htail⟩ := List.cons.inj hs
          exact Or.inl ⟨(v, rest), ih.2 ⟨htail, (List.forall_mem_cons.1 hall).2⟩, rfl⟩
    · rename_i hc
      rw [List.mem_singleton]
      constructor
      · exact hnil
      · rintro ⟨hs, hall⟩
        cases w with
        | nil => exact Prod.ext rfl hs.symm
        | cons d v =>
          obtain ⟨rfl, _⟩ := List.cons.inj hs
          exact absurd (List.forall_mem_cons.1 hall).1 hc

/-! ## The order of the search -/

/-- The text does not start with a token of `p`. -/
def StopsAt (p : τ → Bool) (s : List τ) : Prop := ∀ c rest, s = c :: rest → p c = false

theorem stopsAt_cons {c : τ} (h : p c = false) (rest : List τ) : StopsAt p (c :: rest) := by
  intro d tail heq
  obtain ⟨rfl, _⟩ := List.cons.inj heq
  exact h

theorem many_of_stopsAt {s : List τ} (h : StopsAt p s) : many p s = [([], s)] := by
  cases s with
  | nil => rfl
  | cons c rest =>
    rw [many_cons, if_neg]
    simp [h c rest rfl]

/-- The matches of a greedy run start with the longest. -/
theorem many_append {w rest : List τ} (hw : ∀ c ∈ w, p c = true) (hrest : StopsAt p rest) :
    ∃ shorter, many p (w ++ rest) = (w, rest) :: shorter ∧
      ∀ m ∈ shorter, ∃ c tail, m.2 = c :: tail ∧ p c = true := by
  induction w with
  | nil => exact ⟨[], many_of_stopsAt hrest, by simp⟩
  | cons c w ih =>
    obtain ⟨hc, htail⟩ := List.forall_mem_cons.1 hw
    obtain ⟨shorter, heq, hshort⟩ := ih htail
    refine ⟨(shorter.map fun m => (c :: m.1, m.2)) ++ [([], c :: (w ++ rest))], ?_, ?_⟩
    · rw [List.cons_append, many_cons, if_pos hc, heq]
      rfl
    · intro m hm
      rcases List.mem_append.1 hm with h | h
      · obtain ⟨m', hm', rfl⟩ := List.mem_map.1 h
        exact hshort m' hm'
      · rw [List.mem_singleton] at h
        subst h
        exact ⟨c, w ++ rest, rfl, hc⟩

/-- **A greedy run is possessive** when what follows it cannot start in it. -/
theorem bind_many_possessive {f : List τ → Pat τ β} {w rest : List τ} (hw : ∀ c ∈ w, p c = true)
    (hrest : StopsAt p rest) (hf : ∀ u c tail, p c = true → f u (c :: tail) = []) :
    (many p >>= f) (w ++ rest) = f w rest := by
  obtain ⟨shorter, heq, hshort⟩ := many_append hw hrest
  have hnone : shorter.flatMap (fun m => f m.1 m.2) = [] := by
    rw [List.flatMap_eq_nil_iff]
    intro m hm
    obtain ⟨c, tail, hm2, hc⟩ := hshort m hm
    rw [hm2]
    exact hf m.1 c tail hc
  rw [bind_apply, heq, List.flatMap_cons, hnone, List.append_nil]

theorem bind_many1_possessive {f : List τ → Pat τ β} {w rest : List τ}
    (hw : ∀ c ∈ w, p c = true) (hne : w ≠ []) (hrest : StopsAt p rest)
    (hf : ∀ u c tail, p c = true → f u (c :: tail) = []) :
    (many1 p >>= f) (w ++ rest) = f w rest := by
  cases w with
  | nil => exact absurd rfl hne
  | cons c w =>
    obtain ⟨hc, htail⟩ := List.forall_mem_cons.1 hw
    have hrun := bind_many_possessive (f := fun u => f (c :: u)) htail hrest
      (fun u d tail hd => hf (c :: u) d tail hd)
    rw [bind_apply] at hrun ⊢
    rw [List.cons_append, many1_cons, if_pos hc, List.flatMap_map]
    exact hrun

theorem head_append_of_ne_nil {l r : List α} (h : l ≠ []) : (l ++ r).head? = l.head? := by
  cases l with
  | nil => exact absurd rfl h
  | cons a l => rfl

/-- **A greedy repetition takes the longest run**, when that one works. -/
theorem head_bind_many {f : List τ → Pat τ β} {w rest : List τ} (hw : ∀ c ∈ w, p c = true)
    (hrest : StopsAt p rest) (hf : f w rest ≠ []) :
    ((many p >>= f) (w ++ rest)).head? = (f w rest).head? := by
  obtain ⟨shorter, heq, _⟩ := many_append hw hrest
  rw [bind_apply, heq, List.flatMap_cons]
  exact head_append_of_ne_nil hf

/-- **A lazy repetition takes the shortest run** that works. -/
theorem head_bind_manyLazy {f : List τ → Pat τ β} {w rest : List τ} (hw : ∀ c ∈ w, p c = true)
    (hf : f w rest ≠ [])
    (hshorter : ∀ u v, w = u ++ v → v ≠ [] → f u (v ++ rest) = []) :
    ((manyLazy p >>= f) (w ++ rest)).head? = (f w rest).head? := by
  induction w generalizing f with
  | nil =>
    rw [bind_apply, List.nil_append]
    cases rest with
    | nil => exact head_append_of_ne_nil hf
    | cons c rest => exact head_append_of_ne_nil hf
  | cons c w ih =>
    obtain ⟨hc, htail⟩ := List.forall_mem_cons.1 hw
    have hnow : f [] (c :: (w ++ rest)) = [] := hshorter [] (c :: w) rfl (List.cons_ne_nil _ _)
    have hrun := ih (f := fun u => f (c :: u)) htail hf
      (fun u v huv hv => hshorter (c :: u) v (by rw [huv, List.cons_append]) hv)
    rw [bind_apply] at hrun ⊢
    rw [List.cons_append, manyLazy_cons, if_pos hc, List.flatMap_cons, hnow, List.nil_append,
      List.flatMap_map]
    exact hrun

theorem head_bind_many1Lazy {f : List τ → Pat τ β} {c : τ} {w rest : List τ}
    (hw : ∀ d ∈ c :: w, p d = true) (hf : f (c :: w) rest ≠ [])
    (hshorter : ∀ u v, w = u ++ v → v ≠ [] → f (c :: u) (v ++ rest) = []) :
    ((many1Lazy p >>= f) (c :: w ++ rest)).head? = (f (c :: w) rest).head? := by
  obtain ⟨hc, htail⟩ := List.forall_mem_cons.1 hw
  have hrun := head_bind_manyLazy (f := fun u => f (c :: u)) htail hf hshorter
  rw [bind_apply] at hrun ⊢
  rw [List.cons_append, many1Lazy_cons, if_pos hc, List.flatMap_map]
  exact hrun

end Backtrack
