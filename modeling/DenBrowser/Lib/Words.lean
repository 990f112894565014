import Mathlib.Data.List.Infix
import Mathlib.Tactic.Common

/-!
# Words in a text

Where a word can stand in a text that is put together from parts.

* `occurs_cons` — a word does not go over a character it does not have;
* `occurs_append` — a word does not overlap a word it is apart from.
-/

set_option autoImplicit false

namespace Words

variable {α : Type} {t v a b c d : List α} {x : α}

/-- A text without a character ends before it. -/
theorem prefix_of_not_mem (hx : x ∉ a) (h : a ++ b = c ++ x :: d) : ∃ e, c = a ++ e := by
  rcases List.append_eq_append_iff.1 h with ⟨e, hc, _⟩ | ⟨e, ha, hxd⟩
  · exact ⟨e, hc⟩
  · cases e with
    | nil => exact ⟨[], by rw [ha]; simp⟩
    | cons y e =>
      obtain ⟨rfl, _⟩ := List.cons.inj hxd
      exact absurd (by rw [ha]; simp) hx

/-- **A word does not go over a character** it does not have. -/
theorem occurs_cons (hx : x ∉ t) (h : c ++ (t ++ d) = a ++ x :: b) :
    (∃ d', a = c ++ (t ++ d') ∧ d = d' ++ x :: b) ∨
      ∃ c', b = c' ++ (t ++ d) ∧ c = a ++ x :: c' := by
  rcases List.append_eq_append_iff.1 h with ⟨a', ha, htd⟩ | ⟨c', hc, hxb⟩
  · rcases List.append_eq_append_iff.1 htd with ⟨a'', ha', hd⟩ | ⟨t', ht, hxb⟩
    · exact Or.inl ⟨a'', by rw [ha, ha'], hd⟩
    · cases t' with
      | nil => exact Or.inl ⟨[], by rw [ha, ht]; simp, hxb.symm⟩
      | cons y t' =>
        obtain ⟨rfl, _⟩ := List.cons.inj hxb
        exact absurd (by rw [ht]; simp) hx
  · cases c' with
    | nil =>
      cases t with
      | nil => exact Or.inl ⟨[], by rw [hc]; simp, hxb.symm⟩
      | cons y t =>
        obtain ⟨rfl, _⟩ := List.cons.inj hxb
        exact absurd List.mem_cons_self hx
    | cons y c' =>
      obtain ⟨rfl, hb⟩ := List.cons.inj hxb
      exact Or.inr ⟨c', hb, hc⟩

theorem infix_cons (hx : x ∉ t) (h : t <:+: a ++ x :: b) : t <:+: a ∨ t <:+: b := by
  obtain ⟨c, d, h⟩ := h
  rw [List.append_assoc] at h
  rcases occurs_cons hx h with ⟨d', ha, _⟩ | ⟨c', hb, _⟩
  · exact Or.inl ⟨c, d', by rw [ha, List.append_assoc]⟩
  · exact Or.inr ⟨c', d, by rw [hb, List.append_assoc]⟩

/-- No end of the first word, but itself, is where the second can begin. -/
def Apart (t v : List α) : Prop :=
  ∀ i < t.length, 0 < i → ¬t.drop i <+: v ∧ ¬v <+: t.drop i

instance [DecidableEq α] (t v : List α) : Decidable (Apart t v) := by
  unfold Apart
  infer_instance

theorem Apart.split (h : Apart t v) {p s : List α} (ht : t = p ++ s) (hp : p ≠ []) (hs : s ≠ []) :
    ¬s <+: v ∧ ¬v <+: s := by
  have hp' := List.length_pos_iff.2 hp
  have hs' := List.length_pos_iff.2 hs
  have hlen : p.length < t.length := by
    rw [ht, List.length_append]
    omega
  have h := h p.length hlen hp'
  rw [ht, List.drop_left] at h
  exact h

/-- Of two beginnings of one text, one begins the other. -/
theorem comparable (h : t ++ d = v ++ b) : t <+: v ∨ v <+: t :=
  List.prefix_or_prefix_of_prefix (List.prefix_append t d) (h ▸ List.prefix_append v b)

/-- **A word does not overlap** a word it is apart from. -/
theorem occurs_append (htv : Apart t v) (hvt : Apart v t) (h : c ++ (t ++ d) = a ++ (v ++ b)) :
    (∃ d', a = c ++ (t ++ d') ∧ d = d' ++ (v ++ b)) ∨ (c = a ∧ (t <+: v ∨ v <+: t)) ∨
      ∃ c', b = c' ++ (t ++ d) ∧ c = a ++ (v ++ c') := by
  rcases List.append_eq_append_iff.1 h with ⟨a', ha, htd⟩ | ⟨c', hc, hvb⟩
  · cases a' with
    | nil => exact Or.inr (Or.inl ⟨by rw [ha, List.append_nil], comparable htd⟩)
    | cons y a' =>
      rcases List.append_eq_append_iff.1 htd with ⟨a'', ha', hd⟩ | ⟨t', ht, hvb⟩
      · exact Or.inl ⟨a'', by rw [ha, ha'], hd⟩
      · cases t' with
        | nil => exact Or.inl ⟨[], by rw [ha, ht]; simp, hvb.symm⟩
        | cons z t' =>
          have hapart := htv.split ht (by simp) (by simp)
          rcases comparable hvb with h | h
          · exact absurd h hapart.2
          · exact absurd h hapart.1
  · cases c' with
    | nil => exact Or.inr (Or.inl ⟨by rw [hc, List.append_nil], comparable hvb.symm⟩)
    | cons y c' =>
      rcases List.append_eq_append_iff.1 hvb with ⟨c'', hc', hb⟩ | ⟨v', hv, htd⟩
      · exact Or.inr (Or.inr ⟨c'', hb, by rw [hc, hc']⟩)
      · cases v' with
        | nil => exact Or.inr (Or.inr ⟨[], htd.symm, by rw [hc, hv]; simp⟩)
        | cons z v' =>
          have hapart := hvt.split hv (by simp) (by simp)
          rcases comparable htd with h | h
          · exact absurd h hapart.2
          · exact absurd h hapart.1

/-- Two words of which none begins within the other. -/
structure Distinct (t v : List α) : Prop where
  left : Apart t v
  right : Apart v t
  not_prefix : ¬t <+: v
  not_prefix' : ¬v <+: t

theorem Distinct.symm (h : Distinct t v) : Distinct v t :=
  ⟨h.right, h.left, h.not_prefix', h.not_prefix⟩

/-- **A word stands on one side** of a word it is distinct from. -/
theorem Distinct.occurs (htv : Distinct t v) (h : a ++ (v ++ b) = c ++ (t ++ d)) :
    (∃ d', a = c ++ (t ++ d') ∧ d = d' ++ (v ++ b)) ∨
      ∃ c', b = c' ++ (t ++ d) ∧ c = a ++ (v ++ c') := by
  rcases occurs_append htv.left htv.right h.symm with h | ⟨_, hp | hp⟩ | h
  · exact Or.inl h
  · exact absurd hp htv.not_prefix
  · exact absurd hp htv.not_prefix'
  · exact Or.inr h

theorem infix_append (htv : Distinct t v) (h : t <:+: a ++ (v ++ b)) : t <:+: a ∨ t <:+: b := by
  obtain ⟨c, d, h⟩ := h
  rw [List.append_assoc] at h
  rcases htv.occurs h.symm with ⟨d', ha, _⟩ | ⟨c', hb, _⟩
  · exact Or.inl ⟨c, d', by rw [ha, List.append_assoc]⟩
  · exact Or.inr ⟨c', d, by rw [hb, List.append_assoc]⟩

end Words
