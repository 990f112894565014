import Mathlib.Data.List.Nodup
import Mathlib.Tactic.Common

/-!
# Trees of arrays and keyed tables

The values of a configuration language: leaves, arrays and tables.  A leaf is told by its
address, the indices and keys that lead to it.

* `leaves_mapLeaves` — mapping over the leaves keeps the addresses, in their order;
* `mapLeaves_mapLeaves` — two mappings are one;
* `nodup_addresses` — where a table has no key twice, no two leaves share an address.
-/

set_option autoImplicit false

/-- A tree whose leaves hold an `α` and whose tables have keys of type `κ`. -/
inductive KeyedTree (κ α : Type) where
  | leaf (a : α)
  | array (items : List (KeyedTree κ α))
  | table (entries : List (κ × KeyedTree κ α))

namespace KeyedTree

/-- One step down from an array or a table. -/
inductive Step (κ : Type) where
  | index (i : Nat)
  | key (k : κ)
  deriving DecidableEq

variable {κ α β γ : Type}

/-! ## Leaves -/

mutual

/-- The leaves below an address, in order. -/
def leaves (pre : List (Step κ)) : KeyedTree κ α → List (List (Step κ) × α)
  | .leaf a => [(pre, a)]
  | .array items => leavesItems pre 0 items
  | .table entries => leavesEntries pre entries

def leavesItems (pre : List (Step κ)) : Nat → List (KeyedTree κ α) → List (List (Step κ) × α)
  | _, [] => []
  | i, item :: items => leaves (pre ++ [.index i]) item ++ leavesItems pre (i + 1) items

def leavesEntries (pre : List (Step κ)) :
    List (κ × KeyedTree κ α) → List (List (Step κ) × α)
  | [] => []
  | (k, value) :: entries => leaves (pre ++ [.key k]) value ++ leavesEntries pre entries

end

/-! ## Mapping -/

mutual

/-- Each leaf replaced, by a function that is told the leaf's address. -/
def mapLeaves (f : List (Step κ) → α → β) (pre : List (Step κ)) : KeyedTree κ α → KeyedTree κ β
  | .leaf a => .leaf (f pre a)
  | .array items => .array (mapItems f pre 0 items)
  | .table entries => .table (mapEntries f pre entries)

def mapItems (f : List (Step κ) → α → β) (pre : List (Step κ)) :
    Nat → List (KeyedTree κ α) → List (KeyedTree κ β)
  | _, [] => []
  | i, item :: items => mapLeaves f (pre ++ [.index i]) item :: mapItems f pre (i + 1) items

def mapEntries (f : List (Step κ) → α → β) (pre : List (Step κ)) :
    List (κ × KeyedTree κ α) → List (κ × KeyedTree κ β)
  | [] => []
  | (k, value) :: entries =>
    (k, mapLeaves f (pre ++ [.key k]) value) :: mapEntries f pre entries

end

mutual

theorem leaves_mapLeaves (f : List (Step κ) → α → β) (pre : List (Step κ)) :
    ∀ t : KeyedTree κ α,
      leaves pre (mapLeaves f pre t) = (leaves pre t).map fun x => (x.1, f x.1 x.2)
  | .leaf a => by simp [leaves, mapLeaves]
  | .array items => by
    simp only [leaves, mapLeaves]
    exact leavesItems_mapItems f pre 0 items
  | .table entries => by
    simp only [leaves, mapLeaves]
    exact leavesEntries_mapEntries f pre entries

theorem leavesItems_mapItems (f : List (Step κ) → α → β) (pre : List (Step κ)) :
    ∀ (i : Nat) (items : List (KeyedTree κ α)),
      leavesItems pre i (mapItems f pre i items) =
        (leavesItems pre i items).map fun x => (x.1, f x.1 x.2)
  | _, [] => by simp [leavesItems, mapItems]
  | i, item :: items => by
    simp only [leavesItems, mapItems, List.map_append]
    rw [leaves_mapLeaves f _ item, leavesItems_mapItems f pre (i + 1) items]

theorem leavesEntries_mapEntries (f : List (Step κ) → α → β) (pre : List (Step κ)) :
    ∀ entries : List (κ × KeyedTree κ α),
      leavesEntries pre (mapEntries f pre entries) =
        (leavesEntries pre entries).map fun x => (x.1, f x.1 x.2)
  | [] => by simp [leavesEntries, mapEntries]
  | (k, value) :: entries => by
    simp only [leavesEntries, mapEntries, List.map_append]
    rw [leaves_mapLeaves f _ value, leavesEntries_mapEntries f pre entries]

end

mutual

theorem mapLeaves_mapLeaves (g : List (Step κ) → β → γ) (f : List (Step κ) → α → β)
    (pre : List (Step κ)) : ∀ t : KeyedTree κ α,
      mapLeaves g pre (mapLeaves f pre t) = mapLeaves (fun a x => g a (f a x)) pre t
  | .leaf a => by simp [mapLeaves]
  | .array items => by simp [mapLeaves, mapItems_mapItems g f pre 0 items]
  | .table entries => by simp [mapLeaves, mapEntries_mapEntries g f pre entries]

theorem mapItems_mapItems (g : List (Step κ) → β → γ) (f : List (Step κ) → α → β)
    (pre : List (Step κ)) : ∀ (i : Nat) (items : List (KeyedTree κ α)),
      mapItems g pre i (mapItems f pre i items) = mapItems (fun a x => g a (f a x)) pre i items
  | _, [] => by simp [mapItems]
  | i, item :: items => by
    simp [mapItems, mapLeaves_mapLeaves g f _ item, mapItems_mapItems g f pre (i + 1) items]

theorem mapEntries_mapEntries (g : List (Step κ) → β → γ) (f : List (Step κ) → α → β)
    (pre : List (Step κ)) : ∀ entries : List (κ × KeyedTree κ α),
      mapEntries g pre (mapEntries f pre entries) = mapEntries (fun a x => g a (f a x)) pre entries
  | [] => by simp [mapEntries]
  | (k, value) :: entries => by
    simp [mapEntries, mapLeaves_mapLeaves g f _ value, mapEntries_mapEntries g f pre entries]

end

theorem keys_mapEntries (f : List (Step κ) → α → β) (pre : List (Step κ))
    (entries : List (κ × KeyedTree κ α)) :
    (mapEntries f pre entries).map Prod.fst = entries.map Prod.fst := by
  induction entries with
  | nil => rfl
  | cons entry entries ih => simp [mapEntries, ih]

/-! ## Distinct keys -/

mutual

/-- No table of the tree has a key twice. -/
def Distinct : KeyedTree κ α → Prop
  | .leaf _ => True
  | .array items => DistinctItems items
  | .table entries => (entries.map Prod.fst).Nodup ∧ DistinctEntries entries

def DistinctItems : List (KeyedTree κ α) → Prop
  | [] => True
  | item :: items => Distinct item ∧ DistinctItems items

def DistinctEntries : List (κ × KeyedTree κ α) → Prop
  | [] => True
  | (_, value) :: entries => Distinct value ∧ DistinctEntries entries

end

mutual

theorem distinct_mapLeaves (f : List (Step κ) → α → β) (pre : List (Step κ)) :
    ∀ t : KeyedTree κ α, Distinct t → Distinct (mapLeaves f pre t)
  | .leaf _, _ => by simp [mapLeaves, Distinct]
  | .array items, h => by
    simp only [mapLeaves, Distinct] at h ⊢
    exact distinctItems_mapItems f pre 0 items h
  | .table entries, h => by
    simp only [mapLeaves, Distinct, keys_mapEntries] at h ⊢
    exact ⟨h.1, distinctEntries_mapEntries f pre entries h.2⟩

theorem distinctItems_mapItems (f : List (Step κ) → α → β) (pre : List (Step κ)) :
    ∀ (i : Nat) (items : List (KeyedTree κ α)),
      DistinctItems items → DistinctItems (mapItems f pre i items)
  | _, [], _ => by simp [mapItems, DistinctItems]
  | i, item :: items, h => by
    simp only [mapItems, DistinctItems] at h ⊢
    exact ⟨distinct_mapLeaves f _ item h.1, distinctItems_mapItems f pre (i + 1) items h.2⟩

theorem distinctEntries_mapEntries (f : List (Step κ) → α → β) (pre : List (Step κ)) :
    ∀ entries : List (κ × KeyedTree κ α),
      DistinctEntries entries → DistinctEntries (mapEntries f pre entries)
  | [], _ => by simp [mapEntries, DistinctEntries]
  | (k, value) :: entries, h => by
    simp only [mapEntries, DistinctEntries] at h ⊢
    exact ⟨distinct_mapLeaves f _ value h.1, distinctEntries_mapEntries f pre entries h.2⟩

end

/-! ## Addresses -/

mutual

theorem prefix_of_mem_leaves (pre : List (Step κ)) : ∀ (t : KeyedTree κ α),
    ∀ x ∈ leaves pre t, pre <+: x.1
  | .leaf a, x, h => by
    simp only [leaves, List.mem_singleton] at h
    subst h
    exact List.prefix_refl pre
  | .array items, x, h => by
    simp only [leaves] at h
    obtain ⟨j, _, hj⟩ := index_of_mem_leavesItems pre 0 items x h
    exact (List.prefix_append _ _).trans hj
  | .table entries, x, h => by
    simp only [leaves] at h
    obtain ⟨k, _, hk⟩ := key_of_mem_leavesEntries pre entries x h
    exact (List.prefix_append _ _).trans hk

theorem index_of_mem_leavesItems (pre : List (Step κ)) :
    ∀ (i : Nat) (items : List (KeyedTree κ α)), ∀ x ∈ leavesItems pre i items,
      ∃ j, i ≤ j ∧ pre ++ [.index j] <+: x.1
  | _, [], x, h => by simp [leavesItems] at h
  | i, item :: items, x, h => by
    simp only [leavesItems, List.mem_append] at h
    rcases h with h | h
    · exact ⟨i, Nat.le_refl i, prefix_of_mem_leaves _ item x h⟩
    · obtain ⟨j, hj, hx⟩ := index_of_mem_leavesItems pre (i + 1) items x h
      exact ⟨j, by omega, hx⟩

theorem key_of_mem_leavesEntries (pre : List (Step κ)) :
    ∀ entries : List (κ × KeyedTree κ α), ∀ x ∈ leavesEntries pre entries,
      ∃ k ∈ entries.map Prod.fst, pre ++ [.key k] <+: x.1
  | [], x, h => by simp [leavesEntries] at h
  | (k, value) :: entries, x, h => by
    simp only [leavesEntries, List.mem_append] at h
    rcases h with h | h
    · exact ⟨k, by simp, prefix_of_mem_leaves _ value x h⟩
    · obtain ⟨k', hk', hx⟩ := key_of_mem_leavesEntries pre entries x h
      exact ⟨k', by simp only [List.map_cons, List.mem_cons]; exact Or.inr hk', hx⟩

end

/-- An address leads through one step only. -/
theorem step_unique {pre a : List (Step κ)} {s s' : Step κ} (h : pre ++ [s] <+: a)
    (h' : pre ++ [s'] <+: a) : s = s' := by
  obtain ⟨r, hr⟩ := h
  obtain ⟨r', hr'⟩ := h'
  have := hr.trans hr'.symm
  rw [List.append_assoc, List.append_assoc, List.append_cancel_left_eq] at this
  exact (List.cons.inj this).1

mutual

theorem nodup_addresses (pre : List (Step κ)) : ∀ t : KeyedTree κ α,
    Distinct t → ((leaves pre t).map Prod.fst).Nodup
  | .leaf _, _ => by simp [leaves]
  | .array items, h => by
    simp only [leaves, Distinct] at h ⊢
    exact nodup_addressesItems pre 0 items h
  | .table entries, h => by
    simp only [leaves, Distinct] at h ⊢
    exact nodup_addressesEntries pre entries h.1 h.2

theorem nodup_addressesItems (pre : List (Step κ)) :
    ∀ (i : Nat) (items : List (KeyedTree κ α)),
      DistinctItems items → ((leavesItems pre i items).map Prod.fst).Nodup
  | _, [], _ => by simp [leavesItems]
  | i, item :: items, h => by
    simp only [leavesItems, DistinctItems, List.map_append] at h ⊢
    refine List.Nodup.append (nodup_addresses _ item h.1)
      (nodup_addressesItems pre (i + 1) items h.2) ?_
    -- an address in both would lead through two indices
    intro a ha ha'
    obtain ⟨x, hx, rfl⟩ := List.mem_map.1 ha
    obtain ⟨y, hy, hyx⟩ := List.mem_map.1 ha'
    obtain ⟨j, hj, hy⟩ := index_of_mem_leavesItems pre (i + 1) items y hy
    rw [hyx] at hy
    have := step_unique (prefix_of_mem_leaves _ item x hx) hy
    simp only [Step.index.injEq] at this
    omega

theorem nodup_addressesEntries (pre : List (Step κ)) :
    ∀ entries : List (κ × KeyedTree κ α), (entries.map Prod.fst).Nodup →
      DistinctEntries entries → ((leavesEntries pre entries).map Prod.fst).Nodup
  | [], _, _ => by simp [leavesEntries]
  | (k, value) :: entries, hk, h => by
    simp only [leavesEntries, DistinctEntries, List.map_append, List.map_cons,
      List.nodup_cons] at hk h ⊢
    refine List.Nodup.append (nodup_addresses _ value h.1)
      (nodup_addressesEntries pre entries hk.2 h.2) ?_
    intro a ha ha'
    obtain ⟨x, hx, rfl⟩ := List.mem_map.1 ha
    obtain ⟨y, hy, hyx⟩ := List.mem_map.1 ha'
    obtain ⟨k', hk', hy⟩ := key_of_mem_leavesEntries pre entries y hy
    rw [hyx] at hy
    have := step_unique (prefix_of_mem_leaves _ value x hx) hy
    simp only [Step.key.injEq] at this
    exact hk.1 (this ▸ hk')

end

end KeyedTree
