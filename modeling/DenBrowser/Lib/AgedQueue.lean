import Mathlib.Data.List.Nodup
import Mathlib.Tactic.TypeStar
import Mathlib.Tactic.Common

/-!
# Queues of stamped keys, expired from the front

A queue holds keys with the times they were inserted, oldest first.  Expiry drops entries of
age at least `ttl` from the front, and stops at the first younger one or after `k` entries.

* `takeAged_append_dropAged` — expiry splits the queue into what it drops and what it keeps;
* `age_of_mem_takeAged`, `length_takeAged_le` — it drops only aged entries, at most `k`;
* `mem_dropAged_of_young` — no young entry is dropped;
* `Ordered.length_takeAged` — while aged entries are left, the budget was used up;
* `young_dropAged`, `young_push` — what the set of young keys is after an expiry and a push.
-/

set_option autoImplicit false

namespace AgedQueue

variable {κ : Type*}

/-- The entries an expiry with budget `k` drops. -/
def takeAged (ttl now : Nat) : Nat → List (κ × Nat) → List (κ × Nat)
  | 0, _ => []
  | _ + 1, [] => []
  | k + 1, e :: q => if now - e.2 < ttl then [] else e :: takeAged ttl now k q

/-- The entries an expiry with budget `k` keeps. -/
def dropAged (ttl now : Nat) : Nat → List (κ × Nat) → List (κ × Nat)
  | 0, q => q
  | _ + 1, [] => []
  | k + 1, e :: q => if now - e.2 < ttl then e :: q else dropAged ttl now k q

/-- The key has an entry younger than `ttl`. -/
def Young (ttl now : Nat) (q : List (κ × Nat)) (x : κ) : Prop :=
  ∃ t, (x, t) ∈ q ∧ now - t < ttl

/-- The stamps do not decrease along the queue. -/
def Ordered (q : List (κ × Nat)) : Prop := q.Pairwise fun a b => a.2 ≤ b.2

/-- No key occurs twice. -/
def Distinct (q : List (κ × Nat)) : Prop := (q.map Prod.fst).Nodup

variable {ttl now : Nat}

theorem takeAged_append_dropAged (ttl now : Nat) : ∀ (k : Nat) (q : List (κ × Nat)),
    takeAged ttl now k q ++ dropAged ttl now k q = q
  | 0, q => rfl
  | _ + 1, [] => rfl
  | k + 1, e :: q => by
    unfold takeAged dropAged
    by_cases h : now - e.2 < ttl
    · rw [if_pos h, if_pos h, List.nil_append]
    · rw [if_neg h, if_neg h, List.cons_append, takeAged_append_dropAged ttl now k q]

theorem length_takeAged_le : ∀ (k : Nat) (q : List (κ × Nat)),
    (takeAged ttl now k q).length ≤ k
  | 0, _ => Nat.le_refl 0
  | _ + 1, [] => Nat.zero_le _
  | k + 1, e :: q => by
    unfold takeAged
    by_cases h : now - e.2 < ttl
    · rw [if_pos h]; exact Nat.zero_le _
    · rw [if_neg h, List.length_cons]
      exact Nat.succ_le_succ (length_takeAged_le k q)

theorem age_of_mem_takeAged : ∀ {k : Nat} {q : List (κ × Nat)} {e : κ × Nat},
    e ∈ takeAged ttl now k q → ttl ≤ now - e.2
  | 0, _, e, he => by simp [takeAged] at he
  | _ + 1, [], e, he => by simp [takeAged] at he
  | k + 1, d :: q, e, he => by
    unfold takeAged at he
    by_cases h : now - d.2 < ttl
    · rw [if_pos h] at he; simp at he
    · rw [if_neg h] at he
      rcases List.mem_cons.1 he with rfl | he
      · exact Nat.le_of_not_lt h
      · exact age_of_mem_takeAged he

theorem dropAged_suffix (k : Nat) (q : List (κ × Nat)) : dropAged ttl now k q <:+ q :=
  ⟨takeAged ttl now k q, takeAged_append_dropAged ttl now k q⟩

theorem mem_of_mem_dropAged {k : Nat} {q : List (κ × Nat)} {e : κ × Nat}
    (h : e ∈ dropAged ttl now k q) : e ∈ q :=
  (dropAged_suffix k q).subset h

theorem mem_split (ttl now k : Nat) {q : List (κ × Nat)} {e : κ × Nat} (h : e ∈ q) :
    e ∈ takeAged ttl now k q ∨ e ∈ dropAged ttl now k q := by
  rw [← takeAged_append_dropAged ttl now k q] at h
  exact List.mem_append.1 h

/-- No young entry is dropped. -/
theorem mem_dropAged_of_young {k : Nat} {q : List (κ × Nat)} {e : κ × Nat} (h : e ∈ q)
    (hy : now - e.2 < ttl) : e ∈ dropAged ttl now k q := by
  rcases mem_split ttl now k h with hd | hk
  · exact absurd (age_of_mem_takeAged hd) (Nat.not_le.2 hy)
  · exact hk

/-- Expiry does not change the set of young keys, now or later. -/
theorem young_dropAged {now' : Nat} (hle : now ≤ now') (k : Nat) (q : List (κ × Nat)) (x : κ) :
    Young ttl now' (dropAged ttl now k q) x ↔ Young ttl now' q x := by
  constructor
  · rintro ⟨t, hm, hy⟩
    exact ⟨t, mem_of_mem_dropAged hm, hy⟩
  · rintro ⟨t, hm, hy⟩
    exact ⟨t, mem_dropAged_of_young hm (by simp only; omega), hy⟩

/-- Pushing a key adds exactly that key to the young ones, as long as it is young. -/
theorem young_push (t now' : Nat) (q : List (κ × Nat)) (y x : κ) :
    Young ttl now' (q ++ [(y, t)]) x ↔ Young ttl now' q x ∨ (x = y ∧ now' - t < ttl) := by
  constructor
  · rintro ⟨t', hm, hy⟩
    rcases List.mem_append.1 hm with hm | hm
    · exact Or.inl ⟨t', hm, hy⟩
    · simp only [List.mem_singleton, Prod.mk.injEq] at hm
      obtain ⟨rfl, rfl⟩ := hm
      exact Or.inr ⟨rfl, hy⟩
  · rintro (⟨t', hm, hy⟩ | ⟨rfl, hy⟩)
    · exact ⟨t', List.mem_append_left _ hm, hy⟩
    · exact ⟨t, List.mem_append_right _ (by simp), hy⟩

theorem Ordered.dropAged {q : List (κ × Nat)} (h : Ordered q) (k : Nat) :
    Ordered (dropAged ttl now k q) :=
  List.Pairwise.sublist (dropAged_suffix k q).sublist h

theorem Distinct.dropAged {q : List (κ × Nat)} (h : Distinct q) (k : Nat) :
    Distinct (dropAged ttl now k q) :=
  List.Nodup.sublist ((dropAged_suffix k q).sublist.map _) h

theorem Ordered.push {q : List (κ × Nat)} (h : Ordered q) {t : Nat}
    (ht : ∀ e ∈ q, e.2 ≤ t) (y : κ) : Ordered (q ++ [(y, t)]) := by
  unfold Ordered
  rw [List.pairwise_append]
  refine ⟨h, List.pairwise_singleton _ _, ?_⟩
  intro e he d hd
  rw [List.mem_singleton.1 hd]
  exact ht e he

theorem Distinct.push {q : List (κ × Nat)} (h : Distinct q) {y : κ}
    (hy : y ∉ q.map Prod.fst) (t : Nat) : Distinct (q ++ [(y, t)]) := by
  unfold Distinct
  rw [List.map_append, List.nodup_append]
  refine ⟨h, by simp, ?_⟩
  intro a ha b hb hab
  rw [List.map_singleton, List.mem_singleton] at hb
  rw [hab, hb] at ha
  exact hy ha

/-- With distinct keys, a kept key was not also dropped. -/
theorem Distinct.not_mem_takeAged {q : List (κ × Nat)} (h : Distinct q) {k : Nat} {x : κ}
    (hx : x ∈ (AgedQueue.dropAged ttl now k q).map Prod.fst) :
    x ∉ (takeAged ttl now k q).map Prod.fst := by
  unfold Distinct at h
  rw [← takeAged_append_dropAged ttl now k q, List.map_append,
    List.nodup_append] at h
  intro hx'
  exact h.2.2 x hx' x hx rfl

/-- When an aged entry is left, the budget was used up. -/
theorem Ordered.length_takeAged : ∀ {k : Nat} {q : List (κ × Nat)}, Ordered q →
    (∃ e ∈ AgedQueue.dropAged ttl now k q, ttl ≤ now - e.2) → (takeAged ttl now k q).length = k
  | 0, _, _, _ => rfl
  | _ + 1, [], _, h => by simp [AgedQueue.dropAged] at h
  | k + 1, d :: q, hord, ⟨e, he, haged⟩ => by
    obtain ⟨hle, hord'⟩ := List.pairwise_cons.1 hord
    unfold AgedQueue.dropAged at he
    unfold takeAged
    by_cases hd : now - d.2 < ttl
    · -- A young front entry is the oldest one left.
      rw [if_pos hd] at he
      rcases List.mem_cons.1 he with rfl | he
      · omega
      · have := hle e he
        omega
    · rw [if_neg hd] at he ⊢
      rw [List.length_cons, Ordered.length_takeAged hord' ⟨e, he, haged⟩]

end AgedQueue
