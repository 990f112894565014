import Mathlib.Data.List.Basic
import Mathlib.Tactic.TypeStar
import Mathlib.Tactic.Common

/-!
# Layered quotas

Requests carry a key and fall into at most one bucket.  A shared cap counts every request of a
key; each bucket's maximum counts those of them that fall into it and passed the shared cap.
Histories are lists of requests, latest first, and a decision is a function of the history.

* `admits_eq_false_iff` — which requests are refused, in counts that include the request itself;
* `decisions_ofKey` — the decisions for one key are those on its own requests;
* `used_of_passes` — a bucket counts every request of a key that still passes the shared cap;
* `admits_without` — deleting a bucket's requests changes no other decision, except that it
  admits some that the shared cap refused.
-/

set_option autoImplicit false

namespace Quota

variable {κ ρ β : Type*}

/-- How requests are counted. -/
structure Policy (κ ρ β : Type*) where
  key : ρ → κ
  /-- The shared cap, if there is one. -/
  cap : Option Int
  bucket : ρ → Option β
  max : β → Int

namespace Policy

/-- The policy for requests that are read through `f`. -/
def comap {ρ' : Type*} (P : Policy κ ρ' β) (f : ρ → ρ') : Policy κ ρ β where
  key r := P.key (f r)
  cap := P.cap
  bucket r := P.bucket (f r)
  max := P.max

variable [DecidableEq κ] (P : Policy κ ρ β)

/-- The requests of a key. -/
def ofKey (k : κ) (past : List ρ) : List ρ := past.filter fun q => decide (P.key q = k)

/-- How many requests of a key there are. -/
def total (k : κ) (past : List ρ) : Nat := (P.ofKey k past).length

/-- The shared cap lets the request through. -/
def passes (past : List ρ) (r : ρ) : Bool :=
  match P.cap with
  | none => true
  | some n => decide ((P.total (P.key r) past : Int) + 1 ≤ n)

section Total

variable {P} {past past' : List ρ} {r r' : ρ} {k : κ}

theorem ofKey_cons_self : P.ofKey (P.key r) (r :: past) = r :: P.ofKey (P.key r) past := by
  simp [ofKey]

theorem ofKey_cons_of_ne (h : P.key r ≠ k) : P.ofKey k (r :: past) = P.ofKey k past := by
  simp [ofKey, h]

theorem total_cons : P.total k (r :: past) = P.total k past + if P.key r = k then 1 else 0 := by
  by_cases h : P.key r = k
  · simp [total, ofKey, h]
  · simp [total, ofKey, h]

theorem total_cons_self : P.total (P.key r) (r :: past) = P.total (P.key r) past + 1 := by
  rw [total_cons, if_pos rfl]

theorem total_ofKey : P.total k (P.ofKey k past) = P.total k past := by
  simp [total, ofKey]

theorem passes_ofKey : P.passes (P.ofKey (P.key r) past) r = P.passes past r := by
  unfold passes
  rw [total_ofKey]

/-- Every request passes when there is no shared cap. -/
theorem passes_of_cap_none (h : P.cap = none) : P.passes past r = true := by
  unfold passes
  rw [h]

/-- A shared cap that has room now had room for everything of the key before. -/
theorem passes_of_le (hle : P.total (P.key r') past' ≤ P.total (P.key r) past)
    (h : P.passes past r = true) : P.passes past' r' = true := by
  unfold passes at h ⊢
  cases hcap : P.cap with
  | none => rfl
  | some n =>
    simp only [hcap, decide_eq_true_eq] at h ⊢
    omega

/-- The shared cap refuses what exceeds it. -/
theorem passes_eq_false_iff : P.passes past r = false ↔
    ∃ n, P.cap = some n ∧ n < (P.total (P.key r) (r :: past) : Int) := by
  unfold passes
  rw [total_cons_self]
  cases P.cap with
  | none => simp
  | some n => simp

end Total

variable [DecidableEq β]

/-- The requests outside a bucket. -/
def without (a : β) (past : List ρ) : List ρ := past.filter fun q => decide (P.bucket q ≠ some a)

/-- The requests a bucket was charged with. -/
def charges (b : β) : List ρ → List ρ
  | [] => []
  | r :: past =>
    if P.passes past r = true ∧ P.bucket r = some b then r :: charges b past
    else charges b past

/-- How many requests of a key a bucket was charged with. -/
def used (b : β) (k : κ) (past : List ρ) : Nat := P.total k (P.charges b past)

/-- The request's bucket, if it falls into one, has room for it. -/
def hasRoom (past : List ρ) (r : ρ) : Bool :=
  match P.bucket r with
  | none => true
  | some b => decide ((P.used b (P.key r) past : Int) + 1 ≤ P.max b)

/-- The request is admitted after `past`. -/
def admits (past : List ρ) (r : ρ) : Bool := P.passes past r && P.hasRoom past r

/-- The decisions on a sequence of requests after `past`. -/
def decisions (past : List ρ) : List ρ → List (ρ × Bool)
  | [] => []
  | r :: rs => (r, P.admits past r) :: decisions (r :: past) rs

variable {P} {past : List ρ} {r : ρ} {k : κ} {a b : β}

theorem charges_cons : P.charges b (r :: past) =
    if P.passes past r = true ∧ P.bucket r = some b then r :: P.charges b past
    else P.charges b past := rfl

theorem mem_of_mem_charges {q : ρ} : ∀ {past : List ρ}, q ∈ P.charges b past → q ∈ past
  | [], h => h
  | r :: past, h => by
    rw [charges_cons] at h
    split at h
    · rcases List.mem_cons.1 h with rfl | h
      · exact List.mem_cons_self
      · exact List.mem_cons_of_mem _ (mem_of_mem_charges h)
    · exact List.mem_cons_of_mem _ (mem_of_mem_charges h)

theorem decisions_cons {rs : List ρ} :
    P.decisions past (r :: rs) = (r, P.admits past r) :: P.decisions (r :: past) rs := rfl

theorem used_cons : P.used b k (r :: past) = P.used b k past +
    if P.passes past r = true ∧ P.bucket r = some b ∧ P.key r = k then 1 else 0 := by
  unfold used
  rw [charges_cons]
  by_cases h : P.passes past r = true ∧ P.bucket r = some b
  · rw [if_pos h, total_cons]
    simp [h]
  · rw [if_neg h, if_neg fun hc => h ⟨hc.1, hc.2.1⟩, Nat.add_zero]

/-- **Which requests are refused**: the key's requests, this one included, exceed the shared cap,
or those of them that the bucket was charged with exceed its maximum. -/
theorem admits_eq_false_iff : P.admits past r = false ↔
    (∃ n, P.cap = some n ∧ n < (P.total (P.key r) (r :: past) : Int)) ∨
      ∃ b, P.bucket r = some b ∧ P.max b < (P.used b (P.key r) (r :: past) : Int) := by
  rw [← passes_eq_false_iff]
  cases hp : P.passes past r with
  | false => simp [admits, hp]
  | true =>
    unfold admits hasRoom
    rw [hp, Bool.true_and]
    cases hb : P.bucket r with
    | none => simp
    | some b => simp [used_cons, hp, hb]

/-! ## One key's own requests -/

theorem used_ofKey : P.used b k (P.ofKey k past) = P.used b k past := by
  induction past with
  | nil => rfl
  | cons r past ih =>
    by_cases hk : P.key r = k
    · subst hk
      rw [ofKey_cons_self, used_cons, used_cons, ih, passes_ofKey]
    · rw [ofKey_cons_of_ne hk, used_cons, ih, if_neg fun h => hk h.2.2, Nat.add_zero]

theorem admits_ofKey : P.admits (P.ofKey (P.key r) past) r = P.admits past r := by
  unfold admits hasRoom
  simp only [passes_ofKey, used_ofKey]

/-- **The decisions for one key are those on its own requests.** -/
theorem decisions_ofKey (k : κ) : ∀ (rs past : List ρ),
    (P.decisions past rs).filter (fun d => decide (P.key d.1 = k)) =
      P.decisions (P.ofKey k past) (P.ofKey k rs)
  | [], _ => rfl
  | r :: rs, past => by
    rw [decisions_cons]
    by_cases hk : P.key r = k
    · subst hk
      rw [List.filter_cons_of_pos (by simp), decisions_ofKey _ rs (r :: past), ofKey_cons_self,
        ofKey_cons_self, decisions_cons, admits_ofKey]
    · rw [List.filter_cons_of_neg (by simpa using hk), decisions_ofKey k rs (r :: past),
        ofKey_cons_of_ne hk, ofKey_cons_of_ne hk]

/-! ## Deleting a bucket -/

theorem total_without_le : P.total k (P.without a past) ≤ P.total k past := by
  unfold total ofKey without
  exact (List.filter_sublist.filter _).length_le

/-- Deleting requests leaves the shared cap more room. -/
theorem passes_without (a : β) (h : P.passes past r = true) :
    P.passes (P.without a past) r = true :=
  passes_of_le total_without_le h

/-- **While the shared cap has room for the key**, a bucket has been charged with every request
of the key that falls into it. -/
theorem used_of_passes (b : β) : ∀ {past : List ρ}, P.passes past r = true →
    P.used b (P.key r) past =
      past.countP fun q => decide (P.key q = P.key r ∧ P.bucket q = some b)
  | [], _ => rfl
  | q :: past, h => by
    have hle : P.total (P.key r) past ≤ P.total (P.key r) (q :: past) := by
      rw [total_cons]
      omega
    have ih := used_of_passes b (passes_of_le hle h : P.passes past r = true)
    rw [used_cons, ih, List.countP_cons]
    congr 1
    by_cases hk : P.key q = P.key r
    · have hq : P.passes past q = true := passes_of_le (by rw [hk]; exact hle) h
      simp [hk, hq]
    · simp [hk]

/-- **Deleting another bucket's requests** changes no decision on a request that passes the
shared cap. -/
theorem admits_without (hr : P.bucket r ≠ some a) (h : P.passes past r = true) :
    P.admits (P.without a past) r = P.admits past r := by
  have h' := passes_without a h
  unfold admits hasRoom
  rw [h, h']
  cases hb : P.bucket r with
  | none => rfl
  | some b =>
    have hne : b ≠ a := by
      rintro rfl
      exact hr hb
    have hcount : P.used b (P.key r) (P.without a past) = P.used b (P.key r) past := by
      rw [used_of_passes b h, used_of_passes b h', without, List.countP_filter]
      refine List.countP_congr fun q _ => ?_
      simp only [decide_eq_true_eq, Bool.and_eq_true]
      constructor
      · rintro ⟨hq, _⟩
        exact hq
      · intro hq
        refine ⟨hq, ?_⟩
        rw [hq.2]
        simpa using hne
    simp only [hcount]

/-- The decisions that change are refusals of the shared cap that are admissions without the
bucket. -/
theorem admits_without_ne_iff (hr : P.bucket r ≠ some a) :
    P.admits (P.without a past) r ≠ P.admits past r ↔
      P.passes past r = false ∧ P.admits (P.without a past) r = true := by
  cases h : P.passes past r with
  | true => simp [admits_without hr h]
  | false =>
    have hrefused : P.admits past r = false := by simp [admits, h]
    rw [hrefused]
    simp

/-! ## Reading requests through a function -/

section Comap

variable {ρ' : Type*} {f : ρ' → ρ} {past : List ρ'} {r : ρ'}

omit [DecidableEq β] in
theorem total_comap : (P.comap f).total k past = P.total k (past.map f) := by
  unfold total ofKey comap
  rw [List.filter_map, List.length_map]
  rfl

omit [DecidableEq β] in
theorem passes_comap : (P.comap f).passes past r = P.passes (past.map f) (f r) := by
  unfold passes
  rw [total_comap]
  rfl

theorem used_comap : (P.comap f).used b k past = P.used b k (past.map f) := by
  induction past with
  | nil => rfl
  | cons r past ih =>
    rw [used_cons, List.map_cons, used_cons, ih, passes_comap]
    rfl

theorem admits_comap : (P.comap f).admits past r = P.admits (past.map f) (f r) := by
  unfold admits hasRoom
  simp only [passes_comap, used_comap]
  rfl

/-- The decisions depend on what is read only. -/
theorem decisions_comap : ∀ (rs past : List ρ'),
    ((P.comap f).decisions past rs).map (fun d => (f d.1, d.2)) =
      P.decisions (past.map f) (rs.map f)
  | [], _ => rfl
  | r :: rs, past => by
    rw [decisions_cons, List.map_cons, decisions_comap rs (r :: past), admits_comap]
    rfl

end Comap

end Policy

end Quota
