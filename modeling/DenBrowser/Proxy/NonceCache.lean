import DenBrowser.Lib.AgedQueue
import DenBrowser.Lib.Run
import DenBrowser.Proxy.Window
import Mathlib.Data.Finset.Insert
import Mathlib.Data.Finset.Erase
import Mathlib.Data.Finset.SDiff
import Mathlib.Data.Vector.Defs

/-!
# The replay cache

`attest::NonceCache`: a hash set of the committed nonces and the queue of their commit times.
A commit first drops aged entries from the front of the queue, at most
`MAX_EVICTIONS_PER_COMMIT` of them, and then inserts its nonce.

* `NonceCache.evictExpired_eq` — what the eviction loop does, in terms of the aged queue;
* `NonceCache.commit_ok_spec`, `NonceCache.commit_error_spec` — what one commit does;
* `NonceCache.RepInv` — the two structures hold the same nonces, once each, oldest first;
* `NonceCache.live_commit_ok`, `NonceCache.live_commit_error` — a commit changes the live
  replay state by its own nonce only;
* `nonceCache_run` — the replay cache over every run of calls.
-/

set_option autoImplicit false

namespace DenBrowser

open RunLib AgedQueue

def NONCE_LEN : Nat := 16

def MAX_EVICTIONS_PER_COMMIT : Nat := 256

/-- `[u8; NONCE_LEN]`. -/
abbrev Nonce := List.Vector UInt8 NONCE_LEN

/-- The replay cache: the nonces, and their commit times in commit order. -/
structure NonceCache where
  seen : Finset Nonce
  expiry : List (Nonce × Nat)
  deriving DecidableEq

namespace NonceCache

def empty : NonceCache := ⟨∅, []⟩

/-- Whether `nonce` has been committed and not yet dropped. -/
def contains (c : NonceCache) (nonce : Nonce) : Bool := decide (nonce ∈ c.seen)

/-- The loop of `evict_expired`, with `evicted` entries already dropped. -/
def evictLoop (now : Nat) (evicted : Nat) (seen : Finset Nonce) :
    List (Nonce × Nat) → NonceCache
  | [] => ⟨seen, []⟩
  | (nonce, committed) :: q =>
    if evicted = MAX_EVICTIONS_PER_COMMIT ∨ now - committed < NONCE_TTL then
      ⟨seen, (nonce, committed) :: q⟩
    else evictLoop now (evicted + 1) (seen.erase nonce) q

def evictExpired (c : NonceCache) (now : Nat) : NonceCache :=
  evictLoop now 0 c.seen c.expiry

/-- Record `nonce`, failing if it is already present, after dropping entries that have aged
out as of `now`. -/
def commit (c : NonceCache) (nonce : Nonce) (now : Nat) :
    NonceCache × Except AttestError Unit :=
  let c := c.evictExpired now
  if nonce ∈ c.seen then (c, .error .nonceReplay)
  else (⟨insert nonce c.seen, c.expiry ++ [(nonce, now)]⟩, .ok ())

/-! ## Eviction -/

/-- The entries one commit at `now` drops from the queue. -/
def dropped (c : NonceCache) (now : Nat) : List (Nonce × Nat) :=
  takeAged NONCE_TTL now MAX_EVICTIONS_PER_COMMIT c.expiry

/-- The entries one commit at `now` keeps in the queue. -/
def kept (c : NonceCache) (now : Nat) : List (Nonce × Nat) :=
  dropAged NONCE_TTL now MAX_EVICTIONS_PER_COMMIT c.expiry

theorem evictLoop_eq (now : Nat) : ∀ (q : List (Nonce × Nat)) (evicted k : Nat)
    (seen : Finset Nonce), evicted + k = MAX_EVICTIONS_PER_COMMIT →
    evictLoop now evicted seen q =
      ⟨seen \ ((takeAged NONCE_TTL now k q).map Prod.fst).toFinset, dropAged NONCE_TTL now k q⟩
  | [], evicted, k, seen, _ => by cases k <;> simp [evictLoop, takeAged, dropAged]
  | (n, t) :: q, evicted, k, seen, hk => by
    unfold evictLoop
    cases k with
    | zero =>
      rw [if_pos (Or.inl (by omega))]
      simp [takeAged, dropAged]
    | succ k =>
      have hne : evicted ≠ MAX_EVICTIONS_PER_COMMIT := by omega
      unfold takeAged dropAged
      by_cases h : now - t < NONCE_TTL
      · rw [if_pos (Or.inr h), if_pos h, if_pos h]
        simp
      · rw [if_neg (by simp [hne, h]), if_neg h, if_neg h,
          evictLoop_eq now q (evicted + 1) k (seen.erase n) (by omega)]
        congr 1
        ext m
        simp only [Finset.mem_sdiff, Finset.mem_erase, List.map_cons, List.toFinset_cons,
          Finset.mem_insert]
        tauto

/-- **What the eviction loop does.** -/
theorem evictExpired_eq (c : NonceCache) (now : Nat) :
    c.evictExpired now = ⟨c.seen \ ((c.dropped now).map Prod.fst).toFinset, c.kept now⟩ :=
  evictLoop_eq now c.expiry 0 MAX_EVICTIONS_PER_COMMIT c.seen rfl

theorem dropped_append_kept (c : NonceCache) (now : Nat) :
    c.dropped now ++ c.kept now = c.expiry :=
  takeAged_append_dropAged _ _ _ _

theorem length_dropped_le (c : NonceCache) (now : Nat) :
    (c.dropped now).length ≤ MAX_EVICTIONS_PER_COMMIT :=
  length_takeAged_le _ _

theorem age_of_mem_dropped {c : NonceCache} {now : Nat} {e : Nonce × Nat}
    (h : e ∈ c.dropped now) : NONCE_TTL ≤ now - e.2 :=
  age_of_mem_takeAged h

/-! ## One commit -/

/-- A successful commit: the nonce was absent after eviction, and is appended. -/
theorem commit_ok_spec {c c' : NonceCache} {n : Nonce} {now : Nat}
    (h : c.commit n now = (c', .ok ())) :
    n ∉ (c.evictExpired now).seen ∧ c'.seen = insert n (c.evictExpired now).seen ∧
      c'.expiry = c.kept now ++ [(n, now)] := by
  unfold commit at h
  by_cases hn : n ∈ (c.evictExpired now).seen
  · rw [if_pos hn] at h
    cases h
  · rw [if_neg hn] at h
    cases h
    exact ⟨hn, rfl, by simp only [evictExpired_eq]⟩

/-- A failed commit: the nonce is still there after eviction, and nothing else changes. -/
theorem commit_error_spec {c c' : NonceCache} {n : Nonce} {now : Nat} {e : AttestError}
    (h : c.commit n now = (c', .error e)) :
    n ∈ (c.evictExpired now).seen ∧ c' = c.evictExpired now ∧ e = .nonceReplay := by
  unfold commit at h
  by_cases hn : n ∈ (c.evictExpired now).seen
  · rw [if_pos hn] at h
    cases h
    exact ⟨hn, rfl, rfl⟩
  · rw [if_neg hn] at h
    cases h

/-- A nonce that is not in the cache is committed. -/
theorem commit_of_not_mem {c : NonceCache} {n : Nonce} (now : Nat) (h : n ∉ c.seen) :
    ∃ c', c.commit n now = (c', .ok ()) := by
  have hn : n ∉ (c.evictExpired now).seen := by
    rw [evictExpired_eq]
    exact fun hm => h (Finset.mem_sdiff.1 hm).1
  exact ⟨_, by unfold commit; rw [if_neg hn]⟩

/-! ## The representation invariant -/

/-- The set holds exactly the queued nonces, none is queued twice, and the stamps are sorted
oldest first. -/
structure RepInv (c : NonceCache) : Prop where
  seen_iff : ∀ n, n ∈ c.seen ↔ ∃ t, (n, t) ∈ c.expiry
  distinct : Distinct c.expiry
  ordered : Ordered c.expiry

theorem empty_repInv : RepInv empty :=
  ⟨fun n => by simp [empty], List.nodup_nil, List.Pairwise.nil⟩

theorem mem_map_fst {q : List (Nonce × Nat)} {n : Nonce} :
    n ∈ q.map Prod.fst ↔ ∃ t, (n, t) ∈ q := by
  simp

theorem RepInv.evictExpired {c : NonceCache} (h : c.RepInv) (now : Nat) :
    (c.evictExpired now).RepInv := by
  rw [evictExpired_eq]
  refine ⟨fun n => ?_, h.distinct.dropAged _, h.ordered.dropAged _⟩
  simp only [Finset.mem_sdiff, List.mem_toFinset, h.seen_iff]
  constructor
  · rintro ⟨⟨t, ht⟩, hd⟩
    refine ⟨t, ?_⟩
    rcases mem_split NONCE_TTL now MAX_EVICTIONS_PER_COMMIT ht with h' | h'
    · exact absurd (List.mem_map_of_mem h') hd
    · exact h'
  · rintro ⟨t, ht⟩
    exact ⟨⟨t, mem_of_mem_dropAged ht⟩, h.distinct.not_mem_takeAged (List.mem_map_of_mem ht)⟩

/-- **A commit keeps the representation invariant**, if no stamp is in its future. -/
theorem RepInv.commit {c : NonceCache} (h : c.RepInv) {n : Nonce} {now : Nat}
    (hnow : ∀ e ∈ c.expiry, e.2 ≤ now) : (c.commit n now).1.RepInv := by
  rcases hc : c.commit n now with ⟨c', r⟩
  have hev := h.evictExpired now
  cases r with
  | error e =>
    obtain ⟨_, rfl, _⟩ := commit_error_spec hc
    exact hev
  | ok u =>
    obtain ⟨hn, hseen, hexp⟩ := commit_ok_spec hc
    have hk : (c.evictExpired now).expiry = c.kept now := by rw [evictExpired_eq]
    have hnk : n ∉ (c.kept now).map Prod.fst := by
      intro hm
      exact hn ((hev.seen_iff n).2 (by rw [hk]; exact mem_map_fst.1 hm))
    refine ⟨fun m => ?_, ?_, ?_⟩
    · rw [hseen, hexp, Finset.mem_insert, hev.seen_iff, hk]
      simp only [List.mem_append, List.mem_singleton, Prod.mk.injEq]
      constructor
      · rintro (rfl | ⟨t, ht⟩)
        · exact ⟨now, Or.inr ⟨rfl, rfl⟩⟩
        · exact ⟨t, Or.inl ht⟩
      · rintro ⟨t, ht | ⟨rfl, _⟩⟩
        · exact Or.inr ⟨t, ht⟩
        · exact Or.inl rfl
    · rw [hexp]
      exact (h.distinct.dropAged _).push hnk now
    · rw [hexp]
      exact (h.ordered.dropAged _).push (fun e he => hnow e (mem_of_mem_dropAged he)) n

/-- The last stamp bounds the others: callers whose `now` is not before the newest entry keep
the queue ordered. -/
theorem commit_stamps_le {c : NonceCache} {n : Nonce} {now : Nat}
    (hnow : ∀ e ∈ c.expiry, e.2 ≤ now) : ∀ e ∈ (c.commit n now).1.expiry, e.2 ≤ now := by
  intro e he
  rcases hc : c.commit n now with ⟨c', r⟩
  rw [hc] at he
  cases r with
  | error _ =>
    obtain ⟨_, rfl, _⟩ := commit_error_spec hc
    rw [evictExpired_eq] at he
    exact hnow e (mem_of_mem_dropAged he)
  | ok _ =>
    obtain ⟨_, _, hexp⟩ := commit_ok_spec hc
    rw [hexp] at he
    rcases List.mem_append.1 he with he | he
    · exact hnow e (mem_of_mem_dropAged he)
    · rw [List.mem_singleton.1 he]

/-! ## The live replay state -/

/-- The nonces younger than `NONCE_TTL` in the cache. -/
def live (c : NonceCache) (now : Nat) : Finset Nonce :=
  ((c.expiry.filter fun e => decide (now - e.2 < NONCE_TTL)).map Prod.fst).toFinset

theorem mem_live {c : NonceCache} {now : Nat} {n : Nonce} :
    n ∈ c.live now ↔ Young NONCE_TTL now c.expiry n := by
  simp [live, Young]

/-- Under the representation invariant the live nonces are in the set. -/
theorem RepInv.live_subset {c : NonceCache} (h : c.RepInv) (now : Nat) :
    c.live now ⊆ c.seen := by
  intro n hn
  obtain ⟨t, ht, _⟩ := mem_live.1 hn
  exact (h.seen_iff n).2 ⟨t, ht⟩

theorem live_evictExpired (c : NonceCache) {now now' : Nat} (hle : now ≤ now') :
    (c.evictExpired now).live now' = c.live now' := by
  ext m
  rw [mem_live, mem_live, evictExpired_eq]
  exact young_dropAged hle _ _ m

/-- A failed commit leaves the live replay state as it was. -/
theorem live_commit_error {c c' : NonceCache} {n : Nonce} {now now' : Nat} {e : AttestError}
    (h : c.commit n now = (c', .error e)) (hle : now ≤ now') : c'.live now' = c.live now' := by
  obtain ⟨_, rfl, _⟩ := commit_error_spec h
  exact live_evictExpired c hle

/-- A successful commit adds its own nonce to the live replay state, and nothing else. -/
theorem live_commit_ok {c c' : NonceCache} {n : Nonce} {now now' : Nat}
    (h : c.commit n now = (c', .ok ())) (hle : now ≤ now') (hlive : now' - now < NONCE_TTL) :
    c'.live now' = insert n (c.live now') := by
  obtain ⟨_, _, hexp⟩ := commit_ok_spec h
  ext m
  rw [mem_live, Finset.mem_insert, mem_live, hexp, young_push]
  rw [kept, young_dropAged hle]
  simp only [hlive, and_true]
  exact or_comm

end NonceCache

/-! ## Runs of calls -/

/-- A call on the cache. -/
inductive CacheCall where
  | contains (nonce : Nonce)
  | commit (nonce : Nonce) (now : Nat)
  deriving DecidableEq

/-- What a call returned. -/
inductive CacheReturn where
  | found (b : Bool)
  | committed (r : Except AttestError Unit)

/-- The cache as a machine whose inputs are the calls. -/
def cacheSystem : System NonceCache CacheCall CacheReturn where
  init := NonceCache.empty
  step c
    | .contains n => some (c, .found (c.contains n))
    | .commit n now => some ((c.commit n now).1, .committed (c.commit n now).2)

/-- The `now` arguments of a run's calls, in call order. -/
def nowArgs (tr : List (CacheCall × CacheReturn)) : List Nat :=
  tr.filterMap fun e => match e.1 with
    | .contains _ => none
    | .commit _ now => some now

/-- The run has a successful commit of `n` at `t`. -/
def Committed (tr : List (CacheCall × CacheReturn)) (n : Nonce) (t : Nat) : Prop :=
  (CacheCall.commit n t, CacheReturn.committed (.ok ())) ∈ tr

theorem nowArgs_append_contains (tr : List (CacheCall × CacheReturn)) (n : Nonce)
    (o : CacheReturn) : nowArgs (tr ++ [(.contains n, o)]) = nowArgs tr := by
  simp [nowArgs]

theorem nowArgs_append_commit (tr : List (CacheCall × CacheReturn)) (n : Nonce) (now : Nat)
    (o : CacheReturn) : nowArgs (tr ++ [(.commit n now, o)]) = nowArgs tr ++ [now] := by
  simp [nowArgs]

/-- Times that do not decrease do not decrease over an initial segment. -/
theorem pairwise_nowArgs_of_append {tr : List (CacheCall × CacheReturn)}
    {e : CacheCall × CacheReturn} (h : (nowArgs (tr ++ [e])).Pairwise (· ≤ ·)) :
    (nowArgs tr).Pairwise (· ≤ ·) := by
  unfold nowArgs at h
  rw [List.filterMap_append] at h
  exact (List.pairwise_append.1 h).1

/-- The invariant of a run: beside the representation invariant, every entry was committed in
the run, and a committed nonce is queued until it is `NONCE_TTL` old. -/
structure CacheInv (tr : List (CacheCall × CacheReturn)) (c : NonceCache) : Prop where
  rep : c.RepInv
  origin : ∀ n t, (n, t) ∈ c.expiry → Committed tr n t
  stamps : ∀ e ∈ c.expiry, e.2 ∈ nowArgs tr
  fresh : ∀ n t, Committed tr n t → (n, t) ∈ c.expiry ∨ ∃ x ∈ nowArgs tr, NONCE_TTL ≤ x - t

theorem CacheInv.contains {tr : List (CacheCall × CacheReturn)} {c : NonceCache}
    (h : CacheInv tr c) (n : Nonce) (b : Bool) :
    CacheInv (tr ++ [(.contains n, .found b)]) c := by
  have hcom : ∀ m t, Committed (tr ++ [(.contains n, .found b)]) m t ↔ Committed tr m t := by
    intro m t
    simp [Committed]
  refine ⟨h.rep, fun m t hm => (hcom m t).2 (h.origin m t hm), ?_, ?_⟩
  · rw [nowArgs_append_contains]; exact h.stamps
  · rw [nowArgs_append_contains]
    exact fun m t hm => h.fresh m t ((hcom m t).1 hm)

/-- An entry dropped by a commit is at least `NONCE_TTL` old at one of the run's times. -/
theorem CacheInv.fresh_kept {tr : List (CacheCall × CacheReturn)} {c : NonceCache}
    (h : CacheInv tr c) (now : Nat) {n : Nonce} {t : Nat} (hc : Committed tr n t) :
    (n, t) ∈ c.kept now ∨ ∃ x ∈ nowArgs tr ++ [now], NONCE_TTL ≤ x - t := by
  rcases h.fresh n t hc with hm | ⟨x, hx, ha⟩
  · rw [← c.dropped_append_kept now] at hm
    rcases List.mem_append.1 hm with hd | hk
    · exact Or.inr ⟨now, by simp, NonceCache.age_of_mem_dropped hd⟩
    · exact Or.inl hk
  · exact Or.inr ⟨x, List.mem_append_left _ hx, ha⟩

theorem CacheInv.commit {tr : List (CacheCall × CacheReturn)} {c : NonceCache}
    (h : CacheInv tr c) (n : Nonce) (now : Nat) (hnow : ∀ x ∈ nowArgs tr, x ≤ now) :
    CacheInv (tr ++ [(.commit n now, .committed (c.commit n now).2)]) (c.commit n now).1 := by
  have hst : ∀ e ∈ c.expiry, e.2 ≤ now := fun e he => hnow _ (h.stamps e he)
  have hrep := h.rep.commit (n := n) hst
  rcases hc : c.commit n now with ⟨c', r⟩
  rw [hc] at hrep
  have hold : ∀ m t, Committed tr m t →
      Committed (tr ++ [(.commit n now, .committed r)]) m t :=
    fun m t hm => List.mem_append_left _ hm
  cases r with
  | error e =>
    obtain ⟨_, rfl, rfl⟩ := NonceCache.commit_error_spec hc
    have hexp : (c.evictExpired now).expiry = c.kept now := by rw [NonceCache.evictExpired_eq]
    refine ⟨hrep, ?_, ?_, ?_⟩
    · intro m t hm
      rw [hexp] at hm
      exact hold m t (h.origin m t (mem_of_mem_dropAged hm))
    · intro e he
      rw [hexp] at he
      rw [nowArgs_append_commit]
      exact List.mem_append_left _ (h.stamps e (mem_of_mem_dropAged he))
    · intro m t hm
      rw [nowArgs_append_commit, hexp]
      exact h.fresh_kept now (by simpa [Committed] using hm)
  | ok u =>
    obtain ⟨_, _, hexp⟩ := NonceCache.commit_ok_spec hc
    refine ⟨hrep, ?_, ?_, ?_⟩
    · intro m t hm
      rw [hexp] at hm
      rcases List.mem_append.1 hm with hm | hm
      · exact hold m t (h.origin m t (mem_of_mem_dropAged hm))
      · simp only [List.mem_singleton, Prod.mk.injEq] at hm
        obtain ⟨rfl, rfl⟩ := hm
        exact List.mem_append_right _ (by simp)
    · intro e he
      rw [hexp] at he
      rw [nowArgs_append_commit]
      rcases List.mem_append.1 he with he | he
      · exact List.mem_append_left _ (h.stamps e (mem_of_mem_dropAged he))
      · rw [List.mem_singleton.1 he]
        exact List.mem_append_right _ (by simp)
    · intro m t hm
      rw [nowArgs_append_commit, hexp]
      rcases List.mem_append.1 hm with hm | hm
      · rcases h.fresh_kept now hm with hk | ha
        · exact Or.inl (List.mem_append_left _ hk)
        · exact Or.inr ha
      · simp only [List.mem_singleton, Prod.mk.injEq, CacheCall.commit.injEq, and_true] at hm
        obtain ⟨rfl, rfl⟩ := hm
        exact Or.inl (List.mem_append_right _ (by simp))

/-- **The invariant holds over every run with non-decreasing times.** -/
theorem cacheInv_run {tr : List (CacheCall × CacheReturn)} {c : NonceCache}
    (h : Run cacheSystem tr c) (hmono : (nowArgs tr).Pairwise (· ≤ ·)) : CacheInv tr c := by
  refine Run.invariant_under (fun tr => (nowArgs tr).Pairwise (· ≤ ·)) CacheInv ?_ ?_ ?_ h hmono
  · exact fun tr e hA => pairwise_nowArgs_of_append hA
  · exact ⟨NonceCache.empty_repInv, by simp [cacheSystem, NonceCache.empty],
      by simp [cacheSystem, NonceCache.empty], by simp [Committed]⟩
  · rintro tr c (n | ⟨n, now⟩) c' o - hinv hA hs
    · cases hs
      exact hinv.contains n _
    · cases hs
      rw [nowArgs_append_commit] at hA
      exact hinv.commit n now fun x hx => (List.pairwise_append.1 hA).2.2 x hx now (by simp)

/-- What a commit of `n` at `now` does to the cache: it drops a bounded number of aged entries
from the front of the queue, and then either appends its nonce or, finding it, changes neither
the nonce's entry nor any other. -/
def CommitEffect (c : NonceCache) (n : Nonce) (now : Nat) (c' : NonceCache)
    (r : Except AttestError Unit) : Prop :=
  ∃ old kept, c.expiry = old ++ kept ∧ old.length ≤ MAX_EVICTIONS_PER_COMMIT ∧
    (∀ e ∈ old, NONCE_TTL ≤ now - e.2) ∧
    (∀ m ∈ c.seen, m ∉ c'.seen → ∃ t, (m, t) ∈ old) ∧
    ((r = .ok () ∧ c'.expiry = kept ++ [(n, now)] ∧ n ∈ c'.seen) ∨
      (r = .error .nonceReplay ∧ c'.expiry = kept ∧ n ∈ c.seen ∧ n ∈ c'.seen ∧
        ∀ t, (n, t) ∈ c'.expiry ↔ (n, t) ∈ c.expiry))

theorem NonceCache.RepInv.commitEffect {c : NonceCache} (h : c.RepInv) (n : Nonce)
    (now : Nat) : CommitEffect c n now (c.commit n now).1 (c.commit n now).2 := by
  refine ⟨c.dropped now, c.kept now, (c.dropped_append_kept now).symm, c.length_dropped_le now,
    fun e he => NonceCache.age_of_mem_dropped he, ?_, ?_⟩
  · have hev : ∀ m ∈ c.seen, m ∉ (c.evictExpired now).seen → ∃ t, (m, t) ∈ c.dropped now := by
      intro m hm hm'
      rw [NonceCache.evictExpired_eq] at hm'
      by_contra hd
      refine hm' (Finset.mem_sdiff.2 ⟨hm, fun hx => hd ?_⟩)
      exact NonceCache.mem_map_fst.1 (List.mem_toFinset.1 hx)
    intro m hm hm'
    rcases hc : c.commit n now with ⟨c', r⟩
    rw [hc] at hm'
    cases r with
    | error e =>
      obtain ⟨_, rfl, _⟩ := NonceCache.commit_error_spec hc
      exact hev m hm hm'
    | ok u =>
      obtain ⟨_, hseen, _⟩ := NonceCache.commit_ok_spec hc
      rw [hseen] at hm'
      exact hev m hm fun hx => hm' (Finset.mem_insert_of_mem hx)
  · rcases hc : c.commit n now with ⟨c', r⟩
    cases r with
    | ok u =>
      obtain ⟨_, hseen, hexp⟩ := NonceCache.commit_ok_spec hc
      exact Or.inl ⟨rfl, hexp, by rw [hseen]; exact Finset.mem_insert_self n _⟩
    | error e =>
      obtain ⟨hn, rfl, rfl⟩ := NonceCache.commit_error_spec hc
      have hexp : (c.evictExpired now).expiry = c.kept now := by rw [NonceCache.evictExpired_eq]
      obtain ⟨t₀, ht₀⟩ := ((h.evictExpired now).seen_iff n).1 hn
      rw [hexp] at ht₀
      refine Or.inr ⟨rfl, hexp, (h.seen_iff n).2 ⟨t₀, mem_of_mem_dropAged ht₀⟩, hn, fun t => ?_⟩
      rw [hexp]
      refine ⟨fun ht => mem_of_mem_dropAged ht, fun ht => ?_⟩
      -- the nonce is kept under some stamp, so its entry was not among the dropped ones
      rcases mem_split NONCE_TTL now MAX_EVICTIONS_PER_COMMIT ht with
        hd | hk
      · have hkey : n ∈ (c.kept now).map Prod.fst := NonceCache.mem_map_fst.2 ⟨t₀, ht₀⟩
        exact absurd (NonceCache.mem_map_fst.2 ⟨t, hd⟩) (h.distinct.not_mem_takeAged hkey)
      · exact hk

/-- **The replay cache over every run of calls whose times do not decrease.** -/
theorem nonceCache_run {tr : List (CacheCall × CacheReturn)} {c : NonceCache}
    (h : Run cacheSystem tr c) (hmono : (nowArgs tr).Pairwise (· ≤ ·)) :
    (∀ n, n ∈ c.seen ↔ ∃ t, (n, t) ∈ c.expiry) ∧
    (c.expiry.map Prod.fst).Nodup ∧
    c.expiry.Pairwise (fun a b => a.2 ≤ b.2) ∧
    (∀ n t now, Committed tr n t → (∀ x ∈ nowArgs tr, x ≤ now) → now - t < NONCE_TTL →
      n ∈ c.seen) ∧
    (∀ n ∈ c.seen, ∃ t, Committed tr n t) ∧
    ∀ n now, CommitEffect c n now (c.commit n now).1 (c.commit n now).2 := by
  have hinv := cacheInv_run h hmono
  refine ⟨hinv.rep.seen_iff, hinv.rep.distinct, hinv.rep.ordered, ?_, ?_,
    fun n now => hinv.rep.commitEffect n now⟩
  · intro n t now hc hle hyoung
    rcases hinv.fresh n t hc with hm | ⟨x, hx, ha⟩
    · exact (hinv.rep.seen_iff n).2 ⟨t, hm⟩
    · have := hle x hx
      omega
  · intro n hn
    obtain ⟨t, ht⟩ := (hinv.rep.seen_iff n).1 hn
    exact ⟨t, hinv.origin n t ht⟩

/-- A nonce committed at 0 and refused at 5: it is still in the cache at 6. -/
theorem nonceCache_run_resend :
    let n : Nonce := List.Vector.replicate NONCE_LEN 7
    let c : NonceCache := ⟨{n}, [(n, 0)]⟩
    Run cacheSystem [(.commit n 0, .committed (.ok ())),
      (.commit n 5, .committed (.error .nonceReplay))] c ∧ n ∈ c.seen := by
  have hrun : Run cacheSystem [(.commit (List.Vector.replicate NONCE_LEN 7) 0,
      .committed (.ok ())), (.commit (List.Vector.replicate NONCE_LEN 7) 5,
      .committed (.error .nonceReplay))]
      ⟨{List.Vector.replicate NONCE_LEN 7}, [(List.Vector.replicate NONCE_LEN 7, 0)]⟩ :=
    exec_run (l := [.commit _ 0, .commit _ 5]) rfl
  refine ⟨hrun, (nonceCache_run hrun (by decide)).2.2.2.1 _ 0 6 ?_ (by decide) (by decide)⟩
  exact List.mem_cons_self

end DenBrowser
