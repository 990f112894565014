import DenBrowser.Proxy.NonceCache
import Mathlib.Order.WellFounded

/-!
# The size of the replay cache

A commit drops at most `MAX_EVICTIONS_PER_COMMIT` aged entries, so after a burst the queue holds
a backlog of aged entries beside the young ones.  While there is a backlog every commit uses up
its budget, so the queue shrinks; once there is none, it holds the commits of one window.

* `commitTimes`, `commitsIn` — the successful commits of a run, and those in a window of length
  `NONCE_TTL`;
* `NonceCache.commit_backlog` — one commit, by whether it leaves a backlog;
* `nonceCache_length_le` — the bound, over every run of calls.
-/

set_option autoImplicit false

namespace DenBrowser

open RunLib AgedQueue

/-- The clock readings of a run's successful commits, in order. -/
def commitTimes (tr : List (CacheCall × CacheReturn)) : List Nat :=
  tr.filterMap fun e => match e with
    | (.commit _ now, .committed (.ok ())) => some now
    | _ => none

/-- The successful commits of a run in the window of length `NONCE_TTL` from `start` on. -/
def commitsIn (tr : List (CacheCall × CacheReturn)) (start : Nat) : Nat :=
  (commitTimes tr).countP fun t => decide (start ≤ t ∧ t < start + NONCE_TTL)

theorem commitTimes_append (tr tr' : List (CacheCall × CacheReturn)) :
    commitTimes (tr ++ tr') = commitTimes tr ++ commitTimes tr' :=
  List.filterMap_append

theorem commitsIn_le_append (tr tr' : List (CacheCall × CacheReturn)) (start : Nat) :
    commitsIn tr start ≤ commitsIn (tr ++ tr') start := by
  unfold commitsIn
  rw [commitTimes_append, List.countP_append]
  omega

namespace NonceCache

/-- The start of the window of length `NONCE_TTL` that ends at `now`. -/
def windowStart (now : Nat) : Nat := now + 1 - NONCE_TTL

theorem length_kept_add (c : NonceCache) (now : Nat) :
    (c.dropped now).length + (c.kept now).length = c.expiry.length := by
  rw [← List.length_append, dropped_append_kept]

/-- A commit's queue is what it kept, and its own entry if it succeeds. -/
theorem commit_queue (c : NonceCache) (n : Nonce) (now : Nat) :
    (∃ e, (c.commit n now).2 = .error e ∧ (c.commit n now).1.expiry = c.kept now) ∨
      (c.commit n now).2 = .ok () ∧ (c.commit n now).1.expiry = c.kept now ++ [(n, now)] := by
  rcases hc : c.commit n now with ⟨c', r⟩
  cases r with
  | error e =>
    obtain ⟨_, rfl, _⟩ := commit_error_spec hc
    exact Or.inl ⟨e, rfl, by rw [evictExpired_eq]⟩
  | ok u =>
    obtain ⟨_, _, hexp⟩ := commit_ok_spec hc
    exact Or.inr ⟨rfl, hexp⟩

theorem length_commit_le (c : NonceCache) (n : Nonce) (now : Nat) :
    (c.commit n now).1.expiry.length ≤ (c.kept now).length + 1 ∧
      (c.kept now).length ≤ (c.commit n now).1.expiry.length := by
  rcases c.commit_queue n now with ⟨_, _, hqueue⟩ | ⟨_, hqueue⟩
  · rw [hqueue]
    omega
  · rw [hqueue, List.length_append, List.length_singleton]
    omega

/-- The queue has no entry from after `now`, and every entry is in the window that ends then. -/
def InWindow (now : Nat) (q : List (Nonce × Nat)) : Prop :=
  ∀ e ∈ q, windowStart now ≤ e.2 ∧ e.2 < windowStart now + NONCE_TTL

theorem InWindow.push {now : Nat} {q : List (Nonce × Nat)} (h : InWindow now q) (n : Nonce) :
    InWindow now (q ++ [(n, now)]) := by
  have hpos : 0 < NONCE_TTL := by decide
  intro e he
  rcases List.mem_append.1 he with he | he
  · exact h e he
  · rw [List.mem_singleton.1 he]
    unfold windowStart
    dsimp only
    omega

/-- **One commit, by whether it leaves a backlog.**  If it does, it has dropped all it may and
the queue has not grown; if not, every entry is in the window that ends at the commit. -/
theorem commit_backlog {c : NonceCache} (hord : Ordered c.expiry) (n : Nonce) {now : Nat}
    (hnow : ∀ e ∈ c.expiry, e.2 ≤ now) :
    (c.commit n now).1.expiry.length ≤ c.expiry.length ∨
      InWindow now (c.commit n now).1.expiry := by
  by_cases hbacklog : ∃ e ∈ c.kept now, NONCE_TTL ≤ now - e.2
  · have hdropped : (c.dropped now).length = MAX_EVICTIONS_PER_COMMIT :=
      Ordered.length_takeAged hord hbacklog
    have hmax : 1 ≤ MAX_EVICTIONS_PER_COMMIT := by decide
    have hsum := c.length_kept_add now
    have hlen := (c.length_commit_le n now).1
    exact Or.inl (by omega)
  · have hkept : InWindow now (c.kept now) := by
      intro e he
      have hle : e.2 ≤ now := hnow e (mem_of_mem_dropAged he)
      have hyoung : now - e.2 < NONCE_TTL := Nat.lt_of_not_le fun h => hbacklog ⟨e, he, h⟩
      unfold windowStart
      omega
    rcases c.commit_queue n now with ⟨_, _, hqueue⟩ | ⟨_, hqueue⟩
    · rw [hqueue]
      exact Or.inr hkept
    · rw [hqueue]
      exact Or.inr (hkept.push n)

end NonceCache

/-! ## Runs -/

/-- The queue holds the run's last successful commits, and no more entries than some window has
commits. -/
structure SizeInv (tr : List (CacheCall × CacheReturn)) (c : NonceCache) : Prop where
  queued : c.expiry.map Prod.snd <:+ commitTimes tr
  bounded : ∃ start, c.expiry.length ≤ commitsIn tr start

theorem commitTimes_append_ok (tr : List (CacheCall × CacheReturn)) (n : Nonce) (now : Nat) :
    commitTimes (tr ++ [(.commit n now, .committed (.ok ()))]) = commitTimes tr ++ [now] :=
  commitTimes_append tr _

theorem kept_suffix {tr : List (CacheCall × CacheReturn)} {c : NonceCache}
    (h : c.expiry.map Prod.snd <:+ commitTimes tr) (now : Nat) :
    (c.kept now).map Prod.snd <:+ commitTimes tr :=
  ((dropAged_suffix MAX_EVICTIONS_PER_COMMIT c.expiry).map Prod.snd).trans h

/-- A commit's queue holds the run's last successful commits. -/
theorem queued_commit {tr : List (CacheCall × CacheReturn)} {c : NonceCache}
    (h : c.expiry.map Prod.snd <:+ commitTimes tr) (n : Nonce) (now : Nat) :
    (c.commit n now).1.expiry.map Prod.snd <:+
      commitTimes (tr ++ [(.commit n now, .committed (c.commit n now).2)]) := by
  have hkept := kept_suffix h now
  rcases c.commit_queue n now with ⟨e, hret, hqueue⟩ | ⟨hret, hqueue⟩
  · rw [hret, hqueue, commitTimes_append]
    simpa [commitTimes] using hkept
  · obtain ⟨before, hbefore⟩ := hkept
    refine ⟨before, ?_⟩
    rw [hret, hqueue, List.map_append, commitTimes_append_ok, ← hbefore, List.append_assoc]
    rfl

/-- A queue within one window is no longer than the window's commits. -/
theorem length_le_of_inWindow {tr : List (CacheCall × CacheReturn)} {c : NonceCache} {now : Nat}
    (h : c.expiry.map Prod.snd <:+ commitTimes tr) (hwindow : NonceCache.InWindow now c.expiry) :
    c.expiry.length ≤ commitsIn tr (NonceCache.windowStart now) := by
  have hall : (c.expiry.map Prod.snd).countP (fun t => decide
      (NonceCache.windowStart now ≤ t ∧ t < NonceCache.windowStart now + NONCE_TTL)) =
      (c.expiry.map Prod.snd).length := by
    rw [List.countP_eq_length]
    intro t ht
    obtain ⟨e, he, rfl⟩ := List.mem_map.1 ht
    exact decide_eq_true (hwindow e he)
  rw [List.length_map] at hall
  rw [← hall]
  exact h.sublist.countP_le

/-- A successful or refused commit keeps the bound. -/
theorem SizeInv.commit {tr : List (CacheCall × CacheReturn)} {c : NonceCache}
    (h : SizeInv tr c) (hcache : CacheInv tr c) (n : Nonce) {now : Nat}
    (hnow : ∀ x ∈ nowArgs tr, x ≤ now) :
    SizeInv (tr ++ [(.commit n now, .committed (c.commit n now).2)]) (c.commit n now).1 := by
  have hqueued := queued_commit h.queued n now
  refine ⟨hqueued, ?_⟩
  obtain ⟨start, hstart⟩ := h.bounded
  rcases NonceCache.commit_backlog hcache.rep.ordered n
    (fun e he => hnow e.2 (hcache.stamps e he)) with hle | hwindow
  · exact ⟨start, hle.trans (hstart.trans (commitsIn_le_append _ _ _))⟩
  · exact ⟨NonceCache.windowStart now, length_le_of_inWindow hqueued hwindow⟩

theorem sizeInv_run {tr : List (CacheCall × CacheReturn)} {c : NonceCache}
    (h : Run cacheSystem tr c) (hmono : (nowArgs tr).Pairwise (· ≤ ·)) : SizeInv tr c := by
  refine Run.invariant_under (fun tr => (nowArgs tr).Pairwise (· ≤ ·)) SizeInv ?_ ?_ ?_ h hmono
  · exact fun tr e hA => pairwise_nowArgs_of_append hA
  · exact ⟨List.nil_suffix, 0, Nat.zero_le _⟩
  · rintro tr c (n | ⟨n, now⟩) c' o hrun hinv hA hs
    · cases hs
      refine ⟨?_, ?_⟩
      · rw [commitTimes_append]
        simpa [commitTimes] using hinv.queued
      · obtain ⟨start, hstart⟩ := hinv.bounded
        exact ⟨start, hstart.trans (commitsIn_le_append _ _ _)⟩
    · cases hs
      have hcache := cacheInv_run hrun (pairwise_nowArgs_of_append hA)
      rw [nowArgs_append_commit] at hA
      exact hinv.commit hcache n fun x hx => (List.pairwise_append.1 hA).2.2 x hx now (by simp)

/-- Some window has the most commits. -/
theorem exists_fullest (tr : List (CacheCall × CacheReturn)) :
    ∃ start, ∀ s, commitsIn tr s ≤ commitsIn tr start := by
  have hle : ∀ s, commitsIn tr s ≤ (commitTimes tr).length := fun s => List.countP_le_length
  obtain ⟨start, _, hmin⟩ := (measure fun s => (commitTimes tr).length - commitsIn tr s).wf.has_min
    Set.univ ⟨0, trivial⟩
  refine ⟨start, fun s => ?_⟩
  have hs := hmin s trivial
  have hs' : ¬(commitTimes tr).length - commitsIn tr s <
      (commitTimes tr).length - commitsIn tr start := hs
  have := hle s
  have := hle start
  omega

/-- **The bound on the replay cache.**  After every run of calls whose times do not decrease,
the queue is no longer than the fullest window of length `NONCE_TTL` has successful commits,
although a commit drops at most `MAX_EVICTIONS_PER_COMMIT` entries. -/
theorem nonceCache_length_le {tr : List (CacheCall × CacheReturn)} {c : NonceCache}
    (h : Run cacheSystem tr c) (hmono : (nowArgs tr).Pairwise (· ≤ ·)) :
    (∃ start, (∀ s, commitsIn tr s ≤ commitsIn tr start) ∧
      c.expiry.length ≤ commitsIn tr start) ∧
    ∀ n now, c.expiry.length ≤ (c.commit n now).1.expiry.length + MAX_EVICTIONS_PER_COMMIT := by
  refine ⟨?_, fun n now => ?_⟩
  · obtain ⟨fullest, hfullest⟩ := exists_fullest tr
    obtain ⟨start, hstart⟩ := (sizeInv_run h hmono).bounded
    exact ⟨fullest, hfullest, hstart.trans (hfullest start)⟩
  · have hsum := c.length_kept_add now
    have hdropped := c.length_dropped_le now
    have hkept := (c.length_commit_le n now).2
    omega

/-- Two commits, the second after the first has aged: one entry is left. -/
theorem nonceCache_length_le_trickle :
    let n : Nonce := List.Vector.replicate NONCE_LEN 7
    let m : Nonce := List.Vector.replicate NONCE_LEN 8
    let tr : List (CacheCall × CacheReturn) := [(.commit n 0, .committed (.ok ())),
      (.commit m NONCE_TTL, .committed (.ok ()))]
    Run cacheSystem tr ⟨{m}, [(m, NONCE_TTL)]⟩ ∧
      ∃ start, (∀ s, commitsIn tr s ≤ commitsIn tr start) ∧ 1 ≤ commitsIn tr start := by
  intro n m tr
  have hrun : Run cacheSystem tr ⟨{m}, [(m, NONCE_TTL)]⟩ :=
    exec_run (l := [.commit n 0, .commit m NONCE_TTL]) rfl
  exact ⟨hrun, (nonceCache_length_le hrun (by decide)).1⟩

end DenBrowser
