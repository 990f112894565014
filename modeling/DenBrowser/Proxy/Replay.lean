import DenBrowser.Proxy.Attest
import Mathlib.Logic.Function.Basic

/-!
# Replay safety

Any number of requests in flight, each going through `verify_headers` and then `commit_nonce`
or `verify_body_and_commit` one step at a time.  Every access to a clock or to the cache is a
step of its own; between two steps of one request the clocks move and other requests run.  The
cache's mutex is held from the replay check of the commit to its end.

* `step_effect` — what one step can do;
* `proxyInv_run` — the lock discipline, and what a request holding the lock knows;
* `phase1_of_accepted` — the steps of phase 1 add up to `verifyHeaders`;
* `commit_step_eq` — the steps of the commit add up to `commitNonce`;
* `no_double_commit` — no (nonce, timestamp) pair is committed twice.
-/

set_option autoImplicit false

namespace DenBrowser

open RunLib AgedQueue

/-- A reading of the two clocks. -/
structure Clocks where
  wall : SystemTime
  mono : Nat

/-- Where a request is.  `locked` to `stamped` hold the cache's lock: before the replay check,
before the wall-clock read, before the monotonic read and before `NonceCache::commit`. -/
inductive Phase where
  | idle
  | arrived (i : AttestInputs)
  | lookup (i : AttestInputs) (ts : Int) (nonce : Nonce)
  | opening (i : AttestInputs) (ts : Int) (nonce : Nonce)
  | accepted (p1 : PhaseOne)
  | waiting (p1 : PhaseOne)
  | locked (p1 : PhaseOne)
  | window (p1 : PhaseOne)
  | stamping (p1 : PhaseOne)
  | stamped (p1 : PhaseOne) (now : Nat)
  | rejected (e : AttestError)
  | finished (r : Except AttestError Unit)

def Phase.holds : Phase → Bool
  | .locked _ | .window _ | .stamping _ | .stamped _ _ => true
  | _ => false

/-- The verifier's shared state and the requests in flight. -/
structure World where
  clocks : Clocks
  cache : NonceCache
  lock : Option Nat
  reqs : Nat → Phase

def World.set (w : World) (r : Nat) (p : Phase) : World :=
  { w with reqs := Function.update w.reqs r p }

/-- What happens next: the clocks move, a request arrives, a request takes its next step, or
the caller of an accepted request goes on to `commit_nonce` (`none`) or to
`verify_body_and_commit` with the hash of the received body. -/
inductive Act where
  | tick (c : Clocks)
  | arrive (r : Nat) (i : AttestInputs)
  | go (r : Nat)
  | enter (r : Nat) (actual : Option Hash)

/-- What `commit_nonce` or `verify_body_and_commit` returned, and for which request. -/
structure CommitReturn where
  p1 : PhaseOne
  result : Except AttestError Unit

/-- Release the lock and return. -/
def World.finish (w : World) (r : Nat) (p1 : PhaseOne) (res : Except AttestError Unit) :
    World × Option CommitReturn :=
  ({ w with lock := none }.set r (.finished res), some ⟨p1, res⟩)

/-- The next step of a request. -/
def World.go (K : Crypto) (sk : K.SecretKey) (w : World) (r : Nat) :
    Option (World × Option CommitReturn) :=
  match w.reqs r with
  | .arrived i =>
    match checkTimestamp i w.clocks.wall with
    | .error e => some (w.set r (.rejected e), none)
    | .ok ts =>
      match decodeNonce K i with
      | .error e => some (w.set r (.rejected e), none)
      | .ok n => some (w.set r (.lookup i ts n), none)
  | .lookup i ts n =>
    if w.lock = none then
      if w.cache.contains n then some (w.set r (.rejected .nonceReplay), none)
      else some (w.set r (.opening i ts n), none)
    else none
  | .opening i ts n =>
    match openToken K sk i with
    | .error e => some (w.set r (.rejected e), none)
    | .ok b => some (w.set r (.accepted ⟨n, b, ts⟩), none)
  | .waiting p1 =>
    if w.lock = none then some ({ w with lock := some r }.set r (.locked p1), none) else none
  | .locked p1 =>
    if w.cache.contains p1.nonce then some (w.finish r p1 (.error .nonceReplay))
    else some (w.set r (.window p1), none)
  | .window p1 =>
    match checkCommitWindow p1.ts (unixNow w.clocks.wall) with
    | .error e => some (w.finish r p1 (.error e))
    | .ok () => some (w.set r (.stamping p1), none)
  | .stamping p1 => some (w.set r (.stamped p1 w.clocks.mono), none)
  | .stamped p1 now =>
    some ({ w with cache := (w.cache.commit p1.nonce now).1 }.finish r p1
      (w.cache.commit p1.nonce now).2)
  | _ => none

def World.step (K : Crypto) (sk : K.SecretKey) (w : World) :
    Act → Option (World × Option CommitReturn)
  | .tick c => some ({ w with clocks := c }, none)
  | .arrive r i =>
    match w.reqs r with
    | .idle => some (w.set r (.arrived i), none)
    | _ => none
  | .go r => w.go K sk r
  | .enter r actual =>
    match w.reqs r with
    | .accepted p1 =>
      match p1.bodyBinding, actual with
      | .hash expected, some h =>
        if expected ≠ h then
          some (w.set r (.finished (.error .bodyHashMismatch)),
            some ⟨p1, .error .bodyHashMismatch⟩)
        else some (w.set r (.waiting p1), none)
      | _, _ => some (w.set r (.waiting p1), none)
    | _ => none

/-- The verifier started at `c₀`, with an empty cache and no requests. -/
def proxySystem (K : Crypto) (sk : K.SecretKey) (c₀ : Clocks) :
    System World Act (Option CommitReturn) where
  init := ⟨c₀, .empty, none, fun _ => .idle⟩
  step := World.step K sk

/-- The clock readings of a run, in order. -/
def clockPoints (c₀ : Clocks) (tr : List (Act × Option CommitReturn)) : List Clocks :=
  c₀ :: tr.filterMap fun e => match e.1 with
    | .tick c => some c
    | _ => none

/-- The (nonce, timestamp) pairs whose commit returned `Ok`, in order. -/
def okCommits (tr : List (Act × Option CommitReturn)) : List (Nonce × Int) :=
  tr.filterMap fun e => match e.2 with
    | some ⟨p1, .ok ()⟩ => some (p1.nonce, p1.ts)
    | _ => none

/-- From `a` to the later `b` the monotonic clock does not decrease, and the wall clock
advances by at least the monotonic advance minus 59 s. -/
def Tame (a b : Clocks) : Prop :=
  a.mono ≤ b.mono ∧
    (b.mono : Int) - a.mono - (59 * NANOS : Nat) ≤ b.wall.nanos - a.wall.nanos

instance : DecidableRel Tame := fun a b =>
  inferInstanceAs (Decidable (a.mono ≤ b.mono ∧ _ ≤ _))

/-- The clocks of a run: tame between any two points, and the wall clock is never before the
Unix epoch. -/
structure TameRun (c₀ : Clocks) (tr : List (Act × Option CommitReturn)) : Prop where
  tame : (clockPoints c₀ tr).Pairwise Tame
  epoch : ∀ c ∈ clockPoints c₀ tr, 0 ≤ c.wall.nanos

/-! ## What one step can do -/

/-- The effect of a step, apart from the clocks. -/
inductive Effect (w : World) : World → Option CommitReturn → Prop
  /-- A step of phase 1, or a body mismatch: the request does not hold the lock, before or
  after, and no shared state changes. -/
  | free {r : Nat} {p : Phase} {o : Option CommitReturn} :
      (w.reqs r).holds = false → p.holds = false → (∀ x, o = some x → x.result ≠ .ok ()) →
      Effect w (w.set r p) o
  | acquire {r : Nat} {p1 : PhaseOne} :
      w.reqs r = .waiting p1 → w.lock = none →
      Effect w ({ w with lock := some r }.set r (.locked p1)) none
  | unseen {r : Nat} {p1 : PhaseOne} :
      w.reqs r = .locked p1 → p1.nonce ∉ w.cache.seen → Effect w (w.set r (.window p1)) none
  | inWindow {r : Nat} {p1 : PhaseOne} :
      w.reqs r = .window p1 → checkCommitWindow p1.ts (unixNow w.clocks.wall) = .ok () →
      Effect w (w.set r (.stamping p1)) none
  | stamp {r : Nat} {p1 : PhaseOne} :
      w.reqs r = .stamping p1 → Effect w (w.set r (.stamped p1 w.clocks.mono)) none
  | refuse {r : Nat} {p1 : PhaseOne} {e : AttestError} :
      (w.reqs r).holds = true →
      Effect w (w.finish r p1 (.error e)).1 (some ⟨p1, .error e⟩)
  | commit {r : Nat} {p1 : PhaseOne} {now : Nat} :
      w.reqs r = .stamped p1 now →
      Effect w ({ w with cache := (w.cache.commit p1.nonce now).1 }.finish r p1
          (w.cache.commit p1.nonce now).2).1
        (some ⟨p1, (w.cache.commit p1.nonce now).2⟩)

/-- **What one step can do.** -/
theorem step_effect {K : Crypto} {sk : K.SecretKey} {w w' : World} {a : Act}
    {o : Option CommitReturn} (h : w.step K sk a = some (w', o)) :
    (∃ c, a = .tick c ∧ w' = { w with clocks := c } ∧ o = none) ∨
      ((∀ c, a ≠ .tick c) ∧ Effect w w' o) := by
  cases a with
  | tick c => cases h; exact Or.inl ⟨c, rfl, rfl, rfl⟩
  | arrive r i =>
    refine Or.inr ⟨by simp, ?_⟩
    simp only [World.step] at h
    split at h
    · rename_i hr
      cases h
      exact .free (by rw [hr]; rfl) rfl (by simp)
    · cases h
  | enter r actual =>
    refine Or.inr ⟨by simp, ?_⟩
    simp only [World.step] at h
    split at h
    · rename_i p1 hr
      split at h
      · split at h
        · cases h
          exact .free (by rw [hr]; rfl) rfl (by rintro x ⟨⟩; simp)
        · cases h
          exact .free (by rw [hr]; rfl) rfl (by simp)
      · cases h
        exact .free (by rw [hr]; rfl) rfl (by simp)
    · cases h
  | go r =>
    refine Or.inr ⟨by simp, ?_⟩
    simp only [World.step, World.go] at h
    split at h
    · rename_i hr
      have hf : (w.reqs r).holds = false := by rw [hr]; rfl
      split at h
      · cases h; exact .free hf rfl (by simp)
      · split at h
        · cases h; exact .free hf rfl (by simp)
        · cases h; exact .free hf rfl (by simp)
    · rename_i hr
      have hf : (w.reqs r).holds = false := by rw [hr]; rfl
      split at h
      · split at h
        · cases h; exact .free hf rfl (by simp)
        · cases h; exact .free hf rfl (by simp)
      · cases h
    · rename_i hr
      have hf : (w.reqs r).holds = false := by rw [hr]; rfl
      split at h
      · cases h; exact .free hf rfl (by simp)
      · cases h; exact .free hf rfl (by simp)
    · rename_i hr
      split at h
      · rename_i hl
        cases h; exact .acquire hr hl
      · cases h
    · rename_i hr
      split at h
      · cases h; exact .refuse (by rw [hr]; rfl)
      · rename_i hn
        cases h
        exact .unseen hr (by simpa [NonceCache.contains] using hn)
    · rename_i hr
      split at h
      · cases h; exact .refuse (by rw [hr]; rfl)
      · rename_i hw
        cases h; exact .inWindow hr hw
    · rename_i hr
      cases h; exact .stamp hr
    · rename_i hr
      cases h; exact .commit hr
    · cases h

/-! ## The invariant -/

section Invariant

variable {c₀ : Clocks} {tr tr' : List (Act × Option CommitReturn)} {w w' : World}

/-- What a request has established in a phase that holds the lock. -/
def Known (c₀ : Clocks) (tr : List (Act × Option CommitReturn)) (w : World) : Phase → Prop
  | .window p1 => p1.nonce ∉ w.cache.seen
  | .stamping p1 =>
    p1.nonce ∉ w.cache.seen ∧ (p1.nonce, p1.ts) ∉ okCommits tr ∧
      ∃ c ∈ clockPoints c₀ tr, checkCommitWindow p1.ts (unixNow c.wall) = .ok ()
  | .stamped p1 now =>
    p1.nonce ∉ w.cache.seen ∧ (p1.nonce, p1.ts) ∉ okCommits tr ∧ now ≤ w.clocks.mono ∧
      (∀ e ∈ w.cache.expiry, e.2 ≤ now) ∧
      ∃ c ∈ clockPoints c₀ tr,
        c.mono ≤ now ∧ checkCommitWindow p1.ts (unixNow c.wall) = .ok ()
  | _ => True

/-- The pair was committed at some stamp, after a wall-clock read inside its commit window;
its entry is queued until the monotonic clock has advanced by `NONCE_TTL` since. -/
def CommitRecord (c₀ : Clocks) (tr : List (Act × Option CommitReturn)) (w : World) (n : Nonce)
    (ts : Int) : Prop :=
  ∃ c ∈ clockPoints c₀ tr, ∃ m : Nat, checkCommitWindow ts (unixNow c.wall) = .ok () ∧
    c.mono ≤ m ∧ ((n, m) ∈ w.cache.expiry ∨ m + NONCE_TTL ≤ w.clocks.mono)

structure ProxyInv (c₀ : Clocks) (tr : List (Act × Option CommitReturn)) (w : World) : Prop where
  lock : ∀ r, (w.reqs r).holds = true ↔ w.lock = some r
  known : ∀ r, Known c₀ tr w (w.reqs r)
  rep : w.cache.RepInv
  stamps : ∀ e ∈ w.cache.expiry, e.2 ≤ w.clocks.mono
  current : w.clocks ∈ clockPoints c₀ tr
  tame : ∀ c ∈ clockPoints c₀ tr, Tame c w.clocks
  recorded : ∀ n ts, (n, ts) ∈ okCommits tr → CommitRecord c₀ tr w n ts
  nodup : (okCommits tr).Nodup

theorem Tame.refl (a : Clocks) : Tame a a := by
  refine ⟨Nat.le_refl _, ?_⟩
  have : (0 : Int) ≤ (59 * NANOS : Nat) := Int.natCast_nonneg _
  omega

theorem known_of_not_holds {p : Phase} (h : p.holds = false) : Known c₀ tr w p := by
  cases p <;> trivial

/-- What is known depends on the shared state and on the past only. -/
theorem known_congr (hp : clockPoints c₀ tr' = clockPoints c₀ tr)
    (ho : okCommits tr' = okCommits tr) (hc : w'.cache = w.cache)
    (hk : w'.clocks = w.clocks) {p : Phase} (h : Known c₀ tr w p) : Known c₀ tr' w' p := by
  cases p <;> simp only [Known, hp, ho, hc, hk] at h ⊢ <;> exact h

theorem clockPoints_append (c₀ : Clocks) (tr : List (Act × Option CommitReturn)) {a : Act}
    {o : Option CommitReturn} (h : ∀ c, a ≠ .tick c) :
    clockPoints c₀ (tr ++ [(a, o)]) = clockPoints c₀ tr := by
  cases a with
  | tick c => exact absurd rfl (h c)
  | _ => simp [clockPoints]

theorem clockPoints_append_tick (c₀ : Clocks) (tr : List (Act × Option CommitReturn)) (c : Clocks)
    (o : Option CommitReturn) :
    clockPoints c₀ (tr ++ [(.tick c, o)]) = clockPoints c₀ tr ++ [c] := by
  simp [clockPoints]

theorem okCommits_append_refused (tr : List (Act × Option CommitReturn)) (a : Act)
    {o : Option CommitReturn} (h : ∀ x, o = some x → x.result ≠ .ok ()) :
    okCommits (tr ++ [(a, o)]) = okCommits tr := by
  rcases o with _ | ⟨p1, e | u⟩
  · simp [okCommits]
  · simp [okCommits]
  · exact absurd rfl (h _ rfl)

theorem okCommits_append_ok (tr : List (Act × Option CommitReturn)) (a : Act) (p1 : PhaseOne) :
    okCommits (tr ++ [(a, some ⟨p1, .ok ()⟩)]) = okCommits tr ++ [(p1.nonce, p1.ts)] := by
  simp [okCommits]

/-- Setting one request's phase, with the lock moved accordingly, keeps the lock discipline. -/
theorem lock_set {r : Nat} {p : Phase} {l : Option Nat}
    (h : ∀ s, (w.reqs s).holds = true ↔ w.lock = some s)
    (hr : p.holds = true ↔ l = some r)
    (hs : ∀ s, s ≠ r → (w.lock = some s ↔ l = some s)) (s : Nat) :
    (({ w with lock := l }.set r p).reqs s).holds = true ↔ l = some s := by
  by_cases hsr : s = r
  · subst hsr
    simpa [World.set] using hr
  · simp only [World.set, Function.update_of_ne hsr]
    rw [h s, hs s hsr]

/-- A step that changes one request's phase and possibly the lock, and nothing else shared. -/
theorem ProxyInv.quiet (h : ProxyInv c₀ tr w) {a : Act} {o : Option CommitReturn} {r : Nat}
    {p : Phase} {l : Option Nat} (ha : ∀ c, a ≠ .tick c)
    (ho : ∀ x, o = some x → x.result ≠ .ok ()) (hr : p.holds = true ↔ l = some r)
    (hs : ∀ s, s ≠ r → (w.lock = some s ↔ l = some s)) (hk : Known c₀ tr w p) :
    ProxyInv c₀ (tr ++ [(a, o)]) ({ w with lock := l }.set r p) := by
  have hpts := clockPoints_append c₀ tr (o := o) ha
  have hok := okCommits_append_refused tr a ho
  refine ⟨lock_set h.lock hr hs, fun s => ?_, h.rep, h.stamps, ?_, ?_, ?_, ?_⟩
  · refine known_congr (w := w) hpts hok rfl rfl ?_
    by_cases hsr : s = r
    · subst hsr
      simpa [World.set] using hk
    · simpa only [World.set, Function.update_of_ne hsr] using h.known s
  · rw [hpts]; exact h.current
  · rw [hpts]; exact h.tame
  · intro n ts hm
    rw [hok] at hm
    obtain ⟨c, hc, m, hrec⟩ := h.recorded n ts hm
    exact ⟨c, by rw [hpts]; exact hc, m, hrec⟩
  · rw [hok]; exact h.nodup

/-- The clocks move. -/
theorem ProxyInv.tick (h : ProxyInv c₀ tr w) {c : Clocks} {o : Option CommitReturn}
    (ho : o = none) (htame : (clockPoints c₀ (tr ++ [(.tick c, o)])).Pairwise Tame) :
    ProxyInv c₀ (tr ++ [(.tick c, o)]) { w with clocks := c } := by
  have hpts := clockPoints_append_tick c₀ tr c o
  have hok : okCommits (tr ++ [(.tick c, o)]) = okCommits tr :=
    okCommits_append_refused tr _ (by rw [ho]; simp)
  rw [hpts] at htame
  have hnew : ∀ d ∈ clockPoints c₀ tr, Tame d c := fun d hd =>
    (List.pairwise_append.1 htame).2.2 d hd c (by simp)
  have hle : w.clocks.mono ≤ c.mono := (hnew _ h.current).1
  refine ⟨h.lock, fun r => ?_, h.rep, fun e he => Nat.le_trans (h.stamps e he) hle, ?_, ?_, ?_, ?_⟩
  · have hk := h.known r
    show Known c₀ _ _ (w.reqs r)
    cases hp : w.reqs r with
    | window p1 => rw [hp] at hk; exact hk
    | stamping p1 =>
      rw [hp] at hk
      obtain ⟨h1, h2, d, hd, h3⟩ := hk
      exact ⟨h1, by rw [hok]; exact h2, d, by rw [hpts]; exact List.mem_append_left _ hd, h3⟩
    | stamped p1 now =>
      rw [hp] at hk
      obtain ⟨h1, h2, h3, h4, d, hd, h5⟩ := hk
      exact ⟨h1, by rw [hok]; exact h2, Nat.le_trans h3 hle, h4, d,
        by rw [hpts]; exact List.mem_append_left _ hd, h5⟩
    | _ => trivial
  · rw [hpts]; simp
  · intro d hd
    rw [hpts] at hd
    rcases List.mem_append.1 hd with hd | hd
    · exact hnew d hd
    · rw [List.mem_singleton.1 hd]; exact Tame.refl c
  · intro n ts hm
    rw [hok] at hm
    obtain ⟨d, hd, m, h1, h2, h3⟩ := h.recorded n ts hm
    refine ⟨d, by rw [hpts]; exact List.mem_append_left _ hd, m, h1, h2, ?_⟩
    rcases h3 with h3 | h3
    · exact Or.inl h3
    · exact Or.inr (Nat.le_trans h3 hle)
  · rw [hok]; exact h.nodup

/-- **The three windows.**  Two wall-clock reads inside the commit window of one timestamp are
less than 121 s apart, so tame clocks cannot have advanced by `NONCE_TTL` between them. -/
theorem windows_overlap {a b : Clocks} {ts : Int} {m : Nat} (hab : Tame a b)
    (ha : 0 ≤ a.wall.nanos) (hb : 0 ≤ b.wall.nanos)
    (hwa : checkCommitWindow ts (unixNow a.wall) = .ok ())
    (hwb : checkCommitWindow ts (unixNow b.wall) = .ok ()) (ham : a.mono ≤ m)
    (hmb : m + NONCE_TTL ≤ b.mono) : False := by
  rw [checkCommitWindow_ok_iff] at hwa hwb
  have hfa := (unixNow_floor ha).1
  have hfb := (unixNow_floor hb).2
  have hadv := hab.2
  have hn : NANOS = 1000000000 := rfl
  have httl : NONCE_TTL = 180000000000 := rfl
  rw [hn] at hfa hfb hadv
  rw [httl] at hmb
  omega

/-- A request inside its commit window, holding the lock and not finding its nonce, has not
been committed before. -/
theorem ProxyInv.not_committed (h : ProxyInv c₀ tr w)
    (hep : ∀ c ∈ clockPoints c₀ tr, 0 ≤ c.wall.nanos) {p1 : PhaseOne}
    (hn : p1.nonce ∉ w.cache.seen)
    (hw : checkCommitWindow p1.ts (unixNow w.clocks.wall) = .ok ()) :
    (p1.nonce, p1.ts) ∉ okCommits tr := by
  intro hm
  obtain ⟨c, hc, m, hcw, hcm, hrec⟩ := h.recorded _ _ hm
  rcases hrec with hq | hage
  · exact hn ((h.rep.seen_iff _).2 ⟨m, hq⟩)
  · exact windows_overlap (h.tame c hc) (hep c hc) (hep _ h.current) hcw hw hcm hage

/-- The commit itself. -/
theorem ProxyInv.commit (h : ProxyInv c₀ tr w) {a : Act} {r : Nat} {p1 : PhaseOne} {now : Nat}
    (ha : ∀ c, a ≠ .tick c) (hr : w.reqs r = .stamped p1 now) :
    ProxyInv c₀ (tr ++ [(a, some ⟨p1, (w.cache.commit p1.nonce now).2⟩)])
      ({ w with cache := (w.cache.commit p1.nonce now).1 }.finish r p1
        (w.cache.commit p1.nonce now).2).1 := by
  have hk := h.known r
  rw [hr] at hk
  obtain ⟨hseen, hnot, hnow, hst, c, hc, hcm, hcw⟩ := hk
  obtain ⟨c', hcom⟩ := NonceCache.commit_of_not_mem now hseen
  have hrep := h.rep.commit (n := p1.nonce) hst
  have hst' := NonceCache.commit_stamps_le (n := p1.nonce) hst
  obtain ⟨_, _, hexp⟩ := NonceCache.commit_ok_spec hcom
  rw [hcom] at hrep hst' ⊢
  have hpts := clockPoints_append c₀ tr (o := some ⟨p1, .ok ()⟩) ha
  have hok := okCommits_append_ok tr a p1
  have hlock : w.lock = some r := (h.lock r).1 (by rw [hr]; rfl)
  have hothers : ∀ s, s ≠ r → (w.reqs s).holds = false := by
    intro s hs
    rw [Bool.eq_false_iff]
    intro hh
    have := (h.lock s).1 hh
    rw [hlock] at this
    exact hs (Option.some.inj this).symm
  refine ⟨?_, fun s => known_of_not_holds ?_, hrep, fun e he => Nat.le_trans (hst' e he) hnow, ?_,
    ?_, ?_, ?_⟩
  · refine lock_set (w := { w with cache := c' }) h.lock (by simp [Phase.holds]) ?_
    intro s hs
    show w.lock = some s ↔ none = some s
    rw [hlock]
    simp [Ne.symm hs]
  · by_cases hsr : s = r
    · subst hsr; simp [World.finish, World.set, Phase.holds]
    · simpa [World.finish, World.set, Function.update_of_ne hsr] using hothers s hsr
  · rw [hpts]; exact h.current
  · rw [hpts]; exact h.tame
  · intro n ts hm
    rw [hok] at hm
    rcases List.mem_append.1 hm with hm | hm
    · obtain ⟨d, hd, m, h1, h2, h3⟩ := h.recorded n ts hm
      refine ⟨d, by rw [hpts]; exact hd, m, h1, h2, ?_⟩
      rcases h3 with hq | hage
      · rw [← w.cache.dropped_append_kept now] at hq
        rcases List.mem_append.1 hq with hq | hq
        · have := NonceCache.age_of_mem_dropped hq
          have httl : 0 < NONCE_TTL := by decide
          refine Or.inr (Nat.le_trans ?_ hnow)
          simp only at this
          omega
        · refine Or.inl ?_
          show (n, m) ∈ c'.expiry
          rw [hexp]
          exact List.mem_append_left _ hq
      · exact Or.inr hage
    · simp only [List.mem_singleton, Prod.mk.injEq] at hm
      obtain ⟨rfl, rfl⟩ := hm
      refine ⟨c, by rw [hpts]; exact hc, now, hcw, hcm, Or.inl ?_⟩
      show (p1.nonce, now) ∈ c'.expiry
      rw [hexp]
      exact List.mem_append_right _ (by simp)
  · rw [hok, List.nodup_append]
    refine ⟨h.nodup, by simp, ?_⟩
    intro x hx y hy hxy
    rw [List.mem_singleton.1 hy] at hxy
    exact hnot (hxy ▸ hx)

/-- **One step keeps the invariant.** -/
theorem ProxyInv.effect (h : ProxyInv c₀ tr w)
    (hep : ∀ c ∈ clockPoints c₀ tr, 0 ≤ c.wall.nanos) {a : Act} {o : Option CommitReturn}
    (ha : ∀ c, a ≠ .tick c) (he : Effect w w' o) : ProxyInv c₀ (tr ++ [(a, o)]) w' := by
  cases he with
  | @free r p _ hr hp ho =>
    refine h.quiet (l := w.lock) ha ho ?_ (fun s _ => Iff.rfl) (known_of_not_holds hp)
    rw [← h.lock r, hr, hp]
  | @acquire r p1 hr hl =>
    refine h.quiet (p := .locked p1) ha (by simp) (by simp [Phase.holds]) ?_ trivial
    intro s hs
    simp [hl, Ne.symm hs]
  | @unseen r p1 hr hn =>
    refine h.quiet (l := w.lock) ha (by simp) ?_ (fun s _ => Iff.rfl) hn
    rw [← h.lock r, hr]; simp [Phase.holds]
  | @inWindow r p1 hr hw =>
    have hk := h.known r
    rw [hr] at hk
    refine h.quiet (l := w.lock) ha (by simp) ?_ (fun s _ => Iff.rfl)
      ⟨hk, h.not_committed hep hk hw, _, h.current, hw⟩
    rw [← h.lock r, hr]; simp [Phase.holds]
  | @stamp r p1 hr =>
    have hk := h.known r
    rw [hr] at hk
    obtain ⟨h1, h2, c, hc, hw⟩ := hk
    refine h.quiet (l := w.lock) ha (by simp) ?_ (fun s _ => Iff.rfl)
      ⟨h1, h2, Nat.le_refl _, h.stamps, c, hc, (h.tame c hc).1, hw⟩
    rw [← h.lock r, hr]; simp [Phase.holds]
  | @refuse r p1 e hr =>
    refine h.quiet (p := .finished (.error e)) (l := none) ha (by rintro x ⟨⟩; simp)
      (by simp [Phase.holds]) ?_ trivial
    intro s hs
    rw [(h.lock r).1 hr]
    simp [Ne.symm hs]
  | @commit r p1 now hr => exact h.commit ha hr

/-- Initial segments of a tame run are tame. -/
theorem TameRun.initial {e : Act × Option CommitReturn} (h : TameRun c₀ (tr ++ [e])) :
    TameRun c₀ tr := by
  obtain ⟨a, o⟩ := e
  have hsub : clockPoints c₀ tr <+: clockPoints c₀ (tr ++ [(a, o)]) := by
    simp [clockPoints, List.filterMap_append]
  exact ⟨h.tame.sublist hsub.sublist, fun c hc => h.epoch c (hsub.subset hc)⟩

end Invariant

section Runs

variable {K : Crypto} {sk : K.SecretKey} {c₀ : Clocks}
  {tr : List (Act × Option CommitReturn)} {w : World}

theorem proxyInv_init : ProxyInv c₀ [] (proxySystem K sk c₀).init where
  lock r := by simp [proxySystem, Phase.holds]
  known r := trivial
  rep := NonceCache.empty_repInv
  stamps e he := by simp [proxySystem, NonceCache.empty] at he
  current := by simp [proxySystem, clockPoints]
  tame c hc := by
    simp only [clockPoints, List.filterMap_nil, List.mem_singleton] at hc
    subst hc
    exact Tame.refl c
  recorded n ts hm := by simp [okCommits] at hm
  nodup := List.nodup_nil

/-- **The invariant holds in every tame run.** -/
theorem proxyInv_run (h : Run (proxySystem K sk c₀) tr w) (ht : TameRun c₀ tr) :
    ProxyInv c₀ tr w := by
  refine Run.invariant_under (TameRun c₀) (ProxyInv c₀) (fun tr e hA => hA.initial)
    proxyInv_init ?_ h ht
  intro tr w a w' o _ hinv hA hs
  rcases step_effect hs with ⟨c, rfl, rfl, rfl⟩ | ⟨ha, he⟩
  · exact hinv.tick rfl hA.tame
  · exact hinv.effect hA.initial.epoch ha he

/-- **Replay safety.**  However many requests are in flight and however their steps interleave,
as long as the monotonic clock does not decrease, the wall clock keeps up with it to within
59 s and is never before the Unix epoch, no (nonce, timestamp) pair is committed twice. -/
theorem no_double_commit (h : Run (proxySystem K sk c₀) tr w) (ht : TameRun c₀ tr) :
    (okCommits tr).Nodup :=
  (proxyInv_run h ht).nodup

/-- The commit step of a request returns, and leaves in the cache, what `commitNonce` does with
the cache at that moment, a wall-clock reading of the run and the request's stamp. -/
theorem commit_step_eq (h : Run (proxySystem K sk c₀) tr w) (ht : TameRun c₀ tr) {r : Nat}
    {p1 : PhaseOne} {now : Nat} (hr : w.reqs r = .stamped p1 now) :
    ∃ c ∈ clockPoints c₀ tr, c.mono ≤ now ∧ ∃ w', (proxySystem K sk c₀).step w (.go r) =
      some (w', some ⟨p1, (commitNonce w.cache p1 c.wall now).2⟩) ∧
      w'.cache = (commitNonce w.cache p1 c.wall now).1 := by
  have hk := (proxyInv_run h ht).known r
  rw [hr] at hk
  obtain ⟨hn, _, _, _, c, hc, hcm, hw⟩ := hk
  have heq : commitNonce w.cache p1 c.wall now = w.cache.commit p1.nonce now := by
    have hok : (commitNonce w.cache p1 c.wall now).2 = .ok () := commitNonce_ok_iff.2 ⟨hn, hw⟩
    rw [commitNonce_ok hok]
    exact Prod.ext rfl hok
  refine ⟨c, hc, hcm, ({ w with cache := (w.cache.commit p1.nonce now).1 }.finish r p1
    (w.cache.commit p1.nonce now).2).1, ?_, ?_⟩
  · show World.step K sk w (.go r) = _
    simp only [World.step, World.go, hr, heq, World.finish]
  · rw [heq]; rfl

/-- A cache the run has gone through. -/
def PastCache (K : Crypto) (sk : K.SecretKey) (c₀ : Clocks)
    (tr : List (Act × Option CommitReturn)) (cache : NonceCache) : Prop :=
  ∃ tr₁ w₁, tr₁ <+: tr ∧ Run (proxySystem K sk c₀) tr₁ w₁ ∧ w₁.cache = cache

/-- Phase 1 of a request, as far as it has come. -/
def Phase1So (K : Crypto) (sk : K.SecretKey) (c₀ : Clocks)
    (tr : List (Act × Option CommitReturn)) : Phase → Prop
  | .lookup i ts n =>
    ∃ c ∈ clockPoints c₀ tr, checkTimestamp i c.wall = .ok ts ∧ decodeNonce K i = .ok n
  | .opening i ts n =>
    ∃ c ∈ clockPoints c₀ tr, ∃ cache, PastCache K sk c₀ tr cache ∧
      checkTimestamp i c.wall = .ok ts ∧ decodeNonce K i = .ok n ∧ n ∉ cache.seen
  | .accepted p1 | .waiting p1 | .locked p1 | .window p1 | .stamping p1 | .stamped p1 _ =>
    ∃ i, ∃ c ∈ clockPoints c₀ tr, ∃ cache, PastCache K sk c₀ tr cache ∧
      verifyHeaders K sk i c.wall cache = .ok p1
  | _ => True

theorem PastCache.later {tr' : List (Act × Option CommitReturn)} {cache : NonceCache}
    (h : PastCache K sk c₀ tr cache) (hp : tr <+: tr') : PastCache K sk c₀ tr' cache := by
  obtain ⟨tr₁, w₁, hp₁, hr, hc⟩ := h
  exact ⟨tr₁, w₁, hp₁.trans hp, hr, hc⟩

theorem clockPoints_later {tr' : List (Act × Option CommitReturn)} {c : Clocks}
    (h : c ∈ clockPoints c₀ tr) (hp : tr <+: tr') : c ∈ clockPoints c₀ tr' := by
  obtain ⟨t, rfl⟩ := hp
  simp only [clockPoints, List.filterMap_append, List.mem_cons, List.mem_append] at h ⊢
  tauto

theorem Phase1So.later {tr' : List (Act × Option CommitReturn)} {p : Phase}
    (h : Phase1So K sk c₀ tr p) (hp : tr <+: tr') : Phase1So K sk c₀ tr' p := by
  cases p with
  | lookup i ts n =>
    obtain ⟨c, hc, hrest⟩ := h
    exact ⟨c, clockPoints_later hc hp, hrest⟩
  | opening i ts n =>
    obtain ⟨c, hc, cache, hcache, hrest⟩ := h
    exact ⟨c, clockPoints_later hc hp, cache, hcache.later hp, hrest⟩
  | accepted p1 | waiting p1 | locked p1 | window p1 | stamping p1 | stamped p1 now =>
    obtain ⟨i, c, hc, cache, hcache, hrest⟩ := h
    exact ⟨i, c, clockPoints_later hc hp, cache, hcache.later hp, hrest⟩
  | _ => trivial

theorem phase1So_set {r : Nat} {p : Phase} (h : ∀ s, Phase1So K sk c₀ tr (w.reqs s))
    (hp : Phase1So K sk c₀ tr p) (s : Nat) : Phase1So K sk c₀ tr ((w.set r p).reqs s) := by
  by_cases hsr : s = r
  · subst hsr
    simpa [World.set] using hp
  · simpa only [World.set, Function.update_of_ne hsr] using h s

/-- What a step of a request makes of its phase 1. -/
theorem phase1So_go {tr' : List (Act × Option CommitReturn)} {w' : World} {r : Nat}
    {o : Option CommitReturn} (h : ∀ s, Phase1So K sk c₀ tr' (w.reqs s))
    (hclock : w.clocks ∈ clockPoints c₀ tr') (hcache : PastCache K sk c₀ tr' w.cache)
    (hs : w.go K sk r = some (w', o)) (s : Nat) : Phase1So K sk c₀ tr' (w'.reqs s) := by
  have hr := h r
  unfold World.go at hs
  split at hs
  · split at hs
    · cases hs
      refine phase1So_set h ?_ s
      trivial
    · rename_i ts hts
      split at hs
      · cases hs
        refine phase1So_set h ?_ s
        trivial
      · rename_i n hn
        cases hs
        refine phase1So_set h ?_ s
        exact ⟨_, hclock, hts, hn⟩
  · rename_i i ts n heq
    rw [heq] at hr
    split at hs
    · split at hs
      · cases hs
        refine phase1So_set h ?_ s
        trivial
      · rename_i hn
        obtain ⟨c, hc, hts, hdn⟩ := hr
        cases hs
        refine phase1So_set h ?_ s
        exact ⟨c, hc, _, hcache, hts, hdn, by simpa [NonceCache.contains] using hn⟩
    · cases hs
  · rename_i i ts n heq
    rw [heq] at hr
    split at hs
    · cases hs
      refine phase1So_set h ?_ s
      trivial
    · rename_i b hb
      obtain ⟨c, hc, cache, hca, hts, hdn, hn⟩ := hr
      cases hs
      refine phase1So_set h ?_ s
      exact ⟨i, c, hc, cache, hca, verifyHeaders_ok_iff.2 ⟨hts, hdn, hn, hb⟩⟩
  · rename_i p1 heq
    rw [heq] at hr
    split at hs
    · cases hs
      refine phase1So_set (w := { w with lock := some r }) h ?_ s
      exact hr
    · cases hs
  · rename_i p1 heq
    rw [heq] at hr
    split at hs
    · cases hs
      refine phase1So_set (w := { w with lock := none }) h ?_ s
      trivial
    · cases hs
      refine phase1So_set h ?_ s
      exact hr
  · rename_i p1 heq
    rw [heq] at hr
    split at hs
    · cases hs
      refine phase1So_set (w := { w with lock := none }) h ?_ s
      trivial
    · cases hs
      refine phase1So_set h ?_ s
      exact hr
  · rename_i p1 heq
    rw [heq] at hr
    cases hs
    refine phase1So_set h ?_ s
    exact hr
  · rename_i p1 now heq
    cases hs
    refine phase1So_set (w := ⟨w.clocks, (w.cache.commit p1.nonce now).1, none, w.reqs⟩) h ?_ s
    trivial
  · cases hs

theorem current_mem_clockPoints (h : Run (proxySystem K sk c₀) tr w) :
    w.clocks ∈ clockPoints c₀ tr := by
  refine Run.invariant (fun tr w => w.clocks ∈ clockPoints c₀ tr)
    (by simp [proxySystem, clockPoints]) ?_ h
  intro tr w a w' o _ hc hs
  rcases step_effect hs with ⟨c, rfl, rfl, rfl⟩ | ⟨ha, he⟩
  · simp [clockPoints_append_tick]
  · rw [clockPoints_append c₀ tr ha]
    cases he <;> exact hc

/-- The steps of phase 1 add up to `verifyHeaders`: a request that got past it was accepted by
it, with the wall clock and the cache as they were when the request read them. -/
theorem phase1_of_accepted (h : Run (proxySystem K sk c₀) tr w) (r : Nat) :
    Phase1So K sk c₀ tr (w.reqs r) := by
  refine Run.invariant (fun tr w => ∀ r, Phase1So K sk c₀ tr (w.reqs r)) ?_ ?_ h r
  · intro s
    trivial
  intro tr w a w' o hrun hinv hs s
  have hlater : ∀ s, Phase1So K sk c₀ (tr ++ [(a, o)]) (w.reqs s) := fun s =>
    (hinv s).later (List.prefix_append _ _)
  cases a with
  | tick c => cases hs; exact hlater s
  | arrive q i =>
    simp only [proxySystem, World.step] at hs
    split at hs
    · cases hs
      refine phase1So_set hlater ?_ s
      trivial
    · cases hs
  | go q =>
    exact phase1So_go hlater
      (clockPoints_later (current_mem_clockPoints hrun) (List.prefix_append _ _))
      ⟨tr, w, List.prefix_append _ _, hrun, rfl⟩ hs s
  | enter q actual =>
    simp only [proxySystem, World.step] at hs
    split at hs
    · rename_i p1 heq
      have hq := hlater q
      rw [heq] at hq
      split at hs
      · split at hs
        · cases hs
          refine phase1So_set hlater ?_ s
          trivial
        · cases hs
          refine phase1So_set hlater ?_ s
          exact hq
      · cases hs
        refine phase1So_set hlater ?_ s
        exact hq
    · cases hs

end Runs

/-! ## Two runs -/

/-- Take the next `k` steps of request `r`. -/
def steps (k r : Nat) : List Act := List.replicate k (.go r)

/-- The clocks when the request arrives, and 59 s of monotonic time later with the wall clock
set back to where it was. -/
def clockA : Clocks := ⟨wallA, 0⟩

def clockALater : Clocks := ⟨wallA, 59 * NANOS⟩

/-- Two copies of one request pass phase 1 together; copy 1 commits first, and copy 0 a minute
later. -/
def copies : List Act :=
  [.arrive 0 exchangeA.inputs, .arrive 1 exchangeA.inputs] ++ steps 3 0 ++ steps 3 1 ++
    [.enter 1 none] ++ steps 5 1 ++ [.tick clockALater, .enter 0 none] ++ steps 2 0

/-- Of two copies of one request, in flight at once, only the first commits. -/
theorem no_double_commit_copies : ∃ tr w,
    Run (proxySystem (recorded [exchangeA]) () clockA) tr w ∧
      (okCommits tr).length = 1 ∧ (okCommits tr).Nodup := by
  have hx : ((exec (proxySystem (recorded [exchangeA]) () clockA) copies).map
      fun (p : List (Act × Option CommitReturn) × World) =>
        decide ((okCommits p.1).length = 1 ∧
          (clockPoints clockA p.1).Pairwise Tame ∧
          ∀ c ∈ clockPoints clockA p.1, 0 ≤ c.wall.nanos)) = some true := by
    decide +kernel
  obtain ⟨⟨tr, w⟩, he, hd⟩ := Option.map_eq_some_iff.1 hx
  obtain ⟨hone, htame, hep⟩ := of_decide_eq_true hd
  exact ⟨tr, w, exec_run he, hone, no_double_commit (exec_run he) ⟨htame, hep⟩⟩

/-- A request recorded with the timestamp 0. -/
def exchangeA0 : Exchange where
  nonce := beBytes 16 0x3d9fc4bde7ceef058d65b00186e79c1f
  ts := "0".toList
  host := "a.example.com".toList
  method := "GET".toList
  path := "/".toList
  bodyField := asBytes "unbound".toList
  ephemPub := beBytes 1 0x04 ++
    beBytes 32 0xc8cf5344a42a39499beabb12835e9ae326a83d0d845419b993d4f980797c4aa1 ++
    beBytes 32 0x7e816891633424781ab13f008ae541e42236e5c4e16a628e47b9bdf2f951eb71
  iv := beBytes 12 0xbb9942ae03a06c7355341b9b
  ctTag := beBytes 32 0x01258481cedd280f1566f7c2095e98075ababadbdfe56a72e64a5048fcddf3ef ++
    beBytes 32 0x84cddb703c674f11156eeef8d28a88d774c847d7863f94bae333e582f8cdd453 ++
    beBytes 27 0xe3582677cc6e95a1a9d2aafb4cf3d6ac43963d6e7da6c58aedc9b3
  secret := beBytes 32 0xac2939a940ac22e0b131b22e701c52188eb6a73e22b5c81cb36e02498f7e3068
  digest := beBytes 32 0xdfe9396f5bece7402057deca3c7a89485c363b85088eae176ae98d7d8d691b10

/-- Another request recorded with the timestamp 0. -/
def exchangeB0 : Exchange where
  nonce := beBytes 16 0x665077f5ca5d20c727acdc837412a42d
  ts := "0".toList
  host := "a.example.com".toList
  method := "GET".toList
  path := "/".toList
  bodyField := asBytes "unbound".toList
  ephemPub := beBytes 1 0x04 ++
    beBytes 32 0x80549a13727e1d346d62a46d9bad1fd827563d9e9ce27fc4612a625cd6b530ca ++
    beBytes 32 0x08e2aa2b86481d9c3221a5fe8cd964d214f39f5ae6e34248c74d86073fa569d9
  iv := beBytes 12 0x1ba812402986be9b5c2bd03f
  ctTag := beBytes 32 0xbff89cc08872eda1eedc4bb3c505d4ea58136b9afd4c8b4350c163c50d4bf975 ++
    beBytes 32 0xb359d6160180f9d0c052d37a2821416146b3acbc6ab99b3f280b101a6b6dd26d ++
    beBytes 27 0x42b08297033112fb1fa93d8069738fa98edf6d5199d57f32ce299b
  secret := beBytes 32 0x4ddee227c3ec7f96539075146644fe9cdcb9de77e9b838c7e1e703bae65065b6
  digest := beBytes 32 0xce472e574d2a1559558c64926f8cabb515c766fe597ef1d684a51a33a467d333

/-- The clocks of a proxy whose wall clock was started 1000 s before the epoch. -/
def unsetClock : Clocks := ⟨⟨-1000 * NANOS, by decide, by decide⟩, 0⟩

def unsetClockLater : Clocks := ⟨⟨-820 * NANOS, by decide, by decide⟩, 180 * NANOS⟩

/-- Two copies (0 and 1) of one captured request, and another request (2).  All pass phase 1;
copy 0 commits; 180 s later request 2 commits and evicts its nonce; then copy 1 commits. -/
def unsetClockRun : List Act :=
  [.arrive 0 exchangeA0.inputs, .arrive 1 exchangeA0.inputs, .arrive 2 exchangeB0.inputs] ++
    steps 3 0 ++ steps 3 1 ++ steps 3 2 ++ [.enter 0 none] ++ steps 5 0 ++
    [.tick unsetClockLater, .enter 2 none] ++ steps 5 2 ++ [.enter 1 none] ++ steps 5 1

/-- Before the epoch `unix_now` reads 0 all the time, so a token with the timestamp 0 never
leaves its window, and a copy can commit after the first commit has aged out. -/
theorem double_commit_before_epoch : ∃ tr w,
    Run (proxySystem (recorded [exchangeA0, exchangeB0]) () unsetClock) tr w ∧
      (clockPoints unsetClock tr).Pairwise Tame ∧ ¬(okCommits tr).Nodup := by
  have hx : ((exec (proxySystem (recorded [exchangeA0, exchangeB0]) () unsetClock)
      unsetClockRun).map fun (p : List (Act × Option CommitReturn) × World) =>
        decide ((clockPoints unsetClock p.1).Pairwise Tame ∧ ¬(okCommits p.1).Nodup)) =
      some true := by
    decide +kernel
  obtain ⟨⟨tr, w⟩, he, hd⟩ := Option.map_eq_some_iff.1 hx
  exact ⟨tr, w, exec_run he, of_decide_eq_true hd⟩

end DenBrowser
