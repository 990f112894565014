import DenBrowser.Proxy.DnsRun
import DenBrowser.Proxy.GateParts
import DenBrowser.Proxy.Replay

/-!
# The proxy at work

Any number of requests in `request_filter` at once, over one rate limiter, one replay cache and
one resolver cache.  The verifier and the machine check take the steps they take in `Replay` and
`DnsRun`; what the gate does between two waits is one step, and between any two steps the clocks
move and other requests run.

* `RequestSo` — what is known of a request where it is: the readings so far determine what is
  left to see of it;
* `locked_run` — who holds the verifier's lock keeps the replay cache as it found it.
-/

set_option autoImplicit false

namespace DenBrowser

open RunLib

variable {L : Crates}

/-- Where a request is: before its arrival, in phase 1, past it, waiting for the machine check,
before its body is read, waiting for the commit, or answered or passed on. -/
inductive GatePhase where
  | idle
  | phaseOne (s : Session) (ctx : RequestAudit) (i : AttestInputs)
  | attested (s : Session) (ctx : RequestAudit) (p1 : PhaseOne)
  | identifying (s : Session) (ctx : RequestAudit) (p1 : PhaseOne)
  | reading (s : Session) (ctx : RequestAudit) (p1 : PhaseOne)
  | committing (s : Session) (ctx : RequestAudit) (p1 : PhaseOne)
  | ended (s : Session) (o : Outcome)

/-- The shared state of a proxy and its requests. -/
structure Serving (L : Crates) where
  limiter : Option (RateLimiter L)
  attest : World
  dns : DnsWorld
  gate : Nat → GatePhase

/-- What happens next: the clocks move, a request arrives, the verifier or the machine check
takes a step for a request, or the gate goes on with one. -/
inductive ServeAct where
  | tick (c : Clocks) (d : Nat)
  | arrive (r : Nat) (s : Session) (now : Nat)
  | verifier (r : Nat)
  | look (r : Nat)
  | answer (r : Nat) (x : Except Unit (List IpAddr))
  | settle (r : Nat) (sweep : Str → Nat) (d : Nat)
  | proceed (r : Nat)

/-- A request that was forwarded as attested, and what its token proved. -/
abbrev Forwarded := Nat × PhaseOne

/-- Phase 1 of the request has not ended. -/
def GatePhase.early : GatePhase → Bool
  | .idle | .phaseOne _ _ _ => true
  | _ => false

/-- What a return of the verifier forwards. -/
def forwardedOf (r : Nat) : Option CommitReturn → Option Forwarded
  | some ⟨p1, .ok ()⟩ => some (r, p1)
  | _ => none

/-- The request is in the gate. -/
def GatePhase.live : GatePhase → Bool
  | .idle | .ended _ _ => false
  | _ => true

/-- The gate when the verifier has taken a step for its request. -/
def GatePhase.afterVerifier : GatePhase → Phase → GatePhase
  | .phaseOne s ctx _, .rejected e => .ended s (.refuse (ctx.reject e.reason e.display) 403)
  | .phaseOne s ctx _, .accepted p1 =>
    .attested s (ctx.tokenVerifiedWith (.of p1.bodyBinding)) p1
  | .committing s ctx _, .finished res => .ended s (settled ctx res)
  | g, _ => g

/-- What a `verify` call returned, if it has. -/
def returnedOf (evs : List DnsEvent) : Option (Except MachineError VerifiedMachine) :=
  evs.findSome? fun e =>
    match e with
    | .returned _ _ res => some res
    | _ => none

/-- The gate when the machine check has taken a step for its request. -/
def GatePhase.afterMachine (g : GatePhase) (evs : List DnsEvent) : GatePhase :=
  match g, returnedOf evs with
  | .identifying s ctx _, some (.error e) => .ended s (.refuse (ctx.machineRejected e) 403)
  | .identifying s ctx p1, some (.ok machine) => .reading s (ctx.machineVerified machine) p1
  | g, _ => g

namespace Serving

def set (w : Serving L) (r : Nat) (g : GatePhase) : Serving L :=
  { w with gate := Function.update w.gate r g }

/-- Charge the rate limiter, when there is one and an IP to key on. -/
def charge (limiter : Option (RateLimiter L)) (s : Session) (now : Nat) :
    Option (RateLimiter L) × Bool :=
  match limiter, s.clientIp with
  | some limiter, some ip =>
    let r := limiter.admits ip (rateTarget s) now
    (some r.1, r.2)
  | limiter, _ => (limiter, true)

variable (p : Proxy L)

/-- A step of the machine check for a request. -/
def machineStep (w : Serving L) (r : Nat) (g : GatePhase) (a : DnsAct) :
    Option (Serving L × Option Forwarded) :=
  match p.machine with
  | none => none
  | some m =>
    match w.dns.step m a with
    | none => none
    | some (dns, evs) => some ({ w with dns := dns }.set r (g.afterMachine evs), none)

/-- The gate goes on with a request that waits for nothing. -/
def proceed (w : Serving L) (r : Nat) : Option (Serving L × Option Forwarded) :=
  match w.gate r with
  | .attested s ctx p1 =>
    match machineCheck p s ctx with
    | .ended o => some (w.set r (.ended s o), none)
    | .body => some (w.set r (.reading s ctx p1), none)
    | .verify _ cert =>
      w.machineStep p r (.identifying s ctx p1)
        (.call r ⟨cert, s.clientIp, w.attest.clocks.wall⟩)
  | .reading s ctx p1 =>
    match bodyCheck L s ctx p1 with
    | .ended o => some (w.set r (.ended s o), none)
    | .commit actual =>
      match w.attest.step L.toCrypto p.privateKey (.enter r actual) with
      | none => none
      | some (attest, _) =>
        some ({ w with attest := attest }.set r
          ((GatePhase.committing s ctx p1).afterVerifier (attest.reqs r)), none)
  | _ => none

def step (w : Serving L) : ServeAct → Option (Serving L × Option Forwarded)
  | .tick c d =>
    some ({ w with
      attest := { w.attest with clocks := c }
      dns := { w.dns with now := w.dns.now + d } }, none)
  | .arrive r s now =>
    match w.gate r with
    | .idle =>
      let charged := charge w.limiter s now
      let w := { w with limiter := charged.1 }
      match start p s charged.2 with
      | .ended o => some (w.set r (.ended s o), none)
      | .phaseOne ctx i =>
        match w.attest.step L.toCrypto p.privateKey (.arrive r i) with
        | none => none
        | some (attest, _) => some ({ w with attest := attest }.set r (.phaseOne s ctx i), none)
    | _ => none
  | .verifier r =>
    match w.attest.step L.toCrypto p.privateKey (.go r) with
    | none => none
    | some (attest, returned) =>
      some ({ w with attest := attest }.set r ((w.gate r).afterVerifier (attest.reqs r)),
        forwardedOf r returned)
  | .look r => w.machineStep p r (w.gate r) (.look r)
  | .answer r x => w.machineStep p r (w.gate r) (.answer r x)
  | .settle r sweep d => w.machineStep p r (w.gate r) (.settle r sweep d)
  | .proceed r => w.proceed p r

end Serving

/-- A proxy that has just been started. -/
def servingSystem (p : Proxy L) (c₀ : Clocks) : System (Serving L) ServeAct (Option Forwarded) where
  init := ⟨p.rateLimiter, ⟨c₀, .empty, none, fun _ => .idle⟩, ⟨0, fun _ => none, fun _ => .idle⟩,
    fun _ => .idle⟩
  step := Serving.step p

/-- What was forwarded as attested, in order. -/
def forwards (tr : List (ServeAct × Option Forwarded)) : List Forwarded :=
  tr.filterMap Prod.snd

/-- The clock readings of a run, in order. -/
def servePoints (c₀ : Clocks) (tr : List (ServeAct × Option Forwarded)) : List Clocks :=
  c₀ :: tr.filterMap fun e => match e.1 with
    | .tick c _ => some c
    | _ => none

/-! ## What a request has found -/

section Past

variable (p : Proxy L) (c₀ : Clocks) (tr : List (ServeAct × Option Forwarded))

/-- A state that the run has gone through when the request arrived or was in the gate. -/
def During (r : Nat) (w : Serving L) : Prop :=
  ∃ tr₁ e, tr₁ ++ [e] <+: tr ∧ Run (servingSystem p c₀) tr₁ w ∧
    ((w.gate r).live = true ∨ w.gate r = .idle ∧ ∃ s now, e.1 = .arrive r s now)

/-- A state that the run has gone through before phase 1 of the request ended. -/
def Early (r : Nat) (w : Serving L) : Prop := During p c₀ tr r w ∧ (w.gate r).early = true

/-- The limiter is the one that the request found on arrival; the clocks and the caches are those
that it has met since. -/
structure Seen (r : Nat) (s : Session) (limiter : Option (RateLimiter L)) (env : Env) : Prop where
  arrived : ∃ tr₁ w, tr₁ ++ [(.arrive r s env.rateNow, none)] <+: tr ∧
    Run (servingSystem p c₀) tr₁ w ∧ w.limiter = limiter
  wall1 : ∃ w, Early p c₀ tr r w ∧ w.attest.clocks.wall = env.wall1
  cache1 : ∃ w, Early p c₀ tr r w ∧ w.attest.cache = env.cache1
  chainWall : ∃ w, During p c₀ tr r w ∧ w.attest.clocks.wall = env.chainWall
  lookupCache : ∃ w, During p c₀ tr r w ∧
    w.dns.cache = env.dns.lookupCache ∧ w.dns.now = env.dns.lookupNow
  laterCache : ∃ w, During p c₀ tr r w ∧ w.dns.cache = env.dns.laterCache
  cache2 : ∃ w, During p c₀ tr r w ∧ w.attest.cache = env.cache2
  wall2 : ∃ w, During p c₀ tr r w ∧ w.attest.clocks.wall = env.wall2
  mono2 : ∃ w, During p c₀ tr r w ∧ w.attest.clocks.mono = env.mono2

/-- The proxy with its rate limiter in a state. -/
def Proxy.at (limiter : Option (RateLimiter L)) : Proxy L := { p with rateLimiter := limiter }

/-- The readings up to a point determine what is left to see of a request. -/
def Determined (r : Nat) (s : Session) (agree : Env → Env → Prop) (left : Env → Outcome) : Prop :=
  ∃ limiter env₀, Seen p c₀ tr r s limiter env₀ ∧
    ∀ env, agree env env₀ → filterOutcome (p.at limiter) s env = left env

end Past

/-- The readings up to phase 1, after it, and after the machine check. -/
def AgreeStart (a b : Env) : Prop := a.rateNow = b.rateNow

def AgreePhaseOne (a b : Env) : Prop := AgreeStart a b ∧ a.wall1 = b.wall1 ∧ a.cache1 = b.cache1

def AgreeMachine (a b : Env) : Prop :=
  AgreePhaseOne a b ∧ a.chainWall = b.chainWall ∧ a.dns = b.dns

/-- The request's own nonce and timestamp. -/
def Proves (K : Crypto) (s : Session) (p1 : PhaseOne) : Prop :=
  ∃ i, s.req.Presents i ∧ decodeNonce K i = .ok p1.nonce ∧ parseI64 i.ts = some p1.ts

section So

variable (p : Proxy L) (c₀ : Clocks) (tr : List (ServeAct × Option Forwarded))

/-- Phase 1 of a request, as far as it has come. -/
def PhaseOneSo (r : Nat) (i : AttestInputs) : Phase → Prop
  | .arrived j => j = i
  | .lookup j ts n => j = i ∧ decodeNonce L.toCrypto i = .ok n ∧
    ∃ w, Early p c₀ tr r w ∧ checkTimestamp i w.attest.clocks.wall = .ok ts
  | .opening j ts n => j = i ∧ decodeNonce L.toCrypto i = .ok n ∧
    (∃ w, Early p c₀ tr r w ∧ checkTimestamp i w.attest.clocks.wall = .ok ts) ∧
    ∃ w, Early p c₀ tr r w ∧ w.attest.cache.contains n = false
  | _ => False

/-- A machine check, as far as it has come. -/
def MachineSo (r : Nat) (m : MachineIdentity L) (c : VerifyCall) : CallPhase → Prop
  | .looking c' ip machine =>
    c' = c ∧ c.clientIp = some ip ∧ m.verifyCert c.cert c.wall = .ok machine
  | .asking c' ip machine | .answered c' ip machine _ =>
    c' = c ∧ c.clientIp = some ip ∧ m.verifyCert c.cert c.wall = .ok machine ∧
    ∃ w, During p c₀ tr r w ∧ m.freshAnswer w.dns.cache machine.hostname w.dns.now = none
  | _ => False

/-- A commit, as far as it has come. -/
def CommitSo (r : Nat) (p1 : PhaseOne) : Phase → Prop
  | .waiting q | .locked q | .window q => q = p1
  | .stamping q => q = p1 ∧
    ∃ w, During p c₀ tr r w ∧ checkCommitWindow p1.ts (unixNow w.attest.clocks.wall) = .ok ()
  | .stamped q now => q = p1 ∧
    (∃ w, During p c₀ tr r w ∧ checkCommitWindow p1.ts (unixNow w.attest.clocks.wall) = .ok ()) ∧
    ∃ w, During p c₀ tr r w ∧ w.attest.clocks.mono = now
  | _ => False

/-- No step of the verifier is left, unless the gate goes on. -/
def Phase.rests : Phase → Bool
  | .idle | .accepted _ | .rejected _ | .finished _ => true
  | _ => false

/-- No step of the machine check is left. -/
def CallPhase.rests : CallPhase → Bool
  | .idle | .returned => true
  | _ => false

/-- What holds of a request where it is, in the gate, in the verifier and in the machine
check. -/
def RequestSo (r : Nat) (a : Phase) (d : CallPhase) : GatePhase → Prop
  | .idle => a = .idle ∧ d = .idle
  | .phaseOne s ctx i => d = .idle ∧ s.req.Presents i ∧ PhaseOneSo p c₀ tr r i a ∧
    Determined p c₀ tr r s AgreeStart fun env => phaseOneOutcome p s env ctx i
  | .attested s ctx p1 => d = .idle ∧ a = .accepted p1 ∧ Proves L.toCrypto s p1 ∧
    Determined p c₀ tr r s AgreePhaseOne fun env => machineOutcome p s env ctx p1
  | .identifying s ctx p1 => a = .accepted p1 ∧ Proves L.toCrypto s p1 ∧
    (∃ m cert w, machineCheck p s ctx = .verify m cert ∧ During p c₀ tr r w ∧
      MachineSo p c₀ tr r m ⟨cert, s.clientIp, w.attest.clocks.wall⟩ d) ∧
    Determined p c₀ tr r s AgreePhaseOne fun env => machineOutcome p s env ctx p1
  | .reading s ctx p1 => d.rests = true ∧ a = .accepted p1 ∧ Proves L.toCrypto s p1 ∧
    Determined p c₀ tr r s AgreeMachine fun env => bodyOutcome L s env ctx p1
  | .committing s ctx p1 => d.rests = true ∧ CommitSo p c₀ tr r p1 a ∧ Proves L.toCrypto s p1 ∧
    Determined p c₀ tr r s AgreeMachine fun env =>
      settled ctx (commitNonce env.cache2 p1 env.wall2 env.mono2).2
  | .ended s o => a.rests = true ∧ d.rests = true ∧
    (∃ limiter env, Seen p c₀ tr r s limiter env ∧ o = filterOutcome (p.at limiter) s env) ∧
    (o.ctx.action = some .forward →
      ∃ p1, (r, p1) ∈ forwards tr ∧ Proves L.toCrypto s p1)

end So

/-! ## Later in the run -/

section Later

variable {p : Proxy L} {c₀ : Clocks} {tr tr' : List (ServeAct × Option Forwarded)} {r : Nat}

theorem During.later {w : Serving L} (h : During p c₀ tr r w) (hp : tr <+: tr') :
    During p c₀ tr' r w := by
  obtain ⟨tr₁, e, hp₁, hrun, hgate⟩ := h
  exact ⟨tr₁, e, hp₁.trans hp, hrun, hgate⟩

theorem exists_during_later {P : Serving L → Prop} (h : ∃ w, During p c₀ tr r w ∧ P w)
    (hp : tr <+: tr') : ∃ w, During p c₀ tr' r w ∧ P w := by
  obtain ⟨w, hw, hP⟩ := h
  exact ⟨w, hw.later hp, hP⟩

theorem exists_early_later {P : Serving L → Prop} (h : ∃ w, Early p c₀ tr r w ∧ P w)
    (hp : tr <+: tr') : ∃ w, Early p c₀ tr' r w ∧ P w := by
  obtain ⟨w, ⟨hw, hearly⟩, hP⟩ := h
  exact ⟨w, ⟨hw.later hp, hearly⟩, hP⟩

theorem Seen.later {s : Session} {limiter : Option (RateLimiter L)} {env : Env}
    (h : Seen p c₀ tr r s limiter env) (hp : tr <+: tr') : Seen p c₀ tr' r s limiter env where
  arrived := by
    obtain ⟨tr₁, w, hp₁, harrived⟩ := h.arrived
    exact ⟨tr₁, w, hp₁.trans hp, harrived⟩
  wall1 := exists_early_later h.wall1 hp
  cache1 := exists_early_later h.cache1 hp
  chainWall := exists_during_later h.chainWall hp
  lookupCache := exists_during_later h.lookupCache hp
  laterCache := exists_during_later h.laterCache hp
  cache2 := exists_during_later h.cache2 hp
  wall2 := exists_during_later h.wall2 hp
  mono2 := exists_during_later h.mono2 hp

theorem Determined.later {s : Session} {agree : Env → Env → Prop} {left : Env → Outcome}
    (h : Determined p c₀ tr r s agree left) (hp : tr <+: tr') :
    Determined p c₀ tr' r s agree left := by
  obtain ⟨limiter, env₀, hseen, hleft⟩ := h
  exact ⟨limiter, env₀, hseen.later hp, hleft⟩

theorem PhaseOneSo.later {i : AttestInputs} {a : Phase} (h : PhaseOneSo p c₀ tr r i a)
    (hp : tr <+: tr') : PhaseOneSo p c₀ tr' r i a := by
  cases a with
  | arrived j => exact h
  | lookup j ts n => exact ⟨h.1, h.2.1, exists_early_later h.2.2 hp⟩
  | opening j ts n =>
    exact ⟨h.1, h.2.1, exists_early_later h.2.2.1 hp, exists_early_later h.2.2.2 hp⟩
  | _ => exact h.elim

theorem MachineSo.later {m : MachineIdentity L} {c : VerifyCall} {d : CallPhase}
    (h : MachineSo p c₀ tr r m c d) (hp : tr <+: tr') : MachineSo p c₀ tr' r m c d := by
  cases d with
  | looking c' ip machine => exact h
  | asking c' ip machine => exact ⟨h.1, h.2.1, h.2.2.1, exists_during_later h.2.2.2 hp⟩
  | answered c' ip machine x => exact ⟨h.1, h.2.1, h.2.2.1, exists_during_later h.2.2.2 hp⟩
  | _ => exact h.elim

theorem CommitSo.later {p1 : PhaseOne} {a : Phase} (h : CommitSo p c₀ tr r p1 a)
    (hp : tr <+: tr') : CommitSo p c₀ tr' r p1 a := by
  cases a with
  | waiting q | locked q | window q => exact h
  | stamping q => exact ⟨h.1, exists_during_later h.2 hp⟩
  | stamped q now => exact ⟨h.1, exists_during_later h.2.1 hp, exists_during_later h.2.2 hp⟩
  | _ => exact h.elim

theorem forwards_later {x : Forwarded} (h : x ∈ forwards tr) (hp : tr <+: tr') :
    x ∈ forwards tr' := by
  obtain ⟨t, rfl⟩ := hp
  rw [forwards, List.filterMap_append]
  exact List.mem_append_left _ h

theorem RequestSo.later {a : Phase} {d : CallPhase} {g : GatePhase}
    (h : RequestSo p c₀ tr r a d g) (hp : tr <+: tr') : RequestSo p c₀ tr' r a d g := by
  cases g with
  | idle => exact h
  | phaseOne s ctx i => exact ⟨h.1, h.2.1, h.2.2.1.later hp, h.2.2.2.later hp⟩
  | attested s ctx p1 => exact ⟨h.1, h.2.1, h.2.2.1, h.2.2.2.later hp⟩
  | identifying s ctx p1 =>
    obtain ⟨ha, hproves, ⟨m, cert, w, hcheck, hw, hso⟩, hdet⟩ := h
    exact ⟨ha, hproves, ⟨m, cert, w, hcheck, hw.later hp, hso.later hp⟩, hdet.later hp⟩
  | reading s ctx p1 => exact ⟨h.1, h.2.1, h.2.2.1, h.2.2.2.later hp⟩
  | committing s ctx p1 => exact ⟨h.1, h.2.1.later hp, h.2.2.1, h.2.2.2.later hp⟩
  | ended s o =>
    obtain ⟨ha, hd, ⟨limiter, env, hseen, ho⟩, hforward⟩ := h
    refine ⟨ha, hd, ⟨limiter, env, hseen.later hp, ho⟩, fun haction => ?_⟩
    obtain ⟨p1, hmem, hproves⟩ := hforward haction
    exact ⟨p1, forwards_later hmem hp, hproves⟩

/-- What a state of the run would show to a request that read everything at once. -/
def Serving.env (w : Serving L) (now : Nat) : Env where
  rateNow := now
  wall1 := w.attest.clocks.wall
  cache1 := w.attest.cache
  chainWall := w.attest.clocks.wall
  dns := ⟨w.dns.cache, w.dns.now, fun _ => .error (), w.dns.cache, fun _ => 0, w.dns.now⟩
  cache2 := w.attest.cache
  wall2 := w.attest.clocks.wall
  mono2 := w.attest.clocks.mono

theorem seen_arrive {w : Serving L} (h : Run (servingSystem p c₀) tr w) (hidle : w.gate r = .idle)
    (s : Session) (now : Nat) :
    Seen p c₀ (tr ++ [(.arrive r s now, none)]) r s w.limiter (w.env now) := by
  have hw : During p c₀ (tr ++ [(.arrive r s now, none)]) r w :=
    ⟨tr, _, List.prefix_refl _, h, Or.inr ⟨hidle, s, now, rfl⟩⟩
  have hearly : Early p c₀ (tr ++ [(.arrive r s now, none)]) r w := ⟨hw, by rw [hidle]; rfl⟩
  exact ⟨⟨tr, w, List.prefix_refl _, h, rfl⟩, ⟨w, hearly, rfl⟩, ⟨w, hearly, rfl⟩, ⟨w, hw, rfl⟩,
    ⟨w, hw, rfl, rfl⟩, ⟨w, hw, rfl⟩, ⟨w, hw, rfl⟩, ⟨w, hw, rfl⟩, ⟨w, hw, rfl⟩⟩

variable {s : Session} {agree agree' : Env → Env → Prop} {left left' : Env → Outcome}

/-- A further reading. -/
theorem Determined.read (h : Determined p c₀ tr r s agree left)
    (hread : ∀ limiter env₀, Seen p c₀ tr r s limiter env₀ → ∃ env₁, Seen p c₀ tr r s limiter env₁ ∧
      ∀ env, agree' env env₁ → agree env env₀ ∧ left env = left' env) :
    Determined p c₀ tr r s agree' left' := by
  obtain ⟨limiter, env₀, hseen, hleft⟩ := h
  obtain ⟨env₁, hseen₁, hagree⟩ := hread limiter env₀ hseen
  refine ⟨limiter, env₁, hseen₁, fun env henv => ?_⟩
  obtain ⟨hold, hsame⟩ := hagree env henv
  rw [hleft env hold, hsame]

/-- The last reading. -/
theorem Determined.end {o : Outcome} (h : Determined p c₀ tr r s agree left)
    (hend : ∀ limiter env₀, Seen p c₀ tr r s limiter env₀ → ∃ env₁, Seen p c₀ tr r s limiter env₁ ∧
      agree env₁ env₀ ∧ left env₁ = o) :
    ∃ limiter env, Seen p c₀ tr r s limiter env ∧ o = filterOutcome (p.at limiter) s env := by
  obtain ⟨limiter, env₀, hseen, hleft⟩ := h
  obtain ⟨env₁, hseen₁, hagree, ho⟩ := hend limiter env₀ hseen
  exact ⟨limiter, env₁, hseen₁, by rw [hleft env₁ hagree, ho]⟩

end Later

/-! ## The mutex -/

section Mutex

variable {K : Crypto} {sk : K.SecretKey} {c₀ : Clocks}

/-- A request that has found its nonce unseen and still holds the lock. -/
def Unseen (w : World) : Phase → Prop
  | .window p1 | .stamping p1 | .stamped p1 _ => p1.nonce ∉ w.cache.seen
  | _ => True

theorem unseen_of_not_holds {w : World} {a : Phase} (h : a.holds = false) : Unseen w a := by
  cases a <;> trivial

theorem Unseen.congr {w w' : World} (hc : w'.cache = w.cache) {a : Phase} (h : Unseen w a) :
    Unseen w' a := by
  cases a <;> simp only [Unseen, hc] at h ⊢ <;> exact h

structure Locked (w : World) : Prop where
  lock : ∀ r, (w.reqs r).holds = true ↔ w.lock = some r
  unseen : ∀ r, Unseen w (w.reqs r)

/-- A step of one request that leaves the cache alone. -/
theorem Locked.set {w : World} (h : Locked w) {r : Nat} {a : Phase} {l : Option Nat}
    (hr : a.holds = true ↔ l = some r) (hs : ∀ s, s ≠ r → (w.lock = some s ↔ l = some s))
    (ha : Unseen w a) : Locked ({ w with lock := l }.set r a) := by
  refine ⟨lock_set h.lock hr hs, fun s => ?_⟩
  by_cases hsr : s = r
  · subst hsr
    have hnew : Unseen w (({ w with lock := l }.set s a).reqs s) := by
      simpa [World.set] using ha
    exact hnew.congr rfl
  · have hold : ({ w with lock := l }.set r a).reqs s = w.reqs s := Function.update_of_ne hsr _ _
    rw [hold]
    exact (h.unseen s).congr rfl

/-- The holder of the lock releases it, whatever it has done to the cache. -/
theorem Locked.release {w : World} (h : Locked w) {r : Nat} (hr : w.lock = some r)
    (cache : NonceCache) (res : Except AttestError Unit) :
    Locked ({ w with cache := cache, lock := none }.set r (.finished res)) := by
  have hfree : ∀ s, (({ w with cache := cache, lock := none }.set r
      (.finished res)).reqs s).holds = false := by
    intro s
    by_cases hsr : s = r
    · subst hsr
      simp [World.set, Phase.holds]
    · have hold : ({ w with cache := cache, lock := none }.set r (.finished res)).reqs s =
          w.reqs s := Function.update_of_ne hsr _ _
      rw [hold, Bool.eq_false_iff]
      intro hholds
      have hlock := (h.lock s).1 hholds
      rw [hr] at hlock
      exact hsr (Option.some.inj hlock).symm
  refine ⟨fun s => ?_, fun s => unseen_of_not_holds (hfree s)⟩
  rw [hfree s]
  exact ⟨fun hf => Bool.noConfusion hf, fun hf => Option.noConfusion rfl (heq_of_eq hf)⟩

theorem Locked.effect {w w' : World} (h : Locked w) {o : Option CommitReturn}
    (he : Effect w w' o) : Locked w' := by
  cases he with
  | @free r a o hr ha _ =>
    refine h.set (l := w.lock) ?_ (fun s _ => Iff.rfl) (unseen_of_not_holds ha)
    rw [← h.lock r, hr, ha]
  | @acquire r p1 hr hl =>
    refine h.set (a := .locked p1) (by simp [Phase.holds]) (fun s hs => ?_) trivial
    simp [hl, Ne.symm hs]
  | @unseen r p1 hr hn =>
    refine h.set (l := w.lock) ?_ (fun s _ => Iff.rfl) hn
    rw [← h.lock r, hr]
    simp [Phase.holds]
  | @inWindow r p1 hr _ =>
    have hn := h.unseen r
    rw [hr] at hn
    refine h.set (l := w.lock) ?_ (fun s _ => Iff.rfl) hn
    rw [← h.lock r, hr]
    simp [Phase.holds]
  | @stamp r p1 hr =>
    have hn := h.unseen r
    rw [hr] at hn
    refine h.set (l := w.lock) ?_ (fun s _ => Iff.rfl) hn
    rw [← h.lock r, hr]
    simp [Phase.holds]
  | @refuse r p1 e hr => exact h.release ((h.lock r).1 hr) w.cache _
  | @commit r p1 now hr => exact h.release ((h.lock r).1 (by rw [hr]; rfl)) _ _

/-- The lock is held by who is past it, and the cache it protects stays as they found it. -/
theorem locked_run {atr : List (Act × Option CommitReturn)} {w : World}
    (h : Run (proxySystem K sk c₀) atr w) : Locked w := by
  refine Run.invariant (fun _ w => Locked w) ?_ ?_ h
  · exact ⟨fun r => by simp [proxySystem, Phase.holds], fun r => trivial⟩
  · intro tr w a w' o _ hinv hs
    rcases step_effect hs with ⟨c, rfl, rfl, rfl⟩ | ⟨_, he⟩
    · exact ⟨hinv.lock, fun r => (hinv.unseen r).congr rfl⟩
    · exact hinv.effect he

end Mutex

end DenBrowser
