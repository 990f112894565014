import DenBrowser.Proxy.Passthrough
import DenBrowser.Proxy.Request

/-!
# The gate

`request_filter`: rate limiting, the attestation bypass, the headers, the machine preflight,
phase 1, the machine check, the body and the nonce commit, in the order the code runs them,
with every exit's response and audit decision.

* `requestFilter_ending` — every way the gate can end, with what held when it did.
-/

set_option autoImplicit false

namespace DenBrowser

variable {L : Crates}

/-- What pingora knows of a request's connection. -/
structure Session where
  req : Request
  clientAddr : Option SocketAddr
  serverAddr : Option SocketAddr
  /-- The identity mTLS verified at the handshake. -/
  clientCert : Option ClientCert

def Session.clientIp (s : Session) : Option IpAddr := s.clientAddr.map SocketAddr.ip

def Session.machinePresent (s : Session) : Bool := s.req.headers.containsKey MACHINE_CERT_HEADER

/-- `DenBrowserProxy`: the verifier's key and the three optional layers. -/
structure Proxy (L : Crates) where
  privateKey : L.SecretKey
  rateLimiter : Option (RateLimiter L)
  bypass : Option (BypassPolicy L)
  machine : Option (MachineIdentity L)

/-- What a run of `request_filter` finds outside the request: the clocks at each reading, the
replay cache at its two uses, and the resolver. -/
structure Env where
  rateNow : Nat
  /-- The wall clock and the replay cache in phase 1. -/
  wall1 : SystemTime
  cache1 : NonceCache
  chainWall : SystemTime
  dns : DnsEnv
  /-- The replay cache and the clocks at the commit. -/
  cache2 : NonceCache
  wall2 : SystemTime
  mono2 : Nat

/-- What a run of `request_filter` leaves behind. -/
structure Flow (L : Crates) where
  ctx : RequestAudit
  /-- The status codes of `respond_error`, in order. -/
  responses : List Nat
  limiter : Option (RateLimiter L)
  replay : NonceCache
  dns : DnsCache
  /-- The names asked of the resolver. -/
  queries : List Str

/-! ## The steps -/

/-- Answer the client with `code` and return `Ok(true)`. -/
def Flow.respond (f : Flow L) (ctx : RequestAudit) (code : Nat) : Flow L × Bool :=
  ({ f with ctx := ctx, responses := f.responses ++ [code] }, true)

/-- Record the decision and return `Ok(false)`. -/
def Flow.pass (f : Flow L) (ctx : RequestAudit) : Flow L × Bool := ({ f with ctx := ctx }, false)

/-- The match on the result of the nonce commit. -/
def Flow.settle (f : Flow L) (r : NonceCache × Except AttestError Unit) : Flow L × Bool :=
  let f := { f with replay := r.1 }
  match r.2 with
  | .error e => f.respond (f.ctx.reject e.reason e.display) 403
  | .ok () => f.pass f.ctx.forward

section Filter

variable (p : Proxy L) (s : Session) (env : Env)

def bodyTooLargeMessage : Str :=
  "bound body exceeds ".toList ++ showInt BOUND_BODY_MAX ++
    " bytes (must be sent as an unbound upload)".toList

/-- The commit of an unbound upload, or phase 2 over the buffered body. -/
def bodyStep (f : Flow L) (p1 : PhaseOne) : Flow L × Bool :=
  match p1.bodyBinding with
  | .unbound => f.settle (commitNonce env.cache2 p1 env.wall2 env.mono2)
  | .hash _ =>
    match readBody s.req.readError 0 [] s.req.chunks with
    | .tooLarge => f.respond (f.ctx.reject .bodyTooLarge bodyTooLargeMessage) 413
    | .failed etype =>
      f.respond (f.ctx.reject .bodyReadFailed
        ("could not read request body: ".toList ++ etype)) 400
    | .complete body =>
      f.settle (verifyBodyAndCommit env.cache2 p1 (L.sha256 body) env.wall2 env.mono2)

/-- The machine check of a presented certificate, after phase 1. -/
def machineStep (f : Flow L) (p1 : PhaseOne) : Flow L × Bool :=
  match p.machine with
  | none => bodyStep s env f p1
  | some m =>
    if s.machinePresent = false then bodyStep s env f p1
    else
      match f.ctx.presentedMachineCert with
      | none => f.respond (f.ctx.machineRejected .notBase64) 403
      | some cert =>
        let r := m.verify cert s.clientIp env.chainWall env.dns
        let f := { f with dns := r.cache, queries := f.queries ++ r.queries }
        match r.result with
        | .error e => f.respond (f.ctx.machineRejected e) 403
        | .ok machine => bodyStep s env { f with ctx := f.ctx.machineVerified machine } p1

/-- Phase 1. -/
def tokenStep (f : Flow L) (ts nonce token host : Str) : Flow L × Bool :=
  match verifyHeaders L.toCrypto p.privateKey ⟨ts, nonce, token, host, s.req.method, s.req.path⟩
      env.wall1 env.cache1 with
  | .error e => f.respond (f.ctx.reject e.reason e.display) 403
  | .ok p1 =>
    machineStep p s env { f with ctx := f.ctx.tokenVerifiedWith (.of p1.bodyBinding) } p1

/-- The machine preflight. -/
def preflightStep (f : Flow L) (ts nonce token host : Str) : Flow L × Bool :=
  match p.machine with
  | none => tokenStep p s env f ts nonce token host
  | some m =>
    if s.machinePresent then tokenStep p s env f ts nonce token host
    else if m.required then f.respond (f.ctx.machineRejected .missing) 403
    else tokenStep p s env { f with ctx := f.ctx.machineAbsent } ts nonce token host

def noHeadersMessage : Str :=
  ("no DenBrowser attestation headers — not DenBrowser, or a " ++
    "DenBrowser not configured for this proxy").toList

/-- The attestation headers and the host must be readable. -/
def headersStep (f : Flow L) : Flow L × Bool :=
  let headers := s.req.headers
  match headerStr headers TS_HEADER, headerStr headers NONCE_HEADER,
    headerStr headers TOKEN_HEADER, requestHost s.req with
  | some ts, some nonce, some token, some host => preflightStep p s env f ts nonce token host
  | _, _, _, host =>
    let sent := ATTESTATION_HEADERS.countP headers.containsKey
    if sent = 0 ∧ s.machinePresent = false then
      f.respond (f.ctx.reject .noAttestationHeaders noHeadersMessage) 403
    else
      f.respond (f.ctx.reject .incompleteAttestationHeaders
        (describeIncomplete headers host.isSome s.machinePresent)) 403

/-- The identity a bypassed request is forwarded under. -/
def bypassSubject : Option Str :=
  match p.bypass, s.clientIp, s.clientCert with
  | some policy, some ip, some cert => policy.authorizes ip cert
  | _, _, _ => none

/-- What the rate-limit globs are matched against. -/
def rateTarget : Str := (requestHost s.req).getD [] ++ s.req.path

/-- Charge the rate limiter, when there is one and an IP to key on. -/
def rateStep : Option (RateLimiter L) × Bool :=
  match p.rateLimiter, s.clientIp with
  | some limiter, some ip =>
    let r := limiter.admits ip (rateTarget s) env.rateNow
    (some r.1, r.2)
  | limiter, _ => (limiter, true)

/-- What is recorded before any check can refuse the request. -/
def openAudit : RequestAudit :=
  let headers := s.req.headers
  let ctx := ((RequestAudit.new p.machine.isSome).request s.req.method
    (requestHost s.req)).attestationHeaders
      (headerStr headers TS_HEADER) (headerStr headers NONCE_HEADER)
  match headerStr headers MACHINE_CERT_HEADER with
  | some cert => ctx.machineCertPresented cert
  | none => ctx

/-- `request_filter`. -/
def requestFilter : Flow L × Bool :=
  let r := rateStep p s env
  let f : Flow L :=
    { ctx := openAudit p s, responses := [], limiter := r.1, replay := env.cache2,
      dns := env.dns.lookupCache, queries := [] }
  if r.2 = false then
    f.respond (f.ctx.reject .rateLimited "request rate limit exceeded".toList) 429
  else
    match bypassSubject p s with
    | some subject => f.pass (f.ctx.bypass subject)
    | none => headersStep p s env f

end Filter

/-! ## What the gate checks -/

section Spec

variable (p : Proxy L) (s : Session) (env : Env)

/-- The rate limiter is off, has no client IP to key on, or admits the request. -/
def Admitted : Prop :=
  ∀ limiter ip, p.rateLimiter = some limiter → s.clientIp = some ip →
    (limiter.admits ip (rateTarget s) env.rateNow).2 = true

/-- The bypass policy is on, the client IP is in a listed range, and the verified certificate's
CN or a SAN DNS name is allowlisted. -/
def Bypassed : Prop :=
  ∃ policy ip cert, p.bypass = some policy ∧ s.clientIp = some ip ∧ s.clientCert = some cert ∧
    (∃ net ∈ policy.ranges, L.netContains net ip = true) ∧
    ∃ n ∈ cert.names, n ∈ policy.allowedSubjects

/-- The request's readable attestation headers and host, with its method and path. -/
structure Request.Presents (r : Request) (i : AttestInputs) : Prop where
  ts : headerStr r.headers TS_HEADER = some i.ts
  nonce : headerStr r.headers NONCE_HEADER = some i.nonceB64
  token : headerStr r.headers TOKEN_HEADER = some i.tokenB64
  host : requestHost r = some i.host
  method : r.method = i.method
  path : r.path = i.path

/-- Phase 1 accepts the request. -/
def PhaseOneOk (p1 : PhaseOne) : Prop :=
  ∃ i, s.req.Presents i ∧
    verifyHeaders L.toCrypto p.privateKey i env.wall1 env.cache1 = .ok p1

/-- The machine layer is disabled, or its header is absent with `required = false`, or the
certificate is accepted. -/
def MachineOk : Prop :=
  ∀ m, p.machine = some m →
    (s.machinePresent = false ∧ m.required = false) ∨
    ∃ cert machine, headerStr s.req.headers MACHINE_CERT_HEADER = some cert ∧
      (m.verify cert s.clientIp env.chainWall env.dns).result = .ok machine

/-- The token is unbound, or the whole body is readable, within the cap and of the token's
hash. -/
def BodyOk (p1 : PhaseOne) : Prop :=
  p1.bodyBinding = .unbound ∨
    (s.req.readError = none ∧ s.req.body.length ≤ BOUND_BODY_MAX ∧
      p1.bodyBinding = .hash (L.sha256 s.req.body))

/-- The nonce commit succeeds. -/
def CommitOk (p1 : PhaseOne) : Prop :=
  (commitNonce env.cache2 p1 env.wall2 env.mono2).2 = .ok ()

/-- The request is attested. -/
structure Attested (p1 : PhaseOne) : Prop where
  phaseOne : PhaseOneOk p s env p1
  machine : MachineOk p s env
  body : BodyOk (L := L) s p1
  commit : CommitOk env p1

/-- A bound request that got as far as its body. -/
structure ReachesBody (p1 : PhaseOne) : Prop where
  admitted : Admitted p s env
  notBypassed : ¬Bypassed p s
  phaseOne : PhaseOneOk p s env p1
  machine : MachineOk p s env
  bound : p1.bodyBinding ≠ .unbound

/-- The names `request_filter` may ask the resolver for: those of requests that passed phase 1
with a certificate that `verify_cert` accepts. -/
def Asked (host : Str) : Prop :=
  ∃ m p1 cert machine, p.machine = some m ∧ PhaseOneOk p s env p1 ∧
    headerStr s.req.headers MACHINE_CERT_HEADER = some cert ∧
    CertAccepted m cert env.chainWall machine ∧ machine.hostname = host

end Spec

theorem Request.Presents.unique {r : Request} {i j : AttestInputs} (hi : r.Presents i)
    (hj : r.Presents j) : i = j := by
  obtain ⟨h1, h2, h3, h4, h5, h6⟩ := hi
  obtain ⟨g1, g2, g3, g4, g5, g6⟩ := hj
  cases i
  cases j
  simp_all

section Facts

variable {p : Proxy L} {s : Session} {env : Env}

theorem PhaseOneOk.unique {p1 p1' : PhaseOne} (h : PhaseOneOk p s env p1)
    (h' : PhaseOneOk p s env p1') : p1 = p1' := by
  obtain ⟨i, hi, hv⟩ := h
  obtain ⟨j, hj, hv'⟩ := h'
  have hij : i = j := hi.unique hj
  rw [hij, hv'] at hv
  cases hv
  rfl

/-- Phase 1 does not both refuse and accept. -/
theorem PhaseOneOk.not_error {p1 : PhaseOne} {i : AttestInputs} {e : AttestError}
    (h : PhaseOneOk p s env p1) (hi : s.req.Presents i)
    (he : verifyHeaders L.toCrypto p.privateKey i env.wall1 env.cache1 = .error e) : False := by
  obtain ⟨j, hj, hv⟩ := h
  have hij : j = i := hj.unique hi
  rw [hij, he] at hv
  cases hv

theorem rateStep_admits : (rateStep p s env).2 = true ↔ Admitted p s env := by
  unfold rateStep Admitted
  cases p.rateLimiter with
  | none => simp
  | some limiter =>
    cases s.clientIp with
    | none => simp
    | some ip => simp

theorem bypassSubject_isSome : (∃ subject, bypassSubject p s = some subject) ↔ Bypassed p s := by
  unfold bypassSubject Bypassed
  cases p.bypass with
  | none => simp
  | some policy =>
    cases s.clientIp with
    | none => simp
    | some ip =>
      cases s.clientCert with
      | none => simp
      | some cert => simpa using BypassPolicy.authorizes_iff

theorem openAudit_undecided :
    (openAudit p s).Undecided (headerStr s.req.headers NONCE_HEADER) false ∧
      (openAudit p s).Unchecked (headerStr s.req.headers MACHINE_CERT_HEADER) := by
  obtain ⟨hnew, hunchecked⟩ := RequestAudit.new_undecided p.machine.isSome
  have hctx : (((RequestAudit.new p.machine.isSome).request s.req.method
      (requestHost s.req)).attestationHeaders (headerStr s.req.headers TS_HEADER)
        (headerStr s.req.headers NONCE_HEADER)).Undecided
          (headerStr s.req.headers NONCE_HEADER) false := by
    apply RequestAudit.Undecided.attestationHeaders
    exact ⟨hnew.action, hnew.reason, hnew.nonce, hnew.tokenVerified, hnew.binding,
      hnew.hostname, hnew.chain⟩
  unfold openAudit
  cases hc : headerStr s.req.headers MACHINE_CERT_HEADER with
  | some cert => simpa only [hc] using ⟨hctx.machineCertPresented cert, hunchecked.hostname, rfl⟩
  | none =>
    simpa only [hc] using ⟨hctx, hunchecked.hostname, hunchecked.presented⟩

end Facts

/-! ## How the gate ends -/

section Endings

variable (p : Proxy L) (s : Session) (env : Env)

/-- What a flow has done so far. -/
structure Flow.At (f : Flow L) (ctx : RequestAudit) (responses : List Nat)
    (replay : NonceCache) : Prop where
  ctx : f.ctx = ctx
  responses : f.responses = responses
  replay : f.replay = replay
  queries : ∀ host ∈ f.queries, Asked p s env host

/-- Why a request that was not the machine layer's to refuse was refused: whether its token had
passed phase 1, the recorded reason and the response. -/
inductive Refusal : Bool → Reason → Nat → Prop where
  | rate : ¬Admitted p s env → Refusal false .rateLimited 429
  | headers {reason : Reason} : Admitted p s env → ¬Bypassed p s →
      (∀ i, ¬s.req.Presents i) →
      reason = .noAttestationHeaders ∨ reason = .incompleteAttestationHeaders →
      Refusal false reason 403
  | token {i : AttestInputs} {e : AttestError} : Admitted p s env → ¬Bypassed p s →
      s.req.Presents i →
      verifyHeaders L.toCrypto p.privateKey i env.wall1 env.cache1 = .error e →
      Refusal false e.reason 403
  | tooLarge {p1 : PhaseOne} : ReachesBody p s env p1 → BOUND_BODY_MAX < s.req.body.length →
      Refusal true .bodyTooLarge 413
  | readFailed {p1 : PhaseOne} {etype : Str} : ReachesBody p s env p1 →
      s.req.body.length ≤ BOUND_BODY_MAX → s.req.readError = some etype →
      Refusal true .bodyReadFailed 400
  /-- Phase 2 refused a body that was read whole, or that did not have to be. -/
  | commit {p1 : PhaseOne} {e : AttestError} : Admitted p s env → ¬Bypassed p s →
      PhaseOneOk p s env p1 → MachineOk p s env →
      (p1.bodyBinding ≠ .unbound →
        s.req.body.length ≤ BOUND_BODY_MAX ∧ s.req.readError = none) →
      ¬(BodyOk (L := L) s p1 ∧ CommitOk env p1) →
      (e = .bodyHashMismatch ∨ (commitNonce env.cache2 p1 env.wall2 env.mono2).2 = .error e) →
      Refusal true e.reason 403

/-- How `request_filter` ends. -/
inductive Ending : Flow L × Bool → Prop where
  | refused {f : Flow L} {a : RequestAudit} {verified : Bool} {reason : Reason} {message : Str}
      {code : Nat} : a.Undecided (headerStr s.req.headers NONCE_HEADER) verified →
      Refusal p s env verified reason code →
      f.At p s env (a.reject reason message) [code] env.cache2 → Ending (f, true)
  | machineRefused {f : Flow L} {a : RequestAudit} {verified : Bool} {cert : Option Str}
      {e : MachineError} : a.Undecided (headerStr s.req.headers NONCE_HEADER) verified →
      a.Unchecked cert → Admitted p s env → ¬Bypassed p s → ¬MachineOk p s env →
      (verified = true → ∃ p1, PhaseOneOk p s env p1) →
      f.At p s env (a.machineRejected e) [403] env.cache2 → Ending (f, true)
  | bypassed {f : Flow L} {a : RequestAudit} {subject : Str} :
      a.Undecided (headerStr s.req.headers NONCE_HEADER) false → Admitted p s env →
      Bypassed p s → f.At p s env (a.bypass subject) [] env.cache2 → Ending (f, false)
  | forwarded {f : Flow L} {a : RequestAudit} {p1 : PhaseOne} :
      a.Undecided (headerStr s.req.headers NONCE_HEADER) true → Admitted p s env →
      ¬Bypassed p s → Attested p s env p1 →
      f.At p s env a.forward [] (commitNonce env.cache2 p1 env.wall2 env.mono2).1 →
      Ending (f, false)

/-- A flow that has got past the rate limiter and the bypass, undecided. -/
structure Entered (verified : Bool) (f : Flow L) : Prop where
  admitted : Admitted p s env
  notBypassed : ¬Bypassed p s
  audit : f.ctx.Undecided (headerStr s.req.headers NONCE_HEADER) verified
  responses : f.responses = []
  replay : f.replay = env.cache2
  queries : ∀ host ∈ f.queries, Asked p s env host

end Endings

section EndingLemmas

variable {p : Proxy L} {s : Session} {env : Env} {f : Flow L} {p1 : PhaseOne}

theorem Entered.respond {verified : Bool} (hf : Entered p s env verified f) (ctx : RequestAudit)
    (code : Nat) : (f.respond ctx code).1.At p s env ctx [code] env.cache2 := by
  refine ⟨rfl, ?_, hf.replay, hf.queries⟩
  show f.responses ++ [code] = [code]
  rw [hf.responses]
  rfl

theorem Entered.reject {verified : Bool} (hf : Entered p s env verified f) {reason : Reason}
    {code : Nat} (message : Str) (h : Refusal p s env verified reason code) :
    Ending p s env (f.respond (f.ctx.reject reason message) code) :=
  .refused hf.audit h (hf.respond _ _)

/-- The match on the commit's result, for a request whose body is acceptable. -/
theorem Entered.settle (hf : Entered p s env true f) (h1 : PhaseOneOk p s env p1)
    (hm : MachineOk p s env) (hb : BodyOk (L := L) s p1)
    (hread : p1.bodyBinding ≠ .unbound →
      s.req.body.length ≤ BOUND_BODY_MAX ∧ s.req.readError = none) :
    Ending p s env (f.settle (commitNonce env.cache2 p1 env.wall2 env.mono2)) := by
  unfold Flow.settle
  cases hc : (commitNonce env.cache2 p1 env.wall2 env.mono2).2 with
  | error e =>
    have hcache : (commitNonce env.cache2 p1 env.wall2 env.mono2).1 = env.cache2 :=
      (commitNonce_error hc).1
    have hnot : ¬(BodyOk (L := L) s p1 ∧ CommitOk env p1) := by
      rintro ⟨_, hok⟩
      unfold CommitOk at hok
      rw [hc] at hok
      cases hok
    have hf' : Entered p s env true
        { f with replay := (commitNonce env.cache2 p1 env.wall2 env.mono2).1 } :=
      ⟨hf.admitted, hf.notBypassed, hf.audit, hf.responses, hcache, hf.queries⟩
    exact hf'.reject _ (.commit hf.admitted hf.notBypassed h1 hm hread hnot (Or.inr hc))
  | ok u =>
    exact .forwarded hf.audit hf.admitted hf.notBypassed ⟨h1, hm, hb, hc⟩
      ⟨rfl, hf.responses, rfl, hf.queries⟩

theorem bodyStep_ending (hf : Entered p s env true f) (h1 : PhaseOneOk p s env p1)
    (hm : MachineOk p s env) : Ending p s env (bodyStep s env f p1) := by
  unfold bodyStep
  cases hbind : p1.bodyBinding with
  | unbound => exact hf.settle h1 hm (Or.inl hbind) (fun h => absurd hbind h)
  | hash expected =>
    have hbound : p1.bodyBinding ≠ .unbound := by
      rw [hbind]
      exact fun h => (nomatch h)
    have hreach : ReachesBody p s env p1 := ⟨hf.admitted, hf.notBypassed, h1, hm, hbound⟩
    have hbody : 0 + s.req.chunks.flatten.length = s.req.body.length := Nat.zero_add _
    dsimp only
    rw [readBody_eq _ _ _ _ (Nat.zero_le _), hbody, List.nil_append]
    by_cases hlen : BOUND_BODY_MAX < s.req.body.length
    · rw [if_pos hlen]
      exact hf.reject _ (.tooLarge hreach hlen)
    · rw [if_neg hlen]
      cases herr : s.req.readError with
      | some etype => exact hf.reject _ (.readFailed hreach (by omega) herr)
      | none =>
        have hread : s.req.body.length ≤ BOUND_BODY_MAX ∧ s.req.readError = none :=
          ⟨by omega, herr⟩
        show Ending p s env (f.settle
          (verifyBodyAndCommit env.cache2 p1 (L.sha256 s.req.body) env.wall2 env.mono2))
        by_cases hmatch : p1.bodyMatches (L.sha256 s.req.body)
        · rw [verifyBodyAndCommit_eq _ _ _ _ _ hmatch]
          have hb : BodyOk (L := L) s p1 :=
            Or.inr ⟨herr, hread.1, by rw [hbind, hmatch expected hbind]⟩
          exact hf.settle h1 hm hb fun _ => hread
        · rw [verifyBodyAndCommit_mismatch _ _ _ _ _ hmatch]
          have hnot : ¬(BodyOk (L := L) s p1 ∧ CommitOk env p1) := by
            rintro ⟨hu | ⟨_, _, hh⟩, _⟩
            · exact hbound hu
            · apply hmatch
              intro expected' he
              rw [hh] at he
              cases he
              rfl
          have hf' : Entered p s env true { f with replay := env.cache2 } :=
            ⟨hf.admitted, hf.notBypassed, hf.audit, hf.responses, rfl, hf.queries⟩
          exact hf'.reject _ (.commit hf.admitted hf.notBypassed h1 hm (fun _ => hread) hnot
            (Or.inl rfl))

/-- A presented machine certificate has to be accepted. -/
theorem MachineOk.cert {m : MachineIdentity L} (h : MachineOk p s env) (hm : p.machine = some m)
    (hpresent : s.machinePresent ≠ false) :
    ∃ cert machine, headerStr s.req.headers MACHINE_CERT_HEADER = some cert ∧
      (m.verify cert s.clientIp env.chainWall env.dns).result = .ok machine :=
  (h m hm).resolve_left fun habsent => hpresent habsent.1

theorem machineStep_ending (hf : Entered p s env true f) (h1 : PhaseOneOk p s env p1)
    (hc : f.ctx.Unchecked (headerStr s.req.headers MACHINE_CERT_HEADER))
    (hpre : ∀ m, p.machine = some m → s.machinePresent = false → m.required = false) :
    Ending p s env (machineStep p s env f p1) := by
  unfold machineStep
  cases hm : p.machine with
  | none =>
    apply bodyStep_ending hf h1
    intro m hm'
    rw [hm] at hm'
    cases hm'
  | some m =>
    dsimp only
    by_cases hpresent : s.machinePresent = false
    · rw [if_pos hpresent]
      apply bodyStep_ending hf h1
      intro m' hm'
      rw [hm] at hm'
      cases hm'
      exact Or.inl ⟨hpresent, hpre m hm hpresent⟩
    · rw [if_neg hpresent]
      cases hcert : f.ctx.presentedMachineCert with
      | none =>
        have hnone : headerStr s.req.headers MACHINE_CERT_HEADER = none := by
          rw [← hc.presented, hcert]
        have hnot : ¬MachineOk p s env := by
          intro hok
          obtain ⟨cert, _, hsome, _⟩ := hok.cert hm hpresent
          rw [hnone] at hsome
          cases hsome
        exact .machineRefused hf.audit hc hf.admitted hf.notBypassed hnot (fun _ => ⟨p1, h1⟩)
          (hf.respond _ _)
      | some cert =>
        have hsome : headerStr s.req.headers MACHINE_CERT_HEADER = some cert := by
          rw [← hc.presented, hcert]
        -- only an accepted certificate's name reaches the resolver
        have hasked : ∀ host ∈ f.queries ++
            (m.verify cert s.clientIp env.chainWall env.dns).queries, Asked p s env host := by
          intro host hhost
          rcases List.mem_append.1 hhost with hold | hnew
          · exact hf.queries host hold
          · obtain ⟨machine, hok, hname⟩ := verify_queries hnew
            exact ⟨m, p1, cert, machine, hm, h1, hsome, verifyCert_ok_iff.1 hok, hname⟩
        dsimp only
        cases hv : (m.verify cert s.clientIp env.chainWall env.dns).result with
        | error e =>
          have hnot : ¬MachineOk p s env := by
            intro hok
            obtain ⟨cert', machine, hsome', hok'⟩ := hok.cert hm hpresent
            rw [hsome] at hsome'
            cases hsome'
            rw [hv] at hok'
            cases hok'
          have hf' : Entered p s env true
              { f with
                dns := (m.verify cert s.clientIp env.chainWall env.dns).cache
                queries := f.queries ++
                  (m.verify cert s.clientIp env.chainWall env.dns).queries } :=
            ⟨hf.admitted, hf.notBypassed, hf.audit, hf.responses, hf.replay, hasked⟩
          exact .machineRefused hf.audit hc hf.admitted hf.notBypassed hnot
            (fun _ => ⟨p1, h1⟩) (hf'.respond _ _)
        | ok machine =>
          apply bodyStep_ending _ h1
          · intro m' hm'
            rw [hm] at hm'
            cases hm'
            exact Or.inr ⟨cert, machine, hsome, hv⟩
          · exact ⟨hf.admitted, hf.notBypassed, hf.audit.machineVerified machine,
              hf.responses, hf.replay, hasked⟩

theorem tokenStep_ending {i : AttestInputs} (hf : Entered p s env false f)
    (hi : s.req.Presents i)
    (hc : f.ctx.Unchecked (headerStr s.req.headers MACHINE_CERT_HEADER))
    (hpre : ∀ m, p.machine = some m → s.machinePresent = false → m.required = false) :
    Ending p s env (tokenStep p s env f i.ts i.nonceB64 i.tokenB64 i.host) := by
  have heq : (⟨i.ts, i.nonceB64, i.tokenB64, i.host, s.req.method, s.req.path⟩ :
      AttestInputs) = i := by
    rw [hi.method, hi.path]
  unfold tokenStep
  rw [heq]
  cases hv : verifyHeaders L.toCrypto p.privateKey i env.wall1 env.cache1 with
  | error e => exact hf.reject _ (.token hf.admitted hf.notBypassed hi hv)
  | ok p1 =>
    obtain ⟨haudit, hunchecked⟩ := hf.audit.tokenVerifiedWith hc (.of p1.bodyBinding)
    exact machineStep_ending
      ⟨hf.admitted, hf.notBypassed, haudit, hf.responses, hf.replay, hf.queries⟩
      ⟨i, hi, hv⟩ hunchecked hpre

theorem preflightStep_ending {i : AttestInputs} (hf : Entered p s env false f)
    (hi : s.req.Presents i)
    (hc : f.ctx.Unchecked (headerStr s.req.headers MACHINE_CERT_HEADER)) :
    Ending p s env (preflightStep p s env f i.ts i.nonceB64 i.tokenB64 i.host) := by
  unfold preflightStep
  cases hm : p.machine with
  | none =>
    apply tokenStep_ending hf hi hc
    intro m hm'
    rw [hm] at hm'
    cases hm'
  | some m =>
    dsimp only
    by_cases hpresent : s.machinePresent = true
    · rw [if_pos hpresent]
      apply tokenStep_ending hf hi hc
      intro _ _ habsent
      rw [hpresent] at habsent
      cases habsent
    · rw [if_neg hpresent]
      by_cases hreq : m.required = true
      · rw [if_pos hreq]
        have hnot : ¬MachineOk p s env := by
          intro hok
          rcases hok m hm with ⟨_, hrel⟩ | ⟨cert, _, hcert, _⟩
          · rw [hreq] at hrel
            cases hrel
          · exact hpresent (headerStr_containsKey hcert)
        exact .machineRefused hf.audit hc hf.admitted hf.notBypassed hnot
          (fun h => nomatch h) (hf.respond _ _)
      · rw [if_neg hreq]
        obtain ⟨haudit, hunchecked⟩ := hf.audit.machineAbsent hc
        apply tokenStep_ending _ hi hunchecked
        · intro m' hm' _
          rw [hm] at hm'
          cases hm'
          simpa using hreq
        · exact ⟨hf.admitted, hf.notBypassed, haudit, hf.responses, hf.replay, hf.queries⟩

theorem headersStep_ending (hf : Entered p s env false f)
    (hc : f.ctx.Unchecked (headerStr s.req.headers MACHINE_CERT_HEADER)) :
    Ending p s env (headersStep p s env f) := by
  unfold headersStep
  dsimp only
  split
  · rename_i ts nonce token host hts hnonce htoken hhost
    exact preflightStep_ending (i := ⟨ts, nonce, token, host, s.req.method, s.req.path⟩) hf
      ⟨hts, hnonce, htoken, hhost, rfl, rfl⟩ hc
  · rename_i hmissing
    have hnone : ∀ i, ¬s.req.Presents i := by
      intro i hi
      exact hmissing i.ts i.nonceB64 i.tokenB64 i.host hi.ts hi.nonce hi.token hi.host
    split
    · exact hf.reject _ (.headers hf.admitted hf.notBypassed hnone (Or.inl rfl))
    · exact hf.reject _ (.headers hf.admitted hf.notBypassed hnone (Or.inr rfl))

/-- **Every way the gate can end.** -/
theorem requestFilter_ending (p : Proxy L) (s : Session) (env : Env) :
    Ending p s env (requestFilter p s env) := by
  obtain ⟨haudit, hunchecked⟩ := openAudit_undecided (p := p) (s := s)
  unfold requestFilter
  dsimp only
  by_cases hrate : (rateStep p s env).2 = false
  · rw [if_pos hrate]
    have hnot : ¬Admitted p s env := by
      rw [← rateStep_admits, hrate]
      exact fun h => nomatch h
    exact .refused haudit (.rate hnot) ⟨rfl, rfl, rfl, fun _ h => nomatch h⟩
  · rw [if_neg hrate]
    have hadmitted : Admitted p s env := by
      rw [← rateStep_admits]
      simpa using hrate
    cases hsub : bypassSubject p s with
    | some subject =>
      exact .bypassed haudit hadmitted (bypassSubject_isSome.1 ⟨subject, hsub⟩)
        ⟨rfl, rfl, rfl, fun _ h => nomatch h⟩
    | none =>
      have hnot : ¬Bypassed p s := by
        rw [← bypassSubject_isSome, hsub]
        rintro ⟨_, h⟩
        cases h
      exact headersStep_ending ⟨hadmitted, hnot, haudit, rfl, rfl, fun _ h => nomatch h⟩
        hunchecked

end EndingLemmas

end DenBrowser
