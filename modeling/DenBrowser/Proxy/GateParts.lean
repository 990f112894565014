import DenBrowser.Proxy.Gate

/-!
# The gate between its waits

`request_filter` waits for the replay cache, the resolver and the request body.  Its parts from
one wait to the next, each a function of what was waited for, and what they add up to.

* `outcome_requestFilter` — the parts add up to `requestFilter`.
-/

set_option autoImplicit false

namespace DenBrowser

variable {L : Crates}

/-- What a run of the gate shows: the audit state, the responses and the value returned. -/
structure Outcome where
  ctx : RequestAudit
  responses : List Nat
  ret : Bool
  deriving DecidableEq

def outcome (o : Flow L × Bool) : Outcome := ⟨o.1.ctx, o.1.responses, o.2⟩

def Outcome.refuse (ctx : RequestAudit) (code : Nat) : Outcome := ⟨ctx, [code], true⟩

def Outcome.pass (ctx : RequestAudit) : Outcome := ⟨ctx, [], false⟩

/-! ## The parts -/

/-- How the part before phase 1 ends. -/
inductive GateStart where
  | ended (o : Outcome)
  | phaseOne (ctx : RequestAudit) (i : AttestInputs)

/-- The machine preflight. -/
def startPreflight (p : Proxy L) (s : Session) (ctx : RequestAudit) (i : AttestInputs) :
    GateStart :=
  match p.machine with
  | none => .phaseOne ctx i
  | some m =>
    if s.machinePresent then .phaseOne ctx i
    else if m.required then .ended (.refuse (ctx.machineRejected .missing) 403)
    else .phaseOne ctx.machineAbsent i

/-- A header, or the host, is missing or unreadable. -/
def startIncomplete (s : Session) (ctx : RequestAudit) (host : Option Str) : GateStart :=
  let headers := s.req.headers
  let sent := ATTESTATION_HEADERS.countP headers.containsKey
  if sent = 0 ∧ s.machinePresent = false then
    .ended (.refuse (ctx.reject .noAttestationHeaders noHeadersMessage) 403)
  else
    .ended (.refuse (ctx.reject .incompleteAttestationHeaders
      (describeIncomplete headers host.isSome s.machinePresent)) 403)

def startHeaders (p : Proxy L) (s : Session) (ctx : RequestAudit) : GateStart :=
  let headers := s.req.headers
  match headerStr headers TS_HEADER, headerStr headers NONCE_HEADER,
    headerStr headers TOKEN_HEADER, requestHost s.req with
  | some ts, some nonce, some token, some host =>
    startPreflight p s ctx ⟨ts, nonce, token, host, s.req.method, s.req.path⟩
  | _, _, _, host => startIncomplete s ctx host

/-- From the rate limiter's decision to phase 1. -/
def start (p : Proxy L) (s : Session) (admitted : Bool) : GateStart :=
  let ctx := openAudit p s
  if admitted = false then
    .ended (.refuse (ctx.reject .rateLimited "request rate limit exceeded".toList) 429)
  else
    match bypassSubject p s with
    | some subject => .ended (.pass (ctx.bypass subject))
    | none => startHeaders p s ctx

/-- How the part between phase 1 and the machine check ends. -/
inductive Checked (L : Crates) where
  | ended (o : Outcome)
  | body
  | verify (m : MachineIdentity L) (cert : Str)

/-- Whether there is a machine certificate to verify. -/
def machineCheck (p : Proxy L) (s : Session) (ctx : RequestAudit) : Checked L :=
  match p.machine with
  | none => .body
  | some m =>
    if s.machinePresent = false then .body
    else
      match ctx.presentedMachineCert with
      | none => .ended (.refuse (ctx.machineRejected .notBase64) 403)
      | some cert => .verify m cert

/-- How the reading of a body ends; the hash that is compared, unless the body is unbound. -/
inductive Received where
  | ended (o : Outcome)
  | commit (actual : Option Hash)

/-- The body loop. -/
def bodyCheck (L : Crates) (s : Session) (ctx : RequestAudit) (p1 : PhaseOne) : Received :=
  match p1.bodyBinding with
  | .unbound => .commit none
  | .hash _ =>
    match readBody s.req.readError 0 [] s.req.chunks with
    | .tooLarge => .ended (.refuse (ctx.reject .bodyTooLarge bodyTooLargeMessage) 413)
    | .failed etype =>
      .ended (.refuse (ctx.reject .bodyReadFailed
        ("could not read request body: ".toList ++ etype)) 400)
    | .complete body => .commit (some (L.sha256 body))

/-- What the commit returned. -/
def settled (ctx : RequestAudit) : Except AttestError Unit → Outcome
  | .error e => .refuse (ctx.reject e.reason e.display) 403
  | .ok () => .pass ctx.forward

/-- The commit of either kind of body. -/
def commitResult (cache : NonceCache) (p1 : PhaseOne) (actual : Option Hash) (wall : SystemTime)
    (mono : Nat) : Except AttestError Unit :=
  match actual with
  | none => (commitNonce cache p1 wall mono).2
  | some h => (verifyBodyAndCommit cache p1 h wall mono).2

/-! ## What they add up to -/

def bodyOutcome (L : Crates) (s : Session) (env : Env) (ctx : RequestAudit) (p1 : PhaseOne) :
    Outcome :=
  match bodyCheck L s ctx p1 with
  | .ended o => o
  | .commit actual => settled ctx (commitResult env.cache2 p1 actual env.wall2 env.mono2)

/-- After the machine check. -/
def identified (L : Crates) (s : Session) (env : Env) (ctx : RequestAudit) (p1 : PhaseOne) :
    Except MachineError VerifiedMachine → Outcome
  | .error e => .refuse (ctx.machineRejected e) 403
  | .ok machine => bodyOutcome L s env (ctx.machineVerified machine) p1

def machineOutcome (p : Proxy L) (s : Session) (env : Env) (ctx : RequestAudit) (p1 : PhaseOne) :
    Outcome :=
  match machineCheck p s ctx with
  | .ended o => o
  | .body => bodyOutcome L s env ctx p1
  | .verify m cert =>
    identified L s env ctx p1 (m.verify cert s.clientIp env.chainWall env.dns).result

def phaseOneOutcome (p : Proxy L) (s : Session) (env : Env) (ctx : RequestAudit)
    (i : AttestInputs) : Outcome :=
  match verifyHeaders L.toCrypto p.privateKey i env.wall1 env.cache1 with
  | .error e => .refuse (ctx.reject e.reason e.display) 403
  | .ok p1 => machineOutcome p s env (ctx.tokenVerifiedWith (.of p1.bodyBinding)) p1

def startedOutcome (p : Proxy L) (s : Session) (env : Env) : GateStart → Outcome
  | .ended o => o
  | .phaseOne ctx i => phaseOneOutcome p s env ctx i

def filterOutcome (p : Proxy L) (s : Session) (env : Env) : Outcome :=
  startedOutcome p s env (start p s (rateStep p s env).2)

section Sum

variable (p : Proxy L) (s : Session) (env : Env) {f : Flow L}

theorem outcome_respond (hf : f.responses = []) (ctx : RequestAudit) (code : Nat) :
    outcome (f.respond ctx code) = .refuse ctx code := by
  simp [outcome, Flow.respond, Outcome.refuse, hf]

theorem outcome_settle (hf : f.responses = []) (r : NonceCache × Except AttestError Unit) :
    outcome (f.settle r) = settled f.ctx r.2 := by
  unfold Flow.settle settled
  dsimp only
  cases r.2 with
  | error e => exact outcome_respond (f := { f with replay := r.1 }) hf _ _
  | ok u => simp [outcome, Flow.pass, Outcome.pass, hf]

theorem outcome_bodyStep (hf : f.responses = []) (p1 : PhaseOne) :
    outcome (bodyStep s env f p1) = bodyOutcome L s env f.ctx p1 := by
  unfold bodyStep bodyOutcome bodyCheck
  cases p1.bodyBinding with
  | unbound => exact outcome_settle hf _
  | hash expected =>
    dsimp only
    cases readBody s.req.readError 0 [] s.req.chunks with
    | tooLarge => exact outcome_respond hf _ _
    | failed etype => exact outcome_respond hf _ _
    | complete body => exact outcome_settle hf _

theorem outcome_machineStep (hf : f.responses = []) (p1 : PhaseOne) :
    outcome (machineStep p s env f p1) = machineOutcome p s env f.ctx p1 := by
  unfold machineStep machineOutcome machineCheck
  cases p.machine with
  | none => exact outcome_bodyStep s env hf p1
  | some m =>
    dsimp only
    by_cases hpresent : s.machinePresent = false
    · rw [if_pos hpresent, if_pos hpresent]
      exact outcome_bodyStep s env hf p1
    · rw [if_neg hpresent, if_neg hpresent]
      cases f.ctx.presentedMachineCert with
      | none => exact outcome_respond hf _ _
      | some cert =>
        dsimp only
        cases (m.verify cert s.clientIp env.chainWall env.dns).result with
        | error e => exact outcome_respond hf _ _
        | ok machine => exact outcome_bodyStep (L := L) s env (by exact hf) p1

theorem outcome_tokenStep (hf : f.responses = []) (ts nonce token host : Str) :
    outcome (tokenStep p s env f ts nonce token host) =
      phaseOneOutcome p s env f.ctx ⟨ts, nonce, token, host, s.req.method, s.req.path⟩ := by
  unfold tokenStep phaseOneOutcome
  cases verifyHeaders L.toCrypto p.privateKey
      ⟨ts, nonce, token, host, s.req.method, s.req.path⟩ env.wall1 env.cache1 with
  | error e => exact outcome_respond hf _ _
  | ok p1 => exact outcome_machineStep p s env (by exact hf) p1

theorem outcome_preflightStep (hf : f.responses = []) (ts nonce token host : Str) :
    outcome (preflightStep p s env f ts nonce token host) =
      startedOutcome p s env
        (startPreflight p s f.ctx ⟨ts, nonce, token, host, s.req.method, s.req.path⟩) := by
  unfold preflightStep startPreflight
  cases p.machine with
  | none => exact outcome_tokenStep p s env hf _ _ _ _
  | some m =>
    dsimp only
    by_cases hpresent : s.machinePresent = true
    · rw [if_pos hpresent, if_pos hpresent]
      exact outcome_tokenStep p s env hf _ _ _ _
    · rw [if_neg hpresent, if_neg hpresent]
      by_cases hrequired : m.required = true
      · rw [if_pos hrequired, if_pos hrequired]
        exact outcome_respond hf _ _
      · rw [if_neg hrequired, if_neg hrequired]
        exact outcome_tokenStep p s env (by exact hf) _ _ _ _

theorem outcome_headersStep (hf : f.responses = []) :
    outcome (headersStep p s env f) = startedOutcome p s env (startHeaders p s f.ctx) := by
  have hincomplete : ∀ host : Option Str,
      outcome (if ATTESTATION_HEADERS.countP s.req.headers.containsKey = 0 ∧
          s.machinePresent = false then
        f.respond (f.ctx.reject .noAttestationHeaders noHeadersMessage) 403
      else
        f.respond (f.ctx.reject .incompleteAttestationHeaders
          (describeIncomplete s.req.headers host.isSome s.machinePresent)) 403) =
      startedOutcome p s env (startIncomplete s f.ctx host) := by
    intro host
    unfold startIncomplete
    dsimp only
    by_cases hnone : ATTESTATION_HEADERS.countP s.req.headers.containsKey = 0 ∧
        s.machinePresent = false
    · rw [if_pos hnone, if_pos hnone]
      exact outcome_respond hf _ _
    · rw [if_neg hnone, if_neg hnone]
      exact outcome_respond hf _ _
  unfold headersStep startHeaders
  dsimp only
  rcases headerStr s.req.headers TS_HEADER with _ | ts
  · exact hincomplete _
  rcases headerStr s.req.headers NONCE_HEADER with _ | nonce
  · exact hincomplete _
  rcases headerStr s.req.headers TOKEN_HEADER with _ | token
  · exact hincomplete _
  rcases requestHost s.req with _ | host
  · exact hincomplete none
  · exact outcome_preflightStep p s env hf _ _ _ _

/-- **The parts add up to `requestFilter`.** -/
theorem outcome_requestFilter : outcome (requestFilter p s env) = filterOutcome p s env := by
  unfold requestFilter filterOutcome start
  dsimp only
  by_cases hadmit : (rateStep p s env).2 = false
  · rw [if_pos hadmit, if_pos hadmit]
    exact outcome_respond (by rfl) _ _
  · rw [if_neg hadmit, if_neg hadmit]
    cases bypassSubject p s with
    | some subject => rfl
    | none => exact outcome_headersStep p s env (by rfl)

end Sum

end DenBrowser
