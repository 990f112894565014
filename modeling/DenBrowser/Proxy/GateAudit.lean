import DenBrowser.Proxy.Gate

/-!
# The gate's audit record

What the record written for a request says, for every way `request_filter` can end and every
terminal error after it.

* `Ending.decision` — every ending of the gate leaves a refused or a passed accumulator;
* `requestFilter_record` — the record is consistent, and emitted at the level it states.
-/

set_option autoImplicit false

namespace DenBrowser

variable {L : Crates}

/-- What pingora reports of a finished exchange. -/
structure Transfer where
  statusCode : Option Nat
  requestBodyBytes : Nat
  responseBodyBytes : Nat

def Session.connection (s : Session) (t : Transfer) : Connection where
  proxy := s.serverAddr
  client := s.clientAddr
  tlsClientSubject := s.clientCert.map ClientCert.subjectDn
  statusCode := t.statusCode
  requestBodyBytes := t.requestBodyBytes
  responseBodyBytes := t.responseBodyBytes

/-- `logging`, with the clock's readings. -/
def logging (L : Crates) (enabled : Level → Bool) (s : Session) (t : Transfer)
    (e : Option PingoraError) (ctx : RequestAudit) (timestamp : Str) (durationMs : Nat) :
    Option (Level × AuditRecord) :=
  ctx.finish L enabled (s.connection t) (e.map classifyProxyError) timestamp durationMs

/-- The decision part of a record, for a request that ended in `ctx` with the result `ret` of
`request_filter`, and the terminal error `error`. -/
structure DecisionConsistent (ctx : RequestAudit) (ret : Bool) (error : Option (Reason × Str))
    (r : AuditRecord) : Prop where
  success_reason : r.event.outcome = .success ↔ r.event.reason = none ∧ r.event.stage = none
  success_risk : r.event.outcome = .success ↔ r.event.risk = .info
  success_level : r.event.outcome = .success ↔ r.level = "INFO".toList
  success_action : r.event.outcome = .success ↔
    (r.event.action = .forward ∨ r.event.action = .bypass) ∧ error = none
  stage : r.event.stage = r.event.reason.map Reason.stage
  risk : r.event.risk = (r.event.reason.map Reason.risk).getD .info
  /-- A refusal keeps its own reason and message. -/
  refusal : ret = true → ctx.reason ≠ none ∧ r.event.reason = ctx.reason ∧
    some r.message = ctx.message
  passed : r.event.action = .forward ∨ r.event.action = .bypass ↔ ret = false
  refused : r.event.action = .reject ∨ r.event.action = .rateLimit ↔ ret = true
  critical : r.event.risk = .critical ↔
    r.event.reason = some .tokenRequestMismatch ∨ r.event.reason = some .bodyHashMismatch

/-- The commit raised `timestamp_out_of_window`. -/
def RaisedAtCommit (p : Proxy L) (s : Session) (env : Env) : Prop :=
  ∃ p1 e, PhaseOneOk p s env p1 ∧
    (commitNonce env.cache2 p1 env.wall2 env.mono2).2 = .error e ∧
    e.reason = .timestampOutOfWindow

/-- The attestation and machine parts of a record. -/
structure FieldsConsistent (p : Proxy L) (s : Session) (env : Env) (ret : Bool)
    (r : AuditRecord) : Prop where
  verified : r.attestation.status = .verified ↔ r.event.action = .forward
  forward : r.event.action = .forward →
    r.attestation.nonce.isSome = true ∧ r.attestation.bodyBinding.isSome = true
  failed : r.attestation.status = .failed ↔
    ret = true ∧ ∃ stage, r.event.stage = some stage ∧ stage.isAttestation = true
  incomplete : r.attestation.status = .incomplete → ∃ p1, PhaseOneOk p s env p1
  hostname : r.machine.hostname.isSome = true ↔ r.machine.status = .verified
  chain : r.machine.chainVerified = true → r.machine.status = .verified ∨
    r.event.reason = some .machineAddressMismatch ∨
    r.event.reason = some .machineHostnameUnresolvable
  outOfWindow : r.event.reason = some .timestampOutOfWindow →
    (r.attestation.bodyBinding.isSome = true ↔ RaisedAtCommit p s env)

/-! ## The decision -/

section Decision

variable {a : RequestAudit} {conn : Connection} {error : Option (Reason × Str)}
  {timestamp : Str} {durationMs : Nat}

theorem risk_critical (reason : Option Reason) :
    (reason.map Reason.risk).getD .info = .critical ↔
      reason = some .tokenRequestMismatch ∨ reason = some .bodyHashMismatch := by
  cases reason with
  | none => simp
  | some reason => simpa using Reason.risk_critical_iff reason

theorem decision_of_refused {reason : Reason} {message : Str} (h : a.Refused reason message) :
    DecisionConsistent a true error (a.record L conn error timestamp durationMs) := by
  obtain ⟨hact, hout, hlev, hreason, hstage, hrisk, hmsg⟩ :=
    record_refused L conn error timestamp durationMs h
  have hne : reason.risk ≠ .info := reason.risk_ne_info
  have hnot : ¬((a.record L conn error timestamp durationMs).event.action = .forward ∨
      (a.record L conn error timestamp durationMs).event.action = .bypass) := by
    rw [hact]
    by_cases hr : reason = .rateLimited <;> simp [hr]
  refine ⟨?_, ?_, ?_, ?_, ?_, ?_, ?_, ?_, ?_, ?_⟩
  · simp [hout, hreason]
  · simp [hout, hrisk, hne]
  · rw [hout, hlev]
    decide
  · simp [hout, hnot]
  · rw [hstage, hreason]
    rfl
  · rw [hrisk, hreason]
    rfl
  · intro _
    exact ⟨by simp [h.2.1], by rw [hreason, h.2.1], by rw [hmsg, h.2.2]⟩
  · simp [hnot]
  · rw [hact]
    by_cases hr : reason = .rateLimited <;> simp [hr]
  · rw [hrisk, hreason]
    exact risk_critical (some reason)

theorem decision_of_passed {action : Action} (h : a.Passed action) :
    DecisionConsistent a false error (a.record L conn error timestamp durationMs) := by
  obtain ⟨hact, hreason, hstage, hrisk, hout, hlev⟩ :=
    record_passed L conn error timestamp durationMs h
  have hpass : (a.record L conn error timestamp durationMs).event.action = .forward ∨
      (a.record L conn error timestamp durationMs).event.action = .bypass := by
    rw [hact]
    exact h.1
  refine ⟨?_, ?_, ?_, ?_, ?_, ?_, fun hret => (nomatch hret), ?_, ?_, ?_⟩
  · rw [hout, hreason, hstage]
    simp
  · rw [hout, hrisk]
    cases error with
    | none => simp
    | some e => simpa using e.1.risk_ne_info
  · rw [hout, hlev]
  · rw [hout]
    simp [hpass]
  · rw [hstage, hreason, Option.map_map]
    rfl
  · rw [hrisk, hreason, Option.map_map]
    rfl
  · simp [hpass]
  · rw [hact]
    rcases h.1 with rfl | rfl <;> simp
  · rw [hrisk, hreason]
    have := risk_critical (error.map Prod.fst)
    rwa [Option.map_map] at this

end Decision

/-! ## The accumulator at the end -/

section Endings

variable {p : Proxy L} {s : Session} {env : Env}

/-- The gate's decision and the accumulator it leaves. -/
theorem Ending.decision {o : Flow L × Bool} (h : Ending p s env o) :
    (o.2 = true ∧ ∃ reason message, o.1.ctx.Refused reason message) ∨
      (o.2 = false ∧ ∃ action, o.1.ctx.Passed action) := by
  cases h with
  | @refused f a _ reason message _ _ _ hat =>
    have hctx : f.ctx.Refused reason message := by
      rw [hat.ctx]
      exact ⟨rfl, rfl, rfl⟩
    exact Or.inl ⟨rfl, _, _, hctx⟩
  | @machineRefused f a _ _ e _ _ _ _ _ _ hat =>
    have hctx : f.ctx.Refused e.reason e.display := by
      rw [hat.ctx]
      exact ⟨rfl, rfl, rfl⟩
    exact Or.inl ⟨rfl, _, _, hctx⟩
  | @bypassed f a subject hu _ _ hat =>
    have hctx : f.ctx.Passed .bypass := by
      rw [hat.ctx]
      exact ⟨Or.inr rfl, rfl, hu.reason⟩
    exact Or.inr ⟨rfl, _, hctx⟩
  | @forwarded f a p1 hu _ _ _ hat =>
    have hctx : f.ctx.Passed .forward := by
      rw [hat.ctx]
      exact ⟨Or.inl rfl, rfl, hu.reason⟩
    exact Or.inr ⟨rfl, _, hctx⟩

theorem Refusal.phaseOne {reason : Reason} {code : Nat}
    (h : Refusal p s env true reason code) : ∃ p1, PhaseOneOk p s env p1 := by
  cases h with
  | tooLarge hr _ => exact ⟨_, hr.phaseOne⟩
  | readFailed hr _ _ => exact ⟨_, hr.phaseOne⟩
  | commit _ _ h1 _ _ _ _ => exact ⟨_, h1⟩

/-- A timestamp refusal comes after phase 1 exactly when the commit raised it. -/
theorem Refusal.outOfWindow {verified : Bool} {reason : Reason} {code : Nat}
    (h : Refusal p s env verified reason code) (hreason : reason = .timestampOutOfWindow) :
    verified = true ↔ RaisedAtCommit p s env := by
  cases h with
  | rate _ => cases hreason
  | headers _ _ _ hr => rcases hr with rfl | rfl <;> cases hreason
  | token _ _ hi he =>
    simp only [Bool.false_eq_true, false_iff]
    rintro ⟨p1, _, h1, _⟩
    exact h1.not_error hi he
  | tooLarge _ _ => cases hreason
  | readFailed _ _ _ => cases hreason
  | commit _ _ h1 _ _ _ he =>
    simp only [true_iff]
    rcases he with rfl | he
    · cases hreason
    · exact ⟨_, _, h1, he, hreason⟩

/-! ## The attestation and machine fields -/

/-- What `reject` writes as the attestation status. -/
theorem reject_status (a : RequestAudit) (reason : Reason) (message : Str) :
    (a.reject reason message).attestation.status ≠ .verified ∧
      ((a.reject reason message).attestation.status = .failed ↔
        reason.stage.isAttestation = true) ∧
      ((a.reject reason message).attestation.status = .incomplete →
        a.tokenVerified = true) := by
  unfold RequestAudit.reject
  dsimp only
  by_cases hs : reason.stage.isAttestation = true
  · simp [hs]
  · by_cases hv : a.tokenVerified = true <;> simp [hs, hv]

section Fields

variable {b : RequestAudit} {conn : Connection} {error : Option (Reason × Str)}
  {timestamp : Str} {durationMs : Nat}

theorem fields_of_refused {reason : Reason} {message : Str} (hb : b.Refused reason message)
    (hstatus : b.attestation.status ≠ .verified)
    (hfailed : b.attestation.status = .failed ↔ reason.stage.isAttestation = true)
    (hincomplete : b.attestation.status = .incomplete → ∃ p1, PhaseOneOk p s env p1)
    (hhost : b.machine.hostname.isSome = true ↔ b.machine.status = .verified)
    (hchain : b.machine.chainVerified = true → b.machine.status = .verified ∨
      reason = .machineAddressMismatch ∨ reason = .machineHostnameUnresolvable)
    (hwindow : reason = .timestampOutOfWindow →
      (b.attestation.bodyBinding.isSome = true ↔ RaisedAtCommit p s env)) :
    FieldsConsistent p s env true (b.record L conn error timestamp durationMs) := by
  obtain ⟨hact, _, _, hreason, hstage, _, _⟩ :=
    record_refused L conn error timestamp durationMs hb
  obtain ⟨hatt, hmstatus, hmhost, hmchain⟩ :=
    record_fields L b conn error timestamp durationMs
  have hnotfwd : (b.record L conn error timestamp durationMs).event.action ≠ .forward := by
    rw [hact]
    by_cases hr : reason = .rateLimited <;> simp [hr]
  refine ⟨?_, fun h => absurd h hnotfwd, ?_, ?_, ?_, ?_, ?_⟩
  · rw [hatt]
    exact ⟨fun h => absurd h hstatus, fun h => absurd h hnotfwd⟩
  · rw [hatt, hstage, hfailed]
    simp
  · rw [hatt]
    exact hincomplete
  · rw [hmhost, hmstatus]
    exact hhost
  · rw [hmchain, hmstatus, hreason]
    simpa only [Option.some.injEq] using hchain
  · rw [hreason, hatt]
    intro h
    exact hwindow (Option.some.inj h)

theorem fields_of_passed {action : Action} (hb : b.Passed action)
    (hstatus : b.attestation.status = .verified ↔ action = .forward)
    (hfailed : b.attestation.status ≠ .failed) (hincomplete : b.attestation.status ≠ .incomplete)
    (hforward : action = .forward → b.attestation.nonce.isSome = true ∧
      b.attestation.bodyBinding.isSome = true)
    (hhost : b.machine.hostname.isSome = true ↔ b.machine.status = .verified)
    (hchain : b.machine.chainVerified = true → b.machine.status = .verified)
    (herror : ∀ x, error = some x → x.1 ≠ .timestampOutOfWindow) :
    FieldsConsistent p s env false (b.record L conn error timestamp durationMs) := by
  obtain ⟨hact, hreason, _, _, _, _⟩ := record_passed L conn error timestamp durationMs hb
  obtain ⟨hatt, hmstatus, hmhost, hmchain⟩ :=
    record_fields L b conn error timestamp durationMs
  refine ⟨?_, ?_, ?_, ?_, ?_, ?_, ?_⟩
  · rw [hatt, hact]
    exact hstatus
  · rw [hatt, hact]
    exact hforward
  · rw [hatt]
    simp [hfailed]
  · rw [hatt]
    exact fun h => absurd h hincomplete
  · rw [hmhost, hmstatus]
    exact hhost
  · rw [hmchain, hmstatus]
    exact fun h => Or.inl (hchain h)
  · rw [hreason]
    intro h
    obtain ⟨x, hx, hx'⟩ := Option.map_eq_some_iff.1 h
    exact absurd hx' (herror x hx)

end Fields

theorem Ending.fields {o : Flow L × Bool} (h : Ending p s env o) (conn : Connection)
    (e : Option PingoraError) (timestamp : Str) (durationMs : Nat) :
    FieldsConsistent p s env o.2
      (o.1.ctx.record L conn (e.map classifyProxyError) timestamp durationMs) := by
  have herror : ∀ x, e.map classifyProxyError = some x → x.1 ≠ .timestampOutOfWindow := by
    intro x hx
    obtain ⟨e', _, rfl⟩ := Option.map_eq_some_iff.1 hx
    exact (classifyProxyError_reason e').2.2.2
  cases h with
  | @refused f a verified reason message _ hu hwhy hat =>
    obtain ⟨hstatus, hfailed, hincomplete⟩ := reject_status a reason message
    dsimp only
    rw [hat.ctx]
    refine fields_of_refused ⟨rfl, rfl, rfl⟩ hstatus hfailed ?_ hu.hostname
      (fun h => Or.inl (hu.chain h)) ?_
    · intro h
      have hv : verified = true := hu.tokenVerified.symm.trans (hincomplete h)
      subst hv
      exact hwhy.phaseOne
    · intro h
      rw [← hwhy.outOfWindow h]
      show a.attestation.bodyBinding.isSome = true ↔ verified = true
      rw [hu.binding]
  | @machineRefused f a verified cert err hu hc _ _ _ hv hat =>
    have hstage : err.reason.stage = .machineIdentity := err.reason_stage
    obtain ⟨hstatus, hfailed, hincomplete⟩ := reject_status
      { a with machine := { a.machine with status := .failed, chainVerified := err.chainVerified } }
      err.reason err.display
    dsimp only
    rw [hat.ctx]
    refine fields_of_refused ⟨rfl, rfl, rfl⟩ hstatus hfailed ?_ ?_ ?_ ?_
    · intro h
      exact hv (hu.tokenVerified.symm.trans (hincomplete h))
    · show a.machine.hostname.isSome = true ↔ MachineStatus.failed = .verified
      rw [hc.hostname]
      simp
    · intro h
      exact Or.inr (err.chainVerified_iff.1 h)
    · intro h
      rw [h] at hstage
      cases hstage
  | @bypassed f a subject hu _ _ hat =>
    dsimp only
    rw [hat.ctx]
    refine fields_of_passed ⟨Or.inr rfl, rfl, hu.reason⟩ ?_ ?_ ?_ (fun h => nomatch h)
      hu.hostname hu.chain herror
    · exact ⟨fun h => (nomatch h), fun h => nomatch h⟩
    · exact fun h => nomatch h
    · exact fun h => nomatch h
  | @forwarded f a p1 hu _ _ hatt hat =>
    obtain ⟨i, hi, _⟩ := hatt.phaseOne
    have hnonce : a.attestation.nonce.isSome = true := by
      rw [hu.nonce, hi.nonce]
      rfl
    dsimp only
    rw [hat.ctx]
    refine fields_of_passed ⟨Or.inl rfl, rfl, hu.reason⟩ ⟨fun _ => rfl, fun _ => rfl⟩ ?_ ?_
      (fun _ => ⟨hnonce, hu.binding⟩) hu.hostname hu.chain herror
    · exact fun h => nomatch h
    · exact fun h => nomatch h

end Endings

/-- **The audit record is consistent.**  For every request, every path through
`request_filter` and every terminal error, the decision, attestation and machine parts of the
record agree with each other and with what the gate did, and the record is emitted, if at all,
at the level it states. -/
theorem requestFilter_record (p : Proxy L) (s : Session) (env : Env) (t : Transfer)
    (e : Option PingoraError) (timestamp : Str) (durationMs : Nat) :
    let o := requestFilter p s env
    let error := e.map classifyProxyError
    let r := o.1.ctx.record L (s.connection t) error timestamp durationMs
    DecisionConsistent o.1.ctx o.2 error r ∧ FieldsConsistent p s env o.2 r ∧
      ∀ enabled, ∀ emitted ∈ logging L enabled s t e o.1.ctx timestamp durationMs,
        emitted.2 = r ∧ emitted.1.asStr = r.level := by
  have hend := requestFilter_ending p s env
  generalize requestFilter p s env = o at hend ⊢
  dsimp only
  refine ⟨?_, hend.fields (s.connection t) e timestamp durationMs, ?_⟩
  · rcases hend.decision with ⟨hret, reason, message, hctx⟩ | ⟨hret, action, hctx⟩
    · rw [hret]
      exact decision_of_refused hctx
    · rw [hret]
      exact decision_of_passed hctx
  · intro enabled emitted hem
    unfold logging RequestAudit.finish at hem
    dsimp only at hem
    split at hem
    · cases hem
      exact ⟨rfl, RequestAudit.record_level_eq.symm⟩
    · cases hem

end DenBrowser
