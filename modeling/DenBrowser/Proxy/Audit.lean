import DenBrowser.Proxy.Machine

/-!
# Audit records

`audit`: the accumulator `RequestAudit` that `request_filter` writes to, the record built from
it at the end of the exchange, and the terminal error pingora reports.

* `RequestAudit.record_level_eq` — the level a record is emitted at is the level written in it;
* `record_refused` — a refusal keeps its reason and message over any terminal error;
* `record_passed` — what a forwarded or bypassed request's record says, with and without a
  terminal error.
-/

set_option autoImplicit false

namespace DenBrowser

/-- What the proxy decided to do with the request. -/
inductive Action where
  | forward | bypass | reject | rateLimit | error
  deriving DecidableEq, Repr

/-- Whether the exchange completed as decided. -/
inductive OutcomeField where
  | success | failure
  deriving DecidableEq, Repr

/-- How far attestation got. -/
inductive AttestationStatus where
  | verified | failed | bypassed | incomplete | notEvaluated
  deriving DecidableEq, Repr

/-- How far machine identity got. -/
inductive MachineStatus where
  | verified | failed | absent | notEvaluated | disabled
  deriving DecidableEq, Repr

/-- Whether the token commits to the request body. -/
inductive Binding where
  | bound | unbound
  deriving DecidableEq, Repr

/-- `From<&BodyBinding> for Binding`. -/
def Binding.of : BodyBinding → Binding
  | .hash _ => .bound
  | .unbound => .unbound

/-- The two `tracing` levels of audit records. -/
inductive Level where
  | info | warn
  deriving DecidableEq, Repr

/-- `Level::as_str`. -/
def Level.asStr : Level → Str
  | .info => "INFO".toList
  | .warn => "WARN".toList

structure MachineFields where
  status : MachineStatus
  subjectDn : Option Str
  hostname : Option Str
  chainVerified : Bool
  deriving DecidableEq

structure AttestationFields where
  status : AttestationStatus
  nonce : Option Str
  clientTimestamp : Option Str
  bodyBinding : Option Binding
  deriving DecidableEq

/-- `event` of a record. -/
structure AuditEvent where
  kind : Str
  action : Action
  outcome : OutcomeField
  stage : Option Stage
  reason : Option Reason
  risk : Risk
  durationMs : Nat
  deriving DecidableEq

structure Endpoint where
  ip : Option IpAddr
  port : Option UInt16
  deriving DecidableEq

structure ClientFields where
  address : Option Str
  ip : Option IpAddr
  port : Option UInt16
  deriving DecidableEq

/-- One audit line.  A field that wraps a single value in the JSON layout is that value. -/
structure AuditRecord where
  timestamp : Str
  schemaVersion : Str
  level : Str
  logger : Str
  event : AuditEvent
  message : Str
  proxy : Endpoint
  client : ClientFields
  serverAddress : Option Str
  tlsClientSubject : Option Str
  machine : MachineFields
  attestation : AttestationFields
  httpMethod : Option Str
  httpStatusCode : Option Nat
  requestBodyBytes : Nat
  responseBodyBytes : Nat
  deriving DecidableEq

def SCHEMA_VERSION : Str := "1.0".toList

def TARGET : Str := "denbrowser_proxy::audit".toList

def MAX_DN_CHARS : Nat := 1024

def MAX_HOST_CHARS : Nat := 256

def MAX_METHOD_CHARS : Nat := 32

def MAX_NONCE_CHARS : Nat := 64

/-- `s`, cut to at most `maxChars` characters with a trailing `…` when cut. -/
def bounded (s : Str) (maxChars : Nat) : Str :=
  if s.length ≤ maxChars then s else s.take maxChars ++ ['…']

/-! ## Client timestamps -/

/-- A number in at least `k` decimal digits. -/
def padded (k n : Nat) : Str :=
  let ds := Nat.toDigits 10 n
  List.replicate (k - ds.length) '0' ++ ds

/-- The proleptic Gregorian date of a day since the Unix epoch. -/
def civil (days : Nat) : Nat × Nat × Nat :=
  let z := days + 719468
  let doe := z % 146097
  let yoe := (doe - doe / 1460 + doe / 36524 - doe / 146096) / 365
  let doy := doe - (365 * yoe + yoe / 4 - yoe / 100)
  let mp := (5 * doy + 2) / 153
  let month := if mp < 10 then mp + 3 else mp - 9
  let year := yoe + z / 146097 * 400 + (if month ≤ 2 then 1 else 0)
  (year, month, doy - (153 * mp + 2) / 5 + 1)

/-- `format_utc` of a whole Unix second. -/
def formatUtc (secs : Nat) : Str :=
  let date := civil (secs / 86400)
  let time := secs % 86400
  padded 4 date.1 ++ "-".toList ++ padded 2 date.2.1 ++ "-".toList ++ padded 2 date.2.2 ++
    "T".toList ++ padded 2 (time / 3600) ++ ":".toList ++ padded 2 (time / 60 % 60) ++
    ":".toList ++ padded 2 (time % 60) ++ ".000Z".toList

def MAX_ISO_UNIX_SECS : Int := 253402300799

/-- A client-supplied Unix time as ISO 8601. -/
def unixTimestamp (secs : Int) : Option Str :=
  if 0 ≤ secs ∧ secs ≤ MAX_ISO_UNIX_SECS then some (formatUtc secs.toNat) else none

example : unixTimestamp 253402300799 = some "9999-12-31T23:59:59.000Z".toList := by decide

/-! ## The accumulator -/

/-- `audit::RequestAudit`: the audit state of one request. -/
structure RequestAudit where
  action : Option Action
  reason : Option Reason
  message : Option Str
  method : Option Str
  host : Option Str
  attestation : AttestationFields
  tokenVerified : Bool
  machine : MachineFields
  presentedMachineCert : Option Str
  deriving DecidableEq

namespace RequestAudit

def new (machineIdentityEnabled : Bool) : RequestAudit where
  action := none
  reason := none
  message := none
  method := none
  host := none
  attestation := ⟨.notEvaluated, none, none, none⟩
  tokenVerified := false
  machine := ⟨if machineIdentityEnabled then .notEvaluated else .disabled, none, none, false⟩
  presentedMachineCert := none

/-- The method and host; never the path. -/
def request (a : RequestAudit) (method : Str) (host : Option Str) : RequestAudit :=
  { a with
    method := some (bounded method MAX_METHOD_CHARS)
    host := host.map fun h => bounded h MAX_HOST_CHARS }

/-- The attestation timestamp and nonce as sent. -/
def attestationHeaders (a : RequestAudit) (ts nonce : Option Str) : RequestAudit :=
  { a with attestation := { a.attestation with
      nonce := nonce.map fun n => bounded n MAX_NONCE_CHARS
      clientTimestamp := (ts.bind fun t => parseI64 (trim t)).bind unixTimestamp } }

def machineCertPresented (a : RequestAudit) (certB64 : Str) : RequestAudit :=
  { a with presentedMachineCert := some certB64 }

/-- No machine certificate, and `required = false` lets the request on. -/
def machineAbsent (a : RequestAudit) : RequestAudit :=
  { a with machine := { a.machine with status := .absent } }

def machineVerified (a : RequestAudit) (id : VerifiedMachine) : RequestAudit :=
  { a with
    machine := ⟨.verified, some (bounded id.subjectDn MAX_DN_CHARS), some id.hostname, true⟩
    presentedMachineCert := none }

/-- The request is refused. -/
def reject (a : RequestAudit) (reason : Reason) (message : Str) : RequestAudit :=
  { a with
    action := some (if reason = .rateLimited then .rateLimit else .reject)
    reason := some reason
    message := some message
    attestation := { a.attestation with
      status :=
        if reason.stage.isAttestation then .failed
        else if a.tokenVerified then .incomplete
        else .notEvaluated } }

def machineRejected (a : RequestAudit) (e : MachineError) : RequestAudit :=
  reject
    { a with machine := { a.machine with status := .failed, chainVerified := e.chainVerified } }
    e.reason e.display

/-- Phase one of attestation passed; the body binding is now known. -/
def tokenVerifiedWith (a : RequestAudit) (binding : Binding) : RequestAudit :=
  { a with
    tokenVerified := true
    attestation := { a.attestation with bodyBinding := some binding } }

/-- Fully attested; the request goes upstream. -/
def forward (a : RequestAudit) : RequestAudit :=
  { a with
    action := some .forward
    attestation := { a.attestation with status := .verified }
    message := some (match a.attestation.bodyBinding with
      | some .unbound =>
        "attested upload forwarded; body streamed unbound (not hash-verified)".toList
      | _ => "attested request forwarded".toList) }

/-- Forwarded without attestation. -/
def bypass (a : RequestAudit) (subject : Str) : RequestAudit :=
  { a with
    action := some .bypass
    attestation := { a.attestation with status := .bypassed }
    message := some ("attestation bypassed for allowlisted client certificate subject ".toList ++
      bounded subject MAX_DN_CHARS) }

/-- `outcome`. -/
def outcome (a : RequestAudit) (failed : Bool) : OutcomeField :=
  match a.action with
  | some .forward | some .bypass => if failed then .failure else .success
  | _ => .failure

/-- `level`. -/
def level (a : RequestAudit) (failed : Bool) : Level :=
  match a.outcome failed with
  | .success => .info
  | .failure => .warn

end RequestAudit

namespace RequestAudit

/-- No decision has been recorded yet; `nonce` was sent, and `verified` says whether the token
has passed phase 1. -/
structure Undecided (nonce : Option Str) (verified : Bool) (a : RequestAudit) : Prop where
  action : a.action = none
  reason : a.reason = none
  nonce : a.attestation.nonce = nonce.map fun n => bounded n MAX_NONCE_CHARS
  tokenVerified : a.tokenVerified = verified
  binding : a.attestation.bodyBinding.isSome = verified
  hostname : a.machine.hostname.isSome = true ↔ a.machine.status = .verified
  chain : a.machine.chainVerified = true → a.machine.status = .verified

/-- The machine has not been checked yet; `cert` was presented. -/
structure Unchecked (cert : Option Str) (a : RequestAudit) : Prop where
  hostname : a.machine.hostname = none
  presented : a.presentedMachineCert = cert

section Operations

variable {a : RequestAudit} {nonce cert : Option Str} {verified : Bool}

theorem Unchecked.chainVerified (hc : a.Unchecked cert) (h : a.Undecided nonce verified) :
    a.machine.status ≠ .verified ∧ a.machine.chainVerified = false := by
  have hstatus : a.machine.status ≠ .verified := by
    intro hs
    have := h.hostname.2 hs
    rw [hc.hostname] at this
    cases this
  refine ⟨hstatus, ?_⟩
  cases hch : a.machine.chainVerified with
  | false => rfl
  | true => exact absurd (h.chain hch) hstatus

theorem new_undecided (enabled : Bool) :
    (RequestAudit.new enabled).Undecided none false ∧
      (RequestAudit.new enabled).Unchecked none := by
  cases enabled
  all_goals
    exact ⟨⟨rfl, rfl, rfl, rfl, rfl, by simp [RequestAudit.new], fun h => nomatch h⟩,
      ⟨rfl, rfl⟩⟩

theorem Undecided.attestationHeaders (h : a.Undecided none false) (ts : Option Str) :
    (a.attestationHeaders ts nonce).Undecided nonce false :=
  ⟨h.action, h.reason, rfl, h.tokenVerified, h.binding, h.hostname, h.chain⟩

theorem Undecided.machineCertPresented (h : a.Undecided nonce verified) (certB64 : Str) :
    (a.machineCertPresented certB64).Undecided nonce verified :=
  ⟨h.action, h.reason, h.nonce, h.tokenVerified, h.binding, h.hostname, h.chain⟩

theorem Undecided.machineAbsent (h : a.Undecided nonce verified) (hc : a.Unchecked cert) :
    a.machineAbsent.Undecided nonce verified ∧ a.machineAbsent.Unchecked cert := by
  refine ⟨⟨h.action, h.reason, h.nonce, h.tokenVerified, h.binding, ?_, ?_⟩,
    ⟨hc.hostname, hc.presented⟩⟩
  · show a.machine.hostname.isSome = true ↔ MachineStatus.absent = .verified
    rw [hc.hostname]
    simp
  · intro hch
    have hfalse : a.machine.chainVerified = false := (hc.chainVerified h).2
    rw [show a.machineAbsent.machine.chainVerified = a.machine.chainVerified from rfl,
      hfalse] at hch
    cases hch

theorem Undecided.tokenVerifiedWith (h : a.Undecided nonce verified) (hc : a.Unchecked cert)
    (binding : Binding) :
    (a.tokenVerifiedWith binding).Undecided nonce true ∧
      (a.tokenVerifiedWith binding).Unchecked cert :=
  ⟨⟨h.action, h.reason, h.nonce, rfl, rfl, h.hostname, h.chain⟩, ⟨hc.hostname, hc.presented⟩⟩

theorem Undecided.machineVerified (h : a.Undecided nonce verified) (id : VerifiedMachine) :
    (a.machineVerified id).Undecided nonce verified :=
  ⟨h.action, h.reason, h.nonce, h.tokenVerified, h.binding, ⟨fun _ => rfl, fun _ => rfl⟩,
    fun _ => rfl⟩

end Operations

end RequestAudit

/-! ## The record -/

/-- Facts gathered at the end of the request. -/
structure Connection where
  proxy : Option SocketAddr
  client : Option SocketAddr
  tlsClientSubject : Option Str
  statusCode : Option Nat
  requestBodyBytes : Nat
  responseBodyBytes : Nat

def Endpoint.of (addr : Option SocketAddr) : Endpoint := ⟨addr.map (·.ip), addr.map (·.port)⟩

def ClientFields.of (addr : Option SocketAddr) : ClientFields :=
  ⟨addr.map fun a => a.ip.show, addr.map (·.ip), addr.map (·.port)⟩

namespace RequestAudit

/-- The error a record is built with: a request that ended without a decision is itself one. -/
def finalError (a : RequestAudit) (error : Option (Reason × Str)) : Option (Reason × Str) :=
  if a.action = none ∧ error = none then
    some (.internalError, "request ended before an access decision was recorded".toList)
  else error

/-- A terminal error is recorded unless the request was refused. -/
def takeError (a : RequestAudit) (error : Option (Reason × Str)) : RequestAudit :=
  match error with
  | none => a
  | some (reason, message) =>
    match a.action with
    | none => { a with action := some .error, reason := some reason, message := some message }
    | some .forward | some .bypass => { a with reason := some reason, message := some message }
    | some _ => a

/-- The subject DN of a machine certificate that was presented and not verified. -/
def takeSubjectDn (L : Crates) (a : RequestAudit) : RequestAudit :=
  if a.machine.subjectDn = none then
    match a.presentedMachineCert with
    | some cert =>
      { a with
        machine := { a.machine with
          subjectDn := (presentedSubjectDn L cert).map fun dn => bounded dn MAX_DN_CHARS }
        presentedMachineCert := none }
    | none => a
  else a

/-- `record`: build the record with the given timestamp and duration. -/
def record (L : Crates) (a : RequestAudit) (conn : Connection) (error : Option (Reason × Str))
    (timestamp : Str) (durationMs : Nat) : AuditRecord :=
  let error := a.finalError error
  let failed := error.isSome
  let level := a.level failed
  let outcome := a.outcome failed
  let a := (a.takeError error).takeSubjectDn L
  { timestamp := timestamp
    schemaVersion := SCHEMA_VERSION
    level := level.asStr
    logger := TARGET
    event :=
      { kind := "audit".toList
        action := a.action.getD .error
        outcome := outcome
        stage := a.reason.map Reason.stage
        reason := a.reason
        risk := (a.reason.map Reason.risk).getD .info
        durationMs := durationMs }
    message := a.message.getD []
    proxy := .of conn.proxy
    client := .of conn.client
    serverAddress := a.host
    tlsClientSubject := conn.tlsClientSubject.map fun dn => bounded dn MAX_DN_CHARS
    machine := a.machine
    attestation := a.attestation
    httpMethod := a.method
    httpStatusCode := conn.statusCode
    requestBodyBytes := conn.requestBodyBytes
    responseBodyBytes := conn.responseBodyBytes }

/-- `finish`: the record and the level it is emitted at, unless the filter discards it. -/
def finish (L : Crates) (enabled : Level → Bool) (a : RequestAudit) (conn : Connection)
    (error : Option (Reason × Str)) (timestamp : Str) (durationMs : Nat) :
    Option (Level × AuditRecord) :=
  let level := a.level error.isSome
  if enabled level then some (level, a.record L conn error timestamp durationMs) else none

end RequestAudit

/-! ## Terminal errors -/

/-- `pingora_core::ErrorSource`. -/
inductive ErrorSource where
  | upstream | downstream | internal | unset
  deriving DecidableEq

/-- What the audit reads of a `pingora_core::Error`: its source, whether its type is
`InvalidHTTPHeader`, and the type's text. -/
structure PingoraError where
  esource : ErrorSource
  invalidHttpHeader : Bool
  etype : Str

/-- Map pingora's terminal error for a request onto a reason and message. -/
def classifyProxyError (e : PingoraError) : Reason × Str :=
  let (reason, side) := match e.esource with
    | .upstream => (Reason.upstreamError, "upstream".toList)
    | .downstream =>
      if e.invalidHttpHeader then (Reason.requestMalformed, "malformed request".toList)
      else (Reason.downstreamError, "client connection".toList)
    | .internal | .unset => (Reason.internalError, "internal".toList)
  (reason, side ++ " error: ".toList ++ e.etype)

theorem classifyProxyError_cases (e : PingoraError) :
    (classifyProxyError e).1 = .upstreamError ∨ (classifyProxyError e).1 = .requestMalformed ∨
      (classifyProxyError e).1 = .downstreamError ∨
      (classifyProxyError e).1 = .internalError := by
  obtain ⟨src, bad, text⟩ := e
  cases src <;> cases bad <;> simp [classifyProxyError]

/-- A terminal error is recorded at a stage after the decision, and is never critical. -/
theorem classifyProxyError_reason (e : PingoraError) :
    (classifyProxyError e).1.stage.isAttestation = false ∧
      (classifyProxyError e).1.stage ≠ .machineIdentity ∧
      (classifyProxyError e).1.risk ≠ .critical ∧
      (classifyProxyError e).1 ≠ .timestampOutOfWindow := by
  rcases classifyProxyError_cases e with h | h | h | h <;> rw [h] <;> decide

/-! ## What a record says -/

section Record

variable {L : Crates} {a : RequestAudit} {conn : Connection} {error : Option (Reason × Str)}
  {timestamp : Str} {durationMs : Nat}

@[simp] theorem takeSubjectDn_action : (a.takeSubjectDn L).action = a.action := by
  unfold RequestAudit.takeSubjectDn; repeat' split
  all_goals rfl

@[simp] theorem takeSubjectDn_reason : (a.takeSubjectDn L).reason = a.reason := by
  unfold RequestAudit.takeSubjectDn; repeat' split
  all_goals rfl

@[simp] theorem takeSubjectDn_message : (a.takeSubjectDn L).message = a.message := by
  unfold RequestAudit.takeSubjectDn; repeat' split
  all_goals rfl

@[simp] theorem takeSubjectDn_attestation :
    (a.takeSubjectDn L).attestation = a.attestation := by
  unfold RequestAudit.takeSubjectDn; repeat' split
  all_goals rfl

/-- Recording the presented certificate's DN changes nothing else about the machine. -/
theorem takeSubjectDn_machine (L : Crates) (a : RequestAudit) :
    (a.takeSubjectDn L).machine.status = a.machine.status ∧
      (a.takeSubjectDn L).machine.hostname = a.machine.hostname ∧
      (a.takeSubjectDn L).machine.chainVerified = a.machine.chainVerified := by
  unfold RequestAudit.takeSubjectDn; repeat' split
  all_goals exact ⟨rfl, rfl, rfl⟩

/-- A terminal error changes the decision's reason and message only. -/
theorem takeError_fields (a : RequestAudit) (error : Option (Reason × Str)) :
    (a.takeError error).attestation = a.attestation ∧
      (a.takeError error).machine = a.machine ∧
      (a.takeError error).presentedMachineCert = a.presentedMachineCert := by
  unfold RequestAudit.takeError; repeat' split
  all_goals exact ⟨rfl, rfl, rfl⟩

/-- The level a record is emitted at, decided before the missing-decision fallback, is the
level written in it. -/
theorem RequestAudit.record_level_eq :
    (a.record L conn error timestamp durationMs).level = (a.level error.isSome).asStr := by
  show (a.level (a.finalError error).isSome).asStr = _
  unfold RequestAudit.finalError
  by_cases h : a.action = none ∧ error = none
  · rw [if_pos h]
    simp [RequestAudit.level, RequestAudit.outcome, h.1]
  · rw [if_neg h]

/-- A request that was refused. -/
def RequestAudit.Refused (a : RequestAudit) (reason : Reason) (message : Str) : Prop :=
  a.action = some (if reason = .rateLimited then .rateLimit else .reject) ∧
    a.reason = some reason ∧ a.message = some message

/-- A request that was forwarded, attested or not. -/
def RequestAudit.Passed (a : RequestAudit) (action : Action) : Prop :=
  (action = .forward ∨ action = .bypass) ∧ a.action = some action ∧ a.reason = none

theorem takeError_refused {reason : Reason} {message : Str} (h : a.Refused reason message) :
    a.takeError error = a := by
  unfold RequestAudit.takeError
  split
  · rfl
  · rw [h.1]
    by_cases hr : reason = .rateLimited <;> simp [hr]

/-- **A refusal keeps its reason and message over any terminal error.** -/
theorem record_refused (L : Crates) (conn : Connection) (error : Option (Reason × Str))
    (timestamp : Str) (durationMs : Nat) {reason : Reason} {message : Str}
    (h : a.Refused reason message) :
    let r := a.record L conn error timestamp durationMs
    r.event.action = (if reason = .rateLimited then .rateLimit else .reject) ∧
      r.event.outcome = .failure ∧ r.level = "WARN".toList ∧ r.event.reason = some reason ∧
      r.event.stage = some reason.stage ∧ r.event.risk = reason.risk ∧ r.message = message := by
  have hout : ∀ f, a.outcome f = .failure := by
    intro f
    unfold RequestAudit.outcome
    rw [h.1]
    by_cases hr : reason = .rateLimited <;> simp [hr]
  have hlev : ∀ f, (a.level f).asStr = "WARN".toList := by
    intro f
    unfold RequestAudit.level
    rw [hout]
    rfl
  refine ⟨?_, hout _, hlev _, ?_, ?_, ?_, ?_⟩
  all_goals
    simp only [RequestAudit.record, takeSubjectDn_action, takeSubjectDn_reason,
      takeSubjectDn_message, takeError_refused h, h.1, h.2.1, h.2.2, Option.getD_some,
      Option.map_some]

/-- **What a forwarded request's record says**, with and without a terminal error. -/
theorem record_passed (L : Crates) (conn : Connection) (error : Option (Reason × Str))
    (timestamp : Str) (durationMs : Nat) {action : Action} (h : a.Passed action) :
    let r := a.record L conn error timestamp durationMs
    r.event.action = action ∧ r.event.reason = error.map Prod.fst ∧
      r.event.stage = error.map (fun e => e.1.stage) ∧
      r.event.risk = (error.map fun e => e.1.risk).getD .info ∧
      (r.event.outcome = .success ↔ error = none) ∧ (r.level = "INFO".toList ↔ error = none) := by
  obtain ⟨hact, ha, hreason⟩ := h
  have hfin : a.finalError error = error := by
    unfold RequestAudit.finalError
    rw [if_neg (by simp [ha])]
  have hout : a.outcome error.isSome = if error.isSome then .failure else .success := by
    unfold RequestAudit.outcome
    rcases hact with rfl | rfl <;> rw [ha]
  have htake : (a.takeError error).action = some action ∧
      (a.takeError error).reason = error.map Prod.fst := by
    unfold RequestAudit.takeError
    cases error with
    | none => exact ⟨ha, hreason⟩
    | some e => rcases hact with rfl | rfl <;> simp [ha]
  refine ⟨?_, ?_, ?_, ?_, ?_, ?_⟩
  · simp only [RequestAudit.record, takeSubjectDn_action, hfin, htake.1, Option.getD_some]
  · simp only [RequestAudit.record, takeSubjectDn_reason, hfin, htake.2]
  · simp only [RequestAudit.record, takeSubjectDn_reason, hfin, htake.2, Option.map_map]
    rfl
  · simp only [RequestAudit.record, takeSubjectDn_reason, hfin, htake.2, Option.map_map]
    rfl
  · simp only [RequestAudit.record, hfin, hout]
    cases error <;> simp
  · simp only [RequestAudit.record, RequestAudit.level, hfin, hout]
    cases error <;> simp [Level.asStr]

/-- The attestation and machine fields are those of the accumulator. -/
theorem record_fields (L : Crates) (a : RequestAudit) (conn : Connection)
    (error : Option (Reason × Str)) (timestamp : Str) (durationMs : Nat) :
    (a.record L conn error timestamp durationMs).attestation = a.attestation ∧
      (a.record L conn error timestamp durationMs).machine.status = a.machine.status ∧
      (a.record L conn error timestamp durationMs).machine.hostname = a.machine.hostname ∧
      (a.record L conn error timestamp durationMs).machine.chainVerified =
        a.machine.chainVerified := by
  obtain ⟨h1, h2, _⟩ := takeError_fields a (a.finalError error)
  obtain ⟨h3, h4, h5⟩ := takeSubjectDn_machine L (a.takeError (a.finalError error))
  refine ⟨?_, ?_, ?_, ?_⟩
  · simp only [RequestAudit.record, takeSubjectDn_attestation, h1]
  · simp only [RequestAudit.record, h3, h2]
  · simp only [RequestAudit.record, h4, h2]
  · simp only [RequestAudit.record, h5, h2]

/-- So are the method and the host. -/
theorem record_request (L : Crates) (a : RequestAudit) (conn : Connection)
    (error : Option (Reason × Str)) (timestamp : Str) (durationMs : Nat) :
    (a.record L conn error timestamp durationMs).serverAddress = a.host ∧
      (a.record L conn error timestamp durationMs).httpMethod = a.method := by
  have herror : ∀ b : RequestAudit, ∀ e, (b.takeError e).host = b.host ∧
      (b.takeError e).method = b.method := by
    intro b e
    unfold RequestAudit.takeError; repeat' split
    all_goals exact ⟨rfl, rfl⟩
  have hsubject : ∀ b : RequestAudit, (b.takeSubjectDn L).host = b.host ∧
      (b.takeSubjectDn L).method = b.method := by
    intro b
    unfold RequestAudit.takeSubjectDn; repeat' split
    all_goals exact ⟨rfl, rfl⟩
  simp only [RequestAudit.record, hsubject, herror, and_self]

end Record

end DenBrowser
