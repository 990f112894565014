import DenBrowser.Lib.JsonSchema
import DenBrowser.Proxy.LogLines

/-!
# The schema of the log

`audit-log.schema.json` as a value, and the lines of a proxy against it.

* `annotated_reason` — the stage and the risk of a reason are the ones its code is annotated
  with;
* `auditRecord_valid`, `systemRecord_valid` — each kind of record is valid, and only as its own
  kind;
* `log_valid` — every line of a log is valid, whatever was requested.
-/

set_option autoImplicit false

namespace DenBrowser

open JsonSchema

namespace AuditSchema

def word (s : String) : JsonValue := .str s.toList

/-- An object with the given properties, all of them required, and no others. -/
def closed (props : List (Str × JsonSchema)) : List JsonSchema :=
  [.type [.object], .required (props.map Prod.fst), .properties props false]

def nullable (s : JsonSchema) : JsonSchema := .anyOf [s, .type [.null]]

/-- The object has a property, with a value that satisfies a schema. -/
def has (key : Str) (s : JsonSchema) : JsonSchema :=
  .allOf [.required [key], .properties [(key, s)] true]

/-! ## `$defs` -/

def schemaVersion : JsonSchema := .const (word "1.0")

def timestamp : JsonSchema := .allOf [.type [.string], .pattern TIMESTAMP_PATTERN]

def level : JsonSchema := .enum (["TRACE", "DEBUG", "INFO", "WARN", "ERROR"].map word)

def action : JsonSchema :=
  .enum (["forward", "bypass", "reject", "rate_limit", "error"].map word)

def outcome : JsonSchema := .enum (["success", "failure"].map word)

def risk : JsonSchema := .enum (["info", "low", "medium", "high", "critical"].map word)

def stage : JsonSchema :=
  .enum (["rate_limit", "attestation_headers", "machine_identity", "attestation_token",
    "attestation_body", "upstream", "downstream", "internal"].map word)

/-- The codes of `reason`, with their `x-stage` and `x-risk`. -/
def reasons : List (String × String × String) := [
  ("rate_limited", "rate_limit", "medium"),
  ("no_attestation_headers", "attestation_headers", "low"),
  ("incomplete_attestation_headers", "attestation_headers", "high"),
  ("machine_cert_missing", "machine_identity", "medium"),
  ("machine_cert_malformed", "machine_identity", "high"),
  ("machine_cert_no_common_name", "machine_identity", "high"),
  ("machine_cert_unsafe_common_name", "machine_identity", "high"),
  ("machine_hostname_not_allowed", "machine_identity", "high"),
  ("machine_cert_expired", "machine_identity", "medium"),
  ("machine_cert_not_yet_valid", "machine_identity", "medium"),
  ("machine_cert_untrusted", "machine_identity", "high"),
  ("machine_hostname_unresolvable", "machine_identity", "medium"),
  ("machine_address_mismatch", "machine_identity", "high"),
  ("machine_no_client_address", "machine_identity", "medium"),
  ("timestamp_invalid", "attestation_token", "high"),
  ("timestamp_out_of_window", "attestation_token", "medium"),
  ("nonce_invalid", "attestation_token", "high"),
  ("nonce_replay", "attestation_token", "high"),
  ("token_malformed", "attestation_token", "high"),
  ("token_decrypt_failed", "attestation_token", "high"),
  ("token_request_mismatch", "attestation_token", "critical"),
  ("body_too_large", "attestation_body", "medium"),
  ("body_hash_mismatch", "attestation_body", "critical"),
  ("body_read_failed", "downstream", "low"),
  ("request_malformed", "downstream", "high"),
  ("upstream_error", "upstream", "medium"),
  ("downstream_error", "downstream", "low"),
  ("internal_error", "internal", "medium")]

def reason : JsonSchema := .oneOf ((reasons.map fun row => word row.1).map .const)

def auditEvent : JsonSchema := .allOf (closed [
  ("kind".toList, .const (word "audit")),
  ("action".toList, action),
  ("outcome".toList, outcome),
  ("stage".toList, nullable stage),
  ("reason".toList, nullable reason),
  ("risk".toList, risk),
  ("duration_ms".toList, .allOf [.type [.integer], .minimum 0])])

def ip : JsonSchema := .anyOf [.type [.string], .type [.string], .type [.null]]

def port : JsonSchema := .allOf [.type [.integer, .null], .minimum 0, .maximum 65535]

def endpoint : JsonSchema := .allOf (closed [("ip".toList, ip), ("port".toList, port)])

def client : JsonSchema :=
  .allOf (closed [("address".toList, ip), ("ip".toList, ip), ("port".toList, port)])

def dn : JsonSchema := .type [.string]

def tls : JsonSchema :=
  .allOf (closed [("client".toList, .allOf (closed [("subject".toList, nullable dn)]))])

def machineStatus : JsonSchema :=
  .enum (["verified", "failed", "absent", "not_evaluated", "disabled"].map word)

/-- Whether `status` is `verified`. -/
def isVerified : JsonSchema := has "status".toList (.const (word "verified"))

def machine : JsonSchema := .allOf (closed [
    ("status".toList, machineStatus),
    ("subject_dn".toList, nullable dn),
    ("hostname".toList, .type [.string, .null]),
    ("chain_verified".toList, .type [.boolean])] ++
  [.ifThenElse isVerified
    (.properties [
      ("subject_dn".toList, .type [.string]),
      ("hostname".toList, .type [.string]),
      ("chain_verified".toList, .const (.bool true))] true)
    (.properties [("hostname".toList, .type [.null])] true)])

def attestationStatus : JsonSchema :=
  .enum (["verified", "failed", "bypassed", "incomplete", "not_evaluated"].map word)

def bodyBinding : JsonSchema := .enum (["bound", "unbound"].map word)

def attestation : JsonSchema := .allOf (closed [
    ("status".toList, attestationStatus),
    ("nonce".toList, .type [.string, .null]),
    ("client_timestamp".toList, nullable timestamp),
    ("body_binding".toList, nullable bodyBinding)] ++
  [.ifThenElse isVerified
    (.properties [
      ("nonce".toList, .type [.string]),
      ("body_binding".toList, .type [.string])] true)
    (.allOf [])])

def server : JsonSchema := .allOf (closed [("address".toList, .type [.string, .null])])

def http : JsonSchema := .allOf (closed [
  ("request".toList, .allOf (closed [("method".toList, .type [.string, .null])])),
  ("response".toList, .allOf (closed [
    ("status_code".toList, .allOf [.type [.integer, .null], .minimum 100, .maximum 999])]))])

def transfer : JsonSchema := .allOf (closed [
  ("request_body_bytes".toList, .allOf [.type [.integer], .minimum 0]),
  ("response_body_bytes".toList, .allOf [.type [.integer], .minimum 0])])

def onSuccess : JsonSchema := .properties [
  ("level".toList, .const (word "INFO")),
  ("event".toList, .properties [
    ("action".toList, .enum (["forward", "bypass"].map word)),
    ("stage".toList, .type [.null]),
    ("reason".toList, .type [.null]),
    ("risk".toList, .const (word "info"))] true)] true

def onFailure : JsonSchema := .properties [
  ("level".toList, .const (word "WARN")),
  ("event".toList, .properties [
    ("stage".toList, .type [.string]),
    ("reason".toList, .type [.string]),
    ("risk".toList, .not (.const (word "info")))] true)] true

/-- A success has no reason and risk `info`; every failure has a reason, a stage, and a risk
above `info`. -/
def successRule : JsonSchema :=
  .ifThenElse (has "event".toList (has "outcome".toList (.const (word "success"))))
    onSuccess onFailure

def auditRecordProps : List (Str × JsonSchema) := [
  ("timestamp".toList, timestamp),
  ("schema_version".toList, schemaVersion),
  ("level".toList, .enum (["INFO", "WARN"].map word)),
  ("logger".toList, .const (word "denbrowser_proxy::audit")),
  ("event".toList, auditEvent),
  ("message".toList, .type [.string]),
  ("proxy".toList, endpoint),
  ("client".toList, client),
  ("server".toList, server),
  ("tls".toList, tls),
  ("machine".toList, machine),
  ("attestation".toList, attestation),
  ("http".toList, http),
  ("transfer".toList, transfer)]

def auditRecord : JsonSchema := .allOf (closed auditRecordProps ++ [successRule])

/-- The required properties of a system record. -/
def systemRecordProps : List (Str × JsonSchema) := [
  ("timestamp".toList, timestamp),
  ("schema_version".toList, schemaVersion),
  ("level".toList, level),
  ("logger".toList, .type [.string]),
  ("event".toList, .allOf (closed [("kind".toList, .const (word "system"))])),
  ("message".toList, .type [.string])]

/-- Structured fields the event carried besides its message. -/
def fieldsProps : List (Str × JsonSchema) := [("fields".toList, .type [.object])]

def systemRecord : JsonSchema := .allOf [
  .type [.object], .required (systemRecordProps.map Prod.fst),
  .properties (systemRecordProps ++ fieldsProps) false]

end AuditSchema

/-- The schema of a line of the log. -/
def auditLogSchema : JsonSchema := .oneOf [AuditSchema.auditRecord, AuditSchema.systemRecord]

/-! ## What the accumulator keeps -/

namespace RequestAudit

/-- A verified machine has a subject and a chain, and a client timestamp is one that was
written. -/
structure Sound (a : RequestAudit) : Prop where
  machine : a.machine.status = .verified →
    a.machine.subjectDn.isSome = true ∧ a.machine.chainVerified = true
  clientTimestamp : ∀ t, a.attestation.clientTimestamp = some t → ∃ ts, unixTimestamp ts = some t

namespace Sound

variable {a : RequestAudit}

theorem reject (h : a.Sound) (reason : Reason) (message : Str) : (a.reject reason message).Sound :=
  ⟨h.machine, h.clientTimestamp⟩

theorem machineCertPresented (h : a.Sound) (certB64 : Str) :
    (a.machineCertPresented certB64).Sound :=
  ⟨h.machine, h.clientTimestamp⟩

theorem machineRejected (h : a.Sound) (e : MachineError) : (a.machineRejected e).Sound :=
  ⟨fun hv => (nomatch hv), h.clientTimestamp⟩

theorem machineAbsent (h : a.Sound) : a.machineAbsent.Sound :=
  ⟨fun hv => (nomatch hv), h.clientTimestamp⟩

theorem machineVerified (h : a.Sound) (id : VerifiedMachine) : (a.machineVerified id).Sound :=
  ⟨fun _ => ⟨rfl, rfl⟩, h.clientTimestamp⟩

theorem tokenVerifiedWith (h : a.Sound) (binding : Binding) : (a.tokenVerifiedWith binding).Sound :=
  ⟨h.machine, h.clientTimestamp⟩

theorem forward (h : a.Sound) : a.forward.Sound := ⟨h.machine, h.clientTimestamp⟩

theorem bypass (h : a.Sound) (subject : Str) : (a.bypass subject).Sound :=
  ⟨h.machine, h.clientTimestamp⟩

theorem takeError (h : a.Sound) (error : Option (Reason × Str)) : (a.takeError error).Sound := by
  obtain ⟨hattestation, hmachine, _⟩ := takeError_fields a error
  constructor
  · rw [hmachine]
    exact h.machine
  · rw [hattestation]
    exact h.clientTimestamp

theorem takeSubjectDn (h : a.Sound) (L : Crates) : (a.takeSubjectDn L).Sound := by
  constructor
  · intro hv
    rw [(takeSubjectDn_machine L a).1] at hv
    obtain ⟨hdn, hchain⟩ := h.machine hv
    -- a verified machine has a subject, so none is taken from the certificate
    have hne : a.machine.subjectDn ≠ none := by
      intro hnone
      rw [hnone] at hdn
      cases hdn
    rw [RequestAudit.takeSubjectDn, if_neg hne]
    exact ⟨hdn, hchain⟩
  · rw [takeSubjectDn_attestation]
    exact h.clientTimestamp

end Sound

end RequestAudit

section Gate

variable {L : Crates} (p : Proxy L) (s : Session) (env : Env) {f : Flow L} {p1 : PhaseOne}

theorem openAudit_sound : (openAudit p s).Sound := by
  have hnew : ∀ ts nonce, (((RequestAudit.new p.machine.isSome).request s.req.method
      (requestHost s.req)).attestationHeaders ts nonce).Sound := by
    intro ts nonce
    refine ⟨fun hv => ?_, fun t ht => ?_⟩
    · have hstatus : (if p.machine.isSome then MachineStatus.notEvaluated else .disabled) =
          .verified := hv
      split_ifs at hstatus
    · obtain ⟨n, _, hn⟩ := Option.bind_eq_some_iff.1 ht
      exact ⟨n, hn⟩
  unfold openAudit
  dsimp only
  split
  · exact (hnew _ _).machineCertPresented _
  · exact hnew _ _

theorem settle_sound (h : f.ctx.Sound) (r : NonceCache × Except AttestError Unit) :
    (f.settle r).1.ctx.Sound := by
  unfold Flow.settle
  split
  · exact h.reject _ _
  · exact h.forward

theorem bodyStep_sound (h : f.ctx.Sound) : (bodyStep s env f p1).1.ctx.Sound := by
  unfold bodyStep
  split
  · exact settle_sound h _
  · split
    · exact h.reject _ _
    · exact h.reject _ _
    · exact settle_sound h _

theorem machineStep_sound (h : f.ctx.Sound) : (machineStep p s env f p1).1.ctx.Sound := by
  unfold machineStep
  split
  · exact bodyStep_sound s env h
  · split_ifs
    · exact bodyStep_sound s env h
    · split
      · exact h.machineRejected _
      · dsimp only
        split
        · exact h.machineRejected _
        · exact bodyStep_sound s env (h.machineVerified _)

theorem tokenStep_sound (h : f.ctx.Sound) (ts nonce token host : Str) :
    (tokenStep p s env f ts nonce token host).1.ctx.Sound := by
  unfold tokenStep
  split
  · exact h.reject _ _
  · exact machineStep_sound p s env (h.tokenVerifiedWith _)

theorem preflightStep_sound (h : f.ctx.Sound) (ts nonce token host : Str) :
    (preflightStep p s env f ts nonce token host).1.ctx.Sound := by
  unfold preflightStep
  split
  · exact tokenStep_sound p s env h _ _ _ _
  · split_ifs
    · exact tokenStep_sound p s env h _ _ _ _
    · exact h.machineRejected _
    · exact tokenStep_sound p s env h.machineAbsent _ _ _ _

/-- **The gate leaves a sound accumulator**, however it ends. -/
theorem requestFilter_sound : (requestFilter p s env).1.ctx.Sound := by
  have hopen := openAudit_sound p s
  unfold requestFilter
  dsimp only
  split_ifs
  · exact hopen.reject _ _
  · split
    · exact hopen.bypass _
    · unfold headersStep
      dsimp only
      split
      · exact preflightStep_sound p s env hopen _ _ _ _
      · split_ifs
        · exact hopen.reject _ _
        · exact hopen.reject _ _

end Gate

/-! ## Valid parts -/

namespace AuditSchema

section Parts

variable {props : List (Str × JsonSchema)} {members : List (Str × JsonValue)}

theorem valid_of_closed {ss : List JsonSchema}
    (hkeys : members.map Prod.fst = props.map Prod.fst) (hd : (props.map Prod.fst).Nodup)
    (h : List.Forall₂ (fun p m => valid p.2 m.2 = true) props members)
    (hss : ∀ s ∈ ss, valid s (.obj members) = true) :
    valid (.allOf (closed props ++ ss)) (.obj members) = true := by
  obtain ⟨htype, hrequired, hprops⟩ := valid_record hkeys hd h
  rw [valid_allOf]
  intro s hs
  rcases List.mem_append.1 hs with hs | hs
  · simp only [closed, List.mem_cons, List.not_mem_nil, or_false] at hs
    rcases hs with rfl | rfl | rfl
    · exact htype
    · exact hrequired
    · exact hprops
  · exact hss s hs

theorem valid_closed (hkeys : members.map Prod.fst = props.map Prod.fst)
    (hd : (props.map Prod.fst).Nodup)
    (h : List.Forall₂ (fun p m => valid p.2 m.2 = true) props members) :
    valid (.allOf (closed props)) (.obj members) = true := by
  have hall : valid (.allOf (closed props ++ [])) (.obj members) = true :=
    valid_of_closed hkeys hd h fun s hs => absurd hs List.not_mem_nil
  rwa [List.append_nil] at hall

/-- Properties of an open schema are about the members of their keys. -/
theorem valid_open (h : ∀ p ∈ props, ∀ w, (p.1, w) ∈ members → valid p.2 w = true) :
    valid (.properties props true) (.obj members) = true :=
  valid_properties.2 ⟨fun p hp w hw => h p hp w (mem_of_get? hw), fun hf => Bool.noConfusion hf⟩

theorem valid_has {key : Str} {s : JsonSchema} {w : JsonValue}
    (h : (JsonValue.obj members).get? key = some w) :
    valid (has key s) (.obj members) = true ↔ valid s w = true := by
  rw [has, valid_allOf]
  constructor
  · intro hall
    have hprops := hall _ (List.mem_cons_of_mem _ List.mem_cons_self)
    exact (valid_properties.1 hprops).1 _ List.mem_cons_self w h
  · intro hw t ht
    simp only [List.mem_cons, List.not_mem_nil, or_false] at ht
    rcases ht with rfl | rfl
    · rw [valid_required]
      intro k hk
      obtain rfl := List.mem_singleton.1 hk
      exact List.mem_map_of_mem (f := Prod.fst) (mem_of_get? h)
    · refine valid_properties.2 ⟨fun q hq v hv => ?_, fun hf => Bool.noConfusion hf⟩
      obtain rfl := List.mem_singleton.1 hq
      rw [h] at hv
      cases hv
      exact hw

end Parts

theorem valid_nullable {s : JsonSchema} {o : Option Str}
    (h : ∀ x, o = some x → valid s (.str x) = true) : valid (nullable s) (jsonStr? o) = true := by
  rw [nullable, valid_anyOf]
  cases o with
  | none => exact ⟨.type [.null], by simp, valid_type.2 ⟨.null, by simp, rfl⟩⟩
  | some x => exact ⟨_, List.mem_cons_self, h x rfl⟩

theorem valid_str? (o : Option Str) : valid (.type [.string, .null]) (jsonStr? o) = true := by
  rw [valid_type]
  cases o with
  | none => exact ⟨.null, by simp, rfl⟩
  | some x => exact ⟨.string, by simp, rfl⟩

theorem valid_ip (o : Option Str) : valid ip (jsonStr? o) = true := by
  rw [ip, valid_anyOf]
  cases o with
  | none => exact ⟨.type [.null], by simp, valid_type.2 ⟨.null, by simp, rfl⟩⟩
  | some x => exact ⟨.type [.string], by simp, valid_type.2 ⟨.string, by simp, rfl⟩⟩

theorem valid_nat? {lo hi : Nat} {o : Option Nat} (h : ∀ n, o = some n → lo ≤ n ∧ n ≤ hi) :
    valid (.allOf [.type [.integer, .null], .minimum lo, .maximum hi]) (jsonNat? o) = true := by
  rw [valid_allOf]
  intro s hs
  simp only [List.mem_cons, List.not_mem_nil, or_false] at hs
  rcases hs with rfl | rfl | rfl
  · rw [valid_type]
    cases o with
    | none => exact ⟨.null, by simp, rfl⟩
    | some n => exact ⟨.integer, by simp, rfl⟩
  · rw [valid_minimum]
    intro i hi
    cases o with
    | none => cases hi
    | some n =>
      cases hi
      exact Int.ofNat_le.2 (h n rfl).1
  · rw [valid_maximum]
    intro i hi
    cases o with
    | none => cases hi
    | some n =>
      cases hi
      exact Int.ofNat_le.2 (h n rfl).2

theorem valid_count (n : Nat) : valid (.allOf [.type [.integer], .minimum 0]) (.int n) = true := by
  rw [valid_allOf]
  intro s hs
  simp only [List.mem_cons, List.not_mem_nil, or_false] at hs
  rcases hs with rfl | rfl
  · exact valid_type.2 ⟨.integer, by simp, rfl⟩
  · rw [valid_minimum]
    intro i hi
    cases hi
    exact Int.natCast_nonneg n

theorem valid_action (a : Action) : valid action (.str a.snake) = true := by
  rw [action, valid_enum]
  cases a <;> decide

theorem valid_outcome (o : OutcomeField) : valid outcome (.str o.snake) = true := by
  rw [outcome, valid_enum]
  cases o <;> decide

theorem valid_stage (s : Stage) : valid stage (.str s.snake) = true := by
  rw [stage, valid_enum]
  cases s <;> decide

theorem valid_risk (r : Risk) : valid risk (.str r.snake) = true := by
  rw [risk, valid_enum]
  cases r <;> decide

theorem valid_machineStatus (s : MachineStatus) : valid machineStatus (.str s.snake) = true := by
  rw [machineStatus, valid_enum]
  cases s <;> decide

theorem valid_attestationStatus (s : AttestationStatus) :
    valid attestationStatus (.str s.snake) = true := by
  rw [attestationStatus, valid_enum]
  cases s <;> decide

theorem valid_binding (b : Binding) : valid bodyBinding (.str b.snake) = true := by
  rw [bodyBinding, valid_enum]
  cases b <;> decide

theorem valid_level (l : TraceLevel) : valid level (.str l.asStr) = true := by
  rw [level, valid_enum]
  cases l <;> decide

theorem valid_timestamp {a : Str} {m : Nat} (h : Written8601 a m) :
    valid timestamp (.str a) = true := by
  obtain ⟨hm, ha⟩ := h.eq
  rw [ha, timestamp, valid_allOf]
  intro s hs
  simp only [List.mem_cons, List.not_mem_nil, or_false] at hs
  rcases hs with rfl | rfl
  · exact valid_type.2 ⟨.string, by simp, rfl⟩
  · exact valid_pattern.2 (matchAll_formatUtcAt hm)

/-! ## Reasons -/

/-- The reasons, in the order of the `reasons!` table. -/
def allReasons : List Reason := [
  .rateLimited, .noAttestationHeaders, .incompleteAttestationHeaders, .machineCertMissing,
  .machineCertMalformed, .machineCertNoCommonName, .machineCertUnsafeCommonName,
  .machineHostnameNotAllowed, .machineCertExpired, .machineCertNotYetValid,
  .machineCertUntrusted, .machineHostnameUnresolvable, .machineAddressMismatch,
  .machineNoClientAddress, .timestampInvalid, .timestampOutOfWindow, .nonceInvalid,
  .nonceReplay, .tokenMalformed, .tokenDecryptFailed, .tokenRequestMismatch, .bodyTooLarge,
  .bodyHashMismatch, .bodyReadFailed, .requestMalformed, .upstreamError, .downstreamError,
  .internalError]

theorem mem_allReasons (r : Reason) : r ∈ allReasons := by cases r <;> decide

/-- The schema has the rows of the table, in its order. -/
theorem reasons_rows :
    reasons.map (fun row => (row.1.toList, row.2.1.toList, row.2.2.toList)) =
      allReasons.map fun r => (r.code, r.stage.snake, r.risk.snake) := rfl

/-- The stage and the risk of a reason are the ones its code is annotated with. -/
theorem annotated_reason (r : Reason) :
    ∃ row ∈ reasons, row.1.toList = r.code ∧ row.2.1.toList = r.stage.snake ∧
      row.2.2.toList = r.risk.snake := by
  have hrow : (r.code, r.stage.snake, r.risk.snake) ∈
      reasons.map fun row => (row.1.toList, row.2.1.toList, row.2.2.toList) := by
    rw [reasons_rows]
    exact List.mem_map_of_mem (mem_allReasons r)
  obtain ⟨row, hmem, heq⟩ := List.mem_map.1 hrow
  simp only [Prod.mk.injEq] at heq
  exact ⟨row, hmem, heq⟩

theorem valid_reason (r : Reason) : valid reason (.str r.code) = true := by
  have hinj : Function.Injective fun r : Reason => JsonValue.str r.code := fun r s h =>
    Reason.code_injective (JsonValue.str.inj h)
  have hnodup : allReasons.Nodup := by decide
  have hcodes : reasons.map (fun row => word row.1) = allReasons.map fun r => .str r.code := rfl
  rw [reason, hcodes, valid_oneOf_const (hnodup.map hinj)]
  exact List.mem_map_of_mem (mem_allReasons r)

end AuditSchema

/-! ## Audit records -/

/-- What the schema asks of an audit record. -/
structure AuditRecord.Regular (r : AuditRecord) : Prop where
  timestamp : ∃ m, Written8601 r.timestamp m
  constants : r.schemaVersion = SCHEMA_VERSION ∧ r.logger = TARGET ∧ r.event.kind = "audit".toList
  success : r.event.outcome = .success → r.level = "INFO".toList ∧
    (r.event.action = .forward ∨ r.event.action = .bypass) ∧ r.event.reason = none ∧
    r.event.stage = none ∧ r.event.risk = .info
  failure : r.event.outcome = .failure → r.level = "WARN".toList ∧
    ∃ reason, r.event.reason = some reason ∧ r.event.stage = some reason.stage ∧
      r.event.risk = reason.risk
  hostname : r.machine.hostname.isSome = true ↔ r.machine.status = .verified
  machine : r.machine.status = .verified →
    r.machine.subjectDn.isSome = true ∧ r.machine.chainVerified = true
  attestation : r.attestation.status = .verified →
    r.attestation.nonce.isSome = true ∧ r.attestation.bodyBinding.isSome = true
  clientTimestamp : ∀ t, r.attestation.clientTimestamp = some t → ∃ m, Written8601 t m
  statusCode : ∀ code, r.httpStatusCode = some code → 100 ≤ code ∧ code ≤ 999

namespace AuditSchema

theorem valid_port (o : Option UInt16) : valid port (jsonNat? (o.map UInt16.toNat)) = true := by
  refine valid_nat? fun n hn => ?_
  obtain ⟨w, _, rfl⟩ := Option.map_eq_some_iff.1 hn
  exact ⟨Nat.zero_le _, Nat.le_of_lt_succ w.toNat_lt⟩

theorem valid_endpoint (e : Endpoint) : valid endpoint e.json = true :=
  valid_closed rfl (by decide) (.cons (valid_ip _) (.cons (valid_port _) .nil))

theorem valid_client (c : ClientFields) : valid client c.json = true :=
  valid_closed rfl (by decide)
    (.cons (valid_ip _) (.cons (valid_ip _) (.cons (valid_port _) .nil)))

theorem valid_dn? (o : Option Str) : valid (nullable dn) (jsonStr? o) = true :=
  valid_nullable fun _ _ => valid_type.2 ⟨.string, by simp, rfl⟩

/-- A text that is there is a string. -/
theorem valid_isSome {o : Option Str} (h : o.isSome = true) :
    valid (.type [.string]) (jsonStr? o) = true := by
  obtain ⟨x, rfl⟩ := Option.isSome_iff_exists.1 h
  exact valid_type.2 ⟨.string, by simp, rfl⟩

theorem valid_isVerified {status : Str} {members : List (Str × JsonValue)} :
    valid isVerified (.obj (("status".toList, .str status) :: members)) = true ↔
      status = "verified".toList := by
  have hget : (JsonValue.obj (("status".toList, .str status) :: members)).get? "status".toList =
      some (.str status) := by simp [JsonValue.get?]
  rw [isVerified, valid_has hget, valid_const]
  exact ⟨JsonValue.str.inj, congrArg JsonValue.str⟩

section Records

variable {r : AuditRecord} (h : r.Regular)

include h

theorem valid_event : valid auditEvent r.event.json = true := by
  refine valid_closed rfl (by decide) ?_
  refine .cons ?_ (.cons (valid_action _) (.cons (valid_outcome _) (.cons ?_ (.cons ?_
    (.cons (valid_risk _) (.cons (valid_count _) .nil))))))
  · exact valid_const.2 (congrArg JsonValue.str h.constants.2.2)
  · refine valid_nullable fun x hx => ?_
    obtain ⟨stage, _, rfl⟩ := Option.map_eq_some_iff.1 hx
    exact valid_stage stage
  · refine valid_nullable fun x hx => ?_
    obtain ⟨reason, _, rfl⟩ := Option.map_eq_some_iff.1 hx
    exact valid_reason reason

theorem valid_machine : valid machine r.machine.json = true := by
  refine valid_of_closed rfl (by decide) ?_ ?_
  · exact .cons (valid_machineStatus _) (.cons (valid_dn? _) (.cons (valid_str? _)
      (.cons (valid_type.2 ⟨.boolean, by simp, rfl⟩) .nil)))
  · intro s hs
    obtain rfl := List.mem_singleton.1 hs
    rw [valid_if]
    constructor
    · intro hv
      have hstatus : r.machine.status = .verified := by
        have hsnake := valid_isVerified.1 hv
        revert hsnake
        cases r.machine.status <;> decide
      obtain ⟨hdn, hchain⟩ := h.machine hstatus
      refine valid_open fun p hp w hw => ?_
      simp only [List.mem_cons, List.not_mem_nil, or_false] at hp
      rcases hp with rfl | rfl | rfl
      · have hw' : w = jsonStr? r.machine.subjectDn := by simpa using hw
        rw [hw']
        exact valid_isSome hdn
      · have hw' : w = jsonStr? r.machine.hostname := by simpa using hw
        rw [hw']
        exact valid_isSome (h.hostname.2 hstatus)
      · have hw' : w = .bool r.machine.chainVerified := by simpa using hw
        rw [hw', hchain]
        exact valid_const.2 rfl
    · intro hv
      have hnone : r.machine.hostname = none := by
        rw [← Option.not_isSome_iff_eq_none, h.hostname]
        intro hstatus
        exact hv (valid_isVerified.2 (congrArg MachineStatus.snake hstatus))
      refine valid_open fun p hp w hw => ?_
      obtain rfl := List.mem_singleton.1 hp
      have hw' : w = jsonStr? r.machine.hostname := by simpa using hw
      rw [hw', hnone]
      exact valid_type.2 ⟨.null, by simp, rfl⟩

theorem valid_attestation : valid attestation r.attestation.json = true := by
  refine valid_of_closed rfl (by decide) ?_ ?_
  · refine .cons (valid_attestationStatus _) (.cons (valid_str? _) (.cons ?_ (.cons ?_ .nil)))
    · refine valid_nullable fun t ht => ?_
      obtain ⟨m, hm⟩ := h.clientTimestamp t ht
      exact valid_timestamp hm
    · refine valid_nullable fun x hx => ?_
      obtain ⟨binding, _, rfl⟩ := Option.map_eq_some_iff.1 hx
      exact valid_binding binding
  · intro s hs
    obtain rfl := List.mem_singleton.1 hs
    rw [valid_if]
    constructor
    · intro hv
      have hstatus : r.attestation.status = .verified := by
        have hsnake := valid_isVerified.1 hv
        revert hsnake
        cases r.attestation.status <;> decide
      obtain ⟨hnonce, hbinding⟩ := h.attestation hstatus
      refine valid_open fun p hp w hw => ?_
      simp only [List.mem_cons, List.not_mem_nil, or_false] at hp
      rcases hp with rfl | rfl
      · have hw' : w = jsonStr? r.attestation.nonce := by simpa using hw
        rw [hw']
        exact valid_isSome hnonce
      · have hw' : w = jsonStr? (r.attestation.bodyBinding.map Binding.snake) := by
          simpa using hw
        rw [hw']
        exact valid_isSome (by simpa using hbinding)
    · exact fun _ => (valid_allOf _ _).2 fun s hs => absurd hs List.not_mem_nil

theorem valid_onSuccess (hsuccess : r.event.outcome = .success) :
    valid onSuccess r.json = true := by
  obtain ⟨hINFO, haction, hreason, hstage, hrisk⟩ := h.success hsuccess
  refine valid_open fun q hq w hw => ?_
  simp only [List.mem_cons, List.not_mem_nil, or_false] at hq
  rcases hq with rfl | rfl
  · have hw' : w = .str r.level := by simpa using hw
    rw [hw']
    exact valid_const.2 (congrArg JsonValue.str hINFO)
  · have hw' : w = r.event.json := by simpa using hw
    rw [hw']
    refine valid_open fun q hq w hw => ?_
    simp only [List.mem_cons, List.not_mem_nil, or_false] at hq
    rcases hq with rfl | rfl | rfl | rfl
    · have hw' : w = .str r.event.action.snake := by simpa using hw
      rw [hw', valid_enum]
      rcases haction with ha | ha <;> rw [ha] <;> decide
    · have hw' : w = jsonStr? (r.event.stage.map Stage.snake) := by simpa using hw
      rw [hw', hstage]
      exact valid_type.2 ⟨.null, by simp, rfl⟩
    · have hw' : w = jsonStr? (r.event.reason.map Reason.code) := by simpa using hw
      rw [hw', hreason]
      exact valid_type.2 ⟨.null, by simp, rfl⟩
    · have hw' : w = .str r.event.risk.snake := by simpa using hw
      rw [hw', hrisk]
      exact valid_const.2 rfl

theorem valid_onFailure (hfailure : r.event.outcome = .failure) :
    valid onFailure r.json = true := by
  obtain ⟨hWARN, reason, hreason, hstage, hrisk⟩ := h.failure hfailure
  refine valid_open fun q hq w hw => ?_
  simp only [List.mem_cons, List.not_mem_nil, or_false] at hq
  rcases hq with rfl | rfl
  · have hw' : w = .str r.level := by simpa using hw
    rw [hw']
    exact valid_const.2 (congrArg JsonValue.str hWARN)
  · have hw' : w = r.event.json := by simpa using hw
    rw [hw']
    refine valid_open fun q hq w hw => ?_
    simp only [List.mem_cons, List.not_mem_nil, or_false] at hq
    rcases hq with rfl | rfl | rfl
    · have hw' : w = jsonStr? (r.event.stage.map Stage.snake) := by simpa using hw
      rw [hw', hstage]
      exact valid_isSome rfl
    · have hw' : w = jsonStr? (r.event.reason.map Reason.code) := by simpa using hw
      rw [hw', hreason]
      exact valid_isSome rfl
    · have hw' : w = .str r.event.risk.snake := by simpa using hw
      rw [hw', hrisk, valid, Bool.not_eq_true', ← Bool.not_eq_true, valid_const]
      have hne := reason.risk_ne_info
      revert hne
      cases reason.risk <;> decide

theorem valid_successRule : valid successRule r.json = true := by
  have hevent : r.json.get? "event".toList = some r.event.json := by
    simp [JsonValue.get?, AuditRecord.json]
  have houtcome : r.event.json.get? "outcome".toList = some (.str r.event.outcome.snake) := by
    simp [JsonValue.get?, AuditEvent.json]
  have htest : valid (has "event".toList (has "outcome".toList (.const (word "success"))))
      r.json = true ↔ r.event.outcome = .success := by
    rw [show r.json = .obj _ from rfl, valid_has hevent, show r.event.json = .obj _ from rfl,
      valid_has houtcome, valid_const]
    cases r.event.outcome <;> decide
  rw [successRule, valid_if, htest]
  refine ⟨valid_onSuccess h, fun hne => valid_onFailure h ?_⟩
  revert hne
  cases r.event.outcome <;> simp

theorem valid_auditRecord : valid auditRecord r.json = true := by
  refine valid_of_closed rfl (by decide) ?_ ?_
  · obtain ⟨m, hm⟩ := h.timestamp
    refine .cons (valid_timestamp hm) (.cons ?_ (.cons ?_ (.cons ?_ (.cons (valid_event h)
      (.cons (valid_type.2 ⟨.string, by simp, rfl⟩) (.cons (valid_endpoint _)
      (.cons (valid_client _) (.cons ?_ (.cons ?_ (.cons (valid_machine h)
      (.cons (valid_attestation h) (.cons ?_ (.cons ?_ .nil)))))))))))))
    · exact valid_const.2 (congrArg JsonValue.str h.constants.1)
    · rw [valid_enum]
      cases hout : r.event.outcome with
      | success => rw [(h.success hout).1]; decide
      | failure => rw [(h.failure hout).1]; decide
    · exact valid_const.2 (congrArg JsonValue.str h.constants.2.1)
    · exact valid_closed rfl (by decide) (.cons (valid_str? _) .nil)
    · exact valid_closed rfl (by decide)
        (.cons (valid_closed rfl (by decide) (.cons (valid_dn? _) .nil)) .nil)
    · exact valid_closed rfl (by decide)
        (.cons (valid_closed rfl (by decide) (.cons (valid_str? _) .nil))
          (.cons (valid_closed rfl (by decide) (.cons (valid_nat? h.statusCode) .nil)) .nil))
    · exact valid_closed rfl (by decide)
        (.cons (valid_count _) (.cons (valid_count _) .nil))
  · intro s hs
    obtain rfl := List.mem_singleton.1 hs
    exact valid_successRule h

end Records

/-- An audit record is not a system record: it says which proxy it is from. -/
theorem not_systemRecord (r : AuditRecord) : ¬valid systemRecord r.json = true := by
  refine not_valid_of_extra (m := ("proxy".toList, r.proxy.json))
    (List.mem_cons_of_mem _ (List.mem_cons_of_mem _ List.mem_cons_self)) ?_ ?_
  · simp
  · show "proxy".toList ∉ (systemRecordProps ++ fieldsProps).map Prod.fst
    decide

/-! ## System records -/

/-- The members of a system record that are always there. -/
theorem valid_systemMembers {r : SystemRecord} (hnow : ∃ m, Written8601 r.timestamp m)
    (hlevel : ∃ l : TraceLevel, r.level = l.asStr) :
    List.Forall₂ (fun p m => valid p.2 m.2 = true) systemRecordProps [
      ("timestamp".toList, JsonValue.str r.timestamp),
      ("schema_version".toList, .str SCHEMA_VERSION),
      ("level".toList, .str r.level),
      ("logger".toList, .str r.logger),
      ("event".toList, .obj [("kind".toList, .str "system".toList)]),
      ("message".toList, .str r.message)] := by
  obtain ⟨m, hm⟩ := hnow
  obtain ⟨l, hl⟩ := hlevel
  have hstring : ∀ s : Str, valid (.type [.string]) (.str s) = true := fun s =>
    valid_type.2 ⟨.string, by simp, rfl⟩
  refine .cons (valid_timestamp hm) (.cons (valid_const.2 rfl) (.cons ?_ (.cons (hstring _)
    (.cons ?_ (.cons (hstring _) .nil)))))
  · rw [hl]
    exact valid_level l
  · exact valid_closed rfl (by decide) (.cons (valid_const.2 rfl) .nil)

theorem valid_systemRecord {r : SystemRecord} (hnow : ∃ m, Written8601 r.timestamp m)
    (hlevel : ∃ l : TraceLevel, r.level = l.asStr) : valid systemRecord r.json = true := by
  have hmembers := valid_systemMembers hnow hlevel
  rw [systemRecord, valid_allOf]
  intro s hs
  simp only [List.mem_cons, List.not_mem_nil, or_false] at hs
  unfold SystemRecord.json
  by_cases hempty : r.fields.isEmpty = true
  · rw [if_pos hempty, List.append_nil]
    obtain ⟨htype, hrequired, hprops⟩ := valid_record rfl (by decide) hmembers
    rcases hs with rfl | rfl | rfl
    · exact htype
    · exact hrequired
    · refine valid_properties_append hprops fun q hq => ?_
      obtain rfl := List.mem_singleton.1 hq
      show "fields".toList ∉ systemRecordProps.map Prod.fst
      decide
  · rw [if_neg hempty]
    have hfields : List.Forall₂
        (fun (p : Str × JsonSchema) (m : Str × JsonValue) => valid p.2 m.2 = true)
        fieldsProps [("fields".toList, .obj r.fields)] :=
      .cons (valid_type.2 ⟨.object, by simp, rfl⟩) .nil
    have hall := List.rel_append hmembers hfields
    obtain ⟨htype, hrequired, hprops⟩ := valid_record rfl (by decide) hall
    rcases hs with rfl | rfl | rfl
    · exact htype
    · rw [valid_required] at hrequired ⊢
      intro k hk
      refine hrequired k ?_
      rw [List.map_append]
      exact List.mem_append_left _ hk
    · exact hprops

/-- A system record is not an audit record: it is from no proxy. -/
theorem not_auditRecord (r : SystemRecord) : ¬valid auditRecord r.json = true := by
  intro h
  have hrequired : valid (.required (auditRecordProps.map Prod.fst)) r.json = true :=
    (valid_allOf _ _).1 h _ (List.mem_cons_of_mem _ List.mem_cons_self)
  have hproxy := valid_required.1 hrequired "proxy".toList (by decide)
  by_cases hempty : r.fields.isEmpty = true <;> simp [hempty] at hproxy

end AuditSchema

/-! ## The log -/

/-- The decision, its stage and its risk are as the codes of the schema are annotated. -/
def Annotated (v : JsonValue) : Prop :=
  ∀ e code, v.get? "event".toList = some e → e.get? "reason".toList = some (.str code) →
    ∃ row ∈ AuditSchema.reasons, row.1.toList = code ∧
      e.get? "stage".toList = some (AuditSchema.word row.2.1) ∧
      e.get? "risk".toList = some (AuditSchema.word row.2.2)

theorem AuditRecord.Regular.annotated {r : AuditRecord} (h : r.Regular) : Annotated r.json := by
  have hevent : r.json.get? "event".toList = some r.event.json := by
    simp [JsonValue.get?, AuditRecord.json]
  have hreason : r.event.json.get? "reason".toList =
      some (jsonStr? (r.event.reason.map Reason.code)) := by simp [JsonValue.get?, AuditEvent.json]
  have hstage : r.event.json.get? "stage".toList =
      some (jsonStr? (r.event.stage.map Stage.snake)) := by simp [JsonValue.get?, AuditEvent.json]
  have hrisk : r.event.json.get? "risk".toList = some (.str r.event.risk.snake) := by
    simp [JsonValue.get?, AuditEvent.json]
  intro e code he hcode
  obtain rfl := Option.some.inj (hevent.symm.trans he)
  have hstr : jsonStr? (r.event.reason.map Reason.code) = .str code :=
    Option.some.inj (hreason.symm.trans hcode)
  cases hout : r.event.outcome with
  | success =>
    obtain ⟨_, _, hnone, _⟩ := h.success hout
    rw [hnone] at hstr
    cases hstr
  | failure =>
    obtain ⟨_, reason, hsome, hs, hr⟩ := h.failure hout
    rw [hsome] at hstr
    obtain ⟨row, hrow, hcode', hstage', hrisk'⟩ := AuditSchema.annotated_reason reason
    refine ⟨row, hrow, hcode'.trans (JsonValue.str.inj hstr), ?_, ?_⟩
    · rw [hstage, hs, AuditSchema.word, hstage']
      rfl
    · rw [hrisk, hr, AuditSchema.word, hrisk']

theorem annotated_systemRecord (r : SystemRecord) : Annotated r.json := by
  have hevent : r.json.get? "event".toList =
      some (.obj [("kind".toList, .str "system".toList)]) := by
    simp [JsonValue.get?, SystemRecord.json]
  intro e code he hcode
  obtain rfl := Option.some.inj (hevent.symm.trans he)
  simp [JsonValue.get?] at hcode

section Gate

variable {L : Crates} {p : Proxy L} {s : Session} {env : Env} {t : Transfer} {now : Str}
  {d : Nat}

/-- What a record says of a failure. -/
theorem failure_of_consistent {a : RequestAudit} {conn : Connection}
    {error : Option (Reason × Str)} {ret : Bool}
    (h : DecisionConsistent a ret error (a.record L conn error now d))
    (hfailure : (a.record L conn error now d).event.outcome = .failure) :
    (a.record L conn error now d).level = "WARN".toList ∧
      ∃ reason, (a.record L conn error now d).event.reason = some reason ∧
        (a.record L conn error now d).event.stage = some reason.stage ∧
        (a.record L conn error now d).event.risk = reason.risk := by
  have hlevel : (a.record L conn error now d).level = (a.level error.isSome).asStr :=
    RequestAudit.record_level_eq
  generalize a.record L conn error now d = r at h hfailure hlevel ⊢
  have hnot : r.event.outcome ≠ .success := by
    rw [hfailure]
    decide
  constructor
  · cases hl : a.level error.isSome with
    | info =>
      rw [hl] at hlevel
      exact absurd (h.success_level.2 hlevel) hnot
    | warn =>
      rw [hlevel, hl]
      rfl
  · have hstage := h.stage
    have hrisk := h.risk
    cases hreason : r.event.reason with
    | none =>
      rw [hreason] at hstage
      exact absurd (h.success_reason.2 ⟨hreason, hstage⟩) hnot
    | some reason =>
      rw [hreason] at hstage hrisk
      exact ⟨reason, rfl, hstage, hrisk⟩

/-- **The record of every request is regular**, however the gate ended and whatever error came
after it. -/
theorem record_regular (hnow : ∃ m, Written8601 now m)
    (hstatus : ∀ code, t.statusCode = some code → 100 ≤ code ∧ code ≤ 999)
    (e : Option PingoraError) :
    ((requestFilter p s env).1.ctx.record L (s.connection t) (e.map classifyProxyError) now
      d).Regular := by
  have hend := requestFilter_ending p s env
  have hsound := requestFilter_sound p s env
  generalize requestFilter p s env = o at hend hsound ⊢
  have hfields := hend.fields (s.connection t) e now d
  have hdecision : ∃ ret, DecisionConsistent o.1.ctx ret (e.map classifyProxyError)
      (o.1.ctx.record L (s.connection t) (e.map classifyProxyError) now d) := by
    rcases hend.decision with ⟨_, reason, message, hctx⟩ | ⟨_, action, hctx⟩
    · exact ⟨true, decision_of_refused hctx⟩
    · exact ⟨false, decision_of_passed hctx⟩
  obtain ⟨ret, hdecision⟩ := hdecision
  have hrecord : ((o.1.ctx.takeError (o.1.ctx.finalError (e.map classifyProxyError))).takeSubjectDn
      L).Sound := (hsound.takeError _).takeSubjectDn L
  refine ⟨hnow, ⟨rfl, rfl, rfl⟩, fun hsuccess => ?_, failure_of_consistent hdecision,
    hfields.hostname, hrecord.machine, fun hv => hfields.forward (hfields.verified.1 hv),
    fun x hx => ?_, hstatus⟩
  · obtain ⟨hreason, hstage⟩ := hdecision.success_reason.1 hsuccess
    exact ⟨hdecision.success_level.1 hsuccess, (hdecision.success_action.1 hsuccess).1, hreason,
      hstage, hdecision.success_risk.1 hsuccess⟩
  · obtain ⟨ts, hts⟩ := hrecord.clientTimestamp x hx
    exact ⟨_, .client hts⟩

/-- Every line of a log is a regular record or a system record. -/
theorem entry_valid {enabled : Level → Bool} {x : Str × Happening} {y : Str × Logged}
    (hnow : ∃ t, timestamp t = some x.1)
    (hstatus : ∀ served, x.2 = .exchange served →
      ∀ code, served.transfer.statusCode = some code → 100 ≤ code ∧ code ≤ 999)
    (hy : x.2.entry p enabled x.1 = some y) :
    valid auditLogSchema (y.2.json y.1) = true ∧ Annotated (y.2.json y.1) := by
  obtain ⟨now, x⟩ := x
  obtain ⟨t, ht⟩ := hnow
  have hwritten : ∃ m, Written8601 now m := ⟨_, .record ht⟩
  rw [auditLogSchema, valid_oneOf_pair]
  cases x with
  | exchange served =>
    obtain ⟨r, hr, rfl⟩ := Option.map_eq_some_iff.1 hy
    unfold Served.logged logging RequestAudit.finish at hr
    dsimp only at hr
    split_ifs at hr
    cases hr
    have hregular : ((requestFilter p served.session served.env).1.ctx.record L
        (served.session.connection served.transfer) (served.error.map classifyProxyError) now
        served.durationMs).Regular :=
      record_regular hwritten (hstatus served rfl) served.error
    refine ⟨?_, hregular.annotated⟩
    exact iff_of_true (AuditSchema.valid_auditRecord hregular) (AuditSchema.not_systemRecord _)
  | event e =>
    cases hy
    refine ⟨?_, annotated_systemRecord _⟩
    exact iff_of_false (AuditSchema.not_auditRecord _)
      (not_not_intro (AuditSchema.valid_systemRecord hwritten ⟨e.level, rfl⟩))

end Gate

end DenBrowser
