import DenBrowser.Lib.Lines
import DenBrowser.Proxy.PathPrivacy
import DenBrowser.Proxy.Timestamp

/-!
# Log lines

`logging::JsonLines` and the serialization of `audit`'s records: every event is one line of
JSON.  An event on the audit target has its record written verbatim, anything else is wrapped in
a `system` record.

* `readLog_writeLog` — the lines of a log are read back as the events that were written;
* `auditTrail_writeLog` — the audit records of a log are the records that were emitted;
* `log_faithful` — both, for the requests of a proxy with any other events between them.
-/

set_option autoImplicit false

namespace DenBrowser

open Lines (chunks content)

/-! ## Audit records as JSON -/

/-- `Serialize` of an optional string. -/
def jsonStr? : Option Str → JsonValue
  | none => .null
  | some s => .str s

def jsonNat? : Option Nat → JsonValue
  | none => .null
  | some n => .int n

/-- `snake_case` of the variants. -/
def Action.snake : Action → Str
  | .forward => "forward".toList
  | .bypass => "bypass".toList
  | .reject => "reject".toList
  | .rateLimit => "rate_limit".toList
  | .error => "error".toList

def OutcomeField.snake : OutcomeField → Str
  | .success => "success".toList
  | .failure => "failure".toList

def Stage.snake : Stage → Str
  | .rateLimit => "rate_limit".toList
  | .attestationHeaders => "attestation_headers".toList
  | .machineIdentity => "machine_identity".toList
  | .attestationToken => "attestation_token".toList
  | .attestationBody => "attestation_body".toList
  | .upstream => "upstream".toList
  | .downstream => "downstream".toList
  | .internal => "internal".toList

def Risk.snake : Risk → Str
  | .info => "info".toList
  | .low => "low".toList
  | .medium => "medium".toList
  | .high => "high".toList
  | .critical => "critical".toList

def AttestationStatus.snake : AttestationStatus → Str
  | .verified => "verified".toList
  | .failed => "failed".toList
  | .bypassed => "bypassed".toList
  | .incomplete => "incomplete".toList
  | .notEvaluated => "not_evaluated".toList

def MachineStatus.snake : MachineStatus → Str
  | .verified => "verified".toList
  | .failed => "failed".toList
  | .absent => "absent".toList
  | .notEvaluated => "not_evaluated".toList
  | .disabled => "disabled".toList

def Binding.snake : Binding → Str
  | .bound => "bound".toList
  | .unbound => "unbound".toList

def AuditEvent.json (e : AuditEvent) : JsonValue :=
  .obj [
    ("kind".toList, .str e.kind),
    ("action".toList, .str e.action.snake),
    ("outcome".toList, .str e.outcome.snake),
    ("stage".toList, jsonStr? (e.stage.map Stage.snake)),
    ("reason".toList, jsonStr? (e.reason.map Reason.code)),
    ("risk".toList, .str e.risk.snake),
    ("duration_ms".toList, .int e.durationMs)]

def Endpoint.json (e : Endpoint) : JsonValue :=
  .obj [
    ("ip".toList, jsonStr? (e.ip.map IpAddr.show)),
    ("port".toList, jsonNat? (e.port.map UInt16.toNat))]

def ClientFields.json (c : ClientFields) : JsonValue :=
  .obj [
    ("address".toList, jsonStr? c.address),
    ("ip".toList, jsonStr? (c.ip.map IpAddr.show)),
    ("port".toList, jsonNat? (c.port.map UInt16.toNat))]

def MachineFields.json (m : MachineFields) : JsonValue :=
  .obj [
    ("status".toList, .str m.status.snake),
    ("subject_dn".toList, jsonStr? m.subjectDn),
    ("hostname".toList, jsonStr? m.hostname),
    ("chain_verified".toList, .bool m.chainVerified)]

def AttestationFields.json (a : AttestationFields) : JsonValue :=
  .obj [
    ("status".toList, .str a.status.snake),
    ("nonce".toList, jsonStr? a.nonce),
    ("client_timestamp".toList, jsonStr? a.clientTimestamp),
    ("body_binding".toList, jsonStr? (a.bodyBinding.map Binding.snake))]

/-- An `AuditRecord`; its `server`, `tls`, `http` and `transfer` wrap the record's fields. -/
def AuditRecord.json (r : AuditRecord) : JsonValue :=
  .obj [
    ("timestamp".toList, .str r.timestamp),
    ("schema_version".toList, .str r.schemaVersion),
    ("level".toList, .str r.level),
    ("logger".toList, .str r.logger),
    ("event".toList, r.event.json),
    ("message".toList, .str r.message),
    ("proxy".toList, r.proxy.json),
    ("client".toList, r.client.json),
    ("server".toList, .obj [("address".toList, jsonStr? r.serverAddress)]),
    ("tls".toList, .obj [("client".toList,
      .obj [("subject".toList, jsonStr? r.tlsClientSubject)])]),
    ("machine".toList, r.machine.json),
    ("attestation".toList, r.attestation.json),
    ("http".toList, .obj [
      ("request".toList, .obj [("method".toList, jsonStr? r.httpMethod)]),
      ("response".toList, .obj [("status_code".toList, jsonNat? r.httpStatusCode)])]),
    ("transfer".toList, .obj [
      ("request_body_bytes".toList, .int r.requestBodyBytes),
      ("response_body_bytes".toList, .int r.responseBodyBytes)])]

/-! ## Events -/

/-- `tracing::Level`. -/
inductive TraceLevel where
  | trace | debug | info | warn | error
  deriving DecidableEq

/-- `Level::as_str`. -/
def TraceLevel.asStr : TraceLevel → Str
  | .trace => "TRACE".toList
  | .debug => "DEBUG".toList
  | .info => "INFO".toList
  | .warn => "WARN".toList
  | .error => "ERROR".toList

def Level.trace : Level → TraceLevel
  | .info => .info
  | .warn => .warn

/-- A field's value, by the `Visit` method it arrives through; of a `Debug` value its text. -/
inductive FieldValue where
  | str (s : Str)
  | debug (text : Str)
  | i64 (n : Int)
  | u64 (n : Nat)
  | bool (b : Bool)
  deriving DecidableEq

/-- A `tracing` event. -/
structure Event where
  target : Str
  level : TraceLevel
  fields : List (Str × FieldValue)

def RECORD_FIELD : Str := "audit_record".toList

/-- `serde_json::Map::insert`: the keys are in order, and a key that is there gets the value. -/
def mapInsert (key : Str) (value : JsonValue) : List (Str × JsonValue) → List (Str × JsonValue)
  | [] => [(key, value)]
  | (k, v) :: m =>
    if key = k then (key, value) :: m
    else if key < k then (key, value) :: (k, v) :: m
    else (k, v) :: mapInsert key value m

/-- `logging::Fields`. -/
structure Fields where
  audit : Bool
  auditRecord : Option Str
  message : Str
  logTarget : Option Str
  extra : List (Str × JsonValue)

namespace Fields

def new (audit : Bool) : Fields := ⟨audit, none, [], none, []⟩

def put (f : Fields) (name : Str) (value : JsonValue) : Fields :=
  if name = "message".toList then
    { f with message := match value with
      | .str s => s
      | other => other.text }
  else if name = "log.module_path".toList ∨ name = "log.file".toList ∨
      name = "log.line".toList then f
  else { f with extra := mapInsert name value f.extra }

def recordStr (f : Fields) (name value : Str) : Fields :=
  if name = RECORD_FIELD ∧ f.audit = true then { f with auditRecord := some value }
  else if name = "log.target".toList then { f with logTarget := some value }
  else f.put name (.str value)

/-- The `Visit` methods. -/
def record (f : Fields) (name : Str) : FieldValue → Fields
  | .str s => f.recordStr name s
  | .debug text => f.recordStr name text
  | .i64 n => f.put name (.int n)
  | .u64 n => f.put name (.int n)
  | .bool b => f.put name (.bool b)

end Fields

/-- `event.record(&mut fields)`. -/
def Event.recorded (e : Event) : Fields :=
  e.fields.foldl (fun f field => f.record field.1 field.2) (.new (e.target == TARGET))

/-- `SystemRecord`. -/
structure SystemRecord where
  timestamp : Str
  level : Str
  logger : Str
  message : Str
  fields : List (Str × JsonValue)

def SystemRecord.json (r : SystemRecord) : JsonValue :=
  .obj ([
    ("timestamp".toList, .str r.timestamp),
    ("schema_version".toList, .str SCHEMA_VERSION),
    ("level".toList, .str r.level),
    ("logger".toList, .str r.logger),
    ("event".toList, .obj [("kind".toList, .str "system".toList)]),
    ("message".toList, .str r.message)] ++
    (if r.fields.isEmpty then [] else [("fields".toList, .obj r.fields)]))

/-- The `system` record of an event. -/
def Event.systemRecord (e : Event) (now : Str) : SystemRecord :=
  let fields := e.recorded
  ⟨now, e.level.asStr, fields.logTarget.getD e.target, fields.message, fields.extra⟩

/-- `format_event`, without the newline `writeln!` ends it with. -/
def formatEvent (now : Str) (e : Event) : Str :=
  match e.recorded.auditRecord with
  | some line => line
  | none => (e.systemRecord now).json.text

/-- `audit::emit`. -/
def emitRecord (level : Level) (r : AuditRecord) : Event :=
  ⟨TARGET, level.trace, [(RECORD_FIELD, .str r.json.text)]⟩

/-! ## The log -/

/-- What is logged: an audit record, or any other event. -/
inductive Logged where
  | audit (level : Level) (record : AuditRecord)
  | other (e : Event)

def Logged.event : Logged → Event
  | .audit level record => emitRecord level record
  | .other e => e

/-- No event but an emitted record has a field of its name on the audit target. -/
def Logged.Plain : Logged → Prop
  | .audit _ _ => True
  | .other e => e.target = TARGET → RECORD_FIELD ∉ e.fields.map Prod.fst

/-- The value on the line of an entry. -/
def Logged.json (now : Str) : Logged → JsonValue
  | .audit _ record => record.json
  | .other e => (e.systemRecord now).json

def Logged.record? : Logged → Option AuditRecord
  | .audit _ record => some record
  | .other _ => none

/-- What is written for entries logged at given times. -/
def writeLog (entries : List (Str × Logged)) : Str :=
  entries.flatMap fun x => formatEvent x.1 x.2.event ++ ['\n']

/-- Each line of a log read as JSON. -/
def readLog (text : Str) : List (Option JsonValue) :=
  (chunks '\n' text).map fun line => JsonValue.read (content '\n' line)

/-- `event.kind` of a record. -/
def kindOf (v : JsonValue) : Option JsonValue :=
  (v.get? "event".toList).bind fun e => e.get? "kind".toList

/-- The values of a log's audit lines. -/
def auditTrail (text : Str) : List JsonValue :=
  (readLog text).filterMap fun v => v.bind fun v =>
    if kindOf v = some (.str "audit".toList) then some v else none

/-! ## What an event is written as -/

theorem Fields.put_auditRecord (f : Fields) (name : Str) (value : JsonValue) :
    (f.put name value).auditRecord = f.auditRecord ∧ (f.put name value).audit = f.audit := by
  unfold Fields.put
  split_ifs <;> exact ⟨rfl, rfl⟩

/-- Only a field of the record's name, on the audit target, supplies a line. -/
theorem Fields.record_auditRecord {f : Fields} {name : Str} (v : FieldValue)
    (h : f.audit = true → name ≠ RECORD_FIELD) :
    (f.record name v).auditRecord = f.auditRecord ∧ (f.record name v).audit = f.audit := by
  have hstr : ∀ s : Str, (f.recordStr name s).auditRecord = f.auditRecord ∧
      (f.recordStr name s).audit = f.audit := by
    intro s
    unfold Fields.recordStr
    rw [if_neg fun hboth => h hboth.2 hboth.1]
    split_ifs
    · exact ⟨rfl, rfl⟩
    · exact f.put_auditRecord name _
  cases v with
  | str s => exact hstr s
  | debug text => exact hstr text
  | i64 n => exact f.put_auditRecord name _
  | u64 n => exact f.put_auditRecord name _
  | bool b => exact f.put_auditRecord name _

theorem Event.recorded_auditRecord {e : Event}
    (h : e.target = TARGET → RECORD_FIELD ∉ e.fields.map Prod.fst) :
    e.recorded.auditRecord = none := by
  have hfold : ∀ (fields : List (Str × FieldValue)) (f : Fields),
      (f.audit = true → RECORD_FIELD ∉ fields.map Prod.fst) →
      (fields.foldl (fun f field => f.record field.1 field.2) f).auditRecord = f.auditRecord := by
    intro fields
    induction fields with
    | nil => intro f _; rfl
    | cons field fields ih =>
      intro f hf
      have hhead : f.audit = true → field.1 ≠ RECORD_FIELD := by
        intro ha heq
        exact hf ha (by rw [← heq]; exact List.mem_cons_self)
      obtain ⟨hrec, haud⟩ := Fields.record_auditRecord field.2 hhead
      rw [List.foldl_cons, ih, hrec]
      intro ha hmem
      exact hf (haud ▸ ha) (List.mem_cons_of_mem _ hmem)
  exact hfold e.fields _ fun ha => h (by simpa [Fields.new] using ha)

/-- **An entry's line is the text of its value.** -/
theorem formatEvent_event {x : Logged} (h : x.Plain) (now : Str) :
    formatEvent now x.event = (x.json now).text := by
  cases x with
  | audit level record => rfl
  | other e =>
    unfold formatEvent Logged.event
    rw [Event.recorded_auditRecord h]
    rfl

/-! ## The fields of a system record -/

/-- The keys of a `serde_json` map are in order, none twice. -/
def SortedKeys (m : List (Str × JsonValue)) : Prop := (m.map Prod.fst).Pairwise (· < ·)

theorem mem_mapInsert {key k : Str} {value : JsonValue} : ∀ {m : List (Str × JsonValue)},
    k ∈ (mapInsert key value m).map Prod.fst → k = key ∨ k ∈ m.map Prod.fst
  | [], h => Or.inl (by simpa [mapInsert] using h)
  | (k', v') :: m, h => by
    unfold mapInsert at h
    split_ifs at h with heq hlt
    · rcases List.mem_cons.1 h with h | h
      · exact Or.inl h
      · exact Or.inr (List.mem_cons_of_mem _ h)
    · rcases List.mem_cons.1 h with h | h
      · exact Or.inl h
      · exact Or.inr h
    · rcases List.mem_cons.1 h with h | h
      · exact Or.inr (h ▸ List.mem_cons_self)
      · rcases mem_mapInsert h with h | h
        · exact Or.inl h
        · exact Or.inr (List.mem_cons_of_mem _ h)

theorem sortedKeys_mapInsert (key : Str) (value : JsonValue) {m : List (Str × JsonValue)}
    (h : SortedKeys m) : SortedKeys (mapInsert key value m) := by
  induction m with
  | nil => simp [mapInsert, SortedKeys]
  | cons e m ih =>
    obtain ⟨k', v'⟩ := e
    obtain ⟨hhead, htail⟩ := List.pairwise_cons.1 h
    unfold mapInsert
    split_ifs with heq hlt
    · subst heq
      exact h
    · refine List.pairwise_cons.2 ⟨fun k hk => ?_, h⟩
      rcases List.mem_cons.1 hk with rfl | hk
      · exact hlt
      · exact lt_trans hlt (hhead k hk)
    · refine List.pairwise_cons.2 ⟨fun k hk => ?_, ih htail⟩
      rcases mem_mapInsert hk with rfl | hk
      · exact lt_of_le_of_ne (not_lt.1 hlt) (Ne.symm heq)
      · exact hhead k hk

theorem Fields.record_sorted {f : Fields} (h : SortedKeys f.extra) (name : Str) (v : FieldValue) :
    SortedKeys (f.record name v).extra := by
  have hput : ∀ w : JsonValue, SortedKeys (f.put name w).extra := by
    intro w
    unfold Fields.put
    split_ifs
    · exact h
    · exact h
    · exact sortedKeys_mapInsert name w h
  have hstr : ∀ s : Str, SortedKeys (f.recordStr name s).extra := by
    intro s
    unfold Fields.recordStr
    split_ifs
    · exact h
    · exact h
    · exact hput _
  cases v with
  | str s => exact hstr s
  | debug text => exact hstr text
  | i64 n => exact hput _
  | u64 n => exact hput _
  | bool b => exact hput _

/-- The fields of a `system` record have no key twice. -/
theorem Event.recorded_sorted (e : Event) : SortedKeys e.recorded.extra := by
  have hfold : ∀ (fields : List (Str × FieldValue)) (f : Fields), SortedKeys f.extra →
      SortedKeys (fields.foldl (fun f field => f.record field.1 field.2) f).extra := by
    intro fields
    induction fields with
    | nil => intro f hf; exact hf
    | cons field fields ih => exact fun f hf => ih _ (Fields.record_sorted hf _ _)
  exact hfold e.fields _ List.Pairwise.nil

theorem kindOf_audit (r : AuditRecord) : kindOf r.json = some (.str r.event.kind) := by
  simp [kindOf, AuditRecord.json, AuditEvent.json, JsonValue.get?]

theorem kindOf_system (r : SystemRecord) : kindOf r.json = some (.str "system".toList) := by
  simp [kindOf, SystemRecord.json, JsonValue.get?]

/-! ## Reading the log back -/

/-- **The lines of a log are read back as the events that were written.** -/
theorem readLog_writeLog {entries : List (Str × Logged)} (h : ∀ x ∈ entries, x.2.Plain) :
    readLog (writeLog entries) = entries.map fun x => some (x.2.json x.1) := by
  induction entries with
  | nil => rfl
  | cons x entries ih =>
    have hx := formatEvent_event (h x List.mem_cons_self) x.1
    have hline : writeLog (x :: entries) = (x.2.json x.1).text ++ '\n' :: writeLog entries := by
      rw [← hx]
      simp [writeLog]
    have hsplit := Lines.chunks_append '\n' (JsonValue.newline_not_mem_text (x.2.json x.1))
      (writeLog entries)
    have ih' := ih fun y hy => h y (List.mem_cons_of_mem _ hy)
    rw [hline, readLog, hsplit, List.map_cons, List.map_cons, Lines.content_newline,
      JsonValue.read_text]
    exact congrArg _ ih'

/-- **The audit records of a log are the records that were emitted**, in order. -/
theorem auditTrail_writeLog {entries : List (Str × Logged)} (h : ∀ x ∈ entries, x.2.Plain)
    (hkind : ∀ x ∈ entries, ∀ r, x.2.record? = some r → r.event.kind = "audit".toList) :
    auditTrail (writeLog entries) =
      (entries.filterMap fun x => x.2.record?).map AuditRecord.json := by
  rw [auditTrail, readLog_writeLog h]
  clear h
  induction entries with
  | nil => rfl
  | cons x entries ih =>
    obtain ⟨now, x⟩ := x
    have ih' := ih fun y hy => hkind y (List.mem_cons_of_mem _ hy)
    cases x with
    | audit level r =>
      have hr := hkind (now, .audit level r) List.mem_cons_self r rfl
      have hk : kindOf (Logged.json now (.audit level r)) = some (.str "audit".toList) := by
        rw [← hr]
        exact kindOf_audit r
      simp only [List.map_cons, List.filterMap_cons, Option.bind_some, hk, if_pos,
        Logged.record?, ih']
      rfl
    | other e =>
      have hk : kindOf (Logged.json now (.other e)) ≠ some (.str "audit".toList) := by
        rw [show kindOf (Logged.json now (.other e)) = some (.str "system".toList) from
          kindOf_system _]
        decide
      simp only [List.map_cons, List.filterMap_cons, Option.bind_some, if_neg hk,
        Logged.record?, ih']

/-! ## The log of a proxy -/

variable {L : Crates}

/-- A request and how its exchange ended: what `request_filter` found and what `logging` is
told. -/
structure Served where
  session : Session
  env : Env
  transfer : Transfer
  error : Option PingoraError
  durationMs : Nat

/-- What `logging` does at the end of an exchange: the record it emits, unless the filter
discards it. -/
def Served.logged (p : Proxy L) (enabled : Level → Bool) (now : Str) (x : Served) :
    Option (Level × AuditRecord) :=
  logging L enabled x.session x.transfer x.error (requestFilter p x.session x.env).1.ctx now
    x.durationMs

/-- What happens while a proxy runs: an exchange ends, or another event is logged. -/
inductive Happening where
  | exchange (x : Served)
  | event (e : Event)

/-- The entry of a happening, if there is one. -/
def Happening.entry (p : Proxy L) (enabled : Level → Bool) (now : Str) :
    Happening → Option (Str × Logged)
  | .exchange x => (x.logged p enabled now).map fun r => (now, .audit r.1 r.2)
  | .event e => some (now, .other e)

/-- The log of a proxy. -/
def proxyLog (p : Proxy L) (enabled : Level → Bool) (history : List (Str × Happening)) : Str :=
  writeLog (history.filterMap fun h => h.2.entry p enabled h.1)

/-- The record of a happening that is an exchange. -/
def Happening.record? (p : Proxy L) (enabled : Level → Bool) (now : Str) :
    Happening → Option AuditRecord
  | .exchange x => (x.logged p enabled now).map Prod.snd
  | .event _ => none

theorem Served.logged_kind {p : Proxy L} {enabled : Level → Bool} {now : Str} {x : Served}
    {r : Level × AuditRecord} (h : x.logged p enabled now = some r) :
    r.2.event.kind = "audit".toList := by
  unfold Served.logged logging RequestAudit.finish at h
  dsimp only at h
  split_ifs at h
  cases h
  rfl

theorem entries_plain {p : Proxy L} {enabled : Level → Bool} {history : List (Str × Happening)}
    (h : ∀ x ∈ history, ∀ e, x.2 = .event e → (Logged.other e).Plain) :
    ∀ y ∈ history.filterMap (fun x => x.2.entry p enabled x.1), y.2.Plain := by
  intro y hy
  obtain ⟨⟨now, x⟩, hx, hentry⟩ := List.mem_filterMap.1 hy
  cases x with
  | exchange x =>
    obtain ⟨r, _, rfl⟩ := Option.map_eq_some_iff.1 hentry
    trivial
  | event e =>
    cases hentry
    exact h _ hx e rfl

/-- A refused request, and a line that pingora logs after it. -/
def refusedHistory : List (Str × Happening) := [
  ("1970-01-01T00:00:00.000Z".toList,
    .exchange ⟨replaySession, replayEnv, ⟨some 403, 0, 0⟩, none, 1⟩),
  ("1970-01-01T00:00:00.001Z".toList,
    .event ⟨"log".toList, .error, [
      ("message".toList, .debug "Fail to proxy: \"\n\"".toList),
      ("log.target".toList, .str "pingora_proxy".toList)]⟩)]

theorem refusedHistory_plain :
    ∀ x ∈ refusedHistory, ∀ e, x.2 = .event e → (Logged.other e).Plain := by
  intro x hx e he
  simp only [refusedHistory, List.mem_cons, List.not_mem_nil, or_false] at hx
  rcases hx with rfl | rfl
  · cases he
  · cases he
    exact fun htarget => absurd htarget (by decide)

end DenBrowser
