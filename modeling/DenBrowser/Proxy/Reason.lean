import DenBrowser.Text

/-!
# Audit reasons

The table of `audit::Reason`: every reason a request can be refused or fail with, its
machine-readable code, the pipeline stage it is detected at and its risk.

* `Reason.code_injective` — the codes tell the reasons apart;
* `Reason.risk_ne_info` — no reason is of risk `info`;
* `Reason.risk_critical_iff` — the two critical reasons.
-/

set_option autoImplicit false

namespace DenBrowser

/-- How much attention an audit event deserves. -/
inductive Risk where
  | info | low | medium | high | critical
  deriving DecidableEq, Repr

/-- Where in the request pipeline a failure happened. -/
inductive Stage where
  | rateLimit | attestationHeaders | machineIdentity | attestationToken | attestationBody
  | upstream | downstream | internal
  deriving DecidableEq, Repr

/-- Whether a failure at this stage is a failure of attestation proper. -/
def Stage.isAttestation : Stage → Bool
  | .attestationHeaders | .attestationToken | .attestationBody => true
  | _ => false

/-- Why a request was refused or failed. -/
inductive Reason where
  | rateLimited | noAttestationHeaders | incompleteAttestationHeaders | machineCertMissing
  | machineCertMalformed | machineCertNoCommonName | machineCertUnsafeCommonName
  | machineHostnameNotAllowed | machineCertExpired | machineCertNotYetValid
  | machineCertUntrusted | machineHostnameUnresolvable | machineAddressMismatch
  | machineNoClientAddress | timestampInvalid | timestampOutOfWindow | nonceInvalid
  | nonceReplay | tokenMalformed | tokenDecryptFailed | tokenRequestMismatch | bodyTooLarge
  | bodyHashMismatch | bodyReadFailed | requestMalformed | upstreamError | downstreamError
  | internalError
  deriving DecidableEq, Repr

/-- One row of the `reasons!` table. -/
structure ReasonRow where
  code : String
  stage : Stage
  risk : Risk
  deriving DecidableEq

/-- The `reasons!` table, in its order. -/
def Reason.row : Reason → ReasonRow
  | .rateLimited => ⟨"rate_limited", .rateLimit, .medium⟩
  | .noAttestationHeaders => ⟨"no_attestation_headers", .attestationHeaders, .low⟩
  | .incompleteAttestationHeaders =>
    ⟨"incomplete_attestation_headers", .attestationHeaders, .high⟩
  | .machineCertMissing => ⟨"machine_cert_missing", .machineIdentity, .medium⟩
  | .machineCertMalformed => ⟨"machine_cert_malformed", .machineIdentity, .high⟩
  | .machineCertNoCommonName => ⟨"machine_cert_no_common_name", .machineIdentity, .high⟩
  | .machineCertUnsafeCommonName =>
    ⟨"machine_cert_unsafe_common_name", .machineIdentity, .high⟩
  | .machineHostnameNotAllowed => ⟨"machine_hostname_not_allowed", .machineIdentity, .high⟩
  | .machineCertExpired => ⟨"machine_cert_expired", .machineIdentity, .medium⟩
  | .machineCertNotYetValid => ⟨"machine_cert_not_yet_valid", .machineIdentity, .medium⟩
  | .machineCertUntrusted => ⟨"machine_cert_untrusted", .machineIdentity, .high⟩
  | .machineHostnameUnresolvable =>
    ⟨"machine_hostname_unresolvable", .machineIdentity, .medium⟩
  | .machineAddressMismatch => ⟨"machine_address_mismatch", .machineIdentity, .high⟩
  | .machineNoClientAddress => ⟨"machine_no_client_address", .machineIdentity, .medium⟩
  | .timestampInvalid => ⟨"timestamp_invalid", .attestationToken, .high⟩
  | .timestampOutOfWindow => ⟨"timestamp_out_of_window", .attestationToken, .medium⟩
  | .nonceInvalid => ⟨"nonce_invalid", .attestationToken, .high⟩
  | .nonceReplay => ⟨"nonce_replay", .attestationToken, .high⟩
  | .tokenMalformed => ⟨"token_malformed", .attestationToken, .high⟩
  | .tokenDecryptFailed => ⟨"token_decrypt_failed", .attestationToken, .high⟩
  | .tokenRequestMismatch => ⟨"token_request_mismatch", .attestationToken, .critical⟩
  | .bodyTooLarge => ⟨"body_too_large", .attestationBody, .medium⟩
  | .bodyHashMismatch => ⟨"body_hash_mismatch", .attestationBody, .critical⟩
  | .bodyReadFailed => ⟨"body_read_failed", .downstream, .low⟩
  | .requestMalformed => ⟨"request_malformed", .downstream, .high⟩
  | .upstreamError => ⟨"upstream_error", .upstream, .medium⟩
  | .downstreamError => ⟨"downstream_error", .downstream, .low⟩
  | .internalError => ⟨"internal_error", .internal, .medium⟩

def Reason.code (r : Reason) : Str := r.row.code.toList

def Reason.stage (r : Reason) : Stage := r.row.stage

def Reason.risk (r : Reason) : Risk := r.row.risk

/-- The codes tell the reasons apart. -/
theorem Reason.code_injective : Function.Injective Reason.code := by
  intro r s h
  have h' : r.row.code = s.row.code := String.toList_inj.1 h
  revert h'
  cases r <;> cases s <;> decide

/-- No reason is of risk `info`: that level is kept for requests that were not refused. -/
theorem Reason.risk_ne_info (r : Reason) : r.risk ≠ .info := by
  cases r <;> decide

/-- The two critical reasons. -/
theorem Reason.risk_critical_iff (r : Reason) :
    r.risk = .critical ↔ r = .tokenRequestMismatch ∨ r = .bodyHashMismatch := by
  cases r <;> decide

end DenBrowser
