import DenBrowser.Proxy.Reason

/-!
# Clocks and the time windows of a token

The proxy reads two clocks: the wall clock (`SystemTime`), which decides whether a token's
timestamp is acceptable, and the monotonic clock (`Instant`), which ages the replay cache.
`checkDrift` is the check of phase 1, `checkCommitWindow` the check made again when the nonce
is committed.  Both compare whole seconds.

* `checkDrift_ok_iff`, `checkCommitWindow_ok_iff` — what the saturating comparisons accept;
* `checkDrift_error`, `checkCommitWindow_error` — the errors they return;
* `commit_after_drift` — phase 1's window lies inside the commit window.
-/

set_option autoImplicit false

namespace DenBrowser

/-- Nanoseconds in a second.  An `Instant` and a `Duration` are a `Nat` of nanoseconds. -/
def NANOS : Nat := 1000000000

/-- `Duration::from_secs`. -/
def fromSecs (s : Nat) : Nat := s * NANOS

/-- A wall-clock reading: nanoseconds since the Unix epoch.  The platform keeps the seconds
in an `i64`. -/
structure SystemTime where
  nanos : Int
  lower : I64_MIN * NANOS ≤ nanos
  upper : nanos < (I64_MAX + 1) * NANOS
  deriving DecidableEq

/-- `duration_since(UNIX_EPOCH)`: an error before the epoch. -/
def SystemTime.durationSinceEpoch (t : SystemTime) : Option Nat :=
  if 0 ≤ t.nanos then some t.nanos.toNat else none

/-- `unix_now` at a wall-clock reading: whole seconds, and 0 before the epoch. -/
def unixNow (t : SystemTime) : Int := (t.durationSinceEpoch.getD 0 / NANOS : Nat)

def MAX_TS_DRIFT_SECS : Int := 30

def COMMIT_GRACE_SECS : Int := 60

/-- How long a committed nonce is remembered. -/
def NONCE_TTL : Nat := fromSecs 180

/-- The compile-time assertion beside `NONCE_TTL`. -/
theorem nonce_ttl_outlives_span :
    2 * MAX_TS_DRIFT_SECS + 1 + COMMIT_GRACE_SECS < (NONCE_TTL / NANOS : Nat) := by decide

theorem unixNow_eq (t : SystemTime) : unixNow t = max t.nanos 0 / NANOS := by
  unfold unixNow SystemTime.durationSinceEpoch
  split
  · rename_i h
    rw [Option.getD_some, Int.natCast_ediv, Int.toNat_of_nonneg h, Int.max_eq_left h]
  · rename_i h
    rw [Int.max_eq_right (by omega)]
    simp

/-- After the epoch, `unix_now` is the floor of the reading in seconds. -/
theorem unixNow_floor {t : SystemTime} (h : 0 ≤ t.nanos) :
    unixNow t * NANOS ≤ t.nanos ∧ t.nanos < (unixNow t + 1) * NANOS := by
  rw [unixNow_eq, Int.max_eq_left h]
  simp only [NANOS]
  omega

/-! ## Attestation errors -/

/-- `attest::AttestError`. -/
inductive AttestError where
  | badTimestamp
  | timestampDrift (d : Int)
  | commitTooLate (d : Int)
  | invalidNonce (r : Str)
  | nonceReplay
  | invalidToken (r : Str)
  | decryptFailed
  | plaintextMismatch
  | bodyHashMismatch
  deriving DecidableEq

/-- The `Display` text. -/
def AttestError.display : AttestError → Str
  | .badTimestamp => "X-DenBrowser-Ts is not a valid integer".toList
  | .timestampDrift d =>
    "timestamp drift ".toList ++ showInt d ++ "s exceeds ".toList ++ showInt MAX_TS_DRIFT_SECS ++
      "s window".toList
  | .commitTooLate d =>
    "nonce committed ".toList ++ showInt d ++ "s after X-DenBrowser-Ts, past the ".toList ++
      showInt (MAX_TS_DRIFT_SECS + COMMIT_GRACE_SECS) ++
      "s commit window — the body or the checks before forwarding took too long".toList
  | .invalidNonce r => "invalid X-DenBrowser-Nonce: ".toList ++ r
  | .nonceReplay => "nonce already seen — replay rejected".toList
  | .invalidToken r => "invalid token: ".toList ++ r
  | .decryptFailed => "AES-128-GCM authentication failed".toList
  | .plaintextMismatch => "plaintext mismatch".toList
  | .bodyHashMismatch => "body hash mismatch".toList

/-- The audit reason an attestation failure is recorded under. -/
def AttestError.reason : AttestError → Reason
  | .badTimestamp => .timestampInvalid
  | .timestampDrift _ => .timestampOutOfWindow
  | .commitTooLate _ => .timestampOutOfWindow
  | .invalidNonce _ => .nonceInvalid
  | .nonceReplay => .nonceReplay
  | .invalidToken _ => .tokenMalformed
  | .decryptFailed => .tokenDecryptFailed
  | .plaintextMismatch => .tokenRequestMismatch
  | .bodyHashMismatch => .bodyHashMismatch

/-- Every attestation error is recorded at an attestation stage. -/
theorem AttestError.reason_isAttestation (e : AttestError) :
    e.reason.stage.isAttestation = true := by
  cases e <;> rfl

/-! ## The two checks -/

/-- The range an `i64` operation saturates to. -/
def satI64 (n : Int) : Int := max I64_MIN (min I64_MAX n)

/-- `i64::saturating_sub`. -/
def saturatingSub (a b : Int) : Int := satI64 (a - b)

/-- `i64::saturating_abs`. -/
def saturatingAbs (a : Int) : Int := satI64 a.natAbs

/-- Phase 1's timestamp check. -/
def checkDrift (ts now : Int) : Except AttestError Unit :=
  let drift := saturatingAbs (saturatingSub now ts)
  if MAX_TS_DRIFT_SECS < drift then .error (.timestampDrift drift) else .ok ()

/-- The commit-time check. -/
def checkCommitWindow (ts now : Int) : Except AttestError Unit :=
  let elapsed := saturatingSub now ts
  if elapsed < -MAX_TS_DRIFT_SECS then .error (.timestampDrift (saturatingAbs elapsed))
  else if MAX_TS_DRIFT_SECS + COMMIT_GRACE_SECS < elapsed then .error (.commitTooLate elapsed)
  else .ok ()

/-- Saturation does not change a comparison with a bound well inside the range. -/
theorem le_satI64_iff {b n : Int} (h₁ : I64_MIN < b) (h₂ : b ≤ I64_MAX) :
    b ≤ satI64 n ↔ b ≤ n := by
  unfold satI64
  simp only [I64_MIN, I64_MAX] at *
  omega

theorem satI64_le_iff {b n : Int} (h₁ : I64_MIN ≤ b) (h₂ : b < I64_MAX) :
    satI64 n ≤ b ↔ n ≤ b := by
  unfold satI64
  simp only [I64_MIN, I64_MAX] at *
  omega

theorem checkDrift_ok_iff (ts now : Int) :
    checkDrift ts now = .ok () ↔ ts - 30 ≤ now ∧ now ≤ ts + 30 := by
  have hdrift : saturatingAbs (saturatingSub now ts) ≤ 30 ↔ ts - 30 ≤ now ∧ now ≤ ts + 30 := by
    unfold saturatingAbs saturatingSub
    rw [satI64_le_iff (by decide) (by decide)]
    have h₁ := satI64_le_iff (b := 30) (n := now - ts) (by decide) (by decide)
    have h₂ := le_satI64_iff (b := -30) (n := now - ts) (by decide) (by decide)
    omega
  have hmax : MAX_TS_DRIFT_SECS = 30 := rfl
  unfold checkDrift
  by_cases h : MAX_TS_DRIFT_SECS < saturatingAbs (saturatingSub now ts)
  · rw [if_pos h]
    refine ⟨fun h' => (nomatch h'), fun h' => ?_⟩
    have := hdrift.2 h'
    omega
  · rw [if_neg h]
    exact ⟨fun _ => hdrift.1 (by omega), fun _ => rfl⟩

theorem checkCommitWindow_ok_iff (ts now : Int) :
    checkCommitWindow ts now = .ok () ↔ ts - 30 ≤ now ∧ now ≤ ts + 90 := by
  have hlow := le_satI64_iff (b := -30) (n := now - ts) (by decide) (by decide)
  have hhigh := satI64_le_iff (b := 90) (n := now - ts) (by decide) (by decide)
  have hmax : MAX_TS_DRIFT_SECS = 30 := rfl
  have hgrace : COMMIT_GRACE_SECS = 60 := rfl
  unfold checkCommitWindow saturatingSub
  by_cases h : satI64 (now - ts) < -MAX_TS_DRIFT_SECS
  · rw [if_pos h]
    refine ⟨fun h' => (nomatch h'), fun h' => ?_⟩
    omega
  · rw [if_neg h]
    by_cases h' : MAX_TS_DRIFT_SECS + COMMIT_GRACE_SECS < satI64 (now - ts)
    · rw [if_pos h']
      refine ⟨fun h'' => (nomatch h''), fun h'' => ?_⟩
      omega
    · rw [if_neg h']
      exact ⟨fun _ => by omega, fun _ => rfl⟩

/-- Phase 1 fails only with a drift error. -/
theorem checkDrift_error {ts now : Int} {e : AttestError} (h : checkDrift ts now = .error e) :
    ∃ d, e = .timestampDrift d := by
  unfold checkDrift at h
  simp only at h
  split at h
  · cases h; exact ⟨_, rfl⟩
  · cases h

/-- The commit-time check fails only with a drift or a lateness error. -/
theorem checkCommitWindow_error {ts now : Int} {e : AttestError}
    (h : checkCommitWindow ts now = .error e) :
    (∃ d, e = .timestampDrift d) ∨ ∃ d, e = .commitTooLate d := by
  unfold checkCommitWindow at h
  simp only at h
  split at h
  · cases h; exact Or.inl ⟨_, rfl⟩
  · split at h
    · cases h; exact Or.inr ⟨_, rfl⟩
    · cases h

/-- Phase 1's window lies inside the commit window. -/
theorem commit_after_drift {ts now : Int} (h : checkDrift ts now = .ok ()) :
    checkCommitWindow ts now = .ok () := by
  rw [checkDrift_ok_iff] at h
  rw [checkCommitWindow_ok_iff]
  omega

end DenBrowser
