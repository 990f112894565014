import DenBrowser.Lib.Base64
import DenBrowser.Proxy.NonceCache

/-!
# Token verification

`attest::Verifier`.  Phase 1 (`verifyHeaders`) checks the timestamp, the nonce and the token,
and compares every plaintext field but the body hash; phase 2 (`verifyBodyAndCommit`) compares
the body hash and commits the nonce.  The primitives come from third-party crates and are a
parameter, `Crypto`.

* `verifyHeaders_ok_iff` — exactly when phase 1 accepts, and with what result;
* `verifyHeaders_error_stage` — a phase 1 error is recorded at the token stage;
* `commitNonce_ok_iff`, `commitNonce_error` — the commit, and that a refused one leaves the
  cache as it was;
* `verifyBodyAndCommit_ok_iff`, `verifyBodyAndCommit_error` — phase 2.
-/

set_option autoImplicit false

namespace DenBrowser

/-- A SHA-256 digest. -/
abbrev Hash := List.Vector UInt8 32

/-- The third-party primitives: `base64`'s standard engine, `p256`, `sha2` and `aes_gcm`. -/
structure Crypto where
  SecretKey : Type
  PublicKey : Type
  base64Decode : Str → Option Bytes
  fromSec1Bytes : Bytes → Option PublicKey
  /-- The raw bytes of the shared secret. -/
  diffieHellman : SecretKey → PublicKey → Bytes
  sha256 : Bytes → Hash
  /-- Key, nonce, ciphertext with tag. -/
  gcmDecrypt : Bytes → Bytes → Bytes → Option Bytes

/-- Header values and URL fields the verifier compares against the decrypted plaintext. -/
structure AttestInputs where
  ts : Str
  nonceB64 : Str
  tokenB64 : Str
  host : Str
  method : Str
  path : Str
  deriving DecidableEq

/-- How the request body is (or is not) bound to the token. -/
inductive BodyBinding where
  | hash (h : Hash)
  | unbound
  deriving DecidableEq

/-- State carried from phase 1 into phase 2. -/
structure PhaseOne where
  nonce : Nonce
  bodyBinding : BodyBinding
  ts : Int
  deriving DecidableEq

def HEX_HASH_LEN : Nat := 64

/-- ephem_pub(65) + IV(12) + plaintext(≥1) + GCM-tag(16). -/
def TOKEN_MIN_LEN : Nat := 94

def PLAINTEXT_PREFIX : Bytes := asBytes "denbrowser-attest:v2".toList

def UNBOUND_SENTINEL : Bytes := asBytes "unbound".toList

/-- `b'\n'`. -/
def NEWLINE : UInt8 := 10

/-! ## Steps of phase 1 -/

/-- Step 1: the timestamp and its window. -/
def checkTimestamp (i : AttestInputs) (wall : SystemTime) : Except AttestError Int :=
  match parseI64 i.ts with
  | none => .error .badTimestamp
  | some ts =>
    match checkDrift ts (unixNow wall) with
    | .error e => .error e
    | .ok () => .ok ts

/-- Step 2: the nonce's encoding and length. -/
def decodeNonce (K : Crypto) (i : AttestInputs) : Except AttestError Nonce :=
  match K.base64Decode i.nonceB64 with
  | none => .error (.invalidNonce "not base64".toList)
  | some raw =>
    if h : raw.length = NONCE_LEN then .ok ⟨raw, h⟩
    else .error (.invalidNonce "wrong length".toList)

/-- Steps 4 to 6: split the token, agree on the key and decrypt. -/
def decryptToken (K : Crypto) (sk : K.SecretKey) (i : AttestInputs) : Except AttestError Bytes :=
  match K.base64Decode i.tokenB64 with
  | none => .error (.invalidToken "invalid base64".toList)
  | some raw =>
    if raw.length < TOKEN_MIN_LEN then .error (.invalidToken "token too short".toList)
    else
      match K.fromSec1Bytes (raw.take 65) with
      | none => .error (.invalidToken "EC point not on curve".toList)
      | some ephemPub =>
        let digest := K.sha256 (K.diffieHellman sk ephemPub ++ [0, 0, 0, 1])
        match K.gcmDecrypt (digest.toList.take 16) ((raw.drop 65).take 12) (raw.drop 77) with
        | none => .error .decryptFailed
        | some plaintext => .ok plaintext

/-- The value of a hexadecimal digit, either case. -/
def hexDigit (b : UInt8) : Option UInt8 :=
  if 48 ≤ b ∧ b ≤ 57 then some (b - 48)
  else if 97 ≤ b ∧ b ≤ 102 then some (b - 87)
  else if 65 ≤ b ∧ b ≤ 70 then some (b - 55)
  else none

/-- `from_utf8` and `u8::from_str_radix(_, 16)` on a two-byte slice.  The parser takes a
leading `+`; a slice that is not two hexadecimal digits or `+` and one is an error either
way. -/
def hexPair (a b : UInt8) : Option UInt8 :=
  if a = 43 then hexDigit b
  else
    match hexDigit a, hexDigit b with
    | some x, some y => some (16 * x + y)
    | _, _ => none

/-- The `chunks(2)` loop that fills the expected hash. -/
def hexPairs : (n : Nat) → Bytes → Option (List.Vector UInt8 n)
  | 0, [] => some .nil
  | n + 1, a :: b :: rest =>
    match hexPair a b, hexPairs n rest with
    | some x, some v => some (v.cons x)
    | _, _ => none
  | _, _ => none

/-- Step 8: the body binding of the last plaintext field. -/
def parseBinding (field : Bytes) : Except AttestError BodyBinding :=
  if field = UNBOUND_SENTINEL then .ok .unbound
  else if field.length ≠ HEX_HASH_LEN then .error .plaintextMismatch
  else
    match hexPairs 32 field with
    | none => .error .plaintextMismatch
    | some h => .ok (.hash h)

/-- Steps 7 and 8: compare every field of the plaintext but the body hash. -/
def comparePlaintext (i : AttestInputs) (plaintext : Bytes) : Except AttestError BodyBinding :=
  match plaintext.splitOn NEWLINE with
  | [p0, p1, p2, p3, p4, p5, p6] =>
    if p0 ≠ PLAINTEXT_PREFIX ∨ p1 ≠ asBytes i.nonceB64 ∨ p2 ≠ asBytes i.ts ∨
        p3 ≠ asBytes i.host ∨ p4 ≠ asBytes i.method ∨ p5 ≠ asBytes i.path then
      .error .plaintextMismatch
    else parseBinding p6
  | _ => .error .plaintextMismatch

/-- Steps 4 to 8. -/
def openToken (K : Crypto) (sk : K.SecretKey) (i : AttestInputs) :
    Except AttestError BodyBinding :=
  match decryptToken K sk i with
  | .error e => .error e
  | .ok plaintext => comparePlaintext i plaintext

/-- Phase 1.  The wall clock is read for the timestamp check, the cache is looked up (step 3)
once the nonce has been decoded. -/
def verifyHeaders (K : Crypto) (sk : K.SecretKey) (i : AttestInputs) (wall : SystemTime)
    (cache : NonceCache) : Except AttestError PhaseOne :=
  match checkTimestamp i wall with
  | .error e => .error e
  | .ok ts =>
    match decodeNonce K i with
    | .error e => .error e
    | .ok nonce =>
      if cache.contains nonce then .error .nonceReplay
      else
        match openToken K sk i with
        | .error e => .error e
        | .ok binding => .ok ⟨nonce, binding, ts⟩

/-! ## Phase 2 -/

/-- `commit_nonce`, under the cache's lock: the replay check, the commit window at a wall-clock
reading, then the commit at a later monotonic reading. -/
def commitNonce (cache : NonceCache) (p1 : PhaseOne) (wall : SystemTime) (mono : Nat) :
    NonceCache × Except AttestError Unit :=
  if cache.contains p1.nonce then (cache, .error .nonceReplay)
  else
    match checkCommitWindow p1.ts (unixNow wall) with
    | .error e => (cache, .error e)
    | .ok () => cache.commit p1.nonce mono

/-- `verify_body_and_commit`. -/
def verifyBodyAndCommit (cache : NonceCache) (p1 : PhaseOne) (actual : Hash)
    (wall : SystemTime) (mono : Nat) : NonceCache × Except AttestError Unit :=
  match p1.bodyBinding with
  | .hash expected =>
    if expected ≠ actual then (cache, .error .bodyHashMismatch)
    else commitNonce cache p1 wall mono
  | .unbound => commitNonce cache p1 wall mono

/-! ## What phase 1 accepts -/

theorem checkTimestamp_ok_iff {i : AttestInputs} {wall : SystemTime} {ts : Int} :
    checkTimestamp i wall = .ok ts ↔
      parseI64 i.ts = some ts ∧ checkDrift ts (unixNow wall) = .ok () := by
  unfold checkTimestamp
  cases hp : parseI64 i.ts with
  | none => simp
  | some t =>
    dsimp only
    cases hd : checkDrift t (unixNow wall) with
    | error e =>
      simp only [reduceCtorEq, Option.some.injEq, false_iff, not_and]
      rintro rfl
      simp [hd]
    | ok u =>
      simp only [Except.ok.injEq, Option.some.injEq]
      constructor
      · rintro rfl; exact ⟨rfl, hd⟩
      · rintro ⟨rfl, _⟩; rfl

theorem checkTimestamp_error {i : AttestInputs} {wall : SystemTime} {e : AttestError}
    (h : checkTimestamp i wall = .error e) :
    e = .badTimestamp ∨ ∃ d, e = .timestampDrift d := by
  unfold checkTimestamp at h
  split at h
  · cases h; exact Or.inl rfl
  · split at h
    · rename_i hd
      cases h
      exact Or.inr (checkDrift_error hd)
    · cases h

theorem decodeNonce_ok_iff {K : Crypto} {i : AttestInputs} {n : Nonce} :
    decodeNonce K i = .ok n ↔ K.base64Decode i.nonceB64 = some n.toList := by
  unfold decodeNonce
  cases hb : K.base64Decode i.nonceB64 with
  | none => simp
  | some raw =>
    simp only [Option.some.injEq]
    by_cases h : raw.length = NONCE_LEN
    · rw [dif_pos h]
      constructor
      · intro he; cases he; rfl
      · intro he; subst he; rfl
    · rw [dif_neg h]
      refine ⟨fun he => (nomatch he), fun he => ?_⟩
      subst he
      exact absurd n.toList_length h

theorem decodeNonce_error {K : Crypto} {i : AttestInputs} {e : AttestError}
    (h : decodeNonce K i = .error e) : ∃ r, e = .invalidNonce r := by
  unfold decodeNonce at h
  split at h
  · cases h; exact ⟨_, rfl⟩
  · split at h
    · cases h
    · cases h; exact ⟨_, rfl⟩

/-- **Phase 1 accepts exactly when its four steps do.** -/
theorem verifyHeaders_ok_iff {K : Crypto} {sk : K.SecretKey} {i : AttestInputs}
    {wall : SystemTime} {cache : NonceCache} {p1 : PhaseOne} :
    verifyHeaders K sk i wall cache = .ok p1 ↔
      checkTimestamp i wall = .ok p1.ts ∧ decodeNonce K i = .ok p1.nonce ∧
      p1.nonce ∉ cache.seen ∧ openToken K sk i = .ok p1.bodyBinding := by
  unfold verifyHeaders NonceCache.contains
  cases ht : checkTimestamp i wall with
  | error e => simp
  | ok ts =>
    cases hn : decodeNonce K i with
    | error e => simp
    | ok n =>
      by_cases hs : n ∈ cache.seen
      · simp only [hs, decide_true, if_true, reduceCtorEq, Except.ok.injEq, false_iff]
        rintro ⟨_, rfl, hn', _⟩
        exact hn' hs
      · cases ho : openToken K sk i with
        | error e => simp [hs]
        | ok b =>
          simp only [hs, decide_false, Bool.false_eq_true, if_false, Except.ok.injEq]
          constructor
          · rintro rfl; exact ⟨rfl, rfl, hs, rfl⟩
          · rintro ⟨rfl, rfl, _, rfl⟩; rfl

theorem parseBinding_error {field : Bytes} {e : AttestError}
    (h : parseBinding field = .error e) : e = .plaintextMismatch := by
  unfold parseBinding at h
  split at h
  · cases h
  · split at h
    · cases h; rfl
    · split at h
      · cases h; rfl
      · cases h

/-- A plaintext that is refused is refused as a mismatch, whatever is wrong with it. -/
theorem comparePlaintext_error {i : AttestInputs} {plaintext : Bytes} {e : AttestError}
    (h : comparePlaintext i plaintext = .error e) : e = .plaintextMismatch := by
  unfold comparePlaintext at h
  split at h
  · split at h
    · cases h; rfl
    · exact parseBinding_error h
  · cases h; rfl

/-- What opening a token can fail with. -/
theorem openToken_error {K : Crypto} {sk : K.SecretKey} {i : AttestInputs} {e : AttestError}
    (h : openToken K sk i = .error e) :
    (∃ r, e = .invalidToken r) ∨ e = .decryptFailed ∨ e = .plaintextMismatch := by
  unfold openToken at h
  split at h
  · rename_i hd
    cases h
    unfold decryptToken at hd
    split at hd
    · cases hd; exact Or.inl ⟨_, rfl⟩
    · split at hd
      · cases hd; exact Or.inl ⟨_, rfl⟩
      · split at hd
        · cases hd; exact Or.inl ⟨_, rfl⟩
        · simp only at hd
          split at hd
          · cases hd; exact Or.inr (Or.inl rfl)
          · cases hd
  · exact Or.inr (Or.inr (comparePlaintext_error h))

/-- Which of its steps phase 1 fails in. -/
theorem verifyHeaders_error_step {K : Crypto} {sk : K.SecretKey} {i : AttestInputs}
    {wall : SystemTime} {cache : NonceCache} {e : AttestError}
    (h : verifyHeaders K sk i wall cache = .error e) :
    checkTimestamp i wall = .error e ∨ decodeNonce K i = .error e ∨ e = .nonceReplay ∨
      openToken K sk i = .error e := by
  unfold verifyHeaders at h
  split at h
  · rename_i ht
    cases h
    exact Or.inl ht
  · split at h
    · rename_i hn
      cases h
      exact Or.inr (Or.inl hn)
    · split at h
      · cases h
        exact Or.inr (Or.inr (Or.inl rfl))
      · split at h
        · rename_i ho
          cases h
          exact Or.inr (Or.inr (Or.inr ho))
        · cases h

/-- What phase 1 can fail with: neither of the two errors of phase 2. -/
theorem verifyHeaders_error {K : Crypto} {sk : K.SecretKey} {i : AttestInputs}
    {wall : SystemTime} {cache : NonceCache} {e : AttestError}
    (h : verifyHeaders K sk i wall cache = .error e) :
    (∀ d, e ≠ .commitTooLate d) ∧ e ≠ .bodyHashMismatch := by
  obtain ht | hn | rfl | ho := verifyHeaders_error_step h
  · rcases checkTimestamp_error ht with rfl | ⟨d, rfl⟩ <;> simp
  · obtain ⟨r, rfl⟩ := decodeNonce_error hn
    simp
  · simp
  · rcases openToken_error ho with ⟨r, rfl⟩ | rfl | rfl <;> simp

/-- A phase 1 failure is recorded at the token stage. -/
theorem verifyHeaders_error_stage {K : Crypto} {sk : K.SecretKey} {i : AttestInputs}
    {wall : SystemTime} {cache : NonceCache} {e : AttestError}
    (h : verifyHeaders K sk i wall cache = .error e) : e.reason.stage = .attestationToken := by
  have hne := (verifyHeaders_error h).2
  cases e with
  | bodyHashMismatch => exact absurd rfl hne
  | _ => rfl

/-! ## What phase 2 does -/

/-- **The commit succeeds exactly for an unseen nonce inside the commit window.** -/
theorem commitNonce_ok_iff {cache : NonceCache} {p1 : PhaseOne} {wall : SystemTime} {mono : Nat} :
    (commitNonce cache p1 wall mono).2 = .ok () ↔
      p1.nonce ∉ cache.seen ∧ checkCommitWindow p1.ts (unixNow wall) = .ok () := by
  unfold commitNonce NonceCache.contains
  by_cases hs : p1.nonce ∈ cache.seen
  · simp [hs]
  · cases hw : checkCommitWindow p1.ts (unixNow wall) with
    | error e => simp [hs]
    | ok u =>
      obtain ⟨c', hc⟩ := NonceCache.commit_of_not_mem mono hs
      simp [hs, hc]

/-- An accepted commit is a successful `NonceCache::commit` at the monotonic reading. -/
theorem commitNonce_ok {cache : NonceCache} {p1 : PhaseOne} {wall : SystemTime} {mono : Nat}
    (h : (commitNonce cache p1 wall mono).2 = .ok ()) :
    cache.commit p1.nonce mono = ((commitNonce cache p1 wall mono).1, .ok ()) := by
  obtain ⟨hs, hw⟩ := commitNonce_ok_iff.1 h
  obtain ⟨c', hc⟩ := NonceCache.commit_of_not_mem mono hs
  unfold commitNonce NonceCache.contains
  simp [hs, hw, hc]

/-- **A refused commit leaves the cache as it was.** -/
theorem commitNonce_error {cache : NonceCache} {p1 : PhaseOne} {wall : SystemTime} {mono : Nat}
    {e : AttestError} (h : (commitNonce cache p1 wall mono).2 = .error e) :
    (commitNonce cache p1 wall mono).1 = cache ∧
      (e = .nonceReplay ∨ checkCommitWindow p1.ts (unixNow wall) = .error e) := by
  unfold commitNonce NonceCache.contains at *
  by_cases hs : p1.nonce ∈ cache.seen
  · simp only [hs, decide_true, if_true] at h ⊢
    cases h
    exact ⟨trivial, Or.inl rfl⟩
  · simp only [hs, decide_false, Bool.false_eq_true, if_false] at h ⊢
    cases hw : checkCommitWindow p1.ts (unixNow wall) with
    | error e' =>
      simp only [hw] at h ⊢
      cases h
      exact ⟨trivial, Or.inr rfl⟩
    | ok u =>
      obtain ⟨c', hc⟩ := NonceCache.commit_of_not_mem mono hs
      simp only [hw, hc] at h
      cases h

/-- A commit is refused as a replay, as drifted or as late. -/
theorem commitNonce_error_kind {cache : NonceCache} {p1 : PhaseOne} {wall : SystemTime}
    {mono : Nat} {e : AttestError} (h : (commitNonce cache p1 wall mono).2 = .error e) :
    e.reason = .nonceReplay ∨ e.reason = .timestampOutOfWindow := by
  rcases (commitNonce_error h).2 with rfl | hw
  · exact Or.inl rfl
  · rcases checkCommitWindow_error hw with ⟨d, rfl⟩ | ⟨d, rfl⟩ <;> exact Or.inr rfl

/-- The hash a bound body has to match. -/
def PhaseOne.bodyMatches (p1 : PhaseOne) (actual : Hash) : Prop :=
  ∀ expected, p1.bodyBinding = .hash expected → expected = actual

theorem verifyBodyAndCommit_eq (cache : NonceCache) (p1 : PhaseOne) (actual : Hash)
    (wall : SystemTime) (mono : Nat) (h : p1.bodyMatches actual) :
    verifyBodyAndCommit cache p1 actual wall mono = commitNonce cache p1 wall mono := by
  unfold verifyBodyAndCommit
  cases hb : p1.bodyBinding with
  | unbound => rfl
  | hash expected =>
    simp only
    rw [if_neg (by simpa using h expected hb)]

theorem verifyBodyAndCommit_mismatch (cache : NonceCache) (p1 : PhaseOne) (actual : Hash)
    (wall : SystemTime) (mono : Nat) (h : ¬p1.bodyMatches actual) :
    verifyBodyAndCommit cache p1 actual wall mono = (cache, .error .bodyHashMismatch) := by
  unfold verifyBodyAndCommit
  cases hb : p1.bodyBinding with
  | unbound => exact absurd (fun _ he => by rw [hb] at he; cases he) h
  | hash expected =>
    have hne : expected ≠ actual := by
      rintro rfl
      refine h fun e he => ?_
      rw [hb] at he
      cases he
      rfl
    simp only
    rw [if_pos hne]

theorem verifyBodyAndCommit_ok_iff {cache : NonceCache} {p1 : PhaseOne} {actual : Hash}
    {wall : SystemTime} {mono : Nat} :
    (verifyBodyAndCommit cache p1 actual wall mono).2 = .ok () ↔
      p1.bodyMatches actual ∧ p1.nonce ∉ cache.seen ∧
      checkCommitWindow p1.ts (unixNow wall) = .ok () := by
  by_cases h : p1.bodyMatches actual
  · rw [verifyBodyAndCommit_eq _ _ _ _ _ h, commitNonce_ok_iff]
    simp [h]
  · rw [verifyBodyAndCommit_mismatch _ _ _ _ _ h]
    simp [h]

/-- A refusal of phase 2 leaves the cache as it was. -/
theorem verifyBodyAndCommit_error {cache : NonceCache} {p1 : PhaseOne} {actual : Hash}
    {wall : SystemTime} {mono : Nat} {e : AttestError}
    (h : (verifyBodyAndCommit cache p1 actual wall mono).2 = .error e) :
    (verifyBodyAndCommit cache p1 actual wall mono).1 = cache := by
  by_cases hb : p1.bodyMatches actual
  · rw [verifyBodyAndCommit_eq _ _ _ _ _ hb] at h ⊢
    exact (commitNonce_error h).1
  · rw [verifyBodyAndCommit_mismatch _ _ _ _ _ hb]

/-- What phase 2 refuses with. -/
theorem verifyBodyAndCommit_error_kind {cache : NonceCache} {p1 : PhaseOne} {actual : Hash}
    {wall : SystemTime} {mono : Nat} {e : AttestError}
    (h : (verifyBodyAndCommit cache p1 actual wall mono).2 = .error e) :
    e = .bodyHashMismatch ∨ e.reason = .nonceReplay ∨ e.reason = .timestampOutOfWindow := by
  by_cases hb : p1.bodyMatches actual
  · rw [verifyBodyAndCommit_eq _ _ _ _ _ hb] at h
    exact Or.inr (commitNonce_error_kind h)
  · rw [verifyBodyAndCommit_mismatch _ _ _ _ _ hb] at h
    cases h
    exact Or.inl rfl

/-! ## Recorded exchanges -/

/-- A request as a browser made it for a proxy's key: the fields its token commits to, the
token's parts, the shared secret and the digest derived from it. -/
structure Exchange where
  nonce : Bytes
  ts : Str
  host : Str
  method : Str
  path : Str
  bodyField : Bytes
  ephemPub : Bytes
  iv : Bytes
  ctTag : Bytes
  secret : Bytes
  digest : Bytes

/-- The `k` bytes of a number, most significant first. -/
def beBytes : Nat → Nat → Bytes
  | 0, _ => []
  | k + 1, n => UInt8.ofNat (n / 256 ^ k % 256) :: beBytes k n

def Exchange.plaintext (x : Exchange) : Bytes :=
  [NEWLINE].intercalate [PLAINTEXT_PREFIX, asBytes (Base64.encode x.nonce), asBytes x.ts,
    asBytes x.host, asBytes x.method, asBytes x.path, x.bodyField]

/-- The headers and URL fields of the request, as received. -/
def Exchange.inputs (x : Exchange) : AttestInputs where
  ts := x.ts
  nonceB64 := Base64.encode x.nonce
  tokenB64 := Base64.encode (x.ephemPub ++ x.iv ++ x.ctTag)
  host := x.host
  method := x.method
  path := x.path

/-- The first 32 bytes, padded with zeros. -/
def toHash (b : Bytes) : Hash := ⟨(b ++ List.replicate 32 0).take 32, by simp⟩

/-- The primitives as they behave on recorded exchanges. -/
def recorded (xs : List Exchange) : Crypto where
  SecretKey := Unit
  PublicKey := Bytes
  base64Decode := Base64.decode
  fromSec1Bytes b := (xs.find? fun x => x.ephemPub == b).map fun _ => b
  diffieHellman _ q := ((xs.find? fun x => x.ephemPub == q).map Exchange.secret).getD []
  sha256 m :=
    toHash (((xs.find? fun x => x.secret ++ [0, 0, 0, 1] == m).map Exchange.digest).getD [])
  gcmDecrypt k iv ct :=
    (xs.find? fun x => x.digest.take 16 == k && x.iv == iv && x.ctTag == ct).map
      Exchange.plaintext

/-- A recorded request. -/
def exchangeA : Exchange where
  nonce := beBytes 16 0x3d9fc4bde7ceef058d65b00186e79c1f
  ts := "1760000000".toList
  host := "a.example.com".toList
  method := "GET".toList
  path := "/".toList
  bodyField := asBytes "unbound".toList
  ephemPub := beBytes 1 0x04 ++
    beBytes 32 0xc8cf5344a42a39499beabb12835e9ae326a83d0d845419b993d4f980797c4aa1 ++
    beBytes 32 0x7e816891633424781ab13f008ae541e42236e5c4e16a628e47b9bdf2f951eb71
  iv := beBytes 12 0xbb9942ae03a06c7355341b9b
  ctTag := beBytes 32 0x01258481cedd280f1566f7c2095e98075ababadbdfe56a72e64a5048fcddf3ef ++
    beBytes 32 0x84cddb703c674f11156eeef8d28a89ea23d6129fd762d4e68c7ca888eda6fe66 ++
    beBytes 32 0xdb37271ed66dfd8999e8c4542e046636708421882f9d9b4f7a7871c656bb3924 ++
    beBytes 4 0xf233d89d
  secret := beBytes 32 0xac2939a940ac22e0b131b22e701c52188eb6a73e22b5c81cb36e02498f7e3068
  digest := beBytes 32 0xdfe9396f5bece7402057deca3c7a89485c363b85088eae176ae98d7d8d691b10

/-- The wall clock at the recorded request's timestamp. -/
def wallA : SystemTime := ⟨1760000000 * NANOS, by decide, by decide⟩

end DenBrowser
