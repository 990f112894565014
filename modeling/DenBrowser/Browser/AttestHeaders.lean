import DenBrowser.Browser.Hosts
import DenBrowser.Proxy.Attest
import Mathlib.Logic.Function.Basic

/-!
# The browser's attestation headers

`AddAttestHeaders`: the proxy table, the body hash, the token, and what the function leaves in
the request head on each of its exits.  NSS and the services it calls are a parameter, `Nss`;
what a particular call gets from them (or that they fail) is its `AttestCall`.

* `attestValues_attach_iff` — when a call gets as far as writing its headers;
* `addAttestHeaders_owned_iff` — exactly when the headers left in the head are the call's own;
* `addAttestHeaders_redirect` — a token that survives a redirect to a host no proxy claims.
-/

set_option autoImplicit false

namespace DenBrowser

/-! ## The proxy table -/

/-- `DenProxyEntry`, without the TLS pin. -/
structure ProxyEntry where
  name : Str
  domains : List Str
  attestKey : Bytes
  deriving DecidableEq

/-- `ProxyHostMatch`. -/
def proxyHostMatch (host pat : Str) : Bool := hostMatch host pat

/-- `FindProxyForHost`: the first entry with a domain that matches. -/
def findProxyForHost (table : List ProxyEntry) (host : Str) : Option ProxyEntry :=
  table.find? fun entry => entry.domains.any (proxyHostMatch host)

/-- The NSS functions `AddAttestHeaders` uses. -/
structure Nss where
  PrivateKey : Type
  PublicKey : Type
  /-- Decode a SubjectPublicKeyInfo and extract its key. -/
  extractPublicKey : Bytes → Option PublicKey
  /-- The point of a public key, as bytes. -/
  publicValue : PublicKey → Bytes
  /-- `PK11_PubDeriveWithKDF`: ECDH and the X9.63 KDF, 16 bytes. -/
  deriveWithKDF : PrivateKey → PublicKey → Option Bytes
  /-- `PK11_Encrypt` with AES-128-GCM: key, IV and plaintext; the ciphertext with its tag. -/
  encrypt : Bytes → Bytes → Bytes → Option Bytes
  sha256 : Bytes → Hash

/-- `nsresult`, of a failure. -/
abbrev NsError := UInt32

def NS_ERROR_FAILURE : NsError := 0x80004005

/-- The upload stream: whether it can be cloned, and what reading a clone gives. -/
structure UploadStream where
  cloneable : Bool
  clone : Except NsError Unit
  reads : List Bytes
  readError : Option NsError

/-- The URI of the request, as far as it has the two parts. -/
structure Uri where
  asciiHost : Option Str
  pathQueryRef : Option Str

/-- What one call gets from its environment: the time in microseconds, its random bytes and
ephemeral keys, and the outcome of each service that can fail. -/
structure AttestCall (N : Nss) where
  prNow : Int
  prNow_range : I64_MIN ≤ prNow ∧ prNow ≤ I64_MAX
  nonceBytes : Option Nonce
  /-- Whether `mozilla::Base64Encode` finds the memory it needs. -/
  base64Ok : Bytes → Bool
  /-- `do_CreateInstance` of the hasher. -/
  hasher : Bool
  hasherInit : Except NsError Unit
  hasherUpdate : Except NsError Unit
  hasherFinish : Except NsError Unit
  internalSlot : Bool
  keyPair : Option (N.PrivateKey × N.PublicKey)
  iv : Option (List.Vector UInt8 12)
  /-- `GetMachineCertificateBase64`, on Windows. -/
  machineCertBase64 : Option Str

/-- `mozilla::Base64Encode`. -/
def AttestCall.base64Encode {N : Nss} (call : AttestCall N) (b : Bytes) : Option Str :=
  if call.base64Ok b then some (Base64.encode b) else none

section Values

variable (N : Nss) (table : List ProxyEntry)

/-- `GetProxyPublicKey`, with the import of `EnsureProxyKeysLoaded`. -/
def getProxyPublicKey (entry : ProxyEntry) : Option N.PublicKey :=
  match entry.attestKey with
  | 0x30 :: _ => N.extractPublicKey entry.attestKey
  | _ => none

/-- Steps 1 and 2: the host, and the key of the proxy that claims it. -/
def claimedKey (uri : Uri) : Option (Str × N.PublicKey) :=
  match uri.asciiHost with
  | none => none
  | some host =>
    if host.isEmpty then none
    else
      match findProxyForHost table host with
      | none => none
      | some entry => (getProxyPublicKey N entry).map fun key => (host, key)

/-- Step 5: the path and query, without the fragment. -/
def requestPath (pathQueryRef : Str) : Str :=
  let path := pathQueryRef.takeWhile (· != '#')
  if path.isEmpty then "/".toList else path

variable {N}

/-! ### The body hash -/

def kMaxBoundBodyBytes : Nat := 64 * 1024

/-- `ShouldSkipBodyHash`. -/
def shouldSkipBodyHash (upload : Option UploadStream) (uploadLength : Nat) : Bool :=
  match upload with
  | none => false
  | some stream => decide (kMaxBoundBodyBytes < uploadLength) || !stream.cloneable

/-- The read loop of `HashBody`: an empty read is the end of the stream. -/
def hashReads (update : Except NsError Unit) (readError : Option NsError) :
    (hashed : Bytes) → List Bytes → Except NsError Bytes
  | hashed, [] =>
    match readError with
    | none => .ok hashed
    | some rv => .error rv
  | hashed, read :: reads =>
    if read.isEmpty then .ok hashed
    else
      match update with
      | .error rv => .error rv
      | .ok () => hashReads update readError (hashed ++ read) reads

/-- A lowercase hexadecimal digit. -/
def hexLower (n : UInt8) : Char := Nat.digitChar n.toNat

def hexHash (h : Hash) : Str := h.toList.flatMap fun b => [hexLower (b / 16), hexLower (b % 16)]

/-- What `HashBody` reads of the upload stream, through a clone. -/
def clonedBody (update : Except NsError Unit) (upload : Option UploadStream) :
    Except NsError Bytes :=
  match upload with
  | none => .ok []
  | some stream =>
    match stream.clone with
    | .error rv => .error rv
    | .ok () => hashReads update stream.readError [] stream.reads

/-- `HashBody`. -/
def hashBody (call : AttestCall N) (upload : Option UploadStream) : Except NsError Str :=
  if call.hasher = false then .error NS_ERROR_FAILURE
  else
    match call.hasherInit with
    | .error rv => .error rv
    | .ok () =>
      match clonedBody call.hasherUpdate upload with
      | .error rv => .error rv
      | .ok body =>
        match call.hasherFinish with
        | .error rv => .error rv
        | .ok () => .ok (hexHash (N.sha256 body))

/-- Step 7: the body field of the plaintext. -/
def bodyField (call : AttestCall N) (upload : Option UploadStream) (uploadLength : Nat) :
    Except NsError Str :=
  if shouldSkipBodyHash upload uploadLength then .ok "unbound".toList else hashBody call upload

/-! ### The token -/

/-- Step 3. -/
def AttestCall.tsStr (call : AttestCall N) : Str := showInt (call.prNow.tdiv 1000000)

/-- Step 8. -/
def canonicalPlaintext (nonceB64 ts host method path body : Str) : Str :=
  "denbrowser-attest:v2\n".toList ++ nonceB64 ++ ['\n'] ++ ts ++ ['\n'] ++ host ++ ['\n'] ++
    method ++ ['\n'] ++ path ++ ['\n'] ++ body

/-- Steps 9 to 14: seal the plaintext for the proxy's key. -/
def sealToken (call : AttestCall N) (key : N.PublicKey) (plaintext : Str) : Option Str :=
  if call.internalSlot = false then none
  else
    match call.keyPair with
    | none => none
    | some (priv, ephemPub) =>
      match N.deriveWithKDF priv key with
      | none => none
      | some aesKey =>
        match call.iv with
        | none => none
        | some iv =>
          match N.encrypt aesKey iv.toList (asBytes plaintext) with
          | none => none
          | some ct => call.base64Encode (N.publicValue ephemPub ++ iv.toList ++ ct)

/-- What a call comes to before it writes its headers: an early `NS_OK`, a failure, or the three
values. -/
inductive Attach where
  | untouched
  | failed (rv : NsError)
  | attach (ts nonce token : Str)
  deriving DecidableEq

/-- `AddAttestHeaders` up to the point where the headers are written. -/
def attestValues (call : AttestCall N) (method : Str) (uri : Uri)
    (upload : Option UploadStream) (uploadLength : Nat) : Attach :=
  match claimedKey N table uri with
  | none => .untouched
  | some (host, key) =>
    match uri.pathQueryRef with
    | none => .untouched
    | some pathQueryRef =>
      match call.nonceBytes with
      | none => .untouched
      | some nonce =>
        match call.base64Encode nonce.toList with
        | none => .untouched
        | some nonceB64 =>
          match bodyField call upload uploadLength with
          | .error rv => .failed rv
          | .ok body =>
            match sealToken call key (canonicalPlaintext nonceB64 call.tsStr host method
                (requestPath pathQueryRef) body) with
            | none => .untouched
            | some token => .attach call.tsStr nonceB64 token

end Values

/-! ## The request head -/

def X_DENBROWSER_TS : Str := "x-denbrowser-ts".toList

def X_DENBROWSER_NONCE : Str := "x-denbrowser-nonce".toList

def X_DENBROWSER_TOKEN : Str := "x-denbrowser-token".toList

def X_DENBROWSER_MACHINE_CERT : Str := "x-denbrowser-machine-cert".toList

/-- The headers that belong to the browser. -/
def denHeaders : List Str :=
  [X_DENBROWSER_TS, X_DENBROWSER_NONCE, X_DENBROWSER_TOKEN, X_DENBROWSER_MACHINE_CERT]

/-- `nsHttpRequestHead`: the method, and the value of each header by lowercase name. -/
structure RequestHead where
  method : Str
  headers : Str → Option Str

/-- `ClearHeader`. -/
def RequestHead.clearHeader (head : RequestHead) (name : Str) : RequestHead :=
  { head with headers := Function.update head.headers name none }

/-- `SetHeader` without merging; an empty value removes the header. -/
def RequestHead.setHeader (head : RequestHead) (name value : Str) : RequestHead :=
  { head with
    headers := Function.update head.headers name (if value.isEmpty then none else some value) }

@[simp] theorem RequestHead.clearHeader_self (head : RequestHead) (name : Str) :
    (head.clearHeader name).headers name = none := Function.update_self ..

theorem RequestHead.clearHeader_ne (head : RequestHead) {name name' : Str} (h : name' ≠ name) :
    (head.clearHeader name).headers name' = head.headers name' := Function.update_of_ne h ..

theorem RequestHead.setHeader_self (head : RequestHead) (name : Str) {value : Str}
    (h : value ≠ []) : (head.setHeader name value).headers name = some value := by
  show Function.update head.headers name _ name = some value
  rw [Function.update_self, if_neg (by simpa using h)]

theorem RequestHead.setHeader_ne (head : RequestHead) {name name' : Str} (value : Str)
    (h : name' ≠ name) : (head.setHeader name value).headers name' = head.headers name' :=
  Function.update_of_ne h ..

section Head

variable {N : Nss} (table : List ProxyEntry) (call : AttestCall N)

/-- The end of `AddAttestHeaders`: the three headers, and the machine certificate on Windows. -/
def writeHeaders (head : RequestHead) (ts nonce token : Str) : RequestHead :=
  let head := ((head.setHeader X_DENBROWSER_TS ts).setHeader X_DENBROWSER_NONCE nonce).setHeader
    X_DENBROWSER_TOKEN token
  match call.machineCertBase64 with
  | some cert => head.setHeader X_DENBROWSER_MACHINE_CERT cert
  | none => head

/-- `AddAttestHeaders`. -/
def addAttestHeaders (head : RequestHead) (uri : Uri) (upload : Option UploadStream)
    (uploadLength : Nat) : Except NsError Unit × RequestHead :=
  let head := head.clearHeader X_DENBROWSER_MACHINE_CERT
  match attestValues table call head.method uri upload uploadLength with
  | .untouched => (.ok (), head)
  | .failed rv => (.error rv, head)
  | .attach ts nonce token => (.ok (), writeHeaders call head ts nonce token)

end Head

/-! ## Whose headers the head carries -/

section Ownership

variable {N : Nss} (table : List ProxyEntry) (call : AttestCall N) (method : Str) (uri : Uri)
  (upload : Option UploadStream) (uploadLength : Nat)

/-- Every step of the call succeeds, for a host a proxy claims. -/
def Completes : Prop :=
  ∃ host key pathQueryRef nonce nonceB64 body token,
    claimedKey N table uri = some (host, key) ∧ uri.pathQueryRef = some pathQueryRef ∧
    call.nonceBytes = some nonce ∧ call.base64Encode nonce.toList = some nonceB64 ∧
    bodyField call upload uploadLength = .ok body ∧
    sealToken call key (canonicalPlaintext nonceB64 call.tsStr host method
      (requestPath pathQueryRef) body) = some token

/-- The call wrote this header with this value. -/
def SetByCall (name value : Str) : Prop :=
  ∃ ts nonce token, attestValues table call method uri upload uploadLength =
      .attach ts nonce token ∧
    (name = X_DENBROWSER_TS ∧ value = ts ∨ name = X_DENBROWSER_NONCE ∧ value = nonce ∨
      name = X_DENBROWSER_TOKEN ∧ value = token ∨
      name = X_DENBROWSER_MACHINE_CERT ∧ call.machineCertBase64 = some value)

/-- What the browser's ownership of the headers asks of a finished call: on `NS_OK` the head
carries all three fresh headers, for a claimed host, or none of the four; and any of the four
that it carries was written by this call. -/
structure Owned (result : Except NsError Unit × RequestHead) : Prop where
  fresh_or_none : result.1 = .ok () →
    (∃ ts nonce token host entry, attestValues table call method uri upload uploadLength =
        .attach ts nonce token ∧ uri.asciiHost = some host ∧
      findProxyForHost table host = some entry ∧
      result.2.headers X_DENBROWSER_TS = some ts ∧
      result.2.headers X_DENBROWSER_NONCE = some nonce ∧
      result.2.headers X_DENBROWSER_TOKEN = some token) ∨
    ∀ name ∈ denHeaders, result.2.headers name = none
  own : ∀ name ∈ denHeaders, ∀ value, result.2.headers name = some value →
    SetByCall table call method uri upload uploadLength name value

variable {table call method uri upload uploadLength}

theorem claimedKey_some {host : Str} {key : N.PublicKey}
    (h : claimedKey N table uri = some (host, key)) :
    uri.asciiHost = some host ∧ host ≠ [] ∧ ∃ entry,
      findProxyForHost table host = some entry ∧ getProxyPublicKey N entry = some key := by
  unfold claimedKey at h
  split at h
  · cases h
  · rename_i host' hhost
    split at h
    · cases h
    · rename_i hne
      split at h
      · cases h
      · rename_i entry hentry
        obtain ⟨key', hkey, he⟩ := Option.map_eq_some_iff.1 h
        cases he
        exact ⟨hhost, by simpa using hne, entry, hentry, hkey⟩

/-- The values a call writes, step by step. -/
theorem attestValues_attach {ts nonceB64 token : Str}
    (h : attestValues table call method uri upload uploadLength = .attach ts nonceB64 token) :
    ∃ host key pathQueryRef nonce body,
      claimedKey N table uri = some (host, key) ∧ uri.pathQueryRef = some pathQueryRef ∧
      call.nonceBytes = some nonce ∧ call.base64Encode nonce.toList = some nonceB64 ∧
      bodyField call upload uploadLength = .ok body ∧ ts = call.tsStr ∧
      sealToken call key (canonicalPlaintext nonceB64 ts host method
        (requestPath pathQueryRef) body) = some token := by
  unfold attestValues at h
  split at h
  · cases h
  rename_i host key hkey
  split at h
  · cases h
  rename_i path hpath
  split at h
  · cases h
  rename_i nonce hnonce
  split at h
  · cases h
  rename_i hb64
  split at h
  · cases h
  rename_i body hbody
  split at h
  · cases h
  rename_i hseal
  cases h
  exact ⟨host, key, path, nonce, body, hkey, hpath, hnonce, hb64, hbody, rfl, hseal⟩

/-- A call writes its headers exactly when every step succeeds. -/
theorem attestValues_attach_iff :
    (∃ ts nonce token, attestValues table call method uri upload uploadLength =
      .attach ts nonce token) ↔ Completes table call method uri upload uploadLength := by
  constructor
  · rintro ⟨ts, nonceB64, token, h⟩
    obtain ⟨host, key, path, nonce, body, hkey, hpath, hnonce, hb64, hbody, rfl, hseal⟩ :=
      attestValues_attach h
    exact ⟨host, key, path, nonce, nonceB64, body, token, hkey, hpath, hnonce, hb64, hbody, hseal⟩
  · rintro ⟨host, key, path, nonce, nonceB64, body, token, hkey, hpath, hnonce, hb64, hbody,
      hseal⟩
    refine ⟨call.tsStr, nonceB64, token, ?_⟩
    unfold attestValues
    simp only [hkey, hpath, hnonce, hb64, hbody, hseal]

/-- The parts of a sealed token. -/
theorem sealToken_some {key : N.PublicKey} {plaintext token : Str}
    (h : sealToken call key plaintext = some token) :
    ∃ priv ephemPub aesKey iv ct, call.keyPair = some (priv, ephemPub) ∧
      N.deriveWithKDF priv key = some aesKey ∧ call.iv = some iv ∧
      N.encrypt aesKey iv.toList (asBytes plaintext) = some ct ∧
      call.base64Encode (N.publicValue ephemPub ++ iv.toList ++ ct) = some token := by
  unfold sealToken at h
  split at h
  · cases h
  split at h
  · cases h
  rename_i priv ephemPub hpair
  split at h
  · cases h
  rename_i aesKey hkey
  split at h
  · cases h
  rename_i iv hiv
  split at h
  · cases h
  rename_i ct hct
  exact ⟨priv, ephemPub, aesKey, iv, ct, hpair, hkey, hiv, hct, h⟩

theorem base64Encode_some {b : Bytes} {s : Str} (h : call.base64Encode b = some s) :
    s = Base64.encode b := by
  unfold AttestCall.base64Encode at h
  split at h
  · exact (Option.some.inj h).symm
  · cases h

/-- None of the values a call writes is empty. -/
theorem attestValues_nonempty {ts nonceB64 token : Str}
    (h : attestValues table call method uri upload uploadLength = .attach ts nonceB64 token) :
    ts ≠ [] ∧ nonceB64 ≠ [] ∧ token ≠ [] := by
  obtain ⟨host, key, path, nonce, body, _, _, _, hb64, _, rfl, hseal⟩ := attestValues_attach h
  obtain ⟨_, _, _, iv, _, _, _, _, _, htoken⟩ := sealToken_some hseal
  have hlen : ∀ {n : Nat} (v : List.Vector UInt8 (n + 1)), v.toList ≠ [] := by
    intro n v hv
    have := v.toList_length
    rw [hv] at this
    cases this
  refine ⟨showInt_ne_nil _, ?_, ?_⟩
  · rw [base64Encode_some hb64]
    exact Base64.encode_ne_nil (hlen nonce)
  · rw [base64Encode_some htoken]
    apply Base64.encode_ne_nil
    intro hnil
    simp only [List.append_eq_nil_iff] at hnil
    exact hlen iv hnil.1.2

/-- The machine certificate is written after the three headers, and under its own name. -/
theorem writeHeaders_ne (call : AttestCall N) {head : RequestHead} {ts nonce token name : Str}
    (h : name ≠ X_DENBROWSER_MACHINE_CERT) :
    (writeHeaders call head ts nonce token).headers name =
      (((head.setHeader X_DENBROWSER_TS ts).setHeader X_DENBROWSER_NONCE nonce).setHeader
        X_DENBROWSER_TOKEN token).headers name := by
  unfold writeHeaders
  cases call.machineCertBase64 with
  | none => rfl
  | some cert => exact RequestHead.setHeader_ne _ _ h

theorem writeHeaders_cert (call : AttestCall N) {head : RequestHead} {ts nonce token value : Str}
    (hclear : head.headers X_DENBROWSER_MACHINE_CERT = none)
    (h : (writeHeaders call head ts nonce token).headers X_DENBROWSER_MACHINE_CERT =
      some value) : call.machineCertBase64 = some value := by
  unfold writeHeaders at h
  cases hcert : call.machineCertBase64 with
  | none =>
    rw [hcert] at h
    dsimp only at h
    rw [RequestHead.setHeader_ne _ _ (by decide), RequestHead.setHeader_ne _ _ (by decide),
      RequestHead.setHeader_ne _ _ (by decide), hclear] at h
    cases h
  | some cert =>
    rw [hcert] at h
    by_cases hempty : cert = []
    · rw [hempty] at h
      simp [RequestHead.setHeader] at h
    · rw [← h]
      exact (RequestHead.setHeader_self _ _ hempty).symm

/-- What `writeHeaders` leaves of the four headers. -/
theorem writeHeaders_headers (call : AttestCall N) {head : RequestHead} {ts nonce token : Str}
    (hclear : head.headers X_DENBROWSER_MACHINE_CERT = none) (hts : ts ≠ []) (hnonce : nonce ≠ [])
    (htoken : token ≠ []) :
    (writeHeaders call head ts nonce token).headers X_DENBROWSER_TS = some ts ∧
      (writeHeaders call head ts nonce token).headers X_DENBROWSER_NONCE = some nonce ∧
      (writeHeaders call head ts nonce token).headers X_DENBROWSER_TOKEN = some token ∧
      ∀ value, (writeHeaders call head ts nonce token).headers X_DENBROWSER_MACHINE_CERT =
        some value → call.machineCertBase64 = some value := by
  refine ⟨?_, ?_, ?_, fun value => writeHeaders_cert call hclear⟩
  · rw [writeHeaders_ne _ (by decide), RequestHead.setHeader_ne _ _ (by decide),
      RequestHead.setHeader_ne _ _ (by decide), RequestHead.setHeader_self _ _ hts]
  · rw [writeHeaders_ne _ (by decide), RequestHead.setHeader_ne _ _ (by decide),
      RequestHead.setHeader_self _ _ hnonce]
  · rw [writeHeaders_ne _ (by decide), RequestHead.setHeader_self _ _ htoken]

/-- A call that writes nothing leaves the other three headers as they were. -/
theorem addAttestHeaders_early {head : RequestHead}
    (h : ¬Completes table call head.method uri upload uploadLength) :
    (addAttestHeaders table call head uri upload uploadLength).2 =
      head.clearHeader X_DENBROWSER_MACHINE_CERT := by
  rw [← attestValues_attach_iff] at h
  unfold addAttestHeaders
  have hmethod : (head.clearHeader X_DENBROWSER_MACHINE_CERT).method = head.method := rfl
  dsimp only
  rw [hmethod]
  cases hv : attestValues table call head.method uri upload uploadLength with
  | untouched => rfl
  | failed rv => rfl
  | attach ts nonce token => exact absurd ⟨ts, nonce, token, hv⟩ h

theorem addAttestHeaders_attach {head : RequestHead} {ts nonce token : Str}
    (h : attestValues table call head.method uri upload uploadLength = .attach ts nonce token) :
    addAttestHeaders table call head uri upload uploadLength =
      (.ok (), writeHeaders call (head.clearHeader X_DENBROWSER_MACHINE_CERT) ts nonce token) := by
  unfold addAttestHeaders
  dsimp only
  rw [show (head.clearHeader X_DENBROWSER_MACHINE_CERT).method = head.method from rfl, h]

theorem owned_of_completes {head : RequestHead}
    (h : Completes table call head.method uri upload uploadLength) :
    Owned table call head.method uri upload uploadLength
      (addAttestHeaders table call head uri upload uploadLength) := by
  obtain ⟨ts, nonce, token, hv⟩ := attestValues_attach_iff.2 h
  obtain ⟨hts, hnonce, htoken⟩ := attestValues_nonempty hv
  obtain ⟨h1, h2, h3, h4⟩ := writeHeaders_headers call
    (head.clearHeader_self X_DENBROWSER_MACHINE_CERT) hts hnonce htoken
  obtain ⟨host, key, _, _, _, hkey, _⟩ := attestValues_attach hv
  obtain ⟨hhost, _, entry, hentry, _⟩ := claimedKey_some hkey
  rw [addAttestHeaders_attach hv]
  refine ⟨fun _ => Or.inl ⟨ts, nonce, token, host, entry, hv, hhost, hentry, h1, h2, h3⟩, ?_⟩
  intro name hname value hvalue
  refine ⟨ts, nonce, token, hv, ?_⟩
  simp only [denHeaders, List.mem_cons, List.not_mem_nil, or_false] at hname
  rcases hname with rfl | rfl | rfl | rfl
  · rw [h1] at hvalue
    exact Or.inl ⟨rfl, (Option.some.inj hvalue).symm⟩
  · rw [h2] at hvalue
    exact Or.inr (Or.inl ⟨rfl, (Option.some.inj hvalue).symm⟩)
  · rw [h3] at hvalue
    exact Or.inr (Or.inr (Or.inl ⟨rfl, (Option.some.inj hvalue).symm⟩))
  · exact Or.inr (Or.inr (Or.inr ⟨rfl, h4 value hvalue⟩))

/-- What a call that ends early leaves was there before it, and is not its own. -/
theorem owned_iff_of_early {head : RequestHead}
    (h : ¬Completes table call head.method uri upload uploadLength) :
    Owned table call head.method uri upload uploadLength
        (addAttestHeaders table call head uri upload uploadLength) ↔
      head.headers X_DENBROWSER_TS = none ∧ head.headers X_DENBROWSER_NONCE = none ∧
        head.headers X_DENBROWSER_TOKEN = none := by
  have hkept : ∀ name, name ≠ X_DENBROWSER_MACHINE_CERT →
      (addAttestHeaders table call head uri upload uploadLength).2.headers name =
        head.headers name := by
    intro name hname
    rw [addAttestHeaders_early h]
    exact RequestHead.clearHeader_ne _ hname
  constructor
  · intro howned
    have hnone : ∀ name ∈ denHeaders, name ≠ X_DENBROWSER_MACHINE_CERT →
        head.headers name = none := by
      intro name hden hname
      cases hval : head.headers name with
      | none => rfl
      | some value =>
        rw [← hkept name hname] at hval
        obtain ⟨ts, nonce, token, hv, _⟩ := howned.own name hden value hval
        exact absurd (attestValues_attach_iff.1 ⟨ts, nonce, token, hv⟩) h
    exact ⟨hnone _ (by decide) (by decide), hnone _ (by decide) (by decide),
      hnone _ (by decide) (by decide)⟩
  · rintro ⟨hts, hnonce, htoken⟩
    have hbare : ∀ name ∈ denHeaders,
        (addAttestHeaders table call head uri upload uploadLength).2.headers name = none := by
      intro name hname
      simp only [denHeaders, List.mem_cons, List.not_mem_nil, or_false] at hname
      rcases hname with rfl | rfl | rfl | rfl
      · rw [hkept _ (by decide), hts]
      · rw [hkept _ (by decide), hnonce]
      · rw [hkept _ (by decide), htoken]
      · rw [addAttestHeaders_early h]
        exact RequestHead.clearHeader_self ..
    refine ⟨fun _ => Or.inr hbare, ?_⟩
    intro name hname value hvalue
    rw [hbare name hname] at hvalue
    cases hvalue

/-- **Whose headers a finished call leaves.**  The head's four headers are the call's own, or
absent, exactly when every step of the call succeeds for a claimed host, or the head came
without a timestamp, nonce and token header. -/
theorem addAttestHeaders_owned_iff (head : RequestHead) :
    Owned table call head.method uri upload uploadLength
        (addAttestHeaders table call head uri upload uploadLength) ↔
      Completes table call head.method uri upload uploadLength ∨
        (head.headers X_DENBROWSER_TS = none ∧ head.headers X_DENBROWSER_NONCE = none ∧
          head.headers X_DENBROWSER_TOKEN = none) := by
  by_cases hc : Completes table call head.method uri upload uploadLength
  · exact ⟨fun _ => Or.inl hc, fun _ => owned_of_completes hc⟩
  · rw [owned_iff_of_early hc]
    exact ⟨Or.inr, fun h => h.resolve_left hc⟩

end Ownership

/-! ## A redirect -/

/-- The public key of a recorded proxy: a P-256 SubjectPublicKeyInfo. -/
def recordedKey : Bytes :=
  beBytes 32 0x3059301306072a8648ce3d020106082a8648ce3d0301070342000495cc8d7a00 ++
    beBytes 32 0xcf1cd75aa1681a1ad763de21beaffc59787a38ff7a2e2f7e0f580db38da6f9c4 ++
    beBytes 27 0x627b41b2a81de54c366e554a2680b2244754be079b7c607f3bc411

/-- NSS as it behaves on a recorded exchange with that proxy. -/
def recordedNss (x : Exchange) (sha256 : Bytes → Hash) : Nss where
  PrivateKey := Unit
  PublicKey := Bytes
  extractPublicKey der := if der.length = 91 then some (der.drop 26) else none
  publicValue point := point
  deriveWithKDF _ key := if key = recordedKey.drop 26 then some (x.digest.take 16) else none
  encrypt key iv plaintext :=
    if key = x.digest.take 16 ∧ iv = x.iv ∧ plaintext = x.plaintext then some x.ctTag else none
  sha256 := sha256

/-- A call in which every service succeeds. -/
def smoothCall {N : Nss} (prNow : Int) (h : I64_MIN ≤ prNow ∧ prNow ≤ I64_MAX) (nonce : Nonce)
    (keyPair : N.PrivateKey × N.PublicKey) (iv : List.Vector UInt8 12) : AttestCall N where
  prNow := prNow
  prNow_range := h
  nonceBytes := some nonce
  base64Ok _ := true
  hasher := true
  hasherInit := .ok ()
  hasherUpdate := .ok ()
  hasherFinish := .ok ()
  internalSlot := true
  keyPair := some keyPair
  iv := some iv
  machineCertBase64 := none

/-- The head of a request that was attested for its proxy and then redirected. -/
def redirectedHead : RequestHead where
  method := "GET".toList
  headers name :=
    if name = X_DENBROWSER_TS then some exchangeA.inputs.ts
    else if name = X_DENBROWSER_NONCE then some exchangeA.inputs.nonceB64
    else if name = X_DENBROWSER_TOKEN then some exchangeA.inputs.tokenB64
    else none

def recordedTable : List ProxyEntry :=
  [⟨"partner".toList, ["a.example.com".toList], recordedKey⟩]

/-- The redirect's target, which no proxy claims. -/
def redirectTarget : Uri := ⟨some "other.example.net".toList, some "/".toList⟩

/-- The call for the redirected request. -/
def redirectCall : AttestCall (recordedNss exchangeA fun m => toHash m) :=
  smoothCall 1760000001000000 (by decide) ⟨exchangeA.nonce, by decide⟩
    ((), exchangeA.ephemPub) ⟨exchangeA.iv, by decide⟩

/-- **A redirect leaks the token**: for a host no proxy claims the call returns `NS_OK` and
leaves the headers of the earlier attempt in the head. -/
theorem addAttestHeaders_redirect :
    let result := addAttestHeaders recordedTable redirectCall redirectedHead redirectTarget none 0
    result.1 = .ok () ∧ findProxyForHost recordedTable "other.example.net".toList = none ∧
      result.2.headers X_DENBROWSER_TOKEN = some exchangeA.inputs.tokenB64 ∧
      ¬Owned recordedTable redirectCall redirectedHead.method redirectTarget none 0 result := by
  have huntouched : attestValues recordedTable redirectCall redirectedHead.method redirectTarget
      none 0 = .untouched := by decide
  have hresult : addAttestHeaders recordedTable redirectCall redirectedHead redirectTarget none 0 =
      (.ok (), redirectedHead.clearHeader X_DENBROWSER_MACHINE_CERT) := by
    unfold addAttestHeaders
    dsimp only
    rw [show (redirectedHead.clearHeader X_DENBROWSER_MACHINE_CERT).method =
      redirectedHead.method from rfl, huntouched]
  have htoken : (redirectedHead.clearHeader X_DENBROWSER_MACHINE_CERT).headers
      X_DENBROWSER_TOKEN = some exchangeA.inputs.tokenB64 := by
    rw [RequestHead.clearHeader_ne _ (by decide)]
    rfl
  dsimp only
  rw [hresult]
  refine ⟨rfl, by decide, htoken, fun howned => ?_⟩
  obtain ⟨ts, nonce, token, hattach, _⟩ := howned.own _ (by decide) _ htoken
  rw [huntouched] at hattach
  cases hattach

end DenBrowser
