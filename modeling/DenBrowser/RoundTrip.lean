import DenBrowser.Browser.AttestHeaders
import DenBrowser.Proxy.Request
import Mathlib.Data.Vector.Basic

/-!
# The attestation round trip

The browser seals a request, the proxy opens it: two implementations of one token format.  What
each side's primitives owe the other is `Interoperates`, what the browser's URL parser and upload
stream owe `AddAttestHeaders` is `Uri.WellFormed` and `DescribesBody`, and what arrives at the
proxy is `Receives`.

* `comparePlaintext_canonical` — the proxy reads the browser's plaintext field by field;
* `openToken_sealToken` — a sealed token opens, to the binding of its body field;
* `attest_round_trip` — the headers of a claimed request are accepted, with the binding the
  browser chose, and its body is never too large.
-/

set_option autoImplicit false

namespace DenBrowser

/-! ## The plaintext -/

theorem newline_not_mem_encode (b : Bytes) : '\n' ∉ Base64.encode b := by
  intro h
  rcases Base64.mem_encode h with h | h
  · revert h
    decide
  · revert h
    decide

/-- `verify_headers` splits the browser's plaintext into the fields it was made of. -/
theorem splitOn_canonicalPlaintext {nonceB64 ts host method path body : Str}
    (hnonce : '\n' ∉ nonceB64) (hts : '\n' ∉ ts) (hhost : '\n' ∉ host) (hmethod : '\n' ∉ method)
    (hpath : '\n' ∉ path) (hbody : '\n' ∉ body) :
    (asBytes (canonicalPlaintext nonceB64 ts host method path body)).splitOn NEWLINE =
      [PLAINTEXT_PREFIX, asBytes nonceB64, asBytes ts, asBytes host, asBytes method,
        asBytes path, asBytes body] := by
  have hjoin : asBytes (canonicalPlaintext nonceB64 ts host method path body) =
      [NEWLINE].intercalate [PLAINTEXT_PREFIX, asBytes nonceB64, asBytes ts, asBytes host,
        asBytes method, asBytes path, asBytes body] := by
    have hprefix : asBytes "denbrowser-attest:v2\n".toList = PLAINTEXT_PREFIX ++ [NEWLINE] := by
      decide
    have hnewline : asBytes ['\n'] = [NEWLINE] := by decide
    unfold canonicalPlaintext
    simp only [asBytes_append, hprefix, hnewline, List.intercalate, List.intersperse,
      List.flatten_cons, List.flatten_nil, List.append_assoc, List.append_nil]
  rw [hjoin, List.splitOn_intercalate NEWLINE ?_ (List.cons_ne_nil _ _)]
  intro field hfield
  simp only [List.mem_cons, List.not_mem_nil, or_false] at hfield
  rcases hfield with rfl | rfl | rfl | rfl | rfl | rfl | rfl
  · decide
  · exact newline_not_mem_asBytes hnonce
  · exact newline_not_mem_asBytes hts
  · exact newline_not_mem_asBytes hhost
  · exact newline_not_mem_asBytes hmethod
  · exact newline_not_mem_asBytes hpath
  · exact newline_not_mem_asBytes hbody

/-- The comparison of `verify_headers` against the browser's plaintext comes down to the body
field. -/
theorem comparePlaintext_canonical {i : AttestInputs} {body : Str} (hnonce : '\n' ∉ i.nonceB64)
    (hts : '\n' ∉ i.ts) (hhost : '\n' ∉ i.host) (hmethod : '\n' ∉ i.method)
    (hpath : '\n' ∉ i.path) (hbody : '\n' ∉ body) :
    comparePlaintext i
        (asBytes (canonicalPlaintext i.nonceB64 i.ts i.host i.method i.path body)) =
      parseBinding (asBytes body) := by
  unfold comparePlaintext
  rw [splitOn_canonicalPlaintext hnonce hts hhost hmethod hpath hbody]
  simp only [ne_eq, not_true_eq_false, or_self, if_false]

/-! ## The body field -/

/-- The byte a hexadecimal digit is written as reads back as the digit. -/
theorem hexDigit_hexLower {n : UInt8} (h : n < 16) :
    hexLower n ≠ '\n' ∧ ∃ p, asBytes [hexLower n] = [p] ∧ p ≠ 43 ∧ hexDigit p = some n := by
  have key : ∀ k < 16, hexLower (UInt8.ofNat k) ≠ '\n' ∧ asBytes [hexLower (UInt8.ofNat k)] =
      [UInt8.ofNat (Nat.digitChar k).toNat] ∧ UInt8.ofNat (Nat.digitChar k).toNat ≠ 43 ∧
      hexDigit (UInt8.ofNat (Nat.digitChar k).toNat) = some (UInt8.ofNat k) := by
    decide
  have hk := key n.toNat (UInt8.lt_iff_toNat_lt.1 h)
  rw [UInt8.ofNat_toNat] at hk
  exact ⟨hk.1, _, hk.2⟩

theorem high_lt (b : UInt8) : b / 16 < 16 := by
  have hb := b.toNat_lt
  rw [UInt8.lt_iff_toNat_lt, UInt8.toNat_div]
  show b.toNat / 16 < 16
  omega

theorem low_lt (b : UInt8) : b % 16 < 16 := by
  rw [UInt8.lt_iff_toNat_lt, UInt8.toNat_mod]
  show b.toNat % 16 < 16
  omega

theorem hexPair_hexLower (b : UInt8) :
    ∃ p q, asBytes [hexLower (b / 16), hexLower (b % 16)] = [p, q] ∧ hexPair p q = some b := by
  have hb := b.toNat_lt
  obtain ⟨_, p, hp, hplus, hhigh⟩ := hexDigit_hexLower (high_lt b)
  obtain ⟨_, q, hq, _, hlow⟩ := hexDigit_hexLower (low_lt b)
  refine ⟨p, q, ?_, ?_⟩
  · rw [← List.singleton_append, asBytes_append, hp, hq]
    rfl
  · have hsum : 16 * (b / 16) + b % 16 = b := by
      rw [← UInt8.toNat_inj, UInt8.toNat_add, UInt8.toNat_mul, UInt8.toNat_div, UInt8.toNat_mod]
      show (16 * (b.toNat / 16) % 256 + b.toNat % 16) % 256 = b.toNat
      omega
    unfold hexPair
    rw [if_neg hplus, hhigh, hlow]
    simp only [hsum]

/-- The `chunks(2)` loop reads back the digits `HashBody` wrote. -/
theorem hexPairs_hexDigits {n : Nat} (v : List.Vector UInt8 n) :
    hexPairs n (asBytes (v.toList.flatMap fun b => [hexLower (b / 16), hexLower (b % 16)])) =
      some v := by
  induction v using List.Vector.inductionOn with
  | nil => rfl
  | cons ih =>
    rename_i n b w
    obtain ⟨p, q, hbytes, hpair⟩ := hexPair_hexLower b
    rw [List.Vector.toList_cons, List.flatMap_cons, asBytes_append, hbytes,
      List.cons_append, List.cons_append, List.nil_append]
    unfold hexPairs
    rw [hpair, ih]

theorem length_asBytes_hexHash (h : Hash) : (asBytes (hexHash h)).length = HEX_HASH_LEN := by
  have hlen : ∀ bs : Bytes, (asBytes (bs.flatMap fun b =>
      [hexLower (b / 16), hexLower (b % 16)])).length = 2 * bs.length := by
    intro bs
    induction bs with
    | nil => rfl
    | cons b bs ih =>
      obtain ⟨p, q, hbytes, _⟩ := hexPair_hexLower b
      rw [List.flatMap_cons, asBytes_append, hbytes, List.length_append, ih, List.length_cons,
        List.length_cons, List.length_nil, List.length_cons]
      omega
  unfold hexHash
  rw [hlen, h.toList_length]
  rfl

/-- A body hash is read back, and never taken for the sentinel. -/
theorem parseBinding_hexHash (h : Hash) : parseBinding (asBytes (hexHash h)) = .ok (.hash h) := by
  have hlen := length_asBytes_hexHash h
  have hne : asBytes (hexHash h) ≠ UNBOUND_SENTINEL := by
    intro heq
    rw [heq] at hlen
    revert hlen
    decide
  unfold parseBinding
  rw [if_neg hne, if_neg (by simpa using hlen), hexHash, hexPairs_hexDigits]

theorem parseBinding_unbound : parseBinding (asBytes "unbound".toList) = .ok .unbound := by
  decide

theorem newline_not_mem_hexHash (h : Hash) : '\n' ∉ hexHash h := by
  intro hmem
  obtain ⟨b, _, hb⟩ := List.mem_flatMap.1 hmem
  rw [List.mem_cons, List.mem_singleton] at hb
  rcases hb with hb | hb
  · exact (hexDigit_hexLower (high_lt b)).1 hb.symm
  · exact (hexDigit_hexLower (low_lt b)).1 hb.symm

/-! ## Opening what was sealed -/

/-- The primitives of the two sides fit together for one call: the proxy's crates repeat or undo
what NSS computed for the key of that proxy. -/
structure Interoperates {N : Nss} (K : Crypto) (sk : K.SecretKey) (call : AttestCall N)
    (key : N.PublicKey) : Prop where
  base64 : ∀ b, K.base64Decode (Base64.encode b) = some b
  sha256 : ∀ m, N.sha256 m = K.sha256 m
  /-- A P-256 point is encoded uncompressed. -/
  point : ∀ priv ephemPub, call.keyPair = some (priv, ephemPub) →
    (N.publicValue ephemPub).length = 65
  /-- Both sides derive one AES key from the ephemeral pair and the proxy's pair. -/
  agree : ∀ priv ephemPub aesKey, call.keyPair = some (priv, ephemPub) →
    N.deriveWithKDF priv key = some aesKey →
    ∃ q, K.fromSec1Bytes (N.publicValue ephemPub) = some q ∧
      aesKey = (K.sha256 (K.diffieHellman sk q ++ [0, 0, 0, 1])).toList.take 16
  /-- AES-GCM decryption is inverse to encryption, and the tag is 16 bytes. -/
  inverse : ∀ aesKey iv plaintext ct, N.encrypt aesKey iv plaintext = some ct →
    K.gcmDecrypt aesKey iv ct = some plaintext ∧ ct.length = plaintext.length + 16

section Token

variable {N : Nss} {K : Crypto} {sk : K.SecretKey} {call : AttestCall N} {key : N.PublicKey}
  {i : AttestInputs}

/-- Steps 4 to 6 of `verify_headers` undo steps 9 to 14 of `AddAttestHeaders`. -/
theorem decryptToken_sealToken {plaintext : Str} (hfit : Interoperates K sk call key)
    (hne : asBytes plaintext ≠ []) (hseal : sealToken call key plaintext = some i.tokenB64) :
    decryptToken K sk i = .ok (asBytes plaintext) := by
  obtain ⟨priv, ephemPub, aesKey, iv, ct, hpair, hderive, hiv, hct, htoken⟩ := sealToken_some hseal
  have hpoint := hfit.point priv ephemPub hpair
  obtain ⟨q, hq, haes⟩ := hfit.agree priv ephemPub aesKey hpair hderive
  obtain ⟨hdec, hctlen⟩ := hfit.inverse aesKey iv.toList _ ct hct
  have hraw : K.base64Decode i.tokenB64 = some (N.publicValue ephemPub ++ iv.toList ++ ct) := by
    rw [base64Encode_some htoken]
    exact hfit.base64 _
  have hivlen : iv.toList.length = 12 := iv.toList_length
  have hpos : 0 < (asBytes plaintext).length := List.length_pos_of_ne_nil hne
  have hlen : ¬(N.publicValue ephemPub ++ iv.toList ++ ct).length < TOKEN_MIN_LEN := by
    rw [List.length_append, List.length_append, hpoint, hivlen, hctlen]
    show ¬65 + 12 + ((asBytes plaintext).length + 16) < 94
    omega
  have hephem : (N.publicValue ephemPub ++ iv.toList ++ ct).take 65 = N.publicValue ephemPub := by
    rw [List.append_assoc, List.take_left' hpoint]
  have hrest : (N.publicValue ephemPub ++ iv.toList ++ ct).drop 65 = iv.toList ++ ct := by
    rw [List.append_assoc, List.drop_left' hpoint]
  have htail : (N.publicValue ephemPub ++ iv.toList ++ ct).drop 77 = ct := by
    have h77 : (N.publicValue ephemPub ++ iv.toList).length = 77 := by
      rw [List.length_append, hpoint, hivlen]
    rw [List.drop_left' h77]
  have hiv12 : (iv.toList ++ ct).take 12 = iv.toList := List.take_left' hivlen
  unfold decryptToken
  rw [hraw]
  dsimp only
  rw [if_neg hlen, hephem, hq]
  dsimp only
  rw [hrest, hiv12, htail, ← haes, hdec]

/-- **A sealed token opens**, to the binding its body field stands for. -/
theorem openToken_sealToken {body : Str} (hfit : Interoperates K sk call key)
    (hnonce : '\n' ∉ i.nonceB64) (hts : '\n' ∉ i.ts) (hhost : '\n' ∉ i.host)
    (hmethod : '\n' ∉ i.method) (hpath : '\n' ∉ i.path) (hbody : '\n' ∉ body)
    (hseal : sealToken call key
      (canonicalPlaintext i.nonceB64 i.ts i.host i.method i.path body) = some i.tokenB64) :
    openToken K sk i = parseBinding (asBytes body) := by
  have hne : asBytes (canonicalPlaintext i.nonceB64 i.ts i.host i.method i.path body) ≠ [] := by
    intro hnil
    have hsplit := splitOn_canonicalPlaintext hnonce hts hhost hmethod hpath hbody
    rw [hnil] at hsplit
    cases hsplit
  unfold openToken
  rw [decryptToken_sealToken hfit hne hseal]
  exact comparePlaintext_canonical hnonce hts hhost hmethod hpath hbody

end Token

/-! ## The host -/

/-- The authority the browser sends: an IPv6 literal in brackets, the port when the URL has
one. -/
def hostPort (host : Str) (port : Option Nat) : Str :=
  (if ':' ∈ host then '[' :: host ++ [']'] else host) ++
    match port with
    | none => []
    | some p => ':' :: showInt p

/-- What the URL parser makes of the two parts: no newline, and no dot in an IPv6 literal. -/
structure Uri.WellFormed (uri : Uri) : Prop where
  host : ∀ host, uri.asciiHost = some host → '\n' ∉ host ∧ (':' ∈ host → '.' ∉ host)
  path : ∀ pathQueryRef, uri.pathQueryRef = some pathQueryRef → '\n' ∉ pathQueryRef

theorem colon_not_mem_of_hostRe {domain : Str} (h : hostRe domain = true) : ':' ∉ domain := by
  intro hcolon
  have hchar := hostRe_chars h ':' hcolon
  revert hchar
  decide

/-- A claimed host is a name, so the colon that `request_host` cuts at is the port's. -/
theorem colon_not_mem_of_claimed {table : List ProxyEntry} {host : Str} {entry : ProxyEntry}
    (hdomains : ∀ entry ∈ table, ∀ domain ∈ entry.domains, hostRe domain = true)
    (hipv6 : ':' ∈ host → '.' ∉ host) (h : findProxyForHost table host = some entry) :
    ':' ∉ host := by
  unfold findProxyForHost at h
  have hany := List.find?_some h
  obtain ⟨domain, hdomain, hmatch⟩ := List.any_eq_true.1 hany
  have hname := colon_not_mem_of_hostRe
    (hdomains entry (List.mem_of_find?_eq_some h) domain hdomain)
  rcases hostMatch_iff.1 hmatch with rfl | ⟨pre, _, rfl⟩
  · exact hname
  · intro hcolon
    exact hipv6 hcolon (by simp)

theorem takeWhile_hostPort {host : Str} (port : Option Nat) (h : ':' ∉ host) :
    (hostPort host port).takeWhile (· != ':') = host := by
  have hall : ∀ c ∈ host, (c != ':') = true := by
    intro c hc
    rw [bne_iff_ne]
    rintro rfl
    exact h hc
  unfold hostPort
  rw [if_neg h, List.takeWhile_append_of_pos hall]
  cases port with
  | none => simp
  | some p => simp

/-! ## The body -/

/-- The bytes reading a clone gives, up to the first empty read. -/
def UploadStream.body (stream : UploadStream) : Bytes :=
  (stream.reads.takeWhile fun read => !read.isEmpty).flatten

/-- The upload's length and its clone describe the whole body. -/
def DescribesBody (upload : Option UploadStream) (uploadLength : Nat) (body : Bytes) : Prop :=
  match upload with
  | none => body = []
  | some stream => uploadLength = body.length ∧ (stream.cloneable = true → stream.body = body)

/-- The browser does not hash the body: it is over 64 KiB, or its stream cannot be cloned. -/
def SkipsHash (upload : Option UploadStream) (body : Bytes) : Prop :=
  ∃ stream, upload = some stream ∧ (64 * 1024 < body.length ∨ stream.cloneable = false)

theorem hashReads_ok {update : Except NsError Unit} {readError : Option NsError} :
    ∀ {reads : List Bytes} {hashed b : Bytes}, hashReads update readError hashed reads = .ok b →
      b = hashed ++ (reads.takeWhile fun read => !read.isEmpty).flatten := by
  intro reads
  induction reads with
  | nil =>
    intro hashed b h
    unfold hashReads at h
    split at h
    · cases h
      simp
    · cases h
  | cons read reads ih =>
    intro hashed b h
    unfold hashReads at h
    split at h
    · rename_i hempty
      cases h
      simp [hempty]
    · rename_i hnonempty
      split at h
      · cases h
      · rw [ih h, List.takeWhile_cons_of_pos (by simpa using hnonempty), List.flatten_cons,
          List.append_assoc]

section Body

variable {N : Nss} {call : AttestCall N} {upload : Option UploadStream} {uploadLength : Nat}
  {body : Bytes}

theorem clonedBody_ok {update : Except NsError Unit} {b : Bytes}
    (hdesc : DescribesBody upload uploadLength body)
    (hskip : shouldSkipBodyHash upload uploadLength = false)
    (h : clonedBody update upload = .ok b) : b = body := by
  unfold clonedBody at h
  cases upload with
  | none =>
    cases h
    exact hdesc.symm
  | some stream =>
    have hclone : stream.cloneable = true := by
      simp only [shouldSkipBodyHash, Bool.or_eq_false_iff] at hskip
      simpa using hskip.2
    dsimp only at h
    split at h
    · cases h
    · rw [hashReads_ok h, List.nil_append]
      exact hdesc.2 hclone

theorem hashBody_ok {hex : Str} (h : hashBody call upload = .ok hex) :
    ∃ b, clonedBody call.hasherUpdate upload = .ok b ∧ hex = hexHash (N.sha256 b) := by
  unfold hashBody at h
  split at h
  · cases h
  split at h
  · cases h
  split at h
  · cases h
  rename_i b hb
  split at h
  · cases h
  cases h
  exact ⟨b, hb, rfl⟩

theorem shouldSkipBodyHash_iff (hdesc : DescribesBody upload uploadLength body) :
    shouldSkipBodyHash upload uploadLength = true ↔ SkipsHash upload body := by
  cases upload with
  | none => simp [shouldSkipBodyHash, SkipsHash]
  | some stream =>
    simp only [shouldSkipBodyHash, SkipsHash, hdesc.1, kMaxBoundBodyBytes, Bool.or_eq_true,
      decide_eq_true_eq, Bool.not_eq_true', Option.some.injEq, exists_eq_left']

/-- The body field is the sentinel for a skipped hash, otherwise the hash of the body. -/
theorem bodyField_ok {field : Str} (hdesc : DescribesBody upload uploadLength body)
    (h : bodyField call upload uploadLength = .ok field) :
    (SkipsHash upload body ∧ field = "unbound".toList) ∨
      (¬SkipsHash upload body ∧ field = hexHash (N.sha256 body)) := by
  unfold bodyField at h
  split at h
  · rename_i hskip
    cases h
    exact Or.inl ⟨(shouldSkipBodyHash_iff hdesc).1 hskip, rfl⟩
  · rename_i hskip
    obtain ⟨b, hb, rfl⟩ := hashBody_ok h
    obtain rfl := clonedBody_ok hdesc (by simpa using hskip) hb
    exact Or.inr ⟨fun hs => hskip ((shouldSkipBodyHash_iff hdesc).2 hs), rfl⟩

theorem length_le_of_hashed (hdesc : DescribesBody upload uploadLength body)
    (h : ¬SkipsHash upload body) : body.length ≤ BOUND_BODY_MAX := by
  cases upload with
  | none =>
    obtain rfl : body = [] := hdesc
    exact Nat.zero_le _
  | some stream =>
    have hle : ¬64 * 1024 < body.length := fun hlong => h ⟨stream, rfl, Or.inl hlong⟩
    show body.length ≤ 64 * 1024
    omega

/-- The body loop does not refuse what fits. -/
theorem readBody_fits {r : Request} (h : r.body.length ≤ BOUND_BODY_MAX) :
    readBody r.readError 0 [] r.chunks ≠ .tooLarge := by
  have hfits : ¬BOUND_BODY_MAX < 0 + r.chunks.flatten.length := by
    rw [Nat.zero_add]
    exact Nat.not_lt.2 h
  rw [readBody_eq _ _ _ _ (Nat.zero_le _), if_neg hfits]
  cases r.readError with
  | none => simp
  | some etype => simp

end Body

/-! ## The round trip -/

/-- What arrives at the proxy: the method, authority and path the browser sends, and as much of
the body as the proxy could read. -/
structure Receives (r : Request) (method : Str) (uri : Uri) (port : Option Nat)
    (body : Bytes) : Prop where
  method : r.method = method
  authority : ∀ host, uri.asciiHost = some host →
    (headerStr r.headers HOST_HEADER).or r.authority = some (hostPort host port)
  path : ∀ pathQueryRef, uri.pathQueryRef = some pathQueryRef → r.path = requestPath pathQueryRef
  chunks : r.body <+: body
  complete : r.readError = none → r.body = body

section RoundTrip

variable {N : Nss} {K : Crypto} {sk : K.SecretKey} {table : List ProxyEntry}
  {call : AttestCall N} {head : RequestHead} {uri : Uri} {upload : Option UploadStream}
  {uploadLength : Nat} {r : Request} {port : Option Nat} {body : Bytes} {wall : SystemTime}
  {cache : NonceCache}

theorem newline_not_mem_requestPath {pathQueryRef : Str} (h : '\n' ∉ pathQueryRef) :
    '\n' ∉ requestPath pathQueryRef := by
  unfold requestPath
  dsimp only
  split
  · decide
  · exact fun hmem => h (List.takeWhile_subset _ hmem)

theorem tsStr_parses (call : AttestCall N) :
    parseI64 call.tsStr = some (call.prNow.tdiv 1000000) := by
  apply parseI64_showInt
  have hrange := call.prNow_range
  have hdiv : call.prNow.tdiv 1000000 = call.prNow / 1000000 ∨
      call.prNow.tdiv 1000000 = call.prNow / 1000000 + 1 := by
    rw [Int.tdiv_eq_ediv]
    split
    · exact Or.inl (Int.add_zero _)
    · exact Or.inr rfl
  simp only [I64_MIN, I64_MAX] at *
  omega

/-- The proxy accepts the values a call writes, and reads its body field. -/
theorem verifyHeaders_attestValues
    (hfit : ∀ host key, claimedKey N table uri = some (host, key) → Interoperates K sk call key)
    (hdomains : ∀ entry ∈ table, ∀ domain ∈ entry.domains, hostRe domain = true)
    (huri : uri.WellFormed) (hmethod : '\n' ∉ head.method)
    (hreceives : Receives r head.method uri port body)
    (hclock : call.prNow.tdiv 1000000 - 30 ≤ unixNow wall ∧
      unixNow wall ≤ call.prNow.tdiv 1000000 + 30)
    (hfresh : ∀ nonce, call.nonceBytes = some nonce → nonce ∉ cache.seen)
    {ts nonceB64 token : Str} (hattach : attestValues table call head.method uri upload
      uploadLength = .attach ts nonceB64 token) :
    ∃ host key nonce field, requestHost r = some host ∧
      claimedKey N table uri = some (host, key) ∧
      bodyField call upload uploadLength = .ok field ∧
      ('\n' ∉ field → ∀ binding, parseBinding (asBytes field) = .ok binding →
        verifyHeaders K sk ⟨ts, nonceB64, token, host, r.method, r.path⟩ wall cache =
          .ok ⟨nonce, binding, call.prNow.tdiv 1000000⟩) := by
  obtain ⟨host, key, pathQueryRef, nonce, field, hkey, hpath, hnonce, hb64, hfield, rfl, hseal⟩ :=
    attestValues_attach hattach
  obtain ⟨hhost, _, entry, hentry, _⟩ := claimedKey_some hkey
  obtain ⟨hhostLine, hipv6⟩ := huri.host host hhost
  have hcolon := colon_not_mem_of_claimed hdomains hipv6 hentry
  have hkeys := hfit host key hkey
  have hencoded := base64Encode_some hb64
  refine ⟨host, key, nonce, field, ?_, hkey, hfield, ?_⟩
  · unfold requestHost
    rw [hreceives.authority host hhost, Option.map_some, takeWhile_hostPort port hcolon]
  · intro hline binding hbinding
    have hpathLine := newline_not_mem_requestPath (huri.path pathQueryRef hpath)
    rw [verifyHeaders_ok_iff, hreceives.method, hreceives.path pathQueryRef hpath]
    refine ⟨checkTimestamp_ok_iff.2 ⟨tsStr_parses call, (checkDrift_ok_iff _ _).2 hclock⟩, ?_,
      hfresh nonce hnonce, ?_⟩
    · rw [decodeNonce_ok_iff, hencoded]
      exact hkeys.base64 nonce.toList
    · have hnonceLine : '\n' ∉ nonceB64 := by
        rw [hencoded]
        exact newline_not_mem_encode _
      have hts : '\n' ∉ call.tsStr := newline_not_mem_showInt _
      have hopen := openToken_sealToken (i := ⟨call.tsStr, nonceB64, token, host, head.method,
        requestPath pathQueryRef⟩) hkeys hnonceLine hts hhostLine hmethod hpathLine hline hseal
      exact hopen.trans hbinding

/-- **The attestation round trip.**  The three values `AddAttestHeaders` emits for a claimed host
are accepted by `verify_headers` on the host, method and path the proxy receives.  The binding is
`Unbound` exactly when the browser skipped the hash, otherwise it is the hash of the received
body, and the body loop never finds a bound body too large. -/
theorem attest_round_trip
    (hfit : ∀ host key, claimedKey N table uri = some (host, key) → Interoperates K sk call key)
    (hdomains : ∀ entry ∈ table, ∀ domain ∈ entry.domains, hostRe domain = true)
    (huri : uri.WellFormed) (hmethod : '\n' ∉ head.method)
    (hdesc : DescribesBody upload uploadLength body)
    (hreceives : Receives r head.method uri port body)
    (hclock : call.prNow.tdiv 1000000 - 30 ≤ unixNow wall ∧
      unixNow wall ≤ call.prNow.tdiv 1000000 + 30)
    (hfresh : ∀ nonce, call.nonceBytes = some nonce → nonce ∉ cache.seen)
    (hcompletes : Completes table call head.method uri upload uploadLength) :
    let result := addAttestHeaders table call head uri upload uploadLength
    ∃ ts nonceB64 token host p1, result.1 = .ok () ∧
      result.2.headers X_DENBROWSER_TS = some ts ∧
      result.2.headers X_DENBROWSER_NONCE = some nonceB64 ∧
      result.2.headers X_DENBROWSER_TOKEN = some token ∧
      requestHost r = some host ∧
      verifyHeaders K sk ⟨ts, nonceB64, token, host, r.method, r.path⟩ wall cache = .ok p1 ∧
      (p1.bodyBinding = .unbound ↔ SkipsHash upload body) ∧
      ∀ h, p1.bodyBinding = .hash h →
        (r.readError = none → h = K.sha256 r.body) ∧
        readBody r.readError 0 [] r.chunks ≠ .tooLarge := by
  obtain ⟨ts, nonceB64, token, hattach⟩ := attestValues_attach_iff.2 hcompletes
  obtain ⟨hts, hnonce, htoken⟩ := attestValues_nonempty hattach
  obtain ⟨h1, h2, h3, _⟩ := writeHeaders_headers call
    (head.clearHeader_self X_DENBROWSER_MACHINE_CERT) hts hnonce htoken
  obtain ⟨host, key, nonce, field, hhost, hkey, hfield, hverify⟩ :=
    verifyHeaders_attestValues hfit hdomains huri hmethod hreceives hclock hfresh hattach
  have hsha := (hfit host key hkey).sha256 body
  dsimp only
  rw [addAttestHeaders_attach hattach]
  rcases bodyField_ok hdesc hfield with ⟨hskip, rfl⟩ | ⟨hskip, rfl⟩
  · refine ⟨ts, nonceB64, token, host, _, rfl, h1, h2, h3, hhost,
      hverify (by decide) _ parseBinding_unbound, by simp [hskip], ?_⟩
    intro h hbinding
    cases hbinding
  · refine ⟨ts, nonceB64, token, host, _, rfl, h1, h2, h3, hhost,
      hverify (newline_not_mem_hexHash _) _ (parseBinding_hexHash _), by simp [hskip], ?_⟩
    intro h hbinding
    cases hbinding
    refine ⟨fun hread => ?_, ?_⟩
    · rw [hsha, hreceives.complete hread]
    · have hlen := hreceives.chunks.length_le
      exact readBody_fits (hlen.trans (length_le_of_hashed hdesc hskip))

end RoundTrip

/-! ## A recorded upload -/

def uploadBody : Bytes := asBytes "note=v1".toList

def uploadDigest : Hash :=
  toHash (beBytes 32 0x069e9b6e1d5086d1a269b4be850eb3440bcc9a36151bb8ecf90cf313308ee075)

/-- A recorded upload. -/
def exchangeUpload : Exchange where
  nonce := beBytes 16 0x1e2a7776cbcf61a6ea4d94ec2f677a16
  ts := "1760000000".toList
  host := "app.example.com".toList
  method := "POST".toList
  path := "/notes?id=7".toList
  bodyField := asBytes (hexHash uploadDigest)
  ephemPub := beBytes 1 0x04 ++
    beBytes 32 0x07ac7faf006b44c74320a9a14c98d2e32e54903ecad9b03e89a43d1705805b74 ++
    beBytes 32 0xe0f095f8be740dacee2f976a52d276544f013d4cb78b5eecd414050f7a934f07
  iv := beBytes 12 0x5d4d126e595071fac9f13e7f
  ctTag := beBytes 32 0x96a31a16e3877e21bab2351efdf3b937c5f6959688aeed2a8e427478f498f7aa ++
    beBytes 32 0x8bc5142f8acf80a0435d490207c9d7ea5ec20f317f0e6a4edd5be4fa7ee4e603 ++
    beBytes 32 0x8a4f9b02f8f558d32f432c6337edf38b8fa9d0a56115da26f246ee4f8d131199 ++
    beBytes 32 0xdb6c95273ffc322e407cfdc05c307fd27017ec792a7c8fa3e7b311ece089cf51 ++
    beBytes 32 0x2af7b125b3f0f2757975cb2eded2d605af467b5cbce336ae9658a0ee473e47f5 ++
    beBytes 10 0x745aeeef56f2430b15b2
  secret := beBytes 32 0x85633ac5e170cb3d081e4cd1e6c31d72de749917421d67cc59937ed24fbdc383
  digest := beBytes 32 0x19a72f4cc3e6df7a18c8a5e1079c798280e042b7d75331888b855ef53c62cb07

/-- SHA-256 of the recorded body and of the recorded shared secret. -/
def uploadSha256 (m : Bytes) : Hash :=
  if m = uploadBody then uploadDigest else (recorded [exchangeUpload]).sha256 m

def uploadCrypto : Crypto := { recorded [exchangeUpload] with sha256 := uploadSha256 }

def uploadNss : Nss := recordedNss exchangeUpload uploadSha256

instance : DecidableEq uploadCrypto.PublicKey := inferInstanceAs (DecidableEq Bytes)

instance : DecidableEq uploadNss.PublicKey := inferInstanceAs (DecidableEq Bytes)

/-- The point of the recorded proxy. -/
def uploadKey : uploadNss.PublicKey := recordedKey.drop 26

def uploadCall : AttestCall uploadNss :=
  smoothCall 1760000000500000 (by decide) ⟨exchangeUpload.nonce, by decide⟩
    ((), exchangeUpload.ephemPub) ⟨exchangeUpload.iv, by decide⟩

def uploadTable : List ProxyEntry := [⟨"app".toList, ["example.com".toList], recordedKey⟩]

def uploadHead : RequestHead := ⟨"POST".toList, fun _ => none⟩

def uploadUri : Uri := ⟨some "app.example.com".toList, some "/notes?id=7#top".toList⟩

def uploadStream : UploadStream := ⟨true, .ok (), [uploadBody], none⟩

/-- The upload as it arrives, in two chunks, at a proxy on port 8443. -/
def uploadRequest : Request where
  method := "POST".toList
  headers := []
  authority := some "app.example.com:8443".toList
  pathAndQuery := some "/notes?id=7".toList
  chunks := [uploadBody.take 4, uploadBody.drop 4]
  readError := none

theorem uploadCall_interoperates :
    Interoperates uploadCrypto () uploadCall uploadKey where
  base64 := Base64.decode_encode
  sha256 _ := rfl
  point priv ephemPub h := by
    cases h
    decide
  agree priv ephemPub aesKey h hderive := by
    cases h
    refine ⟨exchangeUpload.ephemPub, by decide +kernel, ?_⟩
    have hrecorded : uploadNss.deriveWithKDF () uploadKey =
        some (exchangeUpload.digest.take 16) := by decide +kernel
    rw [← Option.some.inj (hrecorded.symm.trans hderive)]
    decide +kernel
  inverse aesKey iv plaintext ct h := by
    unfold uploadNss recordedNss at h
    dsimp only at h
    split at h
    · rename_i hx
      obtain ⟨rfl, rfl, rfl⟩ := hx
      cases h
      decide +kernel
    · cases h

/-- The recorded upload goes through. -/
theorem attest_round_trip_upload :
    let result := addAttestHeaders uploadTable uploadCall uploadHead uploadUri
      (some uploadStream) uploadBody.length
    ∃ ts nonceB64 token host p1, result.1 = .ok () ∧
      result.2.headers X_DENBROWSER_TS = some ts ∧
      result.2.headers X_DENBROWSER_NONCE = some nonceB64 ∧
      result.2.headers X_DENBROWSER_TOKEN = some token ∧
      requestHost uploadRequest = some host ∧
      verifyHeaders uploadCrypto () ⟨ts, nonceB64, token, host, uploadRequest.method,
        uploadRequest.path⟩ wallA .empty = .ok p1 ∧
      (p1.bodyBinding = .unbound ↔ SkipsHash (some uploadStream) uploadBody) ∧
      ∀ h, p1.bodyBinding = .hash h →
        (uploadRequest.readError = none → h = uploadCrypto.sha256 uploadRequest.body) ∧
        readBody uploadRequest.readError 0 [] uploadRequest.chunks ≠ .tooLarge := by
  have hkey : claimedKey uploadNss uploadTable uploadUri =
      some ("app.example.com".toList, uploadKey) := by decide +kernel
  have hreceives : Receives uploadRequest uploadHead.method uploadUri (some 8443) uploadBody := by
    refine ⟨rfl, ?_, ?_, by decide, fun _ => by decide⟩
    · rintro host ⟨⟩
      decide
    · rintro pathQueryRef ⟨⟩
      decide
  refine attest_round_trip ?_ (by decide) ⟨?_, ?_⟩ (by decide) ⟨rfl, fun _ => by decide⟩
    hreceives (by decide +kernel) ?_ ?_
  · intro host key h
    rw [hkey] at h
    cases h
    exact uploadCall_interoperates
  · rintro host ⟨⟩
    decide
  · rintro pathQueryRef ⟨⟩
    decide
  · intro nonce _
    exact List.not_mem_nil
  · refine attestValues_attach_iff.1 ⟨exchangeUpload.ts, exchangeUpload.inputs.nonceB64,
      exchangeUpload.inputs.tokenB64, ?_⟩
    decide +kernel

end DenBrowser
