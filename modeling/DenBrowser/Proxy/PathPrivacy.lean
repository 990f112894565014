import DenBrowser.Proxy.Forwarding
import DenBrowser.Proxy.GateAudit

/-!
# The path stays out of the log

Two runs of the gate on requests that differ in path and query only.  The path is read in two
places: the rate-limit globs and the comparison with the token's plaintext.  Where these come out
the same, so does everything else but the state of the rate limiter.

* `verifyHeaders_path` — the errors of phase 1 do not tell the paths apart;
* `requestFilter_path` — the two runs of the gate, up to the rate limiter;
* `path_never_logged` — the audit record and the summary for pingora's own error lines are the
  same.
-/

set_option autoImplicit false

namespace DenBrowser

variable {L : Crates}

/-- `request_summary`, which pingora appends to its own error lines. -/
def requestSummary (s : Session) : Str :=
  s.req.method ++ [' '] ++ (requestHost s.req).getD ['-']

/-- The same request for another path and query. -/
def Session.withPath (s : Session) (pathAndQuery : Option Str) : Session :=
  { s with req := { s.req with pathAndQuery := pathAndQuery } }

/-- The token binds the request as it was sent. -/
def TokenMatches (p : Proxy L) (s : Session) : Prop :=
  ∃ i binding, s.req.Presents i ∧ openToken L.toCrypto p.privateKey i = .ok binding

/-- The gate gets as far as opening the token. -/
structure TokenOpened (p : Proxy L) (s : Session) (env : Env) : Prop where
  admitted : Admitted p s env
  notBypassed : ¬Bypassed p s
  preflight : ∀ m, p.machine = some m → s.machinePresent = false → m.required = false
  fresh : ∃ i ts nonce, s.req.Presents i ∧ checkTimestamp i env.wall1 = .ok ts ∧
    decodeNonce L.toCrypto i = .ok nonce ∧ env.cache1.contains nonce = false

/-! ## Phase 1 -/

theorem Request.Presents.withPath {r : Request} {i : AttestInputs} (h : r.Presents i)
    (q : Option Str) :
    Request.Presents { r with pathAndQuery := q }
      { i with path := Request.path { r with pathAndQuery := q } } :=
  ⟨h.ts, h.nonce, h.token, h.host, h.method, rfl⟩

theorem tokenMatches_iff {p : Proxy L} {s : Session} {i : AttestInputs}
    (hi : s.req.Presents i) :
    TokenMatches p s ↔ (openToken L.toCrypto p.privateKey i).isOk = true := by
  constructor
  · rintro ⟨j, binding, hj, hopen⟩
    rw [hi.unique hj, hopen]
    rfl
  · intro h
    cases hopen : openToken L.toCrypto p.privateKey i with
    | error e =>
      rw [hopen] at h
      cases h
    | ok binding => exact ⟨i, binding, hi, hopen⟩

theorem asBytes_injective {s t : Str} (h : asBytes s = asBytes t) : s = t :=
  Unicode.utf8_injective h

/-- A plaintext accepted for two paths was sent with one. -/
theorem comparePlaintext_ok_path {i : AttestInputs} {path : Str} {plaintext : Bytes}
    {b b' : BodyBinding} (h : comparePlaintext i plaintext = .ok b)
    (h' : comparePlaintext { i with path := path } plaintext = .ok b') : i.path = path := by
  unfold comparePlaintext at h h'
  split at h
  · rename_i p0 p1 p2 p3 p4 p5 p6 hfields
    rw [hfields] at h'
    dsimp only at h'
    split at h
    · cases h
    · rename_i hall
      split at h'
      · cases h'
      · rename_i hall'
        simp only [ne_eq, not_or, not_not] at hall hall'
        apply asBytes_injective
        rw [← hall.2.2.2.2.2, hall'.2.2.2.2.2]
  · cases h

/-- **Opening the token** tells two paths apart only by accepting one of them. -/
theorem openToken_path {K : Crypto} {sk : K.SecretKey} {i : AttestInputs} {path : Str}
    (h : (openToken K sk i).isOk = (openToken K sk { i with path := path }).isOk) :
    openToken K sk i = openToken K sk { i with path := path } := by
  have hdecrypt : decryptToken K sk { i with path := path } = decryptToken K sk i := rfl
  unfold openToken at h ⊢
  rw [hdecrypt] at h ⊢
  cases hplain : decryptToken K sk i with
  | error e => rfl
  | ok plaintext =>
    rw [hplain] at h
    dsimp only at h ⊢
    cases hc : comparePlaintext i plaintext with
    | error e =>
      cases hc' : comparePlaintext { i with path := path } plaintext with
      | error e' => rw [comparePlaintext_error hc, comparePlaintext_error hc']
      | ok b' =>
        rw [hc, hc'] at h
        cases h
    | ok b =>
      cases hc' : comparePlaintext { i with path := path } plaintext with
      | error e' =>
        rw [hc, hc'] at h
        cases h
      | ok b' =>
        have hpath : i.path = path := comparePlaintext_ok_path hc hc'
        have hi : { i with path := path } = i := by
          rw [← hpath]
        rw [hi, hc] at hc'
        exact hc'

theorem verifyHeaders_path {K : Crypto} {sk : K.SecretKey} {i : AttestInputs} {path : Str}
    {wall : SystemTime} {cache : NonceCache}
    (h : ∀ ts nonce, checkTimestamp i wall = .ok ts → decodeNonce K i = .ok nonce →
      cache.contains nonce = false →
      (openToken K sk i).isOk = (openToken K sk { i with path := path }).isOk) :
    verifyHeaders K sk i wall cache = verifyHeaders K sk { i with path := path } wall cache := by
  have hts : checkTimestamp { i with path := path } wall = checkTimestamp i wall := rfl
  have hnonce : decodeNonce K { i with path := path } = decodeNonce K i := rfl
  unfold verifyHeaders
  rw [hts, hnonce]
  cases ht : checkTimestamp i wall with
  | error e => rfl
  | ok ts =>
    cases hn : decodeNonce K i with
    | error e => rfl
    | ok nonce =>
      dsimp only
      cases hc : cache.contains nonce with
      | true => rfl
      | false => rw [openToken_path (h ts nonce ht hn hc)]

/-! ## The gate -/

/-- The outcome of the gate with the rate limiter in another state. -/
def relimit (l : Option (RateLimiter L)) (o : Flow L × Bool) : Flow L × Bool :=
  ({ o.1 with limiter := l }, o.2)

section Steps

variable {p : Proxy L} {s : Session} {env : Env} {f : Flow L} (l : Option (RateLimiter L))
  (q : Option Str)

theorem settle_relimit (r : NonceCache × Except AttestError Unit) :
    ({ f with limiter := l } : Flow L).settle r = relimit l (f.settle r) := by
  unfold Flow.settle
  cases r.2 <;> rfl

theorem bodyStep_path (p1 : PhaseOne) :
    bodyStep (s.withPath q) env { f with limiter := l } p1 = relimit l (bodyStep s env f p1) := by
  unfold bodyStep
  cases p1.bodyBinding with
  | unbound => exact settle_relimit l _
  | hash expected =>
    have hread : readBody (s.withPath q).req.readError 0 [] (s.withPath q).req.chunks =
        readBody s.req.readError 0 [] s.req.chunks := rfl
    dsimp only
    rw [hread]
    cases readBody s.req.readError 0 [] s.req.chunks with
    | tooLarge => rfl
    | failed etype => rfl
    | complete body => exact settle_relimit l _

theorem machineStep_path (p1 : PhaseOne) :
    machineStep p (s.withPath q) env { f with limiter := l } p1 =
      relimit l (machineStep p s env f p1) := by
  unfold machineStep
  cases p.machine with
  | none => exact bodyStep_path l q p1
  | some m =>
    have hpresent : (s.withPath q).machinePresent = s.machinePresent := rfl
    have hip : (s.withPath q).clientIp = s.clientIp := rfl
    dsimp only
    rw [hpresent, hip]
    split
    · exact bodyStep_path l q p1
    · cases f.ctx.presentedMachineCert with
      | none => rfl
      | some cert =>
        dsimp only
        cases (m.verify cert s.clientIp env.chainWall env.dns).result with
        | error e => rfl
        | ok machine =>
          exact bodyStep_path (f := { f with
            ctx := f.ctx.machineVerified machine
            dns := (m.verify cert s.clientIp env.chainWall env.dns).cache
            queries := f.queries ++
              (m.verify cert s.clientIp env.chainWall env.dns).queries }) l q p1

theorem tokenStep_path {i : AttestInputs} (hi : s.req.Presents i)
    (h : verifyHeaders L.toCrypto p.privateKey i env.wall1 env.cache1 =
      verifyHeaders L.toCrypto p.privateKey { i with path := (s.withPath q).req.path } env.wall1
        env.cache1) :
    tokenStep p (s.withPath q) env { f with limiter := l } i.ts i.nonceB64 i.tokenB64 i.host =
      relimit l (tokenStep p s env f i.ts i.nonceB64 i.tokenB64 i.host) := by
  have hsent : (⟨i.ts, i.nonceB64, i.tokenB64, i.host, s.req.method, s.req.path⟩ :
      AttestInputs) = i := by
    rw [hi.method, hi.path]
  have hother : (⟨i.ts, i.nonceB64, i.tokenB64, i.host, (s.withPath q).req.method,
      (s.withPath q).req.path⟩ : AttestInputs) = { i with path := (s.withPath q).req.path } := by
    show (⟨_, _, _, _, s.req.method, _⟩ : AttestInputs) = _
    rw [hi.method]
  unfold tokenStep
  rw [hsent, hother, ← h]
  cases verifyHeaders L.toCrypto p.privateKey i env.wall1 env.cache1 with
  | error e => rfl
  | ok p1 =>
    exact machineStep_path (f := { f with ctx := f.ctx.tokenVerifiedWith (.of p1.bodyBinding) })
      l q p1

theorem preflightStep_path {i : AttestInputs} (hi : s.req.Presents i)
    (h : (∀ m, p.machine = some m → s.machinePresent = false → m.required = false) →
      verifyHeaders L.toCrypto p.privateKey i env.wall1 env.cache1 =
        verifyHeaders L.toCrypto p.privateKey { i with path := (s.withPath q).req.path } env.wall1
          env.cache1) :
    preflightStep p (s.withPath q) env { f with limiter := l } i.ts i.nonceB64 i.tokenB64 i.host =
      relimit l (preflightStep p s env f i.ts i.nonceB64 i.tokenB64 i.host) := by
  have hpresent : (s.withPath q).machinePresent = s.machinePresent := rfl
  unfold preflightStep
  cases hm : p.machine with
  | none =>
    apply tokenStep_path l q hi
    apply h
    intro m hm'
    rw [hm] at hm'
    cases hm'
  | some m =>
    dsimp only
    rw [hpresent]
    by_cases hp : s.machinePresent = true
    · rw [if_pos hp, if_pos hp]
      apply tokenStep_path l q hi
      apply h
      intro m' _ hnot
      rw [hp] at hnot
      cases hnot
    · rw [if_neg hp, if_neg hp]
      by_cases hreq : m.required = true
      · rw [if_pos hreq, if_pos hreq]
        rfl
      · rw [if_neg hreq, if_neg hreq]
        apply tokenStep_path (f := { f with ctx := f.ctx.machineAbsent }) l q hi
        apply h
        intro m' hm' _
        rw [hm] at hm'
        cases hm'
        exact Bool.eq_false_iff.2 hreq

theorem headersStep_path
    (h : ∀ i, s.req.Presents i →
      (∀ m, p.machine = some m → s.machinePresent = false → m.required = false) →
      verifyHeaders L.toCrypto p.privateKey i env.wall1 env.cache1 =
        verifyHeaders L.toCrypto p.privateKey { i with path := (s.withPath q).req.path } env.wall1
          env.cache1) :
    headersStep p (s.withPath q) env { f with limiter := l } =
      relimit l (headersStep p s env f) := by
  have hheaders : (s.withPath q).req.headers = s.req.headers := rfl
  have hhost : requestHost (s.withPath q).req = requestHost s.req := rfl
  have hpresent : (s.withPath q).machinePresent = s.machinePresent := rfl
  unfold headersStep
  rw [hheaders, hhost, hpresent]
  dsimp only
  split
  · rename_i ts nonce token host hts hnonce htoken hreq
    have hi : s.req.Presents ⟨ts, nonce, token, host, s.req.method, s.req.path⟩ :=
      ⟨hts, hnonce, htoken, hreq, rfl, rfl⟩
    exact preflightStep_path (i := ⟨ts, nonce, token, host, s.req.method, s.req.path⟩) l q hi
      (h _ hi)
  · split
    · rfl
    · rfl

end Steps

/-- **Two requests that differ in path and query only**: with the same rate-limit decision and,
where it is opened, the same verdict on the token, the gate does the same up to the state of the
rate limiter. -/
theorem requestFilter_path {p : Proxy L} {s : Session} {env : Env} {q : Option Str}
    (hrate : Admitted p s env ↔ Admitted p (s.withPath q) env)
    (htoken : TokenOpened p s env → (TokenMatches p s ↔ TokenMatches p (s.withPath q))) :
    requestFilter p (s.withPath q) env =
      relimit (rateStep p (s.withPath q) env).1 (requestFilter p s env) := by
  have hdecision : (rateStep p (s.withPath q) env).2 = (rateStep p s env).2 := by
    rw [Bool.eq_iff_iff, rateStep_admits, rateStep_admits]
    exact hrate.symm
  have hopen : openAudit p (s.withPath q) = openAudit p s := rfl
  have hbypass : bypassSubject p (s.withPath q) = bypassSubject p s := rfl
  unfold requestFilter
  dsimp only
  rw [hdecision, hopen, hbypass]
  by_cases hr : (rateStep p s env).2 = false
  · rw [if_pos hr, if_pos hr]
    rfl
  · rw [if_neg hr, if_neg hr]
    cases hsub : bypassSubject p s with
    | some subject => rfl
    | none =>
      have hlimit : Admitted p s env := by
        rw [← rateStep_admits]
        simpa using hr
      have hnot : ¬Bypassed p s := by
        rw [← bypassSubject_isSome, hsub]
        rintro ⟨_, h⟩
        cases h
      refine headersStep_path (f := ⟨openAudit p s, [], (rateStep p s env).1, env.cache2,
        env.dns.lookupCache, []⟩) _ q ?_
      intro i hi hpre
      apply verifyHeaders_path
      intro ts nonce hts hnonce hfresh
      have hmatch := htoken ⟨hlimit, hnot, hpre, i, ts, nonce, hi, hts, hnonce, hfresh⟩
      rw [tokenMatches_iff hi, tokenMatches_iff (hi.withPath q)] at hmatch
      exact Bool.eq_iff_iff.2 hmatch

/-- **The path never reaches the log.** -/
theorem path_never_logged (p : Proxy L) (s : Session) (env : Env) (q : Option Str)
    (hrate : Admitted p s env ↔ Admitted p (s.withPath q) env)
    (htoken : TokenOpened p s env → (TokenMatches p s ↔ TokenMatches p (s.withPath q)))
    (t : Transfer) (e : Option PingoraError) (timestamp : Str) (durationMs : Nat) :
    let record := fun s : Session => (requestFilter p s env).1.ctx.record L (s.connection t)
      (e.map classifyProxyError) timestamp durationMs
    record (s.withPath q) = record s ∧
      (∀ enabled, logging L enabled (s.withPath q) t e
          (requestFilter p (s.withPath q) env).1.ctx timestamp durationMs =
        logging L enabled s t e (requestFilter p s env).1.ctx timestamp durationMs) ∧
      requestSummary (s.withPath q) = requestSummary s := by
  have hctx : (requestFilter p (s.withPath q) env).1.ctx = (requestFilter p s env).1.ctx := by
    rw [requestFilter_path hrate htoken]
    rfl
  have hconn : (s.withPath q).connection t = s.connection t := rfl
  refine ⟨?_, ?_, rfl⟩
  · dsimp only
    rw [hctx, hconn]
  · intro enabled
    rw [hctx]
    rfl

/-! ## A replayed token -/

/-- The crates as they behave on the recorded exchange. -/
def replayCrates : Crates := { workstationCrates with toCrypto := recorded [exchangeA] }

def replayProxy : Proxy replayCrates := ⟨(), none, none, none⟩

/-- The headers of the recorded request, sent for another path. -/
def replaySession : Session where
  req :=
    { method := exchangeA.method
      headers := [(HOST_HEADER, asBytes exchangeA.host), (TS_HEADER, asBytes exchangeA.ts),
        (NONCE_HEADER, asBytes exchangeA.inputs.nonceB64),
        (TOKEN_HEADER, asBytes exchangeA.inputs.tokenB64)]
      authority := none
      pathAndQuery := some "/inbox?folder=2".toList
      chunks := []
      readError := none }
  clientAddr := none
  serverAddr := none
  clientCert := none

def replayEnv : Env where
  rateNow := 0
  wall1 := wallA
  cache1 := .empty
  chainWall := wallA
  dns := ⟨fun _ => none, 0, fun _ => .error (), fun _ => none, fun _ => 0, 0⟩
  cache2 := .empty
  wall2 := wallA
  mono2 := 0

theorem replaySession_presents : replaySession.req.Presents
    { exchangeA.inputs with path := "/inbox?folder=2".toList } where
  ts := by decide +kernel
  nonce := by decide +kernel
  token := by decide +kernel
  host := by decide +kernel
  method := rfl
  path := rfl

/-- The token is that of a request for `/`. -/
theorem path_never_logged_replay :
    let record := fun s : Session => (requestFilter replayProxy s replayEnv).1.ctx.record
      replayCrates (s.connection ⟨some 403, 0, 0⟩) none "2025-10-09T08:53:20Z".toList 1
    record (replaySession.withPath (some "/drafts".toList)) = record replaySession := by
  refine (path_never_logged replayProxy replaySession replayEnv (some "/drafts".toList) ?_ ?_
    ⟨some 403, 0, 0⟩ none _ 1).1
  · constructor <;> intro _ limiter ip h <;> cases h
  · intro _
    rw [tokenMatches_iff replaySession_presents,
      tokenMatches_iff (replaySession_presents.withPath (some "/drafts".toList))]
    decide +kernel

end DenBrowser
