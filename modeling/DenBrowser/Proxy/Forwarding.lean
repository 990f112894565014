import DenBrowser.Proxy.DnsRun
import DenBrowser.Proxy.Gate

/-!
# What the gate forwards

Consequences of `requestFilter_ending`.

* `requestFilter_forwards_iff` — the exact forwarding condition, and which response goes with
  which refusal;
* `requestFilter_spends` — a nonce is spent exactly when its request is forwarded as attested;
* `machineIdentity_safe` — the address of an accepted machine, and the names the resolver is
  asked for.
-/

set_option autoImplicit false

namespace DenBrowser

open RunLib

variable {L : Crates}

/-! ## The forwarding condition -/

section Forwarding

variable {p : Proxy L} {s : Session} {env : Env}

/-- What a refusal's response says about the request. -/
structure Answers (p : Proxy L) (s : Session) (env : Env) (code : Nat) : Prop where
  rateLimit : code = 429 ↔ ¬Admitted p s env
  tooLarge : code = 413 ↔ ∃ p1, ReachesBody p s env p1 ∧ BOUND_BODY_MAX < s.req.body.length
  readError : code = 400 ↔
    ∃ p1, ReachesBody p s env p1 ∧ s.req.body.length ≤ BOUND_BODY_MAX ∧ s.req.readError ≠ none
  otherwise : code = 403 ↔ Admitted p s env ∧
    ¬∃ p1, ReachesBody p s env p1 ∧
      (BOUND_BODY_MAX < s.req.body.length ∨ s.req.readError ≠ none)

theorem Answers.of_rate (h : ¬Admitted p s env) : Answers p s env 429 := by
  refine ⟨by simp [h], ?_, ?_, by simp [h]⟩
  · simp only [Nat.reduceEqDiff, false_iff]
    rintro ⟨p1, hr, _⟩
    exact h hr.admitted
  · simp only [Nat.reduceEqDiff, false_iff]
    rintro ⟨p1, hr, _⟩
    exact h hr.admitted

/-- A request that no body failure stopped is answered 403. -/
theorem Answers.of_no_body (h : Admitted p s env)
    (hbody : ∀ p1, ReachesBody p s env p1 →
      s.req.body.length ≤ BOUND_BODY_MAX ∧ s.req.readError = none) : Answers p s env 403 := by
  refine ⟨by simp [h], ?_, ?_, ?_⟩
  · simp only [Nat.reduceEqDiff, false_iff]
    rintro ⟨p1, hr, hlen⟩
    have := (hbody p1 hr).1
    omega
  · simp only [Nat.reduceEqDiff, false_iff]
    rintro ⟨p1, hr, _, herr⟩
    exact herr (hbody p1 hr).2
  · simp only [h, true_and, true_iff]
    rintro ⟨p1, hr, hlen | herr⟩
    · have := (hbody p1 hr).1
      omega
    · exact herr (hbody p1 hr).2

theorem Refusal.answers {verified : Bool} {reason : Reason} {code : Nat}
    (h : Refusal p s env verified reason code) : Answers p s env code := by
  cases h with
  | rate hn => exact .of_rate hn
  | headers ha _ hnone _ =>
    apply Answers.of_no_body ha
    intro p1 hr
    obtain ⟨i, hi, _⟩ := hr.phaseOne
    exact absurd hi (hnone i)
  | token ha _ hi he =>
    apply Answers.of_no_body ha
    intro p1 hr
    exact absurd he fun he => hr.phaseOne.not_error hi he
  | tooLarge hr hlen =>
    refine ⟨?_, ?_, ?_, ?_⟩
    · simp [hr.admitted]
    · simp only [true_iff]
      exact ⟨_, hr, hlen⟩
    · simp only [Nat.reduceEqDiff, false_iff]
      rintro ⟨_, _, hle, _⟩
      omega
    · simp only [Nat.reduceEqDiff, false_iff, not_and, not_not]
      exact fun _ => ⟨_, hr, Or.inl hlen⟩
  | readFailed hr hlen herr =>
    refine ⟨?_, ?_, ?_, ?_⟩
    · simp [hr.admitted]
    · simp only [Nat.reduceEqDiff, false_iff]
      rintro ⟨_, _, hlt⟩
      omega
    · simp only [true_iff]
      exact ⟨_, hr, hlen, by simp [herr]⟩
    · simp only [Nat.reduceEqDiff, false_iff, not_and, not_not]
      exact fun _ => ⟨_, hr, Or.inr (by simp [herr])⟩
  | commit ha _ h1 _ hread _ _ =>
    apply Answers.of_no_body ha
    intro p1 hr
    have heq := hr.phaseOne.unique h1
    subst heq
    exact hread hr.bound

/-- A refused request is neither bypassed nor attested. -/
theorem Refusal.not_forwarded {verified : Bool} {reason : Reason} {code : Nat}
    (h : Refusal p s env verified reason code) :
    ¬(Admitted p s env ∧ (Bypassed p s ∨ ∃ p1, Attested p s env p1)) := by
  rintro ⟨hadmitted, hforward⟩
  cases h with
  | rate hn => exact hn hadmitted
  | headers _ hb hnone _ =>
    rcases hforward with h | ⟨p1, hat⟩
    · exact hb h
    · obtain ⟨i, hi, _⟩ := hat.phaseOne
      exact hnone i hi
  | token _ hb hi he =>
    rcases hforward with h | ⟨p1, hat⟩
    · exact hb h
    · exact hat.phaseOne.not_error hi he
  | tooLarge hr hlen =>
    rcases hforward with h | ⟨p1, hat⟩
    · exact hr.notBypassed h
    · have heq := hr.phaseOne.unique hat.phaseOne
      subst heq
      rcases hat.body with hu | ⟨_, hle, _⟩
      · exact hr.bound hu
      · omega
  | readFailed hr _ herr =>
    rcases hforward with h | ⟨p1, hat⟩
    · exact hr.notBypassed h
    · have heq := hr.phaseOne.unique hat.phaseOne
      subst heq
      rcases hat.body with hu | ⟨hnone, _, _⟩
      · exact hr.bound hu
      · rw [herr] at hnone
        cases hnone
  | commit _ hb h1 _ _ hnot _ =>
    rcases hforward with h | ⟨p1, hat⟩
    · exact hb h
    · have heq := h1.unique hat.phaseOne
      subst heq
      exact hnot ⟨hat.body, hat.commit⟩

/-- **The exact forwarding condition.**  The gate returns `Ok(false)` exactly for an admitted
request that is bypassed or attested, and then answers nothing itself; otherwise it requests
exactly one response: 429 for the rate limit, 413 for an oversize bound body, 400 for one that
cannot be read, and 403 for everything else. -/
theorem requestFilter_forwards_iff (p : Proxy L) (s : Session) (env : Env) :
    let o := requestFilter p s env
    (o.2 = false ↔ Admitted p s env ∧ (Bypassed p s ∨ ∃ p1, Attested p s env p1)) ∧
      (o.2 = false → o.1.responses = []) ∧
      (o.2 = true → ∃ code, o.1.responses = [code] ∧ Answers p s env code) := by
  have hend := requestFilter_ending p s env
  generalize requestFilter p s env = o at hend ⊢
  dsimp only
  cases hend with
  | refused _ hwhy hat =>
    refine ⟨?_, fun h => (nomatch h), fun _ => ⟨_, hat.responses, hwhy.answers⟩⟩
    simpa using hwhy.not_forwarded
  | machineRefused _ _ ha hb hm _ hat =>
    have hreach : ∀ p1, ¬ReachesBody p s env p1 := fun p1 hr => hm hr.machine
    refine ⟨?_, fun h => (nomatch h), fun _ => ⟨403, hat.responses, ?_⟩⟩
    · simp only [Bool.true_eq_false, false_iff]
      rintro ⟨_, h | ⟨p1, h⟩⟩
      · exact hb h
      · exact hm h.machine
    · exact .of_no_body ha fun p1 hr => absurd hr (hreach p1)
  | bypassed _ ha hb hat =>
    exact ⟨by simp [ha, hb], fun _ => hat.responses, fun h => (nomatch h)⟩
  | forwarded _ ha hb hatt hat =>
    refine ⟨?_, fun _ => hat.responses, fun h => (nomatch h)⟩
    simp only [true_iff]
    exact ⟨ha, Or.inr ⟨_, hatt⟩⟩

/-! ## Spending the nonce -/

/-- The gate asks the resolver only for names of accepted certificates, and only after
phase 1. -/
theorem requestFilter_queries (p : Proxy L) (s : Session) (env : Env) {host : Str}
    (h : host ∈ (requestFilter p s env).1.queries) : Asked p s env host := by
  have hend := requestFilter_ending p s env
  generalize requestFilter p s env = o at h hend
  cases hend with
  | refused _ _ hat => exact hat.queries host h
  | machineRefused _ _ _ _ _ _ hat => exact hat.queries host h
  | bypassed _ _ _ hat => exact hat.queries host h
  | forwarded _ _ _ _ hat => exact hat.queries host h

end Forwarding

/-- **Machine identity and DNS cache safety.**  Over every interleaving of `verify` calls, an
accepted call has a certificate that passed the character check, the allowlist and chain
verification, and an address the resolver gave for exactly its name, in this call or recently
enough; a name without a stored positive answer is rejected while the resolver fails; and the
gate asks the resolver only for names of accepted certificates of requests that passed
phase 1. -/
theorem machineIdentity_safe {m : MachineIdentity L} {tr : List (DnsAct × List DnsEvent)}
    {w w' : DnsWorld} {a : DnsAct} {evs : List DnsEvent} (h : Run (dnsSystem m) tr w)
    (hs : w.step m a = some (w', evs)) :
    (∀ r c machine, DnsEvent.returned r c (.ok machine) ∈ evs →
      ∃ ip addrs, c.clientIp = some ip ∧ CertAccepted m c.cert c.wall machine ∧ ip ∈ addrs ∧
        AddressSource m tr w.now r machine.hostname addrs) ∧
      (∀ r c res host, DnsEvent.returned r c res ∈ evs →
        DnsEvent.answered r host (.error ()) ∈ dnsEvents tr →
        (∀ addrs t, StoredAnswer tr host addrs t → addrs = []) → ∃ e, res = .error e) ∧
      ∀ (p : Proxy L) (s : Session) (env : Env), p.machine = some m →
        ∀ host ∈ (requestFilter p s env).1.queries,
          ∃ p1 cert machine, PhaseOneOk p s env p1 ∧
            headerStr s.req.headers MACHINE_CERT_HEADER = some cert ∧
            CertAccepted m cert env.chainWall machine ∧ machine.hostname = host := by
  refine ⟨fun r c machine hr => accepted_address h hs hr, ?_, ?_⟩
  · intro r c res host hr hfail hnone
    exact rejected_without_answer h hs hr hfail hnone
  · intro p s env hm host hhost
    obtain ⟨m', p1, cert, machine, hm', h1, hcert, hacc, hname⟩ :=
      requestFilter_queries p s env hhost
    rw [hm] at hm'
    cases hm'
    exact ⟨p1, cert, machine, h1, hcert, hacc, hname⟩

/-! ## A workstation -/

/-- A machine certificate, DER. -/
def workstationDer : Bytes :=
  beBytes 32 0x308201153081bd020102300a06082a8648ce3d04030230153113301106035504 ++
    beBytes 32 0x030c0a6d616368696e652d6361301e170d3236313131383233313232315a170d ++
    beBytes 32 0x3336313131353233313232315a301a3118301606035504030c0f7773312e6578 ++
    beBytes 32 0x616d706c652e636f6d3059301306072a8648ce3d020106082a8648ce3d030107 ++
    beBytes 32 0x0342000413dbf59e9fccc2d6f713714aecc8a4b2fe0b0587c19000ce81f90d92 ++
    beBytes 32 0x23f88aee91ef330958671116e37b9f9506bcb25c3f335a216b7b8fd6af3676cb ++
    beBytes 32 0x2fa6385c300a06082a8648ce3d0403020347003044022006514936d01eea8ea5 ++
    beBytes 32 0xb26b21f5c2f42f959034155f2ccd9fcfb29029af7139760220414f8b4126e0bf ++
    beBytes 25 0xc09a8c9b83a60cacdf96fbe549b083001ba530ec95e5764514

def workstationName : Str := "ws1.example.com".toList

/-- The crates as they behave on the recorded certificate, which the store's CA issued for the
ten years from 2026-11-18 23:12:21. -/
def workstationCrates : Crates where
  toCrypto := recorded []
  IpNet := IpAddr
  netContains net ip := net == ip
  GlobMatcher := Str
  isMatch g s := g == s
  Rate := Nat
  observe rate _ _ := (rate + 1, rate + 1)
  X509 := Unit
  X509Store := Unit
  fromDer der := if der = workstationDer then some () else none
  subject _ := [⟨some "CN".toList, "2.5.4.3".toList, true, some workstationName, workstationName⟩]
  subjectAltNames _ := none
  chainVerify _ _ wall :=
    if wall.nanos < 1795043541 * NANOS then .ok ⟨false, 9, "certificate is not yet valid".toList⟩
    else if 2110403541 * NANOS < wall.nanos then .ok ⟨false, 10, "certificate has expired".toList⟩
    else .ok ⟨true, 0, "ok".toList⟩

def workstationIdentity : MachineIdentity workstationCrates where
  store := ()
  allowed := [workstationName]
  required := true
  dnsTtl := 60 * NANOS
  dnsNegativeTtl := 5 * NANOS
  dnsStaleGrace := 300 * NANOS

def workstationIp : IpAddr := .v4 ⟨[192, 0, 2, 7], rfl⟩

def workstationCall : VerifyCall where
  cert := Base64.encode workstationDer
  clientIp := some workstationIp
  wall := ⟨1800000000 * NANOS, by decide, by decide⟩

def workstation : VerifiedMachine := ⟨workstationName, "CN=ws1.example.com".toList⟩

/-- A first call for a workstation, whose name the resolver answers with its address. -/
theorem machineIdentity_safe_workstation : ∃ tr w,
    Run (dnsSystem workstationIdentity) tr w ∧
      ∃ addrs, workstationIp ∈ addrs ∧
        AddressSource workstationIdentity tr w.now 0 workstationName addrs := by
  have hcert : workstationIdentity.verifyCert workstationCall.cert workstationCall.wall =
      .ok workstation := by decide +kernel
  have hip : workstationCall.clientIp = some workstationIp := rfl
  have h0 : Run (dnsSystem workstationIdentity) [] ⟨0, fun _ => none, fun _ => .idle⟩ := .init
  have h1 := h0.snoc (i := .call 0 workstationCall)
    (by simp only [dnsSystem, DnsWorld.step, hip, hcert]; rfl)
  have h2 := h1.snoc (i := .look 0)
    (by simp only [dnsSystem, DnsWorld.step, DnsWorld.set, Function.update_self,
      MachineIdentity.freshAnswer]; rfl)
  have h3 := h2.snoc (i := .answer 0 (.ok [workstationIp]))
    (by simp only [dnsSystem, DnsWorld.step, DnsWorld.set, Function.update_self]; rfl)
  obtain ⟨hsafe, _⟩ := machineIdentity_safe h3 (a := .settle 0 (fun _ => 0) NANOS)
    (by simp only [DnsWorld.step, DnsWorld.set, Function.update_self]; rfl)
  obtain ⟨ip, addrs, hip', _, hmem, hsrc⟩ := hsafe 0 workstationCall workstation
    (List.mem_cons_of_mem _ (List.mem_singleton.2 (by
      rw [checkAddress_ok_iff.2 ⟨rfl, _, rfl, List.mem_singleton.2 rfl⟩])))
  rw [hip] at hip'
  cases hip'
  exact ⟨_, _, h3, addrs, hmem, hsrc⟩

end DenBrowser
