import DenBrowser.Proxy.Gate

/-!
# What the gate writes

Every accumulator that `request_filter` can leave is built from the opening one by the setters
of `RequestAudit`, with texts of a few kinds and with what the machine check returned.

* `Written` — those accumulators;
* `requestFilter_written` — the gate leaves one of them, however it ends;
* `Written.request` — the request's own fields stay as they were opened.
-/

set_option autoImplicit false

namespace DenBrowser

variable {L : Crates}

section Written

variable (p : Proxy L) (s : Session) (env : Env)

/-- The texts of the refusals that are not the machine layer's. -/
inductive GateMessage : Str → Prop where
  | rate : GateMessage "request rate limit exceeded".toList
  | noHeaders : GateMessage noHeadersMessage
  | incomplete (hasHost : Bool) :
      GateMessage (describeIncomplete s.req.headers hasHost s.machinePresent)
  | token {i : AttestInputs} {e : AttestError} :
      verifyHeaders L.toCrypto p.privateKey i env.wall1 env.cache1 = .error e →
      GateMessage e.display
  | tooLarge : GateMessage bodyTooLargeMessage
  | readFailed {etype : Str} : s.req.readError = some etype →
      GateMessage ("could not read request body: ".toList ++ etype)
  | bodyHash : GateMessage AttestError.bodyHashMismatch.display
  | commit {p1 : PhaseOne} {e : AttestError} :
      (commitNonce env.cache2 p1 env.wall2 env.mono2).2 = .error e → GateMessage e.display

/-- The request has come as far as the check of the certificate it presents. -/
structure MachineChecked (m : MachineIdentity L) (cert : Str) : Prop where
  admitted : Admitted p s env
  notBypassed : ¬Bypassed p s
  phaseOne : ∃ p1, PhaseOneOk p s env p1
  machine : p.machine = some m
  presented : headerStr s.req.headers MACHINE_CERT_HEADER = some cert

/-- The errors the machine layer refuses with. -/
inductive GateMachineError : MachineError → Prop where
  | missing : GateMachineError .missing
  | unreadable : GateMachineError .notBase64
  | checked {m : MachineIdentity L} {cert : Str} {e : MachineError} :
      MachineChecked p s env m cert →
      (m.verify cert s.clientIp env.chainWall env.dns).result = .error e → GateMachineError e

/-- The accumulators the gate can build. -/
inductive Written : RequestAudit → Prop where
  | opened : Written (openAudit p s)
  | machineAbsent {a : RequestAudit} : Written a → Written a.machineAbsent
  | tokenVerified {a : RequestAudit} (binding : Binding) : Written a →
      Written (a.tokenVerifiedWith binding)
  | machineVerified {a : RequestAudit} {m : MachineIdentity L} {cert : Str}
      {machine : VerifiedMachine} : Written a → MachineChecked p s env m cert →
      (m.verify cert s.clientIp env.chainWall env.dns).result = .ok machine →
      Written (a.machineVerified machine)
  | rejected {a : RequestAudit} {message : Str} (reason : Reason) : Written a →
      GateMessage p s env message → Written (a.reject reason message)
  | machineRejected {a : RequestAudit} {e : MachineError} : Written a →
      GateMachineError p s env e → Written (a.machineRejected e)
  | forwarded {a : RequestAudit} : Written a → Written a.forward
  | bypassed {a : RequestAudit} (subject : Str) : Written a → Written (a.bypass subject)

end Written

section Steps

variable {p : Proxy L} {s : Session} {env : Env} {f : Flow L} {p1 : PhaseOne}

theorem settle_written (hf : Written p s env f.ctx) {r : NonceCache × Except AttestError Unit}
    (hr : ∀ e, r.2 = .error e → GateMessage p s env e.display) :
    Written p s env (f.settle r).1.ctx := by
  unfold Flow.settle
  cases hc : r.2 with
  | error e => exact .rejected _ hf (hr e hc)
  | ok u => exact .forwarded hf

theorem readBody_failed {readError : Option Str} {etype : Str} : ∀ {total : Nat}
    {hashed : Bytes} {chunks : List Bytes},
    readBody readError total hashed chunks = .failed etype → readError = some etype := by
  intro total hashed chunks
  induction chunks generalizing total hashed with
  | nil =>
    intro h
    cases readError <;> simp_all [readBody]
  | cons chunk chunks ih =>
    intro h
    unfold readBody at h
    split at h
    · cases h
    · exact ih h

theorem bodyStep_written (hf : Written p s env f.ctx) :
    Written p s env (bodyStep s env f p1).1.ctx := by
  have hcommit : ∀ e, (commitNonce env.cache2 p1 env.wall2 env.mono2).2 = .error e →
      GateMessage p s env e.display := fun e he => .commit he
  unfold bodyStep
  split
  · exact settle_written hf hcommit
  · split
    · exact .rejected _ hf .tooLarge
    · rename_i etype hread
      exact .rejected _ hf (.readFailed (readBody_failed hread))
    · rename_i body _
      refine settle_written hf fun e he => ?_
      by_cases hmatch : p1.bodyMatches (L.sha256 body)
      · rw [verifyBodyAndCommit_eq _ _ _ _ _ hmatch] at he
        exact hcommit e he
      · rw [verifyBodyAndCommit_mismatch _ _ _ _ _ hmatch] at he
        cases he
        exact .bodyHash

theorem machineStep_written (hf : Written p s env f.ctx) (hadmitted : Admitted p s env)
    (hnot : ¬Bypassed p s) (h1 : PhaseOneOk p s env p1)
    (hc : f.ctx.Unchecked (headerStr s.req.headers MACHINE_CERT_HEADER)) :
    Written p s env (machineStep p s env f p1).1.ctx := by
  unfold machineStep
  split
  · exact bodyStep_written hf
  · rename_i m hm
    split_ifs with hpresent
    · exact bodyStep_written hf
    · cases hcert : f.ctx.presentedMachineCert with
      | none => exact .machineRejected hf .unreadable
      | some cert =>
        have hchecked : MachineChecked p s env m cert :=
          ⟨hadmitted, hnot, ⟨p1, h1⟩, hm, by rw [← hc.presented, hcert]⟩
        dsimp only
        split
        · rename_i e hv
          exact .machineRejected hf (.checked hchecked hv)
        · rename_i machine hv
          exact bodyStep_written (.machineVerified hf hchecked hv)

theorem tokenStep_written {i : AttestInputs} (hf : Written p s env f.ctx)
    (hadmitted : Admitted p s env) (hnot : ¬Bypassed p s) (hi : s.req.Presents i)
    (hu : f.ctx.Undecided (headerStr s.req.headers NONCE_HEADER) false)
    (hc : f.ctx.Unchecked (headerStr s.req.headers MACHINE_CERT_HEADER)) :
    Written p s env (tokenStep p s env f i.ts i.nonceB64 i.tokenB64 i.host).1.ctx := by
  have heq : (⟨i.ts, i.nonceB64, i.tokenB64, i.host, s.req.method, s.req.path⟩ :
      AttestInputs) = i := by
    rw [hi.method, hi.path]
  unfold tokenStep
  rw [heq]
  cases hv : verifyHeaders L.toCrypto p.privateKey i env.wall1 env.cache1 with
  | error e => exact .rejected _ hf (.token hv)
  | ok p1 =>
    have hc' := (hu.tokenVerifiedWith hc (.of p1.bodyBinding)).2
    exact machineStep_written (.tokenVerified _ hf) hadmitted hnot ⟨i, hi, hv⟩ hc'

theorem preflightStep_written {i : AttestInputs} (hf : Written p s env f.ctx)
    (hadmitted : Admitted p s env) (hnot : ¬Bypassed p s) (hi : s.req.Presents i)
    (hu : f.ctx.Undecided (headerStr s.req.headers NONCE_HEADER) false)
    (hc : f.ctx.Unchecked (headerStr s.req.headers MACHINE_CERT_HEADER)) :
    Written p s env (preflightStep p s env f i.ts i.nonceB64 i.tokenB64 i.host).1.ctx := by
  unfold preflightStep
  split
  · exact tokenStep_written hf hadmitted hnot hi hu hc
  · split_ifs
    · exact tokenStep_written hf hadmitted hnot hi hu hc
    · exact .machineRejected hf .missing
    · obtain ⟨hu', hc'⟩ := hu.machineAbsent hc
      exact tokenStep_written (.machineAbsent hf) hadmitted hnot hi hu' hc'

theorem headersStep_written (hf : Written p s env f.ctx) (hadmitted : Admitted p s env)
    (hnot : ¬Bypassed p s)
    (hu : f.ctx.Undecided (headerStr s.req.headers NONCE_HEADER) false)
    (hc : f.ctx.Unchecked (headerStr s.req.headers MACHINE_CERT_HEADER)) :
    Written p s env (headersStep p s env f).1.ctx := by
  unfold headersStep
  dsimp only
  split
  · rename_i ts nonce token host hts hnonce htoken hhost
    exact preflightStep_written (i := ⟨ts, nonce, token, host, s.req.method, s.req.path⟩) hf
      hadmitted hnot ⟨hts, hnonce, htoken, hhost, rfl, rfl⟩ hu hc
  · split
    · exact .rejected _ hf .noHeaders
    · exact .rejected _ hf (.incomplete _)

/-- **What the gate leaves in the accumulator**, however it ends. -/
theorem requestFilter_written (p : Proxy L) (s : Session) (env : Env) :
    Written p s env (requestFilter p s env).1.ctx := by
  obtain ⟨hu, hc⟩ := openAudit_undecided (p := p) (s := s)
  unfold requestFilter
  dsimp only
  split_ifs with hrate
  · exact .rejected _ .opened .rate
  · have hadmitted : Admitted p s env := by
      rw [← rateStep_admits]
      simpa using hrate
    cases hsub : bypassSubject p s with
    | some subject => exact .bypassed subject .opened
    | none =>
      have hnot : ¬Bypassed p s := by
        rw [← bypassSubject_isSome, hsub]
        rintro ⟨_, h⟩
        cases h
      exact headersStep_written .opened hadmitted hnot hu hc

end Steps

/-! ## The request's own fields -/

section Fields

variable {p : Proxy L} {s : Session} {env : Env} {a : RequestAudit}

/-- The host and the method are written once, the nonce with them. -/
theorem Written.request (h : Written p s env a) :
    a.host = (requestHost s.req).map (bounded · MAX_HOST_CHARS) ∧
      a.method = some (bounded s.req.method MAX_METHOD_CHARS) ∧
      a.attestation.nonce =
        (headerStr s.req.headers NONCE_HEADER).map (bounded · MAX_NONCE_CHARS) := by
  induction h with
  | opened =>
    unfold openAudit
    dsimp only
    split <;> exact ⟨rfl, rfl, rfl⟩
  | machineAbsent _ ih => exact ih
  | tokenVerified _ _ ih => exact ih
  | machineVerified _ _ _ ih => exact ih
  | rejected _ _ _ ih => exact ih
  | machineRejected _ _ ih => exact ih
  | forwarded _ ih => exact ih
  | bypassed _ _ ih => exact ih

end Fields

end DenBrowser
