import DenBrowser.Proxy.Serving

/-!
# The steps of the proxy at work

What a step of the verifier, of the machine check and of the gate makes of what is known of its
request.

* `verifier_so`, `machine_so` — a step of the verifier, of the machine check;
* `arrive_so`, `checked_so`, `unread_so`, `read_so` — a step of the gate.
-/

set_option autoImplicit false

namespace DenBrowser

open RunLib

variable {L : Crates} {p : Proxy L} {c₀ : Clocks} {tr : List (ServeAct × Option Forwarded)}
  {w : Serving L} {r : Nat}

/-! ## The verifier -/

theorem go_rests {K : Crypto} {sk : K.SecretKey} {v : World} (h : (v.reqs r).rests = true) :
    v.go K sk r = none := by
  unfold World.go
  cases hr : v.reqs r <;> rw [hr] at h <;> first | rfl | cases h

/-- A step for one request leaves the clocks and the others alone. -/
theorem go_frame {K : Crypto} {sk : K.SecretKey} {v v' : World} {o : Option CommitReturn}
    (h : v.go K sk r = some (v', o)) :
    v'.clocks = v.clocks ∧ ∀ q, q ≠ r → v'.reqs q = v.reqs q := by
  have hset : ∀ (u : World) (a : Phase), u.reqs = v.reqs → u.clocks = v.clocks →
      (u.set r a).clocks = v.clocks ∧ ∀ q, q ≠ r → (u.set r a).reqs q = v.reqs q := by
    intro u a hreqs hclocks
    refine ⟨hclocks, fun q hq => ?_⟩
    show Function.update u.reqs r a q = v.reqs q
    rw [Function.update_of_ne hq, hreqs]
  unfold World.go at h
  split at h
  · split at h
    · cases h; exact hset _ _ rfl rfl
    · split at h
      · cases h; exact hset _ _ rfl rfl
      · cases h; exact hset _ _ rfl rfl
  · split at h
    · split at h
      · cases h; exact hset _ _ rfl rfl
      · cases h; exact hset _ _ rfl rfl
    · cases h
  · split at h
    · cases h; exact hset _ _ rfl rfl
    · cases h; exact hset _ _ rfl rfl
  · split at h
    · cases h; exact hset _ _ rfl rfl
    · cases h
  · split at h
    · cases h; exact hset { v with lock := none } _ rfl rfl
    · cases h; exact hset _ _ rfl rfl
  · split at h
    · cases h; exact hset { v with lock := none } _ rfl rfl
    · cases h; exact hset _ _ rfl rfl
  · cases h; exact hset _ _ rfl rfl
  · rename_i p1 now hr
    cases h
    exact hset ⟨v.clocks, (v.cache.commit p1.nonce now).1, none, v.reqs⟩ _ rfl rfl
  · cases h

/-- Phase 1 goes on, or ends as `verifyHeaders` does. -/
theorem go_phaseOne {i : AttestInputs} (hw : Early p c₀ tr r w)
    (hso : PhaseOneSo p c₀ tr r i (w.attest.reqs r)) {v : World} {o : Option CommitReturn}
    (hgo : w.attest.go L.toCrypto p.privateKey r = some (v, o)) :
    o = none ∧ (PhaseOneSo p c₀ tr r i (v.reqs r) ∨
      ∃ w₁ w₂, Early p c₀ tr r w₁ ∧ Early p c₀ tr r w₂ ∧
        ((∃ e, v.reqs r = .rejected e ∧ verifyHeaders L.toCrypto p.privateKey i
            w₁.attest.clocks.wall w₂.attest.cache = .error e) ∨
          ∃ p1, v.reqs r = .accepted p1 ∧ verifyHeaders L.toCrypto p.privateKey i
            w₁.attest.clocks.wall w₂.attest.cache = .ok p1)) := by
  have hself : ∀ a, (w.attest.set r a).reqs r = a := fun a => by simp [World.set]
  unfold World.go at hgo
  cases hr : w.attest.reqs r with
  | arrived j =>
    rw [hr] at hso hgo
    obtain rfl : j = i := hso
    dsimp only at hgo
    cases hts : checkTimestamp j w.attest.clocks.wall with
    | error e =>
      rw [hts] at hgo
      cases hgo
      refine ⟨rfl, Or.inr ⟨w, w, hw, hw, Or.inl ⟨e, hself _, ?_⟩⟩⟩
      simp only [verifyHeaders, hts]
    | ok ts =>
      rw [hts] at hgo
      dsimp only at hgo
      cases hn : decodeNonce L.toCrypto j with
      | error e =>
        rw [hn] at hgo
        cases hgo
        refine ⟨rfl, Or.inr ⟨w, w, hw, hw, Or.inl ⟨e, hself _, ?_⟩⟩⟩
        simp only [verifyHeaders, hts, hn]
      | ok n =>
        rw [hn] at hgo
        cases hgo
        refine ⟨rfl, Or.inl ?_⟩
        rw [hself]
        exact ⟨rfl, hn, w, hw, hts⟩
  | lookup j ts n =>
    rw [hr] at hso hgo
    obtain ⟨rfl, hn, w₁, hw₁, hts⟩ := hso
    dsimp only at hgo
    split_ifs at hgo with hlock hseen
    · cases hgo
      refine ⟨rfl, Or.inr ⟨w₁, w, hw₁, hw, Or.inl ⟨_, hself _, ?_⟩⟩⟩
      simp only [verifyHeaders, hts, hn, hseen, if_pos]
    · cases hgo
      refine ⟨rfl, Or.inl ?_⟩
      rw [hself]
      exact ⟨rfl, hn, ⟨w₁, hw₁, hts⟩, w, hw, by simpa using hseen⟩
  | opening j ts n =>
    rw [hr] at hso hgo
    obtain ⟨rfl, hn, ⟨w₁, hw₁, hts⟩, w₂, hw₂, hseen⟩ := hso
    dsimp only at hgo
    have hverify : verifyHeaders L.toCrypto p.privateKey j w₁.attest.clocks.wall w₂.attest.cache =
        (openToken L.toCrypto p.privateKey j).map fun b => ⟨n, b, ts⟩ := by
      simp only [verifyHeaders, hts, hn, hseen, Bool.false_eq_true, if_false]
      cases openToken L.toCrypto p.privateKey j <;> rfl
    cases hb : openToken L.toCrypto p.privateKey j with
    | error e =>
      rw [hb] at hgo hverify
      cases hgo
      exact ⟨rfl, Or.inr ⟨w₁, w₂, hw₁, hw₂, Or.inl ⟨e, hself _, hverify⟩⟩⟩
    | ok b =>
      rw [hb] at hgo hverify
      cases hgo
      exact ⟨rfl, Or.inr ⟨w₁, w₂, hw₁, hw₂, Or.inr ⟨_, hself _, hverify⟩⟩⟩
  | _ => rw [hr] at hso; exact hso.elim

/-- A commit goes on, or returns what `commitNonce` does. -/
theorem go_commit {p1 : PhaseOne} (hw : During p c₀ tr r w) (hlocked : Locked w.attest)
    (hso : CommitSo p c₀ tr r p1 (w.attest.reqs r)) {v : World} {o : Option CommitReturn}
    (hgo : w.attest.go L.toCrypto p.privateKey r = some (v, o)) :
    (o = none ∧ CommitSo p c₀ tr r p1 (v.reqs r)) ∨
      ∃ res w₁ w₂ w₃, During p c₀ tr r w₁ ∧ During p c₀ tr r w₂ ∧ During p c₀ tr r w₃ ∧
        o = some ⟨p1, res⟩ ∧ v.reqs r = .finished res ∧
        res = (commitNonce w₁.attest.cache p1 w₂.attest.clocks.wall w₃.attest.clocks.mono).2 := by
  have hself : ∀ (u : World) (a : Phase), (u.set r a).reqs r = a := fun u a => by
    simp [World.set]
  have hunseen := hlocked.unseen r
  unfold World.go at hgo
  cases hr : w.attest.reqs r with
  | waiting q =>
    rw [hr] at hso hgo
    obtain rfl : q = p1 := hso
    dsimp only at hgo
    split_ifs at hgo
    cases hgo
    refine Or.inl ⟨rfl, ?_⟩
    rw [hself]
    rfl
  | locked q =>
    rw [hr] at hso hgo
    obtain rfl : q = p1 := hso
    dsimp only at hgo
    split_ifs at hgo with hseen
    · cases hgo
      refine Or.inr ⟨_, w, w, w, hw, hw, hw, rfl, hself _ _, ?_⟩
      rw [commitNonce, if_pos hseen]
    · cases hgo
      refine Or.inl ⟨rfl, ?_⟩
      rw [hself]
      rfl
  | window q =>
    rw [hr] at hso hgo hunseen
    obtain rfl : q = p1 := hso
    dsimp only at hgo
    have hseen : ¬w.attest.cache.contains q.nonce = true := by
      simpa [NonceCache.contains, Unseen] using hunseen
    cases hwin : checkCommitWindow q.ts (unixNow w.attest.clocks.wall) with
    | error e =>
      rw [hwin] at hgo
      cases hgo
      refine Or.inr ⟨_, w, w, w, hw, hw, hw, rfl, hself _ _, ?_⟩
      rw [commitNonce, if_neg hseen, hwin]
    | ok u =>
      rw [hwin] at hgo
      cases hgo
      refine Or.inl ⟨rfl, ?_⟩
      rw [hself]
      exact ⟨rfl, w, hw, hwin⟩
  | stamping q =>
    rw [hr] at hso hgo
    obtain ⟨rfl, hwin⟩ := hso
    cases hgo
    refine Or.inl ⟨rfl, ?_⟩
    rw [hself]
    exact ⟨rfl, hwin, w, hw, rfl⟩
  | stamped q now =>
    rw [hr] at hso hgo hunseen
    obtain ⟨rfl, ⟨w₂, hw₂, hwin⟩, w₃, hw₃, hmono⟩ := hso
    have hseen : ¬w.attest.cache.contains q.nonce = true := by
      simpa [NonceCache.contains, Unseen] using hunseen
    cases hgo
    refine Or.inr ⟨_, w, w₂, w₃, hw, hw₂, hw₃, rfl, hself _ _, ?_⟩
    rw [commitNonce, if_neg hseen, hwin, hmono]
  | _ => rw [hr] at hso; exact hso.elim

/-- What the rejection of a request is recorded as. -/
theorem action_refuse (ctx : RequestAudit) (reason : Reason) (message : Str) (code : Nat) :
    (Outcome.refuse (ctx.reject reason message) code).ctx.action ≠ some .forward := by
  show some (if reason = .rateLimited then Action.rateLimit else .reject) ≠ some .forward
  split_ifs <;> decide

theorem action_machineRejected (ctx : RequestAudit) (e : MachineError) (code : Nat) :
    (Outcome.refuse (ctx.machineRejected e) code).ctx.action ≠ some .forward :=
  action_refuse _ _ _ _

theorem phaseOne_of_verified {K : Crypto} {sk : K.SecretKey} {s : Session} {i : AttestInputs}
    {wall : SystemTime} {cache : NonceCache} {p1 : PhaseOne} (hi : s.req.Presents i)
    (h : verifyHeaders K sk i wall cache = .ok p1) : Proves K s p1 := by
  obtain ⟨hts, hn, _, _⟩ := verifyHeaders_ok_iff.1 h
  exact ⟨i, hi, hn, (checkTimestamp_ok_iff.1 hts).1⟩

/-- **A step of the verifier.** -/
theorem verifier_so (hw : (w.gate r).live = true → During p c₀ tr r w) (hlocked : Locked w.attest)
    (hso : RequestSo p c₀ tr r (w.attest.reqs r) (w.dns.calls r) (w.gate r)) {v : World}
    {o : Option CommitReturn} (hgo : w.attest.go L.toCrypto p.privateKey r = some (v, o))
    (hforward : ∀ p1, o = some ⟨p1, .ok ()⟩ → (r, p1) ∈ forwards tr) :
    RequestSo p c₀ tr r (v.reqs r) (w.dns.calls r) ((w.gate r).afterVerifier (v.reqs r)) := by
  cases hg : w.gate r with
  | idle =>
    rw [hg] at hso
    rw [go_rests (by rw [hso.1]; rfl)] at hgo
    cases hgo
  | phaseOne s ctx i =>
    rw [hg] at hso
    have hw : Early p c₀ tr r w := ⟨hw (by rw [hg]; rfl), by rw [hg]; rfl⟩
    obtain ⟨hd, hi, hphase, hdet⟩ := hso
    obtain ⟨_, hgoes | ⟨w₁, w₂, hw₁, hw₂, hends⟩⟩ := go_phaseOne hw hphase hgo
    · have hstay : (GatePhase.phaseOne s ctx i).afterVerifier (v.reqs r) = .phaseOne s ctx i := by
        cases hr : v.reqs r <;> rw [hr] at hgoes <;> first | rfl | exact hgoes.elim
      rw [hstay]
      exact ⟨hd, hi, hgoes, hdet⟩
    · rcases hends with ⟨e, hr, hverify⟩ | ⟨p1, hr, hverify⟩
      · rw [hr]
        refine ⟨rfl, by rw [hd]; rfl, hdet.end fun limiter env₀ hseen => ?_, fun haction => ?_⟩
        · refine ⟨{ env₀ with wall1 := w₁.attest.clocks.wall, cache1 := w₂.attest.cache },
            { hseen with wall1 := ⟨w₁, hw₁, rfl⟩, cache1 := ⟨w₂, hw₂, rfl⟩ },
            rfl, ?_⟩
          simp only [phaseOneOutcome, hverify]
        · exact absurd haction (action_refuse _ _ _ _)
      · rw [hr]
        refine ⟨hd, rfl, phaseOne_of_verified hi hverify, hdet.read fun limiter env₀ hseen => ?_⟩
        refine ⟨{ env₀ with wall1 := w₁.attest.clocks.wall, cache1 := w₂.attest.cache },
          { hseen with wall1 := ⟨w₁, hw₁, rfl⟩, cache1 := ⟨w₂, hw₂, rfl⟩ },
          fun env henv => ⟨henv.1, ?_⟩⟩
        simp only [phaseOneOutcome, henv.2.1, henv.2.2, hverify]
  | attested s ctx p1 =>
    rw [hg] at hso
    rw [go_rests (by rw [hso.2.1]; rfl)] at hgo
    cases hgo
  | identifying s ctx p1 =>
    rw [hg] at hso
    rw [go_rests (by rw [hso.1]; rfl)] at hgo
    cases hgo
  | reading s ctx p1 =>
    rw [hg] at hso
    rw [go_rests (by rw [hso.2.1]; rfl)] at hgo
    cases hgo
  | committing s ctx p1 =>
    rw [hg] at hso
    have hw := hw (by rw [hg]; rfl)
    obtain ⟨hd, hcommit, hproves, hdet⟩ := hso
    rcases go_commit hw hlocked hcommit hgo with
      ⟨_, hgoes⟩ | ⟨res, w₁, w₂, w₃, hw₁, hw₂, hw₃, ho, hr, hres⟩
    · have hstay : (GatePhase.committing s ctx p1).afterVerifier (v.reqs r) =
          .committing s ctx p1 := by
        cases hr : v.reqs r <;> rw [hr] at hgoes <;> first | rfl | exact hgoes.elim
      rw [hstay]
      exact ⟨hd, hgoes, hproves, hdet⟩
    · rw [hr]
      refine ⟨rfl, hd, hdet.end fun limiter env₀ hseen => ?_, fun haction => ?_⟩
      · refine ⟨{ env₀ with
            cache2 := w₁.attest.cache
            wall2 := w₂.attest.clocks.wall
            mono2 := w₃.attest.clocks.mono },
          { hseen with
            cache2 := ⟨w₁, hw₁, rfl⟩
            wall2 := ⟨w₂, hw₂, rfl⟩
            mono2 := ⟨w₃, hw₃, rfl⟩ }, ⟨⟨rfl, rfl, rfl⟩, rfl, rfl⟩, ?_⟩
        simp only [hres]
      · cases res with
        | error e => exact absurd haction (action_refuse _ _ _ _)
        | ok u => exact ⟨p1, hforward p1 ho, hproves⟩
  | ended s o' =>
    rw [hg] at hso
    rw [go_rests hso.1] at hgo
    cases hgo

/-! ## The machine check -/

/-- The acts of the machine check that go on with a call. -/
inductive GoesOn (r : Nat) : DnsAct → Prop
  | look : GoesOn r (.look r)
  | answer (x : Except Unit (List IpAddr)) : GoesOn r (.answer r x)
  | settle (sweep : Str → Nat) (d : Nat) : GoesOn r (.settle r sweep d)

theorem dns_rests {m : MachineIdentity L} {v : DnsWorld} {a : DnsAct} (ha : GoesOn r a)
    (h : (v.calls r).rests = true) : v.step m a = none := by
  cases hr : v.calls r with
  | idle => cases ha <;> simp only [DnsWorld.step, hr]
  | returned => cases ha <;> simp only [DnsWorld.step, hr]
  | _ => rw [hr] at h; cases h

theorem dns_frame {m : MachineIdentity L} {v v' : DnsWorld} {a : DnsAct} {evs : List DnsEvent}
    (ha : GoesOn r a ∨ ∃ c, a = .call r c) (h : v.step m a = some (v', evs)) :
    ∀ q, q ≠ r → v'.calls q = v.calls q := by
  have hset : ∀ (u : DnsWorld) (d : CallPhase), u.calls = v.calls →
      ∀ q, q ≠ r → (u.set r d).calls q = v.calls q := by
    intro u d hcalls q hq
    show Function.update u.calls r d q = v.calls q
    rw [Function.update_of_ne hq, hcalls]
  rcases ha with ha | ⟨c, rfl⟩
  · cases ha with
    | look =>
      simp only [DnsWorld.step] at h
      split at h
      · split at h <;> cases h <;> exact hset _ _ rfl
      · cases h
    | answer x =>
      simp only [DnsWorld.step] at h
      split at h
      · cases h
        exact hset _ _ rfl
      · cases h
    | settle sweep d =>
      simp only [DnsWorld.step] at h
      split at h
      · cases h
        exact hset ⟨_, _, v.calls⟩ _ rfl
      · cases h
        exact hset _ _ rfl
      · cases h
  · simp only [DnsWorld.step] at h
    split at h
    · split at h
      · cases h
        exact hset _ _ rfl
      · split at h <;> cases h <;> exact hset _ _ rfl
    · cases h

/-- The machine check goes on, or returns what `verify` does. -/
def MachineEnds (p : Proxy L) (c₀ : Clocks) (tr : List (ServeAct × Option Forwarded)) (r : Nat)
    (m : MachineIdentity L) (c : VerifyCall) (d : CallPhase) (evs : List DnsEvent) : Prop :=
  (returnedOf evs = none ∧ MachineSo p c₀ tr r m c d) ∨
    ∃ res env, returnedOf evs = some res ∧ d = .returned ∧
      res = (m.verify c.cert c.clientIp c.wall env).result ∧
      (∃ w, During p c₀ tr r w ∧ w.dns.cache = env.lookupCache ∧ w.dns.now = env.lookupNow) ∧
      ∃ w, During p c₀ tr r w ∧ w.dns.cache = env.laterCache

theorem call_ends {m : MachineIdentity L} {c : VerifyCall} (hw : During p c₀ tr r w)
    (hidle : w.dns.calls r = .idle) {v : DnsWorld} {evs : List DnsEvent}
    (hstep : w.dns.step m (.call r c) = some (v, evs)) :
    MachineEnds p c₀ tr r m c (v.calls r) evs := by
  have hself : ∀ d, (w.dns.set r d).calls r = d := fun d => by simp [DnsWorld.set]
  let env : DnsEnv := ⟨w.dns.cache, w.dns.now, fun _ => .error (), w.dns.cache, fun _ => 0, 0⟩
  simp only [DnsWorld.step, hidle] at hstep
  cases hip : c.clientIp with
  | none =>
    rw [hip] at hstep
    cases hstep
    refine Or.inr ⟨_, env, rfl, hself _, ?_, ⟨w, hw, rfl, rfl⟩, w, hw, rfl⟩
    simp only [MachineIdentity.verify, hip]
  | some ip =>
    rw [hip] at hstep
    dsimp only at hstep
    cases hcert : m.verifyCert c.cert c.wall with
    | error e =>
      rw [hcert] at hstep
      cases hstep
      refine Or.inr ⟨_, env, rfl, hself _, ?_, ⟨w, hw, rfl, rfl⟩, w, hw, rfl⟩
      simp only [MachineIdentity.verify, hip, hcert]
    | ok machine =>
      rw [hcert] at hstep
      cases hstep
      refine Or.inl ⟨rfl, ?_⟩
      rw [hself]
      exact ⟨rfl, hip, hcert⟩

theorem goes_ends {m : MachineIdentity L} {c : VerifyCall} (hw : During p c₀ tr r w)
    (hso : MachineSo p c₀ tr r m c (w.dns.calls r)) {a : DnsAct} (ha : GoesOn r a) {v : DnsWorld}
    {evs : List DnsEvent} (hstep : w.dns.step m a = some (v, evs)) :
    MachineEnds p c₀ tr r m c (v.calls r) evs := by
  have hself : ∀ (u : DnsWorld) (d : CallPhase), (u.set r d).calls r = d := fun u d => by
    simp [DnsWorld.set]
  cases ha with
  | look =>
    simp only [DnsWorld.step] at hstep
    split at hstep
    · rename_i c' ip machine hr
      rw [hr] at hso
      obtain ⟨rfl, hip, hcert⟩ := hso
      split at hstep
      · rename_i addrs hfresh
        cases hstep
        refine Or.inr ⟨_, ⟨w.dns.cache, w.dns.now, fun _ => .error (), w.dns.cache, fun _ => 0, 0⟩,
          rfl, hself _ _, ?_, ⟨w, hw, rfl, rfl⟩, w, hw, rfl⟩
        simp only [MachineIdentity.verify, MachineIdentity.resolveCached, hip, hcert, hfresh]
      · rename_i hmiss
        cases hstep
        refine Or.inl ⟨rfl, ?_⟩
        rw [hself]
        exact ⟨rfl, hip, hcert, w, hw, hmiss⟩
    · cases hstep
  | answer x =>
    simp only [DnsWorld.step] at hstep
    split at hstep
    · rename_i c' ip machine hr
      rw [hr] at hso
      cases hstep
      refine Or.inl ⟨rfl, ?_⟩
      rw [hself]
      exact hso
    · cases hstep
  | settle sweep d =>
    simp only [DnsWorld.step] at hstep
    split at hstep
    · rename_i c' ip machine addrs hr
      rw [hr] at hso
      obtain ⟨rfl, hip, hcert, w₁, hw₁, hmiss⟩ := hso
      cases hstep
      refine Or.inr ⟨_, ⟨w₁.dns.cache, w₁.dns.now, fun _ => .ok addrs, w.dns.cache, sweep,
        w.dns.now + d⟩, rfl, hself _ _, ?_, ⟨w₁, hw₁, rfl, rfl⟩, w, hw, rfl⟩
      simp only [MachineIdentity.verify, MachineIdentity.resolveCached, hip, hcert, hmiss]
    · rename_i c' ip machine hr
      rw [hr] at hso
      obtain ⟨rfl, hip, hcert, w₁, hw₁, hmiss⟩ := hso
      cases hstep
      refine Or.inr ⟨_, ⟨w₁.dns.cache, w₁.dns.now, fun _ => .error (), w.dns.cache, fun _ => 0,
        w.dns.now⟩, rfl, hself _ _, ?_, ⟨w₁, hw₁, rfl, rfl⟩, w, hw, rfl⟩
      simp only [MachineIdentity.verify, MachineIdentity.resolveCached, hip, hcert, hmiss]
    · cases hstep

theorem machineCheck_verify {s : Session} {ctx : RequestAudit} {m : MachineIdentity L} {cert : Str}
    (h : machineCheck p s ctx = .verify m cert) : p.machine = some m := by
  unfold machineCheck at h
  split at h
  · cases h
  · rename_i m' hm
    split_ifs at h
    split at h
    · cases h
    · cases h
      exact hm

/-- **A step of the machine check.** -/
theorem machine_so {s : Session} {ctx : RequestAudit} {p1 : PhaseOne} {m : MachineIdentity L}
    {cert : Str} {w₀ : Serving L} {d : CallPhase} {evs : List DnsEvent}
    (hcheck : machineCheck p s ctx = .verify m cert) (hw₀ : During p c₀ tr r w₀)
    (hends : MachineEnds p c₀ tr r m ⟨cert, s.clientIp, w₀.attest.clocks.wall⟩ d evs)
    (hproves : Proves L.toCrypto s p1)
    (hdet : Determined p c₀ tr r s AgreePhaseOne fun env => machineOutcome p s env ctx p1) :
    RequestSo p c₀ tr r (.accepted p1) d ((GatePhase.identifying s ctx p1).afterMachine evs) := by
  rcases hends with ⟨hnone, hso⟩ | ⟨res, env, hsome, hd, hres, hlookup, hlater⟩
  · have hstay : (GatePhase.identifying s ctx p1).afterMachine evs = .identifying s ctx p1 := by
      simp only [GatePhase.afterMachine, hnone]
    rw [hstay]
    exact ⟨rfl, hproves, ⟨m, cert, w₀, hcheck, hw₀, hso⟩, hdet⟩
  · have hidentified : ∀ env' : Env, env'.chainWall = w₀.attest.clocks.wall → env'.dns = env →
        machineOutcome p s env' ctx p1 = identified L s env' ctx p1 res := by
      intro env' hwall hdns
      rw [machineOutcome, hcheck, hres]
      dsimp only
      rw [hwall, hdns]
    cases res with
    | error e =>
      have hgoes : (GatePhase.identifying s ctx p1).afterMachine evs =
          .ended s (.refuse (ctx.machineRejected e) 403) := by
        simp only [GatePhase.afterMachine, hsome]
      rw [hgoes]
      refine ⟨rfl, by rw [hd]; rfl, hdet.end fun limiter env₀ hseen => ?_, fun haction => ?_⟩
      · exact ⟨{ env₀ with chainWall := w₀.attest.clocks.wall, dns := env },
          { hseen with
            chainWall := ⟨w₀, hw₀, rfl⟩
            lookupCache := hlookup
            laterCache := hlater }, ⟨rfl, rfl, rfl⟩, hidentified _ rfl rfl⟩
      · exact absurd haction (action_machineRejected _ _ _)
    | ok machine =>
      have hgoes : (GatePhase.identifying s ctx p1).afterMachine evs =
          .reading s (ctx.machineVerified machine) p1 := by
        simp only [GatePhase.afterMachine, hsome]
      rw [hgoes]
      refine ⟨by rw [hd]; rfl, rfl, hproves, hdet.read fun limiter env₀ hseen => ?_⟩
      exact ⟨{ env₀ with chainWall := w₀.attest.clocks.wall, dns := env },
        { hseen with
          chainWall := ⟨w₀, hw₀, rfl⟩
          lookupCache := hlookup
          laterCache := hlater },
        fun env' henv => ⟨henv.1, hidentified env' henv.2.1 henv.2.2⟩⟩

/-! ## The gate -/

theorem startPreflight_ended {s : Session} {ctx : RequestAudit} {i : AttestInputs} {o : Outcome}
    (h : startPreflight p s ctx i = .ended o) : o.ctx.action ≠ some .forward := by
  unfold startPreflight at h
  split at h
  · cases h
  · split_ifs at h
    cases h
    exact action_machineRejected _ _ _

theorem startIncomplete_ended {s : Session} {ctx : RequestAudit} {host : Option Str} {o : Outcome}
    (h : startIncomplete s ctx host = .ended o) : o.ctx.action ≠ some .forward := by
  unfold startIncomplete at h
  dsimp only at h
  split_ifs at h <;> cases h <;> exact action_refuse _ _ _ _

/-- What ends before phase 1 is not forwarded as attested. -/
theorem start_ended {s : Session} {admitted : Bool} {o : Outcome}
    (h : start p s admitted = .ended o) : o.ctx.action ≠ some .forward := by
  unfold start at h
  dsimp only at h
  split_ifs at h
  · cases h
    exact action_refuse _ _ _ _
  · split at h
    · cases h
      show some Action.bypass ≠ some .forward
      decide
    · unfold startHeaders at h
      dsimp only at h
      split at h
      · exact startPreflight_ended h
      · exact startIncomplete_ended h

/-- Phase 1 is about the inputs that the request presents. -/
theorem start_phaseOne {s : Session} {admitted : Bool} {ctx : RequestAudit} {i : AttestInputs}
    (h : start p s admitted = .phaseOne ctx i) : s.req.Presents i := by
  have hpreflight : ∀ {ctx' : RequestAudit} {j : AttestInputs},
      startPreflight p s ctx' j = .phaseOne ctx i → j = i := by
    intro ctx' j hj
    unfold startPreflight at hj
    split at hj
    · cases hj
      rfl
    · split_ifs at hj <;> cases hj <;> rfl
  unfold start at h
  dsimp only at h
  split_ifs at h
  split at h
  · cases h
  · unfold startHeaders at h
    dsimp only at h
    split at h
    · rename_i ts nonce token host hts hnonce htoken hhost
      obtain rfl := hpreflight h
      exact ⟨hts, hnonce, htoken, hhost, rfl, rfl⟩
    · unfold startIncomplete at h
      dsimp only at h
      split_ifs at h

/-- **A request arrives.** -/
theorem arrive_so (hrun : Run (servingSystem p c₀) tr w) (hidle : w.gate r = .idle) (s : Session)
    (now : Nat) :
    (∀ o, start p s (Serving.charge w.limiter s now).2 = .ended o →
      RequestSo p c₀ (tr ++ [(.arrive r s now, none)]) r .idle .idle (.ended s o)) ∧
    ∀ ctx i, start p s (Serving.charge w.limiter s now).2 = .phaseOne ctx i →
      RequestSo p c₀ (tr ++ [(.arrive r s now, none)]) r (.arrived i) .idle
        (.phaseOne s ctx i) := by
  have hfilter : ∀ env : Env, env.rateNow = now → filterOutcome (p.at w.limiter) s env =
      startedOutcome p s env (start p s (Serving.charge w.limiter s now).2) := by
    intro env henv
    rw [← henv]
    rfl
  have hseen := seen_arrive hrun hidle s now
  constructor
  · intro o ho
    refine ⟨rfl, rfl, ⟨w.limiter, w.env now, hseen, ?_⟩, fun haction => ?_⟩
    · rw [hfilter _ rfl, ho]
      rfl
    · exact absurd haction (start_ended ho)
  · intro ctx i hi
    refine ⟨rfl, start_phaseOne hi, rfl, w.limiter, w.env now, hseen, fun env henv => ?_⟩
    rw [hfilter env henv, hi]
    rfl

/-- What ends the reading of a body is not forwarded. -/
theorem bodyCheck_ended {s : Session} {ctx : RequestAudit} {p1 : PhaseOne} {o : Outcome}
    (h : bodyCheck L s ctx p1 = .ended o) : o.ctx.action ≠ some .forward := by
  unfold bodyCheck at h
  split at h
  · cases h
  · split at h <;> cases h <;> exact action_refuse _ _ _ _

theorem machineCheck_ended {s : Session} {ctx : RequestAudit} {o : Outcome}
    (h : machineCheck p s ctx = .ended o) : o.ctx.action ≠ some .forward := by
  unfold machineCheck at h
  split at h
  · cases h
  · split_ifs at h
    split at h
    · cases h
      exact action_machineRejected _ _ _
    · cases h

/-- The verifier takes a body that was read, unless its hash is another. -/
theorem enter_cases {s : Session} {ctx : RequestAudit} {p1 : PhaseOne} {actual : Option Hash}
    (hcheck : bodyCheck L s ctx p1 = .commit actual) {v : World}
    (hv : v.reqs r = .accepted p1) :
    (v.step L.toCrypto p.privateKey (.enter r actual) =
        some (v.set r (.finished (.error .bodyHashMismatch)),
          some ⟨p1, .error .bodyHashMismatch⟩) ∧
      ∀ cache wall mono, commitResult cache p1 actual wall mono = .error .bodyHashMismatch) ∨
    (v.step L.toCrypto p.privateKey (.enter r actual) = some (v.set r (.waiting p1), none) ∧
      ∀ cache wall mono,
        commitResult cache p1 actual wall mono = (commitNonce cache p1 wall mono).2) := by
  unfold bodyCheck at hcheck
  cases hb : p1.bodyBinding with
  | unbound =>
    rw [hb] at hcheck
    cases hcheck
    exact Or.inr ⟨by simp only [World.step, hv, hb], fun _ _ _ => rfl⟩
  | hash expected =>
    rw [hb] at hcheck
    dsimp only at hcheck
    split at hcheck
    · cases hcheck
    · cases hcheck
    · rename_i body hbody
      cases hcheck
      by_cases hne : expected ≠ L.sha256 body
      · refine Or.inl ⟨by simp only [World.step, hv, hb, if_pos hne], fun cache wall mono => ?_⟩
        simp only [commitResult, verifyBodyAndCommit, hb, if_pos hne]
      · refine Or.inr ⟨by simp only [World.step, hv, hb, if_neg hne], fun cache wall mono => ?_⟩
        simp only [commitResult, verifyBodyAndCommit, hb, if_neg hne]

/-- What the gate makes of a request past phase 1 that has no certificate to verify. -/
theorem checked_so {s : Session} {ctx : RequestAudit} {p1 : PhaseOne} {a : Phase} {d : CallPhase}
    (hso : RequestSo p c₀ tr r a d (.attested s ctx p1)) :
    (∀ o, machineCheck p s ctx = .ended o → RequestSo p c₀ tr r a d (.ended s o)) ∧
      (machineCheck p s ctx = .body → RequestSo p c₀ tr r a d (.reading s ctx p1)) := by
  obtain ⟨hd, ha, hproves, hdet⟩ := hso
  have hrests : a.rests = true ∧ d.rests = true := by
    rw [ha, hd]
    exact ⟨rfl, rfl⟩
  constructor
  · intro o hcheck
    refine ⟨hrests.1, hrests.2, hdet.end fun limiter env₀ hseen => ?_, fun haction => ?_⟩
    · refine ⟨env₀, hseen, ⟨rfl, rfl, rfl⟩, ?_⟩
      rw [machineOutcome, hcheck]
    · exact absurd haction (machineCheck_ended hcheck)
  · intro hcheck
    refine ⟨hrests.2, ha, hproves, hdet.read fun limiter env₀ hseen => ?_⟩
    refine ⟨env₀, hseen, fun env henv => ⟨henv.1, ?_⟩⟩
    rw [machineOutcome, hcheck]

/-- What the gate makes of a body that cannot be read. -/
theorem unread_so {s : Session} {ctx : RequestAudit} {p1 : PhaseOne} {a : Phase} {d : CallPhase}
    {o : Outcome} (hso : RequestSo p c₀ tr r a d (.reading s ctx p1))
    (hcheck : bodyCheck L s ctx p1 = .ended o) : RequestSo p c₀ tr r a d (.ended s o) := by
  obtain ⟨hd, ha, _, hdet⟩ := hso
  refine ⟨by rw [ha]; rfl, hd, hdet.end fun limiter env₀ hseen => ?_, fun haction => ?_⟩
  · refine ⟨env₀, hseen, ⟨⟨rfl, rfl, rfl⟩, rfl, rfl⟩, ?_⟩
    rw [bodyOutcome, hcheck]
  · exact absurd haction (bodyCheck_ended hcheck)

/-- What the gate makes of a body that was read: the verifier takes it or refuses it. -/
theorem read_so {s : Session} {ctx : RequestAudit} {p1 : PhaseOne} {v : World} {d : CallPhase}
    {actual : Option Hash} (hso : RequestSo p c₀ tr r (v.reqs r) d (.reading s ctx p1))
    (hcheck : bodyCheck L s ctx p1 = .commit actual) {v' : World} {o : Option CommitReturn}
    (hstep : v.step L.toCrypto p.privateKey (.enter r actual) = some (v', o)) :
    RequestSo p c₀ tr r (v'.reqs r) d
        ((GatePhase.committing s ctx p1).afterVerifier (v'.reqs r)) ∧
      (∀ q, q ≠ r → v'.reqs q = v.reqs q) ∧ ∀ p1, o ≠ some ⟨p1, .ok ()⟩ := by
  obtain ⟨hd, ha, hproves, hdet⟩ := hso
  have hself : ∀ a, (v.set r a).reqs r = a := fun a => by simp [World.set]
  have hframe : ∀ a q, q ≠ r → (v.set r a).reqs q = v.reqs q := fun a q hq =>
    Function.update_of_ne hq _ _
  rcases enter_cases hcheck ha with ⟨henter, hresult⟩ | ⟨henter, hresult⟩
  · rw [henter] at hstep
    cases hstep
    refine ⟨?_, hframe _, fun p1 ho => by cases ho⟩
    rw [hself]
    refine ⟨rfl, hd, hdet.end fun limiter env₀ hseen => ?_, fun haction => ?_⟩
    · refine ⟨env₀, hseen, ⟨⟨rfl, rfl, rfl⟩, rfl, rfl⟩, ?_⟩
      rw [bodyOutcome, hcheck]
      dsimp only
      rw [hresult]
    · exact absurd haction (action_refuse _ _ _ _)
  · rw [henter] at hstep
    cases hstep
    refine ⟨?_, hframe _, fun p1 ho => by cases ho⟩
    rw [hself]
    refine ⟨hd, rfl, hproves, hdet.read fun limiter env₀ hseen => ?_⟩
    refine ⟨env₀, hseen, fun env henv => ⟨henv, ?_⟩⟩
    rw [bodyOutcome, hcheck]
    dsimp only
    rw [hresult]

end DenBrowser
