import DenBrowser.Proxy.ServingRuns

/-!
# No request is stuck

From every state of the proxy at work, a request in the gate can be brought to its end by its own
steps, once the request that holds the verifier's lock has gone on to release it.

* `served_within` — seventeen steps are enough, and the clocks need not move.
-/

set_option autoImplicit false

namespace DenBrowser

open RunLib

variable {L : Crates} {p : Proxy L} {c₀ : Clocks} {tr : List (ServeAct × Option Forwarded)}
  {w w' : Serving L} {r : Nat}

/-- The request that a step works for. -/
def ServeAct.request : ServeAct → Option Nat
  | .tick _ _ | .arrive _ _ _ => none
  | .verifier r | .look r | .answer r _ | .settle r _ _ | .proceed r => some r

/-! ## The steps that are left -/

def Phase.left : Phase → Nat
  | .waiting _ => 5
  | .locked _ => 4
  | .arrived _ | .window _ => 3
  | .lookup _ _ _ | .stamping _ => 2
  | .opening _ _ _ | .stamped _ _ => 1
  | _ => 0

def CallPhase.left : CallPhase → Nat
  | .looking _ _ _ => 3
  | .asking _ _ _ => 2
  | .answered _ _ _ _ => 1
  | _ => 0

/-- Beyond those of the verifier and of the machine check. -/
def GatePhase.left : GatePhase → Nat
  | .phaseOne _ _ _ | .attested _ _ _ => 10
  | .identifying _ _ _ | .reading _ _ _ => 6
  | _ => 0

def Serving.left (w : Serving L) (r : Nat) : Nat :=
  (w.gate r).left + (w.attest.reqs r).left + (w.dns.calls r).left

theorem GatePhase.afterVerifier_left {g : GatePhase} (hg : g ≠ .idle) (a : Phase) :
    (g.afterVerifier a).left ≤ g.left ∧ g.afterVerifier a ≠ .idle := by
  unfold GatePhase.afterVerifier
  split
  · exact ⟨Nat.zero_le _, by simp⟩
  · exact ⟨Nat.le_refl _, by simp⟩
  · exact ⟨Nat.zero_le _, by simp⟩
  · exact ⟨Nat.le_refl _, hg⟩

theorem GatePhase.afterMachine_left {g : GatePhase} (hg : g ≠ .idle) (evs : List DnsEvent) :
    (g.afterMachine evs).left ≤ g.left ∧ g.afterMachine evs ≠ .idle := by
  unfold GatePhase.afterMachine
  split
  · exact ⟨Nat.zero_le _, by simp⟩
  · exact ⟨Nat.le_refl _, by simp⟩
  · exact ⟨Nat.le_refl _, hg⟩

theorem Phase.left_of_holds {a : Phase} (h : a.holds = true) : a.left ≤ 4 := by
  cases a <;> simp_all [Phase.holds, Phase.left]

theorem Phase.left_of_rests {a : Phase} (h : a.rests = true) : a.left = 0 := by
  cases a <;> simp_all [Phase.rests, Phase.left]

theorem CallPhase.left_of_rests {d : CallPhase} (h : d.rests = true) : d.left = 0 := by
  cases d <;> simp_all [CallPhase.rests, CallPhase.left]

theorem PhaseOneSo.left_le {i : AttestInputs} {a : Phase} (h : PhaseOneSo p c₀ tr r i a) :
    a.left ≤ 3 := by
  cases a <;> first | exact h.elim | simp [Phase.left]

theorem CommitSo.left_le {p1 : PhaseOne} {a : Phase} (h : CommitSo p c₀ tr r p1 a) :
    a.left ≤ 5 := by
  cases a <;> first | exact h.elim | simp [Phase.left]

theorem MachineSo.left_le {m : MachineIdentity L} {c : VerifyCall} {d : CallPhase}
    (h : MachineSo p c₀ tr r m c d) : d.left ≤ 3 := by
  cases d <;> first | exact h.elim | simp [CallPhase.left]

theorem RequestSo.left_le {a : Phase} {d : CallPhase} {g : GatePhase}
    (h : RequestSo p c₀ tr r a d g) : g.left + a.left + d.left ≤ 13 := by
  cases g with
  | idle =>
    obtain ⟨rfl, rfl⟩ := h
    decide
  | phaseOne s ctx i =>
    have ha := h.2.2.1.left_le
    obtain ⟨rfl, _⟩ := h
    simp only [GatePhase.left, CallPhase.left]
    omega
  | attested s ctx p1 =>
    obtain ⟨rfl, rfl, _⟩ := h
    simp only [GatePhase.left, CallPhase.left, Phase.left]
    omega
  | identifying s ctx p1 =>
    obtain ⟨rfl, _, ⟨m, cert, w₀, _, _, hso⟩, _⟩ := h
    have hd := hso.left_le
    simp only [GatePhase.left, Phase.left]
    omega
  | reading s ctx p1 =>
    have hd := CallPhase.left_of_rests h.1
    obtain ⟨_, rfl, _⟩ := h
    simp only [GatePhase.left, Phase.left]
    omega
  | committing s ctx p1 =>
    have hd := CallPhase.left_of_rests h.1
    have ha := h.2.1.left_le
    simp only [GatePhase.left]
    omega
  | ended s out =>
    have ha := Phase.left_of_rests h.1
    have hd := CallPhase.left_of_rests h.2.1
    simp only [GatePhase.left]
    omega

/-! ## A step is possible -/

/-- The lock is no obstacle to the request. -/
def Unblocked (v : World) (r : Nat) : Prop := v.lock = none ∨ (v.reqs r).holds = true

theorem go_advances (K : Crypto) (sk : K.SecretKey) {v : World}
    (hrests : (v.reqs r).rests = false) (hfree : Unblocked v r) :
    ∃ v' o, v.go K sk r = some (v', o) ∧ (v'.reqs r).left < (v.reqs r).left ∧
      Unblocked v' r := by
  have hself : ∀ (u : World) (a : Phase), (u.set r a).reqs r = a := fun u a => by
    simp [World.set]
  have hlock : (v.reqs r).holds = false → v.lock = none := fun h =>
    hfree.resolve_right (by simp [h])
  unfold World.go
  cases hr : v.reqs r with
  | arrived i =>
    have hnone := hlock (by rw [hr]; rfl)
    dsimp only
    cases checkTimestamp i v.clocks.wall with
    | error e => exact ⟨_, _, rfl, by simp [hself, Phase.left], Or.inl hnone⟩
    | ok ts =>
      dsimp only
      cases decodeNonce K i with
      | error e => exact ⟨_, _, rfl, by simp [hself, Phase.left], Or.inl hnone⟩
      | ok n => exact ⟨_, _, rfl, by simp [hself, Phase.left], Or.inl hnone⟩
  | lookup i ts n =>
    have hnone := hlock (by rw [hr]; rfl)
    dsimp only
    rw [if_pos hnone]
    split_ifs
    · exact ⟨_, _, rfl, by simp [hself, Phase.left], Or.inl hnone⟩
    · exact ⟨_, _, rfl, by simp [hself, Phase.left], Or.inl hnone⟩
  | opening i ts n =>
    have hnone := hlock (by rw [hr]; rfl)
    dsimp only
    cases openToken K sk i with
    | error e => exact ⟨_, _, rfl, by simp [hself, Phase.left], Or.inl hnone⟩
    | ok b => exact ⟨_, _, rfl, by simp [hself, Phase.left], Or.inl hnone⟩
  | waiting p1 =>
    have hnone := hlock (by rw [hr]; rfl)
    dsimp only
    rw [if_pos hnone]
    exact ⟨_, _, rfl, by simp [hself, Phase.left], Or.inr (by rw [hself]; rfl)⟩
  | locked p1 =>
    dsimp only
    split_ifs
    · exact ⟨_, _, rfl, by simp [hself, Phase.left], Or.inl rfl⟩
    · exact ⟨_, _, rfl, by simp [hself, Phase.left], Or.inr (by rw [hself]; rfl)⟩
  | window p1 =>
    dsimp only
    cases checkCommitWindow p1.ts (unixNow v.clocks.wall) with
    | error e => exact ⟨_, _, rfl, by simp [hself, Phase.left], Or.inl rfl⟩
    | ok u => exact ⟨_, _, rfl, by simp [hself, Phase.left], Or.inr (by rw [hself]; rfl)⟩
  | stamping p1 => exact ⟨_, _, rfl, by simp [hself, Phase.left], Or.inr (by rw [hself]; rfl)⟩
  | stamped p1 now => exact ⟨_, _, rfl, by simp [hself, Phase.left], Or.inl rfl⟩
  | _ => rw [hr] at hrests; cases hrests

theorem dns_advances (m : MachineIdentity L) {v : DnsWorld} (h : (v.calls r).rests = false) :
    ∃ x v' evs, GoesOn r x ∧ v.step m x = some (v', evs) ∧
      (v'.calls r).left < (v.calls r).left := by
  have hself : ∀ (u : DnsWorld) (d : CallPhase), (u.set r d).calls r = d := fun u d => by
    simp [DnsWorld.set]
  cases hr : v.calls r with
  | looking c ip machine =>
    cases hfresh : m.freshAnswer v.cache machine.hostname v.now with
    | some addrs =>
      have hstep : v.step m (.look r) = some (v.set r .returned,
          [.returned r c (checkAddress machine ip (some addrs))]) := by
        simp only [DnsWorld.step, hr, hfresh]
      exact ⟨_, _, _, .look, hstep, by simp [hself, CallPhase.left]⟩
    | none =>
      have hstep : v.step m (.look r) =
          some (v.set r (.asking c ip machine), [.asked r machine.hostname]) := by
        simp only [DnsWorld.step, hr, hfresh]
      exact ⟨_, _, _, .look, hstep, by simp [hself, CallPhase.left]⟩
  | asking c ip machine =>
    have hstep : v.step m (.answer r (.error ())) =
        some (v.set r (.answered c ip machine (.error ())),
          [.answered r machine.hostname (.error ())]) := by
      simp only [DnsWorld.step, hr]
    exact ⟨_, _, _, .answer (.error ()), hstep, by simp [hself, CallPhase.left]⟩
  | answered c ip machine x =>
    have hstep : ∃ v' evs, v.step m (.settle r (fun _ => 0) 0) = some (v', evs) ∧
        v'.calls r = .returned := by
      rcases x with e | addrs
      · simp only [DnsWorld.step, hr]
        exact ⟨_, _, rfl, hself _ _⟩
      · simp only [DnsWorld.step, hr]
        exact ⟨_, _, rfl, hself _ _⟩
    obtain ⟨v', evs, hsettle, hreturned⟩ := hstep
    exact ⟨_, v', evs, .settle (fun _ => 0) 0, hsettle, by simp [hreturned, CallPhase.left]⟩
  | _ => rw [hr] at h; cases h

theorem call_advances (m : MachineIdentity L) (c : VerifyCall) {v : DnsWorld}
    (h : v.calls r = .idle) :
    ∃ v' evs, v.step m (.call r c) = some (v', evs) ∧ (v'.calls r).left ≤ 3 := by
  have hself : ∀ d, (v.set r d).calls r = d := fun d => by simp [DnsWorld.set]
  simp only [DnsWorld.step, h]
  cases c.clientIp with
  | none => exact ⟨_, _, rfl, by simp [hself, CallPhase.left]⟩
  | some ip =>
    dsimp only
    cases m.verifyCert c.cert c.wall with
    | error e => exact ⟨_, _, rfl, by simp [hself, CallPhase.left]⟩
    | ok machine => exact ⟨_, _, rfl, by simp [hself, CallPhase.left]⟩

/-- The step of the proxy for a step of the machine check. -/
theorem goes_act {x : DnsAct} (hx : GoesOn r x) : ∃ a : ServeAct, a.request = some r ∧
    ∀ w : Serving L, w.step p a = w.machineStep p r (w.gate r) x := by
  cases hx with
  | look => exact ⟨.look r, rfl, fun w => rfl⟩
  | answer x => exact ⟨.answer r x, rfl, fun w => rfl⟩
  | settle sweep d => exact ⟨.settle r sweep d, rfl, fun w => rfl⟩

theorem machineStep_eq {m : MachineIdentity L} (hm : p.machine = some m) {g : GatePhase}
    {x : DnsAct} {v : DnsWorld} {evs : List DnsEvent} (h : w.dns.step m x = some (v, evs)) :
    w.machineStep p r g x =
      some ({ w with dns := v }.set r (g.afterMachine evs), none) := by
  simp only [Serving.machineStep, hm, h]

/-- What a step of the request makes possible. -/
structure Advances (p : Proxy L) (w : Serving L) (r : Nat) (a : ServeAct) (w' : Serving L)
    (o : Option Forwarded) : Prop where
  step : w.step p a = some (w', o)
  request : a.request = some r
  left : w'.left r < w.left r
  gate : w'.gate r ≠ .idle
  unblocked : Unblocked w'.attest r

theorem verifier_advances (hrests : (w.attest.reqs r).rests = false)
    (hfree : Unblocked w.attest r) (hgate : w.gate r ≠ .idle) :
    ∃ w' o, Advances p w r (.verifier r) w' o := by
  obtain ⟨v, returned, hgo, hleft, hfree'⟩ :=
    go_advances L.toCrypto p.privateKey hrests hfree
  obtain ⟨hstage, hidle⟩ := GatePhase.afterVerifier_left hgate (v.reqs r)
  have hstep : w.step p (.verifier r) = some ({ w with attest := v }.set r
      ((w.gate r).afterVerifier (v.reqs r)), forwardedOf r returned) := by
    simp only [Serving.step, World.step, hgo]
  refine ⟨_, _, hstep, rfl, ?_, by rwa [Serving.set_gate], hfree'⟩
  show ((Serving.set _ r _).gate r).left + (v.reqs r).left + (w.dns.calls r).left < w.left r
  rw [Serving.set_gate]
  unfold Serving.left
  omega

/-- **A request in the gate can go on**, unless another one holds the lock. -/
theorem ServeInv.advances (h : ServeInv p c₀ tr w) (hlive : (w.gate r).live = true)
    (hfree : Unblocked w.attest r) : ∃ a w' o, Advances p w r a w' o := by
  have hso := h.requests r
  have hidle : w.gate r ≠ .idle := fun hg => by rw [hg] at hlive; cases hlive
  have hset : ∀ (u : Serving L) (g : GatePhase), (u.set r g).left r =
      g.left + (u.attest.reqs r).left + (u.dns.calls r).left := fun u g => by
    rw [Serving.left, Serving.set_gate]
    rfl
  cases hg : w.gate r with
  | idle => exact absurd hg hidle
  | ended s out => rw [hg] at hlive; cases hlive
  | phaseOne s ctx i =>
    rw [hg] at hso
    have hrests : (w.attest.reqs r).rests = false := by
      have hphase := hso.2.2.1
      cases ha : w.attest.reqs r <;> rw [ha] at hphase <;> first | rfl | exact hphase.elim
    exact ⟨_, verifier_advances hrests hfree hidle⟩
  | committing s ctx p1 =>
    rw [hg] at hso
    have hrests : (w.attest.reqs r).rests = false := by
      have hcommit := hso.2.1
      cases ha : w.attest.reqs r <;> rw [ha] at hcommit <;> first | rfl | exact hcommit.elim
    exact ⟨_, verifier_advances hrests hfree hidle⟩
  | attested s ctx p1 =>
    rw [hg] at hso
    obtain ⟨hd, ha, _, _⟩ := hso
    cases hcheck : machineCheck p s ctx with
    | ended out =>
      have hstep : w.step p (.proceed r) = some (w.set r (.ended s out), none) := by
        simp only [Serving.step, Serving.proceed, hg, hcheck]
      refine ⟨_, _, _, hstep, rfl, ?_, by simp [Serving.set_gate], hfree⟩
      rw [hset, Serving.left, hg]
      simp [GatePhase.left]
    | body =>
      have hstep : w.step p (.proceed r) = some (w.set r (.reading s ctx p1), none) := by
        simp only [Serving.step, Serving.proceed, hg, hcheck]
      refine ⟨_, _, _, hstep, rfl, ?_, by simp [Serving.set_gate], hfree⟩
      rw [hset, Serving.left, hg]
      simp [GatePhase.left]
    | verify m cert =>
      obtain ⟨v, evs, hcall, hcalled⟩ :=
        call_advances m ⟨cert, s.clientIp, w.attest.clocks.wall⟩ hd
      obtain ⟨hstage, hne⟩ := GatePhase.afterMachine_left (g := .identifying s ctx p1)
        (by simp) evs
      have hstep : w.step p (.proceed r) = some ({ w with dns := v }.set r
          ((GatePhase.identifying s ctx p1).afterMachine evs), none) := by
        simp only [Serving.step, Serving.proceed, hg, hcheck]
        exact machineStep_eq (machineCheck_verify hcheck) hcall
      refine ⟨_, _, _, hstep, rfl, ?_, by rwa [Serving.set_gate], hfree⟩
      rw [hset, Serving.left, hg]
      simp only [GatePhase.left] at hstage ⊢
      omega
  | identifying s ctx p1 =>
    rw [hg] at hso
    obtain ⟨ha, _, ⟨m, cert, w₀, hcheck, _, hmachine⟩, _⟩ := hso
    have hrests : (w.dns.calls r).rests = false := by
      cases hd : w.dns.calls r <;> rw [hd] at hmachine <;> first | rfl | exact hmachine.elim
    obtain ⟨x, v, evs, hx, hdns, hleft⟩ := dns_advances m hrests
    obtain ⟨a, hrequest, hact⟩ := goes_act (p := p) hx
    obtain ⟨hstage, hne⟩ := GatePhase.afterMachine_left hidle evs
    have hstep := (hact w).trans (machineStep_eq (machineCheck_verify hcheck) hdns)
    refine ⟨_, _, _, hstep, hrequest, ?_, by rwa [Serving.set_gate], hfree⟩
    rw [hset, Serving.left]
    simp only
    omega
  | reading s ctx p1 =>
    rw [hg] at hso
    obtain ⟨hd, ha, _, _⟩ := hso
    cases hcheck : bodyCheck L s ctx p1 with
    | ended out =>
      have hstep : w.step p (.proceed r) = some (w.set r (.ended s out), none) := by
        simp only [Serving.step, Serving.proceed, hg, hcheck]
      refine ⟨_, _, _, hstep, rfl, ?_, by simp [Serving.set_gate], hfree⟩
      rw [hset, Serving.left, hg]
      simp [GatePhase.left]
    | commit actual =>
      have hlock : w.attest.lock = none := hfree.resolve_right (by simp [ha, Phase.holds])
      have hself : ∀ b, (w.attest.set r b).reqs r = b := fun b => by simp [World.set]
      have henter : ∃ b returned, w.attest.step L.toCrypto p.privateKey (.enter r actual) =
          some (w.attest.set r b, returned) ∧ b.left ≤ 5 := by
        rcases enter_cases hcheck ha with ⟨henter, _⟩ | ⟨henter, _⟩
        · exact ⟨_, _, henter, by simp [Phase.left]⟩
        · exact ⟨_, _, henter, by simp [Phase.left]⟩
      obtain ⟨b, returned, henter, hleft⟩ := henter
      obtain ⟨hstage, hne⟩ :=
        GatePhase.afterVerifier_left (g := .committing s ctx p1) (by simp) b
      have hstep : w.step p (.proceed r) = some ({ w with attest := w.attest.set r b }.set r
          ((GatePhase.committing s ctx p1).afterVerifier b), none) := by
        simp only [Serving.step, Serving.proceed, hg, hcheck, henter, hself]
      refine ⟨_, _, _, hstep, rfl, ?_, by rwa [Serving.set_gate], Or.inl hlock⟩
      rw [hset, Serving.left, hg]
      simp only [GatePhase.left, hself] at hstage ⊢
      omega

/-! ## A request can be brought to its end -/

theorem GatePhase.ended_of_not_live {g : GatePhase} (hg : g ≠ .idle) (h : g.live = false) :
    ∃ s out, g = .ended s out := by
  cases g with
  | idle => exact absurd rfl hg
  | ended s out => exact ⟨s, out, rfl⟩
  | _ => cases h

/-- By its own steps, as long as no other request holds the lock. -/
theorem ended_within : ∀ (n : Nat) {tr : List (ServeAct × Option Forwarded)} {w : Serving L},
    Run (servingSystem p c₀) tr w → w.gate r ≠ .idle → Unblocked w.attest r → w.left r ≤ n →
    ∃ tr' w' s out, Run (servingSystem p c₀) (tr ++ tr') w' ∧ w'.gate r = .ended s out ∧
      tr'.length ≤ n ∧ ∀ e ∈ tr', e.1.request = some r := by
  intro n
  induction n with
  | zero =>
    intro tr w hrun hgate hfree hleft
    cases hlive : (w.gate r).live with
    | true =>
      obtain ⟨a, w', o, hadv⟩ := (serveInv_run hrun).advances hlive hfree
      have := hadv.left
      omega
    | false =>
      obtain ⟨s, out, hg⟩ := GatePhase.ended_of_not_live hgate hlive
      exact ⟨[], w, s, out, by simpa using hrun, hg, Nat.le_refl _, by simp⟩
  | succ n ih =>
    intro tr w hrun hgate hfree hleft
    cases hlive : (w.gate r).live with
    | true =>
      obtain ⟨a, w', o, hadv⟩ := (serveInv_run hrun).advances hlive hfree
      obtain ⟨tr', w'', s, out, hrun', hended, hlength, hown⟩ :=
        ih (hrun.snoc hadv.step) hadv.gate hadv.unblocked (by have := hadv.left; omega)
      refine ⟨(a, o) :: tr', w'', s, out, by simpa using hrun', hended, ?_, ?_⟩
      · simpa using hlength
      · intro e he
        rcases List.mem_cons.1 he with rfl | he
        · exact hadv.request
        · exact hown e he
    | false =>
      obtain ⟨s, out, hg⟩ := GatePhase.ended_of_not_live hgate hlive
      exact ⟨[], w, s, out, by simpa using hrun, hg, Nat.zero_le _, by simp⟩

/-- The holder of the lock can release it, and changes nothing else for the other requests. -/
theorem released_within {q : Nat} (hne : r ≠ q) :
    ∀ (n : Nat) {tr : List (ServeAct × Option Forwarded)} {w : Serving L},
    Run (servingSystem p c₀) tr w → Unblocked w.attest q → (w.attest.reqs q).left ≤ n →
    ∃ tr' w', Run (servingSystem p c₀) (tr ++ tr') w' ∧ w'.attest.lock = none ∧
      tr'.length ≤ n ∧ (∀ e ∈ tr', e.1.request = some q) ∧ w'.gate r = w.gate r := by
  intro n
  induction n with
  | zero =>
    intro tr w hrun hfree hleft
    rcases hfree with hnone | hholds
    · exact ⟨[], w, by simpa using hrun, hnone, Nat.le_refl _, by simp, rfl⟩
    · cases hr : w.attest.reqs q <;> rw [hr] at hholds hleft <;>
        simp [Phase.holds, Phase.left] at hholds hleft
  | succ n ih =>
    intro tr w hrun hfree hleft
    by_cases hnone : w.attest.lock = none
    · exact ⟨[], w, by simpa using hrun, hnone, Nat.zero_le _, by simp, rfl⟩
    · have hholds := hfree.resolve_left hnone
      have hrests : (w.attest.reqs q).rests = false := by
        cases hr : w.attest.reqs q <;> rw [hr] at hholds <;> first | rfl | cases hholds
      obtain ⟨v, returned, hgo, hless, hfree'⟩ :=
        go_advances L.toCrypto p.privateKey hrests hfree
      have hstep : w.step p (.verifier q) = some ({ w with attest := v }.set q
          ((w.gate q).afterVerifier (v.reqs q)), forwardedOf q returned) := by
        simp only [Serving.step, World.step, hgo]
      have hrun₁ := hrun.snoc (show (servingSystem p c₀).step w (.verifier q) = some _ from hstep)
      have hleft₁ : (v.reqs q).left ≤ n := by omega
      obtain ⟨tr', w', hrun', hlock, hlength, hown, hsame⟩ := ih hrun₁ hfree' hleft₁
      refine ⟨(.verifier q, forwardedOf q returned) :: tr', w', by simpa using hrun', hlock,
        by simpa using hlength, ?_, ?_⟩
      · intro e he
        rcases List.mem_cons.1 he with rfl | he
        · rfl
        · exact hown e he
      · rw [hsame, Serving.set_gate_ne _ _ hne]

/-- **No request is stuck.**  Whatever the interleaving has been, a request in the gate is
answered or passed on within 17 further steps, all of them its own or those of the request that
holds the lock. -/
theorem served_within (h : Run (servingSystem p c₀) tr w) (hlive : (w.gate r).live = true) :
    ∃ tr' w' s out, Run (servingSystem p c₀) (tr ++ tr') w' ∧ w'.gate r = .ended s out ∧
      tr'.length ≤ 17 ∧
      ∀ e ∈ tr', e.1.request = some r ∨ ∃ q, w.attest.lock = some q ∧ e.1.request = some q := by
  have hgate : w.gate r ≠ .idle := fun hg => by rw [hg] at hlive; cases hlive
  obtain ⟨_, hatt, _, _⟩ := (serveInv_run h).attest
  by_cases hfree : Unblocked w.attest r
  · obtain ⟨tr', w', s, out, hrun, hended, hlength, hown⟩ :=
      ended_within 13 h hgate hfree ((serveInv_run h).requests r).left_le
    exact ⟨tr', w', s, out, hrun, hended, by omega, fun e he => Or.inl (hown e he)⟩
  · -- another request holds the lock
    unfold Unblocked at hfree
    rw [not_or] at hfree
    obtain ⟨q, hq⟩ := Option.ne_none_iff_exists'.1 hfree.1
    have hholds := ((locked_run hatt).lock q).2 hq
    have hne : r ≠ q := fun hrq => hfree.2 (hrq ▸ hholds)
    obtain ⟨tr₁, w₁, hrun₁, hnone, hlength₁, hown₁, hsame⟩ :=
      released_within hne 4 h (Or.inr hholds) (Phase.left_of_holds hholds)
    obtain ⟨tr₂, w₂, s, out, hrun₂, hended, hlength₂, hown₂⟩ :=
      ended_within 13 hrun₁ (by rwa [hsame]) (Or.inl hnone)
        ((serveInv_run hrun₁).requests r).left_le
    refine ⟨tr₁ ++ tr₂, w₂, s, out, by rwa [← List.append_assoc], hended, ?_, fun e he => ?_⟩
    · rw [List.length_append]
      omega
    · rcases List.mem_append.1 he with he | he
      · exact Or.inr ⟨q, hq, hown₁ e he⟩
      · exact Or.inl (hown₂ e he)

/-- Request 1 while request 0 holds the lock. -/
theorem served_within_pair : ∃ tr w tr' w' s out,
    Run (servingSystem pairProxy epochClock) tr w ∧ w.attest.lock = some 0 ∧
      Run (servingSystem pairProxy epochClock) (tr ++ tr') w' ∧ w'.gate 1 = .ended s out ∧
      tr'.length ≤ 17 := by
  have hx : ((exec (servingSystem pairProxy epochClock) (pairActs.take 13)).map
      fun (x : List (ServeAct × Option Forwarded) × Serving pairCrates) =>
        decide ((x.2.gate 1).live = true ∧ x.2.attest.lock = some 0)) = some true := by
    decide +kernel
  obtain ⟨⟨tr, w⟩, he, hd⟩ := Option.map_eq_some_iff.1 hx
  obtain ⟨hlive, hlock⟩ := of_decide_eq_true hd
  obtain ⟨tr', w', s, out, hrun, hended, hlength, _⟩ := served_within (exec_run he) hlive
  exact ⟨tr, w, tr', w', s, out, exec_run he, hlock, hrun, hended, hlength⟩

end DenBrowser
