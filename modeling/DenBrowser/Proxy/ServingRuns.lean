import DenBrowser.Proxy.Forwarding
import DenBrowser.Proxy.ServingSteps

/-!
# Runs of the proxy at work

Every step keeps what is known of every request, and what the verifier does in a run of the proxy
is one of its own runs.

* `serving_refines` — what is seen of a request is what `requestFilter` shows on the clocks and
  the state that it met at each reading;
* `forwarded_once` — no (nonce, timestamp) pair is forwarded as attested for two requests.
-/

set_option autoImplicit false

namespace DenBrowser

open RunLib

variable {L : Crates} {p : Proxy L} {c₀ : Clocks} {tr : List (ServeAct × Option Forwarded)}
  {w w' : Serving L} {r : Nat} {a : ServeAct} {o : Option Forwarded}

/-! ## The verifier's part of a run -/

/-- What a forwarded request's token proved. -/
def Forwarded.proved (x : Forwarded) : Nonce × Int := (x.2.nonce, x.2.ts)

/-- The verifier has made a run of its own, on the same clock readings, and has accepted what
was forwarded. -/
def AttestSo (p : Proxy L) (c₀ : Clocks) (tr : List (ServeAct × Option Forwarded)) (v : World) :
    Prop :=
  ∃ atr, Run (proxySystem L.toCrypto p.privateKey c₀) atr v ∧
    clockPoints c₀ atr = servePoints c₀ tr ∧
    okCommits atr = (forwards tr).map Forwarded.proved

theorem forwards_append (tr : List (ServeAct × Option Forwarded)) (a : ServeAct)
    (o : Option Forwarded) : forwards (tr ++ [(a, o)]) = forwards tr ++ o.toList := by
  cases o <;> simp [forwards]

theorem servePoints_append (ha : ∀ c d, a ≠ .tick c d) :
    servePoints c₀ (tr ++ [(a, o)]) = servePoints c₀ tr := by
  cases a with
  | tick c d => exact absurd rfl (ha c d)
  | _ => simp [servePoints]

theorem servePoints_append_tick (c : Clocks) (d : Nat) :
    servePoints c₀ (tr ++ [(.tick c d, o)]) = servePoints c₀ tr ++ [c] := by
  simp [servePoints]

theorem okCommits_append (atr : List (Act × Option CommitReturn)) (x : Act)
    (returned : Option CommitReturn) (r : Nat) :
    okCommits (atr ++ [(x, returned)]) =
      okCommits atr ++ (forwardedOf r returned).toList.map Forwarded.proved := by
  rcases returned with _ | ⟨p1, e | u⟩ <;> simp [okCommits, forwardedOf, Forwarded.proved]

theorem forwardedOf_eq_none {returned : Option CommitReturn}
    (h : ∀ p1, returned ≠ some ⟨p1, .ok ()⟩) : forwardedOf r returned = none := by
  rcases returned with _ | ⟨p1, e | u⟩
  · rfl
  · rfl
  · exact absurd rfl (h p1)

/-- A step that is none of the verifier's. -/
theorem AttestSo.aside {v : World} (h : AttestSo p c₀ tr v) (ha : ∀ c d, a ≠ .tick c d) :
    AttestSo p c₀ (tr ++ [(a, none)]) v := by
  obtain ⟨atr, hrun, hpoints, hcommits⟩ := h
  refine ⟨atr, hrun, ?_, ?_⟩
  · rw [servePoints_append ha, hpoints]
  · rw [forwards_append, Option.toList_none, List.append_nil, hcommits]

theorem AttestSo.tick {v : World} (h : AttestSo p c₀ tr v) (c : Clocks) (d : Nat) :
    AttestSo p c₀ (tr ++ [(.tick c d, none)]) { v with clocks := c } := by
  obtain ⟨atr, hrun, hpoints, hcommits⟩ := h
  refine ⟨atr ++ [(.tick c, none)], .snoc hrun rfl, ?_, ?_⟩
  · rw [clockPoints_append_tick, servePoints_append_tick, hpoints]
  · rw [forwards_append, Option.toList_none, List.append_nil, ← hcommits]
    exact okCommits_append_refused atr _ fun x hx => Option.noConfusion rfl (heq_of_eq hx)

theorem AttestSo.step {v v' : World} (h : AttestSo p c₀ tr v) (ha : ∀ c d, a ≠ .tick c d)
    {x : Act} (hx : ∀ c, x ≠ .tick c) {returned : Option CommitReturn}
    (hstep : v.step L.toCrypto p.privateKey x = some (v', returned)) :
    AttestSo p c₀ (tr ++ [(a, forwardedOf r returned)]) v' := by
  obtain ⟨atr, hrun, hpoints, hcommits⟩ := h
  refine ⟨atr ++ [(x, returned)], .snoc hrun hstep, ?_, ?_⟩
  · rw [clockPoints_append c₀ atr hx, servePoints_append ha, hpoints]
  · rw [okCommits_append atr x returned r, forwards_append, List.map_append, hcommits]

/-! ## The invariant -/

structure ServeInv (p : Proxy L) (c₀ : Clocks) (tr : List (ServeAct × Option Forwarded))
    (w : Serving L) : Prop where
  attest : AttestSo p c₀ tr w.attest
  requests : ∀ r, RequestSo p c₀ tr r (w.attest.reqs r) (w.dns.calls r) (w.gate r)

/-- A step for one request. -/
theorem ServeInv.of_request {e : ServeAct × Option Forwarded} (h : ServeInv p c₀ tr w)
    (hattest : AttestSo p c₀ (tr ++ [e]) w'.attest)
    (hreqs : ∀ q, q ≠ r → w'.attest.reqs q = w.attest.reqs q)
    (hcalls : ∀ q, q ≠ r → w'.dns.calls q = w.dns.calls q)
    (hgate : ∀ q, q ≠ r → w'.gate q = w.gate q)
    (hso : RequestSo p c₀ (tr ++ [e]) r (w'.attest.reqs r) (w'.dns.calls r) (w'.gate r)) :
    ServeInv p c₀ (tr ++ [e]) w' := by
  refine ⟨hattest, fun q => ?_⟩
  by_cases hq : q = r
  · rw [hq]
    exact hso
  · rw [hreqs q hq, hcalls q hq, hgate q hq]
    exact (h.requests q).later (List.prefix_append tr [e])

theorem Serving.set_gate (w : Serving L) (g : GatePhase) : (w.set r g).gate r = g := by
  simp [Serving.set]

theorem Serving.set_gate_ne (w : Serving L) (g : GatePhase) {q : Nat} (hq : q ≠ r) :
    (w.set r g).gate q = w.gate q :=
  Function.update_of_ne hq _ _

theorem during_live (hrun : Run (servingSystem p c₀) tr w) (hlive : (w.gate r).live = true) :
    During p c₀ (tr ++ [(a, o)]) r w :=
  ⟨tr, (a, o), List.prefix_refl _, hrun, Or.inl hlive⟩

theorem ServeInv.tick (h : ServeInv p c₀ tr w) (c : Clocks) (d : Nat) :
    ServeInv p c₀ (tr ++ [(.tick c d, none)])
      { w with
        attest := { w.attest with clocks := c }
        dns := { w.dns with now := w.dns.now + d } } :=
  ⟨h.attest.tick c d, fun r => (h.requests r).later (List.prefix_append tr _)⟩

theorem ServeInv.arrive (hrun : Run (servingSystem p c₀) tr w) (h : ServeInv p c₀ tr w)
    {s : Session} {now : Nat} (hstep : w.step p (.arrive r s now) = some (w', o)) :
    ServeInv p c₀ (tr ++ [(.arrive r s now, o)]) w' := by
  simp only [Serving.step] at hstep
  split at hstep
  · rename_i hidle
    have hso := h.requests r
    rw [hidle] at hso
    obtain ⟨hended, hphaseOne⟩ := arrive_so hrun hidle s now
    have haside := h.attest.aside (a := .arrive r s now) (by simp)
    cases hstart : start p s (Serving.charge w.limiter s now).2 with
    | ended out =>
      rw [hstart] at hstep
      cases hstep
      refine h.of_request haside (fun _ _ => rfl) (fun _ _ => rfl)
        (fun q hq => Serving.set_gate_ne _ _ hq) ?_
      rw [Serving.set_gate]
      show RequestSo p c₀ _ r (w.attest.reqs r) (w.dns.calls r) _
      rw [hso.1, hso.2]
      exact hended out hstart
    | phaseOne ctx i =>
      have harrive : w.attest.step L.toCrypto p.privateKey (.arrive r i) =
          some (w.attest.set r (.arrived i), none) := by
        simp only [World.step, hso.1]
      rw [hstart] at hstep
      dsimp only at hstep
      rw [harrive] at hstep
      cases hstep
      refine h.of_request (h.attest.step (r := r) (by simp) (by simp) harrive)
        (fun q hq => Function.update_of_ne hq _ _) (fun _ _ => rfl)
        (fun q hq => Serving.set_gate_ne _ _ hq) ?_
      rw [Serving.set_gate]
      show RequestSo p c₀ _ r ((w.attest.set r (.arrived i)).reqs r) (w.dns.calls r) _
      rw [hso.2, show (w.attest.set r (.arrived i)).reqs r = .arrived i by simp [World.set]]
      exact hphaseOne ctx i hstart
  · cases hstep

theorem ServeInv.verifier (hrun : Run (servingSystem p c₀) tr w) (h : ServeInv p c₀ tr w)
    (hstep : w.step p (.verifier r) = some (w', o)) :
    ServeInv p c₀ (tr ++ [(.verifier r, o)]) w' := by
  obtain ⟨_, hatt, _, _⟩ := h.attest
  simp only [Serving.step] at hstep
  split at hstep
  · cases hstep
  · rename_i v returned hgo
    cases hstep
    obtain ⟨_, hframe⟩ := go_frame (show w.attest.go L.toCrypto p.privateKey r = _ from hgo)
    refine h.of_request (h.attest.step (by simp) (by simp) hgo) hframe (fun _ _ => rfl)
      (fun q hq => Serving.set_gate_ne _ _ hq) ?_
    rw [Serving.set_gate]
    refine verifier_so (during_live hrun) (locked_run hatt)
      ((h.requests r).later (List.prefix_append tr _)) hgo fun p1 hreturned => ?_
    rw [forwards_append, hreturned]
    exact List.mem_append_right _ (List.mem_singleton_self _)

/-- A step of the machine check, or its call. -/
theorem ServeInv.machine (h : ServeInv p c₀ tr w) {g : GatePhase} {x : DnsAct}
    (hx : GoesOn r x ∨ ∃ c, x = .call r c) (ha : ∀ c d, a ≠ .tick c d)
    (hso : ∀ m v evs, p.machine = some m → w.dns.step m x = some (v, evs) →
      RequestSo p c₀ (tr ++ [(a, none)]) r (w.attest.reqs r) (v.calls r) (g.afterMachine evs))
    (hstep : w.machineStep p r g x = some (w', o)) : ServeInv p c₀ (tr ++ [(a, o)]) w' := by
  unfold Serving.machineStep at hstep
  split at hstep
  · cases hstep
  · rename_i m hm
    split at hstep
    · cases hstep
    · rename_i v evs hdns
      cases hstep
      refine h.of_request (h.attest.aside ha) (fun _ _ => rfl) (dns_frame hx hdns)
        (fun q hq => Serving.set_gate_ne _ _ hq) ?_
      rw [Serving.set_gate]
      exact hso m v evs hm hdns

/-- A request whose machine check has more to do is identifying itself. -/
theorem identifying_of_goes (h : ServeInv p c₀ tr w) {m : MachineIdentity L} {x : DnsAct}
    (hx : GoesOn r x) {v : DnsWorld} {evs : List DnsEvent}
    (hdns : w.dns.step m x = some (v, evs)) : ∃ s ctx p1, w.gate r = .identifying s ctx p1 := by
  have hrests : (w.dns.calls r).rests = false := by
    rw [Bool.eq_false_iff]
    intro hrests
    rw [dns_rests hx hrests] at hdns
    cases hdns
  have hso := h.requests r
  have hidle : w.dns.calls r ≠ .idle := fun hd => by rw [hd] at hrests; cases hrests
  cases hg : w.gate r with
  | idle => rw [hg] at hso; exact absurd hso.2 hidle
  | phaseOne s ctx i => rw [hg] at hso; exact absurd hso.1 hidle
  | attested s ctx p1 => rw [hg] at hso; exact absurd hso.1 hidle
  | identifying s ctx p1 => exact ⟨s, ctx, p1, rfl⟩
  | reading s ctx p1 => rw [hg] at hso; rw [hso.1] at hrests; cases hrests
  | committing s ctx p1 => rw [hg] at hso; rw [hso.1] at hrests; cases hrests
  | ended s out => rw [hg] at hso; rw [hso.2.1] at hrests; cases hrests

theorem ServeInv.goes (hrun : Run (servingSystem p c₀) tr w) (h : ServeInv p c₀ tr w)
    {x : DnsAct} (hx : GoesOn r x) (ha : ∀ c d, a ≠ .tick c d)
    (hstep : w.machineStep p r (w.gate r) x = some (w', o)) :
    ServeInv p c₀ (tr ++ [(a, o)]) w' := by
  refine h.machine (Or.inl hx) ha (fun m v evs hm hdns => ?_) hstep
  obtain ⟨s, ctx, p1, hg⟩ := identifying_of_goes h hx hdns
  have hso := (h.requests r).later (List.prefix_append tr [(a, none)])
  rw [hg] at hso
  obtain ⟨haccepted, hproves, ⟨m', cert, w₀, hcheck, hw₀, hmachine⟩, hdet⟩ := hso
  obtain rfl : m' = m := Option.some.inj ((machineCheck_verify hcheck).symm.trans hm)
  rw [hg, haccepted]
  exact machine_so hcheck hw₀
    (goes_ends (during_live hrun (by rw [hg]; rfl)) hmachine hx hdns) hproves hdet

theorem ServeInv.proceed (hrun : Run (servingSystem p c₀) tr w) (h : ServeInv p c₀ tr w)
    (hstep : w.proceed p r = some (w', o)) : ServeInv p c₀ (tr ++ [(.proceed r, o)]) w' := by
  have hso := (h.requests r).later (List.prefix_append tr [(.proceed r, none)])
  have haside := h.attest.aside (a := .proceed r) (by simp)
  unfold Serving.proceed at hstep
  split at hstep
  · rename_i s ctx p1 hg
    rw [hg] at hso
    obtain ⟨hended, hbody⟩ := checked_so hso
    split at hstep
    · rename_i out hcheck
      cases hstep
      refine h.of_request haside (fun _ _ => rfl) (fun _ _ => rfl)
        (fun q hq => Serving.set_gate_ne _ _ hq) ?_
      rw [Serving.set_gate]
      exact hended out hcheck
    · rename_i hcheck
      cases hstep
      refine h.of_request haside (fun _ _ => rfl) (fun _ _ => rfl)
        (fun q hq => Serving.set_gate_ne _ _ hq) ?_
      rw [Serving.set_gate]
      exact hbody hcheck
    · rename_i m cert hcheck
      obtain ⟨hidle, haccepted, hproves, hdet⟩ := hso
      refine h.machine (Or.inr ⟨_, rfl⟩) (by simp) (fun m' v evs hm hdns => ?_) hstep
      obtain rfl : m = m' := Option.some.inj ((machineCheck_verify hcheck).symm.trans hm)
      have hw : During p c₀ (tr ++ [(.proceed r, none)]) r w :=
        during_live hrun (by rw [hg]; rfl)
      rw [haccepted]
      exact machine_so hcheck hw (call_ends hw hidle hdns) hproves hdet
  · rename_i s ctx p1 hg
    rw [hg] at hso
    split at hstep
    · rename_i out hcheck
      cases hstep
      refine h.of_request haside (fun _ _ => rfl) (fun _ _ => rfl)
        (fun q hq => Serving.set_gate_ne _ _ hq) ?_
      rw [Serving.set_gate]
      exact unread_so hso hcheck
    · rename_i actual hcheck
      split at hstep
      · cases hstep
      · rename_i v returned henter
        cases hstep
        obtain ⟨hread, hframe, hnot⟩ := read_so hso hcheck henter
        have hattest := h.attest.step (a := .proceed r) (r := r) (by simp) (by simp) henter
        rw [forwardedOf_eq_none hnot] at hattest
        refine h.of_request hattest hframe (fun _ _ => rfl)
          (fun q hq => Serving.set_gate_ne _ _ hq) ?_
        rw [Serving.set_gate]
        exact hread
  · cases hstep

/-- **The invariant holds in every run.** -/
theorem serveInv_run (h : Run (servingSystem p c₀) tr w) : ServeInv p c₀ tr w := by
  refine Run.invariant (ServeInv p c₀) ?_ ?_ h
  · exact ⟨⟨[], .init, rfl, rfl⟩, fun r => ⟨rfl, rfl⟩⟩
  · intro tr w a w' o hrun hinv hs
    change w.step p a = some (w', o) at hs
    cases a with
    | tick c d =>
      cases hs
      exact hinv.tick c d
    | arrive r s now => exact hinv.arrive hrun hs
    | verifier r => exact hinv.verifier hrun hs
    | look r => exact hinv.goes hrun .look (by simp) hs
    | answer r x => exact hinv.goes hrun (.answer x) (by simp) hs
    | settle r sweep d => exact hinv.goes hrun (.settle sweep d) (by simp) hs
    | proceed r => exact hinv.proceed hrun hs

/-! ## What is forwarded -/

theorem seen_commit (cache : NonceCache) (n : Nonce) (now : Nat) :
    (cache.commit n now).1.seen ⊆ insert n cache.seen ∧
      ((cache.commit n now).2 ≠ .ok () → (cache.commit n now).1.seen ⊆ cache.seen) := by
  have hevict : (cache.evictExpired now).seen ⊆ cache.seen := by
    rw [NonceCache.evictExpired_eq]
    exact Finset.sdiff_subset
  rcases hc : cache.commit n now with ⟨cache', e | u⟩
  · obtain ⟨_, rfl, _⟩ := NonceCache.commit_error_spec hc
    exact ⟨hevict.trans (Finset.subset_insert _ _), fun _ => hevict⟩
  · obtain ⟨_, hseen, _⟩ := NonceCache.commit_ok_spec hc
    refine ⟨?_, fun hne => absurd rfl hne⟩
    rw [hseen]
    exact Finset.insert_subset_insert _ hevict

/-- The verifier has seen what it has accepted, and nothing else. -/
theorem seen_committed {K : Crypto} {sk : K.SecretKey}
    {atr : List (Act × Option CommitReturn)} {v : World} (h : Run (proxySystem K sk c₀) atr v) :
    ∀ n ∈ v.cache.seen, ∃ ts, (n, ts) ∈ okCommits atr := by
  refine Run.invariant (fun atr v => ∀ n ∈ v.cache.seen, ∃ ts, (n, ts) ∈ okCommits atr) ?_ ?_ h
  · intro n hn
    exact absurd hn (Finset.notMem_empty n)
  · intro atr v a v' o _ hinv hs n hn
    have hkept : n ∈ v.cache.seen → ∃ ts, (n, ts) ∈ okCommits (atr ++ [(a, o)]) := fun hold => by
      obtain ⟨ts, hts⟩ := hinv n hold
      refine ⟨ts, ?_⟩
      rw [okCommits_append atr a o 0]
      exact List.mem_append_left _ hts
    rcases step_effect hs with ⟨c, rfl, rfl, rfl⟩ | ⟨_, he⟩
    · exact hkept hn
    · cases he with
      | @commit r p1 now hr =>
        obtain ⟨hinsert, herror⟩ := seen_commit v.cache p1.nonce now
        cases hres : (v.cache.commit p1.nonce now).2 with
        | error e =>
          rw [hres] at hkept herror
          exact hkept (herror (fun hok => by cases hok) hn)
        | ok u =>
          rw [hres] at hkept
          rcases Finset.mem_insert.1 (hinsert hn) with rfl | hold
          · refine ⟨p1.ts, ?_⟩
            rw [okCommits_append_ok]
            exact List.mem_append_right _ (List.mem_singleton_self _)
          · exact hkept hold
      | _ => exact hkept hn

theorem seen_forwarded (h : Run (servingSystem p c₀) tr w) :
    ∀ n ∈ w.attest.cache.seen, ∃ x ∈ forwards tr, x.2.nonce = n := by
  intro n hn
  obtain ⟨atr, hrun, _, hcommits⟩ := (serveInv_run h).attest
  obtain ⟨ts, hts⟩ := seen_committed hrun n hn
  rw [hcommits] at hts
  obtain ⟨x, hx, hproved⟩ := List.mem_map.1 hts
  exact ⟨x, hx, congrArg Prod.fst hproved⟩

/-- What a step does to the gate: nothing, or it moves one request that has not ended. -/
def Moves (w w' : Serving L) : Prop :=
  w'.gate = w.gate ∨ ∃ q g, w'.gate = Function.update w.gate q g ∧
    ((∃ s out, w.gate q = .ended s out) → g = w.gate q)

theorem moves_machineStep {x : DnsAct} (h : w.machineStep p r (w.gate r) x = some (w', o)) :
    o = none ∧ Moves w w' := by
  unfold Serving.machineStep at h
  split at h
  · cases h
  · split at h
    · cases h
    · cases h
      refine ⟨rfl, Or.inr ⟨r, _, rfl, ?_⟩⟩
      rintro ⟨s, out, hr⟩
      rw [hr]
      rfl

theorem moves_proceed (h : w.proceed p r = some (w', o)) : o = none ∧ Moves w w' := by
  have hmoves : ∀ (u : Serving L) (g : GatePhase), u.gate = w.gate → (w.gate r).live = true →
      Moves w (u.set r g) := by
    intro u g hu hlive
    refine Or.inr ⟨r, g, by rw [← hu]; rfl, ?_⟩
    rintro ⟨s, out, hr⟩
    rw [hr] at hlive
    cases hlive
  unfold Serving.proceed at h
  split at h
  · rename_i hg
    have hlive : (w.gate r).live = true := by rw [hg]; rfl
    split at h
    · cases h
      exact ⟨rfl, hmoves _ _ rfl hlive⟩
    · cases h
      exact ⟨rfl, hmoves _ _ rfl hlive⟩
    · unfold Serving.machineStep at h
      split at h
      · cases h
      · split at h
        · cases h
        · cases h
          exact ⟨rfl, hmoves { w with dns := _ } _ rfl hlive⟩
  · rename_i hg
    have hlive : (w.gate r).live = true := by rw [hg]; rfl
    split at h
    · cases h
      exact ⟨rfl, hmoves _ _ rfl hlive⟩
    · split at h
      · cases h
      · cases h
        exact ⟨rfl, hmoves { w with attest := _ } _ rfl hlive⟩
  · cases h

/-- **What a step of the proxy can do** to the gate, and what it forwards. -/
theorem step_moves (h : w.step p a = some (w', o)) : Moves w w' ∧ ∀ x, o = some x →
    ∃ r v returned, w.attest.go L.toCrypto p.privateKey r = some (v, returned) ∧
      forwardedOf r returned = some x ∧ w'.gate r = (w.gate r).afterVerifier (v.reqs r) := by
  have hnone : o = none → ∀ x, o = some x → ∃ r v returned,
      w.attest.go L.toCrypto p.privateKey r = some (v, returned) ∧
        forwardedOf r returned = some x ∧ w'.gate r = (w.gate r).afterVerifier (v.reqs r) := by
    rintro rfl x hx
    cases hx
  cases a with
  | tick c d =>
    cases h
    exact ⟨Or.inl rfl, hnone rfl⟩
  | arrive q t now =>
    simp only [Serving.step] at h
    split at h
    · rename_i hidle
      have hended : (∃ s out, w.gate q = .ended s out) → ∀ g, g = w.gate q := by
        rintro ⟨s, out, hq⟩
        rw [hq] at hidle
        cases hidle
      split at h
      · cases h
        exact ⟨Or.inr ⟨q, _, rfl, fun hq => hended hq _⟩, hnone rfl⟩
      · split at h
        · cases h
        · cases h
          exact ⟨Or.inr ⟨q, _, rfl, fun hq => hended hq _⟩, hnone rfl⟩
    · cases h
  | verifier q =>
    simp only [Serving.step] at h
    split at h
    · cases h
    · rename_i v returned hgo
      cases h
      refine ⟨Or.inr ⟨q, _, rfl, ?_⟩, fun x hx => ?_⟩
      · rintro ⟨s, out, hq⟩
        rw [hq]
        rfl
      · exact ⟨q, v, returned, hgo, hx, by rw [Serving.set_gate]⟩
  | look q =>
    obtain ⟨ho, hmoves⟩ := moves_machineStep h
    exact ⟨hmoves, hnone ho⟩
  | answer q x =>
    obtain ⟨ho, hmoves⟩ := moves_machineStep h
    exact ⟨hmoves, hnone ho⟩
  | settle q sweep d =>
    obtain ⟨ho, hmoves⟩ := moves_machineStep h
    exact ⟨hmoves, hnone ho⟩
  | proceed q =>
    obtain ⟨ho, hmoves⟩ := moves_proceed h
    exact ⟨hmoves, hnone ho⟩

theorem Moves.ended (h : Moves w w') {s : Session} {out : Outcome}
    (hr : w.gate r = .ended s out) : w'.gate r = .ended s out := by
  rcases h with hsame | ⟨q, g, hgate, hended⟩
  · rw [hsame, hr]
  · rw [hgate]
    by_cases hq : r = q
    · subst hq
      rw [Function.update_self, hended ⟨s, out, hr⟩, hr]
    · rw [Function.update_of_ne hq, hr]

/-- A step that forwards a request ends it. -/
theorem ServeInv.forwarded_step (hrun : Run (servingSystem p c₀) tr w) (h : ServeInv p c₀ tr w)
    {x : Forwarded} (hstep : w.step p a = some (w', some x)) :
    ∃ s out, w'.gate x.1 = .ended s out := by
  obtain ⟨r, v, returned, hgo, hforwarded, hgate⟩ := (step_moves hstep).2 x rfl
  obtain ⟨_, hatt, _, _⟩ := h.attest
  have hreturned : ∃ p1, returned = some ⟨p1, .ok ()⟩ ∧ x = (r, p1) := by
    rcases returned with _ | ⟨p1, e | u⟩ <;> cases hforwarded
    exact ⟨p1, rfl, rfl⟩
  obtain ⟨p1, rfl, rfl⟩ := hreturned
  have hso := (h.requests r).later (List.prefix_append tr [(a, some (r, p1))])
  have hstuck : (w.attest.reqs r).rests ≠ true := fun hrests => by
    rw [go_rests hrests] at hgo
    cases hgo
  cases hg : w.gate r with
  | phaseOne s ctx i =>
    rw [hg] at hso
    have hearly : Early p c₀ (tr ++ [(a, some (r, p1))]) r w :=
      ⟨during_live hrun (by rw [hg]; rfl), by rw [hg]; rfl⟩
    obtain ⟨hnone, _⟩ := go_phaseOne hearly hso.2.2.1 hgo
    cases hnone
  | committing s ctx q1 =>
    rw [hg] at hso hgate
    rcases go_commit (during_live hrun (by rw [hg]; rfl)) (locked_run hatt) hso.2.1 hgo with
      ⟨hnone, _⟩ | ⟨res, _, _, _, _, _, _, _, hr, _⟩
    · cases hnone
    · rw [hr] at hgate
      exact ⟨s, _, hgate⟩
  | idle => rw [hg] at hso; exact absurd (by rw [hso.1]; rfl) hstuck
  | attested s ctx q1 => rw [hg] at hso; exact absurd (by rw [hso.2.1]; rfl) hstuck
  | identifying s ctx q1 => rw [hg] at hso; exact absurd (by rw [hso.1]; rfl) hstuck
  | reading s ctx q1 => rw [hg] at hso; exact absurd (by rw [hso.2.1]; rfl) hstuck
  | ended s out => rw [hg] at hso; exact absurd hso.1 hstuck

/-- What was forwarded has ended. -/
theorem forwarded_ended (h : Run (servingSystem p c₀) tr w) :
    ∀ x ∈ forwards tr, ∃ s out, w.gate x.1 = .ended s out := by
  refine Run.invariant (fun tr w => ∀ x ∈ forwards tr, ∃ s out, w.gate x.1 = .ended s out) ?_ ?_ h
  · intro x hx
    cases hx
  · intro tr w a w' o hrun hinv hs x hx
    change w.step p a = some (w', o) at hs
    rw [forwards_append] at hx
    rcases List.mem_append.1 hx with hold | hnew
    · obtain ⟨s, out, hgate⟩ := hinv x hold
      exact ⟨s, out, (step_moves hs).1.ended hgate⟩
    · obtain rfl := Option.mem_toList.1 hnew
      exact (serveInv_run hrun).forwarded_step hrun hs

theorem clocks_mem_clockPoints {K : Crypto} {sk : K.SecretKey}
    {atr : List (Act × Option CommitReturn)} {v : World} (h : Run (proxySystem K sk c₀) atr v) :
    v.clocks ∈ clockPoints c₀ atr := by
  refine Run.invariant (fun atr v => v.clocks ∈ clockPoints c₀ atr) ?_ ?_ h
  · exact List.mem_cons_self
  · intro atr v a v' o _ hinv hs
    rcases step_effect hs with ⟨c, rfl, rfl, rfl⟩ | ⟨ha, he⟩
    · rw [clockPoints_append_tick]
      exact List.mem_append_right _ (List.mem_singleton_self _)
    · rw [clockPoints_append c₀ atr ha]
      cases he <;> exact hinv

/-- A request meets the clocks of the run. -/
theorem During.clocks (h : During p c₀ tr r w) : w.attest.clocks ∈ servePoints c₀ tr := by
  obtain ⟨tr₁, e, hp, hrun, _⟩ := h
  obtain ⟨atr, hatt, hpoints, _⟩ := (serveInv_run hrun).attest
  have hmem := clocks_mem_clockPoints hatt
  rw [hpoints] at hmem
  obtain ⟨tr₂, rfl⟩ := (List.prefix_append tr₁ [e]).trans hp
  unfold servePoints at *
  rw [List.filterMap_append, ← List.cons_append]
  exact List.mem_append_left _ hmem

/-- A request that has ended had arrived. -/
theorem ended_arrived (h : Run (servingSystem p c₀) tr w) {s : Session} {out : Outcome}
    (hr : w.gate r = .ended s out) : ∃ now, ServeAct.arrive r s now ∈ tr.map Prod.fst := by
  have hso := (serveInv_run h).requests r
  rw [hr] at hso
  obtain ⟨_, _, ⟨limiter, env, hseen, _⟩, _⟩ := hso
  obtain ⟨tr₁, _, ⟨tr₂, rfl⟩, _⟩ := hseen.arrived
  exact ⟨env.rateNow, by simp⟩

/-! ## Two requests -/

/-- The crates as they behave on two recorded exchanges. -/
def pairCrates : Crates :=
  { workstationCrates with toCrypto := recorded [exchangeA0, exchangeB0] }

def pairProxy : Proxy pairCrates := ⟨(), none, none, none⟩

/-- A recorded exchange as the proxy receives it. -/
def Exchange.session (x : Exchange) : Session where
  req :=
    { method := x.method
      headers := [(HOST_HEADER, asBytes x.host), (TS_HEADER, asBytes x.ts),
        (NONCE_HEADER, asBytes x.inputs.nonceB64), (TOKEN_HEADER, asBytes x.inputs.tokenB64)]
      authority := none
      pathAndQuery := some x.path
      chunks := []
      readError := none }
  clientAddr := none
  serverAddr := none
  clientCert := none

/-- The clocks of the recorded timestamps. -/
def epochClock : Clocks := ⟨⟨0, by decide, by decide⟩, 0⟩

/-- Take the next `k` steps of the verifier for request `r`. -/
def verifierSteps (k r : Nat) : List ServeAct := List.replicate k (.verifier r)

/-- Both requests are past phase 1 before either commits. -/
def pairActs : List ServeAct :=
  [.arrive 0 exchangeA0.session 0, .arrive 1 exchangeB0.session 0] ++ verifierSteps 3 0 ++
    verifierSteps 3 1 ++ [.proceed 0, .proceed 1, .proceed 0] ++ verifierSteps 2 0 ++
    [.proceed 1] ++ verifierSteps 3 0 ++ verifierSteps 5 1

/-- The request has been forwarded as attested. -/
def GatePhase.forwarded : GatePhase → Bool
  | .ended _ out => out.ctx.action = some .forward
  | _ => false

theorem GatePhase.forwarded_eq {g : GatePhase} (h : g.forwarded = true) :
    ∃ s out, g = .ended s out ∧ out.ctx.action = some .forward := by
  cases g with
  | ended s out => exact ⟨s, out, rfl, by simpa [GatePhase.forwarded] using h⟩
  | _ => cases h

theorem pair_run : ∃ tr w, Run (servingSystem pairProxy epochClock) tr w ∧
    (servePoints epochClock tr).Pairwise Tame ∧
    (∀ c ∈ servePoints epochClock tr, 0 ≤ c.wall.nanos) ∧
    (w.gate 0).forwarded = true ∧ (w.gate 1).forwarded = true := by
  have hx : ((exec (servingSystem pairProxy epochClock) pairActs).map
      fun (x : List (ServeAct × Option Forwarded) × Serving pairCrates) =>
        decide ((servePoints epochClock x.1).Pairwise Tame ∧
          (∀ c ∈ servePoints epochClock x.1, 0 ≤ c.wall.nanos) ∧
          (x.2.gate 0).forwarded = true ∧ (x.2.gate 1).forwarded = true)) = some true := by
    decide +kernel
  obtain ⟨⟨tr, w⟩, he, hd⟩ := Option.map_eq_some_iff.1 hx
  obtain ⟨htame, hepoch, hzero, hone⟩ := of_decide_eq_true hd
  exact ⟨tr, w, exec_run he, htame, hepoch, hzero, hone⟩

/-! ## What is seen of a run -/

/-- **The proxy at work refines `requestFilter`.**  However many requests are in the gate and
however their steps interleave, what a request has been shown when it is answered or passed on is
what the gate in one go shows on the rate limiter that the request found on arrival and on clocks
and caches that it has met since. -/
theorem serving_refines (h : Run (servingSystem p c₀) tr w) {s : Session} {out : Outcome}
    (hr : w.gate r = .ended s out) :
    ∃ limiter env, Seen p c₀ tr r s limiter env ∧
      outcome (requestFilter (p.at limiter) s env) = out := by
  have hso := (serveInv_run h).requests r
  rw [hr] at hso
  obtain ⟨_, _, ⟨limiter, env, hseen, hout⟩, _⟩ := hso
  exact ⟨limiter, env, hseen, (outcome_requestFilter _ _ _).trans hout.symm⟩

/-- The first of the two was shown what the gate shows for a request that it passes on. -/
theorem serving_refines_pair : ∃ tr s limiter env,
    Seen pairProxy epochClock tr 0 s limiter env ∧
      (outcome (requestFilter (pairProxy.at limiter) s env)).ctx.action = some .forward := by
  obtain ⟨tr, w, hrun, _, _, hzero, _⟩ := pair_run
  obtain ⟨s, out, hgate, haction⟩ := GatePhase.forwarded_eq hzero
  obtain ⟨limiter, env, hseen, hout⟩ := serving_refines hrun hgate
  exact ⟨tr, s, limiter, env, hseen, by rw [hout, haction]⟩

/-- **Nothing is forwarded twice.**  While the monotonic clock does not decrease, and the wall
clock keeps up with it to within 59 s and is never before the Unix epoch, two requests that were
forwarded as attested present different nonces or different timestamps. -/
theorem forwarded_once (h : Run (servingSystem p c₀) tr w)
    (htame : (servePoints c₀ tr).Pairwise Tame)
    (hepoch : ∀ c ∈ servePoints c₀ tr, 0 ≤ c.wall.nanos) {q r : Nat} (hne : q ≠ r)
    {s t : Session} {out out' : Outcome} (hq : w.gate q = .ended s out)
    (hr : w.gate r = .ended t out') (hs : out.ctx.action = some .forward)
    (ht : out'.ctx.action = some .forward) :
    ∃ i j, s.req.Presents i ∧ t.req.Presents j ∧
      (decodeNonce L.toCrypto i ≠ decodeNonce L.toCrypto j ∨ parseI64 i.ts ≠ parseI64 j.ts) := by
  have hinv := serveInv_run h
  obtain ⟨atr, hrun, hpoints, hcommits⟩ := hinv.attest
  have hnodup : ((forwards tr).map Forwarded.proved).Nodup := by
    rw [← hcommits]
    exact (proxyInv_run hrun ⟨by rw [hpoints]; exact htame, by rw [hpoints]; exact hepoch⟩).nodup
  have hsoq := hinv.requests q
  have hsor := hinv.requests r
  rw [hq] at hsoq
  rw [hr] at hsor
  obtain ⟨p1, hp1, i, hi, hn, hts⟩ := hsoq.2.2.2 hs
  obtain ⟨p2, hp2, j, hj, hn', hts'⟩ := hsor.2.2.2 ht
  refine ⟨i, j, hi, hj, ?_⟩
  rw [hn, hn', hts, hts']
  by_contra hsame
  rw [not_or, not_not, not_not] at hsame
  have hproved : Forwarded.proved (q, p1) = Forwarded.proved (r, p2) :=
    Prod.ext (Except.ok.inj hsame.1) (Option.some.inj hsame.2)
  exact hne (congrArg Prod.fst (List.inj_on_of_nodup_map hnodup hp1 hp2 hproved))

/-- Both requests were forwarded. -/
theorem forwarded_once_pair : ∃ s t i j, Request.Presents s i ∧ Request.Presents t j ∧
    (decodeNonce pairCrates.toCrypto i ≠ decodeNonce pairCrates.toCrypto j ∨
      parseI64 i.ts ≠ parseI64 j.ts) := by
  obtain ⟨tr, w, hrun, htame, hepoch, hzero, hone⟩ := pair_run
  obtain ⟨s, out, hs, haction⟩ := GatePhase.forwarded_eq hzero
  obtain ⟨t, out', ht, haction'⟩ := GatePhase.forwarded_eq hone
  obtain ⟨i, j, hi, hj, hne⟩ :=
    forwarded_once hrun htame hepoch (by decide : (0 : Nat) ≠ 1) hs ht haction haction'
  exact ⟨s.req, t.req, i, j, hi, hj, hne⟩

end DenBrowser
