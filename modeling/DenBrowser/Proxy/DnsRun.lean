import DenBrowser.Lib.Run
import DenBrowser.Proxy.Machine

/-!
# Concurrent machine-identity checks

Any number of `MachineIdentity::verify` calls in flight over one DNS cache.  The cache lookup,
the resolver's answer and the store (or the fallback to a stale answer) are separate steps;
between them the clock moves and other calls store, sweep and replace entries.

* `step_returned` — the four ways a call returns;
* `dnsInv_run` — every cached answer is one the resolver gave for exactly that name;
* `accepted_address` — where the address of an accepted call comes from, and how old it is;
* `rejected_without_answer` — a name without a stored positive answer whose resolver fails is
  rejected;
* `return_eq_verify` — the steps of a call add up to `MachineIdentity.verify`.
-/

set_option autoImplicit false

namespace DenBrowser

open RunLib

/-- The arguments of a `verify` call, and the wall-clock time of its certificate check. -/
structure VerifyCall where
  cert : Str
  clientIp : Option IpAddr
  wall : SystemTime

/-- Where a call is: before the cache lookup, waiting for the resolver, before the store or the
stale fallback. -/
inductive CallPhase where
  | idle
  | looking (c : VerifyCall) (ip : IpAddr) (machine : VerifiedMachine)
  | asking (c : VerifyCall) (ip : IpAddr) (machine : VerifiedMachine)
  | answered (c : VerifyCall) (ip : IpAddr) (machine : VerifiedMachine)
      (x : Except Unit (List IpAddr))
  | returned

structure DnsWorld where
  now : Nat
  cache : DnsCache
  calls : Nat → CallPhase

def DnsWorld.set (w : DnsWorld) (r : Nat) (p : CallPhase) : DnsWorld :=
  { w with calls := Function.update w.calls r p }

/-- What happens next: the clock advances, a call starts, looks into the cache, gets the
resolver's answer, or settles it.  Settling takes time `d`, in which the sweep reads the clock
for each entry. -/
inductive DnsAct where
  | tick (d : Nat)
  | call (r : Nat) (c : VerifyCall)
  | look (r : Nat)
  | answer (r : Nat) (x : Except Unit (List IpAddr))
  | settle (r : Nat) (sweep : Str → Nat) (d : Nat)

/-- What a step lets be seen. -/
inductive DnsEvent where
  | asked (r : Nat) (host : Str)
  | answered (r : Nat) (host : Str) (x : Except Unit (List IpAddr))
  | stored (r : Nat) (host : Str) (addrs : List IpAddr) (time : Nat)
  | returned (r : Nat) (c : VerifyCall) (res : Except MachineError VerifiedMachine)

variable {L : Crates}

def DnsWorld.step (m : MachineIdentity L) (w : DnsWorld) :
    DnsAct → Option (DnsWorld × List DnsEvent)
  | .tick d => some ({ w with now := w.now + d }, [])
  | .call r c =>
    match w.calls r with
    | .idle =>
      match c.clientIp with
      | none => some (w.set r .returned, [.returned r c (.error .noClientAddress)])
      | some ip =>
        match m.verifyCert c.cert c.wall with
        | .error e => some (w.set r .returned, [.returned r c (.error e)])
        | .ok machine => some (w.set r (.looking c ip machine), [])
    | _ => none
  | .look r =>
    match w.calls r with
    | .looking c ip machine =>
      match m.freshAnswer w.cache machine.hostname w.now with
      | some addrs =>
        some (w.set r .returned, [.returned r c (checkAddress machine ip (some addrs))])
      | none => some (w.set r (.asking c ip machine), [.asked r machine.hostname])
    | _ => none
  | .answer r x =>
    match w.calls r with
    | .asking c ip machine =>
      some (w.set r (.answered c ip machine x), [.answered r machine.hostname x])
    | _ => none
  | .settle r sweep d =>
    match w.calls r with
    | .answered c ip machine (.ok addrs) =>
      some ({ w with
          now := w.now + d
          cache := m.storeAnswer w.cache machine.hostname addrs
            (fun h => w.now + min (sweep h) d) (w.now + d) }.set r .returned,
        [.stored r machine.hostname addrs (w.now + d),
          .returned r c (checkAddress machine ip (some addrs))])
    | .answered c ip machine (.error ()) =>
      some (w.set r .returned, [.returned r c
        (checkAddress machine ip (m.staleAnswer w.cache machine.hostname w.now))])
    | _ => none

/-- The verifier with an empty cache. -/
def dnsSystem (m : MachineIdentity L) : System DnsWorld DnsAct (List DnsEvent) where
  init := ⟨0, fun _ => none, fun _ => .idle⟩
  step := DnsWorld.step m

/-- Everything that was seen in a run, in order. -/
def dnsEvents (tr : List (DnsAct × List DnsEvent)) : List DnsEvent := tr.flatMap Prod.snd

theorem dnsEvents_append (tr : List (DnsAct × List DnsEvent)) (a : DnsAct)
    (evs : List DnsEvent) : dnsEvents (tr ++ [(a, evs)]) = dnsEvents tr ++ evs := by
  simp [dnsEvents]

/-! ## What one step can do -/

/-- A change of one call, with the events it shows about itself. -/
inductive DnsEffect (m : MachineIdentity L) (w : DnsWorld) : DnsWorld → List DnsEvent → Prop
  | tick (d : Nat) : DnsEffect m w { w with now := w.now + d } []
  | refused {r : Nat} {c : VerifyCall} {e : MachineError} : w.calls r = .idle →
      (c.clientIp = none ∧ e = .noClientAddress ∨
        c.clientIp ≠ none ∧ m.verifyCert c.cert c.wall = .error e) →
      DnsEffect m w (w.set r .returned) [.returned r c (.error e)]
  | start {r : Nat} {c : VerifyCall} {ip : IpAddr} {machine : VerifiedMachine} :
      w.calls r = .idle → c.clientIp = some ip → m.verifyCert c.cert c.wall = .ok machine →
      DnsEffect m w (w.set r (.looking c ip machine)) []
  | fresh {r : Nat} {c : VerifyCall} {ip : IpAddr} {machine : VerifiedMachine}
      {addrs : List IpAddr} : w.calls r = .looking c ip machine →
      m.freshAnswer w.cache machine.hostname w.now = some addrs →
      DnsEffect m w (w.set r .returned) [.returned r c (checkAddress machine ip (some addrs))]
  | miss {r : Nat} {c : VerifyCall} {ip : IpAddr} {machine : VerifiedMachine} :
      w.calls r = .looking c ip machine →
      m.freshAnswer w.cache machine.hostname w.now = none →
      DnsEffect m w (w.set r (.asking c ip machine)) [.asked r machine.hostname]
  | answer {r : Nat} {c : VerifyCall} {ip : IpAddr} {machine : VerifiedMachine}
      {x : Except Unit (List IpAddr)} : w.calls r = .asking c ip machine →
      DnsEffect m w (w.set r (.answered c ip machine x)) [.answered r machine.hostname x]
  | store {r : Nat} {c : VerifyCall} {ip : IpAddr} {machine : VerifiedMachine}
      {addrs : List IpAddr} {sweep : Str → Nat} {d : Nat} :
      w.calls r = .answered c ip machine (.ok addrs) →
      DnsEffect m w ({ w with
          now := w.now + d
          cache := m.storeAnswer w.cache machine.hostname addrs sweep (w.now + d) }.set r .returned)
        [.stored r machine.hostname addrs (w.now + d),
          .returned r c (checkAddress machine ip (some addrs))]
  | fallback {r : Nat} {c : VerifyCall} {ip : IpAddr} {machine : VerifiedMachine} :
      w.calls r = .answered c ip machine (.error ()) →
      DnsEffect m w (w.set r .returned) [.returned r c
        (checkAddress machine ip (m.staleAnswer w.cache machine.hostname w.now))]

/-- **What one step can do.** -/
theorem dns_step_effect {m : MachineIdentity L} {w w' : DnsWorld} {a : DnsAct}
    {evs : List DnsEvent} (h : w.step m a = some (w', evs)) : DnsEffect m w w' evs := by
  cases a with
  | tick d => cases h; exact .tick d
  | call r c =>
    simp only [DnsWorld.step] at h
    split at h
    · rename_i hr
      split at h
      · rename_i hc
        cases h; exact .refused hr (Or.inl ⟨hc, rfl⟩)
      · rename_i ip hc
        split at h
        · rename_i e he
          cases h; exact .refused hr (Or.inr ⟨by simp [hc], he⟩)
        · rename_i machine hm
          cases h; exact .start hr hc hm
    · cases h
  | look r =>
    simp only [DnsWorld.step] at h
    split at h
    · rename_i hr
      split at h
      · rename_i hf
        cases h; exact .fresh hr hf
      · rename_i hf
        cases h; exact .miss hr hf
    · cases h
  | answer r x =>
    simp only [DnsWorld.step] at h
    split at h
    · rename_i hr
      cases h; exact .answer hr
    · cases h
  | settle r sweep d =>
    simp only [DnsWorld.step] at h
    split at h
    · rename_i hr
      cases h; exact .store hr
    · rename_i hr
      cases h; exact .fallback hr
    · cases h

/-- The four ways a call returns. -/
theorem step_returned {m : MachineIdentity L} {w w' : DnsWorld} {a : DnsAct}
    {evs : List DnsEvent} {r : Nat} {c : VerifyCall}
    {res : Except MachineError VerifiedMachine} (h : w.step m a = some (w', evs))
    (hr : .returned r c res ∈ evs) :
    (w.calls r = .idle ∧ ∃ e, res = .error e) ∨
      ∃ ip machine,
        (∃ addrs, w.calls r = .looking c ip machine ∧
          m.freshAnswer w.cache machine.hostname w.now = some addrs ∧
          res = checkAddress machine ip (some addrs)) ∨
        (∃ addrs, w.calls r = .answered c ip machine (.ok addrs) ∧
          res = checkAddress machine ip (some addrs)) ∨
        (w.calls r = .answered c ip machine (.error ()) ∧
          res = checkAddress machine ip (m.staleAnswer w.cache machine.hostname w.now)) := by
  cases dns_step_effect h with
  | tick d => cases hr
  | refused hi _ =>
    simp only [List.mem_singleton, DnsEvent.returned.injEq] at hr
    obtain ⟨rfl, rfl, rfl⟩ := hr
    exact Or.inl ⟨hi, _, rfl⟩
  | start _ _ _ => cases hr
  | fresh hl hf =>
    simp only [List.mem_singleton, DnsEvent.returned.injEq] at hr
    obtain ⟨rfl, rfl, rfl⟩ := hr
    exact Or.inr ⟨_, _, Or.inl ⟨_, hl, hf, rfl⟩⟩
  | miss _ _ => simp at hr
  | answer _ => simp at hr
  | store ha =>
    simp only [List.mem_cons, reduceCtorEq, false_or, List.not_mem_nil, or_false,
      DnsEvent.returned.injEq] at hr
    obtain ⟨rfl, rfl, rfl⟩ := hr
    exact Or.inr ⟨_, _, Or.inr (Or.inl ⟨_, ha, rfl⟩)⟩
  | fallback ha =>
    simp only [List.mem_singleton, DnsEvent.returned.injEq] at hr
    obtain ⟨rfl, rfl, rfl⟩ := hr
    exact Or.inr ⟨_, _, Or.inr (Or.inr ⟨ha, rfl⟩)⟩

/-! ## The invariant -/

/-- The resolver's answers so far are not about call `r`. -/
def Unanswered (tr : List (DnsAct × List DnsEvent)) (r : Nat) : Prop :=
  ∀ host x, DnsEvent.answered r host x ∉ dnsEvents tr

/-- The name was looked up in the cache, and was not there or no longer fresh. -/
def Missed (m : MachineIdentity L) (tr : List (DnsAct × List DnsEvent)) (host : Str) : Prop :=
  ∃ tr₁ w₁, tr₁ <+: tr ∧ Run (dnsSystem m) tr₁ w₁ ∧ m.freshAnswer w₁.cache host w₁.now = none

/-- What holds of a call in each phase. -/
def CallSo (m : MachineIdentity L) (tr : List (DnsAct × List DnsEvent)) (r : Nat) :
    CallPhase → Prop
  | .idle => Unanswered tr r
  | .looking c ip machine =>
    Unanswered tr r ∧ c.clientIp = some ip ∧ m.verifyCert c.cert c.wall = .ok machine
  | .asking c ip machine =>
    Unanswered tr r ∧ c.clientIp = some ip ∧ m.verifyCert c.cert c.wall = .ok machine ∧
      Missed m tr machine.hostname
  | .answered c ip machine x =>
    (∀ host y, DnsEvent.answered r host y ∈ dnsEvents tr ↔ host = machine.hostname ∧ y = x) ∧
      c.clientIp = some ip ∧ m.verifyCert c.cert c.wall = .ok machine ∧
      Missed m tr machine.hostname
  | .returned => True

/-- The resolver gave the answer for exactly this name, and it was stored at `t`. -/
def StoredAnswer (tr : List (DnsAct × List DnsEvent)) (host : Str) (addrs : List IpAddr)
    (t : Nat) : Prop :=
  ∃ q, DnsEvent.answered q host (.ok addrs) ∈ dnsEvents tr ∧
    DnsEvent.stored q host addrs t ∈ dnsEvents tr

structure DnsInv (m : MachineIdentity L) (tr : List (DnsAct × List DnsEvent)) (w : DnsWorld) :
    Prop where
  origin : ∀ host e, w.cache host = some e →
    e.fetched ≤ w.now ∧ StoredAnswer tr host e.addrs e.fetched
  calls : ∀ r, CallSo m tr r (w.calls r)

section Invariant

variable {m : MachineIdentity L} {tr : List (DnsAct × List DnsEvent)} {w w' : DnsWorld}

theorem StoredAnswer.later {host : Str} {addrs : List IpAddr} {t : Nat}
    (h : StoredAnswer tr host addrs t) (a : DnsAct) (evs : List DnsEvent) :
    StoredAnswer (tr ++ [(a, evs)]) host addrs t := by
  obtain ⟨q, h1, h2⟩ := h
  refine ⟨q, ?_, ?_⟩
  · rw [dnsEvents_append]; exact List.mem_append_left _ h1
  · rw [dnsEvents_append]; exact List.mem_append_left _ h2

theorem Missed.later {host : Str} (h : Missed m tr host) (a : DnsAct) (evs : List DnsEvent) :
    Missed m (tr ++ [(a, evs)]) host := by
  obtain ⟨tr₁, w₁, hp, hrest⟩ := h
  exact ⟨tr₁, w₁, hp.trans (List.prefix_append _ _), hrest⟩

/-- A step that shows no resolver answer for a call keeps what holds of it. -/
theorem CallSo.later {r : Nat} {p : CallPhase} (h : CallSo m tr r p) (a : DnsAct)
    {evs : List DnsEvent} (hev : ∀ host x, DnsEvent.answered r host x ∉ evs) :
    CallSo m (tr ++ [(a, evs)]) r p := by
  have hmem : ∀ host x, DnsEvent.answered r host x ∈ dnsEvents (tr ++ [(a, evs)]) ↔
      DnsEvent.answered r host x ∈ dnsEvents tr := by
    intro host x
    rw [dnsEvents_append, List.mem_append]
    exact or_iff_left (hev host x)
  have hun : Unanswered tr r → Unanswered (tr ++ [(a, evs)]) r :=
    fun hu host x hx => hu host x ((hmem host x).1 hx)
  cases p with
  | idle => exact hun h
  | looking c ip machine => exact ⟨hun h.1, h.2⟩
  | asking c ip machine => exact ⟨hun h.1, h.2.1, h.2.2.1, h.2.2.2.later a evs⟩
  | answered c ip machine x =>
    exact ⟨fun host y => (hmem host y).trans (h.1 host y), h.2.1, h.2.2.1, h.2.2.2.later a evs⟩
  | returned => trivial

theorem callSo_set {r : Nat} {p : CallPhase} (h : ∀ s, s ≠ r → CallSo m tr s (w.calls s))
    (hp : CallSo m tr r p) (s : Nat) : CallSo m tr s ((w.set r p).calls s) := by
  by_cases hsr : s = r
  · subst hsr
    simpa [DnsWorld.set] using hp
  · simpa only [DnsWorld.set, Function.update_of_ne hsr] using h s hsr

/-- A step of one call that leaves the cache and the clock alone. -/
theorem DnsInv.quiet (h : DnsInv m tr w) (a : DnsAct) {evs : List DnsEvent} {r : Nat}
    {p : CallPhase} (hev : ∀ s, s ≠ r → ∀ host x, DnsEvent.answered s host x ∉ evs)
    (hp : CallSo m (tr ++ [(a, evs)]) r p) : DnsInv m (tr ++ [(a, evs)]) (w.set r p) := by
  refine ⟨fun host e he => ?_, fun s => ?_⟩
  · obtain ⟨hle, hst⟩ := h.origin host e he
    exact ⟨hle, hst.later a evs⟩
  · exact callSo_set (fun s hs => (h.calls s).later a (hev s hs)) hp s

/-- **One step keeps the invariant.** -/
theorem DnsInv.effect (h : DnsInv m tr w) (hrun : Run (dnsSystem m) tr w) (a : DnsAct)
    {evs : List DnsEvent} (he : DnsEffect m w w' evs) : DnsInv m (tr ++ [(a, evs)]) w' := by
  cases he with
  | tick d =>
    refine ⟨fun host e he => ?_, fun s => (h.calls s).later a (by simp)⟩
    obtain ⟨hle, hst⟩ := h.origin host e he
    exact ⟨Nat.le_trans hle (Nat.le_add_right _ _), hst.later a _⟩
  | @refused r c e hr _ => exact h.quiet a (by simp) trivial
  | @start r c ip machine hr hc hm =>
    have hcall := h.calls r
    rw [hr] at hcall
    have hun : CallSo m (tr ++ [(a, [])]) r .idle := CallSo.later hcall a (by simp)
    exact h.quiet a (by simp) ⟨hun, hc, hm⟩
  | @fresh r c ip machine addrs hr hf => exact h.quiet a (by simp) trivial
  | @miss r c ip machine hr hf =>
    have hcall := h.calls r
    rw [hr] at hcall
    have hlater : CallSo m (tr ++ [(a, [.asked r machine.hostname])]) r
        (.looking c ip machine) := CallSo.later hcall a (by simp)
    obtain ⟨hun, hc, hm⟩ := hlater
    exact h.quiet a (by simp) ⟨hun, hc, hm, tr, w, List.prefix_append _ _, hrun, hf⟩
  | @answer r c ip machine x hr =>
    have hcall := h.calls r
    rw [hr] at hcall
    obtain ⟨hun, hc, hm, hmiss⟩ := hcall
    refine h.quiet a ?_ ⟨?_, hc, hm, hmiss.later a _⟩
    · intro s hs host y hmem
      simp only [List.mem_singleton, DnsEvent.answered.injEq] at hmem
      exact hs hmem.1
    · intro host y
      rw [dnsEvents_append, List.mem_append, or_iff_right (hun host y)]
      simp
  | @store r c ip machine addrs sweep d hr =>
    have hcall := h.calls r
    rw [hr] at hcall
    have hans : DnsEvent.answered r machine.hostname (.ok addrs) ∈ dnsEvents tr :=
      (hcall.1 _ _).2 ⟨rfl, rfl⟩
    refine ⟨fun host e he => ?_, fun s => ?_⟩
    · rcases storeAnswer_entry he with ⟨rfl, rfl⟩ | hold
      · refine ⟨Nat.le_refl _, r, ?_, ?_⟩
        · rw [dnsEvents_append]; exact List.mem_append_left _ hans
        · rw [dnsEvents_append]; exact List.mem_append_right _ (by simp)
      · obtain ⟨hle, hst⟩ := h.origin host e hold
        exact ⟨Nat.le_trans hle (Nat.le_add_right _ _), hst.later a _⟩
    · refine callSo_set (fun s _ => (h.calls s).later a (by simp)) ?_ s
      trivial
  | @fallback r c ip machine hr => exact h.quiet a (by simp) trivial

/-- **The invariant holds in every run.** -/
theorem dnsInv_run (h : Run (dnsSystem m) tr w) : DnsInv m tr w := by
  refine Run.invariant (DnsInv m) ?_ ?_ h
  · refine ⟨fun host e he => by simp [dnsSystem] at he, fun r => ?_⟩
    intro host x hx
    simp [dnsEvents] at hx
  · intro tr w a w' evs hrun hinv hs
    exact hinv.effect hrun a (dns_step_effect hs)

/-! ## Safety of the check -/

/-- Where the address of an accepted call comes from: an answer for exactly the certificate's
name that the resolver gave in this call, or an earlier one that is still fresh, or, when the
resolver failed in this call, one within the stale grace. -/
def AddressSource (m : MachineIdentity L) (tr : List (DnsAct × List DnsEvent)) (now r : Nat)
    (host : Str) (addrs : List IpAddr) : Prop :=
  DnsEvent.answered r host (.ok addrs) ∈ dnsEvents tr ∨
    (∃ t, StoredAnswer tr host addrs t ∧ t ≤ now ∧ now - t < m.dnsTtl) ∨
    (DnsEvent.answered r host (.error ()) ∈ dnsEvents tr ∧
      ∃ t, StoredAnswer tr host addrs t ∧ t ≤ now ∧ now - t < m.dnsTtl + m.dnsStaleGrace)

/-- **Where the address of an accepted call comes from.** -/
theorem accepted_address (h : Run (dnsSystem m) tr w) {a : DnsAct} {evs : List DnsEvent}
    (hs : w.step m a = some (w', evs)) {r : Nat} {c : VerifyCall} {machine : VerifiedMachine}
    (hr : .returned r c (.ok machine) ∈ evs) :
    ∃ ip addrs, c.clientIp = some ip ∧ CertAccepted m c.cert c.wall machine ∧ ip ∈ addrs ∧
      AddressSource m tr w.now r machine.hostname addrs := by
  have hinv := dnsInv_run h
  have hcall := hinv.calls r
  rcases step_returned hs hr with ⟨_, e, he⟩ | ⟨ip, machine', hcase⟩
  · cases he
  rcases hcase with ⟨addrs, hp, hf, hres⟩ | ⟨addrs, hp, hres⟩ | ⟨hp, hres⟩
  · rw [hp] at hcall
    obtain ⟨_, hc, hm⟩ := hcall
    obtain ⟨rfl, _, hsome, hip⟩ := checkAddress_ok_iff.1 hres.symm
    cases hsome
    obtain ⟨t, he, hage⟩ := freshAnswer_of_positive hf hip
    obtain ⟨hle, hst⟩ := hinv.origin _ _ he
    exact ⟨ip, addrs, hc, verifyCert_ok_iff.1 hm, hip, Or.inr (Or.inl ⟨t, hst, hle, hage⟩)⟩
  · rw [hp] at hcall
    obtain ⟨hans, hc, hm, _⟩ := hcall
    obtain ⟨rfl, _, hsome, hip⟩ := checkAddress_ok_iff.1 hres.symm
    cases hsome
    exact ⟨ip, addrs, hc, verifyCert_ok_iff.1 hm, hip, Or.inl ((hans _ _).2 ⟨rfl, rfl⟩)⟩
  · rw [hp] at hcall
    obtain ⟨hans, hc, hm, _⟩ := hcall
    obtain ⟨rfl, addrs, hsome, hip⟩ := checkAddress_ok_iff.1 hres.symm
    obtain ⟨t, he, _, hage⟩ := staleAnswer_eq_some hsome
    obtain ⟨hle, hst⟩ := hinv.origin _ _ he
    exact ⟨ip, addrs, hc, verifyCert_ok_iff.1 hm, hip,
      Or.inr (Or.inr ⟨(hans _ _).2 ⟨rfl, rfl⟩, t, hst, hle, hage⟩)⟩

/-- **A name without a stored positive answer is rejected while the resolver fails.** -/
theorem rejected_without_answer (h : Run (dnsSystem m) tr w) {a : DnsAct}
    {evs : List DnsEvent} (hs : w.step m a = some (w', evs)) {r : Nat} {c : VerifyCall}
    {res : Except MachineError VerifiedMachine} (hr : .returned r c res ∈ evs) {host : Str}
    (hfail : DnsEvent.answered r host (.error ()) ∈ dnsEvents tr)
    (hnone : ∀ addrs t, StoredAnswer tr host addrs t → addrs = []) :
    ∃ e, res = .error e := by
  have hinv := dnsInv_run h
  have hcall := hinv.calls r
  rcases step_returned hs hr with ⟨_, he⟩ | ⟨ip, machine, hcase⟩
  · exact he
  rcases hcase with ⟨addrs, hp, _, _⟩ | ⟨addrs, hp, _⟩ | ⟨hp, hres⟩
  · rw [hp] at hcall
    exact absurd hfail (hcall.1 _ _)
  · rw [hp] at hcall
    cases ((hcall.1 _ _).1 hfail).2
  · rw [hp] at hcall
    obtain ⟨rfl, _⟩ := (hcall.1 _ _).1 hfail
    cases hst : m.staleAnswer w.cache machine.hostname w.now with
    | none =>
      rw [hst] at hres
      exact ⟨_, hres⟩
    | some addrs =>
      obtain ⟨t, he, hne, _⟩ := staleAnswer_eq_some hst
      exact absurd (hnone _ _ (hinv.origin _ _ he).2) hne

/-- The steps of a call add up to `MachineIdentity.verify`: what it returns and the cache it
leaves are those of `verify` on what it found on the way. -/
theorem return_eq_verify (h : Run (dnsSystem m) tr w) {a : DnsAct} {evs : List DnsEvent}
    (hs : w.step m a = some (w', evs)) {r : Nat} {c : VerifyCall}
    {res : Except MachineError VerifiedMachine} (hr : .returned r c res ∈ evs) :
    ∃ d : DnsEnv, res = (m.verify c.cert c.clientIp c.wall d).result ∧
      (w'.cache ≠ w.cache → w'.cache = (m.verify c.cert c.clientIp c.wall d).cache) := by
  have hinv := dnsInv_run h
  cases dns_step_effect hs with
  | tick d => cases hr
  | refused hi hcase =>
    simp only [List.mem_singleton, DnsEvent.returned.injEq] at hr
    obtain ⟨rfl, rfl, rfl⟩ := hr
    refine ⟨⟨w.cache, w.now, fun _ => .error (), w.cache, fun _ => 0, 0⟩, ?_,
      fun hne => absurd rfl hne⟩
    unfold MachineIdentity.verify
    rcases hcase with ⟨hc, rfl⟩ | ⟨hc, he⟩
    · rw [hc]
    · cases hip : c.clientIp with
      | none => exact absurd hip hc
      | some ip => simp only [he]
  | start _ _ _ => cases hr
  | @fresh q c' ip machine addrs hl hf =>
    simp only [List.mem_singleton, DnsEvent.returned.injEq] at hr
    obtain ⟨rfl, rfl, rfl⟩ := hr
    have hcall := hinv.calls r
    rw [hl] at hcall
    refine ⟨⟨w.cache, w.now, fun _ => .error (), w.cache, fun _ => 0, 0⟩, ?_,
      fun hne => absurd rfl hne⟩
    simp only [MachineIdentity.verify, MachineIdentity.resolveCached, hcall.2.1, hcall.2.2, hf]
  | miss _ _ => simp at hr
  | answer _ => simp at hr
  | @store q c' ip machine addrs sweep d ha =>
    simp only [List.mem_cons, reduceCtorEq, false_or, List.not_mem_nil, or_false,
      DnsEvent.returned.injEq] at hr
    obtain ⟨rfl, rfl, rfl⟩ := hr
    have hcall := hinv.calls r
    rw [ha] at hcall
    obtain ⟨_, hc, hm, tr₁, w₁, _, _, hmiss⟩ := hcall
    refine ⟨⟨w₁.cache, w₁.now, fun _ => .ok addrs, w.cache, sweep, w.now + d⟩, ?_, fun _ => ?_⟩
    · simp only [MachineIdentity.verify, MachineIdentity.resolveCached, hc, hm, hmiss]
    · simp only [MachineIdentity.verify, MachineIdentity.resolveCached, hc, hm, hmiss,
        DnsWorld.set]
  | @fallback q c' ip machine ha =>
    simp only [List.mem_singleton, DnsEvent.returned.injEq] at hr
    obtain ⟨rfl, rfl, rfl⟩ := hr
    have hcall := hinv.calls r
    rw [ha] at hcall
    obtain ⟨_, hc, hm, tr₁, w₁, _, _, hmiss⟩ := hcall
    refine ⟨⟨w₁.cache, w₁.now, fun _ => .error (), w.cache, fun _ => 0, w.now⟩, ?_,
      fun hne => absurd rfl hne⟩
    simp only [MachineIdentity.verify, MachineIdentity.resolveCached, hc, hm, hmiss]

end Invariant

end DenBrowser
