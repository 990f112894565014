import DenBrowser.Proxy.Forwarding

/-!
# What the DNS cache remembers

How long the cache of `MachineIdentity` keeps what calls can still use.  `store` sweeps with one
limit, `dns_ttl + dns_stale_grace`, whatever `dns_negative_ttl` is, and a resolver's error is not
stored at all.

* `store_keeps_iff` — when a store keeps what later calls could have used;
* `storeExact_iff` — so it does for every cache exactly when the negative lifetime is within the
  limit;
* `remembered_iff` — which failed lookups are answered from the cache afterwards;
* `notAsked_run` — an empty answer in a run of concurrent checks.
-/

set_option autoImplicit false

namespace DenBrowser

open RunLib

section Store

variable {L : Crates} {m : MachineIdentity L} {cache : DnsCache} {host : Str}
  {addrs : List IpAddr} {sweep : Str → Nat} {now : Nat}

/-- A call for `host` at time `now` gets an answer out of the cache: on the fast path, or when
the resolver fails. -/
def MachineIdentity.Usable (m : MachineIdentity L) (cache : DnsCache) (host : Str) (now : Nat) :
    Prop :=
  m.freshAnswer cache host now ≠ none ∨ m.staleAnswer cache host now ≠ none

/-- What `store` is to do to the map: it drops no entry of another name that a call could still
use once the store is done, it changes none, every other entry was younger than
`dns_ttl + dns_stale_grace` when the sweep read the clock for it, and the answer is in. -/
structure StoreExact (m : MachineIdentity L) (cache : DnsCache) (host : Str)
    (addrs : List IpAddr) (sweep : Str → Nat) (now : Nat) : Prop where
  keeps : ∀ h, h ≠ host → ∀ t, now ≤ t → m.Usable cache h t →
    m.storeAnswer cache host addrs sweep now h = cache h
  unchanged : ∀ h, h ≠ host → ∀ e, m.storeAnswer cache host addrs sweep now h = some e →
    cache h = some e
  young : ∀ h, h ≠ host → ∀ e, m.storeAnswer cache host addrs sweep now h = some e →
    sweep h - e.fetched < m.dnsTtl + m.dnsStaleGrace
  inserted : m.storeAnswer cache host addrs sweep now host = some ⟨addrs, now⟩

theorem storeAnswer_self : m.storeAnswer cache host addrs sweep now host = some ⟨addrs, now⟩ :=
  Function.update_self ..

theorem storeAnswer_other {h : Str} (hne : h ≠ host) :
    m.storeAnswer cache host addrs sweep now h =
      (cache h).filter fun e => decide (sweep h - e.fetched < m.dnsTtl + m.dnsStaleGrace) :=
  Function.update_of_ne hne ..

/-- The sweep keeps an entry that was younger than the limit. -/
theorem storeAnswer_kept {h : Str} {e : CacheEntry} (hne : h ≠ host) (he : cache h = some e)
    (hage : sweep h - e.fetched < m.dnsTtl + m.dnsStaleGrace) :
    m.storeAnswer cache host addrs sweep now h = some e := by
  rw [storeAnswer_other hne, he, Option.filter_some, if_pos (by simpa using hage)]

theorem storeAnswer_swept {h : Str} {e : CacheEntry} (hne : h ≠ host) (he : cache h = some e)
    (hage : m.dnsTtl + m.dnsStaleGrace ≤ sweep h - e.fetched) :
    m.storeAnswer cache host addrs sweep now h = none := by
  rw [storeAnswer_other hne, he, Option.filter_some, if_neg (by simpa using hage)]

/-- Past the limit only a negative entry can still be used. -/
theorem usable_past_limit {h : Str} {e : CacheEntry} {t : Nat} (he : cache h = some e)
    (hage : m.dnsTtl + m.dnsStaleGrace ≤ t - e.fetched) :
    m.Usable cache h t ↔ e.addrs = [] ∧ t - e.fetched < m.dnsNegativeTtl := by
  have hstale : m.staleAnswer cache h t = none := by
    unfold MachineIdentity.staleAnswer
    rw [he]
    exact if_neg fun hc => absurd hc.2 (by omega)
  unfold MachineIdentity.Usable MachineIdentity.freshAnswer MachineIdentity.ttlOf
    CacheEntry.isNegative
  rw [hstale, he]
  obtain ⟨as, f⟩ := e
  cases as with
  | nil => simp
  | cons a as =>
    have hold : m.dnsTtl ≤ t - f := by
      dsimp only at hage
      omega
    simp [hold]

/-- **When a store keeps what later calls could have used**: no other name's negative answer is
as old as the limit and still within its own lifetime. -/
theorem store_keeps_iff (hsweep : ∀ h, sweep h ≤ now) :
    StoreExact m cache host addrs sweep now ↔
      ∀ h f, h ≠ host → cache h = some ⟨[], f⟩ → now - f < m.dnsNegativeTtl →
        sweep h - f < m.dnsTtl + m.dnsStaleGrace := by
  constructor
  · intro hexact h f hne he hfresh
    by_contra hold
    have hage : m.dnsTtl + m.dnsStaleGrace ≤ sweep h - f := Nat.le_of_not_lt hold
    have hread := hsweep h
    have husable : m.Usable cache h now :=
      (usable_past_limit he (show m.dnsTtl + m.dnsStaleGrace ≤ now - f by omega)).2 ⟨rfl, hfresh⟩
    have hkept := hexact.keeps h hne now (Nat.le_refl _) husable
    rw [storeAnswer_swept hne he hage, he] at hkept
    cases hkept
  · intro hnegative
    refine ⟨fun h hne t ht husable => ?_, fun h hne e he => ?_, fun h hne e he => ?_,
      storeAnswer_self⟩
    · cases he : cache h with
      | none => rw [storeAnswer_other hne, he, Option.filter_none]
      | some e =>
        refine storeAnswer_kept hne he ?_
        by_contra hold
        have hread := hsweep h
        obtain ⟨hempty, hfresh⟩ := (usable_past_limit he (by omega)).1 husable
        obtain ⟨as, f⟩ := e
        cases hempty
        exact hold (hnegative h f hne he (by dsimp only at hfresh ⊢; omega))
    · rw [storeAnswer_other hne] at he
      exact (Option.filter_eq_some_iff.1 he).1
    · rw [storeAnswer_other hne] at he
      simpa using (Option.filter_eq_some_iff.1 he).2

/-- A name that is not `host`. -/
def otherName (host : Str) : Str := 'x' :: host

theorem otherName_ne (host : Str) : otherName host ≠ host := List.cons_ne_self 'x' host

/-- **The sweep is exact exactly when the negative lifetime is within its limit**; for one cache,
also when none of its negative answers is past the limit and still fresh. -/
theorem storeExact_iff (m : MachineIdentity L) :
    (∀ cache host addrs sweep now, (∀ h, sweep h ≤ now) →
      (StoreExact m cache host addrs sweep now ↔
        ∀ h f, h ≠ host → cache h = some ⟨[], f⟩ → now - f < m.dnsNegativeTtl →
          sweep h - f < m.dnsTtl + m.dnsStaleGrace)) ∧
    ((∀ cache host addrs sweep now, (∀ h, sweep h ≤ now) →
        StoreExact m cache host addrs sweep now) ↔
      m.dnsNegativeTtl ≤ m.dnsTtl + m.dnsStaleGrace) := by
  refine ⟨fun cache host addrs sweep now hsweep => store_keeps_iff hsweep, fun hall => ?_,
    fun hle cache host addrs sweep now hsweep => ?_⟩
  · by_contra hlt
    -- a negative answer as old as the limit, swept by a store for another name
    let limit := m.dnsTtl + m.dnsStaleGrace
    have hexact := hall (fun _ => some ⟨[], 0⟩) [] [] (fun _ => limit) limit
      fun _ => Nat.le_refl _
    have hage := (store_keeps_iff fun _ => Nat.le_refl _).1 hexact (otherName []) 0
      (otherName_ne []) rfl (show limit - 0 < m.dnsNegativeTtl by omega)
    omega
  · refine (store_keeps_iff hsweep).2 fun h f _ _ hfresh => ?_
    have hread := hsweep h
    omega

end Store

/-! ## A lifetime past the limit -/

/-- A 20 s positive lifetime, no stale grace, and the default negative lifetime. -/
def shortTtl : MachineIdentity workstationCrates :=
  { workstationIdentity with
    dnsTtl := 20 * NANOS
    dnsNegativeTtl := 30 * NANOS
    dnsStaleGrace := 0 }

/-- One name, looked up without an answer at time 0. -/
def unprovisioned : DnsCache := fun h => if h = "ws9.example.com".toList then some ⟨[], 0⟩ else none

theorem storeExact_iff_workstation : StoreExact workstationIdentity unprovisioned workstationName
    [workstationIp] (fun _ => 400 * NANOS) (400 * NANOS) :=
  (((storeExact_iff workstationIdentity).1 unprovisioned workstationName [workstationIp]
    (fun _ => 400 * NANOS) (400 * NANOS) fun _ => Nat.le_refl _)).2 (by
      intro h f _ he hfresh
      unfold unprovisioned at he
      split at he
      · cases he
        exact absurd hfresh (by decide)
      · cases he)

/-- After 20 s another name's store drops the negative answer that was to last 30 s. -/
theorem store_drops_negative :
    shortTtl.Usable unprovisioned "ws9.example.com".toList (20 * NANOS) ∧
      shortTtl.storeAnswer unprovisioned workstationName [workstationIp] (fun _ => 20 * NANOS)
        (20 * NANOS) "ws9.example.com".toList = none ∧
      ¬StoreExact shortTtl unprovisioned workstationName [workstationIp] (fun _ => 20 * NANOS)
        (20 * NANOS) := by
  have husable : shortTtl.Usable unprovisioned "ws9.example.com".toList (20 * NANOS) :=
    Or.inl (by decide)
  have hswept : shortTtl.storeAnswer unprovisioned workstationName [workstationIp]
      (fun _ => 20 * NANOS) (20 * NANOS) "ws9.example.com".toList = none :=
    storeAnswer_swept (by decide) rfl (by decide)
  refine ⟨husable, hswept, fun hexact => ?_⟩
  have hkept := hexact.keeps "ws9.example.com".toList (by decide) _ (Nat.le_refl _) husable
  rw [hswept] at hkept
  cases hkept

/-! ## Failed lookups -/

section Remembered

variable {L : Crates} {m : MachineIdentity L} {host : Str} {d : DnsEnv} {c c' : DnsCache}
  {t t' : Nat}

/-- What calls for other names do to the cache from time `t` on: time passes, and answers are
stored, each store reading the clock while it runs. -/
inductive OtherCalls (m : MachineIdentity L) (host : Str) (c : DnsCache) (t : Nat) :
    DnsCache → Nat → Prop where
  | refl : OtherCalls m host c t c t
  | wait {c' : DnsCache} {t' : Nat} (d : Nat) : OtherCalls m host c t c' t' →
      OtherCalls m host c t c' (t' + d)
  | store {c' : DnsCache} {t' : Nat} {h : Str} {sweep : Str → Nat} (addrs : List IpAddr)
      (d : Nat) : OtherCalls m host c t c' t' → h ≠ host →
      (∀ k, t' ≤ sweep k ∧ sweep k ≤ t' + d) →
      OtherCalls m host c t (m.storeAnswer c' h addrs sweep (t' + d)) (t' + d)

theorem OtherCalls.le (h : OtherCalls m host c t c' t') : t ≤ t' := by
  induction h with
  | refl => exact Nat.le_refl _
  | wait d _ ih => omega
  | store addrs d _ _ _ ih => omega

/-- An entry younger than the limit is still there. -/
theorem OtherCalls.kept {e : CacheEntry} (h : OtherCalls m host c t c' t') (he : c host = some e)
    (hage : t' - e.fetched < m.dnsTtl + m.dnsStaleGrace) : c' host = some e := by
  induction h with
  | refl => exact he
  | wait d _ ih => exact ih (by omega)
  | store addrs d _ hne hsweep ih =>
    have hread := (hsweep host).2
    exact storeAnswer_kept (Ne.symm hne) (ih (by omega)) (by omega)

/-- A call's resolver query fails: the fast path has no answer, and the resolver returns an empty
list, or an error with no stale answer to fall back to.  The cache holds past instants only. -/
structure LookupFails (m : MachineIdentity L) (host : Str) (d : DnsEnv) : Prop where
  asked : m.freshAnswer d.lookupCache host d.lookupNow = none
  past : ∀ e, d.laterCache host = some e → e.fetched ≤ d.laterNow
  failed : d.answer host = .ok [] ∨
    d.answer host = .error () ∧ m.staleAnswer d.laterCache host d.laterNow = none

/-- Every call for the name that begins less than `dns_negative_ttl` after the failed one, with
only other names' answers stored in between, is answered without asking the resolver. -/
def Remembered (m : MachineIdentity L) (host : Str) (d : DnsEnv) : Prop :=
  ∀ d' : DnsEnv,
    OtherCalls m host (m.resolveCached host d).cache d.laterNow d'.lookupCache d'.lookupNow →
    d'.lookupNow < d.laterNow + m.dnsNegativeTtl → (m.resolveCached host d').queries = []

theorem resolveCached_asks_iff :
    (m.resolveCached host d).queries = [] ↔
      m.freshAnswer d.lookupCache host d.lookupNow ≠ none := by
  unfold MachineIdentity.resolveCached
  cases m.freshAnswer d.lookupCache host d.lookupNow with
  | none =>
    dsimp only
    split <;> simp
  | some addrs => simp

theorem freshAnswer_negative {f now : Nat} (he : c host = some ⟨[], f⟩) :
    m.freshAnswer c host now ≠ none ↔ now - f < m.dnsNegativeTtl := by
  unfold MachineIdentity.freshAnswer MachineIdentity.ttlOf CacheEntry.isNegative
  rw [he]
  simp

/-- The cache a failed call leaves. -/
theorem LookupFails.cache (h : LookupFails m host d) : (m.resolveCached host d).cache =
    if d.answer host = .ok [] then m.storeAnswer d.laterCache host [] d.sweep d.laterNow
    else d.laterCache := by
  unfold MachineIdentity.resolveCached
  rw [h.asked]
  rcases h.failed with hok | ⟨herr, _⟩
  · simp [hok]
  · simp [herr]

/-- The entry a failed call leaves for its name is a negative answer of the moment, or there is
a time within the negative lifetime at which the fast path finds nothing. -/
theorem LookupFails.entry (h : LookupFails m host d) (hpos : 0 < m.dnsNegativeTtl) :
    (m.resolveCached host d).cache host = some ⟨[], d.laterNow⟩ ∨
      ∃ k, k < m.dnsNegativeTtl ∧
        m.freshAnswer (m.resolveCached host d).cache host (d.laterNow + k) = none := by
  rw [h.cache]
  rcases h.failed with hok | ⟨herr, hstale⟩
  · rw [if_pos hok]
    exact Or.inl storeAnswer_self
  · rw [if_neg (by rw [herr]; exact nofun)]
    cases he : d.laterCache host with
    | none =>
      refine Or.inr ⟨0, hpos, ?_⟩
      simp [MachineIdentity.freshAnswer, he]
    | some e =>
      obtain ⟨as, f⟩ := e
      have hpast : f ≤ d.laterNow := h.past _ he
      cases as with
      | nil =>
        rcases Nat.lt_or_eq_of_le hpast with hlt | rfl
        · refine Or.inr ⟨m.dnsNegativeTtl - 1, by omega, ?_⟩
          by_contra hne
          have := (freshAnswer_negative he).1 hne
          omega
        · exact Or.inl rfl
      | cons a as =>
        refine Or.inr ⟨0, hpos, ?_⟩
        unfold MachineIdentity.staleAnswer CacheEntry.isNegative at hstale
        rw [he] at hstale
        have hold : m.dnsTtl ≤ d.laterNow - f := by
          by_contra hlt
          simp [show d.laterNow - f < m.dnsTtl + m.dnsStaleGrace by omega] at hstale
        unfold MachineIdentity.freshAnswer MachineIdentity.ttlOf CacheEntry.isNegative
        rw [he]
        simp [hold]

/-- **Which failed lookups are remembered**: those the resolver answered with an empty list, if
the negative lifetime is within the sweep's limit.  An error leaves no trace of its own. -/
theorem remembered_iff (h : LookupFails m host d) : Remembered m host d ↔
    m.dnsNegativeTtl = 0 ∨ m.dnsNegativeTtl ≤ m.dnsTtl + m.dnsStaleGrace ∧
      (d.answer host = .ok [] ∨ d.laterCache host = some ⟨[], d.laterNow⟩) := by
  have hleft : (m.resolveCached host d).cache host = some ⟨[], d.laterNow⟩ ↔
      d.answer host = .ok [] ∨ d.laterCache host = some ⟨[], d.laterNow⟩ := by
    rw [h.cache]
    by_cases hok : d.answer host = .ok []
    · rw [if_pos hok, storeAnswer_self]
      simp [hok]
    · rw [if_neg hok]
      simp [hok]
  rw [← hleft]
  constructor
  · intro hrem
    by_cases hpos : 0 < m.dnsNegativeTtl
    · have hfresh : ∀ c' t', OtherCalls m host (m.resolveCached host d).cache d.laterNow c' t' →
          t' < d.laterNow + m.dnsNegativeTtl → m.freshAnswer c' host t' ≠ none :=
        fun c' t' hcalls hlt => resolveCached_asks_iff.1 (hrem { d with
          lookupCache := c', lookupNow := t' } hcalls hlt)
      rcases h.entry hpos with he | ⟨k, hk, hnone⟩
      · refine Or.inr ⟨?_, he⟩
        by_contra hlt
        -- another name's store, when the answer is as old as the limit
        have hcalls : OtherCalls m host (m.resolveCached host d).cache d.laterNow
            (m.storeAnswer (m.resolveCached host d).cache (otherName host) []
              (fun _ => d.laterNow + (m.dnsTtl + m.dnsStaleGrace))
              (d.laterNow + (m.dnsTtl + m.dnsStaleGrace)))
            (d.laterNow + (m.dnsTtl + m.dnsStaleGrace)) :=
          .store [] _ .refl (otherName_ne host) fun _ => ⟨Nat.le_add_right _ _, Nat.le_refl _⟩
        refine hfresh _ _ hcalls (by omega) ?_
        unfold MachineIdentity.freshAnswer
        rw [storeAnswer_swept (Ne.symm (otherName_ne host)) he (by dsimp only; omega)]
      · exact absurd hnone (hfresh _ _ (.wait k .refl) (by omega))
    · exact Or.inl (by omega)
  · rintro hcond d' hcalls hlt
    have hle := hcalls.le
    rcases hcond with hzero | ⟨hlimit, he⟩
    · omega
    · have hkept := hcalls.kept he (by dsimp only; omega)
      exact resolveCached_asks_iff.2 ((freshAnswer_negative hkept).2 (by omega))

end Remembered

/-! ## Runs -/

section Runs

variable {L : Crates} {m : MachineIdentity L} {host : Str} {w w' w'' : DnsWorld}
  {tr tr₂ : List (DnsAct × List DnsEvent)}

/-- A step that stores nothing for the name is one of the other calls' steps. -/
theorem OtherCalls.step {c : DnsCache} {t : Nat} {a : DnsAct} {evs : List DnsEvent}
    (h : OtherCalls m host c t w.cache w.now) (hs : w.step m a = some (w', evs))
    (hno : ∀ r addrs time, .stored r host addrs time ∉ evs) :
    OtherCalls m host c t w'.cache w'.now := by
  cases a with
  | tick d =>
    cases hs
    exact .wait d h
  | call r call =>
    simp only [DnsWorld.step] at hs
    repeat' split at hs
    all_goals first
      | (cases hs; exact h)
      | cases hs
  | look r =>
    simp only [DnsWorld.step] at hs
    repeat' split at hs
    all_goals first
      | (cases hs; exact h)
      | cases hs
  | answer r x =>
    simp only [DnsWorld.step] at hs
    split at hs
    · cases hs
      exact h
    · cases hs
  | settle r sweep d =>
    simp only [DnsWorld.step] at hs
    split at hs
    · cases hs
      refine .store _ d h ?_ fun k => ⟨Nat.le_add_right _ _, by omega⟩
      rintro rfl
      exact hno _ _ _ List.mem_cons_self
    · cases hs
      exact h
    · cases hs

/-- Between two points of a run, as long as nothing is stored for the name. -/
theorem otherCalls_run (h : Run (dnsSystem m) tr w) : ∀ {tr₂ : List (DnsAct × List DnsEvent)}
    {w' : DnsWorld}, Run (dnsSystem m) (tr ++ tr₂) w' →
    (∀ r addrs time, DnsEvent.stored r host addrs time ∉ dnsEvents tr₂) →
    OtherCalls m host w.cache w.now w'.cache w'.now := by
  intro tr₂
  induction tr₂ using List.reverseRecOn with
  | nil =>
    intro w' h' _
    rw [List.append_nil] at h'
    rw [Run.state_unique h' h]
    exact .refl
  | append_singleton tr₂ e ih =>
    intro w' h' hno
    rw [← List.append_assoc] at h'
    obtain ⟨a, evs⟩ := e
    obtain ⟨w₁, h₁, hs⟩ := h'.last
    have hsplit : ∀ r addrs time, DnsEvent.stored r host addrs time ∉ dnsEvents tr₂ ∧
        DnsEvent.stored r host addrs time ∉ evs := by
      intro r addrs time
      have := hno r addrs time
      rw [dnsEvents_append, List.mem_append, not_or] at this
      exact this
    exact (ih h₁ fun r addrs time => (hsplit r addrs time).1).step hs
      fun r addrs time => (hsplit r addrs time).2

/-- **In a run of concurrent checks**, a name whose empty answer was stored at `w` is not asked
for again within the negative lifetime, as long as that is within the sweep's limit and nothing
else is stored for the name. -/
theorem notAsked_run (h : Run (dnsSystem m) tr w) (he : w.cache host = some ⟨[], w.now⟩)
    (hlimit : m.dnsNegativeTtl ≤ m.dnsTtl + m.dnsStaleGrace)
    (h' : Run (dnsSystem m) (tr ++ tr₂) w')
    (hno : ∀ r addrs time, DnsEvent.stored r host addrs time ∉ dnsEvents tr₂)
    (hnow : w'.now < w.now + m.dnsNegativeTtl) {a : DnsAct} {evs : List DnsEvent}
    (hs : w'.step m a = some (w'', evs)) (r : Nat) : DnsEvent.asked r host ∉ evs := by
  have hcalls := otherCalls_run h h' hno
  have hle := hcalls.le
  have hkept := hcalls.kept he (by dsimp only; omega)
  have hfresh := (freshAnswer_negative (m := m) hkept).2 (by omega : w'.now - w.now < _)
  intro hasked
  cases dns_step_effect hs with
  | miss hl hf =>
    simp only [List.mem_singleton, DnsEvent.asked.injEq] at hasked
    rw [← hasked.2] at hf
    exact hfresh hf
  | tick d => cases hasked
  | start _ _ _ => cases hasked
  | _ => simp at hasked

end Runs

/-! ## An unprovisioned name -/

/-- A call for a name on a cold cache, which the resolver answers with `x` at 1 s. -/
def coldCall (x : Except Unit (List IpAddr)) : DnsEnv where
  lookupCache := fun _ => none
  lookupNow := 0
  answer := fun _ => x
  laterCache := fun _ => none
  sweep := fun _ => NANOS
  laterNow := NANOS

theorem coldCall_fails {x : Except Unit (List IpAddr)} (h : x = .ok [] ∨ x = .error ()) :
    LookupFails workstationIdentity workstationName (coldCall x) where
  asked := rfl
  past := fun _ h => nomatch h
  failed := h.imp id fun herr => ⟨herr, rfl⟩

theorem remembered_iff_empty : Remembered workstationIdentity workstationName (coldCall (.ok [])) :=
  (remembered_iff (coldCall_fails (Or.inl rfl))).2 (Or.inr ⟨by decide, Or.inl rfl⟩)

/-- The resolver's error is forgotten: the next call asks again, at once. -/
theorem error_not_remembered :
    LookupFails workstationIdentity workstationName (coldCall (.error ())) ∧
      (workstationIdentity.resolveCached workstationName
        { coldCall (.error ()) with lookupNow := 2 * NANOS }).queries = [workstationName] ∧
      ¬Remembered workstationIdentity workstationName (coldCall (.error ())) := by
  refine ⟨coldCall_fails (Or.inr rfl), rfl, fun hrem => ?_⟩
  have hnone := hrem { coldCall (.error ()) with lookupNow := NANOS + NANOS } (.wait NANOS .refl)
    (by decide)
  cases hnone

end DenBrowser
