import DenBrowser.Browser.NotificationSituation

/-!
# Runs of the notification bar

* `Situation.step` — the step lemma: one event leaves a tab in one of the situations;
* `situation_run` — every browser is in one of them, in every state reached;
* `notificationBar_sound` — what that promises of the bars, the labels and the timers.
-/

set_option autoImplicit false

namespace DenBrowser.NotificationBar

open RunLib

/-! ## Numbers in use -/

section Numbers

variable {t : Tab} {σ i : Nat}

theorem Base.settle (h : Base t) (σ : Nat) : Base (t.settle σ) := by
  unfold Tab.settle
  split
  · exact h.clearState σ
  · rename_i i hi
    split
    · exact h.relabel (h.bar_lt i (Or.inr (connected_eq_some.1 hi).2)) σ
    · exact h.clearState σ

theorem Base.eventCallback (h : Base t) (i : Nat) (event : Str) :
    Base (t.eventCallback i event) := by
  rcases eventCallback_eq t i event with he | he
  · rw [he]
    exact h
  · rw [he]
    exact h.clearState _

/-- A bar keeps its place while its other fields change. -/
theorem Base.modify (h : Base t) {b : Bar}
    (hi : (t.bars i).awaited = true ∨ (t.bars i).phase.isConnected = true)
    (howner : b.owner = (t.bars i).owner) : Base (t.setBar i b) :=
  h.setBar fun _ => by
    rw [howner]
    exact h.bar_lt i hi

theorem Base.complete (h : Base t) (hi : (t.bars i).awaited = true) : Base (t.complete i) :=
  ((h.modify (b := { t.bars i with awaited := false }) (Or.inl hi) rfl).setState
    (s := { t.states (t.bars i).owner with notification := some i, creationPromise := false })
    rfl).settle _

theorem Base.fail (h : Base t) (hi : (t.bars i).awaited = true) : Base (t.fail i) :=
  ((h.modify (b := { t.bars i with awaited := false, phase := .gone }) (Or.inl hi) rfl).setState
    (s := { t.states (t.bars i).owner with creationPromise := false }) rfl).clearState _

theorem Base.leave (h : Base t) (hi : (t.bars i).phase.isConnected = true) (event : Str) :
    Base (t.leave i event) := by
  rw [leave_eq]
  exact (h.modify (b := { t.bars i with phase := .gone }) (Or.inr hi) rfl).clearState _

theorem Base.clearTimeout (h : Base t) (id : Nat) : Base (t.clearTimeout id) := by
  refine ⟨h.bar_lt, ?_⟩
  intro τ id' hid'
  obtain ⟨hlt, howner⟩ := h.timer_lt τ id' hid'
  refine ⟨hlt, ?_⟩
  by_cases hid : id' = id
  · rw [← howner, hid]
    simp [Tab.clearTimeout]
  · rw [← howner]
    simp [Tab.clearTimeout, Function.update_of_ne hid]

theorem Base.expire (h : Base t) (id : Nat) : Base (t.expire id) := by
  unfold Tab.expire
  dsimp only
  split
  · rename_i i hi
    exact ((h.clearTimeout id).leave (connected_eq_some.1 hi).2 _).clearState _
  · exact (h.clearTimeout id).clearState _

theorem Base.withEntry (h : Base t) (details : Str) : Base (t.withEntry details) := by
  refine ⟨?_, ?_⟩
  · intro i hi
    obtain ⟨hlt, howner⟩ := h.bar_lt i hi
    exact ⟨hlt, Nat.lt_succ_of_lt howner⟩
  · intro τ id hid
    have hstates : (t.withEntry details).states =
        (t.setState t.nextState ⟨none, false, none, details⟩).states := rfl
    rw [hstates] at hid
    by_cases hτ : τ = t.nextState
    · rw [hτ, setState_self] at hid
      cases hid
    · rw [setState_ne t _ hτ] at hid
      exact h.timer_lt τ id hid

theorem Base.appendNotification (h : Base t) (hσ : σ < t.nextState) :
    Base (t.appendNotification σ) := by
  refine ⟨?_, (h.setState (σ := σ) (s := { t.states σ with
    notification := none, creationPromise := true }) rfl).timer_lt⟩
  intro i hi
  have hbars : (t.appendNotification σ).bars =
      (t.setBar t.nextBar ⟨σ, (t.states σ).details, .made, true⟩).bars := rfl
  rw [hbars] at hi ⊢
  by_cases hne : i = t.nextBar
  · rw [hne, setBar_self]
    exact ⟨Nat.lt_succ_self _, hσ⟩
  · rw [setBar_ne t _ hne] at hi ⊢
    obtain ⟨hlt, howner⟩ := h.bar_lt i hi
    exact ⟨Nat.lt_succ_of_lt hlt, howner⟩

theorem Base.present (h : Base t) (hσ : σ < t.nextState) : Base (t.present σ) := by
  unfold Tab.present
  split
  · rename_i i hi
    exact h.relabel (h.bar_lt i (Or.inr (connected_eq_some.1 hi).2)) σ
  · split
    · exact h
    · split
      · refine Base.settle (Base.setState h ?_) σ
        rfl
      · exact h.appendNotification hσ

theorem Base.showNotification (h : Base t) (hentry : ∀ σ, t.entry = some σ → σ < t.nextState)
    (details : Str) : Base (t.showNotification details) := by
  cases he : t.entry with
  | none =>
    rw [showNotification_none details he]
    exact (h.withEntry details).present (Nat.lt_succ_self _)
  | some σ =>
    rw [showNotification_some details he]
    exact Base.present (Base.setState h rfl) (hentry σ he)

end Numbers

/-! ## A box that removes bars at once -/

/-- No bar is on its way out. -/
def Immediate (t : Tab) : Prop := ∀ i, (t.bars i).phase ≠ .closing

section Immediate

variable {t : Tab} {i : Nat}

theorem arm_bars (t : Tab) (σ : Nat) : (t.arm σ).bars = t.bars := by
  unfold Tab.arm
  split
  · exact clearState_bars t σ
  · rw [clearOldTimeout_eq]
    rfl

theorem Immediate.congr {t' : Tab} (h : Immediate t) (hbars : t'.bars = t.bars) :
    Immediate t' := by
  intro i
  rw [hbars]
  exact h i

theorem Immediate.setBar (h : Immediate t) {b : Bar} (hbar : b.phase ≠ .closing) :
    Immediate (t.setBar i b) := by
  intro j
  by_cases hj : j = i
  · rw [hj, setBar_self]
    exact hbar
  · rw [setBar_ne t b hj]
    exact h j

theorem Immediate.clearState (h : Immediate t) (σ : Nat) : Immediate (t.clearState σ) :=
  h.congr (clearState_bars t σ)

theorem Immediate.relabel (h : Immediate t) (σ i : Nat) : Immediate (t.relabel σ i) :=
  (h.setBar (b := { t.bars i with label := (t.states σ).details }) (h i)).congr (arm_bars _ σ)

theorem Immediate.settle (h : Immediate t) (σ : Nat) : Immediate (t.settle σ) := by
  unfold Tab.settle
  split
  · exact h.clearState σ
  · split
    · exact h.relabel σ _
    · exact h.clearState σ

theorem Immediate.setState (h : Immediate t) (σ : Nat) (s : NotificationState) :
    Immediate (t.setState σ s) := h.congr rfl

theorem Immediate.appendNotification (h : Immediate t) (σ : Nat) :
    Immediate (t.appendNotification σ) :=
  ((h.setBar (i := t.nextBar) (b := ⟨σ, (t.states σ).details, .made, true⟩)
    (by simp)).congr rfl)

theorem Immediate.present (h : Immediate t) (σ : Nat) : Immediate (t.present σ) := by
  unfold Tab.present
  split
  · exact h.relabel _ _
  · split
    · exact h
    · split
      · exact (h.setState _ _).settle _
      · exact h.appendNotification _

theorem Immediate.showNotification (h : Immediate t) (details : Str) :
    Immediate (t.showNotification details) := by
  cases he : t.entry with
  | none =>
    rw [showNotification_none details he]
    have hnew : Immediate (t.withEntry details) := h.congr rfl
    exact hnew.present _
  | some σ =>
    rw [showNotification_some details he]
    exact (h.setState σ _).present σ

theorem Immediate.leave (h : Immediate t) (i : Nat) (event : Str) :
    Immediate (t.leave i event) := by
  rw [leave_eq]
  exact (h.setBar (b := { t.bars i with phase := .gone }) (by simp)).clearState _

theorem Immediate.expire (h : Immediate t) (id : Nat) : Immediate (t.expire id) := by
  have hfired : Immediate (t.clearTimeout id) := h.congr rfl
  unfold Tab.expire
  dsimp only
  split
  · exact (hfired.leave _ _).clearState _
  · exact hfired.clearState _

theorem Immediate.step {t' : Tab} {e : TabEvent} (h : Immediate t)
    (he : ∀ i dismissed, e ≠ .closing i dismissed) (hs : t.step e = some t') :
    Immediate t' := by
  cases e with
  | blocked action =>
    cases hs
    exact h.showNotification _
  | attached i =>
    obtain ⟨_, heq⟩ := Option.ite_none_right_eq_some.1 hs
    cases heq
    exact h.setBar (by simp)
  | completed i =>
    obtain ⟨_, heq⟩ := Option.ite_none_right_eq_some.1 hs
    cases heq
    exact ((h.setBar (i := i) (b := { t.bars i with awaited := false }) (h i)).setState _
      _).settle _
  | failed i =>
    obtain ⟨_, heq⟩ := Option.ite_none_right_eq_some.1 hs
    cases heq
    exact ((h.setBar (i := i) (b := { t.bars i with awaited := false, phase := .gone })
      (by simp)).setState _ _).clearState _
  | closing i dismissed => exact absurd rfl (he i dismissed)
  | left i event =>
    obtain ⟨_, heq⟩ := Option.ite_none_right_eq_some.1 hs
    cases heq
    exact h.leave i event
  | timer id =>
    obtain ⟨_, heq⟩ := Option.ite_none_right_eq_some.1 hs
    cases heq
    exact h.expire id
  | windowClosed =>
    cases hs
    exact h.congr rfl

end Immediate

/-! ## Runs -/

/-- The label the newest action asks for. -/
def TabEvent.label : TabEvent → Option Str
  | .blocked action => some action.l10nId
  | _ => none

theorem Situation.entry_lt {t : Tab} {last : Option Str} (h : Situation t last) :
    ∀ σ, t.entry = some σ → σ < t.nextState := by
  intro σ hσ
  cases h with
  | idle h =>
    rw [h.entry] at hσ
    cases hσ
  | creating h =>
    rw [h.entry] at hσ
    cases hσ
    exact h.lt
  | showing h =>
    rw [h.entry] at hσ
    cases hσ
    exact h.lt
  | orphan h =>
    rw [h.entry] at hσ
    cases hσ

/-- **One event** leaves the tab in one of the situations, about the newest action. -/
theorem Situation.step {t t' : Tab} {last : Option Str} {e : TabEvent} (hb : Base t)
    (h : Situation t last) (hs : t.step e = some t') :
    Base t' ∧ Situation t' (e.label.or last) := by
  cases e with
  | blocked action =>
    cases hs
    exact ⟨hb.showNotification h.entry_lt _, h.blocked hb _⟩
  | attached i =>
    simp only [Tab.step] at hs
    split at hs
    · rename_i hi
      cases hs
      exact ⟨hb.modify (Or.inl hi.2) rfl, h.attached hi.1 hi.2⟩
    · cases hs
  | completed i =>
    simp only [Tab.step] at hs
    split at hs
    · rename_i hi
      cases hs
      exact ⟨hb.complete hi, h.completed hb hi⟩
    · cases hs
  | failed i =>
    simp only [Tab.step] at hs
    split at hs
    · rename_i hi
      cases hs
      exact ⟨hb.fail hi.1, h.failed hb hi.1⟩
    · cases hs
  | closing i dismissed =>
    simp only [Tab.step] at hs
    split at hs
    · rename_i hi
      have hclosing : Base (t.setPhase i .closing) := hb.modify (Or.inr (by rw [hi]; rfl)) rfl
      cases hs
      cases dismissed with
      | false => exact ⟨hclosing, h.closing hi⟩
      | true =>
        rw [if_pos rfl]
        exact ⟨hclosing.eventCallback i _, h.dismissed hb hi⟩
    · cases hs
  | left i event =>
    simp only [Tab.step] at hs
    split at hs
    · rename_i hi
      cases hs
      exact ⟨hb.leave hi event, h.left hb hi event⟩
    · cases hs
  | timer id =>
    simp only [Tab.step] at hs
    split at hs
    · rename_i hid
      cases hs
      exact ⟨hb.expire id, h.expire hb hid⟩
    · cases hs
  | windowClosed =>
    cases hs
    exact ⟨⟨hb.bar_lt, hb.timer_lt⟩, h.windowClosed⟩

section Browsers

variable {Browser : Type} [DecidableEq Browser]

/-- The browsers; those outside a tab browser have no notification box, and nothing is shown for
them. -/
def notificationSystem (hasBox : Browser → Bool) :
    System (Browser → Tab) (Browser × TabEvent) Unit where
  init _ := .init
  step w e :=
    match e with
    | (b, .blocked action) =>
      if hasBox b then ((w b).step (.blocked action)).map fun t => (Function.update w b t, ())
      else some (w, ())
    | (b, e) => ((w b).step e).map fun t => (Function.update w b t, ())

/-- The label of the most recent blocked action of a browser. -/
def lastLabel (b : Browser) (tr : List ((Browser × TabEvent) × Unit)) : Option Str :=
  (tr.filterMap fun e => if e.1.1 = b then e.1.2.label else none).getLast?

theorem lastLabel_append (b : Browser) (tr : List ((Browser × TabEvent) × Unit))
    (e : (Browser × TabEvent) × Unit) :
    lastLabel b (tr ++ [e]) = (if e.1.1 = b then e.1.2.label else none).or (lastLabel b tr) := by
  unfold lastLabel
  rw [List.filterMap_append, List.getLast?_append]
  cases hlabel : (if e.1.1 = b then e.1.2.label else none) with
  | none => simp [hlabel]
  | some label => simp [hlabel]

/-- What a step does to the browser it is about, and to the others. -/
theorem notificationSystem_step {hasBox : Browser → Bool} {w w' : Browser → Tab}
    {e : Browser × TabEvent} {out : Unit}
    (h : (notificationSystem hasBox).step w e = some (w', out)) :
    (w' = w ∧ e.2.label ≠ none ∧ hasBox e.1 = false) ∨
      ∃ t, (w e.1).step e.2 = some t ∧ w' = Function.update w e.1 t ∧
        (e.2.label ≠ none → hasBox e.1 = true) := by
  obtain ⟨b, e⟩ := e
  have hplain : ((w b).step e).map (fun t => (Function.update w b t, ())) = some (w', out) →
      (e.label ≠ none → hasBox b = true) →
        ∃ t, (w b).step e = some t ∧ w' = Function.update w b t ∧
          (e.label ≠ none → hasBox b = true) := by
    intro hmap hbox
    obtain ⟨t, ht, heq⟩ := Option.map_eq_some_iff.1 hmap
    exact ⟨t, ht, (Prod.mk.inj heq).1.symm, hbox⟩
  cases e with
  | blocked action =>
    simp only [notificationSystem] at h
    split at h
    · rename_i hbox
      exact Or.inr (hplain h fun _ => hbox)
    · rename_i hbox
      cases h
      exact Or.inl ⟨rfl, nofun, by simpa using hbox⟩
  | attached i => exact Or.inr (hplain h fun hlabel => absurd rfl hlabel)
  | completed i => exact Or.inr (hplain h fun hlabel => absurd rfl hlabel)
  | failed i => exact Or.inr (hplain h fun hlabel => absurd rfl hlabel)
  | closing i dismissed => exact Or.inr (hplain h fun hlabel => absurd rfl hlabel)
  | left i event => exact Or.inr (hplain h fun hlabel => absurd rfl hlabel)
  | timer id => exact Or.inr (hplain h fun hlabel => absurd rfl hlabel)
  | windowClosed => exact Or.inr (hplain h fun hlabel => absurd rfl hlabel)

/-- The newest label a browser with a box was asked to show. -/
def shownLabel (hasBox : Browser → Bool) (b : Browser)
    (tr : List ((Browser × TabEvent) × Unit)) : Option Str :=
  if hasBox b then lastLabel b tr else none

theorem init_base : Base .init :=
  ⟨fun _ hi => by simp [Tab.init, Phase.isConnected] at hi, fun _ _ hid => nomatch hid⟩

theorem init_idle : Idle .init where
  entry := rfl
  away _ := ⟨by simp [Tab.init], by simp [Tab.init], by simp [Tab.init]⟩
  timers _ := rfl

/-- **Every browser is in one of the situations**, in every state reached. -/
theorem situation_run {hasBox : Browser → Bool} {tr : List ((Browser × TabEvent) × Unit)}
    {w : Browser → Tab} (h : Run (notificationSystem hasBox) tr w) (b : Browser) :
    Base (w b) ∧ Situation (w b) (shownLabel hasBox b tr) := by
  refine Run.invariant (fun tr w => Base (w b) ∧ Situation (w b) (shownLabel hasBox b tr))
    ⟨init_base, .idle init_idle⟩ ?_ h
  rintro tr w e w' out _ ⟨hb, hsit⟩ hs
  have hlast : shownLabel hasBox b (tr ++ [(e, out)]) =
      (if hasBox b then (if e.1 = b then e.2.label else none) else none).or
        (shownLabel hasBox b tr) := by
    unfold shownLabel
    rw [lastLabel_append]
    cases hasBox b with
    | true => rfl
    | false => rfl
  rw [hlast]
  rcases notificationSystem_step hs with ⟨rfl, _, hbox⟩ | ⟨t, ht, rfl, hbox⟩
  · refine ⟨hb, ?_⟩
    by_cases heb : e.1 = b
    · rw [← heb, hbox]
      rw [← heb] at hsit
      exact hsit
    · simpa [heb] using hsit
  · by_cases heb : e.1 = b
    · obtain ⟨b', e⟩ := e
      dsimp only at heb ht hbox ⊢
      subst heb
      rw [Function.update_self, if_pos rfl]
      obtain ⟨hb', hsit'⟩ := hsit.step hb ht
      refine ⟨hb', ?_⟩
      cases hlabel : e.label with
      | none =>
        rw [hlabel] at hsit'
        simpa using hsit'
      | some label =>
        rw [hbox (by rw [hlabel]; simp), if_pos rfl]
        rwa [hlabel] at hsit'
    · rw [Function.update_of_ne (Ne.symm heb)]
      refine ⟨hb, ?_⟩
      simpa [heb] using hsit

theorem immediate_run {hasBox : Browser → Bool} {tr : List ((Browser × TabEvent) × Unit)}
    {w : Browser → Tab} (h : Run (notificationSystem hasBox) tr w) {b : Browser}
    (himmediate : ∀ e ∈ tr, ∀ i dismissed, e.1 ≠ (b, .closing i dismissed)) :
    Immediate (w b) := by
  refine Run.invariant_under
    (fun tr => ∀ e ∈ tr, ∀ i dismissed, e.1 ≠ (b, TabEvent.closing i dismissed))
    (fun _ w => Immediate (w b)) (fun tr e hall e' he' => hall e' (List.mem_append_left _ he'))
    (fun i => by simp [notificationSystem, Tab.init]) ?_ h himmediate
  intro tr w e w' out _ ih hall hs
  rcases notificationSystem_step hs with ⟨rfl, _, _⟩ | ⟨t, ht, rfl, _⟩
  · exact ih
  · by_cases heb : e.1 = b
    · rw [heb, Function.update_self]
      rw [heb] at ht
      refine Immediate.step ih ?_ ht
      intro i dismissed hclosing
      exact hall (e, out) (by simp) i dismissed (Prod.ext heb hclosing)
    · rw [Function.update_of_ne (Ne.symm heb)]
      exact ih

/-- What the state machine promises of a browser `b` in a state `w` reached by `tr`.  A bar is
shown while it is connected and does not close. -/
structure BarSound (hasBox : Browser → Bool) (tr : List ((Browser × TabEvent) × Unit))
    (t : Tab) (b : Browser) : Prop where
  /-- There is at most one bar. -/
  single : ∀ i j, (t.bars i).phase = .shown → (t.bars j).phase = .shown → i = j
  /-- A bar that has been made has the newest label. -/
  labelled : ∀ i, (t.bars i).phase = .shown → (t.bars i).awaited = false →
    some (t.bars i).label = lastLabel b tr
  /-- While its window is open it has a running timer, whose expiry removes it. -/
  timed : t.documentGlobal = true → ∀ i, (t.bars i).phase = .shown →
    (t.bars i).awaited = false →
      ∃ id t', t.step (.timer id) = some t' ∧ (t'.bars i).phase = .gone
  /-- An entry has a bar that is connected, or one that is still to come. -/
  alive : ∀ σ, t.entry = some σ →
    (∃ i, (t.states σ).notification = some i ∧ (t.bars i).phase.isConnected = true) ∨
      ∃ i, (t.bars i).owner = σ ∧ (t.bars i).awaited = true ∧ (t.bars i).phase ≠ .gone
  /-- A further action puts its label on a connected bar, or has a bar made with it. -/
  answered : hasBox b = true → ∀ (action : BlockedAction) (t' : Tab),
    t.step (.blocked action) = some t' →
      (∃ i, (t'.bars i).phase.isConnected = true ∧ (t'.bars i).label = action.l10nId) ∨
        ∃ i, t'.entry = some (t'.bars i).owner ∧ (t'.bars i).awaited = true ∧
          (t'.bars i).phase ≠ .gone ∧ (t'.states (t'.bars i).owner).details = action.l10nId
  /-- A bar that is in place when its creation completes is shown with the newest label. -/
  completes : ∀ i t', (t.bars i).phase = .shown → t.step (.completed i) = some t' →
    (t'.bars i).phase = .shown ∧ some (t'.bars i).label = lastLabel b tr
  /-- A box that removes bars at once leaves no other connected bar. -/
  immediate : (∀ e ∈ tr, ∀ i dismissed, e.1 ≠ (b, .closing i dismissed)) →
    ∀ i, (t.bars i).phase.isConnected = true → (t.bars i).phase = .shown

end Browsers

/-! ## What each situation promises -/

section Promises

variable {t t' : Tab} {last : Option Str} {σ i : Nat}

theorem relabel_self (t : Tab) (σ i : Nat) :
    (t.relabel σ i).bars i = { t.bars i with label := (t.states σ).details } := by
  unfold Tab.relabel
  rw [arm_bars, setBar_self]

theorem Situation.only_shown (h : Situation t last) :
    ∃ k, ∀ i, (t.bars i).phase = .shown → i = k := by
  have honly : ∀ {k : Nat}, (∀ j, j ≠ k → Away t j) →
      ∀ i, (t.bars i).phase = .shown → i = k := by
    intro k haway i hi
    by_contra hne
    exact (haway i hne).hidden hi
  cases h with
  | idle h => exact ⟨0, honly fun j _ => h.away j⟩
  | creating h => exact ⟨_, honly h.away⟩
  | showing h => exact ⟨_, honly h.away⟩
  | orphan h => exact ⟨_, honly h.away⟩

/-- A bar that is shown after its creation is the one of the situation. -/
theorem Situation.shown_cases (h : Situation t last) (hi : (t.bars i).phase = .shown)
    (hawaited : (t.bars i).awaited = false) :
    (∃ σ, Showing t last σ i) ∨ Orphan t last i := by
  cases h with
  | idle h => exact absurd hi (h.away i).hidden
  | @creating σ k h =>
    by_cases hik : i = k
    · subst hik
      rw [h.awaited] at hawaited
      cases hawaited
    · exact absurd hi (h.away i hik).hidden
  | @showing σ k h =>
    by_cases hik : i = k
    · subst hik
      exact Or.inl ⟨σ, h⟩
    · exact absurd hi (h.away i hik).hidden
  | @orphan k h =>
    by_cases hik : i = k
    · subst hik
      exact Or.inr h
    · exact absurd hi (h.away i hik).hidden

theorem Situation.labelled (h : Situation t last) (hi : (t.bars i).phase = .shown)
    (hawaited : (t.bars i).awaited = false) : some (t.bars i).label = last := by
  rcases h.shown_cases hi hawaited with ⟨σ, h⟩ | h
  · exact h.label
  · exact h.label

theorem Situation.timed (hb : Base t) (h : Situation t last) (hglobal : t.documentGlobal = true)
    (hi : (t.bars i).phase = .shown) (hawaited : (t.bars i).awaited = false) :
    ∃ id t', t.step (.timer id) = some t' ∧ (t'.bars i).phase = .gone := by
  rcases h.shown_cases hi hawaited with ⟨σ, h⟩ | h
  · obtain ⟨id, _, hlive⟩ := h.timer hglobal
    refine ⟨id, t.expire id, ?_, (h.expire hb hlive).2⟩
    exact if_pos hlive
  · rw [h.global] at hglobal
    cases hglobal

theorem Situation.alive (h : Situation t last) (hσ : t.entry = some σ) :
    (∃ i, (t.states σ).notification = some i ∧ (t.bars i).phase.isConnected = true) ∨
      ∃ i, (t.bars i).owner = σ ∧ (t.bars i).awaited = true ∧ (t.bars i).phase ≠ .gone := by
  cases h with
  | idle h =>
    rw [h.entry] at hσ
    cases hσ
  | @creating σ' i h =>
    rw [h.entry] at hσ
    cases hσ
    exact Or.inr ⟨i, h.owner, h.awaited, h.phase⟩
  | @showing σ' i h =>
    rw [h.entry] at hσ
    cases hσ
    exact Or.inl ⟨i, h.notification, h.connected⟩
  | orphan h =>
    rw [h.entry] at hσ
    cases hσ

theorem Creating.promises (h : Creating t last σ i) : ∃ i, t.entry = some (t.bars i).owner ∧
    (t.bars i).awaited = true ∧ (t.bars i).phase ≠ .gone ∧
    some (t.states (t.bars i).owner).details = last := by
  refine ⟨i, ?_, h.awaited, h.phase, ?_⟩
  · rw [h.owner, h.entry]
  · rw [h.owner]
    exact h.details

theorem Situation.answered (hb : Base t) (h : Situation t last) (details : Str) :
    (∃ i, ((t.showNotification details).bars i).phase.isConnected = true ∧
      ((t.showNotification details).bars i).label = details) ∨
      ∃ i, (t.showNotification details).entry =
          some ((t.showNotification details).bars i).owner ∧
        ((t.showNotification details).bars i).awaited = true ∧
        ((t.showNotification details).bars i).phase ≠ .gone ∧
        ((t.showNotification details).states
          ((t.showNotification details).bars i).owner).details = details := by
  have hmade : ∀ {σ i : Nat}, Creating (t.showNotification details) (some details) σ i →
      ∃ i, (t.showNotification details).entry =
          some ((t.showNotification details).bars i).owner ∧
        ((t.showNotification details).bars i).awaited = true ∧
        ((t.showNotification details).bars i).phase ≠ .gone ∧
        ((t.showNotification details).states
          ((t.showNotification details).bars i).owner).details = details := by
    intro σ i hc
    obtain ⟨k, hentry, hawaited, hphase, hdetails⟩ := hc.promises
    exact ⟨k, hentry, hawaited, hphase, Option.some.inj hdetails⟩
  cases h with
  | idle h => exact Or.inr (hmade (h.blocked hb details))
  | creating h => exact Or.inr (hmade (h.blocked details))
  | @showing σ i h =>
    refine Or.inl ⟨i, ?_⟩
    rw [(showing_showNotification h details).1, relabel_self, setState_self]
    exact ⟨h.connected, rfl⟩
  | @orphan i h =>
    have hstate : (t.adopting i details).states t.nextState = ⟨some i, false, none, details⟩ :=
      setState_self ..
    have hphase : ((t.adopting i details).bars i).phase = .shown := h.shown
    refine Or.inl ⟨i, ?_⟩
    rw [orphan_showNotification hb h, relabel_self, hstate]
    dsimp only
    rw [hphase]
    exact ⟨rfl, rfl⟩

theorem Creating.completes (h : Creating t last σ i) (hi : (t.bars i).phase = .shown) :
    ((t.complete i).bars i).phase = .shown ∧ some ((t.complete i).bars i).label = last := by
  obtain rfl : (t.bars i).owner = σ := h.owner
  have hbar : ((t.setBar i { t.bars i with awaited := false }).setState (t.bars i).owner
      { t.states (t.bars i).owner with notification := some i, creationPromise := false }).bars i =
        { t.bars i with awaited := false } := setBar_self ..
  have hstate : ((t.setBar i { t.bars i with awaited := false }).setState (t.bars i).owner
      { t.states (t.bars i).owner with
        notification := some i, creationPromise := false }).states (t.bars i).owner =
        { t.states (t.bars i).owner with notification := some i, creationPromise := false } :=
    setState_self ..
  have hentry : ((t.setBar i { t.bars i with awaited := false }).setState (t.bars i).owner
      { t.states (t.bars i).owner with
        notification := some i, creationPromise := false }).entry = some (t.bars i).owner := h.entry
  unfold Tab.complete Tab.settle
  dsimp only
  rw [connected_eq_some.2 ⟨by rw [hstate], by rw [hbar, hi]; rfl⟩]
  dsimp only
  rw [if_pos hentry, relabel_self, hbar, hstate]
  exact ⟨hi, h.details⟩

theorem Situation.completes (h : Situation t last) (hi : (t.bars i).phase = .shown)
    (hs : t.step (.completed i) = some t') :
    (t'.bars i).phase = .shown ∧ some (t'.bars i).label = last := by
  obtain ⟨hawaited, heq⟩ := Option.ite_none_right_eq_some.1 hs
  cases heq
  rcases h.of_awaited hawaited with haway | ⟨σ, hc⟩
  · exact absurd hi haway.hidden
  · exact hc.completes hi

end Promises

/-- Two browsers: a bar that is dismissed while it is made, the next one made meanwhile, and a
save and a print blocked in one burst. -/
def burstTrace : List ((Bool × TabEvent) × Unit) :=
  [(true, .blocked .DenBrowserCopyBlocked), (true, .attached 0), (true, .closing 0 true),
    (false, .blocked .DenBrowserSaveBlocked), (true, .blocked .DenBrowserSaveBlocked),
    (true, .completed 0), (true, .attached 1), (true, .blocked .DenBrowserPrintingBlocked),
    (true, .left 0 "removed".toList), (true, .completed 1)].map fun e => (e, ())

end DenBrowser.NotificationBar
