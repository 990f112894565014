import DenBrowser.Browser.NotificationBar

/-!
# What a tab with a notification bar is doing

A tab is idle, waits for one bar, shows one bar, or (after its window has closed) still has one.
Every other bar made so far is left over: what is still to come of it is about a state that is no
longer the entry.

* `Situation.elsewhere` — a task about a left-over bar changes nothing of this;
* `Situation.cleared` — clearing the state of a bar that is out of sight, whichever bar it is;
* `Situation.completed`, `Situation.expire`, `Situation.blocked` and the others — one lemma for
  each kind of event.
-/

set_option autoImplicit false

namespace DenBrowser.NotificationBar

/-! ## What a tab is doing -/

/-- Numbers in use are below the counters, and a timer belongs to the state that holds it. -/
structure Base (t : Tab) : Prop where
  bar_lt : ∀ i, (t.bars i).awaited = true ∨ (t.bars i).phase.isConnected = true →
    i < t.nextBar ∧ (t.bars i).owner < t.nextState
  timer_lt : ∀ σ id, (t.states σ).timer = some id →
    id < t.nextTimer ∧ (t.timers id).owner = σ

/-- Bar `j` is left over: it is neither shown nor to be attached, and what is still to come of it
is about a state that is no longer the entry. -/
structure Away (t : Tab) (j : Nat) : Prop where
  hidden : (t.bars j).phase ≠ .shown
  attached : (t.bars j).awaited = true → (t.bars j).phase ≠ .made
  other : (t.bars j).awaited = true ∨ (t.bars j).phase.isConnected = true →
    t.entry ≠ some (t.bars j).owner

/-- No bar, no entry and no timer. -/
structure Idle (t : Tab) : Prop where
  entry : t.entry = none
  away : ∀ j, Away t j
  timers : ∀ id, (t.timers id).live = false

/-- The entry waits for bar `i`. -/
structure Creating (t : Tab) (last : Option Str) (σ i : Nat) : Prop where
  entry : t.entry = some σ
  lt : σ < t.nextState
  owner : (t.bars i).owner = σ
  awaited : (t.bars i).awaited = true
  phase : (t.bars i).phase ≠ .gone
  notification : (t.states σ).notification = none
  creationPromise : (t.states σ).creationPromise = true
  details : some (t.states σ).details = last
  away : ∀ j, j ≠ i → Away t j
  timers : ∀ id, (t.timers id).live = false

/-- The entry holds bar `i`, which is connected. -/
structure Holding (t : Tab) (last : Option Str) (σ i : Nat) : Prop where
  entry : t.entry = some σ
  lt : σ < t.nextState
  owner : (t.bars i).owner = σ
  awaited : (t.bars i).awaited = false
  connected : (t.bars i).phase.isConnected = true
  notification : (t.states σ).notification = some i
  creationPromise : (t.states σ).creationPromise = false
  details : some (t.states σ).details = last
  away : ∀ j, j ≠ i → Away t j
  timers : ∀ id, (t.timers id).live = true → (t.states σ).timer = some id

/-- The bar the entry holds has the newest label, and its timer runs. -/
structure Showing (t : Tab) (last : Option Str) (σ i : Nat) : Prop extends Holding t last σ i where
  label : some (t.bars i).label = last
  timer : t.documentGlobal = true →
    ∃ id, (t.states σ).timer = some id ∧ (t.timers id).live = true
  global : ∀ id, (t.timers id).live = true → t.documentGlobal = true

/-- A bar that a closed window still shows, without an entry. -/
structure Orphan (t : Tab) (last : Option Str) (i : Nat) : Prop where
  global : t.documentGlobal = false
  entry : t.entry = none
  shown : (t.bars i).phase = .shown
  awaited : (t.bars i).awaited = false
  label : some (t.bars i).label = last
  away : ∀ j, j ≠ i → Away t j
  timers : ∀ id, (t.timers id).live = false

/-- What a tab is doing. -/
inductive Situation (t : Tab) (last : Option Str) : Prop where
  | idle (h : Idle t)
  | creating {σ i : Nat} (h : Creating t last σ i)
  | showing {σ i : Nat} (h : Showing t last σ i)
  | orphan {i : Nat} (h : Orphan t last i)

section Updates

variable {t : Tab} {last : Option Str} {σ i j : Nat}

@[simp] theorem setBar_self (t : Tab) (i : Nat) (bar : Bar) : (t.setBar i bar).bars i = bar :=
  Function.update_self ..

theorem setBar_ne (t : Tab) {i j : Nat} (bar : Bar) (h : j ≠ i) :
    (t.setBar i bar).bars j = t.bars j := Function.update_of_ne h ..

@[simp] theorem setState_self (t : Tab) (σ : Nat) (s : NotificationState) :
    (t.setState σ s).states σ = s := Function.update_self ..

theorem setState_ne (t : Tab) {σ τ : Nat} (s : NotificationState) (h : τ ≠ σ) :
    (t.setState σ s).states τ = t.states τ := Function.update_of_ne h ..

theorem clearState_states_ne (t : Tab) {σ τ : Nat} (h : τ ≠ σ) :
    (t.clearState σ).states τ = t.states τ := by
  rw [clearState_states]
  exact Function.update_of_ne h ..

/-- Only the bar and the entry matter for being left over. -/
theorem Away.congr {t' : Tab} (h : Away t j) (hbar : t'.bars j = t.bars j)
    (hentry : t'.entry = t.entry ∨ t'.entry = none) : Away t' j := by
  refine ⟨by rw [hbar]; exact h.hidden, by rw [hbar]; exact h.attached, ?_⟩
  rw [hbar]
  intro hj
  rcases hentry with he | he
  · rw [he]
    exact h.other hj
  · rw [he]
    simp

theorem Base.clearState (h : Base t) (σ : Nat) : Base (t.clearState σ) := by
  obtain ⟨_, hstate, hbar, htimer⟩ := clearState_counters t σ
  constructor
  · intro i hi
    rw [clearState_bars] at hi ⊢
    rw [hbar, hstate]
    exact h.bar_lt i hi
  · intro τ id hid
    have hold : (t.states τ).timer = some id := by
      by_cases hτ : τ = σ
      · rw [hτ, clearState_states, Function.update_self] at hid
        cases hid
      · rwa [clearState_states_ne t hτ] at hid
    rw [htimer, (clearState_timers t σ id).1]
    exact h.timer_lt τ id hold

theorem Base.setBar (h : Base t) {b : Bar}
    (hbar : b.awaited = true ∨ b.phase.isConnected = true →
      i < t.nextBar ∧ b.owner < t.nextState) : Base (t.setBar i b) := by
  refine ⟨?_, h.timer_lt⟩
  intro k hk
  by_cases hki : k = i
  · rw [hki, setBar_self] at hk ⊢
    exact hbar hk
  · rw [setBar_ne t b hki] at hk ⊢
    exact h.bar_lt k hk

theorem Base.setState (h : Base t) {s : NotificationState}
    (hs : s.timer = (t.states σ).timer) : Base (t.setState σ s) := by
  refine ⟨h.bar_lt, ?_⟩
  intro τ id hid
  by_cases hτ : τ = σ
  · rw [hτ, setState_self, hs] at hid
    rw [hτ]
    exact h.timer_lt σ id hid
  · rw [setState_ne t s hτ] at hid
    exact h.timer_lt τ id hid

theorem Base.clearOldTimeout (h : Base t) (σ : Nat) : Base (t.clearOldTimeout σ) := by
  unfold Tab.clearOldTimeout
  split
  · exact h
  · rename_i id₀ _
    refine ⟨h.bar_lt, ?_⟩
    intro τ id hid
    obtain ⟨hlt, howner⟩ := h.timer_lt τ id hid
    refine ⟨hlt, ?_⟩
    by_cases hid₀ : id = id₀
    · rw [← howner, hid₀]
      simp [Tab.clearTimeout]
    · rw [← howner]
      simp [Tab.clearTimeout, Function.update_of_ne hid₀]

theorem Base.setTimeout (h : Base t) (σ : Nat) : Base (t.setTimeout σ) := by
  refine ⟨h.bar_lt, ?_⟩
  intro τ id hid
  unfold Tab.setTimeout Tab.setState at hid ⊢
  dsimp only at hid ⊢
  by_cases hτ : τ = σ
  · rw [hτ, Function.update_self] at hid
    cases hid
    rw [Function.update_self]
    exact ⟨Nat.lt_succ_self _, hτ.symm⟩
  · rw [Function.update_of_ne hτ] at hid
    obtain ⟨hlt, howner⟩ := h.timer_lt τ id hid
    rw [Function.update_of_ne (Nat.ne_of_lt hlt)]
    exact ⟨Nat.lt_succ_of_lt hlt, howner⟩

theorem Base.arm (h : Base t) (σ : Nat) : Base (t.arm σ) := by
  unfold Tab.arm
  split
  · exact h.clearState σ
  · exact (h.clearOldTimeout σ).setTimeout σ

theorem Base.relabel (h : Base t) (hi : i < t.nextBar ∧ (t.bars i).owner < t.nextState)
    (σ : Nat) : Base (t.relabel σ i) :=
  (h.setBar (b := { t.bars i with label := (t.states σ).details }) fun _ => hi).arm σ

/-- What the arming of a timer leaves, in a window that is open. -/
theorem arm_eq (hglobal : t.documentGlobal = true) (σ : Nat) :
    (t.arm σ).bars = t.bars ∧ (t.arm σ).entry = t.entry ∧
      (t.arm σ).nextState = t.nextState ∧ (t.arm σ).documentGlobal = true ∧
      (t.arm σ).states =
        Function.update t.states σ { t.states σ with timer := some t.nextTimer } ∧
      ((t.arm σ).timers t.nextTimer).live = true ∧
      ∀ id, id ≠ t.nextTimer → ((t.arm σ).timers id).live = true →
        (t.timers id).live = true ∧ (t.states σ).timer ≠ some id := by
  unfold Tab.arm
  rw [if_neg (by simp [hglobal]), clearOldTimeout_eq]
  refine ⟨rfl, rfl, rfl, hglobal, rfl, ?_, ?_⟩
  · unfold Tab.setTimeout
    dsimp only
    rw [Function.update_self]
  · intro id hid hlive
    unfold Tab.setTimeout at hlive
    dsimp only at hlive
    rw [Function.update_of_ne hid] at hlive
    simpa using hlive

/-! ### The three ways a task ends -/

/-- Clearing the entry leaves nothing to do. -/
theorem idle_of_clearState (hentry : t.entry = none ∨ t.entry = some σ)
    (hbars : ∀ j, (t.bars j).phase ≠ .shown ∧
      ((t.bars j).awaited = true → (t.bars j).phase ≠ .made))
    (htimers : ∀ id, (t.timers id).live = true →
      t.documentGlobal = true ∧ (t.states σ).timer = some id) : Idle (t.clearState σ) := by
  have hnone : (t.clearState σ).entry = none := by
    rw [clearState_entry]
    rcases hentry with h | h
    · rw [h]
      simp
    · rw [if_pos h]
  refine ⟨hnone, ?_, ?_⟩
  · intro j
    refine ⟨?_, ?_, ?_⟩
    · rw [clearState_bars]
      exact (hbars j).1
    · rw [clearState_bars]
      exact (hbars j).2
    · intro _
      rw [hnone]
      simp
  · intro id
    rw [(clearState_timers t σ id).2]
    cases hlive : (t.timers id).live with
    | false => rfl
    | true =>
      obtain ⟨hglobal, htimer⟩ := htimers id hlive
      simp [hglobal, htimer]

theorem Holding.setLabel (h : Holding t last σ i) (label : Str) :
    Holding (t.setBar i { t.bars i with label := label }) last σ i where
  entry := h.entry
  lt := h.lt
  owner := by
    rw [setBar_self]
    exact h.owner
  awaited := by
    rw [setBar_self]
    exact h.awaited
  connected := by
    rw [setBar_self]
    exact h.connected
  notification := h.notification
  creationPromise := h.creationPromise
  details := h.details
  away j hj := (h.away j hj).congr (setBar_ne t _ hj) (Or.inl rfl)
  timers := h.timers

/-- In an open window the bar now has a running timer. -/
theorem Holding.arm_open (h : Holding t last σ i) (hlabel : some (t.bars i).label = last)
    (hopen : t.documentGlobal = true) : Showing (t.arm σ) last σ i := by
  obtain ⟨hbars, hentry, hnext, hglobal, hstates, hnew, hold⟩ := arm_eq hopen σ
  refine ⟨⟨?_, ?_, ?_, ?_, ?_, ?_, ?_, ?_, ?_, ?_⟩, ?_, ?_, ?_⟩
  · rw [hentry, h.entry]
  · rw [hnext]
    exact h.lt
  · rw [hbars, h.owner]
  · rw [hbars, h.awaited]
  · rw [hbars, h.connected]
  · rw [hstates, Function.update_self]
    exact h.notification
  · rw [hstates, Function.update_self]
    exact h.creationPromise
  · rw [hstates, Function.update_self]
    exact h.details
  · intro j hj
    exact (h.away j hj).congr (by rw [hbars]) (Or.inl hentry)
  · intro id hid
    rw [hstates, Function.update_self]
    by_cases hne : id = t.nextTimer
    · rw [hne]
    · obtain ⟨hwas, hnot⟩ := hold id hne hid
      exact absurd (h.timers id hwas) hnot
  · rw [hbars]
    exact hlabel
  · intro _
    exact ⟨t.nextTimer, by rw [hstates, Function.update_self], hnew⟩
  · intro id _
    exact hglobal

/-- In a closed window the bar stays without a timer. -/
theorem arm_closed (hentry : t.entry = some σ) (hawaited : (t.bars i).awaited = false)
    (hconnected : (t.bars i).phase.isConnected = true) (hothers : ∀ j, j ≠ i → Away t j)
    (hlabel : some (t.bars i).label = last) (hclosed : t.documentGlobal = false)
    (hdead : ∀ id, (t.timers id).live = false) : Situation (t.arm σ) last := by
  unfold Tab.arm
  rw [if_pos hclosed]
  obtain ⟨hglobal, _⟩ := clearState_counters t σ
  have hnone : (t.clearState σ).entry = none := by
    rw [clearState_entry, if_pos hentry]
  have haway : ∀ j, j ≠ i → Away (t.clearState σ) j := fun j hj =>
    (hothers j hj).congr (by rw [clearState_bars]) (Or.inr hnone)
  have htimers : ∀ id, ((t.clearState σ).timers id).live = false := by
    intro id
    rw [(clearState_timers t σ id).2, hdead]
    rfl
  cases hphase : (t.bars i).phase with
  | shown =>
    refine .orphan (i := i) ⟨by rw [hglobal, hclosed], hnone, ?_, ?_, ?_, haway, htimers⟩
    · rw [clearState_bars, hphase]
    · rw [clearState_bars, hawaited]
    · rw [clearState_bars]
      exact hlabel
  | closing =>
    refine .idle ⟨hnone, ?_, htimers⟩
    intro j
    by_cases hj : j = i
    · refine ⟨?_, ?_, ?_⟩
      · rw [hj, clearState_bars, hphase]
        simp
      · rw [hj, clearState_bars, hphase]
        simp
      · intro _
        rw [hnone]
        simp
    · exact haway j hj
  | made =>
    rw [hphase] at hconnected
    cases hconnected
  | gone =>
    rw [hphase] at hconnected
    cases hconnected

theorem Holding.relabel (h : Holding t last σ i)
    (hglobal : ∀ id, (t.timers id).live = true → t.documentGlobal = true) :
    Situation (t.relabel σ i) last := by
  have hlabelled := h.setLabel (t.states σ).details
  have hlabel : some ((t.setBar i { t.bars i with label := (t.states σ).details }).bars i).label =
      last := by
    rw [setBar_self]
    exact h.details
  unfold Tab.relabel
  cases hopen : t.documentGlobal with
  | true => exact .showing (hlabelled.arm_open hlabel hopen)
  | false =>
    refine arm_closed hlabelled.entry hlabelled.awaited hlabelled.connected hlabelled.away hlabel
      hopen ?_
    intro id
    cases hid : (t.timers id).live with
    | false => exact hid
    | true =>
      rw [hglobal id hid] at hopen
      cases hopen

end Updates

/-! ### What happens elsewhere -/

/-- A task about a bar that is left over: neither the entry nor its timer is touched. -/
structure Elsewhere (t t' : Tab) (j : Nat) : Prop where
  entry : t'.entry = t.entry
  global : t'.documentGlobal = t.documentGlobal
  nextState : t'.nextState = t.nextState
  bars : ∀ i, i ≠ j → t'.bars i = t.bars i
  away : Away t' j
  states : ∀ σ, t.entry = some σ → t'.states σ = t.states σ
  dead : ∀ id, (t'.timers id).live = true → (t.timers id).live = true
  kept : ∀ σ id, t.entry = some σ → (t.states σ).timer = some id →
    (t'.timers id).live = (t.timers id).live

section Elsewhere

variable {t t' : Tab} {last : Option Str} {σ i j : Nat}

theorem Elsewhere.allAway (f : Elsewhere t t' j) {k : Nat} (h : k ≠ j → Away t k) :
    Away t' k := by
  by_cases hk : k = j
  · rw [hk]
    exact f.away
  · exact (h hk).congr (f.bars k hk) (Or.inl f.entry)

theorem Elsewhere.noTimers (f : Elsewhere t t' j) (h : ∀ id, (t.timers id).live = false)
    (id : Nat) : (t'.timers id).live = false := by
  cases hid : (t'.timers id).live with
  | false => rfl
  | true =>
    have hlive := f.dead id hid
    rw [h id] at hlive
    cases hlive

/-- **What the tab is doing goes on.** -/
theorem Situation.elsewhere (h : Situation t last) (hj : Away t j) (f : Elsewhere t t' j) :
    Situation t' last := by
  cases h with
  | idle h =>
    exact .idle ⟨by rw [f.entry, h.entry], fun k => f.allAway fun _ => h.away k,
      f.noTimers h.timers⟩
  | @creating σ i h =>
    have hij : i ≠ j := by
      rintro rfl
      exact hj.other (Or.inl h.awaited) (by rw [h.entry, h.owner])
    have hstate := f.states σ h.entry
    have hbar := f.bars i hij
    refine .creating (σ := σ) (i := i) ⟨by rw [f.entry, h.entry], by rw [f.nextState]; exact h.lt,
      by rw [hbar, h.owner], by rw [hbar, h.awaited], by rw [hbar]; exact h.phase,
      by rw [hstate, h.notification], by rw [hstate, h.creationPromise],
      by rw [hstate]; exact h.details, ?_, f.noTimers h.timers⟩
    intro k hk
    exact f.allAway fun _ => h.away k hk
  | @showing σ i h =>
    have hij : i ≠ j := by
      rintro rfl
      exact hj.other (Or.inr h.connected) (by rw [h.entry, h.owner])
    have hstate := f.states σ h.entry
    have hbar := f.bars i hij
    refine .showing (σ := σ) (i := i) ⟨⟨by rw [f.entry, h.entry], by rw [f.nextState]; exact h.lt,
      by rw [hbar, h.owner], by rw [hbar, h.awaited], by rw [hbar]; exact h.connected,
      by rw [hstate, h.notification], by rw [hstate, h.creationPromise],
      by rw [hstate]; exact h.details, ?_, ?_⟩, by rw [hbar]; exact h.label, ?_, ?_⟩
    · intro k hk
      exact f.allAway fun _ => h.away k hk
    · intro id hid
      rw [hstate]
      exact h.timers id (f.dead id hid)
    · intro hglobal
      rw [f.global] at hglobal
      obtain ⟨id, hid, hlive⟩ := h.timer hglobal
      exact ⟨id, by rw [hstate, hid], by rw [f.kept σ id h.entry hid, hlive]⟩
    · intro id hid
      rw [f.global]
      exact h.global id (f.dead id hid)
  | @orphan i h =>
    have hij : i ≠ j := by
      rintro rfl
      exact hj.hidden h.shown
    have hbar := f.bars i hij
    refine .orphan (i := i) ⟨by rw [f.global, h.global], by rw [f.entry, h.entry],
      by rw [hbar, h.shown], by rw [hbar, h.awaited], by rw [hbar]; exact h.label, ?_,
      f.noTimers h.timers⟩
    intro k hk
    exact f.allAway fun _ => h.away k hk

/-- A bar that is left over has its state cleared, which is not the entry. -/
theorem elsewhere_clearState (hb : Base t) (hne : t.entry ≠ some σ) {b : Bar}
    {s : NotificationState} (hs : s.timer = (t.states σ).timer) (hshown : b.phase ≠ .shown)
    (hmade : b.awaited = true → b.phase ≠ .made) (howner : b.owner = σ) :
    Elsewhere t (((t.setBar j b).setState σ s).clearState σ) j := by
  have hentry : (((t.setBar j b).setState σ s).clearState σ).entry = t.entry := by
    rw [clearState_entry]
    exact if_neg hne
  obtain ⟨hglobal, hnext, _⟩ := clearState_counters ((t.setBar j b).setState σ s) σ
  have hbars : (((t.setBar j b).setState σ s).clearState σ).bars = (t.setBar j b).bars :=
    clearState_bars _ σ
  have hstates : ∀ τ, t.entry = some τ →
      (((t.setBar j b).setState σ s).clearState σ).states τ = t.states τ := by
    intro τ hτ
    have hτσ : τ ≠ σ := by
      rintro rfl
      exact hne hτ
    rw [clearState_states_ne _ hτσ]
    exact setState_ne _ s hτσ
  have hlive := fun id => (clearState_timers ((t.setBar j b).setState σ s) σ id).2
  refine ⟨hentry, hglobal, hnext, ?_, ?_, hstates, ?_, ?_⟩
  · intro k hk
    rw [hbars, setBar_ne t b hk]
  · refine ⟨?_, ?_, ?_⟩
    · rw [hbars, setBar_self]
      exact hshown
    · rw [hbars, setBar_self]
      exact hmade
    · intro _
      rw [hbars, setBar_self, hentry, howner]
      exact hne
  · intro id hid
    rw [hlive id, Bool.and_eq_true] at hid
    exact hid.1
  · intro τ id hτ hid
    rw [hlive id]
    -- the timer of the entry is not the one that is cleared
    have hother : ((((t.setBar j b).setState σ s).states σ).timer == some id) = false := by
      rw [setState_self, hs]
      by_contra hsame
      rw [Bool.not_eq_false, beq_iff_eq] at hsame
      have hτσ : τ = σ := (hb.timer_lt τ id hid).2.symm.trans (hb.timer_lt σ id hsame).2
      exact hne (hτσ ▸ hτ)
    rw [hother, Bool.and_false, Bool.not_false, Bool.and_true]
    rfl

end Elsewhere

/-! ## The events -/

section Events

variable {t : Tab} {last : Option Str} {σ i : Nat}

theorem setState_same (t : Tab) (σ : Nat) : t.setState σ (t.states σ) = t := by
  unfold Tab.setState
  rw [Function.update_eq_self]

theorem connected_eq_some :
    t.connected σ = some i ↔
      (t.states σ).notification = some i ∧ (t.bars i).phase.isConnected = true := by
  unfold Tab.connected
  cases (t.states σ).notification with
  | none => simp
  | some k =>
    by_cases hk : (t.bars k).phase.isConnected = true
    · simp only [hk, if_true, Option.some.injEq]
      constructor
      · rintro rfl
        exact ⟨rfl, hk⟩
      · exact fun h => h.1
    · simp only [hk, Bool.false_eq_true, if_false, Option.some.injEq]
      constructor
      · intro h
        cases h
      · rintro ⟨rfl, hi⟩
        exact absurd hi hk

/-- The tab is busy with bar `i`, and clearing its state ends that. -/
structure Busy (t : Tab) (i : Nat) : Prop where
  entry : t.entry = none ∨ t.entry = some (t.bars i).owner
  away : ∀ j, j ≠ i → Away t j
  timers : ∀ id, (t.timers id).live = true →
    t.documentGlobal = true ∧ (t.states (t.bars i).owner).timer = some id

theorem Situation.away_or_busy (h : Situation t last) (i : Nat) : Away t i ∨ Busy t i := by
  cases h with
  | idle h => exact Or.inl (h.away i)
  | @creating σ k h =>
    by_cases hik : i = k
    · refine Or.inr ⟨Or.inr (by rw [h.entry, hik, h.owner]), ?_, ?_⟩
      · rw [hik]
        exact h.away
      · intro id hid
        rw [h.timers id] at hid
        cases hid
    · exact Or.inl (h.away i hik)
  | @showing σ k h =>
    by_cases hik : i = k
    · refine Or.inr ⟨Or.inr (by rw [h.entry, hik, h.owner]), ?_, ?_⟩
      · rw [hik]
        exact h.away
      · intro id hid
        rw [hik, h.owner]
        exact ⟨h.global id hid, h.timers id hid⟩
    · exact Or.inl (h.away i hik)
  | @orphan k h =>
    by_cases hik : i = k
    · refine Or.inr ⟨Or.inl h.entry, ?_, ?_⟩
      · rw [hik]
        exact h.away
      · intro id hid
        rw [h.timers id] at hid
        cases hid
    · exact Or.inl (h.away i hik)

/-- An awaited bar is left over, or the one the entry waits for. -/
theorem Situation.of_awaited (h : Situation t last) (hi : (t.bars i).awaited = true) :
    Away t i ∨ ∃ σ, Creating t last σ i := by
  cases h with
  | idle h => exact Or.inl (h.away i)
  | @creating σ k h =>
    by_cases hik : i = k
    · rw [hik]
      exact Or.inr ⟨σ, h⟩
    · exact Or.inl (h.away i hik)
  | @showing σ k h =>
    refine Or.inl (h.away i ?_)
    rintro rfl
    rw [h.awaited] at hi
    cases hi
  | @orphan k h =>
    refine Or.inl (h.away i ?_)
    rintro rfl
    rw [h.awaited] at hi
    cases hi

/-- **Clearing the state of a bar that is out of sight**, whichever bar it is. -/
theorem Situation.cleared (hb : Base t) (h : Situation t last) {b : Bar}
    {s : NotificationState} (hi : (t.bars i).awaited = true ∨ (t.bars i).phase.isConnected = true)
    (hs : s.timer = (t.states (t.bars i).owner).timer) (hshown : b.phase ≠ .shown)
    (hmade : b.awaited = true → b.phase ≠ .made) (howner : b.owner = (t.bars i).owner) :
    Situation (((t.setBar i b).setState (t.bars i).owner s).clearState (t.bars i).owner)
      last := by
  rcases h.away_or_busy i with haway | hbusy
  · exact h.elsewhere haway
      (elsewhere_clearState hb (haway.other hi) hs hshown hmade howner)
  · refine .idle (idle_of_clearState hbusy.entry ?_ ?_)
    · intro j
      by_cases hj : j = i
      · have hbar : ((t.setBar i b).setState (t.bars i).owner s).bars i = b := setBar_self ..
        rw [hj, hbar]
        exact ⟨hshown, hmade⟩
      · show ((t.setBar i b).bars j).phase ≠ _ ∧ (((t.setBar i b).bars j).awaited = true →
          ((t.setBar i b).bars j).phase ≠ _)
        rw [setBar_ne t b hj]
        exact ⟨(hbusy.away j hj).hidden, (hbusy.away j hj).attached⟩
    · intro id hid
      rw [setState_self, hs]
      exact hbusy.timers id hid

theorem Situation.left (hb : Base t) (h : Situation t last)
    (hi : (t.bars i).phase.isConnected = true) (event : Str) :
    Situation (t.leave i event) last := by
  rw [leave_eq]
  unfold Tab.setPhase
  have hcleared := h.cleared hb (b := { t.bars i with phase := .gone })
    (s := t.states (t.bars i).owner) (Or.inr hi) rfl (by simp) (by simp) rfl
  have hsame : (t.setBar i { t.bars i with phase := .gone }).setState (t.bars i).owner
      (t.states (t.bars i).owner) = t.setBar i { t.bars i with phase := .gone } :=
    setState_same (t.setBar i { t.bars i with phase := .gone }) _
  rwa [hsame] at hcleared

theorem Situation.failed (hb : Base t) (h : Situation t last)
    (hi : (t.bars i).awaited = true) : Situation (t.fail i) last :=
  h.cleared hb (b := { t.bars i with awaited := false, phase := .gone })
    (s := { t.states (t.bars i).owner with creationPromise := false }) (Or.inl hi) rfl (by simp)
    (by simp) rfl

theorem Situation.attached (h : Situation t last) (hphase : (t.bars i).phase = .made)
    (hi : (t.bars i).awaited = true) : Situation (t.setPhase i .shown) last := by
  rcases h.of_awaited hi with haway | ⟨σ, h⟩
  · exact absurd hphase (haway.attached hi)
  · have hbar : (t.setPhase i .shown).bars i = { t.bars i with phase := .shown } := setBar_self ..
    refine .creating (σ := σ) (i := i) ⟨h.entry, h.lt, by rw [hbar]; exact h.owner,
      by rw [hbar]; exact h.awaited, by rw [hbar]; simp, h.notification, h.creationPromise,
      h.details, ?_, h.timers⟩
    intro j hj
    exact (h.away j hj).congr (setBar_ne t _ hj) (Or.inl rfl)

/-- A shown bar that begins to close. -/
theorem Situation.closing (h : Situation t last) (hi : (t.bars i).phase = .shown) :
    Situation (t.setPhase i .closing) last := by
  have hbar : (t.setPhase i .closing).bars i = { t.bars i with phase := .closing } :=
    setBar_self ..
  have hothers : ∀ {j : Nat}, j ≠ i → Away t j → Away (t.setPhase i .closing) j :=
    fun hj ha => ha.congr (setBar_ne t _ hj) (Or.inl rfl)
  cases h with
  | idle h => exact absurd hi (h.away i).hidden
  | @creating σ k h =>
    by_cases hik : i = k
    · subst hik
      exact .creating (σ := σ) (i := i) ⟨h.entry, h.lt, by rw [hbar]; exact h.owner,
        by rw [hbar]; exact h.awaited, by rw [hbar]; simp, h.notification, h.creationPromise,
        h.details, fun j hj => hothers hj (h.away j hj), h.timers⟩
    · exact absurd hi (h.away i hik).hidden
  | @showing σ k h =>
    by_cases hik : i = k
    · subst hik
      exact .showing (σ := σ) (i := i) ⟨⟨h.entry, h.lt, by rw [hbar]; exact h.owner,
        by rw [hbar]; exact h.awaited, by rw [hbar]; rfl, h.notification, h.creationPromise,
        h.details, fun j hj => hothers hj (h.away j hj), h.timers⟩,
        by rw [hbar]; exact h.label, h.timer, h.global⟩
    · exact absurd hi (h.away i hik).hidden
  | @orphan k h =>
    by_cases hik : i = k
    · subst hik
      refine .idle ⟨h.entry, ?_, h.timers⟩
      intro j
      by_cases hj : j = i
      · have hentry : (t.setPhase i .closing).entry = none := h.entry
        rw [hj]
        refine ⟨by rw [hbar]; simp, by rw [hbar]; simp, ?_⟩
        intro _
        rw [hentry]
        simp
      · exact hothers hj (h.away j hj)
    · exact absurd hi (h.away i hik).hidden

theorem Situation.dismissed (hb : Base t) (h : Situation t last) (hi : (t.bars i).phase = .shown) :
    Situation ((t.setPhase i .closing).eventCallback i "dismissed".toList) last := by
  have howner : ((t.setPhase i .closing).bars i).owner = (t.bars i).owner := by
    simp [Tab.setPhase]
  rcases eventCallback_eq (t.setPhase i .closing) i "dismissed".toList with he | he
  · rw [he]
    exact h.closing hi
  · rw [he, howner]
    have hcleared := h.cleared hb (i := i) (b := { t.bars i with phase := .closing })
      (s := t.states (t.bars i).owner) (Or.inr (by rw [hi]; rfl)) rfl (by simp) (by simp) rfl
    have hsame : (t.setBar i { t.bars i with phase := .closing }).setState (t.bars i).owner
        (t.states (t.bars i).owner) = t.setBar i { t.bars i with phase := .closing } :=
      setState_same (t.setBar i { t.bars i with phase := .closing }) _
    rwa [hsame] at hcleared

/-- The entry's creation ends with a bar that is connected. -/
theorem Creating.resolved (h : Creating t last σ i) {b : Bar} {s : NotificationState}
    (howner : b.owner = σ) (hawaited : b.awaited = false)
    (hconnected : b.phase.isConnected = true) (hnotification : s.notification = some i)
    (hcreation : s.creationPromise = false) (hdetails : s.details = (t.states σ).details) :
    Holding ((t.setBar i b).setState σ s) last σ i where
  entry := h.entry
  lt := h.lt
  owner := by
    show ((t.setBar i b).bars i).owner = σ
    rw [setBar_self, howner]
  awaited := by
    show ((t.setBar i b).bars i).awaited = false
    rw [setBar_self, hawaited]
  connected := by
    show ((t.setBar i b).bars i).phase.isConnected = true
    rw [setBar_self, hconnected]
  notification := by rw [setState_self, hnotification]
  creationPromise := by rw [setState_self, hcreation]
  details := by
    rw [setState_self, hdetails]
    exact h.details
  away j hj := (h.away j hj).congr (setBar_ne t b hj) (Or.inl rfl)
  timers id hid := by
    have hlive : (t.timers id).live = true := hid
    rw [h.timers id] at hlive
    cases hlive

/-- The continuation of `await`, for a bar that is left over or awaited by the entry. -/
theorem Situation.completed (hb : Base t) (h : Situation t last)
    (hi : (t.bars i).awaited = true) : Situation (t.complete i) last := by
  have hcleared (hhidden : (t.bars i).phase ≠ .shown) :=
    h.cleared hb (b := { t.bars i with awaited := false })
      (s := { t.states (t.bars i).owner with notification := some i, creationPromise := false })
      (Or.inl hi) rfl hhidden (by simp) rfl
  unfold Tab.complete Tab.settle
  dsimp only
  split
  · -- the bar is not connected
    rename_i hnone
    refine hcleared fun hshown => ?_
    have hsome := (connected_eq_some (t := (t.setBar i { t.bars i with awaited := false }).setState
      (t.bars i).owner { t.states (t.bars i).owner with
        notification := some i, creationPromise := false }) (σ := (t.bars i).owner) (i := i)).2
      ⟨by rw [setState_self], by
        show ((t.setBar i { t.bars i with awaited := false }).bars i).phase.isConnected = true
        rw [setBar_self]
        show (t.bars i).phase.isConnected = true
        rw [hshown]
        rfl⟩
    rw [hnone] at hsome
    cases hsome
  · rename_i k hk
    obtain ⟨hnotification, hconnected⟩ := connected_eq_some.1 hk
    rw [setState_self] at hnotification
    cases hnotification
    split
    · rename_i hentry
      rcases h.of_awaited hi with haway | ⟨σ, hc⟩
      · exact absurd hentry (haway.other (Or.inl hi))
      · obtain rfl : (t.bars i).owner = σ := hc.owner
        refine (hc.resolved (b := { t.bars i with awaited := false })
          (s := { t.states (t.bars i).owner with notification := some i, creationPromise := false })
          rfl rfl ?_ rfl rfl rfl).relabel ?_
        · simpa [Tab.setState] using hconnected
        · intro id hid
          have hlive : (t.timers id).live = true := hid
          rw [hc.timers id] at hlive
          cases hlive
    · rename_i hentry
      refine hcleared ?_
      rcases h.of_awaited hi with haway | ⟨σ, hc⟩
      · exact haway.hidden
      · exact absurd (by rw [hc.owner]; exact hc.entry) hentry

/-- **The timer removes the bar it was armed for.** -/
theorem Showing.expire (hb : Base t) (h : Showing t last σ i) {id : Nat}
    (hid : (t.timers id).live = true) :
    Idle (t.expire id) ∧ ((t.expire id).bars i).phase = .gone := by
  have htimer := h.timers id hid
  have howner : (t.timers id).owner = σ := (hb.timer_lt σ id htimer).2
  have hconnected : (t.clearTimeout id).connected σ = some i :=
    connected_eq_some.2 ⟨h.notification, h.connected⟩
  have hbarOwner : ((t.clearTimeout id).bars i).owner = σ := h.owner
  have hexpire : t.expire id = ((t.clearTimeout id).setPhase i .gone).clearState σ := by
    unfold Tab.expire
    dsimp only
    rw [howner, hconnected]
    dsimp only
    rw [leave_eq, hbarOwner, clearState_clearState]
  have hgone : ((t.clearTimeout id).setPhase i .gone).bars i =
      { t.bars i with phase := .gone } := setBar_self ..
  rw [hexpire]
  refine ⟨idle_of_clearState (Or.inr h.entry) ?_ ?_, ?_⟩
  · intro j
    by_cases hj : j = i
    · rw [hj, hgone]
      exact ⟨by simp, by simp⟩
    · have hbar : ((t.clearTimeout id).setPhase i .gone).bars j = t.bars j :=
        setBar_ne (t.clearTimeout id) _ hj
      rw [hbar]
      exact ⟨(h.away j hj).hidden, (h.away j hj).attached⟩
  · intro id' hid'
    -- the only running timer has just fired
    have hlive : ((t.clearTimeout id).timers id').live = true := hid'
    unfold Tab.clearTimeout at hlive
    dsimp only at hlive
    by_cases hne : id' = id
    · rw [hne, Function.update_self] at hlive
      cases hlive
    · rw [Function.update_of_ne hne] at hlive
      have hsame := h.timers id' hlive
      rw [htimer] at hsame
      exact absurd (Option.some.inj hsame).symm hne
  · rw [clearState_bars, hgone]

theorem Situation.expire (hb : Base t) (h : Situation t last) {id : Nat}
    (hid : (t.timers id).live = true) : Situation (t.expire id) last := by
  cases h with
  | idle h =>
    rw [h.timers id] at hid
    cases hid
  | creating h =>
    rw [h.timers id] at hid
    cases hid
  | showing h => exact .idle (h.expire hb hid).1
  | orphan h =>
    rw [h.timers id] at hid
    cases hid

theorem Situation.windowClosed (h : Situation t last) :
    Situation { t with
      documentGlobal := false
      timers := fun id => { t.timers id with live := false } } last := by
  cases h with
  | idle h =>
    exact .idle ⟨h.entry, fun j => (h.away j).congr rfl (Or.inl rfl), fun _ => rfl⟩
  | @creating σ i h =>
    exact .creating (σ := σ) (i := i) ⟨h.entry, h.lt, h.owner, h.awaited, h.phase,
      h.notification, h.creationPromise, h.details,
      fun j hj => (h.away j hj).congr rfl (Or.inl rfl), fun _ => rfl⟩
  | @showing σ i h =>
    refine .showing (σ := σ) (i := i) ⟨⟨h.entry, h.lt, h.owner, h.awaited, h.connected,
      h.notification, h.creationPromise, h.details,
      fun j hj => (h.away j hj).congr rfl (Or.inl rfl), ?_⟩, h.label, ?_, ?_⟩
    · intro id hid
      cases hid
    · intro hglobal
      cases hglobal
    · intro id hid
      cases hid
  | @orphan i h =>
    exact .orphan (i := i) ⟨rfl, h.entry, h.shown, h.awaited, h.label,
      fun j hj => (h.away j hj).congr rfl (Or.inl rfl), fun _ => rfl⟩

/-! ### A blocked action -/

/-- What is left over stays so when a new state becomes the entry. -/
theorem Away.fresh (hb : Base t) {j : Nat} (h : Away t j) {t' : Tab}
    (hbar : t'.bars j = t.bars j) (hentry : t'.entry = some t.nextState) : Away t' j := by
  refine ⟨by rw [hbar]; exact h.hidden, by rw [hbar]; exact h.attached, ?_⟩
  rw [hbar, hentry]
  intro hj heq
  have hlt := (hb.bar_lt j hj).2
  rw [← Option.some.inj heq] at hlt
  exact Nat.lt_irrefl _ hlt

theorem getNotificationWithValue_eq_none (h : ∀ j, (t.bars j).phase ≠ .shown) :
    t.getNotificationWithValue = none := by
  unfold Tab.getNotificationWithValue
  rw [List.find?_eq_none]
  intro j _
  simpa using h j

theorem getNotificationWithValue_eq_some (hlt : i < t.nextBar) (hi : (t.bars i).phase = .shown)
    (h : ∀ j, j ≠ i → (t.bars j).phase ≠ .shown) : t.getNotificationWithValue = some i := by
  unfold Tab.getNotificationWithValue
  cases hfind : (List.range t.nextBar).reverse.find? fun j => (t.bars j).phase == .shown with
  | none =>
    rw [List.find?_eq_none] at hfind
    have hnot := hfind i (by simpa using hlt)
    rw [hi] at hnot
    exact absurd rfl hnot
  | some j =>
    have hshown := List.find?_some hfind
    by_cases hj : j = i
    · rw [hj]
    · exact absurd (by simpa using hshown) (h j hj)

/-- The state a blocked action makes when there is no entry. -/
def Tab.withEntry (t : Tab) (details : Str) : Tab :=
  { t.setState t.nextState ⟨none, false, none, details⟩ with
    entry := some t.nextState
    nextState := t.nextState + 1 }

theorem withEntry_state (t : Tab) (details : Str) :
    (t.withEntry details).states t.nextState = ⟨none, false, none, details⟩ :=
  Function.update_self ..

theorem showNotification_none (details : Str) (h : t.entry = none) :
    t.showNotification details = (t.withEntry details).present t.nextState := by
  unfold Tab.showNotification Tab.withDetails
  rw [h]
  rfl

theorem showNotification_some (details : Str) (h : t.entry = some σ) :
    t.showNotification details =
      (t.setState σ { t.states σ with details := details }).present σ := by
  unfold Tab.showNotification Tab.withDetails
  rw [h]

theorem present_of_connected (h : t.connected σ = some i) : t.present σ = t.relabel σ i := by
  unfold Tab.present
  rw [h]

theorem present_of_pending (h : t.connected σ = none)
    (hpending : (t.states σ).creationPromise = true) : t.present σ = t := by
  unfold Tab.present
  rw [h]
  exact if_pos hpending

theorem withEntry_connected (t : Tab) (details : Str) :
    (t.withEntry details).connected t.nextState = none := by
  unfold Tab.connected
  rw [withEntry_state]

theorem withEntry_present_none (details : Str) (h : t.getNotificationWithValue = none) :
    (t.withEntry details).present t.nextState =
      (t.withEntry details).appendNotification t.nextState := by
  have hget : (t.withEntry details).getNotificationWithValue = none := h
  unfold Tab.present
  rw [withEntry_connected, withEntry_state, hget]
  rfl

theorem withEntry_present_some (details : Str) (h : t.getNotificationWithValue = some i) :
    (t.withEntry details).present t.nextState =
      ((t.withEntry details).setState t.nextState ⟨some i, false, none, details⟩).settle
        t.nextState := by
  have hget : (t.withEntry details).getNotificationWithValue = some i := h
  unfold Tab.present
  rw [withEntry_connected, withEntry_state, hget]
  rfl

/-- Without a bar in sight the action has one made. -/
theorem Idle.blocked (hb : Base t) (h : Idle t) (details : Str) :
    Creating (t.showNotification details) (some details) t.nextState t.nextBar := by
  rw [showNotification_none details h.entry, withEntry_present_none details
    (getNotificationWithValue_eq_none fun j => (h.away j).hidden)]
  have hbar : ((t.withEntry details).appendNotification t.nextState).bars t.nextBar =
      ⟨t.nextState, ((t.withEntry details).states t.nextState).details, .made, true⟩ :=
    Function.update_self ..
  have hstate : ((t.withEntry details).appendNotification t.nextState).states t.nextState =
      ⟨none, true, none, details⟩ := by
    have hwas : (t.withEntry details).states t.nextState = ⟨none, false, none, details⟩ :=
      Function.update_self ..
    unfold Tab.appendNotification
    dsimp only
    rw [setState_self, hwas]
  refine ⟨rfl, Nat.lt_succ_self _, by rw [hbar], by rw [hbar], by rw [hbar]; simp,
    by rw [hstate], by rw [hstate], by rw [hstate], ?_, h.timers⟩
  intro j hj
  exact (h.away j).fresh hb (Function.update_of_ne hj ..) rfl

/-- While a bar is made the action changes what it will say. -/
theorem Creating.blocked (h : Creating t last σ i) (details : Str) :
    Creating (t.showNotification details) (some details) σ i := by
  have hstate : (t.setState σ { t.states σ with details := details }).states σ =
      { t.states σ with details := details } := setState_self ..
  have hconnected : (t.setState σ { t.states σ with details := details }).connected σ = none := by
    unfold Tab.connected
    rw [hstate]
    dsimp only
    rw [h.notification]
  rw [showNotification_some details h.entry, present_of_pending hconnected
    (by rw [hstate]; exact h.creationPromise)]
  exact ⟨h.entry, h.lt, h.owner, h.awaited, h.phase, by rw [hstate]; exact h.notification,
    by rw [hstate]; exact h.creationPromise, by rw [hstate],
    fun j hj => (h.away j hj).congr rfl (Or.inl rfl), h.timers⟩

/-- A bar that is there gets the new label. -/
theorem showing_showNotification (h : Showing t last σ i) (details : Str) :
    t.showNotification details =
        (t.setState σ { t.states σ with details := details }).relabel σ i ∧
      Holding (t.setState σ { t.states σ with details := details }) (some details) σ i := by
  have hstate : (t.setState σ { t.states σ with details := details }).states σ =
      { t.states σ with details := details } := setState_self ..
  have hconnected : (t.setState σ { t.states σ with details := details }).connected σ =
      some i := connected_eq_some.2 ⟨by rw [hstate]; exact h.notification, h.connected⟩
  constructor
  · rw [showNotification_some details h.entry, present_of_connected hconnected]
  · exact ⟨h.entry, h.lt, h.owner, h.awaited, h.connected, by rw [hstate]; exact h.notification,
      by rw [hstate]; exact h.creationPromise, by rw [hstate],
      fun j hj => (h.away j hj).congr rfl (Or.inl rfl),
      fun id hid => by rw [hstate]; exact h.timers id hid⟩

/-- The state a blocked action makes when it finds bar `i`. -/
def Tab.adopting (t : Tab) (i : Nat) (details : Str) : Tab :=
  (t.withEntry details).setState t.nextState ⟨some i, false, none, details⟩

theorem orphan_showNotification (hb : Base t) (h : Orphan t last i) (details : Str) :
    t.showNotification details = (t.adopting i details).relabel t.nextState i := by
  have hlt : i < t.nextBar := (hb.bar_lt i (Or.inr (by rw [h.shown]; rfl))).1
  have hstate : (t.adopting i details).states t.nextState = ⟨some i, false, none, details⟩ :=
    setState_self ..
  have hconnected : (t.adopting i details).connected t.nextState = some i :=
    connected_eq_some.2 ⟨by rw [hstate], by
      show (t.bars i).phase.isConnected = true
      rw [h.shown]
      rfl⟩
  have hentry : (t.adopting i details).entry = some t.nextState := rfl
  rw [showNotification_none details h.entry, withEntry_present_some details
    (getNotificationWithValue_eq_some hlt h.shown fun j hj => (h.away j hj).hidden)]
  show (t.adopting i details).settle t.nextState = _
  unfold Tab.settle
  rw [hconnected]
  dsimp only
  rw [if_pos hentry]

/-- In a closed window the bar that is there gets the new label, and no entry stays. -/
theorem Orphan.blocked (hb : Base t) (h : Orphan t last i) (details : Str) :
    Situation (t.showNotification details) (some details) := by
  have hstate : (t.adopting i details).states t.nextState = ⟨some i, false, none, details⟩ :=
    setState_self ..
  rw [orphan_showNotification hb h]
  unfold Tab.relabel
  rw [hstate]
  refine arm_closed (i := i) rfl ?_ ?_ ?_ ?_ h.global h.timers
  · rw [setBar_self]
    exact h.awaited
  · rw [setBar_self]
    show (t.bars i).phase.isConnected = true
    rw [h.shown]
    rfl
  · intro j hj
    exact (h.away j hj).fresh hb (setBar_ne _ _ hj) rfl
  · rw [setBar_self]

theorem Situation.blocked (hb : Base t) (h : Situation t last) (details : Str) :
    Situation (t.showNotification details) (some details) := by
  cases h with
  | idle h => exact .creating (h.blocked hb details)
  | creating h => exact .creating (h.blocked details)
  | showing h =>
    obtain ⟨heq, hholding⟩ := showing_showNotification h details
    rw [heq]
    exact hholding.relabel h.global
  | orphan h => exact h.blocked hb details

end Events

end DenBrowser.NotificationBar
