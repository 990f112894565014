import DenBrowser.Lib.Run
import DenBrowser.Text
import Mathlib.Logic.Function.Basic

/-!
# The notification bar of blocked actions

`showDenBrowserBlockedNotification` is an async function that keeps one state object for each
browser in a weak map and waits for the notification box to make the bar.  The box, the document
and the clock are the environment; what it does is an event:

* a bar is made when `appendNotification` is called, and attached, if at all, while that call is
  awaited; an attached bar may begin to close (its slide-out) before it leaves the document, and
  a closing bar is not found by `getNotificationWithValue`;
* the callback hears of a bar that leaves in the same task, and of a user's dismissal when it
  begins to close or when it leaves;
* a call that fails leaves no bar; what follows the `await` is one task;
* when its window closes, the document loses its global and its timers.

Clearing a state, which every callback ends with, is described once (`clearState_entry`,
`clearState_states`, `clearState_timers`), so that later proofs do not unfold it.
-/

set_option autoImplicit false

namespace DenBrowser.NotificationBar

open RunLib

/-! ## One browser -/

/-- The keys of `DENBROWSER_BLOCKED_NOTIFICATION_DETAILS`. -/
inductive BlockedAction where
  | DenBrowserSaveBlocked
  | DenBrowserPrintingBlocked
  | DenBrowserCopyBlocked
  | DenBrowserDevToolsBlocked
  deriving DecidableEq

/-- `l10nId` of the details. -/
def BlockedAction.l10nId : BlockedAction → Str
  | .DenBrowserSaveBlocked => "denbrowser-saving-blocked-infobar".toList
  | .DenBrowserPrintingBlocked => "denbrowser-printing-blocked-infobar".toList
  | .DenBrowserCopyBlocked => "denbrowser-copying-blocked-infobar".toList
  | .DenBrowserDevToolsBlocked => "denbrowser-devtools-blocked-infobar".toList

/-- Where a bar is: not yet attached, shown, on its way out, or out of the document. -/
inductive Phase where
  | made
  | shown
  | closing
  | gone
  deriving DecidableEq

/-- `isConnected`. -/
def Phase.isConnected : Phase → Bool
  | .shown => true
  | .closing => true
  | _ => false

/-- A bar with the state its callback captured; `awaited` while its `appendNotification` is. -/
structure Bar where
  owner : Nat
  label : Str
  phase : Phase
  awaited : Bool

/-- The state object of a browser. -/
structure NotificationState where
  notification : Option Nat
  creationPromise : Bool
  timer : Option Nat
  details : Str

/-- A `setTimeout` with the state its function captured. -/
structure Timer where
  owner : Nat
  live : Bool

/-- One browser: its entry in `gDenBrowserBlockedNotificationStates`, and the state objects, bars
and timers made so far, by number. -/
structure Tab where
  documentGlobal : Bool
  entry : Option Nat
  states : Nat → NotificationState
  nextState : Nat
  bars : Nat → Bar
  nextBar : Nat
  timers : Nat → Timer
  nextTimer : Nat

namespace Tab

def init : Tab where
  documentGlobal := true
  entry := none
  states _ := ⟨none, false, none, []⟩
  nextState := 0
  bars _ := ⟨0, [], .gone, false⟩
  nextBar := 0
  timers _ := ⟨0, false⟩
  nextTimer := 0

def setState (t : Tab) (σ : Nat) (s : NotificationState) : Tab :=
  { t with states := Function.update t.states σ s }

def setBar (t : Tab) (i : Nat) (bar : Bar) : Tab :=
  { t with bars := Function.update t.bars i bar }

def setPhase (t : Tab) (i : Nat) (phase : Phase) : Tab :=
  t.setBar i { t.bars i with phase := phase }

def clearTimeout (t : Tab) (id : Nat) : Tab :=
  { t with timers := Function.update t.timers id { t.timers id with live := false } }

/-- `state.notification?.isConnected`: the bar, when it is. -/
def connected (t : Tab) (σ : Nat) : Option Nat :=
  match (t.states σ).notification with
  | none => none
  | some i => if (t.bars i).phase.isConnected then some i else none

/-- `clearDenBrowserBlockedNotificationState`. -/
def clearState (t : Tab) (σ : Nat) : Tab :=
  let t' :=
    match (t.states σ).timer with
    | none => t
    | some id =>
      (if t.documentGlobal then t.clearTimeout id else t).setState σ
        { t.states σ with timer := none }
  if t.entry = some σ then { t' with entry := none } else t'

/-- `if (state.timer) clearTimeout(state.timer)`. -/
def clearOldTimeout (t : Tab) (σ : Nat) : Tab :=
  match (t.states σ).timer with
  | none => t
  | some id => t.clearTimeout id

/-- `state.timer = setTimeout(...)`. -/
def setTimeout (t : Tab) (σ : Nat) : Tab :=
  { t.setState σ { t.states σ with timer := some t.nextTimer } with
    timers := Function.update t.timers t.nextTimer ⟨σ, true⟩
    nextTimer := t.nextTimer + 1 }

/-- `armDenBrowserBlockedNotificationTimeout`. -/
def arm (t : Tab) (σ : Nat) : Tab :=
  if t.documentGlobal = false then t.clearState σ else (t.clearOldTimeout σ).setTimeout σ

/-- `notification.label = ...`, and the timer armed again. -/
def relabel (t : Tab) (σ i : Nat) : Tab :=
  (t.setBar i { t.bars i with label := (t.states σ).details }).arm σ

/-- What follows the `await`, once the state holds a notification. -/
def settle (t : Tab) (σ : Nat) : Tab :=
  match t.connected σ with
  | none => t.clearState σ
  | some i => if t.entry = some σ then t.relabel σ i else t.clearState σ

/-- `getNotificationWithValue`: the last bar that is shown. -/
def getNotificationWithValue (t : Tab) : Option Nat :=
  (List.range t.nextBar).reverse.find? fun i => (t.bars i).phase == .shown

/-- `appendNotification` is called, and awaited. -/
def appendNotification (t : Tab) (σ : Nat) : Tab :=
  { (t.setBar t.nextBar ⟨σ, (t.states σ).details, .made, true⟩).setState σ
      { t.states σ with notification := none, creationPromise := true } with
    nextBar := t.nextBar + 1 }

/-- The state of the browser, with the new details. -/
def withDetails (t : Tab) (details : Str) : Nat × Tab :=
  match t.entry with
  | none =>
    (t.nextState,
      { t.setState t.nextState ⟨none, false, none, details⟩ with
        entry := some t.nextState
        nextState := t.nextState + 1 })
  | some σ => (σ, t.setState σ { t.states σ with details := details })

/-- What `showDenBrowserBlockedNotification` does with the state, up to the `await`. -/
def present (t : Tab) (σ : Nat) : Tab :=
  match t.connected σ with
  | some i => t.relabel σ i
  | none =>
    if (t.states σ).creationPromise then t
    else
      match t.getNotificationWithValue with
      | some i => (t.setState σ { t.states σ with notification := some i }).settle σ
      | none => t.appendNotification σ

/-- `showDenBrowserBlockedNotification`, up to the `await`. -/
def showNotification (t : Tab) (details : Str) : Tab :=
  (t.withDetails details).2.present (t.withDetails details).1

/-- The promise of bar `i` is fulfilled. -/
def complete (t : Tab) (i : Nat) : Tab :=
  let σ := (t.bars i).owner
  ((t.setBar i { t.bars i with awaited := false }).setState σ
    { t.states σ with notification := some i, creationPromise := false }).settle σ

/-- The promise of bar `i` is rejected. -/
def fail (t : Tab) (i : Nat) : Tab :=
  let σ := (t.bars i).owner
  ((t.setBar i { t.bars i with awaited := false, phase := .gone }).setState σ
    { t.states σ with creationPromise := false }).clearState σ

/-- The `eventCallback` of bar `i`. -/
def eventCallback (t : Tab) (i : Nat) (event : Str) : Tab :=
  if event = "dismissed".toList ∨ event = "removed".toList ∨ event = "disconnected".toList then
    t.clearState (t.bars i).owner
  else t

/-- Bar `i` leaves the document; `event` is what the box reports before that. -/
def leave (t : Tab) (i : Nat) (event : Str) : Tab :=
  ((t.setPhase i .gone).eventCallback i event).eventCallback i "disconnected".toList

/-- The function of a timer. -/
def expire (t : Tab) (id : Nat) : Tab :=
  let σ := (t.timers id).owner
  let t := t.clearTimeout id
  match t.connected σ with
  | some i => (t.leave i "removed".toList).clearState σ
  | none => t.clearState σ

end Tab

/-- What can happen to a browser. -/
inductive TabEvent where
  | blocked (action : BlockedAction)
  | attached (i : Nat)
  | completed (i : Nat)
  | failed (i : Nat)
  | closing (i : Nat) (dismissed : Bool)
  | left (i : Nat) (event : Str)
  | timer (id : Nat)
  | windowClosed
  deriving DecidableEq

/-- One event; `none` when the environment cannot produce it. -/
def Tab.step (t : Tab) : TabEvent → Option Tab
  | .blocked action => some (t.showNotification action.l10nId)
  | .attached i =>
    if (t.bars i).phase = .made ∧ (t.bars i).awaited = true then some (t.setPhase i .shown)
    else none
  | .completed i => if (t.bars i).awaited = true then some (t.complete i) else none
  | .failed i =>
    if (t.bars i).awaited = true ∧ (t.bars i).phase.isConnected = false then some (t.fail i)
    else none
  | .closing i dismissed =>
    if (t.bars i).phase = .shown then
      let t := t.setPhase i .closing
      some (if dismissed then t.eventCallback i "dismissed".toList else t)
    else none
  | .left i event =>
    if (t.bars i).phase.isConnected = true then some (t.leave i event) else none
  | .timer id => if (t.timers id).live = true then some (t.expire id) else none
  | .windowClosed =>
    some { t with
      documentGlobal := false
      timers := fun id => { t.timers id with live := false } }

/-! ## What clearing a state changes -/

section Clear

variable (t : Tab) (σ : Nat)

theorem clearOldTimeout_eq : t.clearOldTimeout σ =
    { t with timers := fun id =>
        { t.timers id with
          live := (t.timers id).live && !((t.states σ).timer == some id) } } := by
  unfold Tab.clearOldTimeout
  cases htimer : (t.states σ).timer with
  | none => simp
  | some id' =>
    dsimp only [Tab.clearTimeout]
    congr 1
    funext id
    by_cases hid : id = id'
    · simp [hid]
    · have hother : (id' == id) = false := by simpa using Ne.symm hid
      simp [Function.update_of_ne hid, hother]

theorem clearState_bars : (t.clearState σ).bars = t.bars := by
  unfold Tab.clearState
  dsimp only
  split
  all_goals
    split
    · rfl
    · split
      · rfl
      · rfl

theorem clearState_entry :
    (t.clearState σ).entry = if t.entry = some σ then none else t.entry := by
  unfold Tab.clearState
  dsimp only
  split
  · rfl
  · split
    · rfl
    · split
      · rfl
      · rfl

theorem clearState_counters : (t.clearState σ).documentGlobal = t.documentGlobal ∧
    (t.clearState σ).nextState = t.nextState ∧ (t.clearState σ).nextBar = t.nextBar ∧
    (t.clearState σ).nextTimer = t.nextTimer := by
  unfold Tab.clearState
  dsimp only
  split
  all_goals
    split
    · exact ⟨rfl, rfl, rfl, rfl⟩
    · split
      · exact ⟨rfl, rfl, rfl, rfl⟩
      · exact ⟨rfl, rfl, rfl, rfl⟩

theorem clearState_states :
    (t.clearState σ).states = Function.update t.states σ { t.states σ with timer := none } := by
  have hself : (t.states σ).timer = none →
      t.states = Function.update t.states σ { t.states σ with timer := none } := by
    intro h
    have hsame : ({ t.states σ with timer := none } : NotificationState) = t.states σ := by
      rw [← h]
    rw [hsame, Function.update_eq_self]
  unfold Tab.clearState
  dsimp only
  split
  all_goals
    split
    · rename_i h
      exact hself h
    · split
      · rfl
      · rfl

theorem clearState_timers (id : Nat) :
    ((t.clearState σ).timers id).owner = (t.timers id).owner ∧
      ((t.clearState σ).timers id).live =
        ((t.timers id).live && !(t.documentGlobal && (t.states σ).timer == some id)) := by
  have htimers : (t.clearState σ).timers =
      match (t.states σ).timer with
      | none => t.timers
      | some id' => (if t.documentGlobal then t.clearTimeout id' else t).timers := by
    unfold Tab.clearState
    dsimp only
    split
    all_goals
      split
      · rfl
      · rfl
  rw [htimers]
  cases htimer : (t.states σ).timer with
  | none => simp
  | some id' =>
    cases hglobal : t.documentGlobal with
    | false => simp
    | true =>
      by_cases hid : id' = id
      · simp [Tab.clearTimeout, hid]
      · simp [Tab.clearTimeout, hid, Function.update_of_ne (Ne.symm hid)]

end Clear

theorem clearState_clearState (t : Tab) (σ : Nat) :
    (t.clearState σ).clearState σ = t.clearState σ := by
  have htimer : ((t.clearState σ).states σ).timer = none := by
    rw [clearState_states, Function.update_self]
  have hentry : (t.clearState σ).entry ≠ some σ := by
    rw [clearState_entry]
    split
    · simp
    · assumption
  generalize t.clearState σ = u at htimer hentry
  unfold Tab.clearState
  dsimp only
  rw [if_neg hentry, htimer]

theorem eventCallback_eq (t : Tab) (i : Nat) (event : Str) :
    t.eventCallback i event = t ∨ t.eventCallback i event = t.clearState (t.bars i).owner := by
  unfold Tab.eventCallback
  split
  · exact Or.inr rfl
  · exact Or.inl rfl

/-- A bar that leaves clears the state its callback captured. -/
theorem leave_eq (t : Tab) (i : Nat) (event : Str) :
    t.leave i event = (t.setPhase i .gone).clearState (t.bars i).owner := by
  have howner : ((t.setPhase i .gone).bars i).owner = (t.bars i).owner := by
    simp [Tab.setPhase, Tab.setBar]
  have hlast : ∀ u : Tab, u.eventCallback i "disconnected".toList =
      u.clearState (u.bars i).owner := fun u => rfl
  unfold Tab.leave
  rw [hlast]
  rcases eventCallback_eq (t.setPhase i .gone) i event with h | h
  · rw [h, howner]
  · rw [h, clearState_bars, howner, clearState_clearState]

end DenBrowser.NotificationBar
