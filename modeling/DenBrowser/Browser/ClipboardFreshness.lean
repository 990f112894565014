import DenBrowser.Browser.Clipboard

/-!
# Freshness of the internal clipboard

The parent records the OS clipboard's sequence number at a copy and compares it at a read.
Either query can fail, and then the comparison is skipped.  Here each call comes with the
outcome of its own query, and the OS with the number it reports after so many external changes.

* `setClipboard_eq` — this is the parent of `Browser.Clipboard` when the service is there;
* `freshInv_run` — where the parent's text and its recorded number come from;
* `served_fresh` — what a served text is fresh against;
* `served_stale` — two runs in which a stale text is served.
-/

set_option autoImplicit false

namespace DenBrowser.ClipFresh

open RunLib

/-! ## The handlers -/

/-- The outcome of a sequence-number query: `do_GetService` gives nothing, the query fails, or
it is answered. -/
inductive SeqQuery where
  | noService | failed | answered
  deriving DecidableEq

/-- What a reader compares. -/
def SeqQuery.seen (q : SeqQuery) (now : Int) : Option Int :=
  match q with
  | .answered => some now
  | _ => none

/-- `gDenParentCopySeqNum` after a copy. -/
def SeqQuery.record (q : SeqQuery) (old now : Int) : Int :=
  match q with
  | .noService => old
  | .failed => -1
  | .answered => now

/-- `RecvSetClipboard`. -/
def setClipboard (sites : List Str) (c : ParentClipboard) (q : SeqQuery) (now : Int)
    (type : ClipboardType) (window : Option Document) (data : Option Str) : ParentClipboard :=
  match window, data with
  | some d, some text =>
    if type = .global ∧ sites ≠ [] ∧ d.principalAllowed sites = true ∧ text ≠ [] then
      ⟨text, true, q.record c.copySeqNum now⟩
    else c
  | _, _ => c

/-- `RecvSetDenInternalClipboard`. -/
def setDenInternal (c : ParentClipboard) (q : SeqQuery) (now : Int) (text : Str) :
    ParentClipboard :=
  ⟨text, !text.isEmpty, q.record c.copySeqNum now⟩

/-- One of the three read handlers; `built` is whether the transferable and what is answered
with it could be made. -/
def readHandler (sites : List Str) (c : ParentClipboard) (seqNum : Option Int)
    (type : ClipboardType) (requester : Option Document) (flavors : List Str) (built : Bool) :
    ParentClipboard × ClipRead :=
  let r := parentRead sites c seqNum type requester flavors
  (r.1, if built then r.2 else .osClipboard)

/-- With the service there, this is the parent of the confidentiality model. -/
theorem setClipboard_eq (sites : List Str) (c : ParentClipboard) {q : SeqQuery} (now : Int)
    (type : ClipboardType) (window : Option Document) (data : Option Str) (h : q ≠ .noService) :
    setClipboard sites c q now type window data =
      c.recvSetClipboard sites (q.seen now) type window data := by
  unfold setClipboard ParentClipboard.recvSetClipboard
  cases q with
  | noService => exact absurd rfl h
  | failed => rfl
  | answered => rfl

/-! ## The system -/

/-- The parent, and how often the OS clipboard was changed from outside. -/
structure FreshWorld where
  parent : ParentClipboard
  changes : Nat

/-- What happens next; each call with the outcome of its query. -/
inductive FreshAct where
  | setClipboard (type : ClipboardType) (window : Option Document) (data : Option Str)
      (query : SeqQuery)
  | setDenInternal (text : Str) (query : SeqQuery)
  | read (type : ClipboardType) (requester : Option Document) (flavors : List Str) (built : Bool)
      (query : SeqQuery)
  | getDenInternal (query : SeqQuery)
  | external
  deriving DecidableEq

/-- What a step returns to its caller. -/
inductive FreshOut where
  | done
  | read (r : ClipRead)
  | internal (text : Str) (hasData : Bool)
  deriving DecidableEq

/-- `number k` is what the OS reports after `k` external changes. -/
def FreshWorld.step (sites : List Str) (number : Nat → Int) (w : FreshWorld) :
    FreshAct → FreshWorld × FreshOut
  | .setClipboard type window data q =>
    (⟨ClipFresh.setClipboard sites w.parent q (number w.changes) type window data, w.changes⟩,
      .done)
  | .setDenInternal text q =>
    (⟨ClipFresh.setDenInternal w.parent q (number w.changes) text, w.changes⟩, .done)
  | .read type requester flavors built q =>
    let r := readHandler sites w.parent (q.seen (number w.changes)) type requester flavors built
    (⟨r.1, w.changes⟩, .read r.2)
  | .getDenInternal q =>
    let r := w.parent.recvGetDenInternalClipboard (q.seen (number w.changes))
    (⟨r.1, w.changes⟩, .internal r.2.1 r.2.2)
  | .external => (⟨w.parent, w.changes + 1⟩, .done)

def freshSystem (sites : List Str) (number : Nat → Int) : System FreshWorld FreshAct FreshOut where
  init := ⟨⟨[], false, -1⟩, 0⟩
  step w a := some (w.step sites number a)

/-! ## Copies and reads -/

/-- A copy on a listed site, of whatever content; the fallback message is one of them. -/
def ListedCopy (sites : List Str) : FreshAct → Prop
  | .setClipboard type window _ _ =>
    type = .global ∧ ∃ d, window = some d ∧ d.principalAllowed sites = true
  | .setDenInternal _ _ => True
  | _ => False

/-- The text a copy carries. -/
def FreshAct.text : FreshAct → Option Str
  | .setClipboard _ _ data _ => data
  | .setDenInternal text _ => some text
  | _ => none

def FreshAct.query : FreshAct → Option SeqQuery
  | .setClipboard _ _ _ q => some q
  | .setDenInternal _ q => some q
  | .read _ _ _ _ q => some q
  | .getDenInternal q => some q
  | .external => none

/-- A listed site's copy of nonempty text. -/
def Carries (sites : List Str) (a : FreshAct) (text : Str) : Prop :=
  ListedCopy sites a ∧ a.text = some text ∧ text ≠ []

/-- The parent serves this internal text. -/
def Serves (out : FreshOut) (text : Str) : Prop :=
  (∃ data flavor, out = .read (.internal data) ∧ (flavor, text) ∈ data) ∨
    out = .internal text true

/-- Every served text is the one copied last on a listed site, with no external change since. -/
def AlwaysFresh (sites : List Str) (tr : List (FreshAct × FreshOut)) : Prop :=
  ∀ before a out after text, tr = before ++ (a, out) :: after → Serves out text →
    ∃ tr₁ copy tr₂, before = tr₁ ++ copy :: tr₂ ∧ ListedCopy sites copy.1 ∧
      copy.1.text = some text ∧ (∀ e ∈ tr₂, ¬ListedCopy sites e.1) ∧
      ∀ e ∈ tr₂, e.1 ≠ .external

/-- The external changes of a trace. -/
def externals (tr : List (FreshAct × FreshOut)) : Nat :=
  tr.countP fun e => e.1 == .external

theorem externals_append (tr₁ tr₂ : List (FreshAct × FreshOut)) :
    externals (tr₁ ++ tr₂) = externals tr₁ + externals tr₂ := List.countP_append

theorem externals_eq_zero {tr : List (FreshAct × FreshOut)} (h : externals tr = 0) :
    ∀ e ∈ tr, e.1 ≠ .external := by
  intro e he hext
  exact List.countP_eq_zero.1 h e he (by simp [hext])

/-! ## What a step does -/

section Steps

variable {sites : List Str} {c : ParentClipboard} {seqNum : Option Int}

/-- A read leaves the parent as it was, or invalidates it. -/
def Reads (c c' : ParentClipboard) : Prop := c' = c ∨ c' = c.invalidate

theorem serveFor_reads (requester : Option Document) :
    Reads c (c.serveFor sites seqNum requester).1 := by
  unfold ParentClipboard.serveFor
  cases requester with
  | none => exact Or.inl rfl
  | some d =>
    dsimp only
    split
    · exact Or.inl rfl
    · split
      · exact Or.inl rfl
      · split
        · exact Or.inr rfl
        · exact Or.inl rfl

theorem readHandler_reads (type : ClipboardType) (requester : Option Document)
    (flavors : List Str) (built : Bool) :
    Reads c (readHandler sites c seqNum type requester flavors built).1 := by
  show Reads c (parentRead sites c seqNum type requester flavors).1
  unfold parentRead
  split
  · exact serveFor_reads requester
  · exact Or.inl rfl

theorem recvGetDenInternalClipboard_reads :
    Reads c (c.recvGetDenInternalClipboard seqNum).1 := by
  unfold ParentClipboard.recvGetDenInternalClipboard
  dsimp only
  split
  · exact Or.inr rfl
  · exact Or.inl rfl

/-- What is served is the parent's text, and no change was seen. -/
theorem serveFor_unchanged {requester : Option Document}
    (h : (c.serveFor sites seqNum requester).2 = true) : c.changed seqNum = false := by
  unfold ParentClipboard.serveFor at h
  cases requester with
  | none => cases h
  | some d =>
    dsimp only at h
    split at h
    · cases h
    · split at h
      · cases h
      · split at h
        · cases h
        · rename_i hchanged
          exact Bool.not_eq_true _ ▸ hchanged

theorem readHandler_serves {type : ClipboardType} {requester : Option Document}
    {flavors : List Str} {built : Bool} {data : List (Str × Str)}
    (h : (readHandler sites c seqNum type requester flavors built).2 = .internal data) :
    c.hasData = true ∧ c.changed seqNum = false ∧ ∀ p ∈ data, p.2 = c.text := by
  cases built with
  | false => cases h
  | true =>
    have hread : (parentRead sites c seqNum type requester flavors).2 = .internal data := h
    obtain ⟨_, hdata, rfl⟩ := parentRead_internal hread
    refine ⟨hdata, ?_, ?_⟩
    · unfold parentRead at hread
      split at hread
      · dsimp only at hread
        split at hread
        · rename_i hserve
          exact serveFor_unchanged hserve
        · cases hread
      · cases hread
    · intro p hp
      obtain ⟨flavor, _, rfl⟩ := List.mem_map.1 hp
      rfl

theorem recvGetDenInternalClipboard_serves {text : Str}
    (h : (c.recvGetDenInternalClipboard seqNum).2 = (text, true)) :
    c.hasData = true ∧ c.changed seqNum = false ∧ text = c.text := by
  cases hl : c.live seqNum with
  | true =>
    rw [recvGetDenInternalClipboard_of_live hl] at h
    unfold ParentClipboard.live at hl
    rw [Bool.and_eq_true, Bool.not_eq_true'] at hl
    exact ⟨hl.1, hl.2, (Prod.mk.inj h).1.symm⟩
  | false =>
    have hnone := (recvGetDenInternalClipboard_of_not_live hl).1
    rw [h] at hnone
    cases hnone

end Steps

/-- What an action does to the parent. -/
inductive Effect (sites : List Str) (w : FreshWorld) (now : Int) (a : FreshAct) :
    ParentClipboard → Prop where
  | kept (h : ∀ text, ¬Carries sites a text) : Effect sites w now a w.parent
  | dropped (h : ∀ text, ¬Carries sites a text) : Effect sites w now a w.parent.invalidate
  | emptied (q : SeqQuery) : Effect sites w now a ⟨[], false, q.record w.parent.copySeqNum now⟩
  | captured {text : Str} {q : SeqQuery} (h : Carries sites a text) (hq : a.query = some q) :
      Effect sites w now a ⟨text, true, q.record w.parent.copySeqNum now⟩

theorem Effect.of_reads {sites : List Str} {w : FreshWorld} {now : Int} {a : FreshAct}
    {c : ParentClipboard} (ha : ∀ text, ¬Carries sites a text) (h : Reads w.parent c) :
    Effect sites w now a c := by
  rcases h with rfl | rfl
  · exact .kept ha
  · exact .dropped ha

/-- **What one step can do.** -/
theorem step_effect (sites : List Str) (number : Nat → Int) (w : FreshWorld) (a : FreshAct) :
    Effect sites w (number w.changes) a (w.step sites number a).1.parent ∧
      (w.step sites number a).1.changes = w.changes + if a = .external then 1 else 0 := by
  have hnot : ∀ {a : FreshAct}, ¬ListedCopy sites a → ∀ text, ¬Carries sites a text :=
    fun h _ hc => h hc.1
  cases a with
  | setClipboard type window data q =>
    refine ⟨?_, by simp [FreshWorld.step]⟩
    show Effect sites w _ _ (setClipboard sites w.parent q _ type window data)
    unfold setClipboard
    split
    · rename_i d text
      split
      · rename_i hc
        obtain ⟨rfl, _, hd, hne⟩ := hc
        exact .captured ⟨⟨rfl, d, rfl, hd⟩, rfl, hne⟩ rfl
      · rename_i hc
        refine .kept ?_
        rintro text' ⟨⟨htype, d', hd', hallowed⟩, htext, hne⟩
        cases hd'
        cases htext
        refine hc ⟨htype, ?_, hallowed, hne⟩
        rintro rfl
        simp [Document.principalAllowed, denClipSiteAllowed] at hallowed
        split at hallowed
        · cases hallowed
        · cases hallowed
    · rename_i hnone
      refine .kept ?_
      rintro text ⟨⟨_, d, rfl, _⟩, htext, _⟩
      exact hnone d text rfl htext
  | setDenInternal text q =>
    refine ⟨?_, by simp [FreshWorld.step]⟩
    by_cases hne : text = []
    · rw [hne]
      exact .emptied q
    · have hcaptured : Effect sites w (number w.changes) (.setDenInternal text q)
          ⟨text, true, q.record w.parent.copySeqNum (number w.changes)⟩ :=
        .captured ⟨trivial, rfl, hne⟩ rfl
      have hdata : (!text.isEmpty) = true := by simpa using hne
      show Effect sites w _ _ ⟨text, !text.isEmpty, _⟩
      rw [hdata]
      exact hcaptured
  | read type requester flavors built q =>
    exact ⟨.of_reads (hnot fun h => h) (readHandler_reads type requester flavors built),
      by simp [FreshWorld.step]⟩
  | getDenInternal q =>
    exact ⟨.of_reads (hnot fun h => h) recvGetDenInternalClipboard_reads,
      by simp [FreshWorld.step]⟩
  | external => exact ⟨.kept (hnot fun h => h), by simp [FreshWorld.step]⟩

/-- A served text is the parent's, and the query of the read saw no change. -/
theorem step_serves {sites : List Str} {number : Nat → Int} {w : FreshWorld} {a : FreshAct}
    {text : Str} (h : Serves (w.step sites number a).2 text) :
    w.parent.hasData = true ∧ w.parent.text = text ∧
      (a.query = some .answered → w.parent.changed (some (number w.changes)) = false) := by
  cases a with
  | setClipboard type window data q =>
    rcases h with ⟨_, _, h, _⟩ | h
    · cases h
    · cases h
  | setDenInternal text q =>
    rcases h with ⟨_, _, h, _⟩ | h
    · cases h
    · cases h
  | read type requester flavors built q =>
    rcases h with ⟨data, flavor, h, hmem⟩ | h
    · obtain ⟨hdata, hunchanged, htext⟩ := readHandler_serves (FreshOut.read.inj h)
      refine ⟨hdata, (htext _ hmem).symm, ?_⟩
      intro hq
      cases hq
      exact hunchanged
    · cases h
  | getDenInternal q =>
    rcases h with ⟨_, _, h, _⟩ | h
    · cases h
    · obtain ⟨htext, hhas⟩ := FreshOut.internal.inj h
      obtain ⟨hdata, hunchanged, htext'⟩ := recvGetDenInternalClipboard_serves
        (Prod.ext htext hhas)
      refine ⟨hdata, htext'.symm, ?_⟩
      intro hq
      cases hq
      exact hunchanged
  | external =>
    rcases h with ⟨_, _, h, _⟩ | h
    · cases h
    · cases h

/-! ## Where the text and the number come from -/

/-- The text is that of the last copy that carried one, and the number was recorded then or
earlier. -/
def Source (sites : List Str) (number : Nat → Int) (tr : List (FreshAct × FreshOut))
    (c : ParentClipboard) : Prop :=
  ∃ tr₁ copy tr₂, tr = tr₁ ++ copy :: tr₂ ∧ Carries sites copy.1 c.text ∧
    (∀ e ∈ tr₂, ∀ text, ¬Carries sites e.1 text) ∧
    (c.copySeqNum = -1 ∨ ∃ k ≤ externals tr₁, c.copySeqNum = number k) ∧
    (copy.1.query = some .answered → c.copySeqNum = number (externals tr₁))

/-- What holds of the parent in every state reached. -/
structure FreshInv (sites : List Str) (number : Nat → Int) (tr : List (FreshAct × FreshOut))
    (w : FreshWorld) : Prop where
  count : w.changes = externals tr
  recorded : w.parent.copySeqNum = -1 ∨ ∃ k ≤ w.changes, w.parent.copySeqNum = number k
  source : w.parent.hasData = true → Source sites number tr w.parent

section Runs

variable {sites : List Str} {number : Nat → Int} {tr : List (FreshAct × FreshOut)}
  {w : FreshWorld}

theorem Source.later {c : ParentClipboard} (h : Source sites number tr c) {a : FreshAct}
    (ha : ∀ text, ¬Carries sites a text) (out : FreshOut) :
    Source sites number (tr ++ [(a, out)]) c := by
  obtain ⟨tr₁, copy, tr₂, rfl, hcopy, hlast, hnum, hanswered⟩ := h
  refine ⟨tr₁, copy, tr₂ ++ [(a, out)], by simp, hcopy, ?_, hnum, hanswered⟩
  intro e he
  rcases List.mem_append.1 he with he | he
  · exact hlast e he
  · rw [List.mem_singleton.1 he]
    exact ha

/-- The number a copy leaves was recorded by it, or before it. -/
theorem record_recorded {old : Int} {k : Nat} (q : SeqQuery)
    (h : old = -1 ∨ ∃ j ≤ k, old = number j) :
    q.record old (number k) = -1 ∨ ∃ j ≤ k, q.record old (number k) = number j := by
  cases q with
  | noService => exact h
  | failed => exact Or.inl rfl
  | answered => exact Or.inr ⟨k, (Nat.le_refl _), rfl⟩

theorem FreshInv.step (h : FreshInv sites number tr w) (a : FreshAct) :
    FreshInv sites number (tr ++ [(a, (w.step sites number a).2)]) (w.step sites number a).1 := by
  obtain ⟨heffect, hchanges⟩ := step_effect sites number w a
  generalize (w.step sites number a).2 = out
  have hcount : (w.step sites number a).1.changes = externals (tr ++ [(a, out)]) := by
    rw [hchanges, h.count, externals_append]
    by_cases ha : a = .external
    · simp [externals, ha]
    · simp [externals, ha]
  have hle : w.changes ≤ (w.step sites number a).1.changes := by omega
  -- a number known after so many changes stays known
  have hlater : ∀ {n : Int}, (n = -1 ∨ ∃ k ≤ w.changes, n = number k) →
      n = -1 ∨ ∃ k ≤ (w.step sites number a).1.changes, n = number k := by
    rintro n (hn | ⟨k, hk, hn⟩)
    · exact Or.inl hn
    · exact Or.inr ⟨k, Nat.le_trans hk hle, hn⟩
  generalize (w.step sites number a).1 = w' at heffect hcount hlater ⊢
  obtain ⟨c', changes'⟩ := w'
  dsimp only at heffect hcount hlater
  cases heffect with
  | kept ha => exact ⟨hcount, hlater h.recorded, fun hdata => (h.source hdata).later ha out⟩
  | dropped ha => exact ⟨hcount, hlater h.recorded, (fun hdata => nomatch hdata)⟩
  | emptied q =>
    exact ⟨hcount, hlater (record_recorded q h.recorded), (fun hdata => nomatch hdata)⟩
  | captured hcarries hq =>
    refine ⟨hcount, hlater (record_recorded _ h.recorded), fun _ => ?_⟩
    refine ⟨tr, (a, out), [], rfl, hcarries, (fun e he => nomatch he), ?_, ?_⟩
    · rw [← h.count]
      exact record_recorded _ h.recorded
    · intro hanswered
      rw [hq] at hanswered
      cases hanswered
      rw [← h.count]
      rfl

theorem freshInv_run (h : Run (freshSystem sites number) tr w) : FreshInv sites number tr w := by
  refine Run.invariant (FreshInv sites number)
    ⟨rfl, Or.inl rfl, by intro hdata; cases hdata⟩ ?_ h
  intro tr w a w' out _ ih hs
  simp only [freshSystem, Option.some.injEq] at hs
  have hstep := ih.step a
  rwa [hs] at hstep

/-! ## What a served text is fresh against -/

/-- The numbers the OS reports in a run with `changes` external changes: each change gives a new
one, and none is the code's mark for a failed query. -/
structure NumbersChange (number : Nat → Int) (changes : Nat) : Prop where
  new : ∀ i ≤ changes, ∀ j ≤ changes, number i = number j → i = j
  valid : ∀ i ≤ changes, number i ≠ -1

/-- A number recorded at the copy or before it, and reported again now: nothing changed since. -/
theorem externals_since {tr₁ tr₂ : List (FreshAct × FreshOut)} {copy : FreshAct × FreshOut}
    {k : Nat} (hnew : ∀ i ≤ externals (tr₁ ++ copy :: tr₂), ∀ j ≤ externals (tr₁ ++ copy :: tr₂),
      number i = number j → i = j) (hk : k ≤ externals tr₁)
    (hsame : number (externals (tr₁ ++ copy :: tr₂)) = number k) :
    ∀ e ∈ tr₂, e.1 ≠ .external := by
  have htotal : externals (tr₁ ++ copy :: tr₂) =
      externals tr₁ + (externals [copy] + externals tr₂) := by
    rw [externals_append, ← List.singleton_append, externals_append]
  have heq := hnew _ (Nat.le_refl _) k (by omega) hsame
  exact externals_eq_zero (by omega)

/-- **What a served text is fresh against.**  In every run, a text the parent serves is that of
the most recent listed-site copy that carried text; and no external change has happened since
that copy when the sequence number was read at the copy and at the read, or a recorded number
was compared. -/
theorem served_fresh (h : Run (freshSystem sites number) tr w)
    (hnumber : NumbersChange number w.changes) :
    ∀ before a out after text, tr = before ++ (a, out) :: after → Serves out text →
      ∃ tr₁ copy tr₂, before = tr₁ ++ copy :: tr₂ ∧ Carries sites copy.1 text ∧
        (∀ e ∈ tr₂, ∀ text', ¬Carries sites e.1 text') ∧
        (copy.1.query = some .answered → a.query = some .answered →
          ∀ e ∈ tr₂, e.1 ≠ .external) ∧
        ∀ w₀, Run (freshSystem sites number) before w₀ → w₀.parent.copySeqNum ≠ -1 →
          a.query = some .answered → ∀ e ∈ tr₂, e.1 ≠ .external := by
  rintro before a out after text rfl hserves
  have hall : externals before ≤ w.changes := by
    rw [(freshInv_run h).count, externals_append]
    omega
  have hsplit : before ++ (a, out) :: after = (before ++ [(a, out)]) ++ after := by simp
  rw [hsplit] at h
  obtain ⟨w₁, hr₁⟩ := Run.initial_segment _ h
  obtain ⟨w₀, hr₀, hs⟩ := Run.last hr₁
  simp only [freshSystem, Option.some.injEq] at hs
  have hout : out = (w₀.step sites number a).2 := by rw [hs]
  rw [hout] at hserves
  obtain ⟨hdata, rfl, hunchanged⟩ := step_serves hserves
  have hinv := freshInv_run hr₀
  obtain ⟨tr₁, copy, tr₂, rfl, hcarries, hlast, hnum, hanswered⟩ := hinv.source hdata
  -- a recorded number that the read compares with the present one
  have hcompared : w₀.parent.copySeqNum ≠ -1 → a.query = some .answered →
      ∀ e ∈ tr₂, e.1 ≠ .external := by
    intro hrecorded hquery
    have hsame : number (externals (tr₁ ++ copy :: tr₂)) = w₀.parent.copySeqNum := by
      have hfalse := hunchanged hquery
      simpa [ParentClipboard.changed, hrecorded, hinv.count] using hfalse
    obtain ⟨k, hk, hrec⟩ := hnum.resolve_left hrecorded
    refine externals_since ?_ hk (hsame.trans hrec)
    intro i hi j hj
    exact hnumber.new i (Nat.le_trans hi hall) j (Nat.le_trans hj hall)
  refine ⟨tr₁, copy, tr₂, rfl, hcarries, hlast, ?_, ?_⟩
  · intro hcopy hquery
    refine hcompared ?_ hquery
    rw [hanswered hcopy]
    refine hnumber.valid _ (Nat.le_trans ?_ hall)
    rw [externals_append]
    omega
  · intro w₀' hr₀' hrecorded hquery
    rw [Run.state_unique hr₀' hr₀] at hrecorded
    exact hcompared hrecorded hquery

end Runs

/-! ## Stale text -/

/-- Text and then an image are copied on the listed page, which pastes. -/
def imageTrace : List (FreshAct × FreshOut) :=
  [(.setClipboard .global (some docsPage) (some copied) .answered, .done),
    (.setClipboard .global (some docsPage) none .answered, .done),
    (.read .global (some docsPage) [plain] true .answered, .read (.internal [(plain, copied)]))]

/-- The query fails at the copy, and another application copies before the paste. -/
def failedTrace : List (FreshAct × FreshOut) :=
  [(.setClipboard .global (some docsPage) (some copied) .failed, .done),
    (.external, .done),
    (.getDenInternal .answered, .internal copied true)]

theorem exec_trace (tr : List (FreshAct × FreshOut))
    (h : (exec (freshSystem docsOnly fun k => k) (tr.map Prod.fst)).map
      (fun (p : List (FreshAct × FreshOut) × FreshWorld) => p.1) = some tr) :
    ∃ w, Run (freshSystem docsOnly fun k => k) tr w := by
  obtain ⟨⟨tr', w⟩, he, rfl⟩ := Option.map_eq_some_iff.1 h
  exact ⟨w, exec_run he⟩

/-- **A stale text is served**: after a copy without text, and after an external change when the
query failed at the copy. -/
theorem served_stale :
    (∃ w, Run (freshSystem docsOnly fun k => k) imageTrace w ∧
      ¬AlwaysFresh docsOnly imageTrace) ∧
    ∃ w, Run (freshSystem docsOnly fun k => k) failedTrace w ∧
      ¬AlwaysFresh docsOnly failedTrace := by
  obtain ⟨w₁, hr₁⟩ := exec_trace imageTrace (by decide +kernel)
  obtain ⟨w₂, hr₂⟩ := exec_trace failedTrace (by decide +kernel)
  refine ⟨⟨w₁, hr₁, fun hfresh => ?_⟩, ⟨w₂, hr₂, fun hfresh => ?_⟩⟩
  · obtain ⟨tr₁, copy, tr₂, hsplit, _, htext, hlast, _⟩ := hfresh (imageTrace.take 2) _ _ [] copied
      rfl (Or.inl ⟨_, plain, rfl, by simp⟩)
    -- the copy cannot be the image, and no listed copy may follow it
    have himage : ListedCopy docsOnly
        (.setClipboard .global (some docsPage) none .answered) := ⟨rfl, docsPage, rfl, by decide⟩
    match tr₁, hsplit with
    | [], hsplit =>
      cases hsplit
      exact hlast _ List.mem_cons_self himage
    | [_], hsplit =>
      cases hsplit
      cases htext
    | _ :: _ :: _, hsplit => simp [imageTrace] at hsplit
  · obtain ⟨tr₁, copy, tr₂, hsplit, hlisted, _, _, hext⟩ := hfresh (failedTrace.take 2) _ _ [] copied
      rfl (Or.inr rfl)
    match tr₁, hsplit with
    | [], hsplit =>
      cases hsplit
      exact hext _ List.mem_cons_self rfl
    | [_], hsplit =>
      cases hsplit
      exact hlisted
    | _ :: _ :: _, hsplit => simp [failedTrace] at hsplit

/-- A copy, an external change, a second copy and a paste. -/
def copyTwice : List (FreshAct × FreshOut) :=
  [(.setClipboard .global (some docsPage) (some plain) .answered, .done),
    (.external, .done),
    (.setClipboard .global (some docsPage) (some copied) .answered, .done),
    (.read .global (some docsPage) [plain] true .answered, .read (.internal [(plain, copied)]))]

theorem served_fresh_twice : ∃ tr₁ copy tr₂, copyTwice.take 3 = tr₁ ++ copy :: tr₂ ∧
    Carries docsOnly copy.1 copied ∧
    (copy.1.query = some .answered → ∀ e ∈ tr₂, e.1 ≠ .external) := by
  obtain ⟨w, hr⟩ := exec_trace copyTwice (by decide +kernel)
  obtain ⟨tr₁, copy, tr₂, hsplit, hcarries, _, hext, _⟩ := served_fresh hr
    ⟨fun i _ j _ hij => by omega, fun i _ => by omega⟩ (copyTwice.take 3) _ _ [] copied
    rfl (Or.inl ⟨_, plain, rfl, by simp⟩)
  exact ⟨tr₁, copy, tr₂, hsplit, hcarries, fun hcopy => hext hcopy rfl⟩

end DenBrowser.ClipFresh
