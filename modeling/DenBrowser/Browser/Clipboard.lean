import DenBrowser.Lib.Run
import DenBrowser.Browser.Hosts

/-!
# The internal clipboard

The parent process keeps the text copied on a listed site (`gDenParentClipText`); the OS
clipboard is never written.  Two mechanisms decide who reads it back: the parent's handlers
check the requester's principal, and a content process whose `gDenServePasteFromInternal` flag
was raised by a paste asks for it directly, with no check in the parent.

* `captured_run` — internal text is text that was captured from a listed site;
* `clipboard_confidential_iff` — exactly the runs in which internal text is returned to listed
  documents only;
* `clipboard_leak` — a run in which it is not.
-/

set_option autoImplicit false

namespace DenBrowser

open RunLib

/-! ## The allow-list -/

/-- `DenClipHostMatch`, `DenClipHostMatchP`. -/
def denClipHostMatch (host pat : Str) : Bool := hostMatch host pat

/-- `DenClipSiteAllowed`. -/
def denClipSiteAllowed (sites : List Str) (host : Str) : Bool :=
  sites.any fun pat => denClipHostMatch host pat

example : denClipSiteAllowed ["example.com".toList] "docs.example.com".toList = true := by decide

/-- A document, with the host of its URI (empty when it has none) and that of its principal's
URI. -/
structure Document where
  uriHost : Str
  principalHost : Option Str
  deriving DecidableEq

/-- The parent's test of a document: its principal has a URI with a nonempty, listed host. -/
def Document.principalAllowed (sites : List Str) (d : Document) : Bool :=
  match d.principalHost with
  | none => false
  | some host => !host.isEmpty && denClipSiteAllowed sites host

/-- The document's host is on the list. -/
def Document.Listed (sites : List Str) (d : Document) : Prop :=
  denClipSiteAllowed sites d.uriHost = true ∨ d.principalAllowed sites = true

/-- `nsIClipboard::ClipboardType`. -/
inductive ClipboardType where
  | selection | global | find | selectionCache
  deriving DecidableEq

/-! ## The parent process -/

/-- The parent's globals: the text, whether there is any, and the OS clipboard's sequence number
at copy time (-1 when it could not be read). -/
structure ParentClipboard where
  text : Str
  hasData : Bool
  copySeqNum : Int
  deriving DecidableEq

namespace ParentClipboard

/-- An application outside the browser has copied since. -/
def changed (c : ParentClipboard) (seqNum : Option Int) : Bool :=
  match seqNum with
  | none => false
  | some n => c.copySeqNum != -1 && n != c.copySeqNum

def invalidate (c : ParentClipboard) : ParentClipboard := { c with hasData := false, text := [] }

/-- There is internal text to serve. -/
def live (c : ParentClipboard) (seqNum : Option Int) : Bool := c.hasData && !c.changed seqNum

/-- `DenServeInternalClipboardFor`. -/
def serveFor (sites : List Str) (c : ParentClipboard) (seqNum : Option Int)
    (requester : Option Document) : ParentClipboard × Bool :=
  match requester with
  | none => (c, false)
  | some d =>
    if sites.isEmpty || !c.hasData then (c, false)
    else if d.principalAllowed sites = false then (c, false)
    else if c.changed seqNum then (c.invalidate, false)
    else (c, true)

/-- `RecvSetClipboard`, with the `text/plain` data of the transferable: capture the text of a
listed site.  The OS clipboard stays as it was. -/
def recvSetClipboard (sites : List Str) (c : ParentClipboard) (seqNum : Option Int)
    (type : ClipboardType) (window : Option Document) (data : Option Str) : ParentClipboard :=
  match window, data with
  | some d, some text =>
    if type = .global ∧ sites ≠ [] ∧ d.principalAllowed sites = true ∧ text ≠ [] then
      ⟨text, true, seqNum.getD (-1)⟩
    else c
  | _, _ => c

/-- `RecvGetDenInternalClipboard`: the text, whoever asks. -/
def recvGetDenInternalClipboard (c : ParentClipboard) (seqNum : Option Int) :
    ParentClipboard × Str × Bool :=
  let c := if c.hasData && c.changed seqNum then c.invalidate else c
  (c, c.text, c.hasData)

end ParentClipboard

/-- What a read returns: internal text under each requested flavor, or what the OS clipboard
path returns. -/
inductive ClipRead where
  | internal (data : List (Str × Str))
  | osClipboard
  deriving DecidableEq

/-- `DenBuildInternalTransferable`: each flavor set to the text. -/
def buildInternal (text : Str) (flavors : List Str) : ClipRead :=
  .internal (flavors.map fun flavor => (flavor, text))

/-- The check at the head of the parent's three read handlers (`GetClipboardDataInternal`,
`RecvGetClipboardDataSnapshot` and `RecvGetClipboardDataSnapshotSync`). -/
def parentRead (sites : List Str) (c : ParentClipboard) (seqNum : Option Int)
    (type : ClipboardType) (requester : Option Document) (flavors : List Str) :
    ParentClipboard × ClipRead :=
  if type = .global then
    let r := c.serveFor sites seqNum requester
    (r.1, if r.2 then buildInternal r.1.text flavors else .osClipboard)
  else (c, .osClipboard)

/-- `RecvClipboardHasType`: `none` when the OS clipboard answers. -/
def recvClipboardHasType (sites : List Str) (c : ParentClipboard) (type : ClipboardType)
    (flavors : List Str) : Option Bool :=
  if type = .global ∧ sites ≠ [] ∧ c.hasData = true ∧ "text/plain".toList ∈ flavors then some true
  else none

/-! ## A content process -/

/-- The messages `FireClipboardEvent` is called with. -/
inductive ClipMessage where
  | copy | cut | paste
  deriving DecidableEq

/-- `FireClipboardEvent`: the flag it leaves, and whether the caller may go on with the default
action.  `doDefault` is what the page's handlers left of it. -/
def fireClipboardEvent (sites : List Str) (serve : Bool) (message : ClipMessage) (d : Document)
    (doDefault : Bool) : Bool × Bool :=
  match message with
  | .copy | .cut =>
    if !sites.isEmpty && denClipSiteAllowed sites d.uriHost then (serve, doDefault)
    else (serve, false)
  | .paste =>
    (doDefault && !sites.isEmpty && denClipSiteAllowed sites d.uriHost, doDefault)

/-- The head of `nsClipboardProxy::GetData` and `GetDataSnapshotSync`: with the flag raised the
parent is asked for its text, and what it has is returned; otherwise the read goes to the
parent's handler for the document. -/
def proxyRead (sites : List Str) (serve : Bool) (c : ParentClipboard) (seqNum : Option Int)
    (type : ClipboardType) (d : Document) (flavors : List Str) : ParentClipboard × ClipRead :=
  if serve then
    let r := c.recvGetDenInternalClipboard seqNum
    if r.2.2 then (r.1, buildInternal r.2.1 flavors)
    else parentRead sites r.1 seqNum type (some d) flavors
  else parentRead sites c seqNum type (some d) flavors

/-! ## The system -/

/-- The parent's clipboard, the flag of each content process, and the sequence number the OS
clipboard reports now. -/
structure ClipWorld where
  parent : ParentClipboard
  serveFromInternal : Nat → Bool
  seqNum : Option Int

/-- What happens next.  Content processes are numbers; a read through the proxy is one of
`GetData` and `GetDataSnapshotSync`. -/
inductive ClipAct where
  | fire (process : Nat) (message : ClipMessage) (d : Document) (doDefault : Bool)
  | setClipboard (type : ClipboardType) (window : Option Document) (data : Option Str)
  | proxyRead (process : Nat) (type : ClipboardType) (d : Document) (flavors : List Str)
  | parentRead (type : ClipboardType) (requester : Option Document) (flavors : List Str)
  | hasType (type : ClipboardType) (flavors : List Str)
  | external (seqNum : Option Int)
  deriving DecidableEq

/-- What a step returns to its caller. -/
inductive ClipOut where
  | done
  | fired (doDefault : Bool)
  | read (r : ClipRead)
  | has (b : Option Bool)
  deriving DecidableEq

def ClipWorld.step (sites : List Str) (w : ClipWorld) : ClipAct → ClipWorld × ClipOut
  | .fire p message d doDefault =>
    let r := fireClipboardEvent sites (w.serveFromInternal p) message d doDefault
    ({ w with serveFromInternal := Function.update w.serveFromInternal p r.1 }, .fired r.2)
  | .setClipboard type window data =>
    ({ w with parent := w.parent.recvSetClipboard sites w.seqNum type window data }, .done)
  | .proxyRead p type d flavors =>
    let r := proxyRead sites (w.serveFromInternal p) w.parent w.seqNum type d flavors
    ({ w with parent := r.1 }, .read r.2)
  | .parentRead type requester flavors =>
    let r := parentRead sites w.parent w.seqNum type requester flavors
    ({ w with parent := r.1 }, .read r.2)
  | .hasType type flavors => (w, .has (recvClipboardHasType sites w.parent type flavors))
  | .external seqNum => ({ w with seqNum := seqNum }, .done)

/-- The browser after startup: nothing captured, every flag down. -/
def clipboardSystem (sites : List Str) (seqNum : Option Int) :
    System ClipWorld ClipAct ClipOut where
  init := ⟨⟨[], false, -1⟩, fun _ => false, seqNum⟩
  step w a := some (w.step sites a)

/-! ## What the reads return -/

section Reads

variable {sites : List Str} {c : ParentClipboard} {seqNum : Option Int}

/-- The parent serves internal text to listed principals only, and leaves it in place. -/
theorem serveFor_ok {requester : Option Document}
    (h : (c.serveFor sites seqNum requester).2 = true) :
    (∃ d, requester = some d ∧ d.principalAllowed sites = true) ∧ c.hasData = true ∧
      (c.serveFor sites seqNum requester).1 = c := by
  unfold ParentClipboard.serveFor at h ⊢
  cases requester with
  | none => cases h
  | some d =>
    dsimp only at h ⊢
    by_cases h1 : (sites.isEmpty || !c.hasData) = true
    · rw [if_pos h1] at h
      cases h
    · rw [if_neg h1] at h ⊢
      by_cases h2 : d.principalAllowed sites = false
      · rw [if_pos h2] at h
        cases h
      · rw [if_neg h2] at h ⊢
        by_cases h3 : c.changed seqNum = true
        · rw [if_pos h3] at h
          cases h
        · rw [if_neg h3]
          refine ⟨⟨d, rfl, by simpa using h2⟩, ?_, rfl⟩
          simp only [Bool.or_eq_true, not_or, Bool.not_eq_true', Bool.not_eq_false] at h1
          exact h1.2

theorem parentRead_internal {type : ClipboardType} {requester : Option Document}
    {flavors : List Str} {data : List (Str × Str)}
    (h : (parentRead sites c seqNum type requester flavors).2 = .internal data) :
    (∃ d, requester = some d ∧ d.principalAllowed sites = true) ∧ c.hasData = true ∧
      data = flavors.map fun flavor => (flavor, c.text) := by
  unfold parentRead at h
  by_cases ht : type = .global
  · rw [if_pos ht] at h
    dsimp only at h
    by_cases hs : (c.serveFor sites seqNum requester).2 = true
    · obtain ⟨hd, hdata, hc⟩ := serveFor_ok hs
      rw [if_pos hs, hc] at h
      cases h
      exact ⟨hd, hdata, rfl⟩
    · rw [if_neg hs] at h
      cases h
  · rw [if_neg ht] at h
    cases h

/-- Asked directly, the parent answers with its text exactly when that is live. -/
theorem recvGetDenInternalClipboard_of_live (hl : c.live seqNum = true) :
    c.recvGetDenInternalClipboard seqNum = (c, c.text, true) := by
  unfold ParentClipboard.live at hl
  rw [Bool.and_eq_true, Bool.not_eq_true'] at hl
  unfold ParentClipboard.recvGetDenInternalClipboard
  simp [hl.1, hl.2]

theorem recvGetDenInternalClipboard_of_not_live (hl : c.live seqNum = false) :
    (c.recvGetDenInternalClipboard seqNum).2.2 = false ∧
      (c.recvGetDenInternalClipboard seqNum).1.hasData = false := by
  unfold ParentClipboard.live at hl
  unfold ParentClipboard.recvGetDenInternalClipboard
  cases hd : c.hasData with
  | false => simp [hd]
  | true =>
    have hc : c.changed seqNum = true := by simpa [hd] using hl
    simp [hc, ParentClipboard.invalidate]

/-- With the flag raised and the text live, the document is not looked at. -/
theorem proxyRead_flagged {serve : Bool} (type : ClipboardType) (d : Document)
    (flavors : List Str) (hs : serve = true) (hl : c.live seqNum = true) :
    proxyRead sites serve c seqNum type d flavors = (c, buildInternal c.text flavors) := by
  unfold proxyRead
  rw [if_pos hs, recvGetDenInternalClipboard_of_live hl]
  rfl

/-- Internal text comes back through the proxy because the flag was raised, or because the
principal is listed. -/
theorem proxyRead_internal {serve : Bool} {type : ClipboardType} {d : Document}
    {flavors : List Str} {data : List (Str × Str)}
    (h : (proxyRead sites serve c seqNum type d flavors).2 = .internal data) :
    ((serve = true ∧ c.live seqNum = true) ∨ d.principalAllowed sites = true) ∧
      c.hasData = true ∧ data = flavors.map fun flavor => (flavor, c.text) := by
  by_cases hs : serve = true
  · cases hl : c.live seqNum with
    | true =>
      rw [proxyRead_flagged _ _ _ hs hl] at h
      cases h
      have hdata : c.hasData = true := by
        unfold ParentClipboard.live at hl
        rw [Bool.and_eq_true] at hl
        exact hl.1
      exact ⟨Or.inl ⟨hs, rfl⟩, hdata, rfl⟩
    | false =>
      -- the parent has nothing left, so its own handler finds nothing either
      obtain ⟨hnone, hgone⟩ := recvGetDenInternalClipboard_of_not_live hl
      unfold proxyRead at h
      rw [if_pos hs] at h
      dsimp only at h
      rw [hnone] at h
      have hhas := (parentRead_internal h).2.1
      rw [hgone] at hhas
      cases hhas
  · unfold proxyRead at h
    rw [if_neg hs] at h
    obtain ⟨⟨d', hd', hallowed⟩, hrest⟩ := parentRead_internal h
    cases hd'
    exact ⟨Or.inr hallowed, hrest⟩

/-! ### What the reads leave -/

/-- A read keeps the parent's text or drops it. -/
def ParentClipboard.Kept (c c' : ParentClipboard) : Prop := c' = c ∨ c'.hasData = false

theorem serveFor_kept (requester : Option Document) :
    c.Kept (c.serveFor sites seqNum requester).1 := by
  unfold ParentClipboard.serveFor
  repeat' split
  all_goals first
    | exact Or.inl rfl
    | exact Or.inr rfl

theorem parentRead_kept (c : ParentClipboard) (type : ClipboardType)
    (requester : Option Document) (flavors : List Str) :
    c.Kept (parentRead sites c seqNum type requester flavors).1 := by
  unfold parentRead
  split
  · exact serveFor_kept requester
  · exact Or.inl rfl

theorem proxyRead_kept (serve : Bool) (type : ClipboardType) (d : Document)
    (flavors : List Str) :
    c.Kept (proxyRead sites serve c seqNum type d flavors).1 := by
  by_cases hs : serve = true
  · cases hl : c.live seqNum with
    | true =>
      rw [proxyRead_flagged _ _ _ hs hl]
      exact Or.inl rfl
    | false =>
      obtain ⟨hnone, hgone⟩ := recvGetDenInternalClipboard_of_not_live hl
      have hk : (c.recvGetDenInternalClipboard seqNum).1.Kept (parentRead sites
          (c.recvGetDenInternalClipboard seqNum).1 seqNum type (some d) flavors).1 :=
        parentRead_kept _ type (some d) flavors
      unfold proxyRead
      rw [if_pos hs]
      dsimp only
      rw [hnone, if_neg Bool.false_ne_true]
      rcases hk with hk | hk
      · rw [hk]
        exact Or.inr hgone
      · exact Or.inr hk
  · unfold proxyRead
    rw [if_neg hs]
    exact parentRead_kept c type (some d) flavors

end Reads

/-! ## Where internal text comes from -/

section Runs

variable {sites : List Str} {seqNum : Option Int} {tr : List (ClipAct × ClipOut)}
  {w : ClipWorld}

/-- The text was captured from a listed site's copy. -/
def Captured (sites : List Str) (tr : List (ClipAct × ClipOut)) (text : Str) : Prop :=
  ∃ d, (ClipAct.setClipboard .global (some d) (some text), ClipOut.done) ∈ tr ∧
    d.principalAllowed sites = true

/-- What a step does to the parent's text: it keeps or drops it, or captures a listed site's
copy. -/
theorem step_parent (sites : List Str) (w : ClipWorld) (a : ClipAct) :
    w.parent.Kept (w.step sites a).1.parent ∨
      ∃ d text, a = .setClipboard .global (some d) (some text) ∧
        d.principalAllowed sites = true ∧ (w.step sites a).1.parent.text = text := by
  cases a with
  | fire p message d doDefault => exact Or.inl (Or.inl rfl)
  | setClipboard type window data =>
    simp only [ClipWorld.step, ParentClipboard.recvSetClipboard]
    split
    · rename_i d text
      split
      · rename_i hc
        obtain ⟨rfl, _, hd, _⟩ := hc
        exact Or.inr ⟨d, text, rfl, hd, rfl⟩
      · exact Or.inl (Or.inl rfl)
    · exact Or.inl (Or.inl rfl)
  | proxyRead p type d flavors => exact Or.inl (proxyRead_kept _ type d flavors)
  | parentRead type requester flavors => exact Or.inl (parentRead_kept _ type requester flavors)
  | hasType type flavors => exact Or.inl (Or.inl rfl)
  | external seqNum => exact Or.inl (Or.inl rfl)

/-- **Internal text was captured from a listed site**, in every state reached. -/
theorem captured_run (h : Run (clipboardSystem sites seqNum) tr w)
    (hdata : w.parent.hasData = true) : Captured sites tr w.parent.text := by
  revert hdata
  refine Run.invariant (fun tr w => w.parent.hasData = true → Captured sites tr w.parent.text)
    (by intro hinit; cases hinit) ?_ h
  intro tr w a w' out _ ih hs hdata
  simp only [clipboardSystem, Option.some.injEq] at hs
  have hlater : ∀ {text : Str}, Captured sites tr text →
      Captured sites (tr ++ [(a, out)]) text := by
    rintro text ⟨d, hmem, hd⟩
    exact ⟨d, List.mem_append_left _ hmem, hd⟩
  have hw : (w.step sites a).1 = w' := congrArg Prod.fst hs
  have hout : (w.step sites a).2 = out := congrArg Prod.snd hs
  rw [← hw] at hdata ⊢
  rcases step_parent sites w a with (hk | hk) | ⟨d, text, ha, hd, htext⟩
  · rw [hk] at hdata ⊢
    exact hlater (ih hdata)
  · rw [hk] at hdata
    cases hdata
  · rw [htext]
    refine ⟨d, List.mem_append_right _ ?_, hd⟩
    rw [← hout, ha, List.mem_singleton]
    rfl

/-! ## Confidentiality -/

/-- The document a read is made for. -/
def ClipAct.reader : ClipAct → Option Document
  | .proxyRead _ _ d _ => some d
  | .parentRead _ requester _ => requester
  | _ => none

/-- Internal text is returned for a listed document only. -/
def Confidential (sites : List Str) (e : ClipAct × ClipOut) : Prop :=
  ∀ data, e.2 = .read (.internal data) → data ≠ [] →
    ∃ d, e.1.reader = some d ∧ d.Listed sites

/-- A proxy read that finds its process's flag raised and the parent's text live is made for a
listed document (or asks for no flavor). -/
def FlagServesListed (sites : List Str) (w : ClipWorld) (a : ClipAct) : Prop :=
  ∀ p type d flavors, a = .proxyRead p type d flavors → w.serveFromInternal p = true →
    w.parent.live w.seqNum = true → flavors ≠ [] → d.Listed sites

theorem confidential_step (sites : List Str) (w : ClipWorld) (a : ClipAct) :
    FlagServesListed sites w a ↔ Confidential sites (a, (w.step sites a).2) := by
  constructor
  · intro hflag data hout hne
    cases a with
    | proxyRead p type d flavors =>
      have hread : (proxyRead sites (w.serveFromInternal p) w.parent w.seqNum type d
          flavors).2 = .internal data := by
        simpa [ClipWorld.step] using hout
      obtain ⟨hwhy, _, hdata⟩ := proxyRead_internal hread
      have hflavors : flavors ≠ [] := by
        rintro rfl
        exact hne hdata
      rcases hwhy with ⟨hserve, hlive⟩ | hallowed
      · exact ⟨d, rfl, hflag p type d flavors rfl hserve hlive hflavors⟩
      · exact ⟨d, rfl, Or.inr hallowed⟩
    | parentRead type requester flavors =>
      have hread : (parentRead sites w.parent w.seqNum type requester flavors).2 =
          .internal data := by
        simpa [ClipWorld.step] using hout
      obtain ⟨⟨d, hd, hallowed⟩, _⟩ := parentRead_internal hread
      exact ⟨d, hd, Or.inr hallowed⟩
    | fire p message d doDefault => cases hout
    | setClipboard type window data => cases hout
    | hasType type flavors => cases hout
    | external seqNum => cases hout
  · rintro hconf p type d flavors rfl hserve hlive hflavors
    have hread : proxyRead sites (w.serveFromInternal p) w.parent w.seqNum type d flavors =
        (w.parent, buildInternal w.parent.text flavors) :=
      proxyRead_flagged type d flavors hserve hlive
    obtain ⟨d', hd', hlisted⟩ := hconf (flavors.map fun flavor => (flavor, w.parent.text))
      (by simp only [ClipWorld.step, hread, buildInternal]) (by simpa using hflavors)
    cases hd'
    exact hlisted

/-- **When internal text stays with listed documents**: in exactly the runs in which no proxy
read for an unlisted document finds its process's flag raised and the parent's text live. -/
theorem clipboard_confidential_iff (h : Run (clipboardSystem sites seqNum) tr w) :
    (∀ e ∈ tr, Confidential sites e) ↔
      Meets (clipboardSystem sites seqNum) (FlagServesListed sites) tr := by
  symm
  refine Run.meets_iff ?_ h
  intro tr w a w' out _ hs
  simp only [clipboardSystem, Option.some.injEq] at hs
  have hout : (w.step sites a).2 = out := congrArg Prod.snd hs
  rw [← hout]
  exact confidential_step sites w a

end Runs

/-! ## Two runs -/

/-- A list with one site. -/
def docsOnly : List Str := ["docs.example.com".toList]

def docsPage : Document := ⟨"docs.example.com".toList, some "docs.example.com".toList⟩

/-- A page of the same site, hence of the same content process, that is not on the list. -/
def mailPage : Document := ⟨"mail.example.com".toList, some "mail.example.com".toList⟩

def plain : Str := "text/plain".toList

def copied : Str := "draft".toList

/-- A copy and a paste on the listed page, with the read that precedes the paste event. -/
def pasteTrace : List (ClipAct × ClipOut) :=
  [(.fire 0 .copy docsPage true, .fired true),
    (.setClipboard .global (some docsPage) (some copied), .done),
    (.proxyRead 0 .global docsPage [plain], .read (.internal [(plain, copied)])),
    (.fire 0 .paste docsPage true, .fired true),
    (.proxyRead 0 .global docsPage [plain], .read (.internal [(plain, copied)]))]

/-- Then a paste on the other page: its first read comes before `FireClipboardEvent` lowers the
flag. -/
def leakTrace : List (ClipAct × ClipOut) :=
  pasteTrace ++
    [(.proxyRead 0 .global mailPage [plain], .read (.internal [(plain, copied)])),
      (.fire 0 .paste mailPage true, .fired true)]

/-- The listed page's own copy and paste meets the condition. -/
theorem clipboard_confidential_paste : ∃ w,
    Run (clipboardSystem docsOnly (some 7)) pasteTrace w ∧
      Meets (clipboardSystem docsOnly (some 7)) (FlagServesListed docsOnly) pasteTrace := by
  have hx : (exec (clipboardSystem docsOnly (some 7)) (pasteTrace.map Prod.fst)).map
      (fun (p : List (ClipAct × ClipOut) × ClipWorld) => p.1) = some pasteTrace := by
    decide +kernel
  obtain ⟨⟨tr, w⟩, he, rfl⟩ := Option.map_eq_some_iff.1 hx
  have hrun := exec_run he
  refine ⟨w, hrun, (clipboard_confidential_iff hrun).1 ?_⟩
  have hlisted : docsPage.Listed docsOnly := Or.inl (by decide)
  intro e he data hout _
  simp only [pasteTrace, List.mem_cons, List.not_mem_nil, or_false] at he
  rcases he with rfl | rfl | rfl | rfl | rfl
  · cases hout
  · cases hout
  · exact ⟨docsPage, rfl, hlisted⟩
  · cases hout
  · exact ⟨docsPage, rfl, hlisted⟩

/-- **A flag raised by one page's paste serves another page**: text captured from the listed
page is returned to a read made for a page that is not on the list. -/
theorem clipboard_leak : ∃ w, Run (clipboardSystem docsOnly (some 7)) leakTrace w ∧
    Captured docsOnly leakTrace copied ∧
    (.proxyRead 0 .global mailPage [plain], .read (.internal [(plain, copied)])) ∈ leakTrace ∧
    ¬mailPage.Listed docsOnly ∧ ¬∀ e ∈ leakTrace, Confidential docsOnly e := by
  have hx : (exec (clipboardSystem docsOnly (some 7)) (leakTrace.map Prod.fst)).map
      (fun (p : List (ClipAct × ClipOut) × ClipWorld) => p.1) = some leakTrace := by
    decide +kernel
  obtain ⟨⟨tr, w⟩, he, rfl⟩ := Option.map_eq_some_iff.1 hx
  have hread : (ClipAct.proxyRead 0 .global mailPage [plain],
      ClipOut.read (.internal [(plain, copied)])) ∈ leakTrace := by decide
  have hunlisted : ¬mailPage.Listed docsOnly := by
    rintro (h | h)
    · revert h
      decide
    · revert h
      decide
  refine ⟨w, exec_run he, ⟨docsPage, by decide, by decide⟩, hread, hunlisted, fun hall => ?_⟩
  obtain ⟨d, hd, hlisted⟩ := hall _ hread [(plain, copied)] rfl (by simp)
  cases hd
  exact hunlisted hlisted

end DenBrowser
