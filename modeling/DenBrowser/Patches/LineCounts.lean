import DenBrowser.Patches.ZeroContext

/-!
# The lines that the statistics count

The script numbers the lines of a file by `str.splitlines`, and `git` by newlines.  The numbers
agree exactly when the file has no other line break inside it.

* `classified` — the categories of a clean file are those of the lines that `git` counts;
* `clean_of_classified` — one category for each of them is had by a clean file only;
* `fileReport_faithful` — when the report counts the lines of the diff.
-/

set_option autoImplicit false

namespace DenBrowser.PatchStats

/-- The categories of a file by the lines that `git` counts. -/
def gitClasses (u : Unicode) (blob : Option Blob) : Except ReportError (List Category) :=
  match blob with
  | none => .ok []
  | some b => classesOf u b.path ((gitLines b.data).map lineText)

/-- One category for each line that `git` counts, and that line's own. -/
structure Classified (u : Unicode) (blob : Option Blob) (categories : List Category) : Prop where
  classes : classes u blob = .ok categories
  own : gitClasses u blob = .ok categories
  length : categories.length = (gitLines (dataOf blob)).length

/-- The report has, for each line of the diff, the category of the line that `git` numbers, and
the totals of `git diff --numstat`. -/
def Faithful (u : Unicode) (old new : Option Blob) (d : Diff (dataOf old) (dataOf new)) : Prop :=
  ∃ oldClasses newClasses, Classified u old oldClasses ∧ Classified u new newClasses ∧
    fileReport u old new d.bytes = .ok { counts := d.counted oldClasses newClasses } ∧
    ((d.counted oldClasses newClasses).totalAdded,
      (d.counted oldClasses newClasses).totalDeleted) = d.numstat

/-- The script knows how comments are written in the file. -/
def Readable (u : Unicode) (blob : Option Blob) : Prop :=
  ∀ b, blob = some b → b.data ≠ [] → ∃ syn, syntaxForPath u b.path = .ok syn

/-- What the report depends on. -/
structure Countable (u : Unicode) (old new : Option Blob) (diff : Bytes) : Prop where
  oldClean : Clean (dataOf old)
  newClean : Clean (dataOf new)
  oldReadable : Readable u old
  newReadable : Readable u new
  noBinaryFiles : occursIn (asBytes "Binary files ".toList) diff = false
  noBinaryPatch : occursIn (asBytes "GIT binary patch".toList) diff = false

/-! ## The categories -/

theorem length_classesOf {u : Unicode} {path : Str} {lines : List Str}
    {categories : List Category} (h : classesOf u path lines = .ok categories) :
    categories.length = lines.length := by
  unfold classesOf at h
  split at h
  · rename_i hnil
    cases h
    rw [hnil]
    rfl
  · cases hsyn : syntaxForPath u path with
    | error e =>
      rw [hsyn] at h
      cases h
    | ok syn =>
      rw [hsyn] at h
      cases h
      exact length_classifyLines u syn lines true .plain

theorem splitlines_eq_nil {data : Bytes} : splitlines data = [] ↔ data = [] := by
  unfold splitlines Lines.splitLines
  rw [Lines.splitFrom_eq_nil, Utf8Replace.decode_eq_nil]

/-- **Clean** is what having as many lines as `git` counts comes to. -/
theorem length_splitlines {data : Bytes} :
    (splitlines data).length = (gitLines data).length ↔ Clean data := by
  have hgit : (gitLines data).length = (Lines.chunks '\n' (Utf8Replace.decode data)).length := by
    have h := congrArg List.length (decode_chunks data)
    rw [List.length_map, List.length_map] at h
    exact h
  unfold splitlines Clean
  rw [Lines.length_splitLines boundary_newline, hgit, ← Lines.strays_eq_zero]
  omega

theorem classified {u : Unicode} {blob : Option Blob} (hclean : Clean (dataOf blob))
    (hreadable : Readable u blob) : ∃ categories, Classified u blob categories := by
  cases blob with
  | none => exact ⟨[], rfl, rfl, rfl⟩
  | some b =>
    have hrel := Lines.splitLines_related boundary_newline hclean
    rw [← decode_chunks] at hrel
    have hlen : ((gitLines b.data).map lineText).length = (splitlines b.data).length :=
      hrel.length_eq.symm
    by_cases hdata : b.data = []
    · refine ⟨[], ?_, ?_, ?_⟩
      · show classesOf u b.path (splitlines b.data) = .ok []
        unfold classesOf
        rw [if_pos (splitlines_eq_nil.2 hdata)]
      · show classesOf u b.path _ = .ok []
        rw [hdata]
        rfl
      · show 0 = (gitLines b.data).length
        rw [hdata]
        rfl
    · obtain ⟨syn, hsyn⟩ := hreadable b rfl hdata
      have hne : splitlines b.data ≠ [] := fun h => hdata (splitlines_eq_nil.1 h)
      have hne' : (gitLines b.data).map lineText ≠ [] := by
        intro h
        rw [h] at hlen
        exact hne (List.length_eq_zero_iff.1 hlen.symm)
      refine ⟨classifyLines u syn true .plain (splitlines b.data), ?_, ?_, ?_⟩
      · show classesOf u b.path (splitlines b.data) = _
        unfold classesOf
        rw [if_neg hne, hsyn]
        rfl
      · show classesOf u b.path _ = _
        unfold classesOf
        rw [if_neg hne', hsyn]
        exact congrArg Except.ok (classifyLines_space isSpace_of_boundary u syn hrel true .plain)
      · rw [length_classifyLines, ← hlen, List.length_map]
        rfl

theorem clean_of_classified {u : Unicode} {blob : Option Blob} {categories : List Category}
    (h : Classified u blob categories) : Clean (dataOf blob) ∧ Readable u blob := by
  cases blob with
  | none =>
    refine ⟨length_splitlines.1 rfl, ?_⟩
    intro b hb
    cases hb
  | some b =>
    have hclasses : classesOf u b.path (splitlines b.data) = .ok categories := h.classes
    constructor
    · apply length_splitlines.1
      show (splitlines b.data).length = _
      rw [← length_classesOf hclasses]
      exact h.length
    · intro b' hb' hdata
      cases hb'
      unfold classesOf at hclasses
      rw [if_neg fun hnil => hdata (splitlines_eq_nil.1 hnil)] at hclasses
      cases hsyn : syntaxForPath u b.path with
      | error e =>
        rw [hsyn] at hclasses
        cases hclasses
      | ok syn => exact ⟨syn, rfl⟩

/-! ## The totals -/

theorem totals_recordAll (side : Side) (categories : List Category) : ∀ counts : Counts,
    (recordAll counts side categories).totalAdded =
        counts.totalAdded + side.pick 0 categories.length ∧
      (recordAll counts side categories).totalDeleted =
        counts.totalDeleted + side.pick categories.length 0 := by
  induction categories with
  | nil =>
    intro counts
    cases side with
    | deleted => exact ⟨rfl, rfl⟩
    | added => exact ⟨rfl, rfl⟩
  | cons c cs ih =>
    intro counts
    have hone : (counts.record side c).totalAdded = counts.totalAdded + side.pick 0 1 ∧
        (counts.record side c).totalDeleted = counts.totalDeleted + side.pick 1 0 := by
      cases side <;> cases c <;>
        simp only [Counts.record, Counts.totalAdded, Counts.totalDeleted, Side.pick] <;> omega
    have hrest := ih (counts.record side c)
    have hstep : recordAll counts side (c :: cs) = recordAll (counts.record side c) side cs := rfl
    rw [hstep, List.length_cons]
    cases side with
    | deleted =>
      simp only [Side.pick] at hone hrest ⊢
      omega
    | added =>
      simp only [Side.pick] at hone hrest ⊢
      omega

theorem totals_hunks (oldClasses newClasses : List Category) {hunks : List Hunk}
    (hold : ∀ h ∈ hunks, h.oldPos + h.deleted.length ≤ oldClasses.length)
    (hnew : ∀ h ∈ hunks, h.newPos + h.added.length ≤ newClasses.length) : ∀ counts : Counts,
    (hunks.foldl (Hunk.counted oldClasses newClasses) counts).totalAdded =
        counts.totalAdded + (hunks.map fun h => h.added.length).sum ∧
      (hunks.foldl (Hunk.counted oldClasses newClasses) counts).totalDeleted =
        counts.totalDeleted + (hunks.map fun h => h.deleted.length).sum := by
  induction hunks with
  | nil =>
    intro counts
    exact ⟨rfl, rfl⟩
  | cons h hunks ih =>
    intro counts
    have h1 := hold h List.mem_cons_self
    have h2 := hnew h List.mem_cons_self
    have hdel := totals_recordAll .deleted
      ((oldClasses.drop h.oldPos).take h.deleted.length) counts
    have hadd := totals_recordAll .added ((newClasses.drop h.newPos).take h.added.length)
      (recordAll counts .deleted ((oldClasses.drop h.oldPos).take h.deleted.length))
    have hrest := ih (fun g hg => hold g (List.mem_cons_of_mem _ hg))
      (fun g hg => hnew g (List.mem_cons_of_mem _ hg)) (h.counted oldClasses newClasses counts)
    have hcounted : h.counted oldClasses newClasses counts = recordAll
        (recordAll counts .deleted ((oldClasses.drop h.oldPos).take h.deleted.length)) .added
        ((newClasses.drop h.newPos).take h.added.length) := rfl
    rw [hcounted] at hrest
    simp only [Side.pick, List.length_take, List.length_drop, List.foldl_cons, List.map_cons,
      List.sum_cons, hcounted] at hdel hadd hrest ⊢
    omega

/-! ## The report -/

theorem isBinary_eq_false {old new diff : Bytes} (hold : 0 ∉ old) (hnew : 0 ∉ new) :
    isBinary old new diff = false ↔ occursIn (asBytes "Binary files ".toList) diff = false ∧
      occursIn (asBytes "GIT binary patch".toList) diff = false := by
  have hold' : old.contains 0 = false := by simpa using hold
  have hnew' : new.contains 0 = false := by simpa using hnew
  unfold isBinary
  rw [hold', hnew']
  simp

/-- **The report counts the right lines** exactly when neither file has a line break other than a
newline in it, each of them is of a kind the script knows, and the diff does not have the words
that `git` prints for a binary file. -/
theorem fileReport_faithful (u : Unicode) (old new : Option Blob)
    (d : Diff (dataOf old) (dataOf new)) (hold : 0 ∉ dataOf old) (hnew : 0 ∉ dataOf new) :
    Faithful u old new d ↔ Countable u old new d.bytes := by
  have hbinary := @isBinary_eq_false _ _ d.bytes hold hnew
  constructor
  · rintro ⟨o, n, ho, hn, hreport, -⟩
    obtain ⟨oldClean, oldReadable⟩ := clean_of_classified ho
    obtain ⟨newClean, newReadable⟩ := clean_of_classified hn
    have htext : isBinary (dataOf old) (dataOf new) d.bytes = false := by
      by_contra hbin
      have hbin : isBinary (dataOf old) (dataOf new) d.bytes = true := by simpa using hbin
      unfold fileReport at hreport
      rw [if_pos hbin] at hreport
      cases congrArg FileReport.binary (Except.ok.inj hreport)
    obtain ⟨h1, h2⟩ := hbinary.1 htext
    exact ⟨oldClean, newClean, oldReadable, newReadable, h1, h2⟩
  · intro h
    obtain ⟨o, ho⟩ := classified h.oldClean h.oldReadable
    obtain ⟨n, hn⟩ := classified h.newClean h.newReadable
    have htext := hbinary.2 ⟨h.noBinaryFiles, h.noBinaryPatch⟩
    have hcounts := parseHunks_diff o n d h.oldClean h.newClean ho.length hn.length
    refine ⟨o, n, ho, hn, ?_, ?_⟩
    · unfold fileReport
      rw [if_neg (by rw [htext]; decide), ho.classes, hn.classes]
      show ((parseHunks d.bytes o n).bind fun counts => .ok ({ counts := counts } : FileReport)) = _
      rw [hcounts]
      rfl
    · have holdPos : ∀ g ∈ d.hunks, g.oldPos + g.deleted.length ≤ o.length := by
        intro g hg
        have := (d.fits hg).oldPos.2
        rw [ho.length]
        omega
      have hnewPos : ∀ g ∈ d.hunks, g.newPos + g.added.length ≤ n.length := by
        intro g hg
        have := (d.fits hg).newPos.2
        rw [hn.length]
        omega
      obtain ⟨hadd, hdel⟩ := totals_hunks o n holdPos hnewPos {}
      have hzero : Counts.totalAdded {} = 0 ∧ Counts.totalDeleted {} = 0 := ⟨rfl, rfl⟩
      unfold Diff.counted Diff.numstat
      rw [hadd, hdel, hzero.1, hzero.2, Nat.zero_add, Nat.zero_add]

/-! ## A carriage return and a form feed -/

/-- The tables of Python on ASCII. -/
def ascii : Unicode := ⟨fun s => s.map Char.toLower, Char.isAlphanum⟩

def page (text : String) : Blob := ⟨"page.c".toList, asBytes text.toList⟩

theorem page_readable (text : String) : Readable ascii (some (page text)) := by
  intro b hb _
  cases hb
  have hsyn : syntaxForPath ascii "page.c".toList = .ok C_LIKE := by decide
  exact ⟨C_LIKE, hsyn⟩

/-- A comment after the first line of a file with carriage returns. -/
def comment : Diff (dataOf (some (page "int x;\r\n"))) (dataOf (some (page "int x;\r\n// x\r\n")))
    where
  header := [asBytes "--- a/page.c".toList, asBytes "+++ b/page.c".toList]
  hunks := [⟨1, 1, [], [asBytes "// x\r\n".toList], []⟩]
  printable := by decide +kernel
  notHunk := by decide
  between := .hunk [asBytes "int x;\r\n".toList] ⟨1, 1, [], [asBytes "// x\r\n".toList], []⟩
    rfl rfl (.done 1 2 [])
  heading := by decide

theorem fileReport_faithful_comment :
    Faithful ascii (some (page "int x;\r\n")) (some (page "int x;\r\n// x\r\n")) comment :=
  (fileReport_faithful ascii _ _ comment (by decide) (by decide)).2
    ⟨by decide, by decide, page_readable _, page_readable _, by decide +kernel, by decide +kernel⟩

/-- The second line of a file goes, after a form feed. -/
def formFeed : Diff (dataOf (some (page "\x0c\nint x;\n"))) (dataOf (some (page "\x0c\n"))) where
  header := [asBytes "--- a/page.c".toList, asBytes "+++ b/page.c".toList]
  hunks := [⟨1, 1, [asBytes "int x;\n".toList], [], []⟩]
  printable := by decide +kernel
  notHunk := by decide
  between := .hunk [asBytes "\x0c\n".toList] ⟨1, 1, [asBytes "int x;\n".toList], [], []⟩ rfl rfl
    (.done 2 1 [])
  heading := by decide

/-- The line of code is counted as a blank. -/
theorem fileReport_formFeed :
    fileReport ascii (some (page "\x0c\nint x;\n")) (some (page "\x0c\n")) formFeed.bytes =
        .ok { counts := { blankDeleted := 1 } } ∧
      gitClasses ascii (some (page "\x0c\nint x;\n")) = .ok [.blank, .code] ∧
      ¬Faithful ascii (some (page "\x0c\nint x;\n")) (some (page "\x0c\n")) formFeed := by
  have hclasses : classes ascii (some (page "\x0c\nint x;\n")) =
      .ok [.blank, .blank, .code] := by decide +kernel
  refine ⟨by decide +kernel, by decide +kernel, ?_⟩
  rintro ⟨o, n, ho, -⟩
  have hsame := Except.ok.inj (hclasses.symm.trans ho.classes)
  have hlen := ho.length
  rw [← hsame] at hlen
  revert hlen
  decide

end DenBrowser.PatchStats
