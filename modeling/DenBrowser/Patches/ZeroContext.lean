import DenBrowser.Lockdown.ScriptReads
import DenBrowser.Patches.PatchStats
import Mathlib.Algebra.GroupWithZero.Nat

/-!
# A diff without context lines

`git` numbers the lines of a file by its newlines.  A diff without context names, hunk by hunk,
the lines of the old file that go and those of the new file that come; between the hunks the files
are the same.

* `Diff` — such a diff, and `Diff.bytes` what `git` prints;
* `parseLines_hunk` — how the script reads one hunk;
* `parseHunks_diff` — and the whole diff.
-/

set_option autoImplicit false

namespace DenBrowser.PatchStats

open Lockdown

/-! ## The diff -/

/-- The lines of a file, each with its newline. -/
def gitLines (data : Bytes) : List Bytes := Lines.chunks 10 data

/-- A line without its newline, decoded. -/
def lineText (line : Bytes) : Str := Utf8Replace.decode (Lines.content 10 line)

structure Hunk where
  /-- How many lines come before it in the old file. -/
  oldPos : Nat
  newPos : Nat
  deleted : List Bytes
  added : List Bytes
  /-- The part of a line that follows the second `@@`. -/
  heading : Bytes
  deriving DecidableEq

/-- The hunks lead from the lines `old` to the lines `new`, which `i` and `j` lines come before. -/
inductive Between : Nat → Nat → List Hunk → List Bytes → List Bytes → Prop
  | done (i j : Nat) (common : List Bytes) : Between i j [] common common
  | hunk {i j : Nat} {hunks : List Hunk} {old new : List Bytes} (common : List Bytes) (h : Hunk)
      (oldPos : h.oldPos = i + common.length) (newPos : h.newPos = j + common.length)
      (rest : Between (h.oldPos + h.deleted.length) (h.newPos + h.added.length) hunks old new) :
      Between i j (h :: hunks) (common ++ (h.deleted ++ old)) (common ++ (h.added ++ new))

/-- A diff from one file to another.  A path with other bytes than printable ASCII is quoted in
the header lines, and a heading is taken from a line of the old file. -/
structure Diff (old new : Bytes) where
  header : List Bytes
  hunks : List Hunk
  printable : ∀ l ∈ header, ∀ b ∈ l, b.toNat = 9 ∨ 32 ≤ b.toNat ∧ b.toNat < 127
  notHunk : ∀ l ∈ header, l.head? ≠ some 64
  between : Between 0 0 hunks (gitLines old) (gitLines new)
  heading : ∀ h ∈ hunks, h.heading = [] ∨
    ∃ l ∈ gitLines old, h.heading <:+: Lines.content 10 l

/-- The first line of a range: the line before it where the range is empty. -/
def firstLine (pos count : Nat) : Nat := if count = 0 then pos else pos + 1

/-- A range; the count is left out where it is one. -/
def rangeText (pos count : Nat) : Str :=
  Nat.toDigits 10 (firstLine pos count) ++
    if count = 1 then [] else ',' :: Nat.toDigits 10 count

def Hunk.ranges (h : Hunk) : Str :=
  "@@ -".toList ++ (rangeText h.oldPos h.deleted.length ++ (" +".toList ++
    (rangeText h.newPos h.added.length ++ " @@".toList)))

/-- The line of a hunk, without its newline. -/
def Hunk.title (h : Hunk) : Bytes :=
  asBytes h.ranges ++ if h.heading = [] then [] else 32 :: h.heading

def noNewline : Bytes := asBytes "\\ No newline at end of file".toList

/-- The lines a line of a file is printed as. -/
def bodyLines (sign : UInt8) (line : Bytes) : List Bytes :=
  (sign :: Lines.content 10 line) :: if line.getLast? = some 10 then [] else [noNewline]

def Hunk.lines (h : Hunk) : List Bytes :=
  h.title :: (h.deleted.flatMap (bodyLines 45) ++ h.added.flatMap (bodyLines 43))

variable {old new : Bytes}

def Diff.lines (d : Diff old new) : List Bytes := d.header ++ d.hunks.flatMap Hunk.lines

/-- What `git diff --unified=0` prints. -/
def Diff.bytes (d : Diff old new) : Bytes := d.lines.flatMap fun l => l ++ [10]

/-- What `git diff --numstat` prints. -/
def Diff.numstat (d : Diff old new) : Nat × Nat :=
  ((d.hunks.map fun h => h.added.length).sum, (d.hunks.map fun h => h.deleted.length).sum)

/-! ## Where the hunks are -/

/-- The lines of a hunk are lines of the files, in their places. -/
structure Hunk.Fits (h : Hunk) (i j : Nat) (old new : List Bytes) : Prop where
  deleted : (old.drop (h.oldPos - i)).take h.deleted.length = h.deleted
  added : (new.drop (h.newPos - j)).take h.added.length = h.added
  oldPos : i ≤ h.oldPos ∧ h.oldPos + h.deleted.length ≤ i + old.length
  newPos : j ≤ h.newPos ∧ h.newPos + h.added.length ≤ j + new.length

theorem Between.fits {i j : Nat} {hunks : List Hunk} {old new : List Bytes}
    (b : Between i j hunks old new) : ∀ h ∈ hunks, h.Fits i j old new := by
  induction b with
  | done i j common =>
    intro h hh
    cases hh
  | @hunk i j hunks old new common h oldPos newPos rest ih =>
    intro g hg
    rcases List.mem_cons.1 hg with rfl | hg
    · have hold : g.oldPos - i = common.length := by omega
      have hnew : g.newPos - j = common.length := by omega
      refine ⟨?_, ?_, ⟨by omega, ?_⟩, ⟨by omega, ?_⟩⟩
      · rw [hold, List.drop_left, List.take_left]
      · rw [hnew, List.drop_left, List.take_left]
      · simp only [List.length_append]
        omega
      · simp only [List.length_append]
        omega
    · obtain ⟨hdel, hadd, hold, hnew⟩ := ih g hg
      have hsplit : ∀ (pos k : Nat) (x : List Bytes), k + (common.length + x.length) ≤ pos →
          pos - k = common.length + (x.length + (pos - (k + common.length + x.length))) := by
        intro pos k x h
        omega
      have hdrop : ∀ (x y : List Bytes) (n : Nat),
          (common ++ (x ++ y)).drop (common.length + (x.length + n)) = y.drop n := by
        intro x y n
        rw [← List.drop_drop, List.drop_left, ← List.drop_drop, List.drop_left]
      refine ⟨?_, ?_, ⟨by omega, ?_⟩, ⟨by omega, ?_⟩⟩
      · rw [hsplit g.oldPos i h.deleted (by omega), hdrop, ← oldPos]
        exact hdel
      · rw [hsplit g.newPos j h.added (by omega), hdrop, ← newPos]
        exact hadd
      · simp only [List.length_append]
        omega
      · simp only [List.length_append]
        omega

theorem Diff.fits (d : Diff old new) {h : Hunk} (hh : h ∈ d.hunks) :
    h.Fits 0 0 (gitLines old) (gitLines new) :=
  d.between.fits h hh

/-! ## The lines of the text -/

theorem boundary_newline : isBoundary '\n' = true := by decide

theorem not_boundary_of_printable {c : Char} (h : c.toNat = 9 ∨ 32 ≤ c.toNat ∧ c.toNat < 127) :
    isBoundary c = false := by
  unfold isBoundary
  rw [← Bool.not_eq_true, List.contains_iff_mem]
  simp only [List.mem_cons, List.not_mem_nil, or_false]
  omega

theorem toNat_ofNat_ascii {n : Nat} (h : n < 128) : (Char.ofNat n).toNat = n := by
  revert n; decide

theorem decode_asBytes {s : Str} (h : ∀ c ∈ s, c.toNat < 128) (bs : Bytes) :
    Utf8Replace.decode (asBytes s ++ bs) = s ++ Utf8Replace.decode bs := by
  induction s with
  | nil => rfl
  | cons c s ih =>
    obtain ⟨hc, hs⟩ := List.forall_mem_cons.1 h
    have hn : (UInt8.ofNat c.toNat).toNat = c.toNat :=
      UInt8.toNat_ofNat_of_lt' (Nat.lt_trans hc (by decide))
    have hchar : Char.ofNat (UInt8.ofNat c.toNat).toNat = c := by rw [hn, Char.ofNat_toNat]
    have hbytes : asBytes (c :: s) ++ bs = UInt8.ofNat c.toNat :: (asBytes s ++ bs) := by
      show (String.utf8EncodeChar c ++ asBytes s) ++ bs = _
      rw [utf8EncodeChar_ascii hc]
      rfl
    rw [hbytes, Utf8Replace.decode_cons_ascii (by omega), hchar, ih hs]
    rfl

/-- The lines the script sees in one line of the diff. -/
def pieces (l : Bytes) : List Str :=
  Lines.splitLines isBoundary (Utf8Replace.decode l ++ ['\n'])

theorem splitlines_flatMap (ls : List Bytes) :
    splitlines (ls.flatMap fun l => l ++ [10]) = ls.flatMap pieces := by
  induction ls with
  | nil => rfl
  | cons l ls ih =>
    have hbytes : (l :: ls).flatMap (fun l => l ++ [10]) =
        l ++ 10 :: ls.flatMap fun l => l ++ [10] := by
      rw [List.flatMap_cons, List.append_assoc]
      rfl
    have hdecode := Utf8Replace.decode_ascii (x := 10) (by decide) l
      (ls.flatMap fun l => l ++ [10])
    unfold splitlines at ih ⊢
    rw [hbytes, hdecode, List.flatMap_cons, ← ih]
    exact Lines.splitLines_newline boundary_newline _ _

/-- A line of the diff with a break at most at its end is one line, and empty ones. -/
theorem pieces_endBreak {l : Bytes} {c : Char} {g : Str} (hl : Utf8Replace.decode l = c :: g)
    (hc : isBoundary c = false) (hg : Lines.EndBreak isBoundary g) :
    ∃ t rest, pieces l = (c :: t) :: rest ∧ Lines.Same isBoundary t g ∧ ∀ r ∈ rest, r = [] := by
  obtain ⟨t, hsame, hfree⟩ := hg.same
  have hfree' : ∀ d ∈ c :: t, isBoundary d = false := by
    intro d hd
    rcases List.mem_cons.1 hd with rfl | hd
    · exact hc
    · exact hfree d hd
  obtain ⟨rest, hrest, hempty⟩ :=
    Lines.splitLines_same boundary_newline (hsame.cons c) hfree'
  refine ⟨t, rest, ?_, hsame, hempty⟩
  unfold pieces
  rw [hl]
  exact hrest

theorem decode_chunks (data : Bytes) :
    (gitLines data).map lineText =
      (Lines.chunks '\n' (Utf8Replace.decode data)).map (Lines.content '\n') := by
  unfold gitLines
  have hfree : ∀ u : Bytes, 10 ∉ u → '\n' ∉ Utf8Replace.decode u := fun u hu h =>
    hu (Utf8Replace.mem_of_lt (by decide) (by decide) h)
  induction data using Lines.chunks_induction (10 : UInt8) with
  | nil => rfl
  | line u cs hu ih =>
    rw [Lines.chunks_append 10 hu, Utf8Replace.decode_ascii (by decide), List.map_cons, ih]
    have hnl : Char.ofNat (UInt8.toNat 10) = '\n' := by decide
    rw [hnl, Lines.chunks_append '\n' (hfree u hu), List.map_cons, Lines.content_newline]
    unfold lineText
    rw [Lines.content_newline]
  | last u hu hne =>
    have hne' : Utf8Replace.decode u ≠ [] := fun h => hne (Utf8Replace.decode_eq_nil.1 h)
    rw [Lines.chunks_of_not_mem 10 hu hne, Lines.chunks_of_not_mem '\n' (hfree u hu) hne',
      List.map_singleton, List.map_singleton, Lines.content_of_not_mem _ (hfree u hu)]
    unfold lineText
    rw [Lines.content_of_not_mem _ hu]

/-- No line break but newlines, carriage returns before one, and the end of the file. -/
def Clean (data : Bytes) : Prop := Lines.Clean isBoundary (Utf8Replace.decode data)

instance (data : Bytes) : Decidable (Clean data) := by
  unfold Clean
  infer_instance

theorem Clean.endBreak {data : Bytes} (h : Clean data) {l : Bytes} (hl : l ∈ gitLines data) :
    Lines.EndBreak isBoundary (lineText l) := by
  apply Lines.endBreak_of_clean boundary_newline h
  rw [← decode_chunks]
  exact List.mem_map_of_mem hl

/-- So does a part of a line. -/
theorem Clean.endBreak_infix {data : Bytes} (h : Clean data) {l part : Bytes}
    (hl : l ∈ gitLines data) (hpart : part <:+: Lines.content 10 l) :
    Lines.EndBreak isBoundary (Utf8Replace.decode part) := by
  obtain ⟨n, before, mid, rest, tail, hdecode, hline, htail⟩ := Utf8Replace.decode_infix hpart
  have hend : Lines.EndBreak isBoundary (before ++ (mid ++ rest)) := by
    rw [← List.append_assoc, ← hline]
    exact h.endBreak hl
  have hend := hend.of_append
  have hreplicate : ∀ c ∈ List.replicate n Utf8Replace.replacement, isBoundary c = false := by
    intro c hc
    rw [List.eq_of_mem_replicate hc]
    decide
  rw [hdecode, List.append_assoc]
  apply Lines.EndBreak.append hreplicate
  rcases htail with rfl | ⟨rfl, hrest⟩
  · rw [List.append_nil]
    intro c hc
    by_cases hrest : rest = []
    · rw [hrest, List.append_nil] at hend
      exact hend c hc
    · exact hend.front hrest c (List.dropLast_subset _ hc)
  · apply Lines.EndBreak.append (hend.front hrest)
    intro c hc
    cases hc

/-! ## The line of a hunk -/

theorem isDigit_toDigits {n : Nat} {c : Char} (h : c ∈ Nat.toDigits 10 n) : c.isDigit = true :=
  Nat.isDigit_of_mem_toDigits (by decide) (by decide) h

theorem magnitude_toDigits (n : Nat) : magnitude (Nat.toDigits 10 n) = n := by
  rw [digitsValue_eq_magnitude fun c hc => isDigit_toDigits hc]
  exact Nat.ofDigitChars_ten_toDigits

theorem number_toDigits (n : Nat) {c : Char} (hc : decimal c = none) (s : Str) :
    number (Nat.toDigits 10 n ++ c :: s) = some (n, c :: s) := by
  have hdigit : ∀ d ∈ Nat.toDigits 10 n, (decimal d).isSome = true := by
    intro d hd
    rw [decimal_of_isDigit (isDigit_toDigits hd)]
    rfl
  have htake : (Nat.toDigits 10 n ++ c :: s).takeWhile (fun d => (decimal d).isSome) =
      Nat.toDigits 10 n := by
    rw [List.takeWhile_append_of_pos hdigit]
    simp [hc]
  unfold number
  dsimp only
  rw [htake, if_neg Nat.toDigits_ne_nil, magnitude_toDigits, List.drop_left]

theorem literal_append (t s : Str) : literal t (t ++ s) = some s := by
  unfold literal
  rw [if_pos (by simp), List.drop_left]

theorem lineCount_count (n : Nat) (s : Str) :
    lineCount (',' :: (Nat.toDigits 10 n ++ ' ' :: s)) = ' ' :: s := by
  have hcomma : literal [','] (',' :: (Nat.toDigits 10 n ++ ' ' :: s)) =
      some (Nat.toDigits 10 n ++ ' ' :: s) := literal_append [','] _
  unfold lineCount
  rw [hcomma, Option.bind_some, number_toDigits n (by decide)]

theorem lineCount_space (s : Str) : lineCount (' ' :: s) = ' ' :: s := by
  have hcomma : literal [','] (' ' :: s) = none := by
    unfold literal
    rw [if_neg (by simp)]
  unfold lineCount
  rw [hcomma, Option.bind_none]

/-- A range is read back: its first line, and its count passed over. -/
theorem number_rangeText (pos count : Nat) (s : Str) :
    ∃ r, number (rangeText pos count ++ ' ' :: s) = some (firstLine pos count, r) ∧
      lineCount r = ' ' :: s := by
  unfold rangeText
  by_cases hcount : count = 1
  · refine ⟨' ' :: s, ?_, lineCount_space s⟩
    rw [if_pos hcount, List.append_nil]
    exact number_toDigits _ (by decide) s
  · refine ⟨',' :: (Nat.toDigits 10 count ++ ' ' :: s), ?_, lineCount_count count s⟩
    rw [if_neg hcount, List.append_assoc]
    exact number_toDigits _ (by decide) _

theorem hunkStart_ranges (h : Hunk) (s : Str) :
    hunkStart (h.ranges ++ s) = some (firstLine h.oldPos h.deleted.length,
      firstLine h.newPos h.added.length) := by
  have hshape : h.ranges ++ s = "@@ -".toList ++ (rangeText h.oldPos h.deleted.length ++
      ' ' :: ('+' :: (rangeText h.newPos h.added.length ++ ' ' :: ("@@".toList ++ s)))) := by
    unfold Hunk.ranges
    simp
  obtain ⟨r, hr, hcount⟩ := number_rangeText h.oldPos h.deleted.length
    ('+' :: (rangeText h.newPos h.added.length ++ ' ' :: ("@@".toList ++ s)))
  obtain ⟨r', hr', hcount'⟩ := number_rangeText h.newPos h.added.length ("@@".toList ++ s)
  have hplus : literal " +".toList (' ' :: ('+' :: (rangeText h.newPos h.added.length ++
      ' ' :: ("@@".toList ++ s)))) = some (rangeText h.newPos h.added.length ++
      ' ' :: ("@@".toList ++ s)) := literal_append " +".toList _
  have hend : literal " @@".toList (' ' :: ("@@".toList ++ s)) = some s :=
    literal_append " @@".toList s
  unfold hunkStart
  rw [hshape, literal_append]
  simp only [Option.bind_eq_bind, Option.bind_some, hr, hcount, hplus, hr', hcount', hend]
  rfl

theorem hunkStart_none {c : Char} (hc : c ≠ '@') (s : Str) : hunkStart (c :: s) = none := by
  have hlit : literal "@@ -".toList (c :: s) = none := by
    unfold literal
    rw [if_neg]
    rw [List.isPrefixOf_iff_prefix]
    rintro ⟨t, ht⟩
    exact hc (List.cons.inj ht).1.symm
  unfold hunkStart
  rw [hlit]
  rfl

/-! ## Reading the diff -/

/-- The counts after lines of these categories on one side. -/
def recordAll (counts : Counts) (side : Side) (categories : List Category) : Counts :=
  categories.foldl (fun counts category => counts.record side category) counts

/-- The categories of a hunk's lines, by their numbers. -/
def Hunk.counted (oldClasses newClasses : List Category) (counts : Counts) (h : Hunk) : Counts :=
  recordAll (recordAll counts .deleted ((oldClasses.drop h.oldPos).take h.deleted.length))
    .added ((newClasses.drop h.newPos).take h.added.length)

/-- The counts of a diff. -/
def Diff.counted (d : Diff old new) (oldClasses newClasses : List Category) : Counts :=
  d.hunks.foldl (Hunk.counted oldClasses newClasses) {}

def Side.sign : Side → UInt8
  | .deleted => 45
  | .added => 43

def Side.pick {α : Type} (side : Side) (old new : α) : α :=
  match side with
  | .deleted => old
  | .added => new

/-- Where the next line of a side is. -/
def Progress.index (p : Progress) (side : Side) : Int := side.pick p.oldIndex p.newIndex

/-- After lines of these categories on one side. -/
def Progress.counted (p : Progress) (side : Side) (categories : List Category) : Progress :=
  { p with
    counts := recordAll p.counts side categories
    oldIndex := side.pick (p.oldIndex + categories.length) p.oldIndex
    newIndex := side.pick p.newIndex (p.newIndex + categories.length) }

theorem Progress.counted_nil (p : Progress) (side : Side) : p.counted side [] = p := by
  cases side with
  | deleted => simp [Progress.counted, recordAll, Side.pick]
  | added => simp [Progress.counted, recordAll, Side.pick]

theorem Progress.counted_cons (p : Progress) (side : Side) (c : Category) (cs : List Category) :
    p.counted side (c :: cs) = (p.counted side [c]).counted side cs := by
  have hlen : ∀ i : Int, i + ((c :: cs).length : Nat) = i + ([c].length : Nat) + cs.length := by
    intro i
    simp only [List.length_cons, List.length_nil]
    omega
  unfold Progress.counted
  cases side with
  | deleted =>
    simp only [Side.pick, hlen]
    rfl
  | added =>
    simp only [Side.pick, hlen]
    rfl

theorem Progress.index_counted (p : Progress) (side : Side) (c : Category) :
    (p.counted side [c]).index side = p.index side + 1 := by
  cases side with
  | deleted => rfl
  | added => rfl

section Reading

variable (oldClasses newClasses : List Category)

theorem at?_eq_some {classes : List Category} {index : Int} {i : Nat} (hindex : index = i)
    {c : Category} (h : classes[i]? = some c) : at? classes index = some c := by
  subst hindex
  have hlt : i < classes.length := (List.getElem?_eq_some_iff.1 h).1
  unfold at?
  rw [if_pos ⟨by omega, by omega⟩]
  exact h

/-- A line of the file. -/
theorem line_body {p : Progress} (hin : p.inHunk = true) (side : Side) (t : Str) {c : Category}
    (hat : at? (side.pick oldClasses newClasses) (p.index side) = some c) :
    p.line oldClasses newClasses (Char.ofNat side.sign.toNat :: t) =
      .ok (p.counted side [c]) := by
  have hstart : hunkStart (Char.ofNat side.sign.toNat :: t) = none := by
    cases side with
    | deleted => exact hunkStart_none (by decide) t
    | added => exact hunkStart_none (by decide) t
  unfold Progress.line
  rw [hstart, hin]
  cases side with
  | deleted =>
    have hat : at? oldClasses p.oldIndex = some c := hat
    have hchar : Char.ofNat (Side.sign .deleted).toNat = '-' := by decide
    simp [hchar, hat, hin, Progress.counted, recordAll, Side.pick]
  | added =>
    have hat : at? newClasses p.newIndex = some c := hat
    have hchar : Char.ofNat (Side.sign .added).toNat = '+' := by decide
    simp [hchar, hat, hin, Progress.counted, recordAll, Side.pick]

/-- What says that a line has no newline is passed over. -/
theorem parseLines_noNewline {p : Progress} (hin : p.inHunk = true) :
    parseLines oldClasses newClasses p (pieces noNewline) = .ok p := by
  have hpieces : pieces noNewline = ["\\ No newline at end of file".toList] := by decide
  have hstart : hunkStart "\\ No newline at end of file".toList = none :=
    hunkStart_none (by decide) _
  rw [hpieces]
  apply parseLines_quiet
  intro l hl
  rw [List.mem_singleton.1 hl]
  unfold Progress.line
  rw [hstart, hin, if_pos (by decide)]

/-- One line of a file, as it is printed. -/
theorem parseLines_bodyLines {p : Progress} (hin : p.inHunk = true) (side : Side) {l : Bytes}
    (hl : Lines.EndBreak isBoundary (lineText l)) {c : Category}
    (hat : at? (side.pick oldClasses newClasses) (p.index side) = some c) :
    parseLines oldClasses newClasses p ((bodyLines side.sign l).flatMap pieces) =
      .ok (p.counted side [c]) := by
  have hdecode : Utf8Replace.decode (side.sign :: Lines.content 10 l) =
      Char.ofNat side.sign.toNat :: lineText l := by
    apply Utf8Replace.decode_cons_ascii
    cases side with
    | deleted => decide
    | added => decide
  have hsign : isBoundary (Char.ofNat side.sign.toNat) = false := by
    cases side with
    | deleted => decide
    | added => decide
  obtain ⟨t, rest, hpieces, -, hrest⟩ := pieces_endBreak hdecode hsign hl
  have hin' : (p.counted side [c]).inHunk = true := hin
  have hempty : parseLines oldClasses newClasses (p.counted side [c]) rest =
      .ok (p.counted side [c]) := by
    apply parseLines_quiet
    intro r hr
    rw [hrest r hr]
    exact line_empty _ _ _
  have hline : parseLines oldClasses newClasses p (pieces (side.sign :: Lines.content 10 l)) =
      .ok (p.counted side [c]) := by
    rw [hpieces, parseLines, line_body oldClasses newClasses hin side t hat]
    exact hempty
  unfold bodyLines
  rw [List.flatMap_cons, parseLines_append, hline]
  show parseLines oldClasses newClasses (p.counted side [c]) _ = _
  split
  · rfl
  · rw [List.flatMap_singleton]
    exact parseLines_noNewline oldClasses newClasses hin'

/-- The lines of one side of a hunk. -/
theorem parseLines_side (side : Side) (ls : List Bytes)
    (hls : ∀ l ∈ ls, Lines.EndBreak isBoundary (lineText l)) :
    ∀ {p : Progress} {i : Nat}, p.inHunk = true → (ls ≠ [] → p.index side = i) →
      i + ls.length ≤ (side.pick oldClasses newClasses).length →
      parseLines oldClasses newClasses p ((ls.flatMap (bodyLines side.sign)).flatMap pieces) =
        .ok (p.counted side (((side.pick oldClasses newClasses).drop i).take ls.length)) := by
  induction ls with
  | nil =>
    intro p i _ _ _
    show Except.ok p = Except.ok (p.counted side [])
    rw [Progress.counted_nil]
  | cons l ls ih =>
    intro p i hin hindex hlen
    rw [List.length_cons] at hlen
    obtain ⟨c, hc⟩ : ∃ c, (side.pick oldClasses newClasses)[i]? = some c :=
      ⟨_, List.getElem?_eq_getElem (by omega)⟩
    have hindex := hindex (by simp)
    have hat := at?_eq_some hindex hc
    have htake : ((side.pick oldClasses newClasses).drop i).take (ls.length + 1) =
        c :: ((side.pick oldClasses newClasses).drop (i + 1)).take ls.length := by
      rw [List.drop_eq_getElem?_toList_append, hc]
      rfl
    have hcons := p.counted_cons side c
      (((side.pick oldClasses newClasses).drop (i + 1)).take ls.length)
    have hnext : (p.counted side [c]).index side = (i + 1 : Nat) := by
      rw [Progress.index_counted, hindex]
      rfl
    rw [List.flatMap_cons, List.flatMap_append, parseLines_append,
      parseLines_bodyLines oldClasses newClasses hin side (hls l List.mem_cons_self) hat,
      List.length_cons, htake, hcons]
    have hin' : (p.counted side [c]).inHunk = true := hin
    exact ih (fun l hl => hls l (List.mem_cons_of_mem _ hl)) hin' (fun _ => hnext) (by omega)

/-- At the lines of a hunk. -/
def Progress.atHunk (p : Progress) (h : Hunk) : Progress :=
  { p with
    oldIndex := (firstLine h.oldPos h.deleted.length : Int) - 1
    newIndex := (firstLine h.newPos h.added.length : Int) - 1
    inHunk := true }

/-- The line of a hunk. -/
theorem parseLines_title {p : Progress} {h : Hunk}
    (hheading : Lines.EndBreak isBoundary (Utf8Replace.decode h.heading)) :
    parseLines oldClasses newClasses p (pieces h.title) = .ok (p.atHunk h) := by
  have hranges : ∀ c ∈ h.ranges, c.toNat = 9 ∨ 32 ≤ c.toNat ∧ c.toNat < 127 := by
    have hdigits : ∀ n, ∀ c ∈ Nat.toDigits 10 n, 32 ≤ c.toNat ∧ c.toNat < 127 := by
      intro n c hc
      have hdigit := isDigit_toDigits hc
      rw [Char.isDigit_iff_toNat] at hdigit
      have hzero : '0'.toNat = 48 := rfl
      have hnine : '9'.toNat = 57 := rfl
      omega
    have hrange : ∀ pos count, ∀ c ∈ rangeText pos count, 32 ≤ c.toNat ∧ c.toNat < 127 := by
      intro pos count c hc
      unfold rangeText at hc
      rcases List.mem_append.1 hc with hc | hc
      · exact hdigits _ c hc
      · split at hc
        · cases hc
        · rcases List.mem_cons.1 hc with rfl | hc
          · decide
          · exact hdigits _ c hc
    have hword : ∀ w : Str, (w.all fun c => decide (32 ≤ c.toNat ∧ c.toNat < 127)) = true →
        ∀ c ∈ w, 32 ≤ c.toNat ∧ c.toNat < 127 := fun _ => forall_mem_of_all
    intro c hc
    right
    unfold Hunk.ranges at hc
    simp only [List.mem_append] at hc
    rcases hc with hc | hc | hc | hc | hc
    · exact hword _ (by decide) c hc
    · exact hrange _ _ c hc
    · exact hword _ (by decide) c hc
    · exact hrange _ _ c hc
    · exact hword _ (by decide) c hc
  have hascii : ∀ c ∈ h.ranges, c.toNat < 128 := fun c hc => by
    have := hranges c hc
    omega
  have hplain : ∀ c ∈ h.ranges, isBoundary c = false := fun c hc =>
    not_boundary_of_printable (hranges c hc)
  have hdecode : ∃ g, Utf8Replace.decode h.title = h.ranges ++ g ∧
      Lines.EndBreak isBoundary g := by
    unfold Hunk.title
    rw [decode_asBytes hascii]
    split
    · refine ⟨[], rfl, ?_⟩
      intro c hc
      cases hc
    · refine ⟨' ' :: Utf8Replace.decode h.heading, ?_, ?_⟩
      · rw [Utf8Replace.decode_cons_ascii (by decide)]
        rfl
      · exact Lines.EndBreak.append (a := [' ']) (forall_mem_of_all (by decide)) hheading
  obtain ⟨g, hg, hend⟩ := hdecode
  have hcons : h.ranges = '@' :: h.ranges.tail := rfl
  have htail : ∀ c ∈ h.ranges.tail, isBoundary c = false := fun c hc =>
    hplain c (List.mem_of_mem_tail hc)
  have hline : Utf8Replace.decode h.title = '@' :: (h.ranges.tail ++ g) := by
    rw [hg]
    exact congrArg (fun r => r ++ g) hcons
  obtain ⟨t, rest, hpieces, hsame, hrest⟩ :=
    pieces_endBreak hline (by decide) (Lines.EndBreak.append htail hend)
  obtain ⟨s, rfl⟩ := hsame.of_append htail
  have hstart := hunkStart_ranges h s
  rw [hcons, List.cons_append] at hstart
  rw [hpieces, parseLines]
  unfold Progress.line
  rw [hstart]
  apply parseLines_quiet
  intro r hr
  rw [hrest r hr]
  exact line_empty _ _ _

/-- **One hunk.** -/
theorem parseLines_hunk {p : Progress} {h : Hunk}
    (hheading : Lines.EndBreak isBoundary (Utf8Replace.decode h.heading))
    (hdel : ∀ l ∈ h.deleted, Lines.EndBreak isBoundary (lineText l))
    (hadd : ∀ l ∈ h.added, Lines.EndBreak isBoundary (lineText l))
    (hold : h.oldPos + h.deleted.length ≤ oldClasses.length)
    (hnew : h.newPos + h.added.length ≤ newClasses.length) :
    ∃ q, parseLines oldClasses newClasses p (h.lines.flatMap pieces) = .ok q ∧
      q.counts = h.counted oldClasses newClasses p.counts := by
  have hfirst : ∀ (ls : List Bytes) (pos : Nat), ls ≠ [] →
      (firstLine pos ls.length : Int) - 1 = pos := by
    intro ls pos hne
    unfold firstLine
    rw [if_neg fun hlen => hne (List.length_eq_zero_iff.1 hlen)]
    omega
  have hold' := parseLines_side oldClasses newClasses .deleted h.deleted hdel
    (p := p.atHunk h) rfl (hfirst h.deleted h.oldPos) hold
  have hnew' := parseLines_side oldClasses newClasses .added h.added hadd
    (p := (p.atHunk h).counted .deleted ((oldClasses.drop h.oldPos).take h.deleted.length))
    rfl (hfirst h.added h.newPos) hnew
  have hlines : h.lines.flatMap pieces = pieces h.title ++
      ((h.deleted.flatMap (bodyLines Side.deleted.sign)).flatMap pieces ++
        (h.added.flatMap (bodyLines Side.added.sign)).flatMap pieces) := by
    unfold Hunk.lines
    rw [List.flatMap_cons, List.flatMap_append]
    rfl
  rw [hlines, parseLines_trans (parseLines_title oldClasses newClasses hheading),
    parseLines_trans hold']
  exact ⟨_, hnew', rfl⟩

/-- Before the first hunk nothing is counted. -/
theorem parseLines_header {p : Progress} (hin : p.inHunk = false) {l : Bytes}
    (hprint : ∀ b ∈ l, b.toNat = 9 ∨ 32 ≤ b.toNat ∧ b.toNat < 127) (hhead : l.head? ≠ some 64) :
    parseLines oldClasses newClasses p (pieces l) = .ok p := by
  have hquiet : ∀ s : Str, s.head? ≠ some '@' → p.line oldClasses newClasses s = .ok p := by
    intro s hs
    have hstart : hunkStart s = none := by
      cases s with
      | nil => rfl
      | cons c s =>
        apply hunkStart_none
        rintro rfl
        exact hs rfl
    unfold Progress.line
    rw [hstart, hin]
    rfl
  have hdecode : Utf8Replace.decode l = l.map fun b => Char.ofNat b.toNat := by
    clear hhead
    induction l with
    | nil => rfl
    | cons b l ih =>
      obtain ⟨hb, hl⟩ := List.forall_mem_cons.1 hprint
      rw [Utf8Replace.decode_cons_ascii (by omega), ih hl]
      rfl
  have hchar : ∀ b ∈ l, (Char.ofNat b.toNat).toNat = b.toNat := by
    intro b hb
    have hlt : b.toNat < 128 := by
      have := hprint b hb
      omega
    exact toNat_ofNat_ascii hlt
  have hfree : ∀ c ∈ Utf8Replace.decode l, isBoundary c = false := by
    rw [hdecode]
    intro c hc
    obtain ⟨b, hb, rfl⟩ := List.mem_map.1 hc
    apply not_boundary_of_printable
    rw [hchar b hb]
    exact hprint b hb
  obtain ⟨rest, hrest, hempty⟩ :=
    Lines.splitLines_same boundary_newline (Or.inl rfl) hfree
  have hpieces : pieces l = Utf8Replace.decode l :: rest := hrest
  rw [hpieces]
  apply parseLines_quiet
  intro s hs
  rcases List.mem_cons.1 hs with rfl | hs
  · apply hquiet
    rw [hdecode]
    cases l with
    | nil => simp
    | cons b l =>
      intro h
      have h : Char.ofNat b.toNat = '@' := Option.some.inj h
      have hb := hchar b List.mem_cons_self
      rw [h] at hb
      exact hhead (congrArg some (UInt8.toNat.inj hb.symm))
  · rw [hempty s hs]
    exact line_empty _ _ _

theorem parseLines_hunks {hunks : List Hunk}
    (hheading : ∀ h ∈ hunks, Lines.EndBreak isBoundary (Utf8Replace.decode h.heading))
    (hdel : ∀ h ∈ hunks, ∀ l ∈ h.deleted, Lines.EndBreak isBoundary (lineText l))
    (hadd : ∀ h ∈ hunks, ∀ l ∈ h.added, Lines.EndBreak isBoundary (lineText l))
    (hold : ∀ h ∈ hunks, h.oldPos + h.deleted.length ≤ oldClasses.length)
    (hnew : ∀ h ∈ hunks, h.newPos + h.added.length ≤ newClasses.length) :
    ∀ p : Progress, ∃ q,
      parseLines oldClasses newClasses p ((hunks.flatMap Hunk.lines).flatMap pieces) = .ok q ∧
        q.counts = hunks.foldl (Hunk.counted oldClasses newClasses) p.counts := by
  induction hunks with
  | nil =>
    intro p
    exact ⟨p, rfl, rfl⟩
  | cons h hunks ih =>
    intro p
    obtain ⟨q, hq, hcounts⟩ := parseLines_hunk oldClasses newClasses (p := p)
      (hheading h List.mem_cons_self) (hdel h List.mem_cons_self) (hadd h List.mem_cons_self)
      (hold h List.mem_cons_self) (hnew h List.mem_cons_self)
    obtain ⟨r, hr, hcounts'⟩ := ih (fun g hg => hheading g (List.mem_cons_of_mem _ hg))
      (fun g hg => hdel g (List.mem_cons_of_mem _ hg))
      (fun g hg => hadd g (List.mem_cons_of_mem _ hg))
      (fun g hg => hold g (List.mem_cons_of_mem _ hg))
      (fun g hg => hnew g (List.mem_cons_of_mem _ hg)) q
    refine ⟨r, ?_, ?_⟩
    · rw [List.flatMap_cons, List.flatMap_append, parseLines_trans hq, hr]
    · rw [hcounts', hcounts]
      rfl

/-- **The whole diff.** -/
theorem parseHunks_diff {old new : Bytes} (d : Diff old new) (hold : Clean old)
    (hnew : Clean new) (holdClasses : oldClasses.length = (gitLines old).length)
    (hnewClasses : newClasses.length = (gitLines new).length) :
    parseHunks d.bytes oldClasses newClasses = .ok (d.counted oldClasses newClasses) := by
  have hheader : parseLines oldClasses newClasses {} (d.header.flatMap pieces) = .ok {} := by
    have hall : ∀ ls : List Bytes, (∀ l ∈ ls, l ∈ d.header) →
        parseLines oldClasses newClasses {} (ls.flatMap pieces) = .ok {} := by
      intro ls
      induction ls with
      | nil =>
        intro _
        rfl
      | cons l ls ih =>
        intro hls
        have hl := hls l List.mem_cons_self
        rw [List.flatMap_cons, parseLines_trans
          (parseLines_header oldClasses newClasses rfl (d.printable l hl) (d.notHunk l hl))]
        exact ih fun m hm => hls m (List.mem_cons_of_mem _ hm)
    exact hall d.header fun l hl => hl
  have hdeleted : ∀ h ∈ d.hunks, ∀ l ∈ h.deleted, Lines.EndBreak isBoundary (lineText l) := by
    intro h hh l hl
    rw [← (d.fits hh).deleted] at hl
    exact hold.endBreak (List.mem_of_mem_drop (List.mem_of_mem_take hl))
  have hadded : ∀ h ∈ d.hunks, ∀ l ∈ h.added, Lines.EndBreak isBoundary (lineText l) := by
    intro h hh l hl
    rw [← (d.fits hh).added] at hl
    exact hnew.endBreak (List.mem_of_mem_drop (List.mem_of_mem_take hl))
  have hheading : ∀ h ∈ d.hunks, Lines.EndBreak isBoundary (Utf8Replace.decode h.heading) := by
    intro h hh
    rcases d.heading h hh with hnil | ⟨l, hl, hpart⟩
    · rw [hnil]
      intro c hc
      cases hc
    · exact hold.endBreak_infix hl hpart
  have holdPos : ∀ h ∈ d.hunks, h.oldPos + h.deleted.length ≤ oldClasses.length := by
    intro h hh
    have := (d.fits hh).oldPos.2
    omega
  have hnewPos : ∀ h ∈ d.hunks, h.newPos + h.added.length ≤ newClasses.length := by
    intro h hh
    have := (d.fits hh).newPos.2
    omega
  obtain ⟨q, hq, hcounts⟩ := parseLines_hunks oldClasses newClasses hheading hdeleted hadded
    holdPos hnewPos {}
  unfold parseHunks Diff.bytes
  rw [splitlines_flatMap, Diff.lines, List.flatMap_append, parseLines_trans hheader, hq]
  exact congrArg Except.ok hcounts

end Reading

end DenBrowser.PatchStats
