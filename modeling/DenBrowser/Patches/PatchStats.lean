import DenBrowser.Lib.Utf8Replace
import DenBrowser.Patches.CommentScan

/-!
# Patch statistics

`scripts/patch-stats.py` splits the changed lines of a patch into code, comments and blanks: it
puts every line of the old and of the new file in a category, and reads the diff without context
lines that `git` prints to see which of them were deleted and added.

* `classifyBlob`, `parseHunks`, `fileReport` — the functions of the script;
* `parseLines_append` — the lines of a diff are read one after the other.
-/

set_option autoImplicit false

namespace DenBrowser.PatchStats

open Lockdown Patches

/-- `ReportError`, with its message. -/
structure ReportError where
  message : Str
  deriving DecidableEq

/-! ## The syntax of a file -/

/-- `Path(path).name`. -/
def pathName (path : Str) : Str := (components path).getLast?.getD []

/-- `Path(path).suffix`: what the last dot begins, unless it is the first or the last
character. -/
def pathSuffix (path : Str) : Str :=
  let name := pathName path
  let stem := (name.reverse.dropWhile fun c => c != '.').reverse.dropLast
  if stem.length = 0 ∨ name.length ≤ stem.length + 1 then [] else name.drop stem.length

def C_LIKE_SUFFIXES : List Str :=
  [".c".toList, ".cc".toList, ".cpp".toList, ".cxx".toList, ".h".toList, ".hh".toList,
    ".hpp".toList, ".hxx".toList, ".m".toList, ".mm".toList, ".js".toList, ".mjs".toList,
    ".jsx".toList, ".ts".toList, ".tsx".toList, ".idl".toList, ".webidl".toList,
    ".ipdl".toList, ".ipdlh".toList]

def HASH_SUFFIXES : List Str :=
  [".py".toList, ".sh".toList, ".bash".toList, ".zsh".toList, ".configure".toList,
    ".conf".toList, ".ftl".toList, ".toml".toList, ".yaml".toList, ".yml".toList, ".mk".toList]

def MARKUP_SUFFIXES : List Str :=
  [".html".toList, ".htm".toList, ".xhtml".toList, ".xml".toList, ".svg".toList]

def PLAIN_SUFFIXES : List Str := [".json".toList]

def syntaxForPath (u : Unicode) (path : Str) : Except ReportError CommentSyntax :=
  let name := u.lower (pathName path)
  let suffix := u.lower (pathSuffix path)
  if name = "jar.mn".toList then .ok JAR_MN
  else if ["moz.build".toList, "moz.configure".toList, "makefile".toList,
      "makefile.in".toList].contains name then .ok HASH
  else if ".mozbuild".toList.isSuffixOf name then .ok HASH
  else if suffix = ".rs".toList then .ok RUST
  else if suffix = ".json5".toList then .ok C_LIKE
  else if C_LIKE_SUFFIXES.contains suffix then .ok C_LIKE
  else if suffix = ".css".toList then .ok CSS
  else if MARKUP_SUFFIXES.contains suffix then .ok MARKUP
  else if HASH_SUFFIXES.contains suffix then .ok HASH
  else if suffix = ".ini".toList then .ok INI
  else if suffix = ".properties".toList then .ok PROPERTIES
  else if suffix = ".nsi".toList then .ok NSIS
  else if PLAIN_SUFFIXES.contains suffix then .ok PLAIN
  else .error ⟨"unsupported text type for ".toList ++ path ++
    "; add its comment syntax to patch-stats.py".toList⟩

/-! ## The categories of a file -/

/-- Where `str.splitlines` ends a line. -/
def isBoundary (c : Char) : Bool :=
  [0x0A, 0x0B, 0x0C, 0x0D, 0x1C, 0x1D, 0x1E, 0x85, 0x2028, 0x2029].contains c.toNat

theorem isSpace_of_boundary : ∀ c, isBoundary c = true → isSpace c = true := by
  intro c h
  unfold isBoundary at h
  simp only [List.contains_iff_mem, List.mem_cons, List.not_mem_nil, or_false] at h
  unfold isSpace isWhitespace
  rcases h with h | h | h | h | h | h | h | h | h | h <;> simp [h]

/-- `data.decode("utf-8", "replace").splitlines()`. -/
def splitlines (data : Bytes) : List Str := Lines.splitLines isBoundary (Utf8Replace.decode data)

/-- The categories of lines, by the name of their file. -/
def classesOf (u : Unicode) (path : Str) (lines : List Str) : Except ReportError (List Category) :=
  if lines = [] then .ok []
  else (syntaxForPath u path).map fun syn => classifyLines u syn true .plain lines

def classifyBlob (u : Unicode) (data : Bytes) (path : Str) : Except ReportError (List Category) :=
  classesOf u path (splitlines data)

/-! ## Counts -/

inductive Side
  | added
  | deleted
  deriving DecidableEq

structure Counts where
  codeAdded : Nat := 0
  codeDeleted : Nat := 0
  commentAdded : Nat := 0
  commentDeleted : Nat := 0
  blankAdded : Nat := 0
  blankDeleted : Nat := 0
  deriving DecidableEq

def Counts.record (counts : Counts) (side : Side) (category : Category) : Counts :=
  match side, category with
  | .added, .code => { counts with codeAdded := counts.codeAdded + 1 }
  | .deleted, .code => { counts with codeDeleted := counts.codeDeleted + 1 }
  | .added, .comment => { counts with commentAdded := counts.commentAdded + 1 }
  | .deleted, .comment => { counts with commentDeleted := counts.commentDeleted + 1 }
  | .added, .blank => { counts with blankAdded := counts.blankAdded + 1 }
  | .deleted, .blank => { counts with blankDeleted := counts.blankDeleted + 1 }

def Counts.totalAdded (counts : Counts) : Nat :=
  counts.codeAdded + counts.commentAdded + counts.blankAdded

def Counts.totalDeleted (counts : Counts) : Nat :=
  counts.codeDeleted + counts.commentDeleted + counts.blankDeleted

/-! ## Hunks -/

/-- A literal part of a regular expression. -/
def literal (t s : Str) : Option Str := if t.isPrefixOf s then some (s.drop t.length) else none

/-- `(\d+)`. -/
def number (s : Str) : Option (Nat × Str) :=
  let digits := s.takeWhile fun c => (decimal c).isSome
  if digits = [] then none else some (magnitude digits, s.drop digits.length)

/-- `(?:,\d+)?`. -/
def lineCount (s : Str) : Str :=
  match (literal [','] s).bind number with
  | some (_, rest) => rest
  | none => s

/-- The groups of `HUNK_RE`, `^@@ -(\d+)(?:,\d+)? \+(\d+)(?:,\d+)? @@`. -/
def hunkStart (line : Str) : Option (Nat × Nat) := do
  let s ← literal "@@ -".toList line
  let (old, s) ← number s
  let s ← literal " +".toList (lineCount s)
  let (new, s) ← number s
  let _ ← literal " @@".toList (lineCount s)
  return (old, new)

structure Progress where
  counts : Counts := {}
  inHunk : Bool := false
  oldIndex : Int := 0
  newIndex : Int := 0
  deriving DecidableEq

/-- `classes[index]`, where the index is in the range. -/
def at? (classes : List Category) (index : Int) : Option Category :=
  if 0 ≤ index ∧ index < classes.length then classes[index.toNat]? else none

/-- One line of the diff. -/
def Progress.line (oldLines newLines : List Category) (p : Progress) (line : Str) :
    Except ReportError Progress :=
  match hunkStart line with
  | some (old, new) =>
    .ok { p with oldIndex := (old : Int) - 1, newIndex := (new : Int) - 1, inHunk := true }
  | none =>
    if !p.inHunk || line.isEmpty || "\\ No newline".toList.isPrefixOf line then .ok p
    else if line.head? = some '-' then
      match at? oldLines p.oldIndex with
      | none => .error ⟨"deleted line number fell outside the old file".toList⟩
      | some category =>
        .ok { p with counts := p.counts.record .deleted category, oldIndex := p.oldIndex + 1 }
    else if line.head? = some '+' then
      match at? newLines p.newIndex with
      | none => .error ⟨"added line number fell outside the new file".toList⟩
      | some category =>
        .ok { p with counts := p.counts.record .added category, newIndex := p.newIndex + 1 }
    else if line.head? = some ' ' then
      .ok { p with oldIndex := p.oldIndex + 1, newIndex := p.newIndex + 1 }
    else .ok p

def parseLines (oldLines newLines : List Category) : Progress → List Str →
    Except ReportError Progress
  | p, [] => .ok p
  | p, line :: lines => do parseLines oldLines newLines (← p.line oldLines newLines line) lines

def parseHunks (diff : Bytes) (oldLines newLines : List Category) : Except ReportError Counts :=
  (parseLines oldLines newLines {} (splitlines diff)).map fun p => p.counts

/-! ## The report on a file -/

/-- A file of a commit. -/
structure Blob where
  path : Str
  data : Bytes

structure FileReport where
  counts : Counts := {}
  binary : Bool := false
  deriving DecidableEq

/-- `needle in hay`. -/
def occursIn (needle hay : Bytes) : Bool := hay.tails.any fun t => needle.isPrefixOf t

/-- What makes a file binary. -/
def isBinary (oldData newData diff : Bytes) : Bool :=
  oldData.contains 0 || newData.contains 0 || occursIn (asBytes "Binary files ".toList) diff ||
    occursIn (asBytes "GIT binary patch".toList) diff

/-- `Analyzer.classes`, of a side that may not be there. -/
def classes (u : Unicode) (blob : Option Blob) : Except ReportError (List Category) :=
  match blob with
  | none => .ok []
  | some b => classifyBlob u b.data b.path

def dataOf (blob : Option Blob) : Bytes :=
  match blob with
  | none => []
  | some b => b.data

/-- `Analyzer.file_report`, on the two blobs of a change and on the diff. -/
def fileReport (u : Unicode) (old new : Option Blob) (diff : Bytes) :
    Except ReportError FileReport :=
  if isBinary (dataOf old) (dataOf new) diff then .ok { binary := true }
  else do
    let oldClasses ← classes u old
    let newClasses ← classes u new
    let counts ← parseHunks diff oldClasses newClasses
    return { counts := counts }

/-! ## Reading a diff in parts -/

theorem parseLines_append (oldLines newLines : List Category) (ls ms : List Str) :
    ∀ p : Progress, parseLines oldLines newLines p (ls ++ ms) =
      (parseLines oldLines newLines p ls).bind fun q => parseLines oldLines newLines q ms := by
  induction ls with
  | nil =>
    intro p
    rfl
  | cons l ls ih =>
    intro p
    rw [List.cons_append, parseLines, parseLines]
    cases p.line oldLines newLines l with
    | error e => rfl
    | ok q => exact ih q

theorem parseLines_trans {oldLines newLines : List Category} {p q : Progress} {ls ms : List Str}
    (h : parseLines oldLines newLines p ls = .ok q) :
    parseLines oldLines newLines p (ls ++ ms) = parseLines oldLines newLines q ms := by
  rw [parseLines_append, h]
  rfl

/-- Lines that are empty, or come before the first hunk, are passed over. -/
theorem parseLines_quiet {oldLines newLines : List Category} {p : Progress} {ls : List Str}
    (h : ∀ l ∈ ls, p.line oldLines newLines l = .ok p) :
    parseLines oldLines newLines p ls = .ok p := by
  induction ls with
  | nil => rfl
  | cons l ls ih =>
    rw [parseLines, h l List.mem_cons_self]
    exact ih fun l hl => h l (List.mem_cons_of_mem _ hl)

theorem line_empty (oldLines newLines : List Category) (p : Progress) :
    p.line oldLines newLines [] = .ok p := by
  have hstart : hunkStart [] = none := rfl
  unfold Progress.line
  rw [hstart]
  simp

end DenBrowser.PatchStats
