import DenBrowser.Lib.FileTree
import DenBrowser.Text
import Mathlib.Data.List.Dedup

/-!
# Patch files

What the scripts read off the patch files themselves: which ones are placeholders, which are
queued, and which paths their diff headers name.

* `headerPaths` — the paths that a patch file changes;
* `mem_sortUnique` — sorting and dropping what is there twice keeps the members.
-/

set_option autoImplicit false

namespace DenBrowser.Patches

/-- A path, as its components. -/
abbrev Path := List Str

abbrev Tree := FileTree.Tree Str Bytes

/-- A patch file: its name, with the `.patch`, and its lines. -/
structure PatchFile where
  name : Str
  lines : List Str
  deriving DecidableEq

/-- `head -5 | grep -q "^# STUB"`. -/
def isStub (p : PatchFile) : Bool :=
  (p.lines.take 5).any fun line => "# STUB".toList.isPrefixOf line

/-- `${patch_name%%[^0-9]*}` as a number; `none` where there are no digits. -/
def patchNum (name : Str) : Option Nat :=
  match name.takeWhile Char.isDigit with
  | [] => none
  | digits => some (digits.foldl (fun n c => 10 * n + (c.toNat - '0'.toNat)) 0)

/-- Whether `--skip-patch` leaves a patch out; `none` where the shell cannot read the number. -/
def skipped (skips : List Nat) (name : Str) : Option Bool :=
  if skips = [] then some false else (patchNum name).map fun n => skips.contains n

/-- The loop that fills `PATCH_QUEUE`. -/
def queue (skips : List Nat) : List PatchFile → Option (List PatchFile)
  | [] => some []
  | p :: ps =>
    if isStub p then queue skips ps
    else
      match skipped skips p.name with
      | none => none
      | some true => queue skips ps
      | some false => (queue skips ps).map fun rest => p :: rest

/-! ## Diff headers -/

/-- `sed -n -e 's@^+++ b/@@p' -e 's@^--- a/@@p'` on one line; the second expression sees what the
first one left. -/
def sedHeader (line : Str) : List Str :=
  if "+++ b/".toList.isPrefixOf line then
    let rest := line.drop 6
    rest :: if "--- a/".toList.isPrefixOf rest then [rest.drop 6] else []
  else if "--- a/".toList.isPrefixOf line then [line.drop 6]
  else []

/-- `read -r path`: blanks at both ends are dropped. -/
def readPath (text : Str) : Str :=
  let blank := fun c => c == ' ' || c == '\t'
  ((text.dropWhile blank).reverse.dropWhile blank).reverse

/-- The components of a path. -/
def components (text : Str) : Path :=
  (text.splitOn '/').filter fun name => name ≠ [] ∧ name ≠ ['.']

/-- The paths the loop of `snapshot_pristine` works on, of the headers of one patch. -/
def headerPaths (p : PatchFile) : List Path :=
  (((p.lines.flatMap sedHeader).map readPath).filter fun path =>
    path ≠ [] ∧ path ≠ "/dev/null".toList).map components

/-- `sort -u`, in the order of the locale. -/
def sortUnique {α : Type} [DecidableEq α] (le : α → α → Bool) (l : List α) : List α :=
  l.dedup.mergeSort le

theorem mem_sortUnique {α : Type} [DecidableEq α] {le : α → α → Bool} {l : List α} {x : α} :
    x ∈ sortUnique le l ↔ x ∈ l := by
  simp [sortUnique]

theorem nodup_sortUnique {α : Type} [DecidableEq α] (le : α → α → Bool) (l : List α) :
    (sortUnique le l).Nodup :=
  (List.mergeSort_perm _ _).nodup_iff.2 l.nodup_dedup

end DenBrowser.Patches
