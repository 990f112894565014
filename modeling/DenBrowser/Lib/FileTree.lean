import Mathlib.Data.List.Induction
import Mathlib.Data.List.Infix
import Mathlib.Tactic.Common

/-!
# Trees of files and directories

A tree says what stands at each path; whatever has something below it is a directory.  The
operations are those of `mkdir -p`, of a write, of `cp` onto a path and of `rm -rf`; they fail
where the commands do.

* `above_dir` — what stands above something is a directory;
* `mkdirs_isSome` — directories can be made where no file stands in the way;
* `Partway` — what a command leaves that was interrupted.
-/

set_option autoImplicit false

namespace FileTree

inductive Entry (γ : Type) where
  | file (content : γ)
  | dir
  deriving DecidableEq

/-- A tree of files, with names of type `κ` and contents of type `γ`. -/
structure Tree (κ γ : Type) where
  node : List κ → Option (Entry γ)
  root : node [] = some .dir
  closed : ∀ p s, node (p ++ [s]) ≠ none → node p = some .dir

variable {κ γ : Type}

namespace Tree

theorem ext' {t t' : Tree κ γ} (h : ∀ p, t.node p = t'.node p) : t = t' := by
  cases t
  cases t'
  simp only [mk.injEq]
  exact funext h

/-- What stands above something is a directory. -/
theorem above_dir (t : Tree κ γ) {p q : List κ} (hq : q <+: p) (hne : q ≠ p)
    (hp : t.node p ≠ none) : t.node q = some .dir := by
  obtain ⟨r, rfl⟩ := hq
  induction r using List.reverseRecOn with
  | nil => exact absurd (List.append_nil q).symm hne
  | append_singleton r s ih =>
    rw [← List.append_assoc] at hp
    have hr := t.closed _ _ hp
    by_cases hr' : r = []
    · subst hr'
      rwa [List.append_nil] at hr
    · refine ih ?_ (by simp [hr])
      simpa using hr'

/-- Nothing stands below a path where nothing stands. -/
theorem below_none (t : Tree κ γ) {p q : List κ} (hq : q <+: p) (h : t.node q = none) :
    t.node p = none := by
  by_contra hp
  by_cases hne : q = p
  · exact hp (hne ▸ h)
  · rw [t.above_dir hq hne hp] at h
    cases h

/-- The tree with nothing in it. -/
def empty : Tree κ γ where
  node p := if p.isEmpty then some .dir else none
  root := rfl
  closed p s h := by simp at h

/-! ## Commands -/

variable [DecidableEq κ]

def isDir : Option (Entry γ) → Bool
  | some .dir => true
  | _ => false

theorem isDir_eq_true {e : Option (Entry γ)} : isDir e = true ↔ e = some .dir := by
  match e with
  | none => simp [isDir]
  | some .dir => simp [isDir]
  | some (.file _) => simp [isDir]

theorem isDir_eq_false {e : Option (Entry γ)} : isDir e = false ↔ e ≠ some .dir := by
  rw [← Bool.not_eq_true, isDir_eq_true]

/-- Nothing or a directory. -/
def passable : Option (Entry γ) → Bool
  | none => true
  | some .dir => true
  | some (.file _) => false

/-- `mkdir -p`: fails where a file is in the way. -/
def mkdirs (t : Tree κ γ) (p : List κ) : Option (Tree κ γ) :=
  if p.inits.all fun q => passable (t.node q) then
    some {
      node := fun q => if q <+: p then some .dir else t.node q
      root := if_pos (List.nil_prefix)
      closed := by
        intro q s h
        by_cases hq : q <+: p
        · exact if_pos hq
        · have hqs : ¬q ++ [s] <+: p := fun hqs => hq ((List.prefix_append q [s]).trans hqs)
          rw [if_neg hqs] at h
          rw [if_neg hq]
          exact t.closed q s h }
  else none

/-- Writing a file: its directory must be there, and no directory of its name. -/
def write (t : Tree κ γ) (p : List κ) (content : γ) : Option (Tree κ γ) :=
  if h : p ≠ [] ∧ isDir (t.node p.dropLast) = true ∧ isDir (t.node p) = false then
    some {
      node := fun q => if q = p then some (.file content) else t.node q
      root := by
        rw [if_neg (Ne.symm h.1)]
        exact t.root
      closed := by
        intro q s hqs
        by_cases hq : q ++ [s] = p
        · have hdrop : p.dropLast = q := by
            rw [← hq]
            exact List.dropLast_concat
          have hne : q ≠ p := by
            rw [← hq]
            simp
          rw [if_neg hne, ← hdrop]
          exact isDir_eq_true.1 h.2.1
        · rw [if_neg hq] at hqs
          have hdir := t.closed q s hqs
          have hne : q ≠ p := by
            rintro rfl
            exact isDir_eq_false.1 h.2.2 hdir
          rwa [if_neg hne] }
  else none

/-- Where `cp` puts a file with this name: onto the path, or into the directory that is there. -/
def target (t : Tree κ γ) (name : κ) (p : List κ) : List κ :=
  if isDir (t.node p) then p ++ [name] else p

/-- `cp` of a file with this name and content. -/
def copy (t : Tree κ γ) (name : κ) (content : γ) (p : List κ) : Option (Tree κ γ) :=
  t.write (t.target name p) content

/-- `rm -rf`, which refuses the directory it stands in. -/
def removeAll (t : Tree κ γ) (p : List κ) : Option (Tree κ γ) :=
  if h : p = [] then none
  else
    some {
      node := fun q => if p <+: q then none else t.node q
      root := by
        rw [if_neg (by simpa using h)]
        exact t.root
      closed := by
        intro q s hqs
        by_cases hp : p <+: q ++ [s]
        · rw [if_pos hp] at hqs
          exact absurd rfl hqs
        · rw [if_neg hp] at hqs
          have hq : ¬p <+: q := fun hq => hp (hq.trans (List.prefix_append q [s]))
          rw [if_neg hq]
          exact t.closed q s hqs }

theorem mkdirs_isSome {t : Tree κ γ} {p : List κ}
    (h : ∀ q, q <+: p → t.node q = none ∨ t.node q = some .dir) :
    ∃ t', t.mkdirs p = some t' := by
  have hall : (p.inits.all fun q => passable (t.node q)) = true := by
    rw [List.all_eq_true]
    intro q hq
    rcases h q ((List.mem_inits q p).1 hq) with hn | hd
    · simp [hn, passable]
    · simp [hd, passable]
  exact ⟨_, if_pos hall⟩

theorem node_mkdirs {t t' : Tree κ γ} {p : List κ} (h : t.mkdirs p = some t') (q : List κ) :
    t'.node q = if q <+: p then some .dir else t.node q := by
  unfold mkdirs at h
  split at h
  · cases h
    rfl
  · cases h

theorem write_isSome {t : Tree κ γ} {p : List κ} (content : γ) (hp : p ≠ [])
    (hdir : t.node p.dropLast = some .dir) (hno : t.node p ≠ some .dir) :
    ∃ t', t.write p content = some t' :=
  ⟨_, dif_pos ⟨hp, isDir_eq_true.2 hdir, isDir_eq_false.2 hno⟩⟩

theorem node_write {t t' : Tree κ γ} {p : List κ} {content : γ}
    (h : t.write p content = some t') (q : List κ) :
    t'.node q = if q = p then some (.file content) else t.node q := by
  unfold write at h
  split at h
  · cases h
    rfl
  · cases h

omit [DecidableEq κ] in
theorem target_of_not_dir {t : Tree κ γ} {p : List κ} (name : κ) (h : t.node p ≠ some .dir) :
    t.target name p = p := by
  rw [target, isDir_eq_false.2 h]
  rfl

theorem node_removeAll {t t' : Tree κ γ} {p : List κ} (h : t.removeAll p = some t')
    (q : List κ) : t'.node q = if p <+: q then none else t.node q := by
  unfold removeAll at h
  split at h
  · cases h
  · cases h
    rfl

theorem removeAll_isSome (t : Tree κ γ) {p : List κ} (hp : p ≠ []) :
    ∃ t', t.removeAll p = some t' :=
  ⟨_, dif_neg hp⟩

end Tree

/-! ## Interruption -/

/-- What is left of a command that was to turn `t` into `t'`: each path is as before or as it was
to become, and the files being written are missing or hold anything. -/
def Partway (t t' : Tree κ γ) (writing : List κ → Prop) (m : Tree κ γ) : Prop :=
  ∀ q, m.node q = t.node q ∨ m.node q = t'.node q ∨ (writing q ∧ m.node q ≠ some .dir)

end FileTree
