import Mathlib.Data.List.Induction
import Mathlib.Data.List.Infix
import Mathlib.Tactic.Common

/-!
# Paths as text

The path functions of Python's `posixpath`, which work on the text of a path alone.

* `normComps_join` — the components of a joined path, one after the other;
* `split_abspath` — an absolute path is told by its components;
* `relpath_spell` — a path below a directory is relative to it what leads there.
-/

set_option autoImplicit false

namespace PosixPath

abbrev Text := List Char

/-! ## The functions -/

/-- `str.split('/')` -/
def split (s : Text) : List Text := s.splitOn '/'

def isabs (s : Text) : Bool := s.head? == some '/'

/-- `join`, of two paths. -/
def join (a b : Text) : Text :=
  if isabs b then b
  else if a = [] ∨ a.getLast? = some '/' then a ++ b
  else a ++ '/' :: b

/-- How many slashes a normalised path begins with; three are one. -/
def initialSlashes (s : Text) : Nat :=
  match s with
  | '/' :: '/' :: '/' :: _ => 1
  | '/' :: '/' :: _ => 2
  | '/' :: _ => 1
  | _ => 0

def dot : Text := ['.']

def dotdot : Text := ['.', '.']

/-- The loop of `normpath`. -/
def push (rooted : Bool) (comps : List Text) (comp : Text) : List Text :=
  if comp = [] ∨ comp = dot then comps
  else if comp ≠ dotdot ∨ (rooted = false ∧ comps = []) ∨ comps.getLast? = some dotdot then
    comps ++ [comp]
  else comps.dropLast

def normComps (rooted : Bool) (comps : List Text) : List Text := comps.foldl (push rooted) []

def normpath (s : Text) : Text :=
  let slashes := initialSlashes s
  let path := List.replicate slashes '/' ++ ['/'].intercalate (normComps (slashes != 0) (split s))
  if path = [] then dot else path

def abspath (cwd s : Text) : Text := normpath (if isabs s then s else join cwd s)

/-- The components of a path that are not empty. -/
def parts (s : Text) : List Text := (split s).filter fun c => c != []

def commonPrefix : List Text → List Text → List Text
  | a :: as, b :: bs => if a = b then a :: commonPrefix as bs else []
  | _, _ => []

/-- `join(*comps)` -/
def joinAll : List Text → Text
  | [] => []
  | a :: bs => bs.foldl join a

def relpath (cwd path start : Text) : Text :=
  let startList := parts (abspath cwd start)
  let pathList := parts (abspath cwd path)
  let i := (commonPrefix startList pathList).length
  let relList := List.replicate (startList.length - i) dotdot ++ pathList.drop i
  if relList = [] then dot else joinAll relList

def basename (s : Text) : Text := (s.reverse.takeWhile fun c => c != '/').reverse

/-- `splitext(name)[1]`, of a name without a slash: from the last dot on, when there is more than
dots before it. -/
def extension (name : Text) : Text :=
  let ext := (name.reverse.takeWhile fun c => c != '.').reverse
  let before := name.take (name.length - ext.length - 1)
  if '.' ∈ name ∧ before.all (fun c => c == '.') = false then '.' :: ext else []

example : normpath "a/./b/../../../c//d/".toList = "../c/d".toList ∧
    relpath "/x".toList "y/z".toList "/x/w/v".toList = "../../y/z".toList ∧
    extension "..a.tar.gz".toList = ".gz".toList ∧ extension "..a".toList = [] := by decide

/-! ## Components -/

/-- A name in a directory. -/
structure IsName (s : Text) : Prop where
  ne_nil : s ≠ []
  ne_dot : s ≠ dot
  ne_dotdot : s ≠ dotdot
  noSlash : '/' ∉ s

instance (s : Text) : Decidable (IsName s) :=
  decidable_of_iff (s ≠ [] ∧ s ≠ dot ∧ s ≠ dotdot ∧ '/' ∉ s)
    ⟨fun ⟨h1, h2, h3, h4⟩ => ⟨h1, h2, h3, h4⟩, fun ⟨h1, h2, h3, h4⟩ => ⟨h1, h2, h3, h4⟩⟩

theorem IsName.isabs {s : Text} (h : IsName s) : isabs s = false := by
  cases s with
  | nil => rfl
  | cons c s =>
    have hc : c ≠ '/' := by
      rintro rfl
      exact h.noSlash List.mem_cons_self
    simp [PosixPath.isabs, hc]

theorem split_noSlash {s : Text} (h : '/' ∉ s) : split s = [s] := by
  have hjoin : split (['/'].intercalate [s]) = [s] :=
    List.splitOn_intercalate '/' (by simpa using h) (by simp)
  rwa [List.intercalate_singleton] at hjoin

theorem split_append_slash (a b : Text) : split (a ++ '/' :: b) = split a ++ split b :=
  List.splitOn_append_cons_self a b

theorem noSlash_of_mem_split {s c : Text} (h : c ∈ split s) : '/' ∉ c := by
  induction hn : s.length using Nat.strongRecOn generalizing s with
  | ind n ih =>
    by_cases hs : '/' ∈ s
    · obtain ⟨a, b, rfl⟩ := List.append_of_mem hs
      rw [split_append_slash, List.mem_append] at h
      rw [List.length_append, List.length_cons] at hn
      rcases h with h | h
      · exact ih a.length (by omega) h rfl
      · exact ih b.length (by omega) h rfl
    · rw [split_noSlash hs, List.mem_singleton] at h
      rwa [h]

theorem push_name {rooted : Bool} {comps : List Text} {s : Text} (h : IsName s) :
    push rooted comps s = comps ++ [s] := by
  unfold push
  rw [if_neg (by simp [h.ne_nil, h.ne_dot]), if_pos (Or.inl h.ne_dotdot)]

theorem foldl_push_names {rooted : Bool} {names : List Text} (h : ∀ s ∈ names, IsName s) :
    ∀ comps, names.foldl (push rooted) comps = comps ++ names := by
  induction names with
  | nil =>
    intro comps
    exact (List.append_nil comps).symm
  | cons s names ih =>
    intro comps
    obtain ⟨hs, hnames⟩ := List.forall_mem_cons.1 h
    rw [List.foldl_cons, push_name hs, ih hnames, List.append_assoc]
    rfl

/-- **A joined path** has the components of the first part and then those of the second. -/
theorem foldl_push_join {rooted : Bool} {b : Text} (hb : isabs b = false) (a : Text)
    (comps : List Text) :
    (split (join a b)).foldl (push rooted) comps =
      (split b).foldl (push rooted) ((split a).foldl (push rooted) comps) := by
  have hempty : ∀ comps, push rooted comps [] = comps := fun comps => if_pos (Or.inl rfl)
  unfold join
  rw [if_neg (by simp [hb])]
  split
  · rename_i h
    rcases h with rfl | h
    · show _ = (split b).foldl _ ((split []).foldl _ comps)
      have hnil : split [] = [[]] := split_noSlash (by simp)
      rw [hnil, List.foldl_cons, List.foldl_nil, hempty]
      rfl
    · obtain ⟨a', rfl⟩ : ∃ a', a = a' ++ ['/'] :=
        ⟨a.dropLast, (List.dropLast_append_getLast? '/' h).symm⟩
      have hnil : split [] = [[]] := split_noSlash (by simp)
      rw [List.append_assoc, List.singleton_append, split_append_slash, split_append_slash, hnil,
        List.foldl_append, List.foldl_append, List.foldl_cons, List.foldl_nil, hempty]
  · rw [split_append_slash, List.foldl_append]

/-! ## Spelling a path below a directory -/

/-- The path that a walk of a directory spells: the names joined one after the other. -/
def spell (top : Text) (names : List Text) : Text := names.foldl join top

theorem spell_append (top : Text) (names more : List Text) :
    spell top (names ++ more) = spell (spell top names) more := List.foldl_append

theorem spell_concat (top : Text) (names : List Text) (s : Text) :
    spell top (names ++ [s]) = join (spell top names) s := spell_append top names [s]

/-- The components of a path that was spelled. -/
theorem foldl_push_spell {rooted : Bool} {names : List Text} (h : ∀ s ∈ names, IsName s)
    (top : Text) (comps : List Text) :
    (split (spell top names)).foldl (push rooted) comps =
      (split top).foldl (push rooted) comps ++ names := by
  induction names using List.reverseRecOn with
  | nil => exact (List.append_nil _).symm
  | append_singleton names s ih =>
    have hs : IsName s := h s (by simp)
    have hnames : ∀ t ∈ names, IsName t := fun t ht => h t (by simp [ht])
    rw [spell_concat, foldl_push_join hs.isabs, ih hnames, split_noSlash hs.noSlash,
      List.foldl_cons, List.foldl_nil, push_name hs, List.append_assoc]

/-- **Spelling is unique.** -/
theorem spell_inj {top : Text} {names more : List Text} (h : ∀ s ∈ names, IsName s)
    (h' : ∀ s ∈ more, IsName s) (heq : spell top names = spell top more) : names = more := by
  have hcomps : (split (spell top names)).foldl (push true) [] =
      (split top).foldl (push true) [] ++ names := foldl_push_spell h top []
  rw [heq, foldl_push_spell h' top []] at hcomps
  exact (List.append_cancel_left hcomps).symm

theorem join_ne_nil {a b : Text} (hb : b ≠ []) : join a b ≠ [] := by
  unfold join
  split
  · exact hb
  · split
    · simp [hb]
    · simp

theorem isabs_join {a b : Text} (ha : a ≠ []) (hb : isabs b = false) :
    isabs (join a b) = isabs a := by
  cases a with
  | nil => exact absurd rfl ha
  | cons c a =>
    unfold join
    rw [if_neg (by simp [hb])]
    split
    · rfl
    · rfl

theorem isabs_spell {top : Text} (htop : top ≠ []) {names : List Text}
    (h : ∀ s ∈ names, IsName s) : isabs (spell top names) = isabs top := by
  have hspell : ∀ names : List Text, (∀ s ∈ names, IsName s) →
      spell top names ≠ [] ∧ isabs (spell top names) = isabs top := by
    intro names
    induction names using List.reverseRecOn with
    | nil => exact fun _ => ⟨htop, rfl⟩
    | append_singleton names s ih =>
      intro h
      have hs : IsName s := h s (by simp)
      obtain ⟨hne, habs⟩ := ih fun t ht => h t (by simp [ht])
      rw [spell_concat]
      exact ⟨join_ne_nil hs.ne_nil, (isabs_join hne hs.isabs).trans habs⟩
  exact (hspell names h).2

/-! ## Absolute and relative paths -/

/-- A component of a path. -/
def IsComp (s : Text) : Prop := s ≠ [] ∧ '/' ∉ s

theorem push_comps {rooted : Bool} {comps : List Text} {s : Text} (hs : '/' ∉ s)
    (h : ∀ c ∈ comps, IsComp c) : ∀ c ∈ push rooted comps s, IsComp c := by
  intro c hc
  unfold push at hc
  split at hc
  · exact h c hc
  · rename_i hne
    split at hc
    · rcases List.mem_append.1 hc with hc | hc
      · exact h c hc
      · rw [List.mem_singleton.1 hc]
        exact ⟨fun hnil => hne (Or.inl hnil), hs⟩
    · exact h c (List.dropLast_subset _ hc)

theorem normComps_comps (rooted : Bool) (s : Text) : ∀ c ∈ normComps rooted (split s), IsComp c := by
  have hfold : ∀ (l comps : List Text), (∀ c ∈ l, '/' ∉ c) → (∀ c ∈ comps, IsComp c) →
      ∀ c ∈ l.foldl (push rooted) comps, IsComp c := by
    intro l
    induction l with
    | nil => exact fun comps _ h => h
    | cons s l ih =>
      intro comps hl h
      obtain ⟨hs, hl⟩ := List.forall_mem_cons.1 hl
      exact ih _ hl (push_comps hs h)
  exact hfold _ [] (fun c hc => noSlash_of_mem_split hc) (by simp)

theorem parts_intercalate {comps : List Text} (h : ∀ c ∈ comps, IsComp c) :
    parts (['/'].intercalate comps) = comps := by
  unfold parts
  by_cases hnil : comps = []
  · subst hnil
    decide
  · have hsplit : split (['/'].intercalate comps) = comps :=
      List.splitOn_intercalate '/' (fun c hc => (h c hc).2) hnil
    rw [hsplit, List.filter_eq_self]
    intro c hc
    simpa using (h c hc).1

theorem parts_cons_slash (s : Text) : parts ('/' :: s) = parts s := by
  have h := split_append_slash [] s
  have hnil : split [] = [[]] := split_noSlash (by simp)
  rw [List.nil_append, hnil] at h
  unfold parts
  rw [h]
  rfl

theorem parts_slashes (n : Nat) (s : Text) : parts (List.replicate n '/' ++ s) = parts s := by
  induction n with
  | zero => rfl
  | succ n ih => rw [List.replicate_succ, List.cons_append, parts_cons_slash, ih]

theorem initialSlashes_ne_zero {s : Text} (h : isabs s = true) : initialSlashes s ≠ 0 := by
  cases s with
  | nil => cases h
  | cons c s =>
    have hc : c = '/' := by simpa [isabs] using h
    subst hc
    unfold initialSlashes
    split <;> simp_all

/-- **An absolute path** is told by its components. -/
theorem parts_normpath {s : Text} (h : isabs s = true) :
    parts (normpath s) = normComps true (split s) := by
  have hslashes := initialSlashes_ne_zero h
  have hrooted : (initialSlashes s != 0) = true := by simpa using hslashes
  unfold normpath
  dsimp only
  rw [hrooted, if_neg, parts_slashes, parts_intercalate (normComps_comps true s)]
  obtain ⟨n, hn⟩ := Nat.exists_eq_succ_of_ne_zero hslashes
  rw [hn]
  simp [List.replicate_succ]

theorem parts_abspath_spell {cwd top : Text} (hcwd : isabs cwd = true) (htop : top ≠ [])
    {names : List Text} (h : ∀ s ∈ names, IsName s) :
    parts (abspath cwd (spell top names)) = parts (abspath cwd top) ++ names := by
  have hcwd' : cwd ≠ [] := by
    rintro rfl
    cases hcwd
  unfold abspath
  rw [isabs_spell htop h]
  by_cases habs : isabs top = true
  · rw [if_pos habs, if_pos habs, parts_normpath habs,
      parts_normpath ((isabs_spell htop h).trans habs)]
    exact foldl_push_spell h top []
  · have hrel : isabs top = false := by simpa using habs
    rw [if_neg habs, if_neg habs, parts_normpath, parts_normpath]
    · unfold normComps
      rw [foldl_push_join ((isabs_spell htop h).trans hrel), foldl_push_spell h,
        foldl_push_join hrel]
    · rw [isabs_join hcwd' hrel, hcwd]
    · rw [isabs_join hcwd' ((isabs_spell htop h).trans hrel), hcwd]

theorem commonPrefix_append (a b : List Text) : commonPrefix a (a ++ b) = a := by
  induction a with
  | nil => rfl
  | cons x a ih =>
    rw [List.cons_append, commonPrefix, if_pos rfl, ih]

theorem joinAll_names {names : List Text} (h : ∀ s ∈ names, IsName s) :
    joinAll names = ['/'].intercalate names := by
  have hfold : ∀ (names : List Text) (a : Text), IsName a → (∀ s ∈ names, IsName s) →
      ∀ pre, names.foldl join (pre ++ a) = pre ++ ['/'].intercalate (a :: names) := by
    intro names
    induction names with
    | nil =>
      intro a _ _ pre
      rw [List.intercalate_singleton]
      rfl
    | cons s names ih =>
      intro a ha h pre
      obtain ⟨hs, hnames⟩ := List.forall_mem_cons.1 h
      have hlast : ¬(pre ++ a = [] ∨ (pre ++ a).getLast? = some '/') := by
        rw [not_or]
        refine ⟨by simp [ha.ne_nil], fun hlast => ha.noSlash ?_⟩
        rw [List.getLast?_append, List.getLast?_eq_some_getLast ha.ne_nil, Option.some_or] at hlast
        rw [← Option.some.inj hlast]
        exact List.getLast_mem ha.ne_nil
      rw [List.foldl_cons]
      have hjoin : join (pre ++ a) s = (pre ++ (a ++ ['/'])) ++ s := by
        unfold join
        rw [if_neg (by simp [hs.isabs]), if_neg hlast]
        simp
      rw [hjoin, ih s hs hnames, List.intercalate_cons_cons]
      simp
  cases names with
  | nil => rfl
  | cons a names =>
    obtain ⟨ha, hnames⟩ := List.forall_mem_cons.1 h
    exact hfold names a ha hnames []

/-- **A path below a directory** is relative to it what leads there. -/
theorem relpath_spell {cwd top : Text} (hcwd : isabs cwd = true) (htop : top ≠ [])
    {names : List Text} (h : ∀ s ∈ names, IsName s) :
    relpath cwd (spell top names) top =
      if names = [] then dot else ['/'].intercalate names := by
  unfold relpath
  rw [parts_abspath_spell hcwd htop h]
  dsimp only
  rw [commonPrefix_append, Nat.sub_self, List.replicate_zero, List.nil_append, List.drop_left,
    joinAll_names h]

end PosixPath
