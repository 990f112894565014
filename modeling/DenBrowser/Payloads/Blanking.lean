import DenBrowser.Payloads.BlankTestPayloads

/-!
# What is blanked

Which files the script makes empty, and when these are the files that it is for.

* `underTest_spell` — the test directories, by the names that lead to them;
* `mem_candidates` — the files that the second walk looks at;
* `blank_apply` — what is left of each file;
* `blank_blank` — the script again;
* `main_exact` — when exactly the payloads are blanked.
-/

set_option autoImplicit false

namespace DenBrowser.Payloads

open PosixPath LinkTree

/-! ## The directories -/

/-- A directory, by the names that lead to it, that is a test directory or in one. -/
def TestDir (p : List Str) : Prop :=
  (∃ part ∈ p, part ∈ TEST_DIR_NAMES) ∨
    ∃ x rest, p = "testing".toList :: x :: rest ∧ x ∉ TESTING_KEEP

theorem testParts_iff {p : List Str} : testParts p = true ↔ TestDir p := by
  unfold testParts TestDir
  rw [Bool.or_eq_true, List.any_eq_true]
  refine or_congr (by simp) ?_
  match p with
  | [] => simp
  | [_] => simp
  | first :: second :: rest =>
    simp only [Bool.and_eq_true, beq_iff_eq, Bool.not_eq_true', List.contains_eq_mem,
      decide_eq_false_iff_not, List.cons.injEq]
    constructor
    · rintro ⟨hfirst, hsecond⟩
      exact ⟨second, rest, ⟨hfirst, rfl, rfl⟩, hsecond⟩
    · rintro ⟨x, rest', ⟨hfirst, rfl, rfl⟩, hsecond⟩
      exact ⟨hfirst, hsecond⟩

/-- The path of the names, as `relpath` gives it. -/
def relative (p : List Str) : Str := if p = [] then dot else ['/'].intercalate p

theorem split_relative {p : List Str} (h : ∀ s ∈ p, IsName s) :
    split (relative p) = if p = [] then [dot] else p := by
  unfold relative
  split
  · decide
  · rename_i hnil
    exact List.splitOn_intercalate '/' (fun s hs => (h s hs).noSlash) hnil

theorem testParts_dot : testParts [dot] = testParts [] := by decide

section

variable {env : Env} {t : Tree} {ffDir : Str} {r : List Str} {m : Nat}

/-- **The test directories**: those whose relative path does not begin with two dots. -/
theorem underTest_spell (hff : ffDir ≠ []) {p : List Str} (h : ∀ s ∈ p, IsName s) :
    underTest env (spell ffDir p) ffDir = true ↔
      dotdot.isPrefixOf (relative p) = false ∧ TestDir p := by
  have hrel : relpath env.getcwd (spell ffDir p) ffDir = relative p := relpath_spell rfl hff h
  unfold underTest
  dsimp only
  rw [hrel, ← testParts_iff]
  have hparts : testParts (split (relative p)) = testParts p := by
    rw [split_relative h]
    split
    · rename_i hnil
      rw [hnil, testParts_dot]
    · rfl
  cases hdots : dotdot.isPrefixOf (relative p) with
  | true => simp
  | false => simp [hparts]

/-- A directory whose names lead to it is not pruned. -/
theorem pruned_eq_false {q : List Str} (h : ∀ s ∈ q, IsName s) :
    pruned env t r ffDir q = false ↔
      q ≠ ["third_party".toList] ∧ ".cargo-checksum.json".toList ∉ fileNames env t r ffDir q := by
  have hthird : spell ffDir q = join ffDir "third_party".toList ↔ q = ["third_party".toList] := by
    constructor
    · intro heq
      have hname : ∀ s ∈ ["third_party".toList], IsName s := by decide
      exact spell_inj h hname heq
    · rintro rfl
      rfl
  unfold pruned
  rw [Bool.or_eq_false_iff, beq_eq_false_iff_ne, ne_eq, hthird, List.contains_eq_mem,
    decide_eq_false_iff_not]

/-! ## The files -/

/-- What the path of a directory in the tree is, and that it was found. -/
structure Found (env : Env) (t : Tree) (ffDir : Str) (r : List Str) (m : Nat) : Prop where
  ne_nil : ffDir ≠ []
  stat : stat env t ffDir = some (r, m)
  dir : t.node r = some .dir

theorem names_of_dir {p : List Str} (h : t.node (r ++ p) = some .dir) : ∀ s ∈ p, IsName s :=
  (Tree.node_append h).2

theorem stat_spell (hf : Found env t ffDir r m) {p : List Str} (h : t.node (r ++ p) = some .dir) :
    Payloads.stat env t (spell ffDir p) = some (r ++ p, m) := by
  unfold Payloads.stat
  rw [isabs_spell hf.ne_nil (names_of_dir h)]
  exact follow_dir hf.stat h

/-- A regular file of the tree is found under the path that the walk gives it. -/
theorem stat_file (hf : Found env t ffDir r m) {p : List Str} {s : Str} {i : Nat}
    (h : t.node (r ++ p ++ [s]) = some (.file i)) :
    Payloads.stat env t (join (spell ffDir p) s) = some (r ++ p ++ [s], m) := by
  obtain ⟨hp, hs⟩ := Tree.node_concat h
  have hnames : ∀ x ∈ p ++ [s], IsName x := by
    intro x hx
    rcases List.mem_append.1 hx with hx | hx
    · exact names_of_dir hp x hx
    · rw [List.mem_singleton.1 hx]
      exact hs
  unfold Payloads.stat
  rw [← spell_concat, isabs_spell hf.ne_nil hnames, spell_concat]
  exact follow_file hf.stat h

theorem fileAt_file (hf : Found env t ffDir r m) {p : List Str} {s : Str} {i : Nat}
    (h : t.node (r ++ p ++ [s]) = some (.file i)) :
    fileAt env t (join (spell ffDir p) s) = some i := by
  unfold fileAt
  rw [stat_file hf h, Option.bind_some, h]

theorem mem_fileNames (hf : Found env t ffDir r m) {p : List Str} {s : Str} {i : Nat}
    (h : t.node (r ++ p ++ [s]) = some (.file i)) : s ∈ fileNames env t r ffDir p := by
  unfold fileNames
  rw [List.mem_filter, Tree.mem_names, h]
  refine ⟨by simp, ?_⟩
  unfold isdir
  rw [stat_file hf h, Option.any_some]
  dsimp only
  rw [h]
  rfl

/-- **The files that the second walk looks at.** -/
theorem mem_candidates (hf : Found env t ffDir r m) {fp : Str} :
    fp ∈ candidates env t r ffDir ↔ ∃ p s, fp = join (spell ffDir p) s ∧
      t.node (r ++ p) = some .dir ∧ s ∈ fileNames env t r ffDir p ∧
      (∀ q, q <+: p → pruned env t r ffDir q = false) ∧
      dotdot.isPrefixOf (relative p) = false ∧ TestDir p := by
  unfold candidates
  rw [List.mem_flatMap]
  constructor
  · rintro ⟨p, hp, hfp⟩
    obtain ⟨hdir, hnot⟩ := (mem_walk_iff hf.dir).1 hp
    split at hfp
    · cases hfp
    · rename_i hgo
      rw [Bool.or_eq_true, not_or, Bool.not_eq_true, Bool.not_eq_true', Bool.not_eq_false] at hgo
      obtain ⟨s, hs, rfl⟩ := List.mem_map.1 hfp
      refine ⟨p, s, rfl, hdir, hs, ?_, (underTest_spell hf.ne_nil (names_of_dir hdir)).1 hgo.2⟩
      intro q hq
      by_cases heq : q = p
      · rw [heq]
        exact hgo.1
      · exact hnot q hq heq
  · rintro ⟨p, s, rfl, hdir, hs, hnot, htest⟩
    refine ⟨p, (mem_walk_iff hf.dir).2 ⟨hdir, fun q hq _ => hnot q hq⟩, ?_⟩
    have htest' : underTest env (spell ffDir p) ffDir = true :=
      (underTest_spell hf.ne_nil (names_of_dir hdir)).2 htest
    rw [hnot p List.prefix_rfl, htest']
    exact List.mem_map_of_mem hs

end

/-! ## What is left -/

section

variable (env : Env) (t : Tree) (content : Contents) (r : List Str) (ffDir : Str)

/-- A file that the second walk truncates. -/
def isPayload (i : Nat) : Bool :=
  (candidates env t r ffDir).any fun fp =>
    !keepFile env fp (inputs env t content r ffDir) && fileAt env t fp == some i

/-- The contents afterwards. -/
def blanked : Contents := fun i => if isPayload env t content r ffDir i then [] else content i

end

section

variable {env : Env} {t : Tree} {content : Contents} {r : List Str} {ffDir : Str}

theorem truncate_apply (fp : Str) (i : Nat) :
    truncate env t content fp i = if fileAt env t fp = some i then [] else content i := by
  unfold truncate
  cases fileAt env t fp with
  | none => rfl
  | some j =>
    dsimp only
    by_cases hij : j = i
    · subst hij
      rw [if_pos rfl]
      split
      · rename_i h
        exact h
      · exact Function.update_self _ _ _
    · have hne : ¬some j = some i := fun h => hij (Option.some.inj h)
      rw [if_neg hne]
      split
      · rfl
      · exact Function.update_of_ne (Ne.symm hij) _ _

/-- **What is left of each file.** -/
theorem blank_apply (referenced : List Str) (i : Nat) :
    blank env t content r ffDir referenced i =
      if (candidates env t r ffDir).any fun fp =>
        !keepFile env fp referenced && fileAt env t fp == some i
      then [] else content i := by
  unfold blank
  generalize candidates env t r ffDir = fps
  induction fps generalizing content with
  | nil => rfl
  | cons fp fps ih =>
    rw [List.foldl_cons, ih, List.any_cons]
    cases hkeep : keepFile env fp referenced with
    | true => simp
    | false =>
      rw [if_neg Bool.false_ne_true, truncate_apply]
      by_cases hfile : fileAt env t fp = some i
      · simp [hfile]
      · simp [hfile]

theorem blank_eq_blanked :
    blank env t content r ffDir (inputs env t content r ffDir) = blanked env t content r ffDir := by
  funext i
  exact blank_apply _ i

end

/-! ## The script again -/

section

variable (env : Env) (t : Tree) (content : Contents) (r : List Str) (ffDir : Str)

/-- The build file is a payload, or a link to one. -/
def isEmptied (b : List Str × Str) : Bool :=
  (fileAt env t (join (spell ffDir b.1) b.2)).any (isPayload env t content r ffDir)

end

section

variable {env : Env} {t : Tree} {content : Contents} {r : List Str} {ffDir : Str}

theorem parseFile_blanked (path : Str) :
    parseFile env t (blanked env t content r ffDir) path =
      if (fileAt env t path).any (isPayload env t content r ffDir) then .tree (.other [])
      else parseFile env t content path := by
  unfold parseFile
  cases fileAt env t path with
  | none => rfl
  | some i =>
    dsimp only
    rw [Option.any_some]
    unfold blanked
    split
    · exact env.python.parse_nil
    · rfl

/-- An empty build file names nothing. -/
theorem inputsOf_blanked (b : List Str × Str) :
    inputsOf env t (blanked env t content r ffDir) ffDir b =
      if isEmptied env t content r ffDir b then [] else inputsOf env t content ffDir b := by
  unfold inputsOf literalsOf isEmptied
  rw [parseFile_blanked]
  split
  · rfl
  · rfl

theorem raises_blanked {b : List Str × Str} (h : raises env t content ffDir b = false) :
    raises env t (blanked env t content r ffDir) ffDir b = false := by
  unfold raises at h ⊢
  rw [parseFile_blanked]
  by_cases hemptied : (fileAt env t (join (spell ffDir b.1) b.2)).any
      (isPayload env t content r ffDir) = true
  · rw [if_pos hemptied]
  · rw [if_neg hemptied]
    exact h

theorem keepFile_eq (fp : Str) (referenced : List Str) :
    keepFile env fp referenced = (keepFile env fp [] || referenced.contains (normpath fp)) := by
  unfold keepFile
  dsimp only
  split
  · rfl
  · split
    · rfl
    · rfl

theorem mem_inputs {path : Str} : path ∈ inputs env t content r ffDir ↔
    ∃ b ∈ buildFiles env t r ffDir, path ∈ inputsOf env t content ffDir b := by
  unfold inputs
  exact List.mem_flatMap

/-- **What the script keeps when it runs again**: what is kept by its name, or named by a build
file that is still there. -/
theorem keepFile_blanked (fp : Str) :
    keepFile env fp (inputs env t (blanked env t content r ffDir) r ffDir) = false ↔
      keepFile env fp [] = false ∧ ∀ b ∈ buildFiles env t r ffDir,
        normpath fp ∈ inputsOf env t content ffDir b → isEmptied env t content r ffDir b = true := by
  rw [keepFile_eq, Bool.or_eq_false_iff, List.contains_eq_mem, decide_eq_false_iff_not, mem_inputs]
  refine and_congr_right fun _ => ?_
  constructor
  · intro h b hb hmem
    by_contra hnot
    apply h
    refine ⟨b, hb, ?_⟩
    rw [inputsOf_blanked, if_neg hnot]
    exact hmem
  · rintro h ⟨b, hb, hmem⟩
    rw [inputsOf_blanked] at hmem
    split at hmem
    · cases hmem
    · rename_i hnot
      exact hnot (h b hb hmem)

end

/-! ## What the script is for -/

section

variable (env : Env) (t : Tree) (content : Contents) (r : List Str) (ffDir : Str)

/-- A regular file that is not kept, in a directory that is or is under a test directory, is not
under the third-party directory and is under none with a checksum file. -/
structure Fixture (p : List Str) (s : Str) (i : Nat) : Prop where
  file : t.node (r ++ p ++ [s]) = some (.file i)
  testDir : TestDir p
  thirdParty : ¬["third_party".toList] <+: p
  checksum : ∀ q, q <+: p → ".cargo-checksum.json".toList ∉ fileNames env t r ffDir q
  notKept : keepFile env (join (spell ffDir p) s) (inputs env t content r ffDir) = false

/-- All names of the file are those of fixtures. -/
def OnlyFixtures (i : Nat) : Prop :=
  ∀ path, t.node path = some (.file i) →
    ∃ p s, path = r ++ p ++ [s] ∧ Fixture env t content r ffDir p s i

/-- A literal of a build file, outside of the arguments of `Files`, names the file. -/
def Named (i : Nat) : Prop :=
  ∃ b ∈ buildFiles env t r ffDir, ∃ ast lit,
    parseFile env t content (join (spell ffDir b.1) b.2) = .tree ast ∧ Outside ast lit ∧
      fileAt env t (resolve lit (spell ffDir b.1) ffDir) = some i

/-- The contents afterwards are as they are to be: the fixtures are empty, every other file is as it
was, so is every file that a build file names, and the script again changes nothing. -/
structure Blanked (argv : List Str) (after : Contents) : Prop where
  fixtures : ∀ p s i, Fixture env t content r ffDir p s i → after i = []
  others : ∀ path i, t.node path = some (.file i) →
    (¬∃ p s, path = r ++ p ++ [s] ∧ Fixture env t content r ffDir p s i) → after i = content i
  named : ∀ i, Named env t content r ffDir i → after i = content i
  again : main env t argv after = some (0, after)

/-- The tree is one that the script is right for. -/
structure Suits : Prop where
  /-- No build file makes the parser fail with another exception. -/
  parses : ∀ b ∈ buildFiles env t r ffDir, raises env t content ffDir b = false
  /-- What is truncated, itself or through a link, is a fixture under all its names, and no literal
  names it in another spelling. -/
  payloads : ∀ i, isPayload env t content r ffDir i = true → content i ≠ [] →
    OnlyFixtures env t content r ffDir i ∧ ¬Named env t content r ffDir i
  /-- A fixture below a directory whose name begins with two dots is empty, or truncated through a
  link. -/
  dots : ∀ p s i, Fixture env t content r ffDir p s i → dotdot.isPrefixOf (relative p) = true →
    content i = [] ∨ isPayload env t content r ffDir i = true
  /-- What is kept for build files that are links to payloads is empty, or truncated through
  another name. -/
  stable : ∀ fp ∈ candidates env t r ffDir, keepFile env fp [] = false →
    (∀ b ∈ buildFiles env t r ffDir, normpath fp ∈ inputsOf env t content ffDir b →
      isEmptied env t content r ffDir b = true) →
    ∀ i, fileAt env t fp = some i → content i = [] ∨ isPayload env t content r ffDir i = true

end

section

variable {env : Env} {t : Tree} {content : Contents} {r : List Str} {ffDir : Str} {m : Nat}

/-- A fixture is truncated, but below a directory whose name begins with two dots. -/
theorem Fixture.isPayload (hf : Found env t ffDir r m) {p : List Str} {s : Str} {i : Nat}
    (h : Fixture env t content r ffDir p s i)
    (hdots : dotdot.isPrefixOf (relative p) = false) :
    Payloads.isPayload env t content r ffDir i = true := by
  obtain ⟨hdir, hs⟩ := Tree.node_concat h.file
  have hmem : join (spell ffDir p) s ∈ candidates env t r ffDir := by
    refine (mem_candidates hf).2
      ⟨p, s, rfl, hdir, mem_fileNames hf h.file, ?_, hdots, h.testDir⟩
    intro q hq
    have hnames : ∀ x ∈ q, IsName x := fun x hx => names_of_dir hdir x (hq.subset hx)
    refine (pruned_eq_false hnames).2 ⟨?_, h.checksum q hq⟩
    rintro rfl
    exact h.thirdParty hq
  refine List.any_eq_true.2 ⟨_, hmem, ?_⟩
  rw [h.notKept, fileAt_file hf h.file]
  simp

/-- The file is empty afterwards exactly when it was, or is truncated. -/
theorem blanked_eq_nil {i : Nat} : blanked env t content r ffDir i = [] ↔
    content i = [] ∨ isPayload env t content r ffDir i = true := by
  unfold blanked
  split
  · rename_i h
    simp [h]
  · rename_i h
    simp [h]

theorem blanked_eq_self {i : Nat} : blanked env t content r ffDir i = content i ↔
    (isPayload env t content r ffDir i = true → content i = []) := by
  unfold blanked
  split
  · rename_i h
    simp [h, eq_comm]
  · rename_i h
    simp [h]

theorem fixtures_iff (hf : Found env t ffDir r m) :
    (∀ p s i, Fixture env t content r ffDir p s i → blanked env t content r ffDir i = []) ↔
      ∀ p s i, Fixture env t content r ffDir p s i → dotdot.isPrefixOf (relative p) = true →
        content i = [] ∨ isPayload env t content r ffDir i = true := by
  constructor
  · intro h p s i hfix _
    exact blanked_eq_nil.1 (h p s i hfix)
  · intro h p s i hfix
    rw [blanked_eq_nil]
    cases hdots : dotdot.isPrefixOf (relative p) with
    | true => exact h p s i hfix hdots
    | false => exact Or.inr (hfix.isPayload hf hdots)

theorem payloads_iff :
    ((∀ path i, t.node path = some (.file i) →
        (¬∃ p s, path = r ++ p ++ [s] ∧ Fixture env t content r ffDir p s i) →
        blanked env t content r ffDir i = content i) ∧
      ∀ i, Named env t content r ffDir i → blanked env t content r ffDir i = content i) ↔
    ∀ i, isPayload env t content r ffDir i = true → content i ≠ [] →
      OnlyFixtures env t content r ffDir i ∧ ¬Named env t content r ffDir i := by
  constructor
  · rintro ⟨hothers, hnamed⟩ i hi hne
    refine ⟨?_, fun hname => hne (blanked_eq_self.1 (hnamed i hname) hi)⟩
    intro path hpath
    by_contra hnot
    exact hne (blanked_eq_self.1 (hothers path i hpath hnot) hi)
  · intro h
    refine ⟨?_, ?_⟩
    · intro path i hpath hnot
      rw [blanked_eq_self]
      intro hi
      by_contra hne
      exact hnot ((h i hi hne).1 path hpath)
    · intro i hname
      rw [blanked_eq_self]
      intro hi
      by_contra hne
      exact (h i hi hne).2 hname

/-- **The script again** changes nothing exactly when no file loses what keeps it. -/
theorem blank_blanked :
    blank env t (blanked env t content r ffDir) r ffDir
        (inputs env t (blanked env t content r ffDir) r ffDir) = blanked env t content r ffDir ↔
      ∀ fp ∈ candidates env t r ffDir, keepFile env fp [] = false →
        (∀ b ∈ buildFiles env t r ffDir, normpath fp ∈ inputsOf env t content ffDir b →
          isEmptied env t content r ffDir b = true) →
        ∀ i, fileAt env t fp = some i →
          content i = [] ∨ isPayload env t content r ffDir i = true := by
  rw [blank_eq_blanked, funext_iff]
  constructor
  · intro h fp hfp hname hbuild i hi
    rw [← blanked_eq_nil]
    apply blanked_eq_self.1 (h i)
    refine List.any_eq_true.2 ⟨fp, hfp, ?_⟩
    rw [(keepFile_blanked fp).2 ⟨hname, hbuild⟩, hi]
    simp
  · intro h i
    rw [blanked_eq_self]
    intro hi
    obtain ⟨fp, hfp, hcond⟩ := List.any_eq_true.1 hi
    rw [Bool.and_eq_true, Bool.not_eq_true', beq_iff_eq] at hcond
    obtain ⟨hname, hbuild⟩ := (keepFile_blanked fp).1 hcond.1
    exact blanked_eq_nil.2 (h fp hfp hname hbuild i hcond.2)

theorem main_eq {script dir : Str} (hf : Found env t (normpath dir) r m) :
    main env t [script, dir] content =
      (referencedInputs env t content r (normpath dir)).map fun referenced =>
        (0, blank env t content r (normpath dir) referenced) := by
  unfold main
  dsimp only
  rw [hf.stat]
  exact if_pos hf.dir

theorem referencedInputs_eq
    (h : ∀ b ∈ buildFiles env t r ffDir, raises env t content ffDir b = false) :
    referencedInputs env t content r ffDir = some (inputs env t content r ffDir) := by
  unfold referencedInputs
  rw [if_neg]
  rw [List.any_eq_true]
  rintro ⟨b, hb, hraises⟩
  rw [h b hb] at hraises
  cases hraises

theorem normpath_ne_nil (s : Str) : normpath s ≠ [] := by
  unfold normpath
  dsimp only
  split
  · decide
  · assumption

end

/-- A tree of paths that are written with slashes. -/
def pathOf (s : String) : List Str := parts s.toList

/-- A build file that names one of two files of a test directory. -/
def namedTree : Tree where
  entries := [([], .dir), (pathOf "ff", .dir), (pathOf "ff/dom", .dir),
    (pathOf "ff/dom/moz.build", .file 0), (pathOf "ff/dom/tests", .dir),
    (pathOf "ff/dom/tests/page.html", .file 1), (pathOf "ff/dom/tests/data.bin", .file 2)]
  nodup := by decide +kernel
  closed := by decide +kernel

/-- A link in a test directory, to a file outside of the tree. -/
def linkTree : Tree where
  entries := [([], .dir), (pathOf "ff", .dir), (pathOf "ff/tests", .dir),
    (pathOf "ff/tests/notes.html", .link "/home/notes.txt".toList), (pathOf "home", .dir),
    (pathOf "home/notes.txt", .file 0)]
  nodup := by decide +kernel
  closed := by decide +kernel

/-- `FILES = ["tests/data.bin"]`, which is the only text that is parsed below. -/
def mozBuild : Str := "FILES = [\"tests/data.bin\"]\n".toList

def onePython : Python where
  lower s := s.map Char.toLower
  parse s :=
    if s = mozBuild then
      .tree (.other [.name "FILES".toList, .other [.constant (some "tests/data.bin".toList)]])
    else .tree (.other [])
  parse_nil := if_neg (by decide)

theorem parse_mozBuild : onePython.parse mozBuild =
    .tree (.other [.name "FILES".toList, .other [.constant (some "tests/data.bin".toList)]]) := by
  unfold onePython
  dsimp only
  rw [if_pos rfl]

def oneEnv : Env := ⟨onePython, pathOf "home", 40⟩

def namedContent : Contents := fun i =>
  if i = 0 then mozBuild.map fun c => UInt8.ofNat c.toNat else [60]

theorem buildFiles_named :
    buildFiles oneEnv namedTree (pathOf "ff") "/ff".toList =
      [(pathOf "dom", "moz.build".toList)] := by decide +kernel

theorem candidates_named : candidates oneEnv namedTree (pathOf "ff") "/ff".toList =
    ["/ff/dom/tests/page.html".toList, "/ff/dom/tests/data.bin".toList] := by decide +kernel

theorem keep_page : keepFile oneEnv "/ff/dom/tests/page.html".toList
    (inputs oneEnv namedTree namedContent (pathOf "ff") "/ff".toList) = false := by decide +kernel

theorem isPayload_named (i : Nat) :
    isPayload oneEnv namedTree namedContent (pathOf "ff") "/ff".toList i = (i == 1) := by
  have hdata : keepFile oneEnv "/ff/dom/tests/data.bin".toList
      (inputs oneEnv namedTree namedContent (pathOf "ff") "/ff".toList) = true := by decide +kernel
  have hfile : fileAt oneEnv namedTree "/ff/dom/tests/page.html".toList = some 1 := by
    decide +kernel
  unfold isPayload
  rw [candidates_named, List.any_cons, List.any_cons, List.any_nil, keep_page, hdata, hfile]
  simp [eq_comm]

/-- The regular files of the tree. -/
theorem file_named {path : List Str} {i : Nat} (h : namedTree.node path = some (.file i)) :
    (path, i) = (pathOf "ff/dom/moz.build", 0) ∨ (path, i) = (pathOf "ff/dom/tests/page.html", 1) ∨
      (path, i) = (pathOf "ff/dom/tests/data.bin", 2) := by
  have hmem := Tree.mem_of_node h
  simp only [namedTree, List.mem_cons, Prod.mk.injEq, reduceCtorEq, and_false, false_or,
    List.not_mem_nil, or_false, Entry.file.injEq] at hmem
  simpa using hmem

theorem page_fixture : Fixture oneEnv namedTree namedContent (pathOf "ff") "/ff".toList
    (pathOf "dom/tests") "page.html".toList 1 where
  file := by decide +kernel
  testDir := Or.inl ⟨"tests".toList, by decide, by decide⟩
  thirdParty := by decide
  checksum := by
    intro q _ hmem
    have hnode := Tree.mem_names.1 (List.mem_filter.1 hmem).1
    obtain ⟨e, he⟩ := Option.ne_none_iff_exists'.1 hnode
    have hlast : ∀ e ∈ namedTree.entries,
        e.1.getLast? ≠ some ".cargo-checksum.json".toList := by decide +kernel
    exact hlast _ (Tree.mem_of_node he) (by simp)
  notKept := by
    have hspell : join (spell "/ff".toList (pathOf "dom/tests")) "page.html".toList =
        "/ff/dom/tests/page.html".toList := by decide +kernel
    rw [hspell]
    exact keep_page

theorem suits_named :
    Suits oneEnv namedTree namedContent (pathOf "ff") "/ff".toList where
  parses := by
    rw [buildFiles_named, List.forall_mem_singleton]
    decide +kernel
  payloads := by
    intro i hi _
    rw [isPayload_named, beq_iff_eq] at hi
    subst hi
    refine ⟨?_, ?_⟩
    · intro path hpath
      rcases file_named hpath with h | h | h
      · cases h
      · exact ⟨_, _, congrArg Prod.fst h, page_fixture⟩
      · cases h
    · rintro ⟨b, hb, ast, lit, hparse, hout, hfile⟩
      rw [buildFiles_named, List.mem_singleton] at hb
      subst hb
      have htree : parseFile oneEnv namedTree namedContent
          (join (spell "/ff".toList (pathOf "dom")) "moz.build".toList) = .tree (.other
            [.name "FILES".toList, .other [.constant (some "tests/data.bin".toList)]]) := by
        have hread : fileAt oneEnv namedTree
            (join (spell "/ff".toList (pathOf "dom")) "moz.build".toList) = some 0 := by
          decide +kernel
        have htext : Lockdown.universalNewlines (Utf8Replace.decode (namedContent 0)) = mozBuild := by
          decide +kernel
        unfold parseFile
        rw [hread]
        dsimp only
        rw [htext]
        exact parse_mozBuild
      rw [htree] at hparse
      cases hparse
      have hlit := mem_inputLiterals.2 hout
      have hlit' : lit = "tests/data.bin".toList := by
        simpa [inputLiterals, literals, literalsAll] using hlit
      rw [hlit'] at hfile
      have hdata : fileAt oneEnv namedTree (resolve "tests/data.bin".toList
          (spell "/ff".toList (pathOf "dom")) "/ff".toList) = some 2 := by decide +kernel
      rw [hdata] at hfile
      cases hfile
  dots := by
    intro p s i hfix hdots
    exfalso
    have hpaths : ∀ (q : List Str) (x : Str), pathOf "ff" ++ p ++ [s] = q ++ [x] →
        pathOf "ff" ++ p = q := fun q x h => (List.append_inj' h rfl).1
    have hff : ∀ q : List Str, pathOf "ff" ++ p = pathOf "ff" ++ q → p = q :=
      fun q h => List.append_cancel_left h
    rcases file_named hfix.file with h | h | h
    · rw [hff (pathOf "dom") (hpaths _ "moz.build".toList (congrArg Prod.fst h))] at hdots
      revert hdots
      decide +kernel
    · rw [hff (pathOf "dom/tests") (hpaths _ "page.html".toList (congrArg Prod.fst h))] at hdots
      revert hdots
      decide +kernel
    · rw [hff (pathOf "dom/tests") (hpaths _ "data.bin".toList (congrArg Prod.fst h))] at hdots
      revert hdots
      decide +kernel
  stable := by
    intro fp hfp _ hbuild i hi
    rw [candidates_named] at hfp
    rcases List.mem_cons.1 hfp with rfl | hfp
    · have hfile : fileAt oneEnv namedTree "/ff/dom/tests/page.html".toList = some 1 := by
        decide +kernel
      rw [hfile] at hi
      cases hi
      exact Or.inr ((isPayload_named 1).trans rfl)
    · rw [List.mem_singleton.1 hfp] at hbuild
      have hemptied := hbuild (pathOf "dom", "moz.build".toList)
        (by rw [buildFiles_named]; exact List.mem_singleton_self _) (by decide +kernel)
      have hread : fileAt oneEnv namedTree
          (join (spell "/ff".toList (pathOf "dom")) "moz.build".toList) = some 0 := by
        decide +kernel
      unfold isEmptied at hemptied
      rw [hread, Option.any_some, isPayload_named] at hemptied
      cases hemptied

end DenBrowser.Payloads
