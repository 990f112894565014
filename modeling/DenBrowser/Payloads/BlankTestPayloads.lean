import DenBrowser.Lib.LinkTree
import DenBrowser.Lib.Utf8Replace
import DenBrowser.Lockdown.LockPref

/-!
# Blanking test payloads

`scripts/blank-test-payloads.py` walks the source tree of the browser twice: once for the build
files, whose string literals name inputs, and once for the files in test directories, which it
truncates unless they are kept.  Directories and names stay; what the script changes is the content
of regular files.

* `main` — the script, from its arguments and the contents to the contents;
* `mem_inputLiterals` — a literal counts outside of the arguments of `Files`.
-/

set_option autoImplicit false

namespace DenBrowser.Payloads

open PosixPath LinkTree

/-! ## Build files -/

/-- A node of `ast`. -/
inductive Ast
  /-- A constant; `some` when it is a string. -/
  | constant (value : Option Str)
  | name (id : Str)
  | attribute (value : Ast) (attr : Str)
  | call (func : Ast) (args keywords : List Ast)
  | other (children : List Ast)

/-- What becomes of the text of a build file. -/
inductive Parsed
  | tree (ast : Ast)
  /-- `OSError` and `SyntaxError` are caught. -/
  | skipped
  | raised

/-- The function that is called is `Files`. -/
def isFiles (fn : Ast) : Bool :=
  match fn with
  | .name id => id == "Files".toList
  | .attribute _ attr => attr == "Files".toList
  | _ => false

mutual

/-- The string literals, without those that are skipped. -/
def literals (skip : Bool) : Ast → List Str
  | .constant none => []
  | .constant (some s) => if skip then [] else [s]
  | .name _ => []
  | .attribute value _ => literals skip value
  | .call func args keywords =>
    literals skip func ++ (literalsAll (skip || isFiles func) args ++ literalsAll skip keywords)
  | .other children => literalsAll skip children

def literalsAll (skip : Bool) : List Ast → List Str
  | [] => []
  | node :: nodes => literals skip node ++ literalsAll skip nodes

end

def inputLiterals (tree : Ast) : List Str := literals false tree

/-- What Python does: `str.lower`, and `ast.parse`, for which an empty text is an empty module. -/
structure Python where
  lower : Str → Str
  parse : Str → Parsed
  parse_nil : parse [] = .tree (.other [])

/-! ## The files -/

/-- What the script runs in: the directory it is in, and how many links a path may have. -/
structure Env where
  python : Python
  cwd : List Str
  maxLinks : Nat

/-- The contents of regular files. -/
abbrev Contents := Nat → Bytes

def Env.getcwd (env : Env) : Str := '/' :: ['/'].intercalate env.cwd

section

variable (env : Env) (t : Tree)

/-- The object at the end of a path, with how many links may still be followed. -/
def stat (path : Str) : Option (List Str × Nat) :=
  follow t env.maxLinks (if isabs path then [] else env.cwd) (split path)

def isdir (path : Str) : Bool := (stat env t path).any fun r => t.node r.1 == some .dir

/-- The regular file at the end of a path. -/
def fileAt (path : Str) : Option Nat :=
  (stat env t path).bind fun r =>
    match t.node r.1 with
    | some (.file i) => some i
    | _ => none

def isfile (path : Str) : Bool := (fileAt env t path).isSome

/-! ## The script -/

def TEST_DIR_NAMES : List Str :=
  ["test", "tests", "mochitest", "mochitests", "reftest", "reftests", "crashtests", "crashtest",
    "jit-test", "gtest"].map String.toList

def TESTING_KEEP : List Str := ["mozbase".toList]

def KEEP_EXTS : List Str :=
  [".yaml", ".yml", ".toml", ".ini", ".conf", ".cfg", ".json5",
    ".pem", ".crt", ".cer", ".der", ".key", ".pub", ".p12", ".pfx",
    ".py", ".cpp", ".cc", ".cxx", ".c", ".m", ".mm", ".h", ".hh", ".hpp",
    ".hxx", ".inc", ".rs", ".idl", ".webidl", ".ipdl", ".ipdlh",
    ".s", ".asm", ".def", ".rc",
    ".in", ".mk", ".m4", ".sh", ".build"].map String.toList

def KEEP_NAMES : List Str :=
  ["moz.build", "moz.configure", "jar.mn", "makefile", "makefile.in", "configure",
    "configure.in"].map String.toList

def resolve (token baseDir ffDir : Str) : Str :=
  if token.head? = some '/' then normpath (join ffDir (token.dropWhile fun c => c == '/'))
  else normpath (join baseDir token)

/-- The loop of `under_test`. -/
def testParts (parts : List Str) : Bool :=
  (parts.any fun part => TEST_DIR_NAMES.contains part) ||
    match parts with
    | first :: second :: _ => first == "testing".toList && !TESTING_KEEP.contains second
    | _ => false

def underTest (path ffDir : Str) : Bool :=
  let rel := relpath env.getcwd path ffDir
  if dotdot.isPrefixOf rel then false else testParts (split rel)

/-- A directory `r` that is walked under the name `ffDir`: what `os.walk` gives as the files of the
directory below it that `p` leads to. -/
def fileNames (r : List Str) (ffDir : Str) (p : List Str) : List Str :=
  (t.names (r ++ p)).filter fun s => !isdir env t (join (spell ffDir p) s)

def isBuildFile (name : Str) : Bool :=
  name == "moz.build".toList || ".mozbuild".toList.isSuffixOf name

/-- The build files of the tree, each with its directory. -/
def buildFiles (r : List Str) (ffDir : Str) : List (List Str × Str) :=
  (walk t r (fun _ => false) (t.depth + 1) []).flatMap fun p =>
    ((fileNames env t r ffDir p).filter isBuildFile).map fun s => (p, s)

/-- A build file, read in text mode and parsed. -/
def parseFile (content : Contents) (path : Str) : Parsed :=
  match fileAt env t path with
  | none => .skipped
  | some i => env.python.parse (Lockdown.universalNewlines (Utf8Replace.decode (content i)))

def parsedLiterals : Parsed → List Str
  | .tree ast => inputLiterals ast
  | _ => []

/-- The literals of a build file. -/
def literalsOf (content : Contents) (ffDir : Str) (b : List Str × Str) : List Str :=
  parsedLiterals (parseFile env t content (join (spell ffDir b.1) b.2))

def raises (content : Contents) (ffDir : Str) (b : List Str × Str) : Bool :=
  match parseFile env t content (join (spell ffDir b.1) b.2) with
  | .raised => true
  | _ => false

/-- A literal that is looked at: not empty, without a wildcard or a colon. -/
def isInput (lit : Str) : Bool :=
  !(lit == [] || lit.contains '*' || lit.contains '?' || lit.contains ':')

/-- The inputs that one literal names, in a build file of the directory. -/
def referencedBy (ffDir dirpath lit : Str) : List Str :=
  let ap := resolve lit dirpath ffDir
  if isInput lit && (underTest env ap ffDir && isfile env t ap) then [ap] else []

/-- The inputs that the literals of a build file name. -/
def inputsOf (content : Contents) (ffDir : Str) (b : List Str × Str) : List Str :=
  (literalsOf env t content ffDir b).flatMap (referencedBy env t ffDir (spell ffDir b.1))

/-- The inputs that the build files name. -/
def inputs (content : Contents) (r : List Str) (ffDir : Str) : List Str :=
  (buildFiles env t r ffDir).flatMap (inputsOf env t content ffDir)

/-- `referenced_inputs`; `none` is an exception. -/
def referencedInputs (content : Contents) (r : List Str) (ffDir : Str) : Option (List Str) :=
  if (buildFiles env t r ffDir).any (raises env t content ffDir) then none
  else some (inputs env t content r ffDir)

def keepFile (fp : Str) (referenced : List Str) : Bool :=
  let name := env.python.lower (basename fp)
  if KEEP_NAMES.contains name || ".mozbuild".toList.isSuffixOf name then true
  else if KEEP_EXTS.contains (extension name) then true
  else referenced.contains (normpath fp)

/-- The directories that the second walk does not go into. -/
def pruned (r : List Str) (ffDir : Str) (p : List Str) : Bool :=
  spell ffDir p == join ffDir "third_party".toList ||
    (fileNames env t r ffDir p).contains ".cargo-checksum.json".toList

/-- The files that the second walk looks at. -/
def candidates (r : List Str) (ffDir : Str) : List Str :=
  (walk t r (pruned env t r ffDir) (t.depth + 1) []).flatMap fun p =>
    if pruned env t r ffDir p || !underTest env (spell ffDir p) ffDir then []
    else (fileNames env t r ffDir p).map (join (spell ffDir p))

/-- `open(fp, "w")`, of a file that is not empty. -/
def truncate (content : Contents) (fp : Str) : Contents :=
  match fileAt env t fp with
  | none => content
  | some i => if content i = [] then content else Function.update content i []

/-- The second walk. -/
def blank (content : Contents) (r : List Str) (ffDir : Str) (referenced : List Str) : Contents :=
  (candidates env t r ffDir).foldl
    (fun content fp => if keepFile env fp referenced then content else truncate env t content fp)
    content

/-- The exit code and the contents afterwards; `none` is an exception. -/
def main (argv : List Str) (content : Contents) : Option (Nat × Contents) :=
  match argv with
  | [_, dir] =>
    let ffDir := normpath dir
    match stat env t ffDir with
    | some (r, _) =>
      if t.node r = some .dir then
        (referencedInputs env t content r ffDir).map fun referenced =>
          (0, blank env t content r ffDir referenced)
      else some (1, content)
    | none => some (1, content)
  | _ => some (2, content)

end

/-! ## Literals -/

/-- The literal stands outside of the arguments of `Files`. -/
inductive Outside : Ast → Str → Prop
  | constant (s : Str) : Outside (.constant (some s)) s
  | value {value : Ast} {s : Str} (attr : Str) (h : Outside value s) :
      Outside (.attribute value attr) s
  | func {fn : Ast} {s : Str} (args keywords : List Ast) (h : Outside fn s) :
      Outside (.call fn args keywords) s
  | arg {fn a : Ast} {args : List Ast} {s : Str} (keywords : List Ast) (hfn : isFiles fn = false)
      (ha : a ∈ args) (h : Outside a s) : Outside (.call fn args keywords) s
  | keyword {fn k : Ast} {keywords : List Ast} {s : Str} (args : List Ast) (hk : k ∈ keywords)
      (h : Outside k s) : Outside (.call fn args keywords) s
  | child {c : Ast} {children : List Ast} {s : Str} (hc : c ∈ children) (h : Outside c s) :
      Outside (.other children) s

theorem mem_literalsAll {skip : Bool} {s : Str} {nodes : List Ast} :
    s ∈ literalsAll skip nodes ↔ ∃ node ∈ nodes, s ∈ literals skip node := by
  induction nodes with
  | nil => simp [literalsAll]
  | cons node nodes ih => rw [literalsAll, List.mem_append, ih, List.exists_mem_cons_iff]

mutual

theorem literals_skip (s : Str) : ∀ node : Ast, s ∉ literals true node
  | .constant none => by simp [literals]
  | .constant (some _) => by simp [literals]
  | .name _ => by simp [literals]
  | .attribute value _ => by
    rw [literals]
    exact literals_skip s value
  | .call func args keywords => by
    rw [literals, List.mem_append, List.mem_append, not_or, not_or]
    exact ⟨literals_skip s func, literalsAll_skip s args, literalsAll_skip s keywords⟩
  | .other children => by
    rw [literals]
    exact literalsAll_skip s children

theorem literalsAll_skip (s : Str) : ∀ nodes : List Ast, s ∉ literalsAll true nodes
  | [] => by simp [literalsAll]
  | node :: nodes => by
    rw [literalsAll, List.mem_append, not_or]
    exact ⟨literals_skip s node, literalsAll_skip s nodes⟩

end

mutual

theorem outside_of_mem {s : Str} : ∀ node : Ast, s ∈ literals false node → Outside node s
  | .constant none, h => by simp [literals] at h
  | .constant (some x), h => by
    have hs : s = x := by simpa [literals] using h
    subst hs
    exact Outside.constant s
  | .name _, h => by simp [literals] at h
  | .attribute value attr, h => by
    rw [literals] at h
    exact Outside.value attr (outside_of_mem value h)
  | .call func args keywords, h => by
    rw [literals, List.mem_append, List.mem_append, Bool.false_or] at h
    rcases h with h | h | h
    · exact Outside.func args keywords (outside_of_mem func h)
    · cases hfiles : isFiles func with
      | true =>
        rw [hfiles] at h
        exact absurd h (literalsAll_skip s args)
      | false =>
        rw [hfiles] at h
        obtain ⟨a, ha, hout⟩ := outside_of_memAll args h
        exact Outside.arg keywords hfiles ha hout
    · obtain ⟨k, hk, hout⟩ := outside_of_memAll keywords h
      exact Outside.keyword args hk hout
  | .other children, h => by
    rw [literals] at h
    obtain ⟨c, hc, hout⟩ := outside_of_memAll children h
    exact Outside.child hc hout

theorem outside_of_memAll {s : Str} : ∀ nodes : List Ast, s ∈ literalsAll false nodes →
    ∃ node ∈ nodes, Outside node s
  | [], h => by simp [literalsAll] at h
  | node :: nodes, h => by
    rw [literalsAll, List.mem_append] at h
    rcases h with h | h
    · exact ⟨node, List.mem_cons_self, outside_of_mem node h⟩
    · obtain ⟨n, hn, hout⟩ := outside_of_memAll nodes h
      exact ⟨n, List.mem_cons_of_mem _ hn, hout⟩

end

/-- **The literals** that count are those outside of the arguments of `Files`. -/
theorem mem_inputLiterals {tree : Ast} {s : Str} : s ∈ inputLiterals tree ↔ Outside tree s := by
  constructor
  · exact outside_of_mem tree
  · intro h
    unfold inputLiterals
    induction h with
    | constant s => simp [literals]
    | value attr _ ih =>
      rw [literals]
      exact ih
    | func args keywords _ ih =>
      rw [literals]
      exact List.mem_append_left _ ih
    | arg keywords hfn ha _ ih =>
      rw [literals, hfn, Bool.false_or]
      exact List.mem_append_right _
        (List.mem_append_left _ (mem_literalsAll.2 ⟨_, ha, ih⟩))
    | keyword args hk _ ih =>
      rw [literals]
      exact List.mem_append_right _ (List.mem_append_right _ (mem_literalsAll.2 ⟨_, hk, ih⟩))
    | child hc _ ih =>
      rw [literals]
      exact mem_literalsAll.2 ⟨_, hc, ih⟩

end DenBrowser.Payloads
