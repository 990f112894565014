import DenBrowser.Browser.LaunchPolicy
import DenBrowser.Lib.EarlyReturn
import DenBrowser.Lib.Unicode
import Mathlib.Data.List.Sort

/-!
# The launcher

`LauncherMain` decides whether the process it runs in becomes the browser, starts the browser as
a child, or ends with an error code.  What the system and the helpers outside the patch answer is
a parameter, indexed by the number of calls made so far, so that any call may fail.

* `buildEnvironment_spec` — an environment that is built holds what the system said, and no more;
* `serializedLength_eq` — the block that is written has the length that was allocated;
* `applyCurrentEnvironment_spec` — the calls made when applying an environment succeeds;
* `launchBrowser_spec` — what the creation of the child looks like, and what follows it;
* `launcherMain_fails_closed` — when the launcher lets the process become the browser, and what
  it has done in every other run.
-/

set_option autoImplicit false

namespace DenBrowser.Launcher

open CString EarlyReturn

/-- `std::wstring`. -/
abbrev WString := List WChar

abbrev Bytes := List UInt8

abbrev Handle := Nat

/-! ## What the launcher asks and does -/

inductive DenBrowserLaunchAuthorization where
  | untrusted
  | authorizedBrowser
  deriving DecidableEq

inductive ElevationState where
  | normalUser
  | elevated
  | highIntegrityNoUAC
  | highIntegrityByAppCompat
  deriving DecidableEq

inductive DeelevationStatus where
  | partiallyDeelevated
  | startedUnprivileged
  deriving DecidableEq

inductive KnownFolder where
  | localAppData
  | programFiles

/-- The answers of the system and of the helpers the patch does not show; the first argument is
the number of calls made before.  `none` and `false` are failures. -/
structure Os where
  /-- `MOZ_LAUNCHER_PROCESS` is defined. -/
  mozLauncherProcess : Bool
  isSameBinaryAsParentProcess : Nat → Option Bool
  /-- The path `SetArgv0ToFullBinaryPath` puts in place of `argv[0]`. -/
  fullBinaryPath : Nat → Option WStr
  windowsDirectory : Nat → Option WStr
  systemDirectory : Nat → Option WStr
  knownFolderPath : Nat → KnownFolder → Option Handle → Option WStr
  environ : Nat → List Bytes
  environmentStrings : Nat → Option (List WString)
  wideCharToMultiByte : Nat → Bool
  putenv : Nat → Bool
  setEnvironmentVariable : Nat → Bool
  runAsLauncherProcess : Nat → Option Bool
  elevationState : Nat → Option ElevationState × Option Handle
  commit : Nat → Bool
  makeCommandLine : Nat → List (Option WPtr) → Option WString
  isSafeModeRequested : Nat → Option Bool
  assignAttributes : Nat → Option Bool
  allocate : Nat → Bool
  createProcess : Nat → Bool
  transfer : Nat → Bool
  initializeDllBlocklist : Nat → Bool
  resumeThread : Nat → Bool
  /-- What the end of the function returns when the child runs. -/
  exitCode : Int

/-- A call of `CreateProcessAsUserW` (with a token) or `CreateProcessW`. -/
structure Creation where
  token : Option Handle
  application : WPtr
  commandLine : WString
  creationFlags : UInt32
  environment : WString
  directory : WString

/-- What is written into the child. -/
inductive Transferred where
  | deelevationStatus (status : DeelevationStatus)
  | launchAuthorization (authorization : DenBrowserLaunchAuthorization)

/-- A call with an effect, and whether it succeeded; nobody asks whether `TerminateProcess` did. -/
inductive Event where
  | putenv (name value : Bytes) (ok : Bool)
  | setEnvironmentVariable (name : WString) (value : Option WString) (ok : Bool)
  | createProcess (creation : Creation) (ok : Bool)
  | transfer (value : Transferred) (ok : Bool)
  | initializeDllBlocklist (ok : Bool)
  | resumeThread (ok : Bool)
  | terminateProcess

/-- The launcher's argument vector, the number of calls made, and those with an effect. -/
structure World where
  argv : List (Option WPtr)
  calls : Nat
  events : List Event

variable {ρ α : Type}

/-- Call the system. -/
def ask (f : Nat → α) : Cmd World ρ α :=
  fun w => (.next (f w.calls), { w with calls := w.calls + 1 })

def record (e : Event) : Cmd World ρ Unit :=
  Cmd.modify fun w => { w with events := w.events ++ [e] }

@[simp] theorem wp_ask {f : Nat → α} {Q : α → World → Prop} {R : ρ → World → Prop} {w : World} :
    wp (ask f : Cmd World ρ α) Q R w ↔ Q (f w.calls) { w with calls := w.calls + 1 } := Iff.rfl

@[simp] theorem wp_record {e : Event} {Q : Unit → World → Prop} {R : ρ → World → Prop}
    {w : World} :
    wp (record e : Cmd World ρ Unit) Q R w ↔ Q () { w with events := w.events ++ [e] } := Iff.rfl

/-! ## The environment -/

abbrev Environment := List (WString × WString)

def getKnownFolder (os : Os) (folder : KnownFolder) (token : Option Handle) :
    Cmd World ρ (Option WString) := do
  let rawPath ← ask fun k => os.knownFolderPath k folder token
  pure (rawPath.bind fun p => if p.chars = [] then none else some p.chars)

/-- `find_last_of(L"\\/")`. -/
def lastSeparator (s : WString) : Option Nat :=
  (s.reverse.findIdx? fun c => c == wchar '\\' || c == wchar '/').map fun i => s.length - 1 - i

def getApplicationDirectory (binaryPath : WString) : Option WString :=
  if binaryPath = [] then none
  else
    match lastSeparator binaryPath with
    | none => none
    | some separator =>
      if separator < 2 then none
      else if wchar ';' ∈ binaryPath.take separator then none
      else some (binaryPath.take separator)

/-- A directory that fits its buffer of `MAX_PATH + 1` characters. -/
def inBuffer (directory : Option WStr) : Option WString :=
  directory.bind fun d => if d.chars.length = 0 ∨ 261 ≤ d.chars.length then none else some d.chars

/-- The variables, in the order they are added. -/
def browserVariables (applicationDirectory windows system localAppData programFiles : WString) :
    Environment :=
  [(wide "LOCALAPPDATA", localAppData),
    (wide "Path", applicationDirectory ++ wide ";" ++ system ++ wide ";" ++ windows),
    (wide "ProgramFiles", programFiles),
    (wide "ProgramW6432", programFiles),
    (wide "SystemDrive", windows.take 2),
    (wide "SystemRoot", windows),
    (wide "TEMP", localAppData ++ wide "\\Temp"),
    (wide "TMP", localAppData ++ wide "\\Temp")]

/-- `_wcsicmp(a, b) < 0`. -/
def wcsicmpLess (a b : WString) : Bool := decide (a.map wlower < b.map wlower)

/-- No two neighbours have one name, up to case. -/
def distinctNames : Environment → Bool
  | a :: b :: env => (a.1.map wlower != b.1.map wlower) && distinctNames (b :: env)
  | _ => true

def buildEnvironment (os : Os) (token : Option Handle) (applicationDirectory : WString) :
    Cmd World (Option Environment) (Option Environment) := do
  let windowsBuffer ← ask os.windowsDirectory
  let windows ← Cmd.orReturn none (inBuffer windowsBuffer)
  let systemBuffer ← ask os.systemDirectory
  let system ← Cmd.orReturn none (inBuffer systemBuffer)
  Cmd.require none (3 ≤ windows.length && windows[1]? == some (wchar ':'))
  let localAppData ← getKnownFolder os .localAppData token
  let localAppData ← Cmd.orReturn none localAppData
  let programFiles ← getKnownFolder os .programFiles token
  let programFiles ← Cmd.orReturn none programFiles
  let environment :=
    (browserVariables applicationDirectory windows system localAppData programFiles).insertionSort
      fun a b => wcsicmpLess b.1 a.1 = false
  Cmd.require none (distinctNames environment)
  pure (some environment)

/-- The first loop of `SerializeEnvironment`. -/
def serializedLength : Environment → (totalLength : Nat) → Option Nat
  | [], totalLength => some totalLength
  | (name, value) :: environment, totalLength =>
    if name = [] ∨ wchar '=' ∈ name then none
    else
      let entryLength := name.length + 1 + value.length + 1
      if 32767 < entryLength ∨ 32767 - entryLength < totalLength then none
      else serializedLength environment (totalLength + entryLength)

/-- What the second loop writes. -/
def environmentBlock (environment : Environment) : WString :=
  (environment.flatMap fun e => e.1 ++ wchar '=' :: e.2 ++ [0]) ++ [0]

def serializeEnvironment (os : Os) (environment : Environment) :
    Cmd World (Option WString) (Option WString) := do
  let _ ← Cmd.orReturn none (serializedLength environment 1)
  let block ← ask os.allocate
  Cmd.require none block
  pure (some (environmentBlock environment))

/-- The conversion `WideToUtf8` makes. -/
def toUtf8 (value : WString) : Option Bytes :=
  if value = [] then some []
  else if 32767 < value.length then none
  else (Unicode.utf16Decode value).map Unicode.utf8

def wideToUtf8 (os : Os) (value : WString) : Cmd World ρ (Option Bytes) := do
  let ok ← ask os.wideCharToMultiByte
  pure (if value = [] ∨ ok then toUtf8 value else none)

/-- The name of an item `name=value`, when there is one. -/
def variableName {β : Type} [DecidableEq β] (equals : β) (item : List β) : Option (List β) :=
  let name := item.takeWhile fun c => c ≠ equals
  if name.length < item.length ∧ name ≠ [] then some name else none

def putenv (os : Os) (name value : Bytes) : Cmd World ρ Bool := do
  let ok ← ask os.putenv
  record (.putenv name value ok)
  pure ok

def setEnvironmentVariable (os : Os) (name : WString) (value : Option WString) :
    Cmd World ρ Bool := do
  let ok ← ask os.setEnvironmentVariable
  record (.setEnvironmentVariable name value ok)
  pure ok

def applyCurrentEnvironment (os : Os) (environment : Environment) : Cmd World Bool Bool := do
  let environ ← ask os.environ
  Cmd.each (environ.filterMap (variableName (UInt8.ofNat '='.toNat))) fun name => do
    let ok ← putenv os name []
    Cmd.require false ok
  let rawEnvironment ← ask os.environmentStrings
  let items ← Cmd.orReturn false rawEnvironment
  Cmd.each (items.filterMap (variableName (wchar '='))) fun name => do
    let ok ← setEnvironmentVariable os name none
    Cmd.require false ok
  Cmd.each environment fun e => do
    let narrowName ← wideToUtf8 os e.1
    let narrowName ← Cmd.orReturn false narrowName
    let narrowValue ← wideToUtf8 os e.2
    let narrowValue ← Cmd.orReturn false narrowValue
    let ok ← putenv os narrowName narrowValue
    Cmd.require false ok
    let ok ← setEnvironmentVariable os e.1 (some e.2)
    Cmd.require false ok
  pure true

/-! ## The launcher -/

def CREATE_SUSPENDED : UInt32 := 0x4

def CREATE_UNICODE_ENVIRONMENT : UInt32 := 0x400

def EXTENDED_STARTUPINFO_PRESENT : UInt32 := 0x80000

/-- What is written into the child before it runs; `true` when all of it was. -/
def postCreationSetup (os : Os) (status : DeelevationStatus) : Cmd World Bool Bool := do
  let ok ← ask os.transfer
  record (.transfer (.deelevationStatus status) ok)
  Cmd.require false ok
  let ok ← ask os.transfer
  record (.transfer (.launchAuthorization .authorizedBrowser) ok)
  Cmd.require false ok
  let ok ← ask os.initializeDllBlocklist
  record (.initializeDllBlocklist ok)
  pure ok

/-- A token stands for any elevation; without one only a normal user goes on. -/
def deelevationStatus (token : Option Handle) (elevationState : ElevationState) :
    Option DeelevationStatus :=
  if token.isSome then some .partiallyDeelevated
  else if elevationState = .normalUser then some .startedUnprivileged
  else none

/-- `LauncherMain`, from the launcher's marker on. -/
def launchBrowser (os : Os) (applicationDirectory : WString) :
    Cmd World (Option Int) (Option Int) := do
  let ok ← putenv os (Unicode.utf8 "MOZ_LAUNCHER_PROCESS".toList) (Unicode.utf8 "1".toList)
  Cmd.require (some 127) ok
  let ok ← setEnvironmentVariable os (wide "MOZ_LAUNCHER_PROCESS") (some (wide "1"))
  Cmd.require (some 127) ok
  let runAsLauncher ← ask os.runAsLauncherProcess
  Cmd.require (some 127) (runAsLauncher == some true)
  let (elevationState, mediumIlToken) ← ask os.elevationState
  let elevationState ← Cmd.orReturn (some 127) elevationState
  let status ← Cmd.orReturn (some 127) (deelevationStatus mediumIlToken elevationState)
  let commitResult ← ask os.commit
  Cmd.require (some 127) (!os.mozLauncherProcess || commitResult)
  let w ← Cmd.get
  let cmdLine ← ask fun k => os.makeCommandLine k w.argv
  let cmdLine ← Cmd.orReturn (some 127) cmdLine
  let isSafeMode ← ask os.isSafeModeRequested
  let _ ← Cmd.orReturn (some 127) isSafeMode
  let attrsOk ← ask os.assignAttributes
  let attrsOk ← Cmd.orReturn (some 127) attrsOk
  let creationFlags := CREATE_SUSPENDED ||| CREATE_UNICODE_ENVIRONMENT |||
    (if attrsOk then EXTENDED_STARTUPINFO_PRESENT else 0)
  let browserEnvironment ← Cmd.fn (buildEnvironment os mediumIlToken applicationDirectory)
  let browserEnvironment ← Cmd.orReturn (some 127) browserEnvironment
  let environmentBlock ← Cmd.fn (serializeEnvironment os browserEnvironment)
  let environmentBlock ← Cmd.orReturn (some 127) environmentBlock
  let argv0 ← Cmd.defined w.argv[0]?.join
  let createOk ← ask os.createProcess
  record (.createProcess
    ⟨mediumIlToken, argv0, cmdLine, creationFlags, environmentBlock, applicationDirectory⟩ createOk)
  Cmd.require (some 127) createOk
  let setupResult ← Cmd.fn (postCreationSetup os status)
  if setupResult = false then
    record .terminateProcess
    Cmd.ret (some 127)
  else do
    let resumed ← ask os.resumeThread
    record (.resumeThread resumed)
    if resumed = false then
      record .terminateProcess
      Cmd.ret (some 127)
    else pure (some os.exitCode)

/-- `LauncherMain` on a vector with a content-process flag. -/
def contentProcess (os : Os) (authorization : DenBrowserLaunchAuthorization) :
    Cmd World (Option Int) (Option Int) := do
  Cmd.require (some 127) (authorization != .authorizedBrowser)
  let w ← Cmd.get
  let canonical ← Cmd.defined (isCanonicalContentProcessCommandLine w.argv)
  Cmd.require (some 127) canonical
  Cmd.require (some 127) os.mozLauncherProcess
  let sameParent ← ask os.isSameBinaryAsParentProcess
  let sameParent ← Cmd.orReturn (some 127) sameParent
  Cmd.require (some 127) sameParent
  pure none

/-- `LauncherMain`: `none` is `Nothing()`, run the browser in this process.  The helpers that
return nothing and leave the vector alone (`EnsureBrowserCommandlineSafe`,
`EnablePreferLoadFromSystem32IfCompatible`, `UseParentConsole`, `HandleLauncherError`) are left
out. -/
def launcherMain (os : Os) (authorization : DenBrowserLaunchAuthorization) :
    Cmd World (Option Int) (Option Int) := do
  let w ← Cmd.get
  let hasFlag ← Cmd.defined (hasContentProcessFlag w.argv)
  if hasFlag then contentProcess os authorization
  else do
    let argv ← Cmd.defined (unwrapDenLinkArgument w.argv)
    Cmd.modify fun w => { w with argv := argv }
    let allowed ← Cmd.defined (isAllowedBrowserCommandLine argv)
    Cmd.require (some 127) allowed
    let path ← ask os.fullBinaryPath
    let path ← Cmd.orReturn (some 127) path
    Cmd.modify fun w => { w with argv := w.argv.set 0 (some path.ptr) }
    let applicationDirectory ← Cmd.orReturn (some 127) (getApplicationDirectory path.chars)
    let currentEnvironment ← Cmd.fn (buildEnvironment os none applicationDirectory)
    let currentEnvironment ← Cmd.orReturn (some 127) currentEnvironment
    let applied ← Cmd.fn (applyCurrentEnvironment os currentEnvironment)
    Cmd.require (some 127) applied
    if authorization = .authorizedBrowser then pure none
    else launchBrowser os applicationDirectory

/-! ## The environment that is built -/

/-- Nothing with an effect has happened, and the argument vector is the same. -/
structure Same (w w' : World) : Prop where
  argv : w'.argv = w.argv
  events : w'.events = w.events

/-- The environment holds the application's directory and what the system said, for a token. -/
def BuiltFrom (os : Os) (token : Option Handle) (applicationDirectory : WString)
    (environment : Environment) : Prop :=
  ∃ (windows system localAppData programFiles : WStr) (i j k l : Nat),
    os.windowsDirectory i = some windows ∧ os.systemDirectory j = some system ∧
    os.knownFolderPath k .localAppData token = some localAppData ∧
    os.knownFolderPath l .programFiles token = some programFiles ∧
    environment = browserVariables applicationDirectory windows.chars system.chars
      localAppData.chars programFiles.chars

theorem inBuffer_some {directory : Option WStr} {d : WString} (h : inBuffer directory = some d) :
    ∃ s : WStr, directory = some s ∧ d = s.chars := by
  unfold inBuffer at h
  obtain ⟨s, hs, hd⟩ := Option.bind_eq_some_iff.1 h
  split at hd
  · cases hd
  · cases hd
    exact ⟨s, hs, rfl⟩

/-- The variables are added in the order of their names. -/
theorem insertionSort_browserVariables (a b c d e : WString) :
    (browserVariables a b c d e).insertionSort (fun x y => wcsicmpLess y.1 x.1 = false) =
      browserVariables a b c d e := by
  have hnames : ((browserVariables a b c d e).map Prod.fst).Pairwise
      fun x y => wcsicmpLess y x = false := by
    show List.Pairwise _ [wide "LOCALAPPDATA", wide "Path", wide "ProgramFiles",
      wide "ProgramW6432", wide "SystemDrive", wide "SystemRoot", wide "TEMP", wide "TMP"]
    decide
  exact (List.pairwise_map.1 hnames).insertionSort_eq

theorem getKnownFolder_spec {os : Os} {folder : KnownFolder} {token : Option Handle} {w : World}
    {Q : Option WString → World → Prop} {R : ρ → World → Prop}
    (h : ∀ (path : Option WString) (w' : World), Same w w' →
      (∀ p, path = some p → ∃ (s : WStr) (k : Nat),
        os.knownFolderPath k folder token = some s ∧ p = s.chars) → Q path w') :
    wp (getKnownFolder os folder token : Cmd World ρ (Option WString)) Q R w := by
  unfold getKnownFolder
  rw [wp_bind, wp_ask, wp_pure]
  refine h _ _ ⟨rfl, rfl⟩ ?_
  intro p hp
  obtain ⟨s, hs, hd⟩ := Option.bind_eq_some_iff.1 hp
  split at hd
  · cases hd
  · cases hd
    exact ⟨s, w.calls, hs, rfl⟩

/-- **An environment that is built holds what the system said.** -/
theorem buildEnvironment_spec (os : Os) (token : Option Handle) (dir : WString) (w : World) :
    let Q := fun (environment : Option Environment) (w' : World) =>
      Same w w' ∧ ∀ e, environment = some e → BuiltFrom os token dir e
    wp (buildEnvironment os token dir) Q Q w := by
  intro Q
  have hnone : ∀ w', Same w w' → Q none w' := fun w' h => ⟨h, fun e he => nomatch he⟩
  unfold buildEnvironment
  simp only [wp_bind, wp_ask, wp_orReturn, wp_require]
  refine ⟨fun windows hwindows => ⟨fun system hsystem => ⟨fun _ => ?_, fun _ => hnone _ ⟨rfl, rfl⟩⟩,
    fun _ => hnone _ ⟨rfl, rfl⟩⟩, fun _ => hnone _ ⟨rfl, rfl⟩⟩
  apply getKnownFolder_spec
  intro path₁ w₁ hw₁ hlocal
  refine ⟨fun localAppData hpath₁ => ?_, fun _ => hnone _ ⟨hw₁.argv, hw₁.events⟩⟩
  apply getKnownFolder_spec
  intro path₂ w₂ hw₂ hprogram
  have hsame : Same w w₂ := ⟨hw₂.argv.trans hw₁.argv, hw₂.events.trans hw₁.events⟩
  refine ⟨fun programFiles hpath₂ => ⟨fun _ => ?_, fun _ => hnone _ hsame⟩, fun _ => hnone _ hsame⟩
  refine ⟨hsame, ?_⟩
  intro e he
  obtain ⟨windows', hi, rfl⟩ := inBuffer_some hwindows
  obtain ⟨system', hj, rfl⟩ := inBuffer_some hsystem
  obtain ⟨local', k, hk, rfl⟩ := hlocal _ hpath₁
  obtain ⟨program', l, hl, rfl⟩ := hprogram _ hpath₂
  refine ⟨windows', system', local', program', _, _, k, l, hi, hj, hk, hl, ?_⟩
  rw [insertionSort_browserVariables] at he
  exact (Option.some.inj he).symm

/-- **The block that is written has the length that was allocated**, which is within the limit. -/
theorem serializedLength_eq : ∀ (environment : Environment) (total n : Nat),
    serializedLength environment total = some n → total ≤ 32767 →
    n ≤ 32767 ∧ n + 1 = total + (environmentBlock environment).length := by
  intro environment
  induction environment with
  | nil =>
    intro total n h htotal
    cases h
    exact ⟨htotal, by simp [environmentBlock]⟩
  | cons e environment ih =>
    intro total n h htotal
    obtain ⟨name, value⟩ := e
    unfold serializedLength at h
    split at h
    · cases h
    dsimp only at h
    split at h
    · cases h
    have hrest := ih _ _ h (by omega)
    refine ⟨hrest.1, ?_⟩
    have hlen := hrest.2
    simp only [environmentBlock, List.flatMap_cons, List.length_append, List.length_cons,
      List.length_nil] at hlen ⊢
    omega

theorem serializeEnvironment_spec (os : Os) (environment : Environment) (w : World) :
    let Q := fun (block : Option WString) (w' : World) =>
      Same w w' ∧ ∀ b, block = some b → b = environmentBlock environment ∧ b.length ≤ 32767
    wp (serializeEnvironment os environment) Q Q w := by
  intro Q
  have hnone : ∀ w', Same w w' → Q none w' := fun w' h => ⟨h, fun e he => nomatch he⟩
  unfold serializeEnvironment
  simp only [wp_bind, wp_ask, wp_orReturn, wp_require, wp_pure]
  refine ⟨fun n hn => ⟨fun _ => ⟨⟨rfl, rfl⟩, ?_⟩, fun _ => hnone _ ⟨rfl, rfl⟩⟩,
    fun _ => hnone _ ⟨rfl, rfl⟩⟩
  intro b hb
  cases hb
  have hlen := serializedLength_eq _ _ _ hn (by omega)
  exact ⟨rfl, by omega⟩

/-! ## The environment that is applied -/

/-- A call that changes this process's environment. -/
def Event.ofEnvironment : Event → Bool
  | .putenv .. => true
  | .setEnvironmentVariable .. => true
  | _ => false

/-- Only the environment of this process has been changed. -/
def OnlyEnvironment (w w' : World) : Prop :=
  w'.argv = w.argv ∧ ∃ es : List Event, w'.events = w.events ++ es ∧
    ∀ e ∈ es, e.ofEnvironment = true

theorem OnlyEnvironment.refl {w w' : World} (h : Same w w') : OnlyEnvironment w w' :=
  ⟨h.argv, [], by rw [h.events, List.append_nil], fun e he => nomatch he⟩

theorem OnlyEnvironment.trans {w₁ w₂ w₃ : World} (h₁ : OnlyEnvironment w₁ w₂)
    (h₂ : OnlyEnvironment w₂ w₃) : OnlyEnvironment w₁ w₃ := by
  obtain ⟨hargv₁, es₁, hes₁, henv₁⟩ := h₁
  obtain ⟨hargv₂, es₂, hes₂, henv₂⟩ := h₂
  refine ⟨hargv₂.trans hargv₁, es₁ ++ es₂, by rw [hes₂, hes₁, List.append_assoc], ?_⟩
  intro e he
  rcases List.mem_append.1 he with he | he
  · exact henv₁ e he
  · exact henv₂ e he

/-- The two calls for a variable. -/
def setCalls (e : WString × WString) : List Event :=
  [.putenv ((toUtf8 e.1).getD []) ((toUtf8 e.2).getD []) true,
    .setEnvironmentVariable e.1 (some e.2) true]

/-- The calls that apply an environment: every variable there was is removed, from the narrow and
from the native environment, then each variable is set in both; all succeed. -/
def Applied (os : Os) (environment : Environment) (es : List Event) : Prop :=
  ∃ (i j : Nat) (items : List WString), os.environmentStrings j = some items ∧
    (∀ e ∈ environment, (toUtf8 e.1).isSome ∧ (toUtf8 e.2).isSome) ∧
    es = ((os.environ i).filterMap (variableName (UInt8.ofNat '='.toNat))).map
        (fun name => .putenv name [] true) ++
      ((items.filterMap (variableName (wchar '='))).map
        (fun name => .setEnvironmentVariable name none true) ++ environment.flatMap setCalls)

/-- A function on the environment has failed. -/
def EnvironmentFailed (w : World) (r : Bool) (w' : World) : Prop :=
  r = false ∧ OnlyEnvironment w w'

theorem OnlyEnvironment.calls {l : List α} {f : α → List Event} {w w' : World}
    (hf : ∀ a, ∀ e ∈ f a, e.ofEnvironment = true) (hargv : w'.argv = w.argv)
    (hevents : w'.events = w.events ++ l.flatMap f) : OnlyEnvironment w w' := by
  refine ⟨hargv, l.flatMap f, hevents, ?_⟩
  intro e he
  obtain ⟨b, _, hb⟩ := List.mem_flatMap.1 he
  exact hf b e hb

/-- A loop whose body makes the calls `f a`, or returns `false` after some calls. -/
theorem wp_each_calls {l : List α} {body : α → Cmd World Bool Unit} (f : α → List Event)
    (P : α → Prop) {w : World}
    (hbody : ∀ (a : α) (w : World),
      wp (body a) (fun _ w' => P a ∧ w'.argv = w.argv ∧ w'.events = w.events ++ f a)
        (EnvironmentFailed w) w)
    (hf : ∀ a, ∀ e ∈ f a, e.ofEnvironment = true) :
    wp (Cmd.each l body)
      (fun _ w' => (∀ a ∈ l, P a) ∧ w'.argv = w.argv ∧ w'.events = w.events ++ l.flatMap f)
      (EnvironmentFailed w) w := by
  have hstart : (∀ a ∈ ([] : List α), P a) ∧ w.argv = w.argv ∧
      w.events = w.events ++ ([] : List α).flatMap f := ⟨fun a ha => (nomatch ha), rfl, by simp⟩
  refine wp_each (fun done w' => (∀ a ∈ done, P a) ∧ w'.argv = w.argv ∧
    w'.events = w.events ++ done.flatMap f) ?_ l [] w hstart
  intro done a w' ⟨hdone, hargv, hevents⟩
  refine wp_mono (hbody a w') ?_ ?_
  · intro _ w'' ⟨ha, hargv', hevents'⟩
    refine ⟨?_, hargv'.trans hargv, ?_⟩
    · intro b hb
      rcases List.mem_append.1 hb with hb | hb
      · exact hdone b hb
      · rw [List.mem_singleton.1 hb]
        exact ha
    · rw [hevents', hevents]
      simp
  · intro r w'' ⟨hr, hafter⟩
    exact ⟨hr, (OnlyEnvironment.calls hf hargv hevents).trans hafter⟩

theorem putenv_spec {os : Os} {name value : Bytes} {w : World} {Q : Bool → World → Prop}
    {R : ρ → World → Prop}
    (h : ∀ (ok : Bool) (w' : World), w'.argv = w.argv →
      w'.events = w.events ++ [.putenv name value ok] → Q ok w') :
    wp (putenv os name value : Cmd World ρ Bool) Q R w := h _ _ rfl rfl

theorem setEnvironmentVariable_spec {os : Os} {name : WString} {value : Option WString} {w : World}
    {Q : Bool → World → Prop} {R : ρ → World → Prop}
    (h : ∀ (ok : Bool) (w' : World), w'.argv = w.argv →
      w'.events = w.events ++ [.setEnvironmentVariable name value ok] → Q ok w') :
    wp (setEnvironmentVariable os name value : Cmd World ρ Bool) Q R w := h _ _ rfl rfl

theorem wideToUtf8_spec {os : Os} {value : WString} {w : World} {Q : Option Bytes → World → Prop}
    {R : ρ → World → Prop}
    (h : ∀ (bytes : Option Bytes) (w' : World), Same w w' →
      (∀ b, bytes = some b → toUtf8 value = some b) → Q bytes w') :
    wp (wideToUtf8 os value : Cmd World ρ (Option Bytes)) Q R w := by
  unfold wideToUtf8
  rw [wp_bind, wp_ask, wp_pure]
  refine h _ _ ⟨rfl, rfl⟩ ?_
  intro b hb
  split at hb
  · exact hb
  · cases hb

/-- One call of the environment. -/
theorem OnlyEnvironment.call {w w' : World} {e : Event} (hargv : w'.argv = w.argv)
    (hevents : w'.events = w.events ++ [e]) (he : e.ofEnvironment = true) :
    OnlyEnvironment w w' := by
  refine ⟨hargv, [e], hevents, ?_⟩
  intro e' he'
  rw [List.mem_singleton.1 he']
  exact he

/-- Setting one variable, in both environments. -/
theorem setVariable_spec (os : Os) (e : WString × WString) (w : World) :
    wp (do
        let narrowName ← wideToUtf8 os e.1
        let narrowName ← Cmd.orReturn false narrowName
        let narrowValue ← wideToUtf8 os e.2
        let narrowValue ← Cmd.orReturn false narrowValue
        let ok ← putenv os narrowName narrowValue
        Cmd.require false ok
        let ok ← setEnvironmentVariable os e.1 (some e.2)
        Cmd.require false ok : Cmd World Bool Unit)
      (fun _ w' => ((toUtf8 e.1).isSome ∧ (toUtf8 e.2).isSome) ∧ w'.argv = w.argv ∧
        w'.events = w.events ++ setCalls e)
      (EnvironmentFailed w) w := by
  simp only [wp_bind, wp_orReturn, wp_require]
  apply wideToUtf8_spec
  intro name w₁ h₁ hname
  refine ⟨fun n hn => ?_, fun _ => ⟨rfl, OnlyEnvironment.refl h₁⟩⟩
  apply wideToUtf8_spec
  intro value w₂ h₂ hvalue
  have hsame : Same w w₂ := ⟨h₂.argv.trans h₁.argv, h₂.events.trans h₁.events⟩
  refine ⟨fun v hv => ?_, fun _ => ⟨rfl, OnlyEnvironment.refl hsame⟩⟩
  have hn' := hname n hn
  have hv' := hvalue v hv
  apply putenv_spec
  intro ok₁ w₃ hargv₃ hevents₃
  have honly : OnlyEnvironment w w₃ :=
    (OnlyEnvironment.refl hsame).trans (OnlyEnvironment.call hargv₃ hevents₃ rfl)
  refine ⟨fun hok₁ => ?_, fun _ => ⟨rfl, honly⟩⟩
  apply setEnvironmentVariable_spec
  intro ok₂ w₄ hargv₄ hevents₄
  refine ⟨fun hok₂ => ?_, fun _ => ⟨rfl, honly.trans (OnlyEnvironment.call hargv₄ hevents₄ rfl)⟩⟩
  refine ⟨⟨by rw [hn']; rfl, by rw [hv']; rfl⟩, ?_, ?_⟩
  · rw [hargv₄, hargv₃, hsame.argv]
  · rw [hevents₄, hevents₃, hsame.events, hok₁, hok₂, setCalls, hn', hv']
    simp

/-- **The calls made when applying an environment succeeds.** -/
theorem applyCurrentEnvironment_spec (os : Os) (environment : Environment) (w : World) :
    let Q := fun (ok : Bool) (w' : World) =>
      OnlyEnvironment w w' ∧ (ok = true → ∃ es, w'.events = w.events ++ es ∧
        Applied os environment es)
    wp (applyCurrentEnvironment os environment) Q Q w := by
  intro Q
  have hfalse : ∀ r w', EnvironmentFailed w r w' → Q r w' := by
    intro r w' h
    exact ⟨h.2, fun ht => by rw [h.1] at ht; cases ht⟩
  have hclear : ∀ name : Bytes, ∀ e ∈ [Event.putenv name [] true], e.ofEnvironment = true := by
    intro name e he
    rw [List.mem_singleton.1 he]
    rfl
  have hclear' : ∀ name : WString, ∀ e ∈ [Event.setEnvironmentVariable name none true],
      e.ofEnvironment = true := by
    intro name e he
    rw [List.mem_singleton.1 he]
    rfl
  have hset : ∀ (v : WString × WString), ∀ e ∈ setCalls v, e.ofEnvironment = true := by
    intro v e he
    rcases List.mem_cons.1 he with rfl | he
    · rfl
    · rw [List.mem_singleton.1 he]
      rfl
  unfold applyCurrentEnvironment
  rw [wp_bind, wp_ask, wp_bind]
  refine wp_mono (wp_each_calls (fun name => [.putenv name [] true]) (fun _ => True) ?_ hclear) ?_
    hfalse
  · intro name w₀
    rw [wp_bind]
    apply putenv_spec
    intro ok w₁ hargv hevents
    rw [wp_require]
    refine ⟨fun hok => ⟨trivial, hargv, by rw [hevents, hok]⟩, fun _ => ⟨rfl, ?_⟩⟩
    exact OnlyEnvironment.call hargv hevents rfl
  intro _ w₁ ⟨_, hargv₁, hevents₁⟩
  have honly₁ : OnlyEnvironment w w₁ := OnlyEnvironment.calls hclear hargv₁ hevents₁
  rw [wp_bind, wp_ask, wp_bind, wp_orReturn]
  refine ⟨fun items hitems => ?_, fun _ => hfalse _ _ ⟨rfl, honly₁⟩⟩
  rw [wp_bind]
  refine wp_mono (wp_each_calls (fun name => [.setEnvironmentVariable name none true])
    (fun _ => True) ?_ hclear') ?_ (fun r w' h => hfalse r w' ⟨h.1, honly₁.trans h.2⟩)
  · intro name w₀
    rw [wp_bind]
    apply setEnvironmentVariable_spec
    intro ok w₁ hargv hevents
    rw [wp_require]
    refine ⟨fun hok => ⟨trivial, hargv, by rw [hevents, hok]⟩, fun _ => ⟨rfl, ?_⟩⟩
    exact OnlyEnvironment.call hargv hevents rfl
  intro _ w₂ ⟨_, hargv₂, hevents₂⟩
  have honly₂ : OnlyEnvironment w w₂ :=
    honly₁.trans (OnlyEnvironment.calls hclear' hargv₂ hevents₂)
  rw [wp_bind]
  refine wp_mono (wp_each_calls setCalls (fun e => (toUtf8 e.1).isSome ∧ (toUtf8 e.2).isSome)
    (setVariable_spec os) hset) ?_ (fun r w' h => hfalse r w' ⟨h.1, honly₂.trans h.2⟩)
  intro _ w₃ ⟨hencoded, hargv₃, hevents₃⟩
  refine ⟨honly₂.trans (OnlyEnvironment.calls hset hargv₃ hevents₃), fun _ => ?_⟩
  refine ⟨_, ?_, w.calls, w₁.calls, items, hitems, hencoded, rfl⟩
  rw [hevents₃, hevents₂, hevents₁, List.append_assoc, List.append_assoc, List.map_eq_flatMap,
    List.map_eq_flatMap]

/-! ## The child -/

/-- A call with an effect on a child. -/
def Event.ofChild : Event → Bool
  | .putenv .. => false
  | .setEnvironmentVariable .. => false
  | .createProcess _ ok => ok
  | _ => true

/-- No child has been created. -/
def NoChild (es : List Event) : Prop := ∀ e ∈ es, e.ofChild = false

theorem NoChild.append {es es' : List Event} (h : NoChild es) (h' : NoChild es') :
    NoChild (es ++ es') := by
  intro e he
  rcases List.mem_append.1 he with he | he
  · exact h e he
  · exact h' e he

theorem NoChild.of_onlyEnvironment {w w' : World} (hw : NoChild w.events)
    (h : OnlyEnvironment w w') : NoChild w'.events := by
  obtain ⟨_, es, hes, henv⟩ := h
  rw [hes]
  refine hw.append ?_
  intro e he
  have := henv e he
  cases e <;> first | rfl | cases this

/-- The child that is asked for: suspended, with the command line made from a vector, and with the
block of an environment that was built for its token. -/
structure Requested (os : Os) (applicationDirectory : WString) (argv : List (Option WPtr))
    (c : Creation) : Prop where
  suspended : c.creationFlags &&& CREATE_SUSPENDED = CREATE_SUSPENDED
  application : argv[0]? = some (some c.application)
  commandLine : ∃ k, os.makeCommandLine k argv = some c.commandLine
  environment : ∃ e, BuiltFrom os c.token applicationDirectory e ∧
    c.environment = environmentBlock e ∧ c.environment.length ≤ 32767
  directory : c.directory = applicationDirectory

/-- The calls of a set-up, and of a resumption, that fail. -/
inductive SetupFails (status : DeelevationStatus) : List Event → Prop where
  | status : SetupFails status [.transfer (.deelevationStatus status) false]
  | authorization : SetupFails status [.transfer (.deelevationStatus status) true,
      .transfer (.launchAuthorization .authorizedBrowser) false]
  | blocklist : SetupFails status [.transfer (.deelevationStatus status) true,
      .transfer (.launchAuthorization .authorizedBrowser) true, .initializeDllBlocklist false]
  | resume : SetupFails status [.transfer (.deelevationStatus status) true,
      .transfer (.launchAuthorization .authorizedBrowser) true, .initializeDllBlocklist true,
      .resumeThread false]

/-- What follows the creation of the child, and what the launcher then returns: the child is set
up, with its authorization, and resumed, or it is terminated. -/
inductive Child (exitCode : Int) : List Event → Option Int → Prop where
  | resumed (status : DeelevationStatus) : Child exitCode
      [.transfer (.deelevationStatus status) true,
        .transfer (.launchAuthorization .authorizedBrowser) true, .initializeDllBlocklist true,
        .resumeThread true] (some exitCode)
  | terminated {status : DeelevationStatus} {es : List Event} (h : SetupFails status es) :
      Child exitCode (es ++ [.terminateProcess]) (some 127)

/-- The launcher has refused, without a child. -/
def Refused (r : Option Int) (w : World) : Prop := r = some 127 ∧ NoChild w.events

/-- The launcher has created one child. -/
def Launched (os : Os) (applicationDirectory : WString) (argv : List (Option WPtr))
    (r : Option Int) (w : World) : Prop :=
  ∃ c before after, w.events = before ++ .createProcess c true :: after ∧ NoChild before ∧
    Requested os applicationDirectory argv c ∧ Child os.exitCode after r

/-- The set-up adds its calls to what was done. -/
theorem postCreationSetup_spec (os : Os) (status : DeelevationStatus) (w : World) :
    let Q := fun (ok : Bool) (w' : World) => w'.argv = w.argv ∧
      ∃ es, w'.events = w.events ++ es ∧ (ok = false → SetupFails status es) ∧
        (ok = true → es = [.transfer (.deelevationStatus status) true,
          .transfer (.launchAuthorization .authorizedBrowser) true, .initializeDllBlocklist true])
    wp (postCreationSetup os status) Q Q w := by
  intro Q
  unfold postCreationSetup
  rw [wp_bind, wp_ask, wp_bind, wp_record, wp_bind, wp_require]
  refine ⟨fun h₁ => ?_, fun h₁ => ⟨rfl, _, rfl, fun _ => by rw [h₁]; exact .status, nofun⟩⟩
  rw [wp_bind, wp_ask, wp_bind, wp_record, wp_bind, wp_require]
  refine ⟨fun h₂ => ?_, fun h₂ => ⟨rfl, _, List.append_assoc .., fun _ => ?_, nofun⟩⟩
  · rw [wp_bind, wp_ask, wp_bind, wp_record, wp_pure]
    refine ⟨rfl, _, by rw [List.append_assoc, List.append_assoc], fun h₃ => ?_, fun h₃ => ?_⟩
    · rw [h₁, h₂, h₃]
      exact .blocklist
    · rw [h₁, h₂, h₃]
      rfl
  · rw [h₁, h₂]
    exact .authorization

/-- The flags always ask for a suspended child. -/
theorem suspended_flags (attrsOk : Bool) :
    (CREATE_SUSPENDED ||| CREATE_UNICODE_ENVIRONMENT |||
      (if attrsOk then EXTENDED_STARTUPINFO_PRESENT else 0)) &&& CREATE_SUSPENDED =
      CREATE_SUSPENDED := by
  cases attrsOk with
  | false => decide
  | true => decide

/-- **What the creation of the child looks like, and what follows it.** -/
theorem launchBrowser_spec (os : Os) (dir : WString) (w : World) (hw : NoChild w.events)
    (hargv : ∃ p, w.argv[0]? = some (some p)) :
    let Q := fun r w' => Refused r w' ∨ Launched os dir w.argv r w'
    wp (launchBrowser os dir) Q Q w := by
  intro Q
  have hrefused : ∀ {w' : World}, OnlyEnvironment w w' → Q (some 127) w' := fun h =>
    Or.inl ⟨rfl, hw.of_onlyEnvironment h⟩
  unfold launchBrowser
  rw [wp_bind]
  apply putenv_spec
  intro ok₁ w₁ hargv₁ hevents₁
  have honly₁ : OnlyEnvironment w w₁ := OnlyEnvironment.call hargv₁ hevents₁ rfl
  rw [wp_bind, wp_require]
  refine ⟨fun _ => ?_, fun _ => hrefused honly₁⟩
  rw [wp_bind]
  apply setEnvironmentVariable_spec
  intro ok₂ w₂ hargv₂ hevents₂
  have honly₂ : OnlyEnvironment w w₂ :=
    honly₁.trans (OnlyEnvironment.call hargv₂ hevents₂ rfl)
  rw [wp_bind, wp_require]
  refine ⟨fun _ => ?_, fun _ => hrefused honly₂⟩
  rw [wp_bind, wp_ask, wp_bind, wp_require]
  refine ⟨fun _ => ?_, fun _ => hrefused honly₂⟩
  rw [wp_bind, wp_ask]
  dsimp only
  rw [wp_bind, wp_orReturn]
  refine ⟨fun elevation helevation => ?_, fun _ => hrefused honly₂⟩
  rw [wp_bind, wp_orReturn]
  refine ⟨fun status hstatus => ?_, fun _ => hrefused honly₂⟩
  rw [wp_bind, wp_ask, wp_bind, wp_require]
  refine ⟨fun _ => ?_, fun _ => hrefused honly₂⟩
  rw [wp_bind, wp_get, wp_bind, wp_ask, wp_bind, wp_orReturn]
  refine ⟨fun cmdLine hcmdLine => ?_, fun _ => hrefused honly₂⟩
  rw [wp_bind, wp_ask, wp_bind, wp_orReturn]
  refine ⟨fun _ _ => ?_, fun _ => hrefused honly₂⟩
  rw [wp_bind, wp_ask, wp_bind, wp_orReturn]
  refine ⟨fun attrsOk _ => ?_, fun _ => hrefused honly₂⟩
  rw [wp_bind]
  refine wp_call (buildEnvironment_spec os _ dir _) ?_
  intro environment w₃ ⟨hsame₃, hbuilt⟩
  have honly₃ : OnlyEnvironment w w₃ :=
    honly₂.trans (OnlyEnvironment.refl ⟨hsame₃.argv, hsame₃.events⟩)
  rw [wp_bind, wp_orReturn]
  refine ⟨fun env henv => ?_, fun _ => hrefused honly₃⟩
  rw [wp_bind]
  refine wp_call (serializeEnvironment_spec os env _) ?_
  intro block w₄ ⟨hsame₄, hblock⟩
  have honly₄ : OnlyEnvironment w w₄ := honly₃.trans (OnlyEnvironment.refl hsame₄)
  rw [wp_bind, wp_orReturn]
  refine ⟨fun b hb => ?_, fun _ => hrefused honly₄⟩
  rw [wp_bind, wp_defined]
  obtain ⟨p, hp⟩ := hargv
  have hp' : w₂.argv[0]? = some (some p) := by rw [hargv₂, hargv₁, hp]
  refine ⟨p, by rw [hp', Option.join_some], ?_⟩
  rw [wp_bind, wp_ask, wp_bind, wp_record, wp_bind, wp_require]
  have hquiet : NoChild w₄.events := hw.of_onlyEnvironment honly₄
  refine ⟨fun hcreated => ?_, fun hnot => Or.inl ⟨rfl, hquiet.append ?_⟩⟩
  · rw [hcreated]
    have hargv₂' : w₂.argv = w.argv := hargv₂.trans hargv₁
    have hasked : Requested os dir w.argv ⟨(os.elevationState (w₂.calls + 1)).2, p, cmdLine,
        CREATE_SUSPENDED ||| CREATE_UNICODE_ENVIRONMENT |||
          (if attrsOk then EXTENDED_STARTUPINFO_PRESENT else 0), b, dir⟩ := by
      exact ⟨suspended_flags attrsOk, hp, ⟨_, hargv₂' ▸ hcmdLine⟩,
        ⟨env, hbuilt env henv, hblock b hb⟩, rfl⟩
    rw [wp_bind]
    refine wp_call (postCreationSetup_spec os status _) ?_
    intro setup w₅ ⟨_, es, hes, hfailed, hdone⟩
    rw [wp_ite]
    refine ⟨fun hsetup => ?_, fun hsetup => ?_⟩
    · rw [wp_bind, wp_record, wp_ret]
      refine Or.inr ⟨_, w₄.events, _, ?_, hquiet, hasked, .terminated (hfailed hsetup)⟩
      rw [hes]
      simp
    · rw [wp_bind, wp_ask, wp_bind, wp_record, wp_ite]
      rw [hdone (by simpa using hsetup)] at hes
      refine ⟨fun hresumed => ?_, fun hresumed => ?_⟩
      · rw [wp_bind, wp_record, wp_ret]
        have hfails : SetupFails status _ := .resume
        refine Or.inr ⟨_, w₄.events, _, ?_, hquiet, hasked, .terminated hfails⟩
        rw [hes, hresumed]
        simp
      · rw [wp_pure]
        refine Or.inr ⟨_, w₄.events, _, ?_, hquiet, hasked, .resumed status⟩
        rw [hes, (by simpa using hresumed : os.resumeThread w₅.calls = true)]
        simp
  · intro e he
    rw [List.mem_singleton.1 he]
    exact hnot

/-! ## The launcher fails closed -/

/-- A canonical content-process vector. -/
def ContentProcess (argv : List (Option WStr)) : Prop :=
  4 ≤ argv.length ∧ argv[1]? = some (some CONTENTPROC_FLAG) ∧
    ¬∃ s, some s ∈ argv.drop 2 ∧ IsFlag s

/-- The approved vector: what is left when a `den:` link is unwrapped, with the path of the
binary in first place. -/
def approved (argv : List (Option WStr)) (path : WStr) : List (Option WStr) :=
  (unwrapped argv).set 0 (some path)

/-- The launcher at the start, with an argument vector. -/
def started (argv : List (Option WStr)) : World := ⟨ptrs argv, 0, []⟩

/-- The process may become the browser: it is a content process of the same binary, and nothing
has been done, or it is the authorized browser with an approved vector, and its environment has
been rebuilt and applied. -/
inductive MayRun (os : Os) (argv : List (Option WStr)) :
    DenBrowserLaunchAuthorization → List Event → Prop where
  | contentProcess {k : Nat} (hvector : ContentProcess argv)
      (hparent : os.isSameBinaryAsParentProcess k = some true) : MayRun os argv .untrusted []
  | browser {k : Nat} {path : WStr} {dir : WString} {e : Environment} {es : List Event}
      (hvector : LaunchLanguage ClosedFirst argv) (hpath : os.fullBinaryPath k = some path)
      (hdir : getApplicationDirectory path.chars = some dir) (hbuilt : BuiltFrom os none dir e)
      (happlied : Applied os e es) : MayRun os argv .authorizedBrowser es

/-- The launcher has started the browser, from an approved vector, as a child. -/
def StartedBrowser (os : Os) (argv : List (Option WStr)) (r : Option Int) (w : World) : Prop :=
  LaunchLanguage ClosedFirst argv ∧ ∃ k path dir, os.fullBinaryPath k = some path ∧
    getApplicationDirectory path.chars = some dir ∧ Allowed ClosedFirst (approved argv path) ∧
    Launched os dir (ptrs (approved argv path)) r w

/-- How a run of the launcher may end. -/
def EndsClosed (os : Os) (authorization : DenBrowserLaunchAuthorization)
    (argv : List (Option WStr)) (r : Option Int) (w : World) : Prop :=
  (r = none ∧ MayRun os argv authorization w.events) ∨ Refused r w ∨
    (authorization = .untrusted ∧ StartedBrowser os argv r w)

theorem untrusted_of_ne {a : DenBrowserLaunchAuthorization} (h : a ≠ .authorizedBrowser) :
    a = .untrusted := by
  cases a with
  | untrusted => rfl
  | authorizedBrowser => exact absurd rfl h

theorem contentProcess_spec (os : Os) (authorization : DenBrowserLaunchAuthorization)
    (argv : List (Option WStr)) :
    let Q := EndsClosed os authorization argv
    wp (contentProcess os authorization) Q Q (started argv) := by
  intro Q
  have hrefused : ∀ {w : World}, w.events = [] → Q (some 127) w := by
    intro w h
    refine Or.inr (Or.inl ⟨rfl, ?_⟩)
    rw [h]
    exact fun e he => nomatch he
  unfold contentProcess
  rw [wp_bind, wp_require]
  refine ⟨fun hauth => ?_, fun _ => hrefused rfl⟩
  rw [wp_bind, wp_get, wp_bind, wp_defined]
  obtain ⟨b, hb, hcanonical⟩ := isCanonicalContentProcessCommandLine_ptr argv
  refine ⟨b, hb, ?_⟩
  rw [wp_bind, wp_require]
  refine ⟨fun hb => ?_, fun _ => hrefused rfl⟩
  rw [wp_bind, wp_require]
  refine ⟨fun _ => ?_, fun _ => hrefused rfl⟩
  rw [wp_bind, wp_ask, wp_bind, wp_orReturn]
  refine ⟨fun same hsame => ?_, fun _ => hrefused rfl⟩
  rw [wp_bind, wp_require]
  refine ⟨fun hs => ?_, fun _ => hrefused rfl⟩
  rw [wp_pure]
  refine Or.inl ⟨rfl, ?_⟩
  obtain rfl := untrusted_of_ne (a := authorization) (by simpa using hauth)
  exact .contentProcess (hcanonical.1 hb) (hs ▸ hsame)

theorem allowed_set {closed : List WChar → Prop} {argv : List (Option WStr)} (path : WStr)
    (h : Allowed closed argv) : Allowed closed (argv.set 0 (some path)) := by
  rcases h with ⟨bin, rfl⟩ | ⟨bin, u, rfl, hu⟩
  · exact Or.inl ⟨path, rfl⟩
  · exact Or.inr ⟨path, u, rfl, hu⟩

theorem launcherMain_spec (os : Os) (authorization : DenBrowserLaunchAuthorization)
    (argv : List (Option WStr)) :
    let Q := EndsClosed os authorization argv
    wp (launcherMain os authorization) Q Q (started argv) := by
  intro Q
  have hrefused : ∀ {w : World}, NoChild w.events → Q (some 127) w := fun h =>
    Or.inr (Or.inl ⟨rfl, h⟩)
  have hnil : NoChild [] := fun e he => nomatch he
  unfold launcherMain
  rw [wp_bind, wp_get, wp_bind, wp_defined]
  obtain ⟨flag, hflag, _⟩ := hasContentProcessFlag_ptr argv
  refine ⟨flag, hflag, ?_⟩
  rw [wp_ite]
  refine ⟨fun _ => contentProcess_spec os authorization argv, fun _ => ?_⟩
  rw [wp_bind, wp_defined]
  refine ⟨_, unwrapDenLinkArgument_ptr argv, ?_⟩
  rw [wp_bind, wp_modify, wp_bind, wp_defined]
  obtain ⟨b, hb, hallowed⟩ := isAllowedBrowserCommandLine_ptr (unwrapped argv)
  refine ⟨b, hb, ?_⟩
  rw [wp_bind, wp_require]
  refine ⟨fun hb => ?_, fun _ => hrefused hnil⟩
  have hlanguage := allowed_unwrapped_iff.1 (hallowed.1 hb)
  rw [wp_bind, wp_ask, wp_bind, wp_orReturn]
  refine ⟨fun path hpath => ?_, fun _ => hrefused hnil⟩
  have hvector := allowed_set path (hallowed.1 hb)
  rw [wp_bind, wp_modify, wp_bind, wp_orReturn]
  refine ⟨fun dir hdir => ?_, fun _ => hrefused hnil⟩
  have hargv : (ptrs (unwrapped argv)).set 0 (some path.ptr) = ptrs (approved argv path) := by
    unfold ptrs approved
    rw [List.map_set]
    rfl
  dsimp only
  rw [hargv, wp_bind]
  refine wp_call (buildEnvironment_spec os none dir _) ?_
  intro environment w₁ ⟨hsame, hbuilt⟩
  have hquiet₁ : NoChild w₁.events := hsame.events ▸ hnil
  rw [wp_bind, wp_orReturn]
  refine ⟨fun e he => ?_, fun _ => hrefused hquiet₁⟩
  rw [wp_bind]
  refine wp_call (applyCurrentEnvironment_spec os e w₁) ?_
  intro applied w₂ ⟨honly, happlied⟩
  have hquiet₂ : NoChild w₂.events := hquiet₁.of_onlyEnvironment honly
  rw [wp_bind, wp_require]
  refine ⟨fun happ => ?_, fun _ => hrefused hquiet₂⟩
  rw [wp_ite]
  refine ⟨fun hauth => ?_, fun hauth => ?_⟩
  · obtain ⟨es, hes, hcalls⟩ := happlied happ
    rw [wp_pure]
    refine Or.inl ⟨rfl, ?_⟩
    rw [hauth, hes, hsame.events]
    exact .browser hlanguage hpath hdir (hbuilt e he) hcalls
  · have hargv₂ : w₂.argv = ptrs (approved argv path) := honly.1.trans hsame.argv
    have hfirst : ∃ p, w₂.argv[0]? = some (some p) := by
      rw [hargv₂]
      rcases hvector with ⟨bin, h⟩ | ⟨bin, u, h, _⟩
      · exact ⟨bin.ptr, by unfold approved; rw [h]; rfl⟩
      · exact ⟨bin.ptr, by unfold approved; rw [h]; rfl⟩
    have hend : ∀ r w', Refused r w' ∨ Launched os dir w₂.argv r w' → Q r w' := by
      rintro r w' (h | h)
      · exact Or.inr (Or.inl h)
      · exact Or.inr (Or.inr ⟨untrusted_of_ne hauth, hlanguage, _, path, dir, hpath, hdir, hvector,
          hargv₂ ▸ h⟩)
    exact wp_mono (launchBrowser_spec os dir w₂ hquiet₂ hfirst) hend hend

/-- **The launcher fails closed.**  Whatever the vector, the authorization and the answers of the
system, the launcher returns.  It lets the process become the browser only for a canonical
content-process vector, without authorization and under a parent of the same binary, or for the
authorized browser with an approved vector and an environment rebuilt and applied.  In every other
run it refuses without a child, or it has created one suspended child from the approved vector and
an environment that was built, which is resumed after its authorization was written, and is
terminated when the set-up or the resumption fails. -/
theorem launcherMain_fails_closed (os : Os) (authorization : DenBrowserLaunchAuthorization)
    (argv : List (Option WStr)) :
    ∃ r w, Cmd.run (launcherMain os authorization) (started argv) = (some r, w) ∧
      (r = none → MayRun os argv authorization w.events) ∧
      (r ≠ none → Refused r w ∨ (authorization = .untrusted ∧ StartedBrowser os argv r w)) := by
  obtain ⟨r, w, hrun, hend⟩ := exists_run (launcherMain_spec os authorization argv)
  refine ⟨r, w, hrun, fun hr => ?_, fun hr => ?_⟩
  · rcases hend with ⟨_, h⟩ | ⟨h, _⟩ | ⟨_, _, _, _, _, _, _, _, _, _, _, _, _, _, h⟩
    · exact h
    · rw [hr] at h
      cases h
    · rw [hr] at h
      cases h
  · rcases hend with ⟨h, _⟩ | h | h
    · exact absurd h hr
    · exact Or.inl h
    · exact Or.inr h

end DenBrowser.Launcher
