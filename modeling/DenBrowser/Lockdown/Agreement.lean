import DenBrowser.Lockdown.ScriptReads

/-!
# Do the two builds lock the same preferences?

The generated function and AutoConfig, put side by side on one configuration file.

* `lockdown_body` — the generated function settles each statement it was made from;
* `lockdown_agrees_iff` — exactly when a file in the documented form locks the same in both: the
  first statement of every name, which counts in production, must carry the value of the last one
  below the first line, which counts under AutoConfig;
* `CfgFile.Consistent.of_distinct` — distinct names and a first line that is no statement are
  enough;
* `lockdown_diverges` — files that the compiler accepts and translates into something else.
-/

set_option autoImplicit false

namespace DenBrowser.Lockdown

/-- Both builds come up, with the same locked preferences, types and values. -/
def Agrees (js : Str → Option (List LockCall)) (text : Str) (entries : List Entry) (p : Prefs) :
    Prop :=
  ∃ production development, lockdown (lockdownBody entries) p = some production ∧
    autoConfig js text p = some development ∧ locked production = locked development

/-- The setting that production takes from a statement. -/
def Statement.setting (s : Statement) : LockCall := (s.name.1, s.literal.compiled)

/-- What production reads in the first statement of a name, on whichever line. -/
def CfgFile.firstWritten (cfg : CfgFile) (name : Str) : Option PrefValue :=
  (cfg.written.map Statement.setting).lookup name

/-- What the last statement of a name says below the first line. -/
def CfgFile.lastExecuted (cfg : CfgFile) (name : Str) : Option PrefValue :=
  (cfg.executed.map Statement.call).reverse.lookup name

structure CfgFile.Consistent (cfg : CfgFile) : Prop where
  compiles : ∀ s ∈ cfg.written, s.literal.Cxx
  firstIsLast : ∀ name, cfg.firstWritten name = cfg.lastExecuted name

/-! ## The generated function -/

theorem cxxChars_plain {s : Str} (h : ∀ c ∈ s, isPlain c = true) : cxxChars s = some s := by
  unfold cxxChars
  rw [if_neg]
  rintro (hc | hc | hc)
  · exact (not_special_of_plain (h _ hc)).1 rfl
  · exact (not_special_of_plain (h _ hc)).2 rfl
  · exact oneLine_of_plain h hc

theorem cxxString_quoted {s : Str} (h : ∀ c ∈ s, isPlain c = true) :
    cxxString ('"' :: s ++ ['"']) = some s := by
  unfold cxxString
  rw [if_pos]
  · rw [List.cons_append, List.drop_one, List.tail_cons, List.dropLast_concat]
    exact cxxChars_plain h
  · refine ⟨rfl, ?_, by simp⟩
    rw [List.getLast?_concat]

theorem cxxNat_digits (digits : Digits) :
    cxxNat digits.1 =
      if digits.1.head? = some '0' ∧ ¬ digits.1.all isOctal = true then none
      else some (jsDigits digits.1) := by
  unfold cxxNat jsDigits
  rw [if_neg]
  · by_cases hzero : digits.1.head? = some '0'
    · by_cases hoctal : digits.1.all isOctal = true
      · simp [hzero, hoctal]
      · simp [hzero, hoctal]
    · simp [hzero]
  · rintro (h | h)
    · exact digits.2.1 h
    · apply h
      rw [List.all_eq_true]
      exact digits.2.2

/-- The integer literal of a number. -/
theorem cxxInt_render (negative : Bool) (digits : Digits) :
    (cxxInt (Literal.int negative digits).render).map PrefValue.int =
      if digits.1.head? = some '0' ∧ ¬ digits.1.all isOctal = true then none
      else some (Literal.int negative digits).value := by
  cases negative with
  | true =>
    show ((cxxNat digits.1).map fun n => -(n : Int)).map _ = _
    rw [cxxNat_digits]
    split
    · rfl
    · rfl
  | false =>
    have hplain : cxxInt digits.1 = (cxxNat digits.1).map fun n => (n : Int) := by
      unfold cxxInt
      split
      · rename_i ds hds
        have hminus := digits.2.2 '-' (by rw [hds]; exact List.mem_cons_self)
        exact absurd hminus (by decide)
      · rfl
    show (cxxInt digits.1).map _ = _
    rw [hplain, cxxNat_digits]
    split
    · rfl
    · rfl

theorem lockdown_cons (c : Call) (cs : List Call) (p : Prefs) :
    lockdown (c :: cs) p = (runCall c).bind fun f => lockdown cs (f p) := rfl

section Calls

variable {name : Str} (h : cxxChars name = some name)
include h

theorem runCall_lock : runCall (.lock name) = some (lock name) := by
  show ((cxxChars name).bind fun name => some (lock name)) = _
  rw [h]
  rfl

theorem runCall_setBool (lit : Str) :
    runCall (.setBool name lit) = (cxxBool lit).map fun b => setDefault name (.bool b) := by
  show ((cxxChars name).bind fun name => (cxxBool lit).bind fun b =>
    some (setDefault name (.bool b))) = _
  rw [h]
  cases cxxBool lit <;> rfl

theorem runCall_setInt (lit : Str) :
    runCall (.setInt name lit) = (cxxInt lit).map fun n => setDefault name (.int n) := by
  show ((cxxChars name).bind fun name => (cxxInt lit).bind fun n =>
    some (setDefault name (.int n))) = _
  rw [h]
  cases cxxInt lit <;> rfl

theorem runCall_setCString (lit : Str) :
    runCall (.setCString name lit) = (cxxString lit).map fun s => setDefault name (.str s) := by
  show ((cxxChars name).bind fun name => (cxxString lit).bind fun s =>
    some (setDefault name (.str s))) = _
  rw [h]
  cases cxxString lit <;> rfl

end Calls

/-- The calls of one statement settle it, unless its literal does not compile. -/
theorem lockdown_statement (s : Statement) (cs : List Call) (p : Prefs) :
    (s.literal.Cxx → lockdown (emit s.entry ++ cs) p = lockdown cs (settle p s.setting)) ∧
      (¬ s.literal.Cxx → lockdown (emit s.entry ++ cs) p = none) := by
  have hname := cxxChars_plain s.name.2.2
  have hset : ∀ c v, runCall c = some (setDefault s.name.1 v) →
      lockdown (c :: .lock s.name.1 :: cs) p = lockdown cs (settle p (s.name.1, v)) := by
    intro c v hc
    rw [lockdown_cons, hc, Option.bind_some, lockdown_cons, runCall_lock hname, Option.bind_some]
    rfl
  unfold Statement.entry Statement.setting
  cases s.literal with
  | bool b =>
    refine ⟨fun _ => ?_, fun h => absurd trivial h⟩
    apply hset
    cases b with
    | true => exact runCall_setBool hname _
    | false => exact runCall_setBool hname _
  | str q =>
    refine ⟨fun _ => ?_, fun h => absurd trivial h⟩
    apply hset
    have hquoted : cxxString ('"' :: (if endsStatement q.1 then [] else q.1) ++ ['"']) =
        some (if endsStatement q.1 then [] else q.1) := by
      apply cxxString_quoted
      split
      · simp
      · exact q.2
    exact (runCall_setCString hname _).trans (congrArg (Option.map _) hquoted)
  | int negative digits =>
    have hint := cxxInt_render negative digits
    constructor
    · intro hcxx
      rw [if_neg fun h => h.2 (hcxx h.1)] at hint
      obtain ⟨n, hn, hv⟩ := Option.map_eq_some_iff.1 hint
      have hsetting : (Literal.int negative digits).compiled = .int n := hv.symm
      rw [hsetting]
      apply hset
      exact (runCall_setInt hname _).trans (congrArg (Option.map _) hn)
    · intro hcxx
      have hstray : digits.1.head? = some '0' ∧ ¬ digits.1.all isOctal = true := by
        by_contra h
        exact hcxx fun hzero => not_not.1 fun hoctal => h ⟨hzero, hoctal⟩
      rw [if_pos hstray, Option.map_eq_none_iff] at hint
      show lockdown (.setInt s.name.1 (Literal.int negative digits).render :: _) p = none
      rw [lockdown_cons, runCall_setInt hname, hint]
      rfl

/-- **The generated function** settles each statement in turn. -/
theorem lockdown_body {ss : List Statement} (h : ∀ s ∈ ss, s.literal.Cxx) (p : Prefs) :
    lockdown (lockdownBody (ss.map Statement.entry)) p =
      some ((ss.map Statement.setting).foldl settle p) := by
  induction ss generalizing p with
  | nil => rfl
  | cons s ss ih =>
    obtain ⟨hs, htail⟩ := List.forall_mem_cons.1 h
    exact ((lockdown_statement s _ p).1 hs).trans (ih htail _)

/-- One literal that does not compile is enough. -/
theorem compiles_of_lockdown {ss : List Statement} {p q : Prefs}
    (h : lockdown (lockdownBody (ss.map Statement.entry)) p = some q) :
    ∀ s ∈ ss, s.literal.Cxx := by
  induction ss generalizing p with
  | nil => simp
  | cons s ss ih =>
    have hstep := lockdown_statement s (lockdownBody (ss.map Statement.entry)) p
    by_cases hs : s.literal.Cxx
    · exact List.forall_mem_cons.2 ⟨hs, ih ((hstep.1 hs).symm.trans h)⟩
    · have hnone : (none : Option Prefs) = some q := (hstep.2 hs).symm.trans h
      cases hnone

/-! ## Side by side -/

theorem autoConfig_of_cfgFile {js : Str → Option (List LockCall)} (hjs : FollowsEcmaScript js)
    {cfg : CfgFile} {text : Str} (htext : universalNewlines text = cfg.render)
    (hrange : ∀ s ∈ cfg.executed, s.literal.InRange) (p : Prefs) :
    autoConfig js text p = some ((cfg.executed.map Statement.call).foldl lockPref p) := by
  unfold autoConfig
  rw [hjs _ _ (script_of_cfgFile htext hrange)]
  rfl

/-- The two sides of a file in the documented form, from preferences none of which is locked. -/
theorem locked_sides {p : Prefs} (hp : ∀ name, locked p name = none) (cfg : CfgFile) (name : Str) :
    locked ((cfg.written.map Statement.setting).foldl settle p) name = cfg.firstWritten name ∧
      locked ((cfg.executed.map Statement.call).foldl lockPref p) name =
        cfg.lastExecuted name := by
  constructor
  · rw [locked_runSettings, hp]
    rfl
  · rw [locked_runLockPrefs, hp, Option.or_none]
    rfl

/-- With distinct keys the two ends of a list agree on what they find. -/
theorem lookup_reverse {calls : List LockCall} (h : (calls.map Prod.fst).Nodup) (name : Str) :
    calls.reverse.lookup name = calls.lookup name := by
  induction calls with
  | nil => rfl
  | cons call calls ih =>
    rw [List.map_cons, List.nodup_cons] at h
    obtain ⟨hnew, htail⟩ := h
    rw [List.reverse_cons, List.lookup_append, ih htail, lookup_cons, lookup_cons]
    by_cases hname : name = call.1
    · have habsent : calls.lookup name = none := by
        rw [List.lookup_eq_none_iff]
        intro entry hentry
        rw [bne_iff_ne]
        intro heq
        apply hnew
        rw [← hname, heq]
        exact List.mem_map_of_mem hentry
      rw [habsent, if_pos hname]
      rfl
    · rw [if_neg hname]
      cases calls.lookup name with
      | none => rfl
      | some v => rfl

/-- **The documented form with distinct names** is consistent. -/
theorem CfgFile.Consistent.of_distinct {cfg : CfgFile} (hfirst : cfg.first.statement = [])
    (hnames : (cfg.executed.map fun s => s.name.1).Nodup)
    (hliterals : ∀ s ∈ cfg.executed, s.literal.Cxx ∧ s.literal.compiled = s.literal.value) :
    cfg.Consistent := by
  have hwritten : cfg.written = cfg.executed := by
    unfold CfgFile.written
    rw [hfirst, List.nil_append]
  constructor
  · intro s hs
    rw [hwritten] at hs
    exact (hliterals s hs).1
  · intro name
    have hsame : cfg.executed.map Statement.setting = cfg.executed.map Statement.call := by
      apply List.map_congr_left
      intro s hs
      exact Prod.ext rfl (hliterals s hs).2
    unfold CfgFile.firstWritten CfgFile.lastExecuted
    rw [hwritten, hsame, lookup_reverse]
    rw [List.map_map]
    exact hnames

/-- **Exactly when a file in the documented form locks the same in both builds.** -/
theorem lockdown_agrees_iff {js : Str → Option (List LockCall)} (hjs : FollowsEcmaScript js)
    {p : Prefs} (hp : ∀ name, locked p name = none) {cfg : CfgFile} {text : Str}
    (htext : universalNewlines text = cfg.render) {entries : List Entry}
    (hparse : parseCfg text = .ok entries) : Agrees js text entries p ↔ cfg.Consistent := by
  obtain ⟨hentries, hrange⟩ := entries_of_parseCfg htext hparse
  have hexecuted : ∀ s ∈ cfg.executed, s.literal.InRange :=
    fun s hs => hrange s (List.mem_append_right _ hs)
  have hauto := autoConfig_of_cfgFile hjs htext hexecuted p
  constructor
  · rintro ⟨production, development, hprod, hdev, hlocked⟩
    rw [hentries] at hprod
    have hcxx := compiles_of_lockdown hprod
    rw [lockdown_body hcxx] at hprod
    rw [hauto] at hdev
    cases hprod
    cases hdev
    refine ⟨hcxx, ?_⟩
    intro name
    obtain ⟨hfirst, hlast⟩ := locked_sides hp cfg name
    rw [← hfirst, ← hlast, hlocked]
  · rintro ⟨hcxx, hsame⟩
    refine ⟨(cfg.written.map Statement.setting).foldl settle p, _, ?_, hauto, ?_⟩
    · rw [hentries]
      exact lockdown_body hcxx p
    · funext name
      obtain ⟨hfirst, hlast⟩ := locked_sides hp cfg name
      rw [hfirst, hlast, hsame name]

/-! ## A file that agrees, and files that do not -/

def noGap : Gap := ⟨[], by simp⟩

def plainStatement (name : Name) (l : Literal) : Statement where
  indent := noGap
  afterParen := noGap
  name := name
  afterName := noGap
  beforeValue := ⟨[' '], forall_mem_of_all (by decide)⟩
  literal := l
  afterValue := noGap
  beforeSemi := noGap
  afterSemi := noGap
  comment := none

def cacheDisk : Name :=
  ⟨"browser.cache.disk.capacity".toList, by decide +kernel, forall_mem_of_all (by decide +kernel)⟩

def cacheMemory : Name :=
  ⟨"browser.cache.memory.capacity".toList, by decide +kernel,
    forall_mem_of_all (by decide +kernel)⟩

def oneDigit (c : Char) (h : c.isDigit = true) : Digits := ⟨[c], by simp, by simpa using h⟩

/-- A comment line, and two statements after a blank line. -/
def cacheCfg : CfgFile where
  first := .comment noGap ⟨" mozilla.cfg".toList, forall_mem_of_all (by decide +kernel)⟩
  items := [.blank noGap, .lockPref (plainStatement cacheDisk (.int false (oneDigit '0' rfl))),
    .lockPref (plainStatement cacheMemory (.int true (oneDigit '1' rfl))), .blank noGap]

def cacheText : Str :=
  ("// mozilla.cfg\r\n\r\nlockPref(\"browser.cache.disk.capacity\", 0);\r\n" ++
    "lockPref(\"browser.cache.memory.capacity\", -1);\r\n").toList

def cacheEntries : List Entry :=
  [⟨.int, cacheDisk.1, ['0']⟩, ⟨.int, cacheMemory.1, ['-', '1']⟩]

def noPrefs : Prefs := fun _ => none

theorem cacheText_read : universalNewlines cacheText = cacheCfg.render := by decide +kernel

theorem cacheText_parsed : parseCfg cacheText = .ok cacheEntries := by decide +kernel

theorem cacheCfg_consistent : cacheCfg.Consistent := by
  apply CfgFile.Consistent.of_distinct rfl
  · show [cacheDisk.1, cacheMemory.1].Nodup
    decide +kernel
  · intro s hs
    change s ∈ [_, _] at hs
    simp only [List.mem_cons, List.not_mem_nil, or_false] at hs
    rcases hs with rfl | rfl
    · exact ⟨fun _ => rfl, rfl⟩
    · exact ⟨fun h => absurd h (by decide), rfl⟩

theorem lockdown_agrees_iff_cache : Agrees script cacheText cacheEntries noPrefs :=
  (lockdown_agrees_iff (fun _ _ h => h) (fun _ => rfl) cacheText_read cacheText_parsed).2
    cacheCfg_consistent

theorem not_agrees {text : Str} {entries : List Entry} {p : Prefs} (name : Str)
    (h : ((lockdown (lockdownBody entries) p).map fun q => locked q name) ≠
      (autoConfig script text p).map fun q => locked q name) : ¬ Agrees script text entries p := by
  rintro ⟨production, development, hprod, hdev, hlocked⟩
  rw [hprod, hdev] at h
  exact h (congrArg some (congrFun hlocked name))

/-- The compiler accepts the file, and production and development differ. -/
def Diverges (text : Str) : Prop :=
  ∃ entries, parseCfg text = .ok entries ∧ ¬ Agrees script text entries noPrefs

theorem diverges_of {text : Str} (entries : List Entry) (name : Str)
    (hparse : parseCfg text = .ok entries)
    (h : ((lockdown (lockdownBody entries) noPrefs).map fun q => locked q name) ≠
      (autoConfig script text noPrefs).map fun q => locked q name) : Diverges text :=
  ⟨entries, hparse, not_agrees name h⟩

def ab : Str := "a.b".toList

def cd : Str := "c.d".toList

/-- A name locked twice: production keeps the first value, AutoConfig the second. -/
def twice : Str := "// cfg\nlockPref(\"a.b\", true);\nlockPref(\"a.b\", false);\n".toList

/-- A statement on the first line, which AutoConfig does not run. -/
def onFirstLine : Str := "lockPref(\"a.b\", true);\nlockPref(\"c.d\", true);\n".toList

/-- A statement within a comment. -/
def commentedOut : Str :=
  "// cfg\n/*\nlockPref(\"a.b\", true);\n*/\nlockPref(\"c.d\", true);\n".toList

/-- A statement under a condition. -/
def conditional : Str :=
  "// cfg\nif (false) \x7b\nlockPref(\"a.b\", true);\n\x7d\nlockPref(\"c.d\", true);\n".toList

/-- A string that looks like the end of the statement and a comment. -/
def cutString : Str := "// cfg\nlockPref(\"a.b\", \"); // c\");\n".toList

/-- A number that is decimal in JavaScript and no number in C++. -/
def strayOctal : Str := "// cfg\nlockPref(\"a.b\", 08);\n".toList

/-- **Accepted, and translated into something else.** -/
theorem lockdown_diverges :
    Diverges twice ∧ Diverges onFirstLine ∧ Diverges commentedOut ∧ Diverges conditional ∧
      Diverges cutString ∧ Diverges strayOctal := by
  refine ⟨?_, ?_, ?_, ?_, ?_, ?_⟩
  · exact diverges_of [⟨.bool, ab, "true".toList⟩, ⟨.bool, ab, "false".toList⟩] ab
      (by decide +kernel) (by decide +kernel)
  · exact diverges_of [⟨.bool, ab, "true".toList⟩, ⟨.bool, cd, "true".toList⟩] ab
      (by decide +kernel) (by decide +kernel)
  · exact diverges_of [⟨.bool, ab, "true".toList⟩, ⟨.bool, cd, "true".toList⟩] ab
      (by decide +kernel) (by decide +kernel)
  · exact diverges_of [⟨.bool, ab, "true".toList⟩, ⟨.bool, cd, "true".toList⟩] ab
      (by decide +kernel) (by decide +kernel)
  · exact diverges_of [⟨.str, ab, "\"\"".toList⟩] ab (by decide +kernel) (by decide +kernel)
  · exact diverges_of [⟨.int, ab, "08".toList⟩] ab (by decide +kernel) (by decide +kernel)

end DenBrowser.Lockdown
