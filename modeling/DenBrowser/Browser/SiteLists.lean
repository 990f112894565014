import DenBrowser.Browser.GeneratedBlock
import DenBrowser.Browser.SiteConfig
import DenBrowser.Lib.CTables
import DenBrowser.Lib.PyTemplate

/-!
# The lists of sites

Step 2.6 of `scripts/build.sh` writes the lists of `config/site-config.json` into three source
files, each list between the sentinels of its array.

* `step26` — the step, from the configuration and the files to the files;
* `expand_replacement` — what a block is replaced by;
* `arrayIn` — the array that the text of a block declares.
-/

set_option autoImplicit false

namespace DenBrowser.SiteLists

open SiteConfig GeneratedBlock Lockdown Sentinel

/-! ## The arrays -/

inductive SentinelName
  | CLIPBOARD_SITES
  | SITE_WHITELIST
  | SITE_BLACKLIST
  deriving DecidableEq

def SentinelName.text : SentinelName → Str
  | .CLIPBOARD_SITES => "CLIPBOARD_SITES".toList
  | .SITE_WHITELIST => "SITE_WHITELIST".toList
  | .SITE_BLACKLIST => "SITE_BLACKLIST".toList

def VAR_NAMES : SentinelName → Str
  | .CLIPBOARD_SITES => "kDenClipboardSites".toList
  | .SITE_WHITELIST => "kDenSiteWhitelist".toList
  | .SITE_BLACKLIST => "kDenSiteBlacklist".toList

/-- Where the configuration has the list. -/
def SentinelName.key : SentinelName → String
  | .CLIPBOARD_SITES => "clipboard_sites"
  | .SITE_WHITELIST => "site_whitelist"
  | .SITE_BLACKLIST => "site_blacklist"

def SentinelName.start (n : SentinelName) : Marker where
  text := "// ── DEN: ".toList ++ (n.text ++ " ──".toList)
  ne_nil := by simp
  oneLine := by cases n <;> exact forall_mem_of_all (by decide)

def SentinelName.stop (n : SentinelName) : Marker where
  text := "// ── DEN END: ".toList ++ (n.text ++ " ──".toList)
  ne_nil := by simp
  oneLine := by cases n <;> exact forall_mem_of_all (by decide)

/-! ## The text -/

def entries (items : List Str) : Str :=
  items.flatMap fun item => "  \"".toList ++ (item ++ "\",\n".toList)

/-- What comes before the entries, after the first sentinel. -/
def header (n : SentinelName) : Str :=
  "\nstatic const char* const ".toList ++ (VAR_NAMES n ++ "[] = \x7b\n".toList)

/-- What comes after the entries, before the second sentinel. -/
def footer : Str := "  nullptr\n\x7d;\n".toList

/-- The text between the sentinels. -/
def body (n : SentinelName) (items : List Str) : Str := header n ++ (entries items ++ footer)

def replacement (n : SentinelName) (items : List Str) : Str :=
  n.start.text ++ (body n items ++ n.stop.text)

/-! ## The step -/

section

variable (repr : Json → Str)

/-- `f'{item}'`; a text with half of a surrogate pair cannot be written. -/
def formatted (value : Json) : Option Str :=
  match value with
  | .null => some "None".toList
  | .bool true => some "True".toList
  | .bool false => some "False".toList
  | .number _ text => some text
  | .str (.text s) => some s
  | .str .surrogate => none
  | .list _ => some (repr value)
  | .dict _ => some (repr value)

/-- The items of what is iterated: of a list, of the characters of a text, of the keys of a
dictionary. -/
def iterated (value : Json) : Option (List Str) :=
  match value with
  | .list items => items.mapM (formatted repr)
  | .str (.text s) => some (s.map fun c => [c])
  | .dict fields => fields.mapM fun f => formatted repr (.str f.1)
  | _ => none

/-- The file that is written; `none` ends the build. -/
def inject (n : SentinelName) (value : Json) (content : Str) : Option Str :=
  (iterated repr value).bind fun items =>
    (PyTemplate.parse (replacement n items)).bind fun template =>
      if blockCount n.start n.stop content = 0 then none
      else some (substitute n.start.text n.stop.text (PyTemplate.expand template)
        (universalNewlines content))

/-- `config.get(key, [])` -/
def get (fields : List (JsonString × Json)) (n : SentinelName) : Json :=
  (lookup fields n.key).getD (.list [])

structure Files where
  ncopy : Str
  contentParent : Str
  siteFilter : Str
  deriving DecidableEq

def step26 (config : Json) (files : Files) : Option Files :=
  match config with
  | .dict fields =>
    (inject repr .CLIPBOARD_SITES (get fields .CLIPBOARD_SITES) files.ncopy).bind fun ncopy =>
    (inject repr .CLIPBOARD_SITES (get fields .CLIPBOARD_SITES) files.contentParent).bind
      fun contentParent =>
    (inject repr .SITE_WHITELIST (get fields .SITE_WHITELIST) files.siteFilter).bind
      fun siteFilter =>
    (inject repr .SITE_BLACKLIST (get fields .SITE_BLACKLIST) siteFilter).map fun siteFilter =>
      ⟨ncopy, contentParent, siteFilter⟩
  | _ => none

end

/-! ## Lists of strings -/

/-- A string that can be written at all. -/
def textOf (value : Json) : Option Str :=
  match value with
  | .str (.text s) => some s
  | _ => none

/-- The value is a list of strings. -/
def listOf (value : Json) : Option (List Str) :=
  match value with
  | .list items => items.mapM textOf
  | _ => none

theorem formatted_of_textOf {repr : Json → Str} {value : Json} {s : Str}
    (h : textOf value = some s) : formatted repr value = some s := by
  unfold textOf at h
  split at h
  · exact h
  · cases h

/-- A list of strings is written as it is. -/
theorem iterated_of_listOf {repr : Json → Str} {value : Json} {items : List Str}
    (h : listOf value = some items) : iterated repr value = some items := by
  cases value with
  | list values =>
    show values.mapM (formatted repr) = some items
    have hvalues : values.mapM textOf = some items := h
    clear h
    induction values generalizing items with
    | nil => exact hvalues
    | cons value values ih =>
      rw [List.mapM_cons] at hvalues ⊢
      obtain ⟨s, hs, hvalues⟩ := Option.bind_eq_some_iff.1 hvalues
      obtain ⟨rest, hrest, hvalues⟩ := Option.bind_eq_some_iff.1 hvalues
      cases hvalues
      rw [formatted_of_textOf hs, ih hrest]
      rfl
  | _ => cases h

/-- The array that the text of a block declares, if it declares just this array. -/
def arrayIn (n : SentinelName) (text : Str) : Option (List (Option Str)) :=
  match CTables.declarations text with
  | some [.strings name items] =>
    if name = VAR_NAMES n then some (items.map fun item => item.map CTables.cString) else none
  | _ => none

/-! ## The template -/

/-- **What a block is replaced by**: the sentinels stay, and the template is what is between. -/
theorem expand_replacement {n : SentinelName} {items : List Str} {ps : List PyTemplate.Piece}
    (h : PyTemplate.parse (replacement n items) = some ps) :
    ∃ qs, PyTemplate.run .text (body n items) = some (qs, .text) ∧
      ∀ m, PyTemplate.expand ps m = n.start.text ++ (PyTemplate.expand qs m ++ n.stop.text) := by
  have hbody : body n items =
      (header n ++ (entries items ++ "  nullptr\n\x7d;".toList)) ++ ['\n'] := by
    have hfooter : footer = "  nullptr\n\x7d;".toList ++ ['\n'] := rfl
    unfold body
    rw [hfooter, List.append_assoc, List.append_assoc]
  have hstart : '\\' ∉ n.start.text := by cases n <;> decide
  have hstop : '\\' ∉ n.stop.text := by cases n <;> decide
  unfold replacement at h
  rw [hbody, List.append_assoc, List.singleton_append] at h
  obtain ⟨qs, hrun, rfl⟩ := PyTemplate.parse_frame hstart hstop h
  refine ⟨qs, ?_, ?_⟩
  · rw [hbody]
    exact hrun
  · intro m
    rw [PyTemplate.expand_append, PyTemplate.expand_append, PyTemplate.expand_chars,
      PyTemplate.expand_chars]

/-- Without a backslash the text is written as it is. -/
theorem expand_plain {n : SentinelName} {items : List Str} (h : ∀ s ∈ items, '\\' ∉ s) :
    ∃ ps, PyTemplate.parse (replacement n items) = some ps ∧
      ∀ m, PyTemplate.expand ps m = n.start.text ++ (body n items ++ n.stop.text) := by
  have hentries : '\\' ∉ entries items := by
    intro hmem
    obtain ⟨s, hs, hmem⟩ := List.mem_flatMap.1 hmem
    rcases List.mem_append.1 hmem with hmem | hmem
    · exact absurd hmem (by decide)
    · rcases List.mem_append.1 hmem with hmem | hmem
      · exact h s hs hmem
      · exact absurd hmem (by decide)
  have hheader : '\\' ∉ header n := by cases n <;> decide
  have hfooter : '\\' ∉ footer := by decide
  have hstart : '\\' ∉ n.start.text := by cases n <;> decide
  have hstop : '\\' ∉ n.stop.text := by cases n <;> decide
  have hall : '\\' ∉ replacement n items := by
    unfold replacement body
    simp only [List.mem_append, not_or]
    exact ⟨hstart, ⟨hheader, hentries, hfooter⟩, hstop⟩
  exact ⟨_, PyTemplate.parse_plain hall, fun m => PyTemplate.expand_chars _ m⟩

end DenBrowser.SiteLists
