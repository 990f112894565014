import DenBrowser.Browser.Hosts
import DenBrowser.Lib.CString

/-!
# The site filter

The build writes the whitelist and the blacklist of the site configuration into the browser as
they are spelled, and `SiteAllowed` compares them with the host of a URL character by character.

* `siteHostMatches_iff` — a name matches an entry when the entry covers it as a DNS name and is
  spelled the same way;
* `covers_iff_labels` — what covering means, label by label;
* `siteAllowed_decides` — what the filter decides;
* `siteAllowed_exact_iff` — the URLs for which that is the policy of the two lists;
* `permitted_spelling` — the policy does not depend on how names are spelled;
* `siteAllowed_misspelled` — a blacklisted site is reached through a trailing dot.
-/

set_option autoImplicit false

namespace DenBrowser.SiteFilter

open CString

/-- What the filter asks an `nsIURI`; `GetAsciiHost` gives lower case. -/
structure Uri where
  scheme : Option Str
  asciiHost : Option Str
  lower : ∀ h, asciiHost = some h → toAsciiLowercase h = h

/-- The array that `inject` writes for a list.  Nothing in a hostname means anything else in a
string literal. -/
def inject (items : List Str) : List (Option Str) := nullTerminated items

def siteHostMatches (host pattern : Str) : Bool := hostMatch host pattern

/-- The loop over an array. -/
def anyMatch (host : Str) (patterns : List (Option Str)) : Option Bool :=
  anyUntilNull (siteHostMatches host) patterns

/-- `SiteAllowed`, on the arrays `kDenSiteWhitelist` and `kDenSiteBlacklist`. -/
def siteAllowed (whitelist blacklist : List (Option Str)) (uri : Option Uri) : Option Bool :=
  match uri with
  | none => some false
  | some uri =>
    match uri.scheme with
    | none => some false
    | some scheme =>
      if scheme ≠ "http".toList ∧ scheme ≠ "https".toList then some true
      else
        match uri.asciiHost with
        | none => some false
        | some host =>
          if host = [] then some false
          else
            match whitelist with
            | [] => none
            | some _ :: _ => anyMatch host whitelist
            | none :: _ => (anyMatch host blacklist).map fun found => !found

/-! ## The policy -/

/-- A name without one trailing dot. -/
def stripDot (s : Str) : Str := if s.getLast? = some '.' then s.dropLast else s

/-- A name as DNS compares it. -/
def dnsName (s : Str) : Str := toAsciiLowercase (stripDot s)

/-- The host is the entry, or a subdomain of it. -/
def Covers (entry host : Str) : Prop :=
  dnsName host = dnsName entry ∨ ∃ pre, pre ≠ [] ∧ dnsName host = pre ++ '.' :: dnsName entry

/-- A character of a label. -/
def isLabelChar (c : Char) : Bool := c.isAlphanum || c == '-' || c == '_'

/-- A hostname: labels that are not empty, and perhaps a trailing dot. -/
structure Hostname where
  text : Str
  valid : ∀ l ∈ labels (stripDot text), l ≠ [] ∧ l.all isLabelChar = true

/-- The URL has a host. -/
def Uri.host (uri : Uri) : Option Str := uri.asciiHost.filter fun h => h ≠ []

/-- The list that applies: the blacklist only without a whitelist. -/
def active (whitelist blacklist : List Hostname) : List Hostname :=
  if whitelist = [] then blacklist else whitelist

/-- The policy of the two lists. -/
def Permitted (whitelist blacklist : List Hostname) (host : Option Str) : Prop :=
  ∃ h, host = some h ∧
    ((whitelist ≠ [] ∧ ∃ e ∈ whitelist, Covers e.text h) ∨
      (whitelist = [] ∧ ¬∃ e ∈ blacklist, Covers e.text h))

/-- The entry is spelled as the host is: in lower case, and with a trailing dot only if the host
has one. -/
def SpelledAs (entry host : Str) : Prop :=
  toAsciiLowercase entry = entry ∧ (entry.getLast? = some '.' ↔ host.getLast? = some '.')

/-! ## Names -/

/-- Label by label, the entry's labels end those of the host. -/
theorem covers_iff_labels {entry host : Str} (h : [] ∉ labels (dnsName host)) :
    Covers entry host ↔ labels (dnsName entry) <:+ labels (dnsName host) := by
  rw [← hostMatch_iff_labels h, hostMatch_iff]
  rfl

theorem Hostname.ne_nil (e : Hostname) : e.text ≠ [] := by
  intro h
  have hlabel : [] ∈ labels (stripDot e.text) := by
    rw [h]
    decide
  exact (e.valid [] hlabel).1 rfl

/-- The trailing dot of a name. -/
def dotOf (s : Str) : Str := if s.getLast? = some '.' then ['.'] else []

theorem stripDot_append_dotOf (s : Str) : stripDot s ++ dotOf s = s := by
  unfold stripDot dotOf
  by_cases h : s.getLast? = some '.'
  · rw [if_pos h, if_pos h]
    exact List.dropLast_append_getLast? _ h
  · rw [if_neg h, if_neg h, List.append_nil]

theorem stripDot_append {a b : Str} (hb : b ≠ []) : stripDot (a ++ b) = a ++ stripDot b := by
  unfold stripDot
  rw [List.getLast?_append_of_ne_nil _ hb]
  by_cases h : b.getLast? = some '.'
  · rw [if_pos h, if_pos h, List.dropLast_append_of_ne_nil hb]
  · rw [if_neg h, if_neg h]

theorem toAsciiLowercase_append (a b : Str) :
    toAsciiLowercase (a ++ b) = toAsciiLowercase a ++ toAsciiLowercase b := List.map_append

theorem lower_of_append {a b : Str} (h : toAsciiLowercase (a ++ b) = a ++ b) :
    toAsciiLowercase a = a ∧ toAsciiLowercase b = b := by
  rw [toAsciiLowercase_append] at h
  exact List.append_inj h (List.length_map ..)

theorem dnsName_of_lower {s : Str} (h : toAsciiLowercase s = s) : dnsName s = stripDot s := by
  rw [← stripDot_append_dotOf s] at h
  exact (lower_of_append h).1

/-- **A name matches an entry when the entry covers it and is spelled the same way.** -/
theorem siteHostMatches_iff {host entry : Str} (hhost : toAsciiLowercase host = host)
    (hentry : entry ≠ []) :
    siteHostMatches host entry = true ↔ Covers entry host ∧ SpelledAs entry host := by
  unfold siteHostMatches
  rw [hostMatch_iff]
  constructor
  · rintro (rfl | ⟨pre, hpre, rfl⟩)
    · exact ⟨Or.inl rfl, hhost, Iff.rfl⟩
    · have hlower : toAsciiLowercase entry = entry := by
        have htail := (lower_of_append hhost).2
        simpa [toAsciiLowercase] using (List.cons.inj htail).2
      have hlast : (pre ++ '.' :: entry).getLast? = entry.getLast? := by
        rw [← List.singleton_append, ← List.append_assoc, List.getLast?_append_of_ne_nil _ hentry]
      refine ⟨Or.inr ⟨pre, hpre, ?_⟩, hlower, by rw [hlast]⟩
      rw [dnsName_of_lower hhost, dnsName_of_lower hlower, ← List.singleton_append,
        ← List.append_assoc, stripDot_append hentry]
      simp
  · rintro ⟨hcovers, hlower, hdot⟩
    have htail : dotOf entry = dotOf host := by
      unfold dotOf
      simp only [hdot]
    unfold Covers at hcovers
    rw [dnsName_of_lower hhost, dnsName_of_lower hlower] at hcovers
    rcases hcovers with h | ⟨pre, hpre, h⟩
    · left
      rw [← stripDot_append_dotOf host, ← stripDot_append_dotOf entry, h, htail]
    · refine Or.inr ⟨pre, hpre, ?_⟩
      rw [← stripDot_append_dotOf host, h, ← htail, List.append_assoc, List.cons_append,
        stripDot_append_dotOf]

/-! ## What the filter decides -/

/-- Some entry of the list covers the host, and is spelled as it is. -/
def Matched (entries : List Hostname) (host : Str) : Prop :=
  ∃ e ∈ entries, Covers e.text host ∧ SpelledAs e.text host

theorem anyMatch_decides {host : Str} (hhost : toAsciiLowercase host = host)
    (entries : List Hostname) :
    Decides (anyMatch host (inject (entries.map Hostname.text))) (Matched entries host) := by
  refine ⟨_, anyUntilNull_nullTerminated _ _, ?_⟩
  rw [List.any_eq_true]
  unfold Matched
  simp only [List.mem_map, exists_exists_and_eq_and]
  constructor
  · rintro ⟨e, he, h⟩
    exact ⟨e, he, (siteHostMatches_iff hhost e.ne_nil).1 h⟩
  · rintro ⟨e, he, h⟩
    exact ⟨e, he, (siteHostMatches_iff hhost e.ne_nil).2 h⟩

/-- The URL's scheme is `http` or `https`. -/
def Uri.Web (uri : Uri) : Prop :=
  uri.scheme = some "http".toList ∨ uri.scheme = some "https".toList

/-- **What the filter decides** for a web URL. -/
theorem siteAllowed_decides (whitelist blacklist : List Hostname) {uri : Uri} (hweb : uri.Web) :
    Decides (siteAllowed (inject (whitelist.map Hostname.text))
        (inject (blacklist.map Hostname.text)) (some uri))
      (∃ h, uri.host = some h ∧ ((whitelist ≠ [] ∧ Matched whitelist h) ∨
        (whitelist = [] ∧ ¬Matched blacklist h))) := by
  obtain ⟨scheme, hscheme, hfiltered⟩ : ∃ s, uri.scheme = some s ∧
      ¬(s ≠ "http".toList ∧ s ≠ "https".toList) := by
    rcases hweb with h | h
    · exact ⟨_, h, fun hne => hne.1 rfl⟩
    · exact ⟨_, h, fun hne => hne.2 rfl⟩
  unfold siteAllowed Uri.host
  dsimp only
  rw [hscheme]
  dsimp only
  rw [if_neg hfiltered]
  cases hhost : uri.asciiHost with
  | none => exact Decides.of_false (by simp)
  | some host =>
    dsimp only
    by_cases hempty : host = []
    · rw [if_pos hempty, hempty]
      exact Decides.of_false (by simp)
    rw [if_neg hempty]
    have hsome : (some host).filter (fun h => decide (h ≠ [])) = some host := by
      simp [hempty]
    rw [hsome]
    have hlower := uri.lower host hhost
    cases whitelist with
    | nil =>
      obtain ⟨b, hb, hiff⟩ := anyMatch_decides hlower blacklist
      show Decides
        ((anyMatch host (inject (blacklist.map Hostname.text))).map fun found => !found) _
      rw [hb]
      refine ⟨!b, rfl, ?_⟩
      simp [← hiff]
    | cons e whitelist =>
      exact (anyMatch_decides hlower (e :: whitelist)).congr (by simp)

/-- **Where the filter follows the policy.**  It does exactly for the URLs whose host, if some
entry of the list that applies covers it, is covered by one that is spelled as it is: in lower case,
and with a trailing dot exactly if the host has one. -/
theorem siteAllowed_exact_iff (whitelist blacklist : List Hostname) {uri : Uri} (hweb : uri.Web) :
    Decides (siteAllowed (inject (whitelist.map Hostname.text))
        (inject (blacklist.map Hostname.text)) (some uri))
        (Permitted whitelist blacklist uri.host) ↔
      ∀ h, uri.host = some h → (∃ e ∈ active whitelist blacklist, Covers e.text h) →
        ∃ e ∈ active whitelist blacklist, Covers e.text h ∧ SpelledAs e.text h := by
  have hmatched : ∀ {entries : List Hostname} {h : Str}, Matched entries h →
      ∃ e ∈ entries, Covers e.text h := fun ⟨e, he, hcovers, _⟩ => ⟨e, he, hcovers⟩
  rw [(siteAllowed_decides whitelist blacklist hweb).decides_iff]
  unfold Permitted active
  cases uri.host with
  | none => simp
  | some host =>
    simp only [Option.some.injEq, exists_eq_left', forall_eq']
    by_cases hwhite : whitelist = []
    · rw [if_pos hwhite]
      simp only [hwhite, ne_eq, not_true_eq_false, false_and, false_or, true_and]
      constructor
      · intro h hcovered
        exact Classical.byContradiction fun hnot => h.1 hnot hcovered
      · intro h
        exact ⟨fun hnot hcovered => hnot (h hcovered), fun hnot hm => hnot (hmatched hm)⟩
    · rw [if_neg hwhite]
      simp only [hwhite, ne_eq, not_false_eq_true, true_and, false_and, or_false]
      exact ⟨fun h hcovered => h.2 hcovered, fun h => ⟨hmatched, h⟩⟩

/-- A subdomain of a blacklisted site, spelled alike: the filter follows the policy. -/
theorem siteAllowed_exact_iff_www :
    let uri : Uri := ⟨some "https".toList, some "www.example.com".toList, by
      intro h hh; cases hh; decide⟩
    Decides (siteAllowed (inject []) (inject ["example.com".toList]) (some uri))
      (Permitted [] [⟨"example.com".toList, by decide⟩] uri.host) := by
  intro uri
  have hweb : uri.Web := Or.inr rfl
  refine (siteAllowed_exact_iff [] [⟨"example.com".toList, by decide⟩] hweb).2 ?_
  intro h hh _
  cases hh
  refine ⟨_, List.mem_singleton_self _, Or.inr ⟨"www".toList, by decide, by decide⟩, ?_⟩
  exact ⟨by decide, by decide⟩

/-- **The policy does not depend on how names are spelled.** -/
theorem permitted_spelling {whitelist whitelist' blacklist blacklist' : List Hostname}
    {host host' : Str}
    (hw : whitelist.map (fun e => dnsName e.text) = whitelist'.map fun e => dnsName e.text)
    (hb : blacklist.map (fun e => dnsName e.text) = blacklist'.map fun e => dnsName e.text)
    (hh : dnsName host = dnsName host') :
    Permitted whitelist blacklist (some host) ↔ Permitted whitelist' blacklist' (some host') := by
  have hcovered : ∀ {l l' : List Hostname},
      l.map (fun e => dnsName e.text) = l'.map (fun e => dnsName e.text) →
      ((∃ e ∈ l, Covers e.text host) ↔ ∃ e ∈ l', Covers e.text host') := by
    intro l l' hl
    have hnames : ∀ (m : List Hostname) (h : Str), (∃ e ∈ m, Covers e.text h) ↔
        ∃ n ∈ m.map (fun e => dnsName e.text), dnsName h = n ∨
          ∃ pre, pre ≠ [] ∧ dnsName h = pre ++ '.' :: n := by
      intro m h
      simp [Covers]
    rw [hnames, hnames, hl, hh]
  have hnil : whitelist = [] ↔ whitelist' = [] := by
    rw [← List.map_eq_nil_iff (f := fun e => dnsName e.text), hw, List.map_eq_nil_iff]
  unfold Permitted
  simp only [Option.some.injEq, exists_eq_left', ne_eq, hnil, hcovered hw, hcovered hb]

/-! ## Spellings the filter tells apart -/

def exampleCom : Hostname := ⟨"example.com".toList, by decide⟩

def exampleComUpper : Hostname := ⟨"Example.com".toList, by decide⟩

/-- `http://example.com/` -/
def plainUri : Uri where
  scheme := some "http".toList
  asciiHost := some "example.com".toList
  lower := by
    intro h hh
    cases hh
    decide

/-- `http://example.com./` -/
def dottedUri : Uri where
  scheme := some "http".toList
  asciiHost := some "example.com.".toList
  lower := by
    intro h hh
    cases hh
    decide

/-- **A blacklisted site is reached through a trailing dot**, and a whitelisted site that is
configured with a capital letter is refused. -/
theorem siteAllowed_misspelled :
    (siteAllowed (inject []) (inject [exampleCom.text]) (some dottedUri) = some true ∧
      ¬Permitted [] [exampleCom] dottedUri.host) ∧
    (siteAllowed (inject [exampleComUpper.text]) (inject []) (some plainUri) = some false ∧
      Permitted [exampleComUpper] [] plainUri.host) := by
  refine ⟨⟨by decide, ?_⟩, by decide, ?_⟩
  · rintro ⟨h, hh, ⟨hne, _⟩ | ⟨_, hnot⟩⟩
    · exact hne rfl
    · cases hh
      exact hnot ⟨exampleCom, by simp, Or.inl (by decide)⟩
  · exact ⟨_, rfl, Or.inl ⟨by simp, exampleComUpper, by simp, Or.inl (by decide)⟩⟩

end DenBrowser.SiteFilter
