import DenBrowser.Browser.SiteListOrder

/-!
# The step for the lists of sites

Step 2.6 checks neither the values of the configuration nor the strings in them.

* `Faithful` — the arrays of the files are the lists of the configuration;
* `step26_faithful` — when they are.
-/

set_option autoImplicit false

namespace DenBrowser.SiteLists

open SiteConfig GeneratedBlock Sentinel Lockdown

/-- The configuration has lists of strings. -/
def Lists (config : Json) (lists : SentinelName → List Str) : Prop :=
  ∃ fields, config = .dict fields ∧ ∀ n, listOf (get fields n) = some (lists n)

/-- Each array is the list of the configuration, what is outside of the blocks stays, and the step
again changes nothing. -/
structure Faithful (repr : Json → Str) (config : Json) (files result : Files)
    (lists : SentinelName → List Str) : Prop where
  values : Lists config lists
  ncopy : Declares .CLIPBOARD_SITES (lists .CLIPBOARD_SITES) result.ncopy
  contentParent : Declares .CLIPBOARD_SITES (lists .CLIPBOARD_SITES) result.contentParent
  whitelist : Declares .SITE_WHITELIST (lists .SITE_WHITELIST) result.siteFilter
  blacklist : Declares .SITE_BLACKLIST (lists .SITE_BLACKLIST) result.siteFilter
  ncopyOutside : outside .CLIPBOARD_SITES result.ncopy = outside .CLIPBOARD_SITES files.ncopy
  contentParentOutside :
    outside .CLIPBOARD_SITES result.contentParent = outside .CLIPBOARD_SITES files.contentParent
  siteFilterOutside : outsideBoth .SITE_WHITELIST .SITE_BLACKLIST result.siteFilter =
    outsideBoth .SITE_WHITELIST .SITE_BLACKLIST files.siteFilter
  again : step26 repr config result = some result

/-- The site filter has one block of each of its lists, the one of `k` first. -/
def Laid (k j : SentinelName) (text : Str) : Prop :=
  ((k = .SITE_WHITELIST ∧ j = .SITE_BLACKLIST) ∨ (k = .SITE_BLACKLIST ∧ j = .SITE_WHITELIST)) ∧
    ∃ a b m c z, text = two k j a b m c z ∧ Placed k j a b m c z

/-- The lists can be written literally into the files, the site filter with the block of `k` before
the one of `j`. -/
structure Writable (k j : SentinelName) (config : Json) (files : Files)
    (lists : SentinelName → List Str) : Prop where
  values : Lists config lists
  clipboard : ∀ s ∈ lists .CLIPBOARD_SITES,
    Verbatim s ∧ ¬SentinelName.CLIPBOARD_SITES.stop.text <:+: s
  sites : Fitting k j (lists k) (lists j)
  ncopy : ∀ part ∈ outside .CLIPBOARD_SITES files.ncopy, '\r' ∉ part
  contentParent : ∀ part ∈ outside .CLIPBOARD_SITES files.contentParent, '\r' ∉ part
  siteFilter :
    ∀ part ∈ outsideBoth .SITE_WHITELIST .SITE_BLACKLIST files.siteFilter, '\r' ∉ part

section

variable {repr : Json → Str} {config : Json} {files result : Files} {k j : SentinelName}
  {fields : List (JsonString × Json)} {lists : SentinelName → List Str}

/-- What is written for each list, as texts and as a template. -/
structure Template (repr : Json → Str) (fields : List (JsonString × Json)) (n : SentinelName)
    (items : List Str) (ps : List PyTemplate.Piece) : Prop where
  iterated : iterated repr (get fields n) = some items
  parsed : PyTemplate.parse (replacement n items) = some ps

theorem Template.unique {n : SentinelName} {items items' : List Str}
    {ps ps' : List PyTemplate.Piece} (h : Template repr fields n items ps)
    (h' : Template repr fields n items' ps') : items = items' ∧ ps = ps' := by
  have hitems := Option.some.inj (h.iterated.symm.trans h'.iterated)
  subst hitems
  exact ⟨rfl, Option.some.inj (h.parsed.symm.trans h'.parsed)⟩

/-- A list of strings is the list that is written. -/
theorem Template.items_eq {n : SentinelName} {items : List Str} {ps : List PyTemplate.Piece}
    (h : Template repr fields n items ps) (hlists : Lists (.dict fields) lists) :
    items = lists n := by
  obtain ⟨_, heq, hall⟩ := hlists
  cases heq
  exact Option.some.inj (h.iterated.symm.trans (iterated_of_listOf (hall n)))

theorem inject_of_template {n : SentinelName} {items : List Str} {ps : List PyTemplate.Piece}
    (h : Template repr fields n items ps) {content : Str}
    (hcount : blockCount n.start n.stop content ≠ 0) :
    inject repr n (get fields n) content = some (injected n ps content) :=
  inject_eq h.iterated h.parsed hcount

/-- What the step does when it does not end the build. -/
theorem step26_some (h : step26 repr config files = some result) :
    ∃ fields pc pw pb clipboard whitelist blacklist, config = .dict fields ∧
      Template repr fields .CLIPBOARD_SITES clipboard pc ∧
      Template repr fields .SITE_WHITELIST whitelist pw ∧
      Template repr fields .SITE_BLACKLIST blacklist pb ∧
      blockCount SentinelName.CLIPBOARD_SITES.start SentinelName.CLIPBOARD_SITES.stop
        files.ncopy ≠ 0 ∧
      blockCount SentinelName.CLIPBOARD_SITES.start SentinelName.CLIPBOARD_SITES.stop
        files.contentParent ≠ 0 ∧
      result = ⟨injected .CLIPBOARD_SITES pc files.ncopy,
        injected .CLIPBOARD_SITES pc files.contentParent,
        injected .SITE_BLACKLIST pb (injected .SITE_WHITELIST pw files.siteFilter)⟩ := by
  cases config with
  | dict fields =>
    unfold step26 at h
    dsimp only at h
    obtain ⟨ncopy, hncopy, h⟩ := Option.bind_eq_some_iff.1 h
    obtain ⟨contentParent, hparent, h⟩ := Option.bind_eq_some_iff.1 h
    obtain ⟨middle, hmiddle, h⟩ := Option.bind_eq_some_iff.1 h
    obtain ⟨siteFilter, hfilter, rfl⟩ := Option.map_eq_some_iff.1 h
    obtain ⟨clipboard, pc, hc, hpc, hcount, rfl⟩ := inject_some hncopy
    obtain ⟨clipboard', pc', hc', hpc', hcount', rfl⟩ := inject_some hparent
    obtain ⟨whitelist, pw, hw, hpw, _, rfl⟩ := inject_some hmiddle
    obtain ⟨blacklist, pb, hb, hpb, _, rfl⟩ := inject_some hfilter
    have htemplate : Template repr fields .CLIPBOARD_SITES clipboard pc := ⟨hc, hpc⟩
    have hsame : Template repr fields .CLIPBOARD_SITES clipboard' pc' := ⟨hc', hpc'⟩
    obtain ⟨rfl, rfl⟩ := htemplate.unique hsame
    exact ⟨fields, pc, pw, pb, clipboard, whitelist, blacklist, rfl, htemplate, ⟨hw, hpw⟩,
      ⟨hb, hpb⟩, hcount, hcount', rfl⟩
  | _ => cases h

theorem Declares.blockCount {n : SentinelName} {items : List Str} {text : Str}
    (h : Declares n items text) : blockCount n.start n.stop text ≠ 0 := by
  rw [blockCount_eq]
  exact fun hnil => h.ne_nil (List.length_eq_zero_iff.1 hnil)

/-- **The site filter** declares both lists, and is as it was outside of them, exactly when they
fit. -/
theorem siteFilter_iff {pw pb : List PyTemplate.Piece} {text : Str} (hlaid : Laid k j text)
    (hw : PyTemplate.parse (replacement .SITE_WHITELIST (lists .SITE_WHITELIST)) = some pw)
    (hb : PyTemplate.parse (replacement .SITE_BLACKLIST (lists .SITE_BLACKLIST)) = some pb) :
    (Declares .SITE_WHITELIST (lists .SITE_WHITELIST)
          (injected .SITE_BLACKLIST pb (injected .SITE_WHITELIST pw text)) ∧
        Declares .SITE_BLACKLIST (lists .SITE_BLACKLIST)
          (injected .SITE_BLACKLIST pb (injected .SITE_WHITELIST pw text)) ∧
        outsideBoth .SITE_WHITELIST .SITE_BLACKLIST
            (injected .SITE_BLACKLIST pb (injected .SITE_WHITELIST pw text)) =
          outsideBoth .SITE_WHITELIST .SITE_BLACKLIST text) ↔
      Fitting k j (lists k) (lists j) ∧
        ∀ part ∈ outsideBoth .SITE_WHITELIST .SITE_BLACKLIST text, '\r' ∉ part := by
  obtain ⟨⟨rfl, rfl⟩ | ⟨rfl, rfl⟩, a, b, m, c, z, rfl, hplaced⟩ := hlaid
  · exact filter_first hw hb hplaced rfl
  · rw [← filter_second hb hw hplaced rfl]
    exact and_left_comm

/-- The site filter with both lists is written as it is. -/
theorem siteFilter_again {pw pb : List PyTemplate.Piece} {text : Str} (hlaid : Laid k j text)
    (hw : PyTemplate.parse (replacement .SITE_WHITELIST (lists .SITE_WHITELIST)) = some pw)
    (hb : PyTemplate.parse (replacement .SITE_BLACKLIST (lists .SITE_BLACKLIST)) = some pb)
    (hfit : Fitting k j (lists k) (lists j)) {written : Str}
    (hwritten : injected .SITE_BLACKLIST pb (injected .SITE_WHITELIST pw text) = written) :
    injected .SITE_WHITELIST pw written = written ∧
      injected .SITE_BLACKLIST pb written = written := by
  obtain ⟨hkj, a, b, m, c, z, rfl, hplaced⟩ := hlaid
  obtain ⟨hks, hjs, hclean⟩ := (fitting_iff hplaced.universalNewlines).1 hfit
  have hcr : ∀ part ∈ [universalNewlines a, universalNewlines m, universalNewlines z],
      '\r' ∉ part := by
    simp [cr_not_mem_universalNewlines]
  rcases hkj with ⟨rfl, rfl⟩ | ⟨rfl, rfl⟩
  · rw [injected_first_second hw hb hplaced hfit] at hwritten
    subst hwritten
    exact ⟨injected_first_again hw hclean hks hjs hcr, injected_second_again hb hclean hks hjs hcr⟩
  · rw [injected_second_first hb hw hplaced hfit] at hwritten
    subst hwritten
    exact ⟨injected_second_again hw hclean hks hjs hcr, injected_first_again hb hclean hks hjs hcr⟩

/-- **Step 2.6.**  For every configuration that is accepted and all files with their sentinels: the
arrays are the lists of the configuration, what is outside of the blocks stays, and the step again
changes nothing, exactly when the values are lists of strings that can be written literally, none of
which is taken for a sentinel, into files without carriage returns. -/
theorem step26_faithful (hlaid : Laid k j files.siteFilter)
    (hstep : step26 repr config files = some result) :
    (∃ lists, Faithful repr config files result lists) ↔
      ∃ lists, Writable k j config files lists := by
  obtain ⟨fields, pc, pw, pb, clipboard, whitelist, blacklist, rfl, hc, hw, hb, hncopy, hparent,
    rfl⟩ := step26_some hstep
  constructor
  · rintro ⟨lists, h⟩
    have hlists := h.values
    rw [hc.items_eq hlists] at hc
    rw [hw.items_eq hlists] at hw
    rw [hb.items_eq hlists] at hb
    have hone := (file_iff hc.parsed hncopy).1 ⟨h.ncopy, h.ncopyOutside⟩
    have htwo := (file_iff hc.parsed hparent).1 ⟨h.contentParent, h.contentParentOutside⟩
    have hthree := (siteFilter_iff hlaid hw.parsed hb.parsed).1
      ⟨h.whitelist, h.blacklist, h.siteFilterOutside⟩
    exact ⟨lists, hlists, hone.1, hthree.1, hone.2, htwo.2, hthree.2⟩
  · rintro ⟨lists, h⟩
    have hlists := h.values
    rw [hc.items_eq hlists] at hc
    rw [hw.items_eq hlists] at hw
    rw [hb.items_eq hlists] at hb
    have hone := (file_iff hc.parsed hncopy).2 ⟨h.clipboard, h.ncopy⟩
    have htwo := (file_iff hc.parsed hparent).2 ⟨h.clipboard, h.contentParent⟩
    have hthree := (siteFilter_iff hlaid hw.parsed hb.parsed).2 ⟨h.sites, h.siteFilter⟩
    have hagain := siteFilter_again hlaid hw.parsed hb.parsed h.sites rfl
    refine ⟨lists, hlists, hone.1, htwo.1, hthree.1, hthree.2.1, hone.2, htwo.2, hthree.2.2, ?_⟩
    unfold step26
    dsimp only
    rw [inject_again hc.iterated hc.parsed hncopy h.clipboard,
      inject_again hc.iterated hc.parsed hparent h.clipboard,
      inject_of_template hw hthree.1.blockCount, hagain.1, Option.bind_some, Option.bind_some,
      Option.bind_some, inject_of_template hb hthree.2.1.blockCount, hagain.2]
    rfl

/-- **Such lists are accepted**, by files that have blocks for them. -/
theorem Writable.accepted (h : Writable k j config files lists)
    (hlaid : Laid k j files.siteFilter)
    (hncopy : blockCount SentinelName.CLIPBOARD_SITES.start SentinelName.CLIPBOARD_SITES.stop
      files.ncopy ≠ 0)
    (hparent : blockCount SentinelName.CLIPBOARD_SITES.start SentinelName.CLIPBOARD_SITES.stop
      files.contentParent ≠ 0) : ∃ result, step26 repr config files = some result := by
  obtain ⟨fields, rfl, hall⟩ := h.values
  have htemplate : ∀ n, (∀ s ∈ lists n, Verbatim s) →
      ∃ ps, Template repr fields n (lists n) ps := by
    intro n hn
    obtain ⟨ps, hps, _⟩ := expand_plain fun s hs => (hn s hs).not_mem (by decide)
    exact ⟨ps, iterated_of_listOf (hall n), hps⟩
  obtain ⟨pc, hc⟩ := htemplate .CLIPBOARD_SITES fun s hs => (h.clipboard s hs).1
  obtain ⟨hkj, a, b, m, c, z, htext, hplaced⟩ := hlaid
  obtain ⟨pk, hk⟩ := htemplate k fun s hs => (h.sites.first s hs).1
  obtain ⟨pj, hj⟩ := htemplate j fun s hs => (h.sites.second s hs).1
  obtain ⟨hfirst, hcleanFirst⟩ := injected_first_clean hk.parsed hplaced h.sites
  obtain ⟨hsecond, hcleanSecond⟩ := injected_second_clean hj.parsed hplaced h.sites
  have hkcount := hplaced.clean.blockCount_first
  have hjcount := hplaced.clean.blockCount_second
  have hjagain := hcleanFirst.blockCount_second
  have hkagain := hcleanSecond.blockCount_first
  rw [← hfirst] at hjagain
  rw [← hsecond] at hkagain
  unfold step26
  dsimp only
  rw [inject_of_template hc hncopy, inject_of_template hc hparent, htext]
  rcases hkj with ⟨rfl, rfl⟩ | ⟨rfl, rfl⟩
  · rw [inject_of_template hk hkcount, Option.bind_some, Option.bind_some, Option.bind_some,
      inject_of_template hj hjagain]
    exact ⟨_, rfl⟩
  · rw [inject_of_template hj hjcount, Option.bind_some, Option.bind_some, Option.bind_some,
      inject_of_template hk hkagain]
    exact ⟨_, rfl⟩

end

/-! ## A configuration -/

/-- A configuration with a whitelist. -/
def whitelistConfig (whitelist : Json) : Json :=
  .dict [(.text "clipboard_sites".toList, .list [.str (.text "a.example".toList)]),
    (.text "site_whitelist".toList, whitelist), (.text "site_blacklist".toList, .list [])]

/-- The blocks that the patches add, without what they declare. -/
def patchedFiles : Files where
  ncopy := SentinelName.CLIPBOARD_SITES.start.text ++ SentinelName.CLIPBOARD_SITES.stop.text
  contentParent :=
    SentinelName.CLIPBOARD_SITES.start.text ++ SentinelName.CLIPBOARD_SITES.stop.text
  siteFilter := two .SITE_WHITELIST .SITE_BLACKLIST [] [] ['\n'] [] []

theorem laid_patchedFiles : Laid .SITE_WHITELIST .SITE_BLACKLIST patchedFiles.siteFilter := by
  have hfree : ∀ part : Str, '─' ∉ part → Free .SITE_WHITELIST .SITE_BLACKLIST part :=
    fun _ h => free_of_not_mem h
  exact ⟨Or.inl ⟨rfl, rfl⟩, [], [], ['\n'], [], [], rfl, ⟨by decide, hfree _ (by decide),
    hfree _ (by decide), hfree _ (by decide), hfree _ (by decide), hfree _ (by decide)⟩⟩

/-- The lists of the configuration. -/
def whitelistLists (whitelist : List Str) : SentinelName → List Str
  | .CLIPBOARD_SITES => ["a.example".toList]
  | .SITE_WHITELIST => whitelist
  | .SITE_BLACKLIST => []

theorem writable_whitelist {s t : Str} (hs : Verbatim s ∧ '─' ∉ s) (ht : Verbatim t ∧ '─' ∉ t) :
    Writable .SITE_WHITELIST .SITE_BLACKLIST
      (whitelistConfig (.list [.str (.text s), .str (.text t)])) patchedFiles
      (whitelistLists [s, t]) where
  values := ⟨_, rfl, fun n => by cases n <;> rfl⟩
  clipboard := List.forall_mem_singleton.2 ⟨by decide,
    (inItems_stop .CLIPBOARD_SITES).avoids (by decide)⟩
  sites := {
    first := List.forall_mem_cons.2 ⟨⟨hs.1, (inItems_stop .SITE_WHITELIST).avoids hs.2⟩,
      List.forall_mem_singleton.2 ⟨ht.1, (inItems_stop .SITE_WHITELIST).avoids ht.2⟩⟩
    second := fun _ h => by cases h
    firstOther := List.forall_mem_cons.2 ⟨(inItems_start .SITE_BLACKLIST).avoids hs.2,
      List.forall_mem_singleton.2 ((inItems_start .SITE_BLACKLIST).avoids ht.2)⟩
    secondOther := id }
  ncopy := by decide +kernel
  contentParent := by decide +kernel
  siteFilter := by decide +kernel

/-- Two sites are accepted. -/
theorem step26_whitelist {s t : Str} (hs : Verbatim s ∧ '─' ∉ s) (ht : Verbatim t ∧ '─' ∉ t) :
    ∃ result, step26 (fun _ => []) (whitelistConfig (.list [.str (.text s), .str (.text t)]))
      patchedFiles = some result :=
  (writable_whitelist hs ht).accepted laid_patchedFiles (by decide +kernel) (by decide +kernel)

theorem step26_faithful_whitelist : ∃ result lists,
    step26 (fun _ => []) (whitelistConfig (.list [.str (.text "b.example".toList),
      .str (.text "c.example".toList)])) patchedFiles = some result ∧
    Faithful (fun _ => []) (whitelistConfig (.list [.str (.text "b.example".toList),
      .str (.text "c.example".toList)])) patchedFiles result lists := by
  have hb : Verbatim "b.example".toList ∧ '─' ∉ "b.example".toList := by decide
  have hc : Verbatim "c.example".toList ∧ '─' ∉ "c.example".toList := by decide
  obtain ⟨result, hstep⟩ := step26_whitelist hb hc
  obtain ⟨lists, h⟩ := (step26_faithful laid_patchedFiles hstep).2 ⟨_, writable_whitelist hb hc⟩
  exact ⟨result, lists, hstep, h⟩

/-- A whitelist that is a text is written as the list of its characters. -/
theorem step26_text : ∃ result, Laid .SITE_WHITELIST .SITE_BLACKLIST patchedFiles.siteFilter ∧
    step26 (fun _ => []) (whitelistConfig (.str (.text "ab".toList))) patchedFiles =
      some result ∧
    Declares .SITE_WHITELIST ["a".toList, "b".toList] result.siteFilter ∧
    ¬∃ lists, Faithful (fun _ => []) (whitelistConfig (.str (.text "ab".toList))) patchedFiles
      result lists := by
  have ha : Verbatim "a".toList ∧ '─' ∉ "a".toList := by decide
  have hb : Verbatim "b".toList ∧ '─' ∉ "b".toList := by decide
  obtain ⟨result, hstep⟩ := step26_whitelist ha hb
  have hsame : step26 (fun _ => []) (whitelistConfig (.str (.text "ab".toList))) patchedFiles =
      some result := hstep
  have hdecl : Declares .SITE_WHITELIST ["a".toList, "b".toList] result.siteFilter := by
    obtain ⟨fields, pc, pw, pb, clipboard, whitelist, blacklist, hfields, _, hw, hb', _, _, rfl⟩ :=
      step26_some hstep
    cases hfields
    have hwritable := writable_whitelist ha hb
    rw [hw.items_eq hwritable.values] at hw
    rw [hb'.items_eq hwritable.values] at hb'
    exact ((siteFilter_iff laid_patchedFiles hw.parsed hb'.parsed).2
      ⟨hwritable.sites, hwritable.siteFilter⟩).1
  refine ⟨result, laid_patchedFiles, hsame, hdecl, ?_⟩
  rintro ⟨lists, h⟩
  obtain ⟨fields, hfields, hall⟩ := h.values
  cases hfields
  cases hall .SITE_WHITELIST

end DenBrowser.SiteLists
