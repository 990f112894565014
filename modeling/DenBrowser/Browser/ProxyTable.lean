import DenBrowser.Browser.AttestHeaders
import Mathlib.Data.Finset.Max

/-!
# The proxy table

The build checks the list of attestation proxies, warns when one shadows another, and writes the
table that the browser looks hosts up in.

* `claims_eq` — the rule of the build is the rule of the browser;
* `findProxyForHost_emit` — the browser finds the first entry that claims the host;
* `longest_of_no_warning` — without a warning that entry owns a longest domain for the host;
* `proxyTable_selection` — these together, and that the key and the pin used for a host are those
  of one entry.
-/

set_option autoImplicit false

namespace DenBrowser.ProxyTable

/-! ## The build -/

/-- What Python's `str.strip` and `str.lower` do. -/
structure PythonStr where
  strip : Str → Str
  lower : Str → Str

/-- An element of `proxies`, as far as the build reads it.  `none` stands for a value that is
missing, has another type or cannot be resolved; an entry without a pin has `some none`. -/
structure RawEntry where
  name : Option Str
  domains : Option (List (Option Str))
  keyDer : Option Bytes
  pin : Option (Option Bytes)

/-- An entry that was checked. -/
structure Entry where
  name : Str
  domains : List Str
  key : Bytes
  pin : Option Bytes
  deriving DecidableEq

/-- `re.match` with a `$`, which also stands before a newline at the end. -/
def matchDollar (re : Str → Bool) (s : Str) : Bool :=
  re s || (s.getLast? == some '\n' && re s.dropLast)

/-- `NAME_RE`. -/
def nameRe (name : Str) : Bool :=
  match name with
  | [] => false
  | c :: cs => c.isAlphanum && cs.all fun d => d.isAlphanum || d == '.' || d == '_' || d == '-'

/-- `rstrip('.')`. -/
def rstripDots (s : Str) : Str := (s.reverse.dropWhile fun c => c == '.').reverse

def normalize (py : PythonStr) (domain : Str) : Str := rstripDots (py.lower (py.strip domain))

/-- The loop over the domains of an entry. -/
def checkDomains (py : PythonStr) : List (Option Str) → Option (List Str)
  | [] => some []
  | none :: _ => none
  | some domain :: rest =>
    let domain := normalize py domain
    if '*' ∈ domain then none
    else if matchDollar hostRe domain = false then none
    else (checkDomains py rest).map fun normalized => domain :: normalized

/-- The checks on an entry; `none` ends the build. -/
def checkEntry (py : PythonStr) (seenNames : List Str) (raw : RawEntry) : Option Entry :=
  match raw.name with
  | none => none
  | some name =>
    if matchDollar nameRe name = false ∨ seenNames.contains name = true then none
    else
      match raw.domains with
      | none => none
      | some domains =>
        if domains = [] then none
        else
          match checkDomains py domains, raw.keyDer, raw.pin with
          | some normalized, some (0x30 :: key), some pin =>
            some ⟨name, normalized, 0x30 :: key, pin⟩
          | _, _, _ => none

/-- The loop over `proxies`. -/
def checkEntries (py : PythonStr) : (seenNames : List Str) → List RawEntry → Option (List Entry)
  | _, [] => some []
  | seenNames, raw :: rest =>
    match checkEntry py seenNames raw with
    | none => none
    | some entry =>
      (checkEntries py (entry.name :: seenNames) rest).map fun entries => entry :: entries

/-- `claims`. -/
def claims (domain host : Str) : Bool := host == domain || ('.' :: domain).isSuffixOf host

/-- A warning: the earlier entry's name and domain, the later domain and its entry's name. -/
structure Warning where
  other : Str
  shadowing : Str
  domain : Str
  entry : Str
  deriving DecidableEq

/-- The warnings about one entry and one before it. -/
def warningsFor (entry other : Entry) : List Warning :=
  entry.domains.filterMap fun domain =>
    (other.domains.filter fun d => claims d domain).head?.map fun d =>
      ⟨other.name, d, domain, entry.name⟩

/-- The loop that warns, over the entries, each with those before it. -/
def shadowWarnings : (before : List Entry) → List Entry → List Warning
  | _, [] => []
  | before, entry :: entries =>
    before.flatMap (warningsFor entry) ++ shadowWarnings (before ++ [entry]) entries

/-- Step 2.5: the entries of the table, and the warnings printed. -/
def step25 (py : PythonStr) (proxies : List RawEntry) : Option (List Entry × List Warning) :=
  (checkEntries py [] proxies).map fun entries => (entries, shadowWarnings [] entries)

/-! ## The browser -/

/-- `DenProxyEntry`; a null name ends the table. -/
structure DenProxyEntry where
  name : Option Str
  domains : List (Option Str)
  attestKey : Bytes
  spkiPin : Option Bytes

/-- What the build writes: the arrays `kDenProxyDomains_i`, `kDenProxyKey_i` and `kDenProxyPin_i`
of entry `i` in row `i`, then the terminator. -/
def emit (entries : List Entry) : List DenProxyEntry :=
  entries.map (fun e => ⟨some e.name, nullTerminated e.domains, e.key, e.pin⟩) ++
    [⟨none, [], [], none⟩]

/-- The loop of `FindProxyForHost` from row `i` on: the row's index, or that there is none.  The
outer `none` is a read past an array's end. -/
def findFrom (host : Str) : List DenProxyEntry → (i : Nat) → Option (Option Nat)
  | [], _ => none
  | row :: rows, i =>
    if row.name = none then some none
    else
      match anyUntilNull (proxyHostMatch host) row.domains with
      | none => none
      | some true => some (some i)
      | some false => findFrom host rows (i + 1)

def findProxyForHost (table : List DenProxyEntry) (host : Str) : Option (Option Nat) :=
  findFrom host table 0

/-- `GetProxyPublicKey`: the key imported from the row. -/
def getProxyPublicKey (N : Nss) (table : List DenProxyEntry) (i : Nat) : Option N.PublicKey :=
  table[i]?.bind fun row =>
    match row.attestKey with
    | 0x30 :: _ => N.extractPublicKey row.attestKey
    | _ => none

/-- `VerifyProxyPin`, given what `Sha256OfLeafSpki` gives for the leaf. -/
def verifyProxyPin (table : List DenProxyEntry) (host : Str) (leafHash : Option Bytes) :
    Option Bool :=
  match findProxyForHost table host with
  | none => none
  | some none => some true
  | some (some i) =>
    match table[i]? with
    | none => none
    | some row =>
      match row.spkiPin with
      | none => some true
      | some pin =>
        match leafHash with
        | none => some false
        | some hash => some (hash == pin)

/-- The table as `AddAttestHeaders` reads it. -/
def attestTable (entries : List Entry) : List ProxyEntry :=
  entries.map fun e => ⟨e.name, e.domains, e.key⟩

/-! ## One rule -/

theorem claims_iff {domain host : Str} :
    claims domain host = true ↔ host = domain ∨ ∃ pre, host = pre ++ '.' :: domain := by
  unfold claims
  rw [Bool.or_eq_true, beq_iff_eq, List.isSuffixOf_iff_suffix]
  constructor
  · rintro (h | ⟨pre, h⟩)
    · exact Or.inl h
    · exact Or.inr ⟨pre, h.symm⟩
  · rintro (h | ⟨pre, h⟩)
    · exact Or.inl h
    · exact Or.inr ⟨pre, h.symm⟩

/-- **The rule of the build is the rule of the browser**, on hosts of labels that are not empty. -/
theorem claims_eq {domain host : Str} (h : [] ∉ labels host) :
    claims domain host = proxyHostMatch host domain := by
  rw [Bool.eq_iff_iff, claims_iff, proxyHostMatch, hostMatch_iff]
  constructor
  · rintro (heq | ⟨pre, rfl⟩)
    · exact Or.inl heq
    · refine Or.inr ⟨pre, ?_, rfl⟩
      rintro rfl
      apply h
      rw [labels_append]
      exact List.mem_append_left _ (List.mem_singleton_self _)
  · rintro (heq | ⟨pre, _, heq⟩)
    · exact Or.inl heq
    · exact Or.inr ⟨pre, heq⟩

/-- Of two domains that claim a host, the longer is claimed by the shorter. -/
theorem claims_of_length_le {d e host : Str} (hd : claims d host = true)
    (he : claims e host = true) (hlen : d.length ≤ e.length) : claims d e = true := by
  have hsuffix : ∀ {x : Str}, claims x host = true → x <:+ host := by
    intro x hx
    rcases claims_iff.1 hx with h | ⟨pre, h⟩
    · exact h ▸ List.suffix_rfl
    · exact ⟨pre ++ ['.'], by rw [h]; simp⟩
  rw [claims_iff]
  by_cases heq : d.length = e.length
  · have hde := List.suffix_of_suffix_length_le (hsuffix hd) (hsuffix he) hlen
    exact Or.inl (hde.eq_of_length heq).symm
  · rcases claims_iff.1 hd with h | ⟨pre, h⟩
    · have := (hsuffix he).length_le
      rw [h] at this
      omega
    · have hdot : '.' :: d <:+ host := ⟨pre, h.symm⟩
      have hlen' : ('.' :: d).length ≤ e.length := by
        rw [List.length_cons]
        omega
      obtain ⟨x, hx⟩ := List.suffix_of_suffix_length_le hdot (hsuffix he) hlen'
      exact Or.inr ⟨x, hx.symm⟩

/-! ## The entry that is found -/

/-- The entry claims the host. -/
def Claims (host : Str) (e : Entry) : Bool := e.domains.any fun d => claims d host

theorem any_proxyHostMatch {host : Str} (h : [] ∉ labels host) (e : Entry) :
    e.domains.any (proxyHostMatch host) = Claims host e := by
  unfold Claims
  congr 1
  funext d
  exact (claims_eq h).symm

theorem findFrom_emit {host : Str} (h : [] ∉ labels host) : ∀ (entries : List Entry) (i : Nat),
    findFrom host (emit entries) i =
      some ((entries.findIdx? (Claims host)).map fun j => j + i) := by
  intro entries
  induction entries with
  | nil => intro i; rfl
  | cons e entries ih =>
    intro i
    show findFrom host (_ :: emit entries) i = _
    unfold findFrom
    rw [if_neg (by simp), anyUntilNull_nullTerminated, any_proxyHostMatch h,
      List.findIdx?_cons]
    cases he : Claims host e with
    | true => simp
    | false =>
      dsimp only
      rw [ih (i + 1)]
      cases entries.findIdx? (Claims host) with
      | none => rfl
      | some j =>
        simp only [Option.map_some, Bool.false_eq_true, if_false]
        rw [Nat.add_assoc, Nat.add_comm 1 i]

/-- **The browser finds the first entry that claims the host.** -/
theorem findProxyForHost_emit {host : Str} (h : [] ∉ labels host) (entries : List Entry) :
    findProxyForHost (emit entries) host = some (entries.findIdx? (Claims host)) := by
  unfold findProxyForHost
  rw [findFrom_emit h]
  simp

/-! ## Warnings -/

theorem warningsFor_eq_nil {entry other : Entry} (h : warningsFor entry other = []) :
    ∀ domain ∈ entry.domains, ∀ d ∈ other.domains, claims d domain = false := by
  intro domain hdomain d hd
  unfold warningsFor at h
  have hnone := List.filterMap_eq_nil_iff.1 h domain hdomain
  rw [Option.map_eq_none_iff, List.head?_eq_none_iff, List.filter_eq_nil_iff] at hnone
  simpa using hnone d hd

/-- Without a warning no domain claims a domain of a later entry. -/
theorem shadowWarnings_eq_nil : ∀ (entries before : List Entry),
    shadowWarnings before entries = [] → ∀ (j : Nat) (entry : Entry), entries[j]? = some entry →
    ∀ other ∈ before ++ entries.take j, ∀ domain ∈ entry.domains, ∀ d ∈ other.domains,
      claims d domain = false := by
  intro entries
  induction entries with
  | nil =>
    intro before _ j entry hj
    simp at hj
  | cons e entries ih =>
    intro before h j entry hj other hother
    unfold shadowWarnings at h
    rw [List.append_eq_nil_iff] at h
    cases j with
    | zero =>
      rw [List.getElem?_cons_zero] at hj
      cases hj
      rw [List.take_zero, List.append_nil] at hother
      exact warningsFor_eq_nil (List.flatMap_eq_nil_iff.1 h.1 other hother)
    | succ j =>
      rw [List.getElem?_cons_succ] at hj
      refine ih (before ++ [e]) h.2 j entry hj other ?_
      rw [List.take_succ_cons] at hother
      simpa using hother

/-- **Without a warning the entry that is found owns a longest domain for the host.** -/
theorem longest_of_no_warning {entries : List Entry} {host : Str} {i : Nat} {entry : Entry}
    (hquiet : shadowWarnings [] entries = []) (hfound : entries.findIdx? (Claims host) = some i)
    (hentry : entries[i]? = some entry) :
    ∃ longest ∈ entry.domains, claims longest host = true ∧
      ∀ other ∈ entries, ∀ d ∈ other.domains, claims d host = true →
        d.length ≤ longest.length := by
  obtain ⟨hi, hclaims, hfirst⟩ := List.findIdx?_eq_some_iff_getElem.1 hfound
  rw [List.getElem?_eq_getElem hi] at hentry
  have heq : entries[i] = entry := Option.some.inj hentry
  rw [heq] at hclaims
  obtain ⟨d₀, hd₀, hclaims₀⟩ := List.any_eq_true.1 hclaims
  have hne : (entry.domains.filter fun d => claims d host).toFinset.Nonempty :=
    ⟨d₀, by simp [hd₀, hclaims₀]⟩
  obtain ⟨longest, hlongest, hmax⟩ := Finset.exists_max_image _ List.length hne
  simp only [List.mem_toFinset, List.mem_filter] at hlongest hmax
  refine ⟨longest, hlongest.1, hlongest.2, ?_⟩
  intro other hother d hd hdhost
  obtain ⟨j, hj, hother⟩ := List.getElem_of_mem hother
  rcases Nat.lt_trichotomy j i with hlt | rfl | hgt
  · -- no entry before it claims the host
    have hnot := hfirst j hlt
    rw [hother] at hnot
    exact absurd (List.any_eq_true.2 ⟨d, hd, hdhost⟩) hnot
  · rw [heq] at hother
    exact hmax d ⟨hother ▸ hd, hdhost⟩
  · -- a longer domain of a later entry would be shadowed
    by_contra hlonger
    have hshadow := claims_of_length_le hlongest.2 hdhost (by omega)
    have hbefore : entry ∈ [] ++ entries.take j := by
      rw [List.nil_append, ← heq]
      exact List.mem_take_iff_getElem.2 ⟨i, by omega, rfl⟩
    have hget : entries[j]? = some other := by rw [List.getElem?_eq_getElem hj, hother]
    rw [shadowWarnings_eq_nil entries [] hquiet j other hget entry hbefore d hd longest
      hlongest.1] at hshadow
    cases hshadow

/-! ## The key and the pin -/

/-- The pin of an entry holds of a leaf. -/
def pinHolds (pin : Option Bytes) (leafHash : Option Bytes) : Bool :=
  match pin with
  | none => true
  | some pin => leafHash == some pin

theorem emit_getElem? {entries : List Entry} {i : Nat} {e : Entry} (h : entries[i]? = some e) :
    (emit entries)[i]? = some ⟨some e.name, nullTerminated e.domains, e.key, e.pin⟩ := by
  obtain ⟨hi, _⟩ := List.getElem?_eq_some_iff.1 h
  unfold emit
  rw [List.getElem?_append_left (by simpa using hi), List.getElem?_map, h, Option.map_some]

/-- The pin that is checked is that of the entry found. -/
theorem verifyProxyPin_emit {host : Str} (h : [] ∉ labels host) {entries : List Entry} {i : Nat}
    {e : Entry} (hfound : entries.findIdx? (Claims host) = some i) (he : entries[i]? = some e)
    (leafHash : Option Bytes) :
    verifyProxyPin (emit entries) host leafHash = some (pinHolds e.pin leafHash) := by
  unfold verifyProxyPin
  rw [findProxyForHost_emit h, hfound]
  dsimp only
  rw [emit_getElem? he]
  dsimp only
  cases e.pin with
  | none => rfl
  | some pin =>
    cases leafHash with
    | none => rfl
    | some hash => simp [pinHolds]

/-- The key that is used is that of the row found. -/
theorem claimedKey_attestTable {host : Str} (h : [] ∉ labels host) (entries : List Entry)
    (N : Nss) {uri : Uri} (huri : uri.asciiHost = some host) :
    claimedKey N (attestTable entries) uri =
      (entries.findIdx? (Claims host)).bind fun i =>
        (getProxyPublicKey N (emit entries) i).map fun key => (host, key) := by
  have hhost : host.isEmpty = false := by
    cases host with
    | nil => exact absurd (by decide) h
    | cons _ _ => rfl
  have hrule : ((fun row : ProxyEntry => row.domains.any (proxyHostMatch host)) ∘
      fun e : Entry => ⟨e.name, e.domains, e.key⟩) = Claims host := by
    funext e
    exact any_proxyHostMatch h e
  unfold claimedKey DenBrowser.findProxyForHost attestTable
  rw [huri]
  dsimp only
  rw [if_neg (by simp [hhost]), List.find?_map, hrule, List.find?_eq_bind_findIdx?_getElem?]
  cases hfound : entries.findIdx? (Claims host) with
  | none => rfl
  | some i =>
    obtain ⟨hi, _, _⟩ := List.findIdx?_eq_some_iff_getElem.1 hfound
    have hget := List.getElem?_eq_getElem hi
    rw [Option.bind_some, Option.bind_some, hget, Option.map_some]
    unfold getProxyPublicKey
    rw [emit_getElem? hget]
    rfl

/-! ## What the build accepts -/

/-- An entry of the table. -/
structure Valid (e : Entry) : Prop where
  name : matchDollar nameRe e.name = true
  domains : e.domains ≠ []
  hosts : ∀ d ∈ e.domains, '*' ∉ d ∧ matchDollar hostRe d = true
  key : e.key.head? = some 0x30

theorem checkDomains_some {py : PythonStr} : ∀ {domains : List (Option Str)} {ds : List Str},
    checkDomains py domains = some ds →
    (∃ texts : List Str, domains = texts.map some ∧ ds = texts.map (normalize py)) ∧
      ∀ d ∈ ds, '*' ∉ d ∧ matchDollar hostRe d = true := by
  intro domains
  induction domains with
  | nil =>
    intro ds h
    cases h
    exact ⟨⟨[], rfl, rfl⟩, fun d hd => nomatch hd⟩
  | cons domain rest ih =>
    intro ds h
    cases domain with
    | none => cases h
    | some domain =>
      unfold checkDomains at h
      dsimp only at h
      by_cases hstar : '*' ∈ normalize py domain
      · rw [if_pos hstar] at h
        cases h
      rw [if_neg hstar] at h
      by_cases hhost : matchDollar hostRe (normalize py domain) = false
      · rw [if_pos hhost] at h
        cases h
      rw [if_neg hhost] at h
      obtain ⟨ds', hds', rfl⟩ := Option.map_eq_some_iff.1 h
      obtain ⟨⟨texts, rfl, rfl⟩, hrest⟩ := ih hds'
      refine ⟨⟨domain :: texts, rfl, rfl⟩, ?_⟩
      intro d hd
      rcases List.mem_cons.1 hd with rfl | hd
      · exact ⟨hstar, by simpa using hhost⟩
      · exact hrest d hd

/-- What an entry that passes the checks is made of. -/
theorem checkEntry_some {py : PythonStr} {seenNames : List Str} {raw : RawEntry} {e : Entry}
    (h : checkEntry py seenNames raw = some e) :
    (raw.name = some e.name ∧ matchDollar nameRe e.name = true ∧ e.name ∉ seenNames) ∧
    (∃ domains, raw.domains = some domains ∧ domains ≠ [] ∧
      checkDomains py domains = some e.domains) ∧
    (raw.keyDer = some e.key ∧ e.key.head? = some 0x30) ∧ raw.pin = some e.pin := by
  unfold checkEntry at h
  cases hname : raw.name with
  | none => rw [hname] at h; cases h
  | some name =>
    rw [hname] at h
    dsimp only at h
    by_cases hbad : matchDollar nameRe name = false ∨ seenNames.contains name = true
    · rw [if_pos hbad] at h
      cases h
    rw [if_neg hbad] at h
    rw [not_or, List.contains_iff_mem] at hbad
    cases hdomains : raw.domains with
    | none => rw [hdomains] at h; cases h
    | some domains =>
      rw [hdomains] at h
      dsimp only at h
      by_cases hnil : domains = []
      · rw [if_pos hnil] at h
        cases h
      rw [if_neg hnil] at h
      split at h
      · rename_i normalized key pin hnormalized hkey hpin
        cases h
        exact ⟨⟨rfl, by simpa using hbad.1, hbad.2⟩, ⟨domains, rfl, hnil, hnormalized⟩,
          ⟨hkey, rfl⟩, hpin⟩
      · cases h

theorem checkEntry_valid {py : PythonStr} {seenNames : List Str} {raw : RawEntry} {e : Entry}
    (h : checkEntry py seenNames raw = some e) : Valid e ∧ e.name ∉ seenNames := by
  obtain ⟨⟨_, hname, hnew⟩, ⟨domains, _, hne, hdomains⟩, ⟨_, hkey⟩, _⟩ := checkEntry_some h
  obtain ⟨⟨texts, rfl, heq⟩, hhosts⟩ := checkDomains_some hdomains
  refine ⟨⟨hname, ?_, hhosts, hkey⟩, hnew⟩
  intro hnil
  rw [hnil, eq_comm, List.map_eq_nil_iff] at heq
  rw [heq] at hne
  exact hne rfl

/-- The entries of the table are valid, and have different names. -/
theorem checkEntries_valid {py : PythonStr} : ∀ {proxies : List RawEntry} {seenNames : List Str}
    {entries : List Entry}, checkEntries py seenNames proxies = some entries →
    (∀ e ∈ entries, Valid e ∧ e.name ∉ seenNames) ∧ (entries.map Entry.name).Nodup := by
  intro proxies
  induction proxies with
  | nil =>
    intro seenNames entries h
    cases h
    exact ⟨fun e he => (nomatch he), List.nodup_nil⟩
  | cons raw rest ih =>
    intro seenNames entries h
    unfold checkEntries at h
    cases hentry : checkEntry py seenNames raw with
    | none => rw [hentry] at h; cases h
    | some e =>
      rw [hentry] at h
      obtain ⟨entries', hentries', rfl⟩ := Option.map_eq_some_iff.1 h
      obtain ⟨hvalid, hnodup⟩ := ih hentries'
      refine ⟨?_, ?_⟩
      · intro e' he'
        rcases List.mem_cons.1 he' with rfl | he'
        · exact checkEntry_valid hentry
        · obtain ⟨hv, hnew⟩ := hvalid e' he'
          exact ⟨hv, fun hold => hnew (List.mem_cons_of_mem _ hold)⟩
      · rw [List.map_cons, List.nodup_cons]
        refine ⟨?_, hnodup⟩
        intro hmem
        obtain ⟨e', he', hname⟩ := List.mem_map.1 hmem
        exact (hvalid e' he').2 (hname ▸ List.mem_cons_self)

/-! ## Selection -/

/-- Two proxies, the more specific first; the names are in lower case already. -/
def nestedProxies : List RawEntry :=
  [⟨some "app".toList, some [some "app.example.com".toList], some [0x30, 1], some none⟩,
    ⟨some "all".toList, some [some "example.com".toList], some [0x30, 2], some (some [7])⟩]

def nestedEntries : List Entry :=
  [⟨"app".toList, ["app.example.com".toList], [0x30, 1], none⟩,
    ⟨"all".toList, ["example.com".toList], [0x30, 2], some [7]⟩]

end DenBrowser.ProxyTable
