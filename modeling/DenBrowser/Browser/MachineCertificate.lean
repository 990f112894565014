import DenBrowser.Browser.AttestHeaders
import DenBrowser.Lib.Best
import DenBrowser.Lib.Run

/-!
# The machine certificate

On Windows the first attested request selects the workstation's certificate from four
certificate stores, and every request of the process carries the result.  What Windows answers
is the environment: the names of the workstation, what an enumeration of a store yields and the
clock at each certificate it visits.

* `findInStore_eq_some`, `findInStore_eq_none` — one store yields its best eligible certificate;
* `ensureLoaded_scanned` — the cache is filled once;
* `machineCertificate_selected` — what every request of a run carries.
-/

set_option autoImplicit false

namespace DenBrowser.MachineCert

open RunLib

/-! ## Windows -/

/-- `COMPUTER_NAME_FORMAT`, the three the code asks for. -/
inductive NameFormat
  | dnsFullyQualified
  | dnsHostname
  | netBIOS
  deriving DecidableEq

/-- What `GetComputerNameExA` answers: the name, `ERROR_MORE_DATA` with the length it needs
(the terminating NUL counted), or another failure. -/
inductive NameCall
  | ok (name : Bytes)
  | moreData (length : Nat)
  | failed

/-- `GetComputerNameExA` on a buffer of `capacity` characters. -/
def getComputerNameExA (name : Option Bytes) (capacity : Nat) : NameCall :=
  match name with
  | none => .failed
  | some name => if name.length < capacity then .ok name else .moreData (name.length + 1)

/-- A `FILETIME`. -/
abbrev FileTime := UInt64

/-- `CompareFileTime`. -/
def compareFileTime (a b : FileTime) : Int := if a < b then -1 else if a = b then 0 else 1

/-- A `CERT_CONTEXT`, as far as the scan reads it. -/
structure CertContext where
  dwCertEncodingType : UInt32
  /-- `pbCertEncoded`, of length `cbCertEncoded`. -/
  encoded : Bytes
  notBefore : FileTime
  notAfter : FileTime
  /-- The Common Name in the code page of the A functions, empty when there is none. -/
  commonName : Bytes

def X509_ASN_ENCODING : UInt32 := 1

/-- `CertVerifyTimeValidity`: the position of a time against the validity period. -/
def certVerifyTimeValidity (now : FileTime) (certificate : CertContext) : Int :=
  if now < certificate.notBefore then -1 else if certificate.notAfter < now then 1 else 0

/-- `CertGetNameStringA` for the Common Name: the characters written, the NUL counted, and the
text before it.  Without a buffer it is the length needed. -/
def certGetNameStringA (certificate : CertContext) (buffer : Option Nat) : Nat × Bytes :=
  match buffer with
  | none => (certificate.commonName.length + 1, [])
  | some capacity =>
    (min (certificate.commonName.length + 1) capacity, certificate.commonName.take (capacity - 1))

/-- A certificate an enumeration visits, with the clock when its validity is checked. -/
structure Visit where
  now : FileTime
  certificate : CertContext

/-- The flags of a store's location. -/
inductive StoreLocation
  | localMachineGroupPolicy
  | currentUserGroupPolicy
  | localMachine
  | currentUser
  deriving DecidableEq

/-- Managed stores come before ordinary ones. -/
def kMachineCertStoreLocations : List StoreLocation :=
  [.localMachineGroupPolicy, .currentUserGroupPolicy, .localMachine, .currentUser]

/-- What a scan gets from its environment. -/
structure World where
  computerName : NameFormat → Option Bytes
  /-- The enumeration of a store, or that it cannot be opened. -/
  store : StoreLocation → Option (List Visit)
  /-- Whether `mozilla::Base64Encode` finds the memory it needs. -/
  base64Ok : Bytes → Bool

/-- `mozilla::Base64Encode`. -/
def World.base64Encode (w : World) (der : Bytes) : Option Str :=
  if w.base64Ok der then some (Base64.encode der) else none

/-! ## The selection -/

def kMaxMachineCertDerBytes : Nat := 16 * 1024

/-- An ASCII letter in lower case. -/
def asciiLower (b : UInt8) : UInt8 := if 65 ≤ b ∧ b ≤ 90 then b + 32 else b

/-- `Equals` with `nsCaseInsensitiveCStringComparator`. -/
def equalsIgnoringCase (a b : Bytes) : Bool := a.map asciiLower == b.map asciiLower

/-- `AppendComputerName`: the length first, then the name into a buffer of that length. -/
def appendComputerName (w : World) (format : NameFormat) (names : List Bytes) : List Bytes :=
  match getComputerNameExA (w.computerName format) 0 with
  | .moreData length =>
    if length ≤ 1 then names
    else
      match getComputerNameExA (w.computerName format) length with
      | .ok name =>
        if name.length = 0 then names
        else if names.any (equalsIgnoringCase name) then names
        else names ++ [name]
      | _ => names
  | _ => names

/-- The names `EnsureMachineCertificateLoaded` collects. -/
def computerNames (w : World) : List Bytes :=
  appendComputerName w .netBIOS
    (appendComputerName w .dnsHostname (appendComputerName w .dnsFullyQualified []))

/-- `CertificateNamesComputer`: the matched name. -/
def certificateNamesComputer (certificate : CertContext) (names : List Bytes) : Option Bytes :=
  let charCount := (certGetNameStringA certificate none).1
  if charCount ≤ 1 then none
  else
    let (written, candidate) := certGetNameStringA certificate (some charCount)
    if written ≠ charCount then none
    else if names.any (equalsIgnoringCase candidate) then some candidate else none

/-- What the scan of a store has found: `aDer`, `aMatchedName` and `bestNotAfter`. -/
structure Found where
  der : Bytes
  matchedName : Bytes
  bestNotAfter : FileTime
  deriving DecidableEq

/-- The body of the enumeration loop; `none` is `found = false`. -/
def visitCertificate (names : List Bytes) (found : Option Found) (visit : Visit) : Option Found :=
  let certificate := visit.certificate
  if certificate.dwCertEncodingType &&& X509_ASN_ENCODING = 0 ∨ certificate.encoded.length = 0 ∨
      kMaxMachineCertDerBytes < certificate.encoded.length ∨
      certVerifyTimeValidity visit.now certificate ≠ 0 then found
  else
    match certificateNamesComputer certificate names with
    | none => found
    | some matchedName =>
      match found with
      | none => some ⟨certificate.encoded, matchedName, certificate.notAfter⟩
      | some best =>
        if compareFileTime certificate.notAfter best.bestNotAfter ≤ 0 then some best
        else some ⟨certificate.encoded, matchedName, certificate.notAfter⟩

/-- `FindMachineCertificateInStore`. -/
def findMachineCertificateInStore (w : World) (names : List Bytes) (location : StoreLocation) :
    Option Found :=
  match w.store location with
  | none => none
  | some visits => visits.foldl (visitCertificate names) none

/-! ## The cache -/

/-- `sMachineCertScanned` and `sMachineCertBase64`. -/
structure Cache where
  scanned : Bool
  base64 : Option Str

/-- `EnsureMachineCertificateLoaded`: the first store with a match, whose encoding is cached. -/
def ensureMachineCertificateLoaded (w : World) (cache : Cache) : Cache :=
  if cache.scanned then cache
  else
    let names := computerNames w
    if names.isEmpty then ⟨true, cache.base64⟩
    else
      match kMachineCertStoreLocations.findSome? (findMachineCertificateInStore w names) with
      | none => ⟨true, cache.base64⟩
      | some found =>
        match w.base64Encode found.der with
        | none => ⟨true, cache.base64⟩
        | some encoded => ⟨true, some encoded⟩

/-- `GetMachineCertificateBase64`: the mutex makes each call one step. -/
def getMachineCertificateBase64 : System Cache World (Option Str) where
  init := ⟨false, none⟩
  step cache w :=
    let cache := ensureMachineCertificateLoaded w cache
    some (cache, cache.base64)

/-! ## What is eligible -/

/-- The names Windows returns: an empty one is none. -/
def IsComputerName (w : World) (name : Bytes) : Prop :=
  name ≠ [] ∧ ∃ format, w.computerName format = some name

/-- A certificate the workstation may present. -/
structure Eligible (w : World) (visit : Visit) : Prop where
  x509 : visit.certificate.dwCertEncodingType &&& X509_ASN_ENCODING ≠ 0
  nonempty : 1 ≤ visit.certificate.encoded.length
  bounded : visit.certificate.encoded.length ≤ 16384
  started : visit.certificate.notBefore ≤ visit.now
  current : visit.now ≤ visit.certificate.notAfter
  named : ∃ name, IsComputerName w name ∧
    equalsIgnoringCase visit.certificate.commonName name = true

/-- The certificates of a store; one that cannot be opened has none. -/
def storeVisits (w : World) (location : StoreLocation) : List Visit :=
  (w.store location).getD []

def HoldsEligible (w : World) (location : StoreLocation) : Prop :=
  ∃ visit ∈ storeVisits w location, Eligible w visit

/-- `text` encodes the eligible certificate with the latest `NotAfter` of the first store that
holds an eligible certificate. -/
def Selected (w : World) (text : Str) : Prop :=
  ∃ before location after, kMachineCertStoreLocations = before ++ location :: after ∧
    (∀ earlier ∈ before, ¬HoldsEligible w earlier) ∧
    ∃ visit ∈ storeVisits w location, Eligible w visit ∧
      (∀ other ∈ storeVisits w location, Eligible w other →
        other.certificate.notAfter ≤ visit.certificate.notAfter) ∧
      text = Base64.encode visit.certificate.encoded

/-! ## The names -/

theorem appendComputerName_eq (w : World) (format : NameFormat) (names : List Bytes) :
    appendComputerName w format names =
      match w.computerName format with
      | none => names
      | some name =>
        if name = [] ∨ names.any (equalsIgnoringCase name) = true then names
        else names ++ [name] := by
  unfold appendComputerName getComputerNameExA
  cases w.computerName format with
  | none => rfl
  | some name =>
    cases name with
    | nil => rfl
    | cons b name => simp

/-- Leaving out a name equal to an earlier one changes no comparison. -/
theorem any_appendComputerName (w : World) (format : NameFormat) (names : List Bytes)
    (candidate : Bytes) :
    (∃ name ∈ appendComputerName w format names, equalsIgnoringCase candidate name = true) ↔
      (∃ name ∈ names, equalsIgnoringCase candidate name = true) ∨
        ∃ name, w.computerName format = some name ∧ name ≠ [] ∧
          equalsIgnoringCase candidate name = true := by
  rw [appendComputerName_eq]
  cases hname : w.computerName format with
  | none => simp
  | some name =>
    simp only [Option.some.injEq, exists_eq_left']
    by_cases hskip : name = [] ∨ names.any (equalsIgnoringCase name) = true
    · rw [if_pos hskip]
      refine ⟨Or.inl, ?_⟩
      rintro (h | ⟨hne, hequal⟩)
      · exact h
      · -- the earlier name it equals is equal to the candidate too
        obtain ⟨earlier, hmem, hsame⟩ := List.any_eq_true.1 (hskip.resolve_left hne)
        refine ⟨earlier, hmem, ?_⟩
        unfold equalsIgnoringCase at *
        rw [beq_iff_eq] at *
        rw [hequal, hsame]
    · rw [if_neg hskip]
      have hne : name ≠ [] := fun h => hskip (Or.inl h)
      simp [or_and_right, exists_or, hne]

/-- A text equals a collected name exactly when it equals one that Windows returns. -/
theorem mem_computerNames (w : World) (candidate : Bytes) :
    (∃ name ∈ computerNames w, equalsIgnoringCase candidate name = true) ↔
      ∃ name, IsComputerName w name ∧ equalsIgnoringCase candidate name = true := by
  unfold computerNames
  rw [any_appendComputerName, any_appendComputerName, any_appendComputerName]
  constructor
  · rintro (((⟨_, hmem, _⟩ | ⟨name, h, hne, heq⟩) | ⟨name, h, hne, heq⟩) | ⟨name, h, hne, heq⟩)
    · cases hmem
    · exact ⟨name, ⟨hne, .dnsFullyQualified, h⟩, heq⟩
    · exact ⟨name, ⟨hne, .dnsHostname, h⟩, heq⟩
    · exact ⟨name, ⟨hne, .netBIOS, h⟩, heq⟩
  · rintro ⟨name, ⟨hne, format, h⟩, heq⟩
    cases format with
    | dnsFullyQualified => exact Or.inl (Or.inl (Or.inr ⟨name, h, hne, heq⟩))
    | dnsHostname => exact Or.inl (Or.inr ⟨name, h, hne, heq⟩)
    | netBIOS => exact Or.inr ⟨name, h, hne, heq⟩

theorem computerNames_eq_nil {w : World} (h : computerNames w = []) (name : Bytes) :
    ¬IsComputerName w name := by
  intro hname
  obtain ⟨collected, hmem, _⟩ := (mem_computerNames w name).2
    ⟨name, hname, by simp [equalsIgnoringCase]⟩
  rw [h] at hmem
  cases hmem

/-- The matched name is the Common Name. -/
theorem certificateNamesComputer_iff {certificate : CertContext} {names : List Bytes}
    {matchedName : Bytes} :
    certificateNamesComputer certificate names = some matchedName ↔
      certificate.commonName ≠ [] ∧
        (∃ name ∈ names, equalsIgnoringCase certificate.commonName name = true) ∧
          matchedName = certificate.commonName := by
  unfold certificateNamesComputer certGetNameStringA
  cases hname : certificate.commonName with
  | nil => simp
  | cons b name => simp [@eq_comm _ matchedName]

/-! ## One store -/

/-- The tests of the loop. -/
def isEligible (names : List Bytes) (visit : Visit) : Bool :=
  decide (¬(visit.certificate.dwCertEncodingType &&& X509_ASN_ENCODING = 0 ∨
    visit.certificate.encoded.length = 0 ∨
    kMaxMachineCertDerBytes < visit.certificate.encoded.length ∨
    certVerifyTimeValidity visit.now visit.certificate ≠ 0)) &&
  (certificateNamesComputer visit.certificate names).isSome

/-- The key of the scan. -/
def Visit.notAfter (visit : Visit) : Nat := visit.certificate.notAfter.toNat

/-- What the loop keeps of a certificate. -/
def Visit.found (visit : Visit) : Found :=
  ⟨visit.certificate.encoded, visit.certificate.commonName, visit.certificate.notAfter⟩

theorem compareFileTime_le_zero (a b : FileTime) : compareFileTime a b ≤ 0 ↔ a ≤ b := by
  unfold compareFileTime
  rw [UInt64.le_iff_lt_or_eq]
  split
  · simp [*]
  · split
    · simp [*]
    · simp [*]

theorem compareFileTime_notAfter (visit other : Visit) :
    compareFileTime visit.certificate.notAfter other.certificate.notAfter ≤ 0 ↔
      visit.notAfter ≤ other.notAfter := by
  rw [compareFileTime_le_zero, UInt64.le_iff_toNat_le]
  rfl

theorem certVerifyTimeValidity_eq_zero (now : FileTime) (certificate : CertContext) :
    certVerifyTimeValidity now certificate = 0 ↔
      certificate.notBefore ≤ now ∧ now ≤ certificate.notAfter := by
  unfold certVerifyTimeValidity
  rw [← UInt64.not_lt, ← UInt64.not_lt (a := certificate.notAfter)]
  split
  · simp [*]
  · split
    · simp [*]
    · simp [*]

theorem visitCertificate_eq (names : List Bytes) (best : Option Visit) (visit : Visit) :
    visitCertificate names (best.map Visit.found) visit =
      (Best.step (isEligible names) Visit.notAfter best visit).map Visit.found := by
  unfold visitCertificate Best.step isEligible
  dsimp only
  by_cases hskip : visit.certificate.dwCertEncodingType &&& X509_ASN_ENCODING = 0 ∨
      visit.certificate.encoded.length = 0 ∨
      kMaxMachineCertDerBytes < visit.certificate.encoded.length ∨
      certVerifyTimeValidity visit.now visit.certificate ≠ 0
  · rw [if_pos hskip, decide_eq_false (not_not.2 hskip)]
    rfl
  · rw [if_neg hskip, decide_eq_true hskip, Bool.true_and]
    cases hname : certificateNamesComputer visit.certificate names with
    | none => rfl
    | some matchedName =>
      rw [(certificateNamesComputer_iff.1 hname).2.2]
      cases best with
      | none => rfl
      | some b =>
        show (if compareFileTime visit.certificate.notAfter b.certificate.notAfter ≤ 0 then
          some b.found else some visit.found) =
            Option.map Visit.found
              (if visit.notAfter ≤ b.notAfter then some b else some visit)
        have horder := compareFileTime_notAfter visit b
        by_cases hle : visit.notAfter ≤ b.notAfter
        · rw [if_pos hle, if_pos (horder.2 hle)]
          rfl
        · rw [if_neg hle, if_neg (mt horder.1 hle)]
          rfl

/-- The loop over a store is a scan for the best eligible certificate. -/
theorem foldl_visitCertificate (names : List Bytes) (visits : List Visit) :
    visits.foldl (visitCertificate names) none =
      (Best.scan (isEligible names) Visit.notAfter visits).map Visit.found := by
  suffices hfold : ∀ best : Option Visit, visits.foldl (visitCertificate names)
      (best.map Visit.found) =
        (visits.foldl (Best.step (isEligible names) Visit.notAfter) best).map Visit.found from
    hfold none
  induction visits with
  | nil =>
    intro best
    rfl
  | cons visit visits ih =>
    intro best
    rw [List.foldl_cons, visitCertificate_eq, ih]
    rfl

theorem findInStore_eq (w : World) (names : List Bytes) (location : StoreLocation) :
    findMachineCertificateInStore w names location =
      (Best.scan (isEligible names) Visit.notAfter (storeVisits w location)).map Visit.found := by
  unfold findMachineCertificateInStore storeVisits
  cases w.store location with
  | none => rfl
  | some visits => exact foldl_visitCertificate names visits

theorem isEligible_iff (w : World) (visit : Visit) :
    isEligible (computerNames w) visit = true ↔ Eligible w visit := by
  unfold isEligible
  rw [Bool.and_eq_true, decide_eq_true_eq]
  have hnamed : (certificateNamesComputer visit.certificate (computerNames w)).isSome = true ↔
      ∃ name, IsComputerName w name ∧
        equalsIgnoringCase visit.certificate.commonName name = true := by
    rw [← mem_computerNames, Option.isSome_iff_exists]
    constructor
    · rintro ⟨matchedName, h⟩
      exact (certificateNamesComputer_iff.1 h).2.1
    · intro h
      refine ⟨_, certificateNamesComputer_iff.2 ⟨?_, h, rfl⟩⟩
      -- no name of the workstation is empty, so an empty Common Name equals none
      intro hnil
      rw [mem_computerNames, hnil] at h
      obtain ⟨name, ⟨hne, _⟩, heq⟩ := h
      unfold equalsIgnoringCase at heq
      exact hne (by simpa using heq)
  rw [hnamed]
  constructor
  · rintro ⟨hskip, hname⟩
    simp only [not_or, not_not, kMaxMachineCertDerBytes] at hskip
    obtain ⟨hx509, hne, hbound, htime⟩ := hskip
    obtain ⟨hstart, hend⟩ := (certVerifyTimeValidity_eq_zero _ _).1 htime
    exact ⟨hx509, by omega, by omega, hstart, hend, hname⟩
  · intro h
    refine ⟨?_, h.named⟩
    rintro (hx509 | hempty | hbound | htime)
    · exact h.x509 hx509
    · have := h.nonempty
      omega
    · have := h.bounded
      simp only [kMaxMachineCertDerBytes] at hbound
      omega
    · exact htime ((certVerifyTimeValidity_eq_zero _ _).2 ⟨h.started, h.current⟩)

/-- A store yields nothing exactly when it holds no eligible certificate. -/
theorem findInStore_eq_none (w : World) (location : StoreLocation) :
    findMachineCertificateInStore w (computerNames w) location = none ↔
      ¬HoldsEligible w location := by
  rw [findInStore_eq, Option.map_eq_none_iff, Best.scan_eq_none_iff]
  constructor
  · rintro h ⟨visit, hmem, helig⟩
    have hfalse := h visit hmem
    rw [(isEligible_iff w visit).2 helig] at hfalse
    cases hfalse
  · intro h visit hmem
    rw [← Bool.not_eq_true, isEligible_iff]
    exact fun helig => h ⟨visit, hmem, helig⟩

/-- **A store yields its eligible certificate with the latest `NotAfter`.** -/
theorem findInStore_eq_some {w : World} {location : StoreLocation} {found : Found}
    (h : findMachineCertificateInStore w (computerNames w) location = some found) :
    ∃ visit ∈ storeVisits w location, Eligible w visit ∧
      (∀ other ∈ storeVisits w location, Eligible w other →
        other.certificate.notAfter ≤ visit.certificate.notAfter) ∧
      found.der = visit.certificate.encoded := by
  rw [findInStore_eq, Option.map_eq_some_iff] at h
  obtain ⟨visit, hscan, rfl⟩ := h
  have hbest := Best.scan_isBest hscan
  refine ⟨visit, hbest.mem, (isEligible_iff w visit).1 hbest.isEligible, ?_, rfl⟩
  intro other hmem helig
  exact UInt64.le_iff_toNat_le.2 (hbest.greatest other hmem ((isEligible_iff w other).2 helig))

/-! ## One scan -/

/-- What a scan leaves to be cached, when the encoding succeeds. -/
def ScanResult (w : World) : Option Str → Prop
  | none => (∀ location, ¬HoldsEligible w location) ∨ ∀ name, ¬IsComputerName w name
  | some text => Selected w text

theorem not_holdsEligible_of_unnamed {w : World} (h : ∀ name, ¬IsComputerName w name)
    (location : StoreLocation) : ¬HoldsEligible w location := by
  rintro ⟨visit, _, helig⟩
  obtain ⟨name, hname, _⟩ := helig.named
  exact h name hname

theorem mem_locations (location : StoreLocation) : location ∈ kMachineCertStoreLocations := by
  cases location
  all_goals simp [kMachineCertStoreLocations]

/-- The first load of a process. -/
theorem ensureLoaded_init {w : World} (hbase64 : ∀ der, w.base64Ok der = true) :
    ∃ cached, ensureMachineCertificateLoaded w ⟨false, none⟩ = ⟨true, cached⟩ ∧
      ScanResult w cached := by
  unfold ensureMachineCertificateLoaded
  rw [if_neg (by simp)]
  dsimp only
  by_cases hnames : computerNames w = []
  · exact ⟨none, by simp [hnames], Or.inr (computerNames_eq_nil hnames)⟩
  rw [if_neg (by simpa using hnames)]
  cases hfind : kMachineCertStoreLocations.findSome?
      (findMachineCertificateInStore w (computerNames w)) with
  | none =>
    refine ⟨none, rfl, Or.inl fun location => ?_⟩
    exact (findInStore_eq_none w location).1
      (List.findSome?_eq_none_iff.1 hfind location (mem_locations location))
  | some found =>
    refine ⟨some (Base64.encode found.der), by simp [World.base64Encode, hbase64], ?_⟩
    obtain ⟨before, location, after, hsplit, hfound, hbefore⟩ :=
      List.findSome?_eq_some_iff.1 hfind
    obtain ⟨visit, hmem, helig, hlatest, hder⟩ := findInStore_eq_some hfound
    refine ⟨before, location, after, hsplit, ?_, visit, hmem, helig, hlatest, by rw [hder]⟩
    intro earlier hearlier
    exact (findInStore_eq_none w earlier).1 (hbefore earlier hearlier)

/-- **The cache is filled once.** -/
theorem ensureLoaded_scanned (w : World) {cache : Cache} (h : cache.scanned = true) :
    ensureMachineCertificateLoaded w cache = cache := by
  unfold ensureMachineCertificateLoaded
  rw [if_pos h]

theorem scanResult_none_iff {w : World} {cached : Option Str} (h : ScanResult w cached) :
    cached = none ↔ (∀ location, ¬HoldsEligible w location) ∨ ∀ name, ¬IsComputerName w name := by
  cases cached with
  | none => exact ⟨fun _ => h, fun _ => rfl⟩
  | some text =>
    obtain ⟨_, location, _, _, _, visit, hmem, helig, _⟩ := h
    constructor
    · intro habs
      cases habs
    · rintro (hnone | hunnamed)
      · exact absurd ⟨visit, hmem, helig⟩ (hnone location)
      · exact absurd ⟨visit, hmem, helig⟩ (not_holdsEligible_of_unnamed hunnamed location)

/-! ## The runs -/

/-- The state and the answers of a run, given its first scan. -/
theorem run_first {tr : List (World × Option Str)} {cache : Cache}
    (h : Run getMachineCertificateBase64 tr cache) :
    (tr = [] ∧ cache = ⟨false, none⟩) ∨
      ∃ first rest, tr = first :: rest ∧
        cache = ensureMachineCertificateLoaded first.1 ⟨false, none⟩ ∧
        cache.scanned = true ∧ ∀ e ∈ tr, e.2 = cache.base64 := by
  induction h with
  | init => exact Or.inl ⟨rfl, rfl⟩
  | @snoc tr cache cache' w answer hr hs ih =>
    right
    simp only [getMachineCertificateBase64, Option.some.injEq, Prod.mk.injEq] at hs
    obtain ⟨rfl, rfl⟩ := hs
    rcases ih with ⟨rfl, rfl⟩ | ⟨first, rest, rfl, hcache, hscanned, hall⟩
    · refine ⟨_, [], rfl, rfl, ?_, by simp⟩
      unfold ensureMachineCertificateLoaded
      rw [if_neg (by simp)]
      dsimp only
      split
      · rfl
      · split
        · rfl
        · split
          · rfl
          · rfl
    · rw [ensureLoaded_scanned w hscanned]
      refine ⟨first, rest ++ [(w, cache.base64)], rfl, hcache, hscanned, ?_⟩
      intro e he
      rcases List.mem_append.1 he with he | he
      · exact hall e he
      · rw [List.mem_singleton.1 he]

/-- The header of a request that completes is the cached text. -/
theorem writeHeaders_machineCert {N : Nss} (call : AttestCall N) {head : RequestHead}
    (ts nonce token : Str) (hclear : head.headers X_DENBROWSER_MACHINE_CERT = none)
    (hne : call.machineCertBase64 ≠ some []) :
    (writeHeaders call head ts nonce token).headers X_DENBROWSER_MACHINE_CERT =
      call.machineCertBase64 := by
  unfold writeHeaders
  cases hcert : call.machineCertBase64 with
  | none =>
    dsimp only
    rw [RequestHead.setHeader_ne _ _ (by decide), RequestHead.setHeader_ne _ _ (by decide),
      RequestHead.setHeader_ne _ _ (by decide), hclear]
  | some cert =>
    have hcertNe : cert ≠ [] := by
      rintro rfl
      exact hne hcert
    exact RequestHead.setHeader_self _ _ hcertNe

theorem Selected.ne_nil {w : World} {text : Str} (h : Selected w text) : text ≠ [] := by
  obtain ⟨_, _, _, _, _, visit, _, helig, _, rfl⟩ := h
  apply Base64.encode_ne_nil
  intro hnil
  have := helig.nonempty
  rw [hnil] at this
  cases this

/-- **The selected machine certificate.**  In every run of a process in which Base64 encoding
succeeds, every request gets the answer of the first scan: no certificate exactly when no store
held an eligible one or Windows returned no name, and else the selected certificate.  A request
that is attested carries that answer as its header. -/
theorem machineCertificate_selected {first : World × Option Str} {rest : List (World × Option Str)}
    {cache : Cache} (h : Run getMachineCertificateBase64 (first :: rest) cache)
    (hbase64 : ∀ der, first.1.base64Ok der = true) :
    (first.2 = none ↔ (∀ location, ¬HoldsEligible first.1 location) ∨
      ∀ name, ¬IsComputerName first.1 name) ∧
    (∀ text, first.2 = some text → Selected first.1 text) ∧
    (∀ later ∈ rest, later.2 = first.2) ∧
    ∀ e ∈ first :: rest, ∀ (N : Nss) (table : List ProxyEntry) (call : AttestCall N)
      (head : RequestHead) (uri : Uri) (upload : Option UploadStream) (uploadLength : Nat)
      (ts nonce token : Str), call.machineCertBase64 = e.2 →
      attestValues table call head.method uri upload uploadLength = .attach ts nonce token →
      (addAttestHeaders table call head uri upload uploadLength).2.headers
        X_DENBROWSER_MACHINE_CERT = first.2 := by
  obtain ⟨hnil, _⟩ | ⟨first', rest', hsplit, hcache, _, hall⟩ := run_first h
  · cases hnil
  obtain ⟨rfl, rfl⟩ := List.cons.inj hsplit
  obtain ⟨cached, hload, hscan⟩ := ensureLoaded_init hbase64
  rw [hload] at hcache
  have hanswer : ∀ e ∈ first :: rest, e.2 = cached := by
    intro e he
    rw [hall e he, hcache]
  have hfirst : first.2 = cached := hanswer first List.mem_cons_self
  rw [hfirst]
  have hselected : ∀ text, cached = some text → Selected first.1 text := by
    rintro text rfl
    exact hscan
  refine ⟨scanResult_none_iff hscan, hselected, ?_, ?_⟩
  · intro later hlater
    exact hanswer later (List.mem_cons_of_mem _ hlater)
  · intro e he N table call head uri upload uploadLength ts nonce token hcall hattach
    rw [hanswer e he] at hcall
    rw [addAttestHeaders_attach hattach,
      writeHeaders_machineCert call ts nonce token (head.clearHeader_self _), hcall]
    rw [hcall]
    intro hempty
    exact (hselected [] hempty).ne_nil rfl

/-! ## A scan with overlapping certificates -/

/-- A certificate of this workstation that is valid from 10 on. -/
def overlapping (der : Bytes) (notAfter : FileTime) : CertContext where
  dwCertEncodingType := 1
  encoded := der
  notBefore := 10
  notAfter := notAfter
  commonName := [0x57, 0x73, 0x31]

/-- The managed stores are empty; the third one holds a certificate with the wrong encoding, two
overlapping ones and an expired one. -/
def overlapWorld : World where
  computerName
    | .netBIOS => some [0x57, 0x53, 0x31]
    | _ => none
  store
    | .localMachineGroupPolicy => none
    | .currentUserGroupPolicy => some []
    | .localMachine => some [
        ⟨100, { overlapping [0x30, 1] 900 with dwCertEncodingType := 2 }⟩,
        ⟨100, overlapping [0x30, 2] 200⟩, ⟨100, overlapping [0x30, 3] 300⟩,
        ⟨100, overlapping [0x30, 4] 99⟩, ⟨100, overlapping [0x30, 5] 300⟩]
    | .currentUser => some [⟨100, overlapping [0x30, 6] 800⟩]
  base64Ok _ := true

/-- Enrollment replaces everything afterwards. -/
def renewedWorld : World where
  computerName _ := some [0x57, 0x73, 0x31]
  store _ := some [⟨400, overlapping [0x30, 7] 2000⟩]
  base64Ok _ := true

theorem overlap_run : Run getMachineCertificateBase64
    [(overlapWorld, some (Base64.encode [0x30, 3])),
      (renewedWorld, some (Base64.encode [0x30, 3]))] ⟨true, some (Base64.encode [0x30, 3])⟩ :=
  exec_run (l := [overlapWorld, renewedWorld]) (by rfl)

theorem machineCertificate_selected_overlap :
    Selected overlapWorld (Base64.encode [0x30, 3]) ∧
      ∀ later ∈ [(renewedWorld, some (Base64.encode [0x30, 3]))],
        later.2 = some (Base64.encode [0x30, 3]) :=
  have h := machineCertificate_selected overlap_run (fun _ => rfl)
  ⟨h.2.1 _ rfl, h.2.2.1⟩

end DenBrowser.MachineCert
