import DenBrowser.Proxy.Mtls
import Mathlib.Logic.Function.Basic

/-!
# Machine identity

`machine::MachineIdentity`: the certificate checks in the order the code makes them, the DNS
cache with its positive, negative and stale lifetimes, and the whole check `verify`.

* `verifyCert_ok_iff` — what a certificate accepted by `verify_cert` has passed;
* `freshAnswer_of_positive`, `staleAnswer_eq_some` — what the two cache reads return;
* `storeAnswer_entry` — where an entry of the swept cache comes from;
* `verify_ok_cases`, `verify_queries` — where an accepted address comes from, and which
  names reach the resolver.
-/

set_option autoImplicit false

namespace DenBrowser

/-! ## Errors -/

/-- `machine::MachineError`. -/
inductive MachineError where
  | missing
  | notBase64
  | notDer
  | untrustedChain (r : Str)
  | certExpired
  | certNotYetValid
  | noCommonName
  | unsafeCommonName
  | hostnameNotAllowed (cn : Str)
  | hostnameAddressMismatch (cn : Str) (ip : IpAddr)
  | hostnameUnresolvable (cn : Str)
  | noClientAddress
  deriving DecidableEq

/-- The `Display` text. -/
def MachineError.display : MachineError → Str
  | .missing => "X-DenBrowser-Machine-Cert is missing".toList
  | .notBase64 => "X-DenBrowser-Machine-Cert is not valid base64".toList
  | .notDer => "machine certificate is not parseable DER".toList
  | .untrustedChain r => "machine certificate does not chain to machine_ca: ".toList ++ r
  | .certExpired => "machine certificate (or its issuing CA) has expired".toList
  | .certNotYetValid => "machine certificate (or its issuing CA) is not yet valid".toList
  | .noCommonName => "machine certificate has no Common Name".toList
  | .unsafeCommonName => "machine certificate Common Name contains illegal characters".toList
  | .hostnameNotAllowed cn =>
    "machine hostname ".toList ++ debugStr cn ++ " matches no allowed_hostnames pattern".toList
  | .hostnameAddressMismatch cn ip =>
    "machine hostname ".toList ++ debugStr cn ++
      " does not resolve to the connecting address ".toList ++ ip.show
  | .hostnameUnresolvable cn =>
    "machine hostname ".toList ++ debugStr cn ++ " could not be resolved".toList
  | .noClientAddress =>
    "connection has no peer address to verify the machine hostname against".toList

/-- The audit reason a machine failure is recorded under. -/
def MachineError.reason : MachineError → Reason
  | .missing => .machineCertMissing
  | .notBase64 => .machineCertMalformed
  | .notDer => .machineCertMalformed
  | .untrustedChain _ => .machineCertUntrusted
  | .certExpired => .machineCertExpired
  | .certNotYetValid => .machineCertNotYetValid
  | .noCommonName => .machineCertNoCommonName
  | .unsafeCommonName => .machineCertUnsafeCommonName
  | .hostnameNotAllowed _ => .machineHostnameNotAllowed
  | .hostnameAddressMismatch _ _ => .machineAddressMismatch
  | .hostnameUnresolvable _ => .machineHostnameUnresolvable
  | .noClientAddress => .machineNoClientAddress

/-- Whether the certificate had already chained to `machine_ca`. -/
def MachineError.chainVerified : MachineError → Bool
  | .hostnameAddressMismatch _ _ | .hostnameUnresolvable _ => true
  | _ => false

/-- Every machine error is recorded at the machine stage. -/
theorem MachineError.reason_stage (e : MachineError) : e.reason.stage = .machineIdentity := by
  cases e <;> rfl

theorem MachineError.chainVerified_iff (e : MachineError) :
    e.chainVerified = true ↔
      e.reason = .machineAddressMismatch ∨ e.reason = .machineHostnameUnresolvable := by
  cases e <;> simp [chainVerified, reason]

/-! ## The certificate -/

/-- `machine::VerifiedMachine`. -/
structure VerifiedMachine where
  hostname : Str
  subjectDn : Str
  deriving DecidableEq

/-- `machine::MachineIdentity`, without the resolver and the cache. -/
structure MachineIdentity (L : Crates) where
  store : L.X509Store
  allowed : List L.GlobMatcher
  required : Bool
  dnsTtl : Nat
  dnsNegativeTtl : Nat
  dnsStaleGrace : Nat

section Cert

variable {L : Crates}

def X509_V_ERR_CERT_NOT_YET_VALID : Int := 9

def X509_V_ERR_CERT_HAS_EXPIRED : Int := 10

/-- The *unverified* subject DN of a presented machine certificate. -/
def presentedSubjectDn (L : Crates) (certB64 : Str) : Option Str :=
  (L.base64Decode (trim certB64)).bind fun der =>
    (L.fromDer der).map fun cert => distinguishedName (L.subject cert)

/-- A character no hostname may hold. -/
def illegalInName (c : Char) : Bool := 128 ≤ c.toNat || c.toNat < 32 || c.toNat = 127 || c = ' '

/-- The Common Name is empty or holds a character no hostname may. -/
def unsafeName (cn : Str) : Bool := cn.isEmpty || cn.any illegalInName

def MachineIdentity.nameAllowed (m : MachineIdentity L) (cn : Str) : Bool :=
  m.allowed.isEmpty || m.allowed.any fun g => L.isMatch g cn

/-- `verify_cert`: decode, extract and check the Common Name, match it against the allowlist,
then chain-verify at a wall-clock time. -/
def MachineIdentity.verifyCert (m : MachineIdentity L) (certB64 : Str) (wall : SystemTime) :
    Except MachineError VerifiedMachine :=
  match L.base64Decode (trim certB64) with
  | none => .error .notBase64
  | some der =>
    match L.fromDer der with
    | none => .error .notDer
    | some cert =>
      match (ClientCert.fromCert L cert).commonName with
      | none => .error .noCommonName
      | some cn =>
        if unsafeName cn then .error .unsafeCommonName
        else if m.nameAllowed (toAsciiLowercase cn) = false then
          .error (.hostnameNotAllowed (toAsciiLowercase cn))
        else
          match L.chainVerify m.store cert wall with
          | .error e => .error (.untrustedChain e)
          | .ok r =>
            if r.ok then .ok ⟨toAsciiLowercase cn, (ClientCert.fromCert L cert).subjectDn⟩
            else if r.code = X509_V_ERR_CERT_HAS_EXPIRED then .error .certExpired
            else if r.code = X509_V_ERR_CERT_NOT_YET_VALID then .error .certNotYetValid
            else .error (.untrustedChain r.reason)

/-- What a certificate accepted by `verify_cert` has passed: it decodes to a certificate with a
Common Name, whose lowercased form passes the character check and the allowlist, and it chains
to the machine CA. -/
structure CertAccepted (m : MachineIdentity L) (certB64 : Str) (wall : SystemTime)
    (machine : VerifiedMachine) : Prop where
  cert : ∃ der x cn r, L.base64Decode (trim certB64) = some der ∧ L.fromDer der = some x ∧
    (ClientCert.fromCert L x).commonName = some cn ∧ machine.hostname = toAsciiLowercase cn ∧
    machine.subjectDn = (ClientCert.fromCert L x).subjectDn ∧ unsafeName cn = false ∧
    L.chainVerify m.store x wall = .ok r ∧ r.ok = true
  nameSafe : unsafeName machine.hostname = false
  nameAllowed : m.nameAllowed machine.hostname = true

theorem illegalInName_toLower {c : Char} (h : illegalInName c = false) :
    illegalInName c.toLower = false := by
  have hall : ∀ n < 128, illegalInName (Char.ofNat n) = false →
      illegalInName (Char.ofNat n).toLower = false := by decide
  have hlt : c.toNat < 128 := by
    simp only [illegalInName, Bool.or_eq_false_iff, decide_eq_false_iff_not] at h
    omega
  exact of_ascii (P := fun c => illegalInName c = false → illegalInName c.toLower = false) hlt
    hall h

theorem unsafeName_toAsciiLowercase {cn : Str} (h : unsafeName cn = false) :
    unsafeName (toAsciiLowercase cn) = false := by
  unfold unsafeName toAsciiLowercase at *
  simp only [Bool.or_eq_false_iff, List.isEmpty_eq_false_iff, List.any_eq_false,
    Bool.not_eq_true, List.mem_map, ne_eq, List.map_eq_nil_iff] at *
  refine ⟨h.1, ?_⟩
  rintro _ ⟨c, hc, rfl⟩
  exact illegalInName_toLower (h.2 c hc)

/-- **What `verify_cert` accepts.** -/
theorem verifyCert_ok_iff {m : MachineIdentity L} {certB64 : Str} {wall : SystemTime}
    {machine : VerifiedMachine} :
    m.verifyCert certB64 wall = .ok machine ↔ CertAccepted m certB64 wall machine := by
  constructor
  · intro h
    unfold MachineIdentity.verifyCert at h
    split at h
    · cases h
    · rename_i der hder
      split at h
      · cases h
      · rename_i x hx
        split at h
        · cases h
        · rename_i cn hcn
          split at h
          · cases h
          · rename_i hsafe
            split at h
            · cases h
            · rename_i hallowed
              split at h
              · cases h
              · rename_i r hr
                split at h
                · rename_i hok
                  cases h
                  simp only [Bool.not_eq_true] at hsafe
                  refine ⟨⟨der, x, cn, r, hder, hx, hcn, rfl, rfl, hsafe, hr, hok⟩, ?_, ?_⟩
                  · exact unsafeName_toAsciiLowercase hsafe
                  · simpa using hallowed
                · split at h
                  · cases h
                  · split at h <;> cases h
  · rintro ⟨⟨der, x, cn, r, hder, hx, hcn, hhost, hdn, hsafe, hr, hok⟩, _, hallowed⟩
    rw [hhost] at hallowed
    unfold MachineIdentity.verifyCert
    simp only [hder, hx, hcn, hsafe, hallowed, hr, hok, Bool.false_eq_true, if_false, if_true,
      Bool.true_eq_false]
    rw [← hhost, ← hdn]

/-- `verify_cert` never fails with an error of the DNS check. -/
theorem verifyCert_error_chain {m : MachineIdentity L} {certB64 : Str} {wall : SystemTime}
    {e : MachineError} (h : m.verifyCert certB64 wall = .error e) :
    e.chainVerified = false ∧ e ≠ .missing := by
  unfold MachineIdentity.verifyCert at h
  repeat' split at h
  all_goals first
    | (cases h; exact ⟨rfl, by simp⟩)
    | cases h

end Cert

/-! ## The DNS cache -/

/-- One cached lookup.  An empty `addrs` is a negative answer. -/
structure CacheEntry where
  addrs : List IpAddr
  fetched : Nat
  deriving DecidableEq

def CacheEntry.isNegative (e : CacheEntry) : Bool := e.addrs.isEmpty

/-- `HashMap<String, CacheEntry>`. -/
abbrev DnsCache := Str → Option CacheEntry

section Dns

variable {L : Crates}

/-- How long an entry is fresh. -/
def MachineIdentity.ttlOf (m : MachineIdentity L) (e : CacheEntry) : Nat :=
  if e.isNegative then m.dnsNegativeTtl else m.dnsTtl

/-- The fast path of `resolve_cached` at time `now`: a fresh entry, positive or negative. -/
def MachineIdentity.freshAnswer (m : MachineIdentity L) (cache : DnsCache) (host : Str)
    (now : Nat) : Option (List IpAddr) :=
  match cache host with
  | some entry => if now - entry.fetched < m.ttlOf entry then some entry.addrs else none
  | none => none

/-- What `resolve_cached` falls back to when the resolver fails: a positive entry within the
stale grace. -/
def MachineIdentity.staleAnswer (m : MachineIdentity L) (cache : DnsCache) (host : Str)
    (now : Nat) : Option (List IpAddr) :=
  match cache host with
  | some entry =>
    if entry.isNegative = false ∧ now - entry.fetched < m.dnsTtl + m.dnsStaleGrace then
      some entry.addrs
    else none
  | none => none

/-- `store`: drop the entries past the stale grace, each at its own reading of the clock, then
insert the answer at `now`. -/
def MachineIdentity.storeAnswer (m : MachineIdentity L) (cache : DnsCache) (host : Str)
    (addrs : List IpAddr) (sweep : Str → Nat) (now : Nat) : DnsCache :=
  Function.update
    (fun h => (cache h).filter fun e => decide (sweep h - e.fetched < m.dnsTtl + m.dnsStaleGrace))
    host (some ⟨addrs, now⟩)

/-- What one `verify` finds: the cache and the clock at its fast path, the resolver's answer,
and the cache and the clock when it stores the answer or falls back to a stale one. -/
structure DnsEnv where
  lookupCache : DnsCache
  lookupNow : Nat
  answer : Str → Except Unit (List IpAddr)
  laterCache : DnsCache
  sweep : Str → Nat
  laterNow : Nat

/-- What a lookup returned, the cache it left, and the names it asked the resolver for. -/
structure DnsOutcome (α : Type) where
  result : α
  cache : DnsCache
  queries : List Str

/-- `resolve_cached`. -/
def MachineIdentity.resolveCached (m : MachineIdentity L) (host : Str) (d : DnsEnv) :
    DnsOutcome (Option (List IpAddr)) :=
  match m.freshAnswer d.lookupCache host d.lookupNow with
  | some addrs => ⟨some addrs, d.lookupCache, []⟩
  | none =>
    match d.answer host with
    | .ok addrs => ⟨some addrs, m.storeAnswer d.laterCache host addrs d.sweep d.laterNow, [host]⟩
    | .error () => ⟨m.staleAnswer d.laterCache host d.laterNow, d.laterCache, [host]⟩

/-- The last step of `verify`: the address must be among the answers. -/
def checkAddress (machine : VerifiedMachine) (ip : IpAddr) :
    Option (List IpAddr) → Except MachineError VerifiedMachine
  | some addrs =>
    if ip ∈ addrs then .ok machine
    else if addrs.isEmpty then .error (.hostnameUnresolvable machine.hostname)
    else .error (.hostnameAddressMismatch machine.hostname ip)
  | none => .error (.hostnameUnresolvable machine.hostname)

/-- `verify`: the certificate, then the forward-DNS check of its name. -/
def MachineIdentity.verify (m : MachineIdentity L) (certB64 : Str) (clientIp : Option IpAddr)
    (wall : SystemTime) (d : DnsEnv) : DnsOutcome (Except MachineError VerifiedMachine) :=
  match clientIp with
  | none => ⟨.error .noClientAddress, d.lookupCache, []⟩
  | some ip =>
    match m.verifyCert certB64 wall with
    | .error e => ⟨.error e, d.lookupCache, []⟩
    | .ok machine =>
      let r := m.resolveCached machine.hostname d
      ⟨checkAddress machine ip r.result, r.cache, r.queries⟩

/-! ### What the cache reads return -/

/-- A fresh answer that holds an address is younger than the positive lifetime. -/
theorem freshAnswer_of_positive {m : MachineIdentity L} {cache : DnsCache} {host : Str}
    {now : Nat} {addrs : List IpAddr} {ip : IpAddr}
    (h : m.freshAnswer cache host now = some addrs) (hip : ip ∈ addrs) :
    ∃ t, cache host = some ⟨addrs, t⟩ ∧ now - t < m.dnsTtl := by
  unfold MachineIdentity.freshAnswer at h
  split at h
  · rename_i entry he
    split at h
    · rename_i hage
      cases h
      have hpos : entry.isNegative = false := by
        unfold CacheEntry.isNegative
        cases ha : entry.addrs with
        | nil => rw [ha] at hip; cases hip
        | cons _ _ => rfl
      unfold MachineIdentity.ttlOf at hage
      rw [hpos] at hage
      exact ⟨entry.fetched, he, by simpa using hage⟩
    · cases h
  · cases h

/-- A stale answer is a positive entry within the stale grace. -/
theorem staleAnswer_eq_some {m : MachineIdentity L} {cache : DnsCache} {host : Str} {now : Nat}
    {addrs : List IpAddr} (h : m.staleAnswer cache host now = some addrs) :
    ∃ t, cache host = some ⟨addrs, t⟩ ∧ addrs ≠ [] ∧
      now - t < m.dnsTtl + m.dnsStaleGrace := by
  unfold MachineIdentity.staleAnswer at h
  split at h
  · rename_i entry he
    split at h
    · rename_i hc
      cases h
      exact ⟨entry.fetched, he, by simpa [CacheEntry.isNegative] using hc.1, hc.2⟩
    · cases h
  · cases h

/-- An entry of the cache after a store is the new answer or one that was there before. -/
theorem storeAnswer_entry {m : MachineIdentity L} {cache : DnsCache} {host h : Str}
    {addrs : List IpAddr} {sweep : Str → Nat} {now : Nat} {e : CacheEntry}
    (he : m.storeAnswer cache host addrs sweep now h = some e) :
    (h = host ∧ e = ⟨addrs, now⟩) ∨ cache h = some e := by
  unfold MachineIdentity.storeAnswer at he
  by_cases hh : h = host
  · subst hh
    rw [Function.update_self] at he
    exact Or.inl ⟨rfl, (Option.some.inj he).symm⟩
  · rw [Function.update_of_ne hh] at he
    exact Or.inr (Option.filter_eq_some_iff.1 he).1

theorem checkAddress_ok_iff {machine machine' : VerifiedMachine} {ip : IpAddr}
    {r : Option (List IpAddr)} :
    checkAddress machine ip r = .ok machine' ↔
      machine' = machine ∧ ∃ addrs, r = some addrs ∧ ip ∈ addrs := by
  cases r with
  | none => simp [checkAddress]
  | some addrs =>
    unfold checkAddress
    by_cases h : ip ∈ addrs
    · simp [h, eq_comm]
    · dsimp only
      rw [if_neg h]
      by_cases h' : addrs.isEmpty = true
      · simp [h', h]
      · simp [h', h]

/-- A failure of the last step is one of the two forward-DNS failures. -/
theorem checkAddress_error {machine : VerifiedMachine} {ip : IpAddr}
    {r : Option (List IpAddr)} {e : MachineError} (h : checkAddress machine ip r = .error e) :
    e.chainVerified = true := by
  unfold checkAddress at h
  split at h
  · split at h
    · cases h
    · split at h
      · cases h; rfl
      · cases h; rfl
  · cases h; rfl

/-! ### The whole check -/

/-- **Where an accepted address comes from.** -/
theorem verify_ok_cases {m : MachineIdentity L} {certB64 : Str} {clientIp : Option IpAddr}
    {wall : SystemTime} {d : DnsEnv} {machine : VerifiedMachine}
    (h : (m.verify certB64 clientIp wall d).result = .ok machine) :
    ∃ ip addrs, clientIp = some ip ∧ m.verifyCert certB64 wall = .ok machine ∧ ip ∈ addrs ∧
      (m.freshAnswer d.lookupCache machine.hostname d.lookupNow = some addrs ∨
        d.answer machine.hostname = .ok addrs ∨
        (d.answer machine.hostname = .error () ∧
          m.staleAnswer d.laterCache machine.hostname d.laterNow = some addrs)) := by
  unfold MachineIdentity.verify at h
  split at h
  · cases h
  · rename_i ip
    split at h
    · cases h
    · rename_i machine' hcert
      obtain ⟨rfl, addrs, hr, hip⟩ := checkAddress_ok_iff.1 h
      refine ⟨ip, addrs, rfl, hcert, hip, ?_⟩
      unfold MachineIdentity.resolveCached at hr
      split at hr
      · rename_i a hf
        cases hr
        exact Or.inl hf
      · split at hr
        · rename_i a ha
          cases hr
          exact Or.inr (Or.inl ha)
        · rename_i ha
          exact Or.inr (Or.inr ⟨ha, hr⟩)

/-- Only the name of a certificate that passed `verify_cert` reaches the resolver. -/
theorem verify_queries {m : MachineIdentity L} {certB64 : Str} {clientIp : Option IpAddr}
    {wall : SystemTime} {d : DnsEnv} {host : Str}
    (h : host ∈ (m.verify certB64 clientIp wall d).queries) :
    ∃ machine, m.verifyCert certB64 wall = .ok machine ∧ machine.hostname = host := by
  unfold MachineIdentity.verify at h
  split at h
  · simp at h
  · split at h
    · simp at h
    · rename_i machine hcert
      refine ⟨machine, hcert, ?_⟩
      simp only [MachineIdentity.resolveCached] at h
      split at h
      · simp at h
      · split at h
        · simpa [eq_comm] using h
        · simpa [eq_comm] using h

/-- A refusal whose certificate had chained is a forward-DNS failure, and the other way
round. -/
theorem verify_error {m : MachineIdentity L} {certB64 : Str} {clientIp : Option IpAddr}
    {wall : SystemTime} {d : DnsEnv} {e : MachineError}
    (h : (m.verify certB64 clientIp wall d).result = .error e) :
    (e.chainVerified = true ∧ ∃ machine, m.verifyCert certB64 wall = .ok machine) ∨
      e.chainVerified = false := by
  unfold MachineIdentity.verify at h
  split at h
  · cases h; exact Or.inr rfl
  · split at h
    · rename_i hcert
      cases h
      exact Or.inr (verifyCert_error_chain hcert).1
    · rename_i machine hcert
      exact Or.inl ⟨checkAddress_error h, machine, hcert⟩

end Dns

end DenBrowser
