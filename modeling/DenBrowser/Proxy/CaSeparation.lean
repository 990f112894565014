import DenBrowser.Lib.Pki
import DenBrowser.Proxy.Forwarding

/-!
# The two certificate authorities

`mtls::Mtls::from_config`, `machine::MachineIdentity::from_config` and the check of `main` that
the two bundles share no authority, with path validation as in `Pki`.

* `startCas_ok` — what a startup that does not abort has checked;
* `separated_iff` — when no certificate passes both layers;
* `separated_of_roots` — the check is enough for bundles of roots without intermediates;
* `verifyCert_apart` — then no certificate that `verify_cert` accepts chains to `client_ca`.
-/

set_option autoImplicit false

namespace DenBrowser

open Pki

/-! ## Startup -/

/-- `config::MtlsConfig`. -/
structure MtlsConfig where
  enabled : Bool
  clientCa : Str

/-- `config::MachineIdentityConfig`. -/
structure MachineIdentityConfig where
  enabled : Bool
  machineCa : Str
  required : Bool
  allowedHostnames : List Str
  dnsTtlSecs : Nat
  dnsNegativeTtlSecs : Nat
  dnsStaleGraceSecs : Nat
  partialChain : Bool

/-- `mtls::Mtls`. -/
structure Mtls (L : Crates) where
  caPath : Str
  caCerts : List L.X509

/-- `machine::MachineIdentity` with the certificates it keeps for the check of `main`. -/
structure MachineCas (L : Crates) where
  identity : MachineIdentity L
  caCerts : List L.X509

/-- What the two layers are built with; errors are texts. -/
structure CaBuilders (L : Crates) (Name Key : Type) where
  /-- `std::fs::read`. -/
  read : Str → Except Str Bytes
  /-- `X509::stack_from_pem`. -/
  stackFromPem : Bytes → Except Str (List L.X509)
  /-- What path validation reads of a certificate. -/
  view : L.X509 → Certificate Name Key
  /-- The store of the certificates, with `PARTIAL_CHAIN` or without. -/
  store : List L.X509 → Bool → Except Str L.X509Store
  /-- `Glob::new` with `compile_matcher`. -/
  glob : Str → Except Str L.GlobMatcher

section Startup

variable {L : Crates} {Name Key : Type} (B : CaBuilders L Name Key)

/-- The bundle of a section's setting: `name` is what the errors call it. -/
def caBundle (unset name path : Str) : Except Str (List L.X509) :=
  if path.isEmpty then .error unset
  else
    match B.read path with
    | .error e => .error ("cannot read ".toList ++ name ++ " ".toList ++ path ++ ": ".toList ++ e)
    | .ok pem =>
      match B.stackFromPem pem with
      | .error e =>
        .error ("cannot parse ".toList ++ name ++ " ".toList ++ path ++ ": ".toList ++ e)
      | .ok cas =>
        if cas.isEmpty then
          .error (name ++ " ".toList ++ path ++ " contains no certificates".toList)
        else .ok cas

/-- `Mtls::from_config`. -/
def Mtls.fromConfig (cfg : MtlsConfig) : Except Str (Option (Mtls L)) :=
  if cfg.enabled = false then .ok none
  else
    match caBundle B "mtls is enabled but client_ca is not set".toList "mtls client_ca".toList
        cfg.clientCa with
    | .error e => .error e
    | .ok cas => .ok (some ⟨cfg.clientCa, cas⟩)

/-- The loop that compiles `allowed_hostnames`. -/
def compileHostnames : List Str → Except Str (List L.GlobMatcher)
  | [] => .ok []
  | pattern :: rest =>
    if pattern ≠ toAsciiLowercase pattern then
      .error ("machine_identity allowed_hostnames pattern ".toList ++ debugStr pattern ++
        (" must be lowercase (the certificate Common Name is lowercased before " ++
          "matching)").toList)
    else
      match B.glob pattern with
      | .error e =>
        .error ("invalid machine_identity allowed_hostnames pattern ".toList ++
          debugStr pattern ++ ": ".toList ++ e)
      | .ok matcher =>
        match compileHostnames rest with
        | .error e => .error e
        | .ok matchers => .ok (matcher :: matchers)

/-- `MachineIdentity::from_config`. -/
def MachineCas.fromConfig (cfg : MachineIdentityConfig) : Except Str (Option (MachineCas L)) :=
  if cfg.enabled = false then .ok none
  else
    match caBundle B "machine_identity is enabled but machine_ca is not set".toList
        "machine_identity machine_ca".toList cfg.machineCa with
    | .error e => .error e
    | .ok cas =>
      match B.store cas cfg.partialChain with
      | .error e => .error e
      | .ok store =>
        match compileHostnames B cfg.allowedHostnames with
        | .error e => .error e
        | .ok allowed =>
          .ok (some
            { identity :=
                { store := store
                  allowed := allowed
                  required := cfg.required
                  dnsTtl := cfg.dnsTtlSecs * NANOS
                  dnsNegativeTtl := cfg.dnsNegativeTtlSecs * NANOS
                  dnsStaleGrace := cfg.dnsStaleGraceSecs * NANOS }
              caCerts := cas })

variable [DecidableEq Name] [DecidableEq Key]

/-- `a.public_eq(&b)`, and `false` when a key does not decode. -/
def publicEq (a b : Certificate Name Key) : Bool :=
  match a.key with
  | none => false
  | some x =>
    match b.key with
    | none => false
    | some y => x = y

/-- The two certificates carry one subject and one key. -/
def overlaps (userCa machineCa : L.X509) : Bool :=
  decide ((B.view userCa).subject = (B.view machineCa).subject) &&
    publicEq (B.view userCa) (B.view machineCa)

/-- The two layers as `main` starts them; an error is the text it aborts with. -/
def startCas (mtlsCfg : MtlsConfig) (machineCfg : MachineIdentityConfig) :
    Except Str (Option (Mtls L) × Option (MachineCas L)) :=
  match Mtls.fromConfig B mtlsCfg with
  | .error e => .error ("invalid mtls config: ".toList ++ e)
  | .ok mtls =>
    match MachineCas.fromConfig B machineCfg with
    | .error e => .error ("invalid machine_identity config: ".toList ++ e)
    | .ok machine =>
      match mtls, machine with
      | some m, some mi =>
        if m.caCerts.any fun userCa => mi.caCerts.any fun machineCa => overlaps B userCa machineCa
        then .error (("[mtls].client_ca and [machine_identity].machine_ca share a certificate — " ++
          "the user and machine identities must be issued by different CAs so they " ++
          "can be told apart").toList)
        else .ok (some m, some mi)
      | mtls, machine => .ok (mtls, machine)

end Startup

/-! ## What a startup has checked -/

section Checked

variable {L : Crates} {Name Key : Type} {B : CaBuilders L Name Key}

theorem caBundle_ok {unset name path : Str} {cas : List L.X509}
    (h : caBundle B unset name path = .ok cas) : cas ≠ [] := by
  unfold caBundle at h
  split at h
  · cases h
  · split at h
    · cases h
    · split at h
      · cases h
      · split at h
        · cases h
        · rename_i hne
          cases h
          simpa using hne

theorem mtls_fromConfig_some {cfg : MtlsConfig} {m : Mtls L}
    (h : Mtls.fromConfig B cfg = .ok (some m)) : m.caPath = cfg.clientCa ∧ m.caCerts ≠ [] := by
  unfold Mtls.fromConfig at h
  split at h
  · cases h
  · split at h
    · cases h
    · rename_i hbundle
      cases h
      exact ⟨rfl, caBundle_ok hbundle⟩

theorem machine_fromConfig_some {cfg : MachineIdentityConfig} {mi : MachineCas L}
    (h : MachineCas.fromConfig B cfg = .ok (some mi)) :
    mi.caCerts ≠ [] ∧ B.store mi.caCerts cfg.partialChain = .ok mi.identity.store := by
  unfold MachineCas.fromConfig at h
  split at h
  · cases h
  · split at h
    · cases h
    · rename_i hbundle
      split at h
      · cases h
      · rename_i hstore
        split at h
        · cases h
        · cases h
          exact ⟨caBundle_ok hbundle, hstore⟩

variable [DecidableEq Name] [DecidableEq Key]

omit [DecidableEq Name] in
theorem publicEq_iff {a b : Certificate Name Key} :
    publicEq a b = true ↔ ∃ k, a.key = some k ∧ b.key = some k := by
  unfold publicEq
  cases ha : a.key with
  | none => simp
  | some x =>
    cases hb : b.key with
    | none => simp
    | some y => simp [eq_comm]

theorem overlaps_iff {userCa machineCa : L.X509} :
    overlaps B userCa machineCa = true ↔
      SameAuthority (B.view userCa) (B.view machineCa) := by
  unfold overlaps SameAuthority
  rw [Bool.and_eq_true, decide_eq_true_iff, publicEq_iff]

/-- What a startup with both layers has checked. -/
structure Started (B : CaBuilders L Name Key) (mtlsCfg : MtlsConfig)
    (machineCfg : MachineIdentityConfig) (m : Mtls L) (mi : MachineCas L) : Prop where
  path : m.caPath = mtlsCfg.clientCa
  users : m.caCerts ≠ []
  machines : mi.caCerts ≠ []
  store : B.store mi.caCerts machineCfg.partialChain = .ok mi.identity.store
  distinct : ∀ a ∈ m.caCerts, ∀ b ∈ mi.caCerts, ¬SameAuthority (B.view a) (B.view b)

/-- **A startup that does not abort.** -/
theorem startCas_ok {mtlsCfg : MtlsConfig} {machineCfg : MachineIdentityConfig} {m : Mtls L}
    {mi : MachineCas L} (h : startCas B mtlsCfg machineCfg = .ok (some m, some mi)) :
    Started B mtlsCfg machineCfg m mi := by
  unfold startCas at h
  split at h
  · cases h
  · rename_i mtls hmtls
    split at h
    · cases h
    · rename_i machine hmachine
      split at h
      · split at h
        · cases h
        · rename_i hnone
          cases h
          obtain ⟨hpath, husers⟩ := mtls_fromConfig_some hmtls
          obtain ⟨hmachines, hstore⟩ := machine_fromConfig_some hmachine
          refine ⟨hpath, husers, hmachines, hstore, fun a ha b hb hsame => hnone ?_⟩
          exact List.any_eq_true.2 ⟨a, ha, List.any_eq_true.2 ⟨b, hb, overlaps_iff.2 hsame⟩⟩
      · rename_i hsome
        cases h
        exact absurd rfl (hsome m mi rfl)

end Checked

/-! ## The two layers -/

section Layers

variable {L : Crates} {Name Key : Type} (B : CaBuilders L Name Key)

/-- What `set_ca_file` installs: only roots are anchors. -/
def Mtls.trust (m : Mtls L) : TrustStore Name Key := ⟨m.caCerts.map B.view, false⟩

/-- The store `verify_cert` reads. -/
def MachineCas.trust (mi : MachineCas L) (partialChain : Bool) : TrustStore Name Key :=
  ⟨mi.caCerts.map B.view, partialChain⟩

/-- No certificate passes both layers, when the client supplies the intermediates `chain` in the
handshake; the machine layer is given a bare leaf. -/
def Separated (m : Mtls L) (mi : MachineCas L) (partialChain : Bool)
    (chain : List (Certificate Name Key)) : Prop :=
  Apart (m.trust B) chain (mi.trust B partialChain) []

variable {B} {mtlsCfg : MtlsConfig} {machineCfg : MachineIdentityConfig} {m : Mtls L}
  {mi : MachineCas L} {partialChain : Bool}

section Started

variable [DecidableEq Name] [DecidableEq Key]

/-- **CA separation.**  No certificate passes both layers iff no `machine_ca` certificate that
the machine layer trusts chains to `client_ca`, under itself or under an intermediate that carries
its subject and key. -/
theorem separated_iff (h : startCas B mtlsCfg machineCfg = .ok (some m, some mi))
    (chain : List (Certificate Name Key)) :
    Separated B m mi machineCfg.partialChain chain ↔
      ∀ ca ∈ mi.caCerts, Chains (mi.trust B machineCfg.partialChain) [] (B.view ca) →
        ¬Chains (m.trust B) chain (B.view ca) ∧
          ∀ q ∈ chain, SameAuthority q (B.view ca) → ¬Chains (m.trust B) chain q := by
  have hdistinct := (startCas_ok h).distinct
  unfold Separated
  rw [apart_iff rfl]
  constructor
  · intro hissuers ca hca htrusted
    obtain ⟨hself, hothers⟩ := hissuers (B.view ca) (List.mem_map_of_mem hca) htrusted
    exact ⟨hself, fun q hq => hothers q (List.mem_append_left _ hq)⟩
  · intro hcas p hp htrusted
    obtain ⟨ca, hca, rfl⟩ := List.mem_map.1 hp
    obtain ⟨hself, hchain⟩ := hcas ca hca htrusted
    refine ⟨hself, fun q hq hsame => ?_⟩
    obtain hq | hq := List.mem_append.1 hq
    · exact hchain q hq hsame
    · -- the check of `main` rules out the members of `client_ca`
      obtain ⟨userCa, huserCa, rfl⟩ := List.mem_map.1 hq
      exact absurd hsame (hdistinct userCa huserCa ca hca)

/-- **Where the check is enough**: without `partial_chain`, for clients that supply no
intermediates. -/
theorem separated_of_roots (h : startCas B mtlsCfg machineCfg = .ok (some m, some mi))
    (hroots : machineCfg.partialChain = false) :
    Separated B m mi machineCfg.partialChain [] := by
  have hdistinct := (startCas_ok h).distinct
  rintro c ⟨huser, hmachine⟩
  obtain ⟨q, hq, hqc, -⟩ := huser.exists_issuer rfl
  obtain ⟨p, hp, hpc, -⟩ := hmachine.exists_issuer hroots
  obtain ⟨userCa, huserCa, rfl⟩ := List.mem_map.1 hq
  obtain ⟨ca, hca, rfl⟩ := List.mem_map.1 hp
  exact hdistinct userCa huserCa ca hca (sameAuthority_iff.2 ⟨c, hqc, hpc⟩)

end Started

/-- `X509_verify_cert` accepts a bare leaf only if it chains to the store. -/
def StoresSound (B : CaBuilders L Name Key) : Prop :=
  ∀ cas partialChain store, B.store cas partialChain = .ok store → ∀ x wall r,
    L.chainVerify store x wall = .ok r → r.ok = true →
      Chains ⟨cas.map B.view, partialChain⟩ [] (B.view x)

/-- **Of separate layers**, the machine layer accepts no certificate that chains to
`client_ca`. -/
theorem verifyCert_apart (hsound : StoresSound B)
    (hstore : B.store mi.caCerts partialChain = .ok mi.identity.store)
    {chain : List (Certificate Name Key)} (hseparated : Separated B m mi partialChain chain)
    {certB64 : Str} {wall : SystemTime} {machine : VerifiedMachine}
    (h : mi.identity.verifyCert certB64 wall = .ok machine) :
    ∃ der x, L.base64Decode (trim certB64) = some der ∧ L.fromDer der = some x ∧
      ¬Chains (m.trust B) chain (B.view x) := by
  obtain ⟨der, x, cn, r, hder, hx, -, -, -, -, hr, hok⟩ := (verifyCert_ok_iff.1 h).cert
  refine ⟨der, x, hder, hx, fun huser => hseparated (B.view x) ⟨huser, ?_⟩⟩
  exact hsound _ _ _ hstore x wall r hr hok

end Layers

/-! ## Two deployments -/

section Corp

def corpRoot : Certificate Str Nat := ⟨"CN=Corp Root".toList, "CN=Corp Root".toList, some 1, 1⟩

/-- The issuing authority of the machine certificates. -/
def corpMachineCa : Certificate Str Nat :=
  ⟨"CN=Corp Machine CA".toList, "CN=Corp Root".toList, some 2, 1⟩

/-- A workstation's certificate. -/
def corpWorkstation : Certificate Str Nat :=
  ⟨"CN=ws1.corp.example.com".toList, "CN=Corp Machine CA".toList, some 3, 2⟩

/-- A root of its own for the machines. -/
def machineRoot : Certificate Str Nat :=
  ⟨"CN=Machine Root".toList, "CN=Machine Root".toList, some 4, 4⟩

/-- Certificates without validity dates, and a store that searches for a path of ten issuers. -/
def corpCrates : Crates :=
  { workstationCrates with
    X509 := Certificate Str Nat
    X509Store := TrustStore Str Nat
    fromDer := fun _ => none
    subject := fun _ => []
    subjectAltNames := fun _ => none
    chainVerify := fun store c _ =>
      if chainsWithin store [] 10 c then .ok ⟨true, 0, "ok".toList⟩
      else .ok ⟨false, 20, "unable to get local issuer certificate".toList⟩ }

/-- Each file holds the certificate it is named after. -/
def corpBuilders : CaBuilders corpCrates Str Nat where
  read path := .ok (asBytes path)
  stackFromPem pem :=
    .ok ([corpRoot, corpMachineCa, machineRoot].filter fun c => asBytes c.subject = pem)
  view c := c
  store cas partialChain := .ok ⟨cas, partialChain⟩
  glob pattern := .ok pattern

theorem corpBuilders_sound : StoresSound corpBuilders := by
  intro cas partialChain store hstore x wall r hr hok
  cases hstore
  rw [show cas.map corpBuilders.view = cas from List.map_id cas]
  by_cases hchains : chainsWithin ⟨cas, partialChain⟩ [] 10 x = true
  · exact chainsWithin_sound hchains
  · replace hr := (if_neg hchains).symm.trans hr
    cases hr
    cases hok

def corpMtls : MtlsConfig := ⟨true, "CN=Corp Root".toList⟩

def corpMachine (machineCa : Str) (partialChain : Bool) : MachineIdentityConfig where
  enabled := true
  machineCa := machineCa
  required := true
  allowedHostnames := []
  dnsTtlSecs := 14400
  dnsNegativeTtlSecs := 30
  dnsStaleGraceSecs := 3600
  partialChain := partialChain

def corpUsers : Mtls corpCrates := ⟨"CN=Corp Root".toList, [corpRoot]⟩

def corpMachines (ca : Certificate Str Nat) (partialChain : Bool) : MachineCas corpCrates where
  identity := ⟨⟨[ca], partialChain⟩, [], true, 14400 * NANOS, 30 * NANOS, 3600 * NANOS⟩
  caCerts := [ca]

/-- With a root of their own for the machines, a user authority that the client supplies does not
join the layers. -/
theorem separated_iff_machineRoot :
    Separated corpBuilders corpUsers (corpMachines machineRoot false) false [corpMachineCa] := by
  have hstart : startCas corpBuilders corpMtls (corpMachine "CN=Machine Root".toList false) =
      .ok (some corpUsers, some (corpMachines machineRoot false)) := rfl
  refine (separated_iff hstart [corpMachineCa]).2 ?_
  intro ca hca _
  obtain rfl := List.mem_singleton.1 hca
  refine ⟨fun hchains => ?_, fun q hq hsame => ?_⟩
  · obtain ⟨q, hq, hissues, -⟩ := hchains.exists_issuer rfl
    revert hissues
    revert q
    decide
  · obtain rfl := List.mem_singleton.1 hq
    exact absurd hsame.1 (by decide)

/-- `machine_ca` is an authority that the root of `client_ca` issued. -/
theorem issuing_ca_not_separated :
    startCas corpBuilders corpMtls (corpMachine "CN=Corp Machine CA".toList true) =
        .ok (some corpUsers, some (corpMachines corpMachineCa true)) ∧
      Chains (corpUsers.trust corpBuilders) [corpMachineCa] corpWorkstation ∧
      Chains ((corpMachines corpMachineCa true).trust corpBuilders true) [] corpWorkstation ∧
      ¬Separated corpBuilders corpUsers (corpMachines corpMachineCa true) true
        [corpMachineCa] := by
  have huser : chainsWithin (corpUsers.trust corpBuilders) [corpMachineCa] 2 corpWorkstation =
      true := by decide
  have hmachine : chainsWithin ((corpMachines corpMachineCa true).trust corpBuilders true) [] 1
      corpWorkstation = true := by decide
  have hboth := And.intro (chainsWithin_sound huser) (chainsWithin_sound hmachine)
  exact ⟨rfl, hboth.1, hboth.2, fun hseparated => hseparated _ hboth⟩

end Corp

end DenBrowser
