import DenBrowser.Proxy.Platform

/-!
# Certificate identities

`mtls`: the identity read from a certificate, shared by the client-certificate and the
machine-certificate layers.

* `ClientCert.matched_isSome_iff` — which certificates an allowlist admits.
-/

set_option autoImplicit false

namespace DenBrowser

variable (L : Crates)

/-- `char::is_control`. -/
def isControl (c : Char) : Bool := c.toNat < 32 || (127 ≤ c.toNat && c.toNat < 160)

/-- `{b:02X}` -/
def hexUpper (b : UInt8) : Str :=
  [Nat.digitChar (b.toNat / 16), Nat.digitChar (b.toNat % 16)].map Char.toUpper

/-- The loop of `escape_dn_value` at character `i`. -/
def escapeDnFrom (last : Nat) : Nat → Str → Str
  | _, [] => []
  | i, c :: cs =>
    (if c ∈ "\"+,;<>\\".toList then ['\\', c]
      else if c = '#' ∧ i = 0 then "\\#".toList
      else if c = ' ' ∧ (i = 0 ∨ i = last) then "\\ ".toList
      else if isControl c then (asBytes [c]).flatMap fun b => '\\' :: hexUpper b
      else [c]) ++ escapeDnFrom last (i + 1) cs

/-- `escape_dn_value`: one attribute value, escaped. -/
def escapeDnValue (value : Str) : Str := escapeDnFrom (value.length - 1) 0 value

def NameEntry.rdn (e : NameEntry) : Str :=
  e.shortName.getD e.oid ++ "=".toList ++ escapeDnValue (e.utf8.getD e.lossy)

/-- `distinguished_name`: a certificate name, most specific entry first. -/
def distinguishedName (name : List NameEntry) : Str :=
  ",".toList.intercalate (name.reverse.map NameEntry.rdn)

/-- `mtls::ClientCert`. -/
structure ClientCert where
  subjectDn : Str
  commonName : Option Str
  sanDns : List Str
  deriving DecidableEq

/-- The identity of a certificate. -/
def ClientCert.fromCert (cert : L.X509) : ClientCert where
  subjectDn := distinguishedName (L.subject cert)
  commonName := ((L.subject cert).find? NameEntry.isCommonName).bind NameEntry.utf8
  sanDns := ((L.subjectAltNames cert).getD []).filterMap id

/-- The first identity, Common Name preferred, that appears in `allowed`. -/
def ClientCert.matched (cert : ClientCert) (allowed : List Str) : Option Str :=
  match cert.commonName with
  | some cn => if allowed.contains cn then some cn else cert.sanDns.find? allowed.contains
  | none => cert.sanDns.find? allowed.contains

/-- The names a certificate is known by. -/
def ClientCert.names (cert : ClientCert) : List Str := cert.commonName.toList ++ cert.sanDns

theorem ClientCert.matched_isSome_iff {cert : ClientCert} {allowed : List Str} :
    (∃ s, cert.matched allowed = some s) ↔ ∃ n ∈ cert.names, n ∈ allowed := by
  have hfind : ∀ l : List Str,
      (∃ s, l.find? allowed.contains = some s) ↔ ∃ n ∈ l, n ∈ allowed := by
    intro l
    rw [← Option.isSome_iff_exists, List.find?_isSome]
    simp
  unfold ClientCert.matched ClientCert.names
  cases cert.commonName with
  | none => simpa using hfind cert.sanDns
  | some cn =>
    by_cases h : cn ∈ allowed
    · simp [h]
    · simpa [h] using hfind cert.sanDns

end DenBrowser
