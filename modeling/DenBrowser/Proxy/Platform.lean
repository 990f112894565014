import DenBrowser.Proxy.Attest

/-!
# Addresses and third-party crates

Socket addresses with the text `IpAddr` is displayed as, and `Crates`, the third-party crates
the proxy is built on: `ipnet`, `globset`, `pingora_limits` and `openssl`, beside the
primitives of token verification.  Nothing is assumed about them.
-/

set_option autoImplicit false

namespace DenBrowser

/-- `std::net::IpAddr`. -/
inductive IpAddr where
  | v4 (octets : List.Vector UInt8 4)
  | v6 (segments : List.Vector UInt16 8)
  deriving DecidableEq

/-- `std::net::SocketAddr`. -/
structure SocketAddr where
  ip : IpAddr
  port : UInt16
  deriving DecidableEq

/-! ## Display -/

def showV4 (octets : List UInt8) : Str :=
  ".".toList.intercalate (octets.map fun b => showInt b.toNat)

/-- `{:x}` of a segment. -/
def showSegment (s : UInt16) : Str := Nat.toDigits 16 s.toNat

def showSegments (ss : List UInt16) : Str := ":".toList.intercalate (ss.map showSegment)

/-- The first longest run of zero segments, as its start and length. -/
def longestZeros (start : Nat) : List UInt16 → Nat × Nat
  | [] => (0, 0)
  | s :: ss =>
    let here := ((s :: ss).takeWhile (· == 0)).length
    let later := longestZeros (start + 1) ss
    if here ≠ 0 ∧ later.2 ≤ here then (start, here) else later

/-- `Ipv6Addr`'s `Display`: an IPv4-mapped address in dotted form, otherwise the longest run of
at least two zero segments compressed. -/
def showV6 (segments : List UInt16) : Str :=
  match segments with
  | [0, 0, 0, 0, 0, 0xffff, h, l] =>
    "::ffff:".toList ++ showV4 [(h >>> 8).toUInt8, h.toUInt8, (l >>> 8).toUInt8, l.toUInt8]
  | _ =>
    let zeros := longestZeros 0 segments
    if 1 < zeros.2 then
      showSegments (segments.take zeros.1) ++ "::".toList ++
        showSegments (segments.drop (zeros.1 + zeros.2))
    else showSegments segments

def IpAddr.show : IpAddr → Str
  | .v4 octets => showV4 octets.toList
  | .v6 segments => showV6 segments.toList

example : (IpAddr.v6 ⟨[0x2001, 0xdb8, 0, 0, 1, 0, 0, 0], rfl⟩).show =
    "2001:db8:0:0:1::".toList := by decide

/-! ## Third-party crates -/

/-- An entry of a certificate name, as `openssl` presents it. -/
structure NameEntry where
  /-- The short name of a known attribute type. -/
  shortName : Option Str
  /-- The dotted object identifier. -/
  oid : Str
  isCommonName : Bool
  /-- The value, when it converts to UTF-8. -/
  utf8 : Option Str
  /-- The raw value read as UTF-8 with replacement characters. -/
  lossy : Str

/-- What chain verification of a certificate reports. -/
structure ChainResult where
  ok : Bool
  code : Int
  reason : Str

structure Crates extends Crypto where
  /-- `ipnet`: a CIDR range. -/
  IpNet : Type
  netContains : IpNet → IpAddr → Bool
  /-- `globset`: a compiled pattern. -/
  GlobMatcher : Type
  isMatch : GlobMatcher → Str → Bool
  /-- `pingora_limits`: an estimator, and its state and count after `observe(key, 1)` at a
  monotonic time. -/
  Rate : Type
  observe : Rate → IpAddr → Nat → Rate × Int
  /-- `openssl`: a certificate and a trust store. -/
  X509 : Type
  X509Store : Type
  fromDer : Bytes → Option X509
  /-- The subject name's entries, in certificate order. -/
  subject : X509 → List NameEntry
  /-- The subjectAltName extension's entries: DNS names, and `none` for the other kinds. -/
  subjectAltNames : X509 → Option (List (Option Str))
  /-- Verify a bare leaf against a store at a wall-clock time; an `openssl` error stack as
  text otherwise. -/
  chainVerify : X509Store → X509 → SystemTime → Except Str ChainResult

end DenBrowser
