import DenBrowser.Browser.ProxyTable
import DenBrowser.Lockdown.LockPref

/-!
# The site configuration

`config/site-config.json` as the build reads it: a value of Python that `json.load` gives.  The
entries of `proxies` name files with key material, which the build resolves against the
repository.

* `rawEntry` — an element of `proxies`, as far as the checks of the build go;
* `rawEntry_pin` — a pin is a SHA-256 digest.
-/

set_option autoImplicit false

namespace DenBrowser.SiteConfig

open Lockdown ProxyTable

/-! ## Values -/

/-- A string of a JSON document.  An escape may bring in a surrogate without its pair, which no
UTF-8 file can hold. -/
inductive JsonString
  | text (s : Str)
  | surrogate
  deriving DecidableEq

/-- A value of Python that `json.load` gives; a dictionary has no key twice. -/
inductive Json
  | null
  | bool (b : Bool)
  /-- A number, whether it is zero, and how it is formatted. -/
  | number (zero : Bool) (text : Str)
  | str (s : JsonString)
  | list (items : List Json)
  | dict (fields : List (JsonString × Json))

/-- `value.get(key)`, on a dictionary. -/
def lookup (fields : List (JsonString × Json)) (key : String) : Option Json :=
  (fields.find? fun f => f.1 == .text key.toList).map Prod.snd

/-- What `if value` asks. -/
def Json.truthy : Json → Bool
  | .null => false
  | .bool b => b
  | .number zero _ => !zero
  | .str s => s != .text []
  | .list items => !items.isEmpty
  | .dict fields => !fields.isEmpty

/-- A text that is not empty. -/
def nonEmptyText (value : Option Json) : Option Str :=
  match value with
  | some (.str (.text [])) => none
  | some (.str (.text s)) => some s
  | _ => none

/-! ## Key material -/

/-- A SHA-256 digest. -/
abbrev Digest := { bytes : Bytes // bytes.length = 32 }

/-- What is outside of the script: the files, `openssl` with `hashlib`, and `base64`. -/
structure Tools where
  rootDir : Str
  /-- The content of a file. -/
  file : Str → Option Bytes
  /-- The digest of the public key of a certificate file. -/
  spkiSha256 : Str → Option Digest
  /-- `base64.b64decode(text, validate=True)`. -/
  b64decode : Str → Option Bytes

/-- `os.path.join(dir, name)`, of a relative name. -/
def join (dir name : Str) : Str :=
  if dir = [] ∨ dir.getLast? = some '/' then dir ++ name else dir ++ '/' :: name

/-- `resolve`: the path of a file that is there. -/
def resolve (t : Tools) (value : Str) : Option Str :=
  let path :=
    if value.head? = some '/' then value
    else if '/' ∈ value then join t.rootDir value
    else join (join t.rootDir "build".toList) value
  if (t.file path).isSome then some path else none

def isHex (c : Char) : Bool := c.isDigit || ('a' ≤ c && c ≤ 'f') || ('A' ≤ c && c ≤ 'F')

def hexDigit (c : Char) : Nat :=
  if c.isDigit then c.toNat - 48 else if 'a' ≤ c then c.toNat - 87 else c.toNat - 55

/-- `bytes.fromhex`, of hexadecimal digits. -/
def fromHex : Str → Bytes
  | c :: d :: s => UInt8.ofNat (16 * hexDigit c + hexDigit d) :: fromHex s
  | _ => []

theorem length_fromHex : ∀ {n : Nat} {s : Str}, s.length = 2 * n → (fromHex s).length = n := by
  intro n
  induction n with
  | zero =>
    intro s h
    rw [List.length_eq_zero_iff.1 h]
    rfl
  | succ n ih =>
    intro s h
    match s with
    | [] => cases h
    | [_] => simp at h; omega
    | c :: d :: s =>
      rw [fromHex, List.length_cons, ih (by simp only [List.length_cons] at h; omega)]

/-- `spki_sha256_from_literal`. -/
def spkiSha256FromLiteral (t : Tools) (value : Str) : Option Digest :=
  let stripped := value.filter fun c => !(isSpace c || c == ':')
  if h : stripped.length = 64 ∧ stripped.all isHex then
    some ⟨fromHex stripped, length_fromHex h.1⟩
  else
    match t.b64decode stripped with
    | none => none
    | some raw => if h : raw.length = 32 then some ⟨raw, h⟩ else none

/-- The pin of an entry; the outer `none` ends the build. -/
def pinOf (t : Tools) (fields : List (JsonString × Json)) : Option (Option Digest) :=
  let cert := (lookup fields "tls_cert").getD .null
  let spki := (lookup fields "tls_spki_sha256").getD .null
  if cert.truthy && spki.truthy then none
  else if cert.truthy then
    match cert with
    | .str (.text value) => ((resolve t value).bind t.spkiSha256).map some
    | _ => none
  else if spki.truthy then
    match spki with
    | .str (.text value) => (spkiSha256FromLiteral t value).map some
    | _ => none
  else some none

/-- An element of `proxies`; it has to be an object. -/
def rawEntry (t : Tools) (value : Json) : Option RawEntry :=
  match value with
  | .dict fields => some {
      name := nonEmptyText (lookup fields "name")
      domains := match lookup fields "domains" with
        | some (.list items) => some (items.map fun item =>
            match item with
            | .str (.text s) => some s
            | _ => none)
        | _ => none
      keyDer := ((nonEmptyText (lookup fields "attest_key")).bind (resolve t)).bind t.file
      pin := (pinOf t fields).map fun pin => pin.map Subtype.val }
  | _ => none

/-- The elements of `proxies`. -/
def rawEntries (t : Tools) : List Json → Option (List RawEntry)
  | [] => some []
  | value :: rest =>
    match rawEntry t value with
    | none => none
    | some raw => (rawEntries t rest).map fun raws => raw :: raws

/-- Every pin is a SHA-256 digest. -/
def HasDigests (raws : List RawEntry) : Prop :=
  ∀ raw ∈ raws, ∀ pin, raw.pin = some (some pin) → pin.length = 32

theorem rawEntry_pin {t : Tools} {value : Json} {raw : RawEntry}
    (h : rawEntry t value = some raw) {pin : Bytes} (hpin : raw.pin = some (some pin)) :
    pin.length = 32 := by
  cases value with
  | dict fields =>
    cases h
    obtain ⟨digest, _, heq⟩ := Option.map_eq_some_iff.1 hpin
    obtain ⟨d, _, rfl⟩ := Option.map_eq_some_iff.1 heq
    exact d.2
  | _ => cases h

theorem rawEntries_digests {t : Tools} : ∀ {values : List Json} {raws : List RawEntry},
    rawEntries t values = some raws → HasDigests raws := by
  intro values
  induction values with
  | nil =>
    intro raws h
    cases h
    intro raw hraw
    cases hraw
  | cons value rest ih =>
    intro raws h
    rw [rawEntries] at h
    cases hraw : rawEntry t value with
    | none =>
      rw [hraw] at h
      cases h
    | some raw =>
      rw [hraw] at h
      obtain ⟨raws', hrest, rfl⟩ := Option.map_eq_some_iff.1 h
      intro r hr pin hpin
      rcases List.mem_cons.1 hr with rfl | hr
      · exact rawEntry_pin hraw hpin
      · exact ih hrest r hr pin hpin

end DenBrowser.SiteConfig
