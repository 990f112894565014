import DenBrowser.Proxy.Audit

/-!
# Request heads and bodies

What `request_filter` reads of a request: header values, the host the token binds, the audit
message for a partial set of headers, and the loop that buffers a bound body.

* `headerStr_containsKey` — a readable header is present;
* `readBody_eq` — what the body loop ends with, in terms of the whole chunk sequence.
-/

set_option autoImplicit false

namespace DenBrowser

/-- Maximum bytes of a bound (hash-verified) request body. -/
def BOUND_BODY_MAX : Nat := 64 * 1024

def MACHINE_CERT_HEADER : Str := "x-denbrowser-machine-cert".toList

def TS_HEADER : Str := "x-denbrowser-ts".toList

def NONCE_HEADER : Str := "x-denbrowser-nonce".toList

def TOKEN_HEADER : Str := "x-denbrowser-token".toList

def HOST_HEADER : Str := "host".toList

def ATTESTATION_HEADERS : List Str := [TS_HEADER, NONCE_HEADER, TOKEN_HEADER]

/-- `http::HeaderMap`, in order of arrival; names are lowercase. -/
abbrev HeaderMap := List (Str × Bytes)

/-- The first value of a header. -/
def HeaderMap.get (headers : HeaderMap) (name : Str) : Option Bytes :=
  (headers.find? fun h => h.1 == name).map Prod.snd

def HeaderMap.containsKey (headers : HeaderMap) (name : Str) : Bool :=
  headers.any fun h => h.1 == name

/-- `header_str`. -/
def headerStr (headers : HeaderMap) (name : Str) : Option Str :=
  (headers.get name).bind toStr

/-- A request as pingora presents it: its head, the body chunks it reads, and the type of the
error the last read ended in, if any. -/
structure Request where
  method : Str
  headers : HeaderMap
  authority : Option Str
  pathAndQuery : Option Str
  chunks : List Bytes
  readError : Option Str

def Request.path (r : Request) : Str := r.pathAndQuery.getD "/".toList

/-- The whole body, as far as it was read. -/
def Request.body (r : Request) : Bytes := r.chunks.flatten

/-- `request_host`: the `Host` header, otherwise the URI's authority, up to the first `:`. -/
def requestHost (r : Request) : Option Str :=
  ((headerStr r.headers HOST_HEADER).or r.authority).map fun a => a.takeWhile (· != ':')

/-- `describe_incomplete`. -/
def describeIncomplete (headers : HeaderMap) (hasHost machinePresent : Bool) : Str :=
  if machinePresent && !ATTESTATION_HEADERS.any headers.containsKey then
    "machine certificate sent without any attestation headers".toList
  else
    let unusable := ATTESTATION_HEADERS.filter fun h => (headerStr headers h).isNone
    let problems :=
      (if unusable.isEmpty then []
        else ["missing or unreadable: ".toList ++ ", ".toList.intercalate unusable]) ++
      (if hasHost then [] else ["no Host header or :authority".toList])
    "incomplete attestation headers (".toList ++ "; ".toList.intercalate problems ++ ")".toList

example : describeIncomplete [(TS_HEADER, [48])] false false =
    ("incomplete attestation headers (missing or unreadable: x-denbrowser-nonce, " ++
      "x-denbrowser-token; no Host header or :authority)").toList := by decide +kernel

/-- A readable header is present. -/
theorem headerStr_containsKey {headers : HeaderMap} {name s : Str}
    (h : headerStr headers name = some s) : headers.containsKey name = true := by
  obtain ⟨v, hv, _⟩ := Option.bind_eq_some_iff.1 h
  obtain ⟨e, he, _⟩ := Option.map_eq_some_iff.1 hv
  have hname := List.find?_some he
  exact List.any_eq_true.2 ⟨e, List.mem_of_find?_eq_some he, hname⟩

/-! ## The body loop -/

/-- How reading a bound body ends. -/
inductive BodyRead where
  | complete (body : Bytes)
  | tooLarge
  | failed (etype : Str)
  deriving DecidableEq

/-- The loop over `read_request_body`: the running total is checked after every chunk, before
the chunk is hashed. -/
def readBody (readError : Option Str) : (total : Nat) → (hashed : Bytes) → List Bytes → BodyRead
  | _, hashed, [] =>
    match readError with
    | none => .complete hashed
    | some etype => .failed etype
  | total, hashed, chunk :: chunks =>
    if BOUND_BODY_MAX < total + chunk.length then .tooLarge
    else readBody readError (total + chunk.length) (hashed ++ chunk) chunks

/-- **The loop sees an oversize body before a read error**, and hashes the whole body of a
request that ends without either. -/
theorem readBody_eq (readError : Option Str) (total : Nat) (hashed : Bytes)
    (chunks : List Bytes) (h : total ≤ BOUND_BODY_MAX) :
    readBody readError total hashed chunks =
      if BOUND_BODY_MAX < total + chunks.flatten.length then .tooLarge
      else
        match readError with
        | none => .complete (hashed ++ chunks.flatten)
        | some etype => .failed etype := by
  induction chunks generalizing total hashed with
  | nil =>
    rw [if_neg (by simpa using h)]
    cases readError <;> simp [readBody]
  | cons chunk chunks ih =>
    have hlen : total + (chunk :: chunks).flatten.length =
        total + chunk.length + chunks.flatten.length := by
      rw [List.flatten_cons, List.length_append]
      omega
    unfold readBody
    by_cases hc : BOUND_BODY_MAX < total + chunk.length
    · rw [if_pos hc, if_pos (by omega)]
    · rw [if_neg hc, ih _ _ (by omega), hlen, List.flatten_cons, List.append_assoc]

end DenBrowser
