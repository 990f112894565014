import DenBrowser.RoundTrip

/-!
# The token's plaintext format

Steps 4 to 8 of `verify_headers` once more, this time with every slice, index and `expect` that
could panic: a step that panics is `none`.  Beside it stands the format the plaintext is meant
to have, seven newline-joined fields of which the last is the sentinel or the 64 hexadecimal
digits of a hash.

* `openTokenChecked_eq` — nothing panics, whatever the token;
* `hasFields_iff` — splitting recovers exactly the newline-joined fields;
* `denotes_hexHash` — `HashBody`'s encoder is inverted;
* `tokenPlaintext_exact_iff` — the plaintext is accepted exactly, unless its last field has a
  pair of a plus sign and a digit where two digits belong.
-/

set_option autoImplicit false

namespace DenBrowser

/-! ## The steps with their panics -/

/-- `&b[lo..hi]`. -/
def slice (b : Bytes) (lo hi : Nat) : Option Bytes :=
  if lo ≤ hi ∧ hi ≤ b.length then some ((b.take hi).drop lo) else none

/-- `b.chunks(2)`. -/
def chunks2 : Bytes → List Bytes
  | [] => []
  | [a] => [[a]]
  | a :: b :: rest => [a, b] :: chunks2 rest

/-- `char::to_digit(16)`. -/
def toDigit16 (c : Char) : Option Nat :=
  if c.isDigit then some (c.toNat - 48)
  else if 'a' ≤ c ∧ c ≤ 'f' then some (c.toNat - 87)
  else if 'A' ≤ c ∧ c ≤ 'F' then some (c.toNat - 55)
  else none

/-- The digit loop of `from_str_radix(_, 16)` (the magnitude; the range check comes last). -/
def hexValue : Nat → Str → Option Nat
  | acc, [] => some acc
  | acc, c :: cs =>
    match toDigit16 c with
    | none => none
    | some d => hexValue (16 * acc + d) cs

/-- What `from_str_radix` reads digits of: for an unsigned type a leading `+` is dropped, a `-` is
left to fail as a digit, and a lone sign is an error. -/
def afterSign : Str → Option Str
  | [] => none
  | ['+'] => none
  | ['-'] => none
  | '+' :: cs => some cs
  | cs => some cs

/-- `u8::from_str_radix(s, 16)`. -/
def u8FromStrRadix16 (s : Str) : Option UInt8 :=
  match (afterSign s).bind (hexValue 0) with
  | none => none
  | some n => if n < 256 then some (UInt8.ofNat n) else none

/-- The loop of step 8 from index `idx` on, over the array filled so far. -/
def fillHash : (idx : Nat) → List Bytes → Hash → Option (Except AttestError Hash)
  | _, [], hash => some (.ok hash)
  | idx, pair :: pairs, hash =>
    match Unicode.utf8Decode pair with
    | none => some (.error .plaintextMismatch)
    | some s =>
      match u8FromStrRadix16 s with
      | none => some (.error .plaintextMismatch)
      | some b => if h : idx < 32 then fillHash (idx + 1) pairs (hash.set ⟨idx, h⟩ b) else none

/-- Step 8. -/
def parseBindingChecked (field : Bytes) : Option (Except AttestError BodyBinding) :=
  if field = UNBOUND_SENTINEL then some (.ok .unbound)
  else if field.length ≠ HEX_HASH_LEN then some (.error .plaintextMismatch)
  else
    match fillHash 0 (chunks2 field) (List.Vector.replicate 32 0) with
    | none => none
    | some (.error e) => some (.error e)
    | some (.ok h) => some (.ok (.hash h))

/-- `parts[k] != expected` for one pair after the other, up to the first difference. -/
def anyDiffers (parts : List Bytes) : List (Nat × Bytes) → Option Bool
  | [] => some false
  | (k, expected) :: rest =>
    match parts[k]? with
    | none => none
    | some part => if part ≠ expected then some true else anyDiffers parts rest

/-- Steps 7 and 8. -/
def comparePlaintextChecked (i : AttestInputs) (plaintext : Bytes) :
    Option (Except AttestError BodyBinding) :=
  let parts := plaintext.splitOn NEWLINE
  if parts.length ≠ 7 then some (.error .plaintextMismatch)
  else
    match anyDiffers parts [(0, PLAINTEXT_PREFIX), (1, asBytes i.nonceB64), (2, asBytes i.ts),
        (3, asBytes i.host), (4, asBytes i.method), (5, asBytes i.path)] with
    | none => none
    | some true => some (.error .plaintextMismatch)
    | some false =>
      match parts[6]? with
      | none => none
      | some field => parseBindingChecked field

/-- Steps 4 to 8.  The cipher's `expect`s want a key of 16 bytes and a nonce of 12. -/
def openTokenChecked (K : Crypto) (sk : K.SecretKey) (i : AttestInputs) :
    Option (Except AttestError BodyBinding) :=
  match K.base64Decode i.tokenB64 with
  | none => some (.error (.invalidToken "invalid base64".toList))
  | some raw =>
    if raw.length < TOKEN_MIN_LEN then some (.error (.invalidToken "token too short".toList))
    else
      match slice raw 0 65, slice raw 65 77, slice raw 77 raw.length with
      | some ephemBytes, some iv, some ctTag =>
        match K.fromSec1Bytes ephemBytes with
        | none => some (.error (.invalidToken "EC point not on curve".toList))
        | some ephemPub =>
          let digest := K.sha256 (K.diffieHellman sk ephemPub ++ [0, 0, 0, 1])
          match slice digest.toList 0 16 with
          | none => none
          | some aesKey =>
            if aesKey.length ≠ 16 ∨ iv.length ≠ 12 then none
            else
              match K.gcmDecrypt aesKey iv ctTag with
              | none => some (.error .decryptFailed)
              | some plaintext => comparePlaintextChecked i plaintext
      | _, _, _ => none

/-- `verify_headers`; the steps before the token index nothing. -/
def verifyHeadersChecked (K : Crypto) (sk : K.SecretKey) (i : AttestInputs) (wall : SystemTime)
    (cache : NonceCache) : Option (Except AttestError PhaseOne) :=
  match checkTimestamp i wall with
  | .error e => some (.error e)
  | .ok ts =>
    match decodeNonce K i with
    | .error e => some (.error e)
    | .ok nonce =>
      if cache.contains nonce then some (.error .nonceReplay)
      else
        match openTokenChecked K sk i with
        | none => none
        | some (.error e) => some (.error e)
        | some (.ok binding) => some (.ok ⟨nonce, binding, ts⟩)

/-! ## A pair of bytes -/

/-- A hexadecimal digit is the same read as a byte or as a character. -/
theorem toDigit16_ofNat {n : Nat} (h : n < 128) :
    toDigit16 (Char.ofNat n) = (hexDigit (UInt8.ofNat n)).map UInt8.toNat := by
  revert n; decide

theorem hexDigit_lt {b d : UInt8} (h : hexDigit b = some d) : b.toNat < 128 ∧ d.toNat < 16 := by
  have key : ∀ n < 256, (hexDigit (UInt8.ofNat n)).all
      (fun d => decide (n < 128 ∧ d.toNat < 16)) = true := by
    decide +kernel
  have hb := key b.toNat b.toNat_lt
  rw [UInt8.ofNat_toNat, h] at hb
  exact of_decide_eq_true hb

theorem toDigit16_lt {c : Char} {d : Nat} (h : toDigit16 c = some d) : c.toNat < 128 := by
  have hle : ∀ {a b : Char}, a ≤ b → a.toNat ≤ b.toNat := fun h => h
  unfold toDigit16 at h
  split at h
  · rename_i hd
    rw [Char.isDigit_iff_toNat] at hd
    have : ('9' : Char).toNat = 57 := rfl
    omega
  · split at h
    · rename_i hr
      have := hle hr.2
      have : ('f' : Char).toNat = 102 := rfl
      omega
    · split at h
      · rename_i hr
        have := hle hr.2
        have : ('F' : Char).toNat = 70 := rfl
        omega
      · cases h

theorem hexValue_ascii : ∀ {cs : Str} {acc n : Nat}, hexValue acc cs = some n →
    ∀ c ∈ cs, c.toNat < 128
  | [], _, _, _, c, hc => by cases hc
  | d :: cs, acc, n, h, c, hc => by
    unfold hexValue at h
    split at h
    · cases h
    · rename_i hd
      rcases List.mem_cons.1 hc with rfl | hc
      · exact toDigit16_lt hd
      · exact hexValue_ascii h c hc

theorem afterSign_some {s digits : Str} (h : afterSign s = some digits) :
    s = digits ∨ s = '+' :: digits := by
  unfold afterSign at h
  split at h
  · cases h
  · cases h
  · cases h
  · cases h
    exact Or.inr rfl
  · cases h
    exact Or.inl rfl

theorem afterSign_pair {c : Char} (h : c ≠ '+') (d : Char) : afterSign [c, d] = some [c, d] := by
  unfold afterSign
  split
  · simp_all
  · simp_all
  · simp_all
  · simp_all
  · rfl

/-- What `from_str_radix` reads is ASCII. -/
theorem u8FromStrRadix16_ascii {s : Str} {v : UInt8} (h : u8FromStrRadix16 s = some v) :
    ∀ c ∈ s, c.toNat < 128 := by
  unfold u8FromStrRadix16 at h
  split at h
  · cases h
  · rename_i n hn
    obtain ⟨digits, hs, hv⟩ := Option.bind_eq_some_iff.1 hn
    have hdigits := hexValue_ascii hv
    rcases afterSign_some hs with rfl | rfl
    · exact hdigits
    · intro c hc
      rcases List.mem_cons.1 hc with rfl | hc
      · decide
      · exact hdigits c hc

theorem utf8Decode_ascii {a b : UInt8} (ha : a.toNat < 128) (hb : b.toNat < 128) :
    Unicode.utf8Decode [a, b] = some [Char.ofNat a.toNat, Char.ofNat b.toNat] := by
  rw [Unicode.utf8Decode_eq_some_iff]
  unfold Unicode.utf8
  rw [List.flatMap_cons, List.flatMap_cons, utf8EncodeChar_ofNat ha, utf8EncodeChar_ofNat hb]
  simp

theorem hexPair_lt {a b v : UInt8} (h : hexPair a b = some v) : a.toNat < 128 ∧ b.toNat < 128 := by
  unfold hexPair at h
  split at h
  · rename_i ha
    subst ha
    exact ⟨by decide, (hexDigit_lt h).1⟩
  · split at h
    · rename_i hx hy
      exact ⟨(hexDigit_lt hx).1, (hexDigit_lt hy).1⟩
    · cases h

/-- Two ASCII bytes are read as `hexPair` says. -/
theorem u8FromStrRadix16_pair {a b : UInt8} (ha : a.toNat < 128) (hb : b.toNat < 128) :
    u8FromStrRadix16 [Char.ofNat a.toNat, Char.ofNat b.toNat] = hexPair a b := by
  have hda : toDigit16 (Char.ofNat a.toNat) = (hexDigit a).map UInt8.toNat := by
    rw [toDigit16_ofNat ha, UInt8.ofNat_toNat]
  have hdb : toDigit16 (Char.ofNat b.toNat) = (hexDigit b).map UInt8.toNat := by
    rw [toDigit16_ofNat hb, UInt8.ofNat_toNat]
  unfold u8FromStrRadix16 hexPair
  by_cases hplus : a = 43
  · subst hplus
    have hsign : afterSign [Char.ofNat (43 : UInt8).toNat, Char.ofNat b.toNat] =
        some [Char.ofNat b.toNat] := rfl
    rw [hsign, if_pos rfl]
    simp only [Option.bind_some, hexValue, hdb]
    cases hy : hexDigit b with
    | none => rfl
    | some y =>
      have := (hexDigit_lt hy).2
      simp only [Option.map_some, Nat.mul_zero, Nat.zero_add, UInt8.ofNat_toNat]
      rw [if_pos (by omega)]
  · have hchar : Char.ofNat a.toNat ≠ '+' := by
      have key : ∀ n < 128, Char.ofNat n = '+' → n = 43 := by decide
      intro h
      exact hplus (UInt8.toNat_inj.1 (key a.toNat ha h))
    rw [afterSign_pair hchar, if_neg hplus]
    simp only [Option.bind_some, hexValue, hda, hdb]
    cases hx : hexDigit a with
    | none => rfl
    | some x =>
      cases hy : hexDigit b with
      | none => rfl
      | some y =>
        have hx16 := (hexDigit_lt hx).2
        have hy16 := (hexDigit_lt hy).2
        simp only [Option.map_some, Nat.mul_zero, Nat.zero_add]
        rw [if_pos (by omega)]
        refine congrArg some (UInt8.toNat_inj.1 ?_)
        simp

/-- **A pair of bytes is read as `hexPair` says**, through UTF-8 and the integer parser. -/
theorem hexPair_eq (a b : UInt8) :
    (Unicode.utf8Decode [a, b]).bind u8FromStrRadix16 = hexPair a b := by
  by_cases hascii : a.toNat < 128 ∧ b.toNat < 128
  · rw [utf8Decode_ascii hascii.1 hascii.2, Option.bind_some]
    exact u8FromStrRadix16_pair hascii.1 hascii.2
  · -- A byte from 128 on belongs to a character that is neither a digit nor the sign.
    have hnone : hexPair a b = none := by
      cases h : hexPair a b with
      | none => rfl
      | some v => exact absurd (hexPair_lt h) hascii
    rw [hnone, Option.bind_eq_none_iff]
    intro cs hcs
    rw [Unicode.utf8Decode_eq_some_iff] at hcs
    cases hv : u8FromStrRadix16 cs with
    | none => rfl
    | some v =>
      have hbyte : ∀ x ∈ [a, b], x.toNat < 128 := by
        rw [hcs]
        intro x hx
        obtain ⟨c, hc, hxc⟩ := List.mem_flatMap.1 hx
        have hlt := u8FromStrRadix16_ascii hv c hc
        rw [utf8EncodeChar_ascii hlt, List.mem_singleton] at hxc
        rw [hxc, UInt8.toNat_ofNat']
        omega
      exact absurd ⟨hbyte a (by simp), hbyte b (by simp)⟩ hascii

/-! ## Nothing panics -/

theorem slice_eq {b : Bytes} {lo hi : Nat} (h : lo ≤ hi) (hb : hi ≤ b.length) :
    slice b lo hi = some ((b.drop lo).take (hi - lo)) := by
  unfold slice
  rw [if_pos ⟨h, hb⟩, List.drop_take]

/-- The loop over the pairs: it fills the array from `idx` on, or fails as `hexPairs` does. -/
theorem fillHash_eq : ∀ (n idx : Nat) (field : Bytes) (hash : Hash), idx + n = 32 →
    field.length = 2 * n →
    ∃ r, fillHash idx (chunks2 field) hash = some r ∧
      (hexPairs n field = none → r = .error .plaintextMismatch) ∧
      ∀ v, hexPairs n field = some v →
        ∃ h : Hash, r = .ok h ∧ h.toList = hash.toList.take idx ++ v.toList
  | 0, idx, field, hash, hidx, hlen => by
    have hnil : field = [] := List.length_eq_zero_iff.1 hlen
    subst hnil
    refine ⟨.ok hash, rfl, ?_, fun v _ => ⟨hash, rfl, ?_⟩⟩
    · intro h
      cases h
    have hv : v.toList = [] := List.length_eq_zero_iff.1 v.toList_length
    rw [hv, List.append_nil, List.take_of_length_le (by rw [hash.toList_length]; omega)]
  | n + 1, idx, [], hash, _, hlen => by simp at hlen
  | n + 1, idx, [a], hash, _, hlen => by simp at hlen; omega
  | n + 1, idx, a :: b :: rest, hash, hidx, hlen => by
    have hlt : idx < 32 := by omega
    have hrest : rest.length = 2 * n := by simp at hlen; omega
    have hpair := hexPair_eq a b
    unfold chunks2 fillHash hexPairs
    cases hs : Unicode.utf8Decode [a, b] with
    | none =>
      rw [hs, Option.bind_none] at hpair
      rw [← hpair]
      refine ⟨_, rfl, fun _ => rfl, fun v hv => ?_⟩
      cases hv
    | some s =>
      rw [hs, Option.bind_some] at hpair
      dsimp only
      cases hb : u8FromStrRadix16 s with
      | none =>
        rw [← hpair, hb]
        refine ⟨_, rfl, fun _ => rfl, fun v hv => ?_⟩
        cases hv
      | some x =>
        obtain ⟨r, hr, hnone, hsome⟩ := fillHash_eq n (idx + 1) rest (hash.set ⟨idx, hlt⟩ x)
          (by omega) hrest
        rw [← hpair, hb]
        dsimp only
        rw [dif_pos hlt, hr]
        refine ⟨r, rfl, ?_, ?_⟩
        · intro h
          cases hn : hexPairs n rest with
          | none => exact hnone hn
          | some v => simp [hn] at h
        · intro v hv
          cases hn : hexPairs n rest with
          | none => simp [hn] at hv
          | some w =>
            rw [hn] at hv
            cases hv
            obtain ⟨h, rfl, hh⟩ := hsome w hn
            refine ⟨h, rfl, ?_⟩
            have hset : idx < (hash.toList.set idx x).length := by
              rw [List.length_set, hash.toList_length]
              exact hlt
            rw [hh, List.Vector.toList_cons, List.Vector.toList_set,
              List.take_succ_eq_append_getElem hset, List.take_set_of_le (Nat.le_refl _),
              List.getElem_set_self, List.append_assoc, List.singleton_append]

theorem parseBindingChecked_eq (field : Bytes) :
    parseBindingChecked field = some (parseBinding field) := by
  unfold parseBindingChecked parseBinding
  by_cases hunbound : field = UNBOUND_SENTINEL
  · rw [if_pos hunbound, if_pos hunbound]
  · rw [if_neg hunbound, if_neg hunbound]
    by_cases hlen : field.length = HEX_HASH_LEN
    · rw [if_neg (not_not.2 hlen), if_neg (not_not.2 hlen)]
      obtain ⟨r, hr, hnone, hsome⟩ := fillHash_eq 32 0 field (List.Vector.replicate 32 0) rfl hlen
      rw [hr]
      cases hv : hexPairs 32 field with
      | none => rw [hnone hv]
      | some v =>
        obtain ⟨h, rfl, hh⟩ := hsome v hv
        have heq : h = v := List.Vector.toList_injective (by rw [hh, List.take_zero]; rfl)
        rw [heq]
    · rw [if_pos hlen, if_pos hlen]

/-- The comparisons of step 7 stay inside the list they index. -/
theorem anyDiffers_eq {parts : List Bytes} : ∀ {l : List (Nat × Bytes)},
    (∀ e ∈ l, e.1 < parts.length) →
    anyDiffers parts l = some (l.any fun e => decide (parts[e.1]? ≠ some e.2))
  | [], _ => rfl
  | (k, expected) :: rest, h => by
    have hk : k < parts.length := h (k, expected) (by simp)
    have hrest := anyDiffers_eq (l := rest) fun e he => h e (by simp [he])
    unfold anyDiffers
    rw [List.any_cons, List.getElem?_eq_getElem hk]
    dsimp only
    by_cases hpart : parts[k] = expected
    · simp [hpart, hrest]
    · simp [hpart]

theorem eq_of_length_seven : ∀ {parts : List Bytes}, parts.length = 7 →
    ∃ p0 p1 p2 p3 p4 p5 p6, parts = [p0, p1, p2, p3, p4, p5, p6]
  | [p0, p1, p2, p3, p4, p5, p6], _ => ⟨p0, p1, p2, p3, p4, p5, p6, rfl⟩

theorem comparePlaintextChecked_eq (i : AttestInputs) (plaintext : Bytes) :
    comparePlaintextChecked i plaintext = some (comparePlaintext i plaintext) := by
  unfold comparePlaintextChecked comparePlaintext
  generalize plaintext.splitOn NEWLINE = parts
  by_cases hlen : parts.length = 7
  · obtain ⟨p0, p1, p2, p3, p4, p5, p6, rfl⟩ := eq_of_length_seven hlen
    rw [if_neg (not_not.2 hlen), anyDiffers_eq (by simp)]
    simp only [List.any_cons, List.any_nil, List.getElem?_cons_zero, List.getElem?_cons_succ,
      parseBindingChecked_eq, Bool.or_false, ne_eq, Option.some.injEq, ← Bool.decide_or]
    split_ifs with hdiffers
    · rw [decide_eq_true hdiffers]
    · rw [decide_eq_false hdiffers]
  · rw [if_pos hlen]
    split
    · exact absurd rfl hlen
    · rfl

/-- **No token makes steps 4 to 8 panic.** -/
theorem openTokenChecked_eq (K : Crypto) (sk : K.SecretKey) (i : AttestInputs) :
    openTokenChecked K sk i = some (openToken K sk i) := by
  unfold openTokenChecked openToken decryptToken
  cases K.base64Decode i.tokenB64 with
  | none => rfl
  | some raw =>
    dsimp only
    by_cases hshort : raw.length < TOKEN_MIN_LEN
    · rw [if_pos hshort, if_pos hshort]
    · have hlen : 94 ≤ raw.length := Nat.le_of_not_lt hshort
      rw [if_neg hshort, if_neg hshort, slice_eq (Nat.zero_le 65) (by omega),
        slice_eq (by omega : 65 ≤ 77) (by omega), slice_eq (by omega : 77 ≤ raw.length) (by omega)]
      have htail : (raw.drop 77).take (raw.length - 77) = raw.drop 77 :=
        List.take_of_length_le (by rw [List.length_drop])
      rw [htail]
      dsimp only
      rw [List.drop_zero]
      cases K.fromSec1Bytes (raw.take (65 - 0)) with
      | none => rfl
      | some ephemPub =>
        have haes : ((K.sha256 (K.diffieHellman sk ephemPub ++ [0, 0, 0, 1])).toList.drop 0).take
            (16 - 0) = (K.sha256 (K.diffieHellman sk ephemPub ++ [0, 0, 0, 1])).toList.take 16 := by
          rw [List.drop_zero]
        have hkey : ((K.sha256 (K.diffieHellman sk ephemPub ++ [0, 0, 0, 1])).toList.take
            16).length = 16 := by simp
        have hiv : ((raw.drop 65).take (77 - 65)).length = 12 := by
          rw [List.length_take, List.length_drop]
          omega
        dsimp only
        rw [slice_eq (Nat.zero_le 16) (by simp), haes]
        dsimp only
        rw [if_neg (by simp [hkey, hiv])]
        cases K.gcmDecrypt ((K.sha256 (K.diffieHellman sk ephemPub ++ [0, 0, 0, 1])).toList.take
            16) ((raw.drop 65).take (77 - 65)) (raw.drop 77) with
        | none => rfl
        | some plaintext => exact comparePlaintextChecked_eq i plaintext

theorem verifyHeadersChecked_eq (K : Crypto) (sk : K.SecretKey) (i : AttestInputs)
    (wall : SystemTime) (cache : NonceCache) :
    verifyHeadersChecked K sk i wall cache = some (verifyHeaders K sk i wall cache) := by
  unfold verifyHeadersChecked verifyHeaders
  rw [openTokenChecked_eq]
  cases checkTimestamp i wall with
  | error e => rfl
  | ok ts =>
    cases decodeNonce K i with
    | error e => rfl
    | ok nonce =>
      dsimp only
      split_ifs
      · rfl
      · cases openToken K sk i with
        | error e => rfl
        | ok binding => rfl

/-! ## The format -/

/-- The fields of the request's plaintext, the last one `field`. -/
def tokenFields (i : AttestInputs) (field : Bytes) : List Bytes :=
  [PLAINTEXT_PREFIX, asBytes i.nonceB64, asBytes i.ts, asBytes i.host, asBytes i.method,
    asBytes i.path, field]

/-- The plaintext is precisely the request's newline-joined fields, the last one `field`. -/
structure HasFields (i : AttestInputs) (plaintext field : Bytes) : Prop where
  joined : plaintext = [NEWLINE].intercalate (tokenFields i field)
  newlineFree : ∀ f ∈ tokenFields i field, NEWLINE ∉ f

/-- The field is 64 hexadecimal digits, and they denote the bytes of `h`. -/
structure Denotes (field : Bytes) (h : Hash) : Prop where
  length : field.length = HEX_HASH_LEN
  digits : ∀ k : Fin 32, ∃ x y, field[2 * k.1]?.bind hexDigit = some x ∧
    field[2 * k.1 + 1]?.bind hexDigit = some y ∧ h.get k = 16 * x + y

/-- What the last field binds the request to. -/
inductive Binds (field : Bytes) : BodyBinding → Prop where
  | unbound : field = UNBOUND_SENTINEL → Binds field .unbound
  | hash (h : Hash) : Denotes field h → Binds field (.hash h)

/-- `b'+'`. -/
def PLUS : UInt8 := 43

/-- The field is 64 bytes in pairs, each of two hexadecimal digits or of a plus sign and one, and
there is a pair with a plus sign. -/
structure SignedHex (field : Bytes) : Prop where
  length : field.length = HEX_HASH_LEN
  pairs : ∀ k : Fin 32, ∃ a b, field[2 * k.1]? = some a ∧ field[2 * k.1 + 1]? = some b ∧
    (a = PLUS ∨ (hexDigit a).isSome) ∧ (hexDigit b).isSome
  signed : ∃ k : Fin 32, field[2 * k.1]? = some PLUS

theorem newline_not_mem_of_mem_splitOn : ∀ {bytes f : Bytes}, f ∈ bytes.splitOn NEWLINE →
    NEWLINE ∉ f
  | [], f, h => by
    rw [List.splitOn_nil, List.mem_singleton] at h
    rw [h]
    exact List.not_mem_nil
  | b :: bytes, f, h => by
    rw [List.splitOn_cons_eq_if_modifyHead] at h
    split_ifs at h with hb
    · rcases List.mem_cons.1 h with rfl | h
      · exact List.not_mem_nil
      · exact newline_not_mem_of_mem_splitOn h
    · cases hsplit : bytes.splitOn NEWLINE with
      | nil => exact absurd hsplit (List.splitOn_ne_nil _ _)
      | cons g gs =>
        have hg : ∀ x ∈ g :: gs, NEWLINE ∉ x := by
          rw [← hsplit]
          exact fun x hx => newline_not_mem_of_mem_splitOn hx
        rw [hsplit, List.modifyHead_cons] at h
        rcases List.mem_cons.1 h with rfl | h
        · rw [List.mem_cons, not_or]
          exact ⟨fun heq => hb (by simp [heq]), hg g (by simp)⟩
        · exact hg f (by simp [h])

/-- **Splitting recovers exactly the newline-joined fields.** -/
theorem hasFields_iff {i : AttestInputs} {plaintext field : Bytes} :
    HasFields i plaintext field ↔ plaintext.splitOn NEWLINE = tokenFields i field := by
  constructor
  · rintro ⟨hjoined, hfree⟩
    rw [hjoined]
    exact List.splitOn_intercalate NEWLINE hfree (List.cons_ne_nil _ _)
  · intro h
    refine ⟨?_, ?_⟩
    · rw [← h, List.intercalate_splitOn]
    · rw [← h]
      exact fun f hf => newline_not_mem_of_mem_splitOn hf

theorem comparePlaintext_ok_iff {i : AttestInputs} {plaintext : Bytes} {b : BodyBinding} :
    comparePlaintext i plaintext = .ok b ↔
      ∃ field, HasFields i plaintext field ∧ parseBinding field = .ok b := by
  simp only [hasFields_iff]
  unfold comparePlaintext tokenFields
  split
  · rename_i p0 p1 p2 p3 p4 p5 p6 hparts
    split_ifs with hdiffers
    · simp only [false_iff, not_exists, not_and]
      intro field hfields
      rw [hparts] at hfields
      cases hfields
      simp at hdiffers
    · push Not at hdiffers
      obtain ⟨rfl, rfl, rfl, rfl, rfl, rfl⟩ := hdiffers
      constructor
      · intro hb
        exact ⟨p6, hparts, hb⟩
      · rintro ⟨field, hfields, hb⟩
        rw [hparts] at hfields
        cases hfields
        exact hb
  · rename_i hother
    simp only [reduceCtorEq, false_iff, not_exists, not_and]
    intro field hfields
    exact absurd hfields (hother _ _ _ _ _ _ _)

/-! ## The last field -/

/-- A pair that is read is two digits, or a plus sign and a digit. -/
theorem hexPair_eq_some_iff {a b v : UInt8} :
    hexPair a b = some v ↔ (a = PLUS ∧ hexDigit b = some v) ∨
      ∃ x y, hexDigit a = some x ∧ hexDigit b = some y ∧ v = 16 * x + y := by
  have hplus : hexDigit PLUS = none := by decide
  unfold hexPair
  split_ifs with ha
  · have ha' : a = PLUS := ha
    subst ha'
    simp [hplus]
  · have ha' : a ≠ PLUS := ha
    cases hx : hexDigit a with
    | none => simp [ha']
    | some x =>
      cases hy : hexDigit b with
      | none => simp
      | some y => simp [ha', eq_comm]

theorem hexPairs_eq_some_iff : ∀ {n : Nat} {field : Bytes} {v : List.Vector UInt8 n},
    hexPairs n field = some v ↔ field.length = 2 * n ∧
      ∀ k : Fin n, ∃ a b, field[2 * k.1]? = some a ∧ field[2 * k.1 + 1]? = some b ∧
        hexPair a b = some (v.get k)
  | 0, [], v => by simp [hexPairs, List.Vector.eq_nil v]
  | 0, _ :: _, v => by simp [hexPairs]
  | n + 1, [], v => by simp [hexPairs]
  | n + 1, [a], v => by
    simp [hexPairs]
  | n + 1, a :: b :: rest, v => by
    have hrest : hexPairs n rest = some v.tail ↔ _ := hexPairs_eq_some_iff
    have hread : hexPairs (n + 1) (a :: b :: rest) = some v ↔
        hexPair a b = some v.head ∧ hexPairs n rest = some v.tail := by
      conv_lhs => unfold hexPairs
      cases hexPair a b with
      | none => simp
      | some x =>
        cases hexPairs n rest with
        | none => simp
        | some w =>
          rw [Option.some.injEq, Option.some.injEq, Option.some.injEq, eq_comm,
            List.Vector.eq_cons_iff]
          exact and_congr eq_comm eq_comm
    have hlen : (a :: b :: rest).length = 2 * (n + 1) ↔ rest.length = 2 * n := by
      simp only [List.length_cons]
      omega
    have hstep : ∀ k : Fin n, (a :: b :: rest)[2 * k.succ.1]? = rest[2 * k.1]? ∧
        (a :: b :: rest)[2 * k.succ.1 + 1]? = rest[2 * k.1 + 1]? := by
      intro k
      have hk : 2 * k.succ.1 = 2 * k.1 + 1 + 1 := by simp; omega
      rw [hk]
      exact ⟨rfl, rfl⟩
    rw [hread, hrest, hlen, Fin.forall_fin_succ, List.Vector.get_zero]
    simp only [hstep, ← List.Vector.get_tail_succ]
    constructor
    · rintro ⟨hpair, hl, hpairs⟩
      exact ⟨hl, ⟨a, b, rfl, rfl, hpair⟩, hpairs⟩
    · rintro ⟨hl, ⟨a', b', ha, hb, hpair⟩, hpairs⟩
      cases ha
      cases hb
      exact ⟨hpair, hl, hpairs⟩

theorem Denotes.hexPairs {field : Bytes} {h : Hash} (hd : Denotes field h) :
    hexPairs 32 field = some h := by
  refine hexPairs_eq_some_iff.2 ⟨hd.length, fun k => ?_⟩
  obtain ⟨x, y, hx, hy, hget⟩ := hd.digits k
  obtain ⟨a, ha, hax⟩ := Option.bind_eq_some_iff.1 hx
  obtain ⟨b, hb, hby⟩ := Option.bind_eq_some_iff.1 hy
  exact ⟨a, b, ha, hb, hexPair_eq_some_iff.2 (Or.inr ⟨x, y, hax, hby, hget⟩)⟩

/-- A field that is read as a hash denotes it, or has a plus sign for a digit. -/
theorem denotes_or_signedHex {field : Bytes} {h : Hash} (hread : hexPairs 32 field = some h) :
    Denotes field h ∨ SignedHex field := by
  obtain ⟨hlen, hpairs⟩ := hexPairs_eq_some_iff.1 hread
  by_cases hsigned : ∃ k : Fin 32, field[2 * k.1]? = some PLUS
  · refine Or.inr ⟨hlen, fun k => ?_, hsigned⟩
    obtain ⟨a, b, ha, hb, hpair⟩ := hpairs k
    rcases hexPair_eq_some_iff.1 hpair with ⟨hplus, hdigit⟩ | ⟨x, y, hx, hy, _⟩
    · exact ⟨a, b, ha, hb, Or.inl hplus, by simp [hdigit]⟩
    · exact ⟨a, b, ha, hb, Or.inr (by simp [hx]), by simp [hy]⟩
  · refine Or.inl ⟨hlen, fun k => ?_⟩
    obtain ⟨a, b, ha, hb, hpair⟩ := hpairs k
    rcases hexPair_eq_some_iff.1 hpair with ⟨rfl, _⟩ | ⟨x, y, hx, hy, hget⟩
    · exact absurd ⟨k, ha⟩ hsigned
    · exact ⟨x, y, by simp [ha, hx], by simp [hb, hy], hget⟩

/-- A field with a plus sign for a digit is read as a hash, and denotes none. -/
theorem SignedHex.read {field : Bytes} (hs : SignedHex field) :
    (∃ h, hexPairs 32 field = some h) ∧ ∀ h, ¬Denotes field h := by
  constructor
  · have hpairs : ∀ k : Fin 32, ∃ a b v, field[2 * k.1]? = some a ∧
        field[2 * k.1 + 1]? = some b ∧ hexPair a b = some v := by
      intro k
      obtain ⟨a, b, ha, hb, hfirst, hdigit⟩ := hs.pairs k
      obtain ⟨y, hy⟩ := Option.isSome_iff_exists.1 hdigit
      rcases hfirst with hplus | hfirst
      · exact ⟨a, b, y, ha, hb, hexPair_eq_some_iff.2 (Or.inl ⟨hplus, hy⟩)⟩
      · obtain ⟨x, hx⟩ := Option.isSome_iff_exists.1 hfirst
        exact ⟨a, b, _, ha, hb, hexPair_eq_some_iff.2 (Or.inr ⟨x, y, hx, hy, rfl⟩)⟩
    choose a b v ha hb hv using hpairs
    refine ⟨List.Vector.ofFn v, hexPairs_eq_some_iff.2 ⟨hs.length, fun k => ?_⟩⟩
    rw [List.Vector.get_ofFn]
    exact ⟨a k, b k, ha k, hb k, hv k⟩
  · intro h hd
    obtain ⟨k, hk⟩ := hs.signed
    obtain ⟨x, y, hx, _⟩ := hd.digits k
    have hplus : hexDigit PLUS = none := by decide
    rw [hk, Option.bind_some, hplus] at hx
    cases hx

theorem parseBinding_ok_iff {field : Bytes} {b : BodyBinding} :
    parseBinding field = .ok b ↔ (field = UNBOUND_SENTINEL ∧ b = .unbound) ∨
      ∃ h, b = .hash h ∧ hexPairs 32 field = some h := by
  have hsentinel : UNBOUND_SENTINEL.length ≠ HEX_HASH_LEN := by decide
  unfold parseBinding
  split_ifs with hunbound hlen
  · have hnone : hexPairs 32 field = none := by
      rw [hunbound]
      decide
    constructor
    · intro hb
      exact Or.inl ⟨hunbound, (Except.ok.inj hb).symm⟩
    · rintro (⟨_, rfl⟩ | ⟨h, _, hread⟩)
      · rfl
      · rw [hnone] at hread
        cases hread
  · simp only [hunbound, false_and, false_or, false_iff, not_exists, not_and]
    intro h _ hread
    exact hlen (hexPairs_eq_some_iff.1 hread).1
  · cases hexPairs 32 field with
    | none => simp [hunbound]
    | some h => simp [hunbound, eq_comm]

/-- **The last field is read as the format says**, unless it has a plus sign for a digit. -/
theorem parseBinding_binds_iff {field : Bytes} :
    (∀ b, parseBinding field = .ok b ↔ Binds field b) ↔ ¬SignedHex field := by
  constructor
  · intro hexact hs
    obtain ⟨⟨h, hread⟩, hnot⟩ := hs.read
    cases (hexact (.hash h)).1 (parseBinding_ok_iff.2 (Or.inr ⟨h, rfl, hread⟩)) with
    | hash _ hd => exact hnot h hd
  · intro hs b
    rw [parseBinding_ok_iff]
    constructor
    · rintro (⟨hunbound, rfl⟩ | ⟨h, rfl, hread⟩)
      · exact .unbound hunbound
      · exact .hash h ((denotes_or_signedHex hread).resolve_right hs)
    · rintro (hunbound | ⟨h, hd⟩)
      · exact Or.inl ⟨hunbound, rfl⟩
      · exact Or.inr ⟨h, rfl, hd.hexPairs⟩

/-- **`HashBody`'s encoder is inverted**: its digits denote its hash. -/
theorem denotes_hexHash (h : Hash) : Denotes (asBytes (hexHash h)) h := by
  have hread : hexPairs 32 (asBytes (hexHash h)) = some h := hexPairs_hexDigits h
  refine (denotes_or_signedHex hread).resolve_right ?_
  rintro ⟨_, _, k, hk⟩
  have hmem : PLUS ∈ asBytes (hexHash h) := List.mem_of_getElem? hk
  obtain ⟨c, hc, hb⟩ := List.mem_flatMap.1 hmem
  obtain ⟨b, _, hb'⟩ := List.mem_flatMap.1 hc
  have hplus : ∀ d : UInt8, d < 16 → PLUS ∉ String.utf8EncodeChar (hexLower d) := by
    intro d hd hin
    obtain ⟨_, p, hp, hne, _⟩ := hexDigit_hexLower hd
    have hin' : PLUS ∈ asBytes [hexLower d] := by simpa [asBytes] using hin
    rw [hp, List.mem_singleton] at hin'
    exact hne hin'.symm
  rw [List.mem_cons, List.mem_singleton] at hb'
  rcases hb' with rfl | rfl
  · exact hplus _ (high_lt b) hb
  · exact hplus _ (low_lt b) hb

/-! ## What is accepted -/

/-- The token of a request that has passed the checks before it is accepted exactly: opening it
panics on no token, the request is accepted exactly when the plaintext has its fields and with
what the last one binds it to, and a hash that `HashBody` wrote is returned. -/
structure AcceptedExactly (K : Crypto) (sk : K.SecretKey) (i : AttestInputs) (wall : SystemTime)
    (cache : NonceCache) (ts : Int) (nonce : Nonce) : Prop where
  total : verifyHeadersChecked K sk i wall cache = some (verifyHeaders K sk i wall cache)
  accepts_iff : ∀ p1, verifyHeaders K sk i wall cache = .ok p1 ↔
    p1.ts = ts ∧ p1.nonce = nonce ∧ ∃ plaintext field, decryptToken K sk i = .ok plaintext ∧
      HasFields i plaintext field ∧ Binds field p1.bodyBinding
  encoder : ∀ plaintext h, decryptToken K sk i = .ok plaintext →
    HasFields i plaintext (asBytes (hexHash h)) →
    verifyHeaders K sk i wall cache = .ok ⟨nonce, .hash h, ts⟩

section Accepted

variable {K : Crypto} {sk : K.SecretKey} {i : AttestInputs} {wall : SystemTime}
  {cache : NonceCache} {ts : Int} {nonce : Nonce}

/-- Past the checks before the token, acceptance is that of the last field. -/
theorem verifyHeaders_ok_iff_field (sk : K.SecretKey) (hts : checkTimestamp i wall = .ok ts)
    (hnonce : decodeNonce K i = .ok nonce) (hseen : cache.contains nonce = false)
    (p1 : PhaseOne) :
    verifyHeaders K sk i wall cache = .ok p1 ↔
      p1.ts = ts ∧ p1.nonce = nonce ∧ ∃ plaintext field, decryptToken K sk i = .ok plaintext ∧
        HasFields i plaintext field ∧ parseBinding field = .ok p1.bodyBinding := by
  have hopen : openToken K sk i = .ok p1.bodyBinding ↔
      ∃ plaintext field, decryptToken K sk i = .ok plaintext ∧
        HasFields i plaintext field ∧ parseBinding field = .ok p1.bodyBinding := by
    unfold openToken
    cases decryptToken K sk i with
    | error e => simp
    | ok plaintext => simp [comparePlaintext_ok_iff]
  have hunseen : nonce ∉ cache.seen := by simpa [NonceCache.contains] using hseen
  rw [verifyHeaders_ok_iff, hts, hnonce, hopen, Except.ok.injEq, Except.ok.injEq]
  constructor
  · rintro ⟨rfl, rfl, _, hrest⟩
    exact ⟨rfl, rfl, hrest⟩
  · rintro ⟨rfl, rfl, hrest⟩
    exact ⟨rfl, rfl, hunseen, hrest⟩

/-- **When the token's plaintext is accepted exactly**: unless it has the request's fields, the
last one with a plus sign for a digit. -/
theorem tokenPlaintext_exact_iff (hts : checkTimestamp i wall = .ok ts)
    (hnonce : decodeNonce K i = .ok nonce) (hseen : cache.contains nonce = false) :
    AcceptedExactly K sk i wall cache ts nonce ↔
      ∀ plaintext field, decryptToken K sk i = .ok plaintext → HasFields i plaintext field →
        ¬SignedHex field := by
  have haccept := verifyHeaders_ok_iff_field sk hts hnonce hseen
  constructor
  · intro hexact plaintext field hdec hfields hs
    obtain ⟨⟨h, hread⟩, hnot⟩ := hs.read
    have hok := (haccept ⟨nonce, .hash h, ts⟩).2 ⟨rfl, rfl, plaintext, field, hdec, hfields,
      parseBinding_ok_iff.2 (Or.inr ⟨h, rfl, hread⟩)⟩
    obtain ⟨_, _, plaintext', field', hdec', hfields', hbinds⟩ := (hexact.accepts_iff _).1 hok
    have hplain : plaintext = plaintext' := Except.ok.inj (hdec.symm.trans hdec')
    subst hplain
    have hfield : tokenFields i field = tokenFields i field' :=
      (hasFields_iff.1 hfields).symm.trans (hasFields_iff.1 hfields')
    have hlast : field = field' := by simpa [tokenFields] using hfield
    subst hlast
    cases hbinds with
    | hash _ hd => exact hnot h hd
  · intro hcond
    refine ⟨verifyHeadersChecked_eq K sk i wall cache, fun p1 => ?_, ?_⟩
    · rw [haccept]
      refine and_congr_right fun _ => and_congr_right fun _ => ?_
      refine exists_congr fun plaintext => exists_congr fun field => ?_
      refine and_congr_right fun hdec => and_congr_right fun hfields => ?_
      exact parseBinding_binds_iff.2 (hcond plaintext field hdec hfields) p1.bodyBinding
    · intro plaintext h hdec hfields
      exact (haccept _).2 ⟨rfl, rfl, plaintext, _, hdec, hfields, parseBinding_hexHash h⟩

end Accepted

/-- A recorded upload whose hash is written with a plus sign for its first digit, a zero. -/
def exchangePlus : Exchange where
  nonce := beBytes 16 0x2d22542a027b630338556f07a7d4d6da
  ts := "1760000000".toList
  host := "a.example.com".toList
  method := "POST".toList
  path := "/".toList
  bodyField := PLUS :: (asBytes (hexHash uploadDigest)).drop 1
  ephemPub := beBytes 1 0x04 ++
    beBytes 32 0x30fef8ca3438b66fb0718f8ab6abaf49f0024246d1f65c7504e7ed6ae9e1deae ++
    beBytes 32 0xf37f4b958c323458b2f831a0d97339beecb41651e66325a64bd4e94f25226cca
  iv := beBytes 12 0x96e5e8aa84a4e67698d1f0b4
  ctTag := beBytes 32 0x6fa46f99040a268c2db49385196f6da21f1a5c508ace35863aeb94f3c68ee326 ++
    beBytes 32 0x8eff3c7995cd49d3a526e4c1fff52a8344fa80bfded559a426db862de66db8a2 ++
    beBytes 32 0x39c209a90d8ce24a51c46f7734e33db2803f0d986537f7b6b8c25699f7e49103 ++
    beBytes 32 0x62cac963d0490e49e8df9c0bf7e8b1c68bbb6be300b6f1cc26279af60aaf5934 ++
    beBytes 30 0x65d61b00aae7ad682a063ee058086c8b9596b94ff0557d1dafd57c612e11
  secret := beBytes 32 0xb671f915b004a54d416113611eab7297a7156ffb79826840a240f1e606ead170
  digest := beBytes 32 0x8965066e30bcd992b37847a9a01bca1bc153e4448a44d09041bdcef1f60a4fc5

/-- The exchange as recorded: its plaintext ends in `unbound`. -/
theorem tokenPlaintext_exact_iff_recorded :
    AcceptedExactly (recorded [exchangeA]) () exchangeA.inputs wallA .empty 1760000000
      ⟨exchangeA.nonce, by decide⟩ := by
  refine (tokenPlaintext_exact_iff (by decide +kernel) (by decide +kernel)
    (by decide +kernel)).2 ?_
  intro plaintext field hdec hfields hs
  have hplain : decryptToken (recorded [exchangeA]) () exchangeA.inputs =
      .ok exchangeA.plaintext := by decide +kernel
  rw [hplain] at hdec
  cases hdec
  have hsplit : exchangeA.plaintext.splitOn NEWLINE =
      tokenFields exchangeA.inputs UNBOUND_SENTINEL := by decide +kernel
  have hfield := (hasFields_iff.1 hfields).symm.trans hsplit
  have hlast : field = UNBOUND_SENTINEL := by simpa [tokenFields] using hfield
  have hlen := hs.length
  rw [hlast] at hlen
  revert hlen
  decide

/-- A last field that is not 64 hexadecimal digits is taken for a hash. -/
theorem tokenPlaintext_plus :
    verifyHeaders (recorded [exchangePlus]) () exchangePlus.inputs wallA .empty =
      .ok ⟨⟨exchangePlus.nonce, by decide⟩, .hash uploadDigest, 1760000000⟩ ∧
    exchangePlus.plaintext.splitOn NEWLINE =
      tokenFields exchangePlus.inputs exchangePlus.bodyField ∧
    exchangePlus.bodyField.head?.bind hexDigit = none ∧
    ¬AcceptedExactly (recorded [exchangePlus]) () exchangePlus.inputs wallA .empty 1760000000
      ⟨exchangePlus.nonce, by decide⟩ := by
  have hok : verifyHeaders (recorded [exchangePlus]) () exchangePlus.inputs wallA .empty =
      .ok ⟨⟨exchangePlus.nonce, by decide⟩, .hash uploadDigest, 1760000000⟩ := by
    decide +kernel
  have hsplit : exchangePlus.plaintext.splitOn NEWLINE =
      tokenFields exchangePlus.inputs exchangePlus.bodyField := by
    decide +kernel
  refine ⟨hok, hsplit, by decide, fun hexact => ?_⟩
  obtain ⟨_, _, plaintext, field, hdec, hfields, hbinds⟩ := (hexact.accepts_iff _).1 hok
  have hplain : decryptToken (recorded [exchangePlus]) () exchangePlus.inputs =
      .ok exchangePlus.plaintext := by decide +kernel
  rw [hplain] at hdec
  cases hdec
  have hfield := (hasFields_iff.1 hfields).symm.trans hsplit
  have hlast : field = exchangePlus.bodyField := by simpa [tokenFields] using hfield
  subst hlast
  cases hbinds with
  | hash _ hd =>
    obtain ⟨x, y, hx, _⟩ := hd.digits 0
    have hplus : exchangePlus.bodyField[2 * (0 : Fin 32).1]?.bind hexDigit = none := by decide
    rw [hplus] at hx
    cases hx

end DenBrowser
