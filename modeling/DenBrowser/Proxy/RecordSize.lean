import DenBrowser.Proxy.Authority

/-!
# The size of an audit record

Which of a record's client-influenced strings are capped.  The setters cap the host, the method,
the nonce and the distinguished names; the machine layer's messages and the verified hostname
carry a certificate's Common Name as it is.

* `AttestError.length_display_le`, `MachineError.length_display_le` — the texts of errors;
* `requestFilter_checked` — how the gate goes on once it has come to the certificate;
* `Handled.shown_le`, `Handled.length_le` — a record is as long as the name its request shows,
  and no longer than that and the fixed texts;
* `records_capped_iff` — the records of a set of requests are capped exactly when the names
  they show are.
-/

set_option autoImplicit false

namespace DenBrowser

/-! ## Texts -/

/-- A literal's length, without decoding its bytes. -/
theorem length_literal {text : Str} {n : Nat} (h : text.length = n) :
    (String.ofList text).toList.length = n := by
  rw [String.toList_ofList, h]

theorem length_literal_le {text : Str} {n : Nat} (h : text.length ≤ n) :
    (String.ofList text).toList.length ≤ n := by
  rwa [String.toList_ofList]

theorem length_intercalate_le {α : Type} {sep : List α} {k : Nat} : ∀ {ls : List (List α)},
    (∀ l ∈ ls, l.length ≤ k) → (sep.intercalate ls).length ≤ ls.length * (k + sep.length)
  | [], _ => by simp
  | [l], h => by
    have hl := h l (by simp)
    rw [List.intercalate_singleton, List.length_singleton]
    omega
  | l :: l' :: ls, h => by
    have hl := h l (by simp)
    have hrest : (sep.intercalate (l' :: ls)).length ≤ (l' :: ls).length * (k + sep.length) :=
      length_intercalate_le fun m hm => h m (by simp [hm])
    rw [List.intercalate_cons_cons, List.length_append, List.length_append,
      List.length_cons (a := l), Nat.add_one_mul]
    omega

theorem length_showInt_le {n : Int} (h : I64_MIN ≤ n ∧ n ≤ I64_MAX) : (showInt n).length ≤ 20 := by
  have hdigits : ∀ m : Nat, m < 10 ^ 19 → (Nat.toDigits 10 m).length ≤ 19 := fun m hm =>
    (Nat.length_toDigits_le_iff (by decide) (by decide)).2 hm
  cases n with
  | ofNat m =>
    have hm : m < 10 ^ 19 := by
      have := h.2
      simp only [I64_MAX, Int.ofNat_eq_natCast] at this
      omega
    rw [showInt_ofNat]
    exact (hdigits m hm).trans (by decide)
  | negSucc m =>
    have hm : m + 1 < 10 ^ 19 := by
      have := h.1
      simp only [I64_MIN, Int.negSucc_eq] at this
      omega
    rw [showInt_negSucc, List.length_cons]
    have := hdigits (m + 1) hm
    omega

theorem length_showV4_le {octets : List UInt8} (h : octets.length = 4) :
    (showV4 octets).length ≤ 16 := by
  have hoctet : ∀ l ∈ octets.map fun b => showInt b.toNat, l.length ≤ 3 := by
    intro l hl
    obtain ⟨b, _, rfl⟩ := List.mem_map.1 hl
    have hb := b.toNat_lt
    rw [show ((b.toNat : Nat) : Int) = Int.ofNat b.toNat from rfl, showInt_ofNat,
      Nat.length_toDigits_le_iff (by decide) (by decide)]
    omega
  refine (length_intercalate_le hoctet).trans ?_
  rw [List.length_map, h]
  decide

theorem length_showSegments_le (ss : List UInt16) : (showSegments ss).length ≤ ss.length * 5 := by
  have hsegment : ∀ l ∈ ss.map showSegment, l.length ≤ 4 := by
    intro l hl
    obtain ⟨s, _, rfl⟩ := List.mem_map.1 hl
    have hs := s.toNat_lt
    rw [showSegment, Nat.length_toDigits_le_iff (by decide) (by decide)]
    omega
  refine (length_intercalate_le hsegment).trans ?_
  rw [List.length_map]
  exact Nat.le_refl _

theorem IpAddr.length_show_le (ip : IpAddr) : ip.show.length ≤ 96 := by
  cases ip with
  | v4 octets => exact (length_showV4_le octets.toList_length).trans (by decide)
  | v6 segments =>
    have hlen : segments.toList.length = 8 := segments.toList_length
    show (showV6 segments.toList).length ≤ 96
    unfold showV6
    split
    · rw [List.length_append]
      exact (Nat.add_le_add_left (length_showV4_le rfl) _).trans (by decide)
    · dsimp only
      split_ifs
      · have hbefore := length_showSegments_le
          (segments.toList.take (longestZeros 0 segments.toList).1)
        have hafter := length_showSegments_le (segments.toList.drop
          ((longestZeros 0 segments.toList).1 + (longestZeros 0 segments.toList).2))
        have hcolons : "::".toList.length = 2 := length_literal rfl
        rw [List.length_take] at hbefore
        rw [List.length_drop] at hafter
        rw [List.length_append, List.length_append, hcolons]
        omega
      · exact (length_showSegments_le _).trans (by omega)

/-- The text with each character written in one or two, in quotes. -/
theorem length_quoted {f : Char → Str} : ∀ {l : Str},
    (∀ c ∈ l, 1 ≤ (f c).length ∧ (f c).length ≤ 2) →
    l.length ≤ (['"'] ++ l.flatMap f ++ ['"']).length ∧
      (['"'] ++ l.flatMap f ++ ['"']).length ≤ 2 * l.length + 2
  | [], _ => by simp
  | c :: l, h => by
    have hc := h c (by simp)
    have hl := length_quoted (l := l) fun d hd => h d (by simp [hd])
    simp only [List.flatMap_cons, List.length_append, List.length_cons, List.length_nil] at hl ⊢
    omega

/-- Quoting a safe name at most doubles it, and does not shorten it. -/
theorem length_debugStr {cn : Str} (h : unsafeName cn = false) :
    cn.length ≤ (debugStr cn).length ∧ (debugStr cn).length ≤ 2 * cn.length + 2 := by
  unfold unsafeName at h
  rw [Bool.or_eq_false_iff, List.any_eq_false] at h
  unfold debugStr
  refine length_quoted fun c hc => ?_
  have hsafe : illegalInName c = false := by simpa using h.2 c hc
  simp only [illegalInName, Bool.or_eq_false_iff, decide_eq_false_iff_not] at hsafe
  have hcontrol : ∀ d : Char, d.toNat < 32 → c ≠ d := by
    rintro d hd rfl
    omega
  split_ifs with h1 h2 h3 h4 h5 h6
  · exact ⟨by simp, by simp⟩
  · exact absurd h2 (hcontrol _ (by decide))
  · exact absurd h3 (hcontrol _ (by decide))
  · exact absurd h4 (hcontrol _ (by decide))
  · omega
  · omega
  · exact ⟨by simp, by simp⟩

theorem length_problems_le {problems : List Str} (hcount : problems.length ≤ 2)
    (hlen : ∀ l ∈ problems, l.length ≤ 100) :
    ("incomplete attestation headers (".toList ++ "; ".toList.intercalate problems ++
      ")".toList).length ≤ 256 := by
  have hjoined : ("; ".toList.intercalate problems).length ≤ 2 * (100 + 2) :=
    (length_intercalate_le hlen).trans (Nat.mul_le_mul_right _ hcount)
  have hstart : "incomplete attestation headers (".toList.length = 32 := length_literal rfl
  have hend : ")".toList.length = 1 := length_literal rfl
  rw [List.length_append, List.length_append, hstart, hend]
  omega

theorem length_describeIncomplete_le (headers : HeaderMap) (hasHost machinePresent : Bool) :
    (describeIncomplete headers hasHost machinePresent).length ≤ 256 := by
  have hnames : ∀ h ∈ ATTESTATION_HEADERS, h.length ≤ 18 := by decide
  have hcount : (ATTESTATION_HEADERS.filter fun h => (headerStr headers h).isNone).length ≤ 3 :=
    List.length_filter_le _ _
  have hunusable : ("missing or unreadable: ".toList ++ ", ".toList.intercalate
      (ATTESTATION_HEADERS.filter fun h => (headerStr headers h).isNone)).length ≤ 100 := by
    have hjoined := (length_intercalate_le (fun h hh => hnames h (List.mem_of_mem_filter hh)) :
      (", ".toList.intercalate
        (ATTESTATION_HEADERS.filter fun h => (headerStr headers h).isNone)).length ≤ _).trans
      (Nat.mul_le_mul_right _ hcount)
    have hstart : "missing or unreadable: ".toList.length = 23 := length_literal rfl
    have hsep : ", ".toList.length = 2 := length_literal rfl
    rw [List.length_append, hstart]
    omega
  have hnohost : "no Host header or :authority".toList.length ≤ 100 :=
    length_literal_le (by decide)
  unfold describeIncomplete
  by_cases hmachine : (machinePresent && !ATTESTATION_HEADERS.any headers.containsKey) = true
  · rw [if_pos hmachine]
    decide
  · rw [if_neg hmachine]
    dsimp only
    refine length_problems_le ?_ fun l hl => ?_
    · rw [List.length_append]
      split_ifs <;> simp
    · rcases List.mem_append.1 hl with hl | hl
      · split_ifs at hl
        · cases hl
        · rw [List.mem_singleton.1 hl]
          exact hunusable
      · split_ifs at hl
        · cases hl
        · rw [List.mem_singleton.1 hl]
          exact hnohost

/-! ## Errors -/

/-- The variable part of the error is a number of the code's own, or one of its texts. -/
def AttestError.Modest : AttestError → Prop
  | .timestampDrift d | .commitTooLate d => I64_MIN ≤ d ∧ d ≤ I64_MAX
  | .invalidNonce r | .invalidToken r => r.length ≤ 32
  | _ => True

theorem AttestError.length_display_le {e : AttestError} (h : e.Modest) :
    e.display.length ≤ 256 := by
  cases e with
  | timestampDrift d =>
    have hrange : I64_MIN ≤ d ∧ d ≤ I64_MAX := h
    have hd := length_showInt_le hrange
    show ("timestamp drift ".toList ++ showInt d ++ "s exceeds ".toList ++
      showInt MAX_TS_DRIFT_SECS ++ "s window".toList).length ≤ 256
    simp only [List.length_append]
    rw [show "timestamp drift ".toList.length = 16 from length_literal rfl,
      show "s exceeds ".toList.length = 10 from length_literal rfl,
      show (showInt MAX_TS_DRIFT_SECS).length = 2 by decide,
      show "s window".toList.length = 8 from length_literal rfl]
    omega
  | commitTooLate d =>
    have hrange : I64_MIN ≤ d ∧ d ≤ I64_MAX := h
    have hd := length_showInt_le hrange
    show ("nonce committed ".toList ++ showInt d ++ "s after X-DenBrowser-Ts, past the ".toList ++
      showInt (MAX_TS_DRIFT_SECS + COMMIT_GRACE_SECS) ++
      "s commit window — the body or the checks before forwarding took too long".toList).length ≤
        256
    simp only [List.length_append]
    rw [show "nonce committed ".toList.length = 16 from length_literal rfl,
      show "s after X-DenBrowser-Ts, past the ".toList.length = 34 from length_literal rfl,
      show (showInt (MAX_TS_DRIFT_SECS + COMMIT_GRACE_SECS)).length = 2 by decide,
      show "s commit window — the body or the checks before forwarding took too long".toList.length
        = 72 from length_literal rfl]
    omega
  | invalidNonce r =>
    have hr : r.length ≤ 32 := h
    show ("invalid X-DenBrowser-Nonce: ".toList ++ r).length ≤ 256
    rw [List.length_append,
      show "invalid X-DenBrowser-Nonce: ".toList.length = 28 from length_literal rfl]
    omega
  | invalidToken r =>
    have hr : r.length ≤ 32 := h
    show ("invalid token: ".toList ++ r).length ≤ 256
    rw [List.length_append, show "invalid token: ".toList.length = 15 from length_literal rfl]
    omega
  | _ => exact length_literal_le (by decide)

theorem satI64_range (n : Int) : I64_MIN ≤ satI64 n ∧ satI64 n ≤ I64_MAX := by
  unfold satI64
  simp only [I64_MIN, I64_MAX]
  omega

theorem checkDrift_modest {ts now : Int} {e : AttestError} (h : checkDrift ts now = .error e) :
    e.Modest := by
  unfold checkDrift at h
  dsimp only at h
  split at h
  · cases h
    exact satI64_range _
  · cases h

theorem checkCommitWindow_modest {ts now : Int} {e : AttestError}
    (h : checkCommitWindow ts now = .error e) : e.Modest := by
  unfold checkCommitWindow at h
  dsimp only at h
  split at h
  · cases h
    exact satI64_range _
  · split at h
    · cases h
      exact satI64_range _
    · cases h

theorem checkTimestamp_modest {i : AttestInputs} {wall : SystemTime} {e : AttestError}
    (h : checkTimestamp i wall = .error e) : e.Modest := by
  unfold checkTimestamp at h
  split at h
  · cases h
    trivial
  · split at h
    · rename_i hdrift
      cases h
      exact checkDrift_modest hdrift
    · cases h

section PhaseOne

variable {K : Crypto} {sk : K.SecretKey} {i : AttestInputs} {e : AttestError}

theorem decodeNonce_modest (h : decodeNonce K i = .error e) : e.Modest := by
  unfold decodeNonce at h
  split at h
  · cases h
    exact length_literal_le (by decide)
  · split at h
    · cases h
    · cases h
      exact length_literal_le (by decide)

theorem decryptToken_modest (h : decryptToken K sk i = .error e) : e.Modest := by
  unfold decryptToken at h
  split at h
  · cases h
    exact length_literal_le (by decide)
  · split at h
    · cases h
      exact length_literal_le (by decide)
    · split at h
      · cases h
        exact length_literal_le (by decide)
      · dsimp only at h
        split at h
        · cases h
          trivial
        · cases h

theorem openToken_modest (h : openToken K sk i = .error e) : e.Modest := by
  unfold openToken at h
  split at h
  · rename_i hdecrypt
    cases h
    exact decryptToken_modest hdecrypt
  · rw [comparePlaintext_error h]
    trivial

/-- **The errors of phase 1 have short texts.** -/
theorem verifyHeaders_modest {wall : SystemTime} {cache : NonceCache}
    (h : verifyHeaders K sk i wall cache = .error e) : e.Modest := by
  obtain hts | hnonce | rfl | hopen := verifyHeaders_error_step h
  · exact checkTimestamp_modest hts
  · exact decodeNonce_modest hnonce
  · trivial
  · exact openToken_modest hopen

end PhaseOne

theorem commitNonce_modest {cache : NonceCache} {p1 : PhaseOne} {wall : SystemTime} {mono : Nat}
    {e : AttestError} (h : (commitNonce cache p1 wall mono).2 = .error e) : e.Modest := by
  rcases (commitNonce_error h).2 with rfl | hw
  · trivial
  · exact checkCommitWindow_modest hw

/-- The Common Name the error's text quotes. -/
def MachineError.quoted : MachineError → Option Str
  | .hostnameNotAllowed cn => some cn
  | .hostnameAddressMismatch cn _ => some cn
  | .hostnameUnresolvable cn => some cn
  | _ => none

/-- **A machine error's text is as long as the name it quotes**, up to its fixed part and the
text of the chain verification. -/
theorem MachineError.length_display_le {e : MachineError} {T N : Nat}
    (hchain : ∀ r, e = .untrustedChain r → r.length ≤ T)
    (hquoted : ∀ cn, e.quoted = some cn → unsafeName cn = false ∧ cn.length ≤ N) :
    e.display.length ≤ 256 + T + 2 * N := by
  cases e with
  | untrustedChain r =>
    have hr := hchain r rfl
    show ("machine certificate does not chain to machine_ca: ".toList ++ r).length ≤ _
    rw [List.length_append,
      show "machine certificate does not chain to machine_ca: ".toList.length = 50
        from length_literal rfl]
    omega
  | hostnameNotAllowed cn =>
    obtain ⟨hsafe, hlen⟩ := hquoted cn rfl
    have hdebug := (length_debugStr hsafe).2
    show ("machine hostname ".toList ++ debugStr cn ++
      " matches no allowed_hostnames pattern".toList).length ≤ _
    rw [List.length_append, List.length_append,
      show "machine hostname ".toList.length = 17 from length_literal rfl,
      show " matches no allowed_hostnames pattern".toList.length = 37 from length_literal rfl]
    omega
  | hostnameAddressMismatch cn ip =>
    obtain ⟨hsafe, hlen⟩ := hquoted cn rfl
    have hdebug := (length_debugStr hsafe).2
    have hip := ip.length_show_le
    show ("machine hostname ".toList ++ debugStr cn ++
      " does not resolve to the connecting address ".toList ++ ip.show).length ≤ _
    rw [List.length_append, List.length_append, List.length_append,
      show "machine hostname ".toList.length = 17 from length_literal rfl,
      show " does not resolve to the connecting address ".toList.length = 44
        from length_literal rfl]
    omega
  | hostnameUnresolvable cn =>
    obtain ⟨hsafe, hlen⟩ := hquoted cn rfl
    have hdebug := (length_debugStr hsafe).2
    show ("machine hostname ".toList ++ debugStr cn ++
      " could not be resolved".toList).length ≤ _
    rw [List.length_append, List.length_append,
      show "machine hostname ".toList.length = 17 from length_literal rfl,
      show " could not be resolved".toList.length = 22 from length_literal rfl]
    omega
  | _ => exact Nat.le_trans (m := 256) (length_literal_le (by decide)) (by omega)

theorem MachineError.length_quoted_le {e : MachineError} {cn : Str} (hquoted : e.quoted = some cn)
    (hsafe : unsafeName cn = false) : cn.length ≤ e.display.length := by
  have hdebug := (length_debugStr hsafe).1
  cases e with
  | hostnameNotAllowed cn' =>
    cases hquoted
    show _ ≤ ("machine hostname ".toList ++ debugStr cn ++
      " matches no allowed_hostnames pattern".toList).length
    rw [List.length_append, List.length_append]
    exact hdebug.trans ((Nat.le_add_left _ _).trans (Nat.le_add_right _ _))
  | hostnameAddressMismatch cn' ip =>
    cases hquoted
    show _ ≤ ("machine hostname ".toList ++ debugStr cn ++
      " does not resolve to the connecting address ".toList ++ ip.show).length
    rw [List.length_append, List.length_append, List.length_append]
    exact hdebug.trans ((Nat.le_add_left _ _).trans ((Nat.le_add_right _ _).trans
      (Nat.le_add_right _ _)))
  | hostnameUnresolvable cn' =>
    cases hquoted
    show _ ≤ ("machine hostname ".toList ++ debugStr cn ++ " could not be resolved".toList).length
    rw [List.length_append, List.length_append]
    exact hdebug.trans ((Nat.le_add_left _ _).trans (Nat.le_add_right _ _))
  | _ => cases hquoted

/-! ## The certificate's name -/

section Shown

variable {L : Crates} {m : MachineIdentity L} {certB64 : Str} {clientIp : Option IpAddr}
  {wall : SystemTime} {d : DnsEnv} {cn : Str}

/-- The certificate has a safe Common Name and, if the allowlist has the name, chains to the
machine CA: the check goes on to quote the name or to return it. -/
structure ShowsName (m : MachineIdentity L) (certB64 : Str) (wall : SystemTime) (cn : Str) :
    Prop where
  cert : ∃ der x, L.base64Decode (trim certB64) = some der ∧ L.fromDer der = some x ∧
    (ClientCert.fromCert L x).commonName = some cn ∧
    (m.nameAllowed (toAsciiLowercase cn) = true →
      ∃ r, L.chainVerify m.store x wall = .ok r ∧ r.ok = true)
  safe : unsafeName cn = false

theorem ShowsName.verifyCert (h : ShowsName m certB64 wall cn) :
    m.verifyCert certB64 wall = .error (.hostnameNotAllowed (toAsciiLowercase cn)) ∨
      ∃ machine, m.verifyCert certB64 wall = .ok machine ∧
        machine.hostname = toAsciiLowercase cn := by
  obtain ⟨⟨der, x, hder, hx, hcn, hchain⟩, hsafe⟩ := h
  unfold MachineIdentity.verifyCert
  simp only [hder, hx, hcn, hsafe, Bool.false_eq_true, if_false]
  cases hallowed : m.nameAllowed (toAsciiLowercase cn) with
  | false => exact Or.inl rfl
  | true =>
    obtain ⟨r, hr, hok⟩ := hchain hallowed
    simp only [hr, hok, Bool.true_eq_false, if_false, if_true]
    exact Or.inr ⟨_, rfl, rfl⟩

theorem checkAddress_quoted {machine : VerifiedMachine} {ip : IpAddr} {r : Option (List IpAddr)}
    {e : MachineError} (h : checkAddress machine ip r = .error e) :
    e.quoted = some machine.hostname := by
  unfold checkAddress at h
  repeat' split at h
  all_goals first
    | (cases h; rfl)
    | cases h

/-- **A shown name is quoted by the refusal or returned.** -/
theorem ShowsName.verify (h : ShowsName m certB64 wall cn) (ip : IpAddr) :
    (∃ e, (m.verify certB64 (some ip) wall d).result = .error e ∧
      e.quoted = some (toAsciiLowercase cn)) ∨
    ∃ machine, (m.verify certB64 (some ip) wall d).result = .ok machine ∧
      machine.hostname = toAsciiLowercase cn := by
  unfold MachineIdentity.verify
  dsimp only
  rcases h.verifyCert with hcert | ⟨machine, hcert, hname⟩
  · rw [hcert]
    exact Or.inl ⟨_, rfl, rfl⟩
  · rw [hcert]
    dsimp only
    cases hcheck : checkAddress machine ip (m.resolveCached machine.hostname d).result with
    | error e => exact Or.inl ⟨e, rfl, by rw [checkAddress_quoted hcheck, hname]⟩
    | ok machine' =>
      obtain ⟨rfl, _⟩ := checkAddress_ok_iff.1 hcheck
      exact Or.inr ⟨machine', rfl, hname⟩

/-- A shown name comes back in lower case, of the same length. -/
theorem ShowsName.lowercase (h : ShowsName m certB64 wall cn) :
    unsafeName (toAsciiLowercase cn) = false ∧ (toAsciiLowercase cn).length = cn.length :=
  ⟨unsafeName_toAsciiLowercase h.safe, List.length_map _⟩

theorem CertAccepted.shows {machine : VerifiedMachine}
    (h : CertAccepted m certB64 wall machine) :
    ∃ cn, ShowsName m certB64 wall cn ∧ machine.hostname = toAsciiLowercase cn := by
  obtain ⟨⟨der, x, cn, r, hder, hx, hcn, hname, _, hsafe, hr, hok⟩, _, _⟩ := h
  exact ⟨cn, ⟨⟨der, x, hder, hx, hcn, fun _ => ⟨r, hr, hok⟩⟩, hsafe⟩, hname⟩

/-- The reasons `openssl` gives for the store's verdicts are at most `T` characters long. -/
def ChainTexts (T : Nat) (m : MachineIdentity L) (wall : SystemTime) : Prop :=
  ∀ x, (∀ text, L.chainVerify m.store x wall = .error text → text.length ≤ T) ∧
    ∀ r, L.chainVerify m.store x wall = .ok r → r.reason.length ≤ T

theorem verifyCert_error_texts {T : Nat} (hT : ChainTexts T m wall) {e : MachineError}
    (h : m.verifyCert certB64 wall = .error e) :
    (∀ r, e = .untrustedChain r → r.length ≤ T) ∧
      ∀ name, e.quoted = some name →
        ∃ cn, ShowsName m certB64 wall cn ∧ name = toAsciiLowercase cn := by
  have hplain : ∀ e : MachineError, e.quoted = none → ∀ name, e.quoted = some name →
      ∃ cn, ShowsName m certB64 wall cn ∧ name = toAsciiLowercase cn := by
    intro e hnone name hsome
    rw [hnone] at hsome
    cases hsome
  unfold MachineIdentity.verifyCert at h
  split at h
  · cases h
    exact ⟨fun r hr => (nomatch hr), hplain _ rfl⟩
  · rename_i der hder
    split at h
    · cases h
      exact ⟨fun r hr => (nomatch hr), hplain _ rfl⟩
    · rename_i x hx
      split at h
      · cases h
        exact ⟨fun r hr => (nomatch hr), hplain _ rfl⟩
      · rename_i cn hcn
        split at h
        · cases h
          exact ⟨fun r hr => (nomatch hr), hplain _ rfl⟩
        · rename_i hsafe
          simp only [Bool.not_eq_true] at hsafe
          split at h
          · rename_i hallowed
            cases h
            refine ⟨fun r hr => (nomatch hr), fun name hname => ?_⟩
            cases hname
            refine ⟨cn, ⟨⟨der, x, hder, hx, hcn, fun htrue => ?_⟩, hsafe⟩, rfl⟩
            rw [hallowed] at htrue
            cases htrue
          · split at h
            · rename_i text htext
              cases h
              refine ⟨fun r hr => ?_, hplain _ rfl⟩
              cases hr
              exact (hT x).1 text htext
            · rename_i res hres
              split at h
              · cases h
              · split at h
                · cases h
                  exact ⟨fun r hr => (nomatch hr), hplain _ rfl⟩
                · split at h
                  · cases h
                    exact ⟨fun r hr => (nomatch hr), hplain _ rfl⟩
                  · cases h
                    refine ⟨fun r hr => ?_, hplain _ rfl⟩
                    cases hr
                    exact (hT x).2 res hres

/-- **Where the texts of a machine refusal come from**: openssl's reasons, and the shown name. -/
theorem verify_error_texts {T : Nat} (hT : ChainTexts T m wall) {e : MachineError}
    (h : (m.verify certB64 clientIp wall d).result = .error e) :
    (∀ r, e = .untrustedChain r → r.length ≤ T) ∧
      ∀ name, e.quoted = some name →
        (∃ ip, clientIp = some ip) ∧
          ∃ cn, ShowsName m certB64 wall cn ∧ name = toAsciiLowercase cn := by
  unfold MachineIdentity.verify at h
  split at h
  · cases h
    exact ⟨fun r hr => (nomatch hr), fun name hname => (nomatch hname)⟩
  · rename_i ip
    split at h
    · rename_i hcert
      cases h
      obtain ⟨hchain, hname⟩ := verifyCert_error_texts hT hcert
      exact ⟨hchain, fun name hq => ⟨⟨ip, rfl⟩, hname name hq⟩⟩
    · rename_i machine hcert
      have hquoted := checkAddress_quoted h
      obtain ⟨cn, hshows, hname⟩ := (verifyCert_ok_iff.1 hcert).shows
      refine ⟨fun r hr => ?_, fun name hq => ⟨⟨ip, rfl⟩, cn, hshows, ?_⟩⟩
      · rw [hr] at hquoted
        cases hquoted
      · rw [hquoted] at hq
        rw [← Option.some.inj hq, hname]

theorem verify_ok_shows {machine : VerifiedMachine}
    (h : (m.verify certB64 clientIp wall d).result = .ok machine) :
    (∃ ip, clientIp = some ip) ∧
      ∃ cn, ShowsName m certB64 wall cn ∧ machine.hostname = toAsciiLowercase cn := by
  obtain ⟨ip, _, hip, hcert, _⟩ := verify_ok_cases h
  exact ⟨⟨ip, hip⟩, (verifyCert_ok_iff.1 hcert).shows⟩

end Shown

/-! ## The gate at the certificate -/

section Checked

variable {L : Crates} {p : Proxy L} {s : Session} {env : Env}

theorem bodyStep_machine (s : Session) (env : Env) (f : Flow L) (p1 : PhaseOne) :
    (bodyStep s env f p1).1.ctx.machine = f.ctx.machine := by
  have hsettle : ∀ r, (f.settle r).1.ctx.machine = f.ctx.machine := by
    intro r
    unfold Flow.settle
    split <;> rfl
  unfold bodyStep
  split
  · exact hsettle _
  · split
    · rfl
    · rfl
    · exact hsettle _

/-- **How the gate goes on from the certificate**: it refuses with the check's error, or keeps
the verified name. -/
theorem requestFilter_checked {m : MachineIdentity L} {cert : Str}
    (h : MachineChecked p s env m cert) :
    let r := (m.verify cert s.clientIp env.chainWall env.dns).result
    let a := (requestFilter p s env).1.ctx
    (∀ e, r = .error e → a.Refused e.reason e.display) ∧
      ∀ machine, r = .ok machine → a.machine.hostname = some machine.hostname := by
  obtain ⟨hadmitted, hnot, ⟨p1, i, hi, hv⟩, hm, hcert⟩ := h
  have hrate : (rateStep p s env).2 = true := rateStep_admits.2 hadmitted
  have hsubject : bypassSubject p s = none := by
    rw [← Option.not_isSome_iff_eq_none, Option.isSome_iff_exists, bypassSubject_isSome]
    exact hnot
  have hpresent : s.machinePresent = true := headerStr_containsKey hcert
  have hinputs : (⟨i.ts, i.nonceB64, i.tokenB64, i.host, s.req.method, s.req.path⟩ :
      AttestInputs) = i := by
    rw [hi.method, hi.path]
  have hopen : (openAudit p s).presentedMachineCert = some cert := by
    rw [openAudit_undecided.2.presented, hcert]
  unfold requestFilter headersStep
  simp only [hrate, hsubject, hi.ts, hi.nonce, hi.token, hi.host, Bool.true_eq_false, if_false]
  unfold preflightStep tokenStep machineStep
  simp only [hm, hpresent, hinputs, hv, Bool.true_eq_false, if_false, if_true]
  have hctx : ∀ b, ((openAudit p s).tokenVerifiedWith b).presentedMachineCert = some cert :=
    fun _ => hopen
  simp only [hctx]
  constructor
  · intro e he
    simp only [he]
    exact ⟨rfl, rfl, rfl⟩
  · intro machine hmachine
    simp only [hmachine, bodyStep_machine]
    rfl

end Checked

/-! ## The accumulator -/

theorem length_bounded_le (s : Str) (n : Nat) : (bounded s n).length ≤ n + 1 := by
  unfold bounded
  split
  · omega
  · rw [List.length_append, List.length_take, List.length_singleton]
    omega

/-- The accumulator's texts are at most `K` characters long. -/
structure RequestAudit.Within (K : Nat) (a : RequestAudit) : Prop where
  message : ∀ text ∈ a.message, text.length ≤ K
  subjectDn : ∀ text ∈ a.machine.subjectDn, text.length ≤ K
  hostname : ∀ text ∈ a.machine.hostname, text.length ≤ K
  host : ∀ text ∈ a.host, text.length ≤ K
  method : ∀ text ∈ a.method, text.length ≤ K
  nonce : ∀ text ∈ a.attestation.nonce, text.length ≤ K

section Within

variable {L : Crates} {p : Proxy L} {s : Session} {env : Env} {a : RequestAudit} {K T N : Nat}

/-- Only the message of the accumulator changes. -/
theorem RequestAudit.Within.withMessage (h : a.Within K) {b : RequestAudit} {text : Str}
    (htext : text.length ≤ K) (hmessage : b.message = some text)
    (hsubject : b.machine.subjectDn = a.machine.subjectDn)
    (hhostname : b.machine.hostname = a.machine.hostname) (hhost : b.host = a.host)
    (hmethod : b.method = a.method) (hnonce : b.attestation.nonce = a.attestation.nonce) :
    b.Within K where
  message := by
    rw [hmessage]
    rintro _ ⟨⟩
    exact htext
  subjectDn := hsubject ▸ h.subjectDn
  hostname := hhostname ▸ h.hostname
  host := hhost ▸ h.host
  method := hmethod ▸ h.method
  nonce := hnonce ▸ h.nonce

theorem openAudit_within (env : Env) (hK : 2048 ≤ K) : (openAudit p s).Within K := by
  have hnone : (openAudit p s).message = none ∧ (openAudit p s).machine.subjectDn = none ∧
      (openAudit p s).machine.hostname = none := by
    unfold openAudit
    dsimp only
    split <;> exact ⟨rfl, rfl, rfl⟩
  obtain ⟨hhost, hmethod, hnonce⟩ :=
    (Written.opened : Written p s env (openAudit p s)).request
  refine ⟨?_, ?_, ?_, ?_, ?_, ?_⟩
  · rw [hnone.1]
    rintro _ ⟨⟩
  · rw [hnone.2.1]
    rintro _ ⟨⟩
  · rw [hnone.2.2]
    rintro _ ⟨⟩
  · rw [hhost]
    intro text htext
    obtain ⟨host, _, rfl⟩ := Option.mem_map.1 htext
    exact (length_bounded_le _ _).trans ((by decide : MAX_HOST_CHARS + 1 ≤ 2048).trans hK)
  · rw [hmethod]
    rintro _ ⟨⟩
    exact (length_bounded_le _ _).trans ((by decide : MAX_METHOD_CHARS + 1 ≤ 2048).trans hK)
  · rw [hnonce]
    intro text htext
    obtain ⟨nonce, _, rfl⟩ := Option.mem_map.1 htext
    exact (length_bounded_le _ _).trans ((by decide : MAX_NONCE_CHARS + 1 ≤ 2048).trans hK)

/-- The texts of the other refusals. -/
theorem GateMessage.length_le {text : Str} (h : GateMessage p s env text)
    (hread : ∀ etype ∈ s.req.readError, etype.length ≤ T) : text.length ≤ 512 + T := by
  cases h with
  | rate => exact Nat.le_trans (length_literal_le (by decide)) (Nat.le_add_right 512 _)
  | noHeaders => exact (by decide : _ ≤ 512).trans (Nat.le_add_right _ _)
  | incomplete hasHost =>
    have := length_describeIncomplete_le s.req.headers hasHost s.machinePresent
    omega
  | token hv =>
    have := AttestError.length_display_le (verifyHeaders_modest hv)
    omega
  | tooLarge => exact (by decide : _ ≤ 512).trans (Nat.le_add_right _ _)
  | readFailed he =>
    have hlen := hread _ he
    rw [List.length_append,
      show "could not read request body: ".toList.length = 29 from length_literal rfl]
    omega
  | bodyHash => exact Nat.le_trans (length_literal_le (by decide)) (Nat.le_add_right 512 _)
  | commit hc =>
    have := AttestError.length_display_le (commitNonce_modest hc)
    omega

/-- The names the check of the presented certificate quotes or returns. -/
def ShownName (p : Proxy L) (s : Session) (env : Env) (cn : Str) : Prop :=
  ∃ m cert ip, MachineChecked p s env m cert ∧ s.clientIp = some ip ∧
    ShowsName m cert env.chainWall cn

/-- **What the gate leaves is as long as the names it shows**, and as openssl's reasons and
pingora's error types. -/
theorem Written.within (h : Written p s env a)
    (hchain : ∀ m, p.machine = some m → ChainTexts T m env.chainWall)
    (hread : ∀ etype ∈ s.req.readError, etype.length ≤ T)
    (hnames : ∀ cn, ShownName p s env cn → cn.length ≤ N) :
    a.Within (2048 + T + 2 * N) := by
  have hmessage : ∀ {text}, GateMessage p s env text → text.length ≤ 2048 + T + 2 * N := by
    intro text htext
    have := htext.length_le hread
    omega
  induction h with
  | opened => exact openAudit_within env (by omega)
  | machineAbsent _ ih =>
    exact ⟨ih.message, ih.subjectDn, ih.hostname, ih.host, ih.method, ih.nonce⟩
  | tokenVerified _ _ ih =>
    exact ⟨ih.message, ih.subjectDn, ih.hostname, ih.host, ih.method, ih.nonce⟩
  | @machineVerified a m cert machine _ hchecked hok ih =>
    obtain ⟨⟨ip, hip⟩, cn, hshows, hname⟩ := verify_ok_shows hok
    have hcn := hnames cn ⟨m, cert, ip, hchecked, hip, hshows⟩
    refine ⟨ih.message, ?_, ?_, ih.host, ih.method, ih.nonce⟩
    · rintro _ ⟨⟩
      have := length_bounded_le machine.subjectDn MAX_DN_CHARS
      simp only [MAX_DN_CHARS] at this ⊢
      omega
    · rintro _ ⟨⟩
      rw [hname, hshows.lowercase.2]
      omega
  | rejected reason _ htext ih =>
    exact ih.withMessage (hmessage htext) rfl rfl rfl rfl rfl rfl
  | @machineRejected a e _ herror ih =>
    have hdisplay : e.display.length ≤ 2048 + T + 2 * N := by
      have hbound : e.display.length ≤ 256 + T + 2 * N := by
        cases herror with
        | missing =>
          exact MachineError.length_display_le (fun _ hr => nomatch hr) (fun _ hq => nomatch hq)
        | unreadable =>
          exact MachineError.length_display_le (fun _ hr => nomatch hr) (fun _ hq => nomatch hq)
        | @checked m cert _ hchecked hresult =>
          obtain ⟨hreason, hquoted⟩ := verify_error_texts (hchain m hchecked.machine) hresult
          refine MachineError.length_display_le hreason fun name hq => ?_
          obtain ⟨⟨ip, hip⟩, cn, hshows, rfl⟩ := hquoted name hq
          rw [hshows.lowercase.2]
          exact ⟨hshows.lowercase.1, hnames cn ⟨m, cert, ip, hchecked, hip, hshows⟩⟩
      omega
    exact ih.withMessage hdisplay rfl rfl rfl rfl rfl rfl
  | forwarded _ ih =>
    refine ih.withMessage ?_ rfl rfl rfl rfl rfl rfl
    split
    · exact Nat.le_trans (m := 2048) (length_literal_le (by decide)) (by omega)
    · exact Nat.le_trans (m := 2048) (length_literal_le (by decide)) (by omega)
  | bypassed subject _ ih =>
    refine ih.withMessage ?_ rfl rfl rfl rfl rfl rfl
    have := length_bounded_le subject MAX_DN_CHARS
    simp only [MAX_DN_CHARS] at this ⊢
    rw [List.length_append,
      show "attestation bypassed for allowlisted client certificate subject ".toList.length = 64
        from length_literal rfl]
    omega

end Within

/-! ## Records -/

/-- The strings of a record a client has a say in. -/
def AuditRecord.clientTexts (r : AuditRecord) : List Str :=
  r.message :: [r.machine.subjectDn, r.machine.hostname, r.tlsClientSubject, r.serverAddress,
    r.httpMethod, r.attestation.nonce].filterMap id

/-- A request as the proxy handled it, with the terminal error it ended in and the record's time
and duration. -/
structure Handled (L : Crates) where
  proxy : Proxy L
  session : Session
  env : Env
  transfer : Transfer
  error : Option PingoraError
  timestamp : Str
  durationMs : Nat

def Handled.record {L : Crates} (h : Handled L) : AuditRecord :=
  (requestFilter h.proxy h.session h.env).1.ctx.record L (h.session.connection h.transfer)
    (h.error.map classifyProxyError) h.timestamp h.durationMs

/-- The names the check of the request's certificate quotes or returns. -/
def Handled.Shows {L : Crates} (h : Handled L) (cn : Str) : Prop :=
  ShownName h.proxy h.session h.env cn

/-- The texts `openssl` and `pingora` name their errors by are at most `T` characters long. -/
structure Handled.ErrorTexts {L : Crates} (T : Nat) (h : Handled L) : Prop where
  chain : ∀ m, h.proxy.machine = some m → ChainTexts T m h.env.chainWall
  read : ∀ etype ∈ h.session.req.readError, etype.length ≤ T
  terminal : ∀ e ∈ h.error, e.etype.length ≤ T

/-- One length bounds every client-influenced string of the records. -/
def Capped {L : Crates} (Ω : Set (Handled L)) : Prop :=
  ∃ K, ∀ h ∈ Ω, ∀ text ∈ h.record.clientTexts, text.length ≤ K

section Records

variable {L : Crates} {a : RequestAudit} {K T N : Nat}

theorem length_classifyProxyError_le (e : PingoraError) :
    (classifyProxyError e).2.length ≤ 32 + e.etype.length := by
  obtain ⟨src, bad, text⟩ := e
  have hside : ∀ side : Str, side.length ≤ 17 →
      (side ++ " error: ".toList ++ text).length ≤ 32 + text.length := by
    intro side hside
    rw [List.length_append, List.length_append,
      show " error: ".toList.length = 8 from length_literal rfl]
    omega
  cases src with
  | downstream => cases bad <;> exact hside _ (length_literal_le (by decide))
  | _ => exact hside _ (length_literal_le (by decide))

theorem length_finalError_le {error : Option (Reason × Str)} (hK : 2048 ≤ K)
    (herror : ∀ e ∈ error, e.2.length ≤ K) : ∀ e ∈ a.finalError error, e.2.length ≤ K := by
  unfold RequestAudit.finalError
  split
  · rintro _ ⟨⟩
    exact Nat.le_trans (length_literal_le (by decide)) hK
  · exact herror

theorem RequestAudit.Within.takeError (h : a.Within K) {error : Option (Reason × Str)}
    (herror : ∀ e ∈ error, e.2.length ≤ K) : (a.takeError error).Within K := by
  unfold RequestAudit.takeError
  cases error with
  | none => exact h
  | some e =>
    dsimp only
    split
    · exact h.withMessage (herror e rfl) rfl rfl rfl rfl rfl rfl
    · exact h.withMessage (herror e rfl) rfl rfl rfl rfl rfl rfl
    · exact h.withMessage (herror e rfl) rfl rfl rfl rfl rfl rfl
    · exact h

theorem RequestAudit.Within.takeSubjectDn (h : a.Within K) (hK : 2048 ≤ K) :
    (a.takeSubjectDn L).Within K := by
  unfold RequestAudit.takeSubjectDn
  split
  · split
    · refine ⟨h.message, fun text htext => ?_, h.hostname, h.host, h.method, h.nonce⟩
      obtain ⟨dn, _, rfl⟩ := Option.mem_map.1 htext
      exact (length_bounded_le _ _).trans ((by decide : MAX_DN_CHARS + 1 ≤ 2048).trans hK)
    · exact h
  · exact h

/-- **A record is as long as its accumulator.** -/
theorem RequestAudit.Within.record (h : a.Within K) (hK : 2048 ≤ K) {conn : Connection}
    {error : Option (Reason × Str)} (herror : ∀ e ∈ error, e.2.length ≤ K) {timestamp : Str}
    {durationMs : Nat} :
    ∀ text ∈ (a.record L conn error timestamp durationMs).clientTexts, text.length ≤ K := by
  have hb : ((a.takeError (a.finalError error)).takeSubjectDn L).Within K :=
    (h.takeError (length_finalError_le hK herror)).takeSubjectDn hK
  intro text htext
  unfold AuditRecord.clientTexts at htext
  rcases List.mem_cons.1 htext with rfl | htext
  · show (((a.takeError (a.finalError error)).takeSubjectDn L).message.getD []).length ≤ K
    cases hmessage : ((a.takeError (a.finalError error)).takeSubjectDn L).message with
    | none => exact Nat.zero_le _
    | some message => exact hb.message _ hmessage
  · obtain ⟨field, hfield, htext⟩ := List.mem_filterMap.1 htext
    simp only [id_eq] at htext
    subst htext
    simp only [List.mem_cons, List.not_mem_nil, or_false] at hfield
    rcases hfield with hfield | hfield | hfield | hfield | hfield | hfield
    · exact hb.subjectDn text hfield.symm
    · exact hb.hostname text hfield.symm
    · obtain ⟨dn, _, rfl⟩ := Option.map_eq_some_iff.1 hfield.symm
      exact (length_bounded_le _ _).trans ((by decide : MAX_DN_CHARS + 1 ≤ 2048).trans hK)
    · exact hb.host text hfield.symm
    · exact hb.method text hfield.symm
    · exact hb.nonce text hfield.symm

variable {h : Handled L}

/-- **A record is no longer than the names its request shows**, up to the fixed texts. -/
theorem Handled.length_le (hT : h.ErrorTexts T) (hnames : ∀ cn, h.Shows cn → cn.length ≤ N) :
    ∀ text ∈ h.record.clientTexts, text.length ≤ 2048 + T + 2 * N := by
  have hwithin := (requestFilter_written h.proxy h.session h.env).within hT.chain hT.read hnames
  refine hwithin.record (by omega) fun e he => ?_
  obtain ⟨terminal, hterminal, rfl⟩ := Option.mem_map.1 he
  have hlen := length_classifyProxyError_le terminal
  have htype := hT.terminal terminal hterminal
  omega

/-- **A shown name is in the record whole**, in the message or as the verified hostname. -/
theorem Handled.shown_le {cn : Str} (hshows : h.Shows cn) :
    ∃ text ∈ h.record.clientTexts, cn.length ≤ text.length := by
  obtain ⟨m, cert, ip, hchecked, hip, hname⟩ := hshows
  obtain ⟨hrefused, hkept⟩ := requestFilter_checked hchecked
  obtain ⟨hsafe, hlen⟩ := hname.lowercase
  rw [hip] at hrefused hkept
  rcases hname.verify ip (d := h.env.dns) with ⟨e, he, hquoted⟩ | ⟨machine, hok, hmachine⟩
  · refine ⟨h.record.message, List.mem_cons_self, ?_⟩
    have hmessage : h.record.message = e.display :=
      (record_refused L _ _ _ _ (hrefused e he)).2.2.2.2.2.2
    rw [hmessage, ← hlen]
    exact MachineError.length_quoted_le hquoted hsafe
  · refine ⟨machine.hostname, List.mem_cons_of_mem _ (List.mem_filterMap.2 ?_), ?_⟩
    · refine ⟨some machine.hostname, ?_, rfl⟩
      have hhostname : h.record.machine.hostname = some machine.hostname := by
        rw [Handled.record, (record_fields L _ _ _ _ _).2.2.1]
        exact hkept machine hok
      rw [← hhostname]
      simp
    · rw [hmachine, hlen]

/-- **When the records are capped.**  The client-influenced strings of the records of a set of
requests have a common bound exactly when the Common Names do that the machine check quotes or
returns: the setters cap every other string, and nothing caps these. -/
theorem records_capped_iff (Ω : Set (Handled L)) (hT : ∀ h ∈ Ω, h.ErrorTexts T) :
    Capped Ω ↔ ∃ N, ∀ h ∈ Ω, ∀ cn, h.Shows cn → cn.length ≤ N := by
  constructor
  · rintro ⟨K, hK⟩
    refine ⟨K, fun h hh cn hcn => ?_⟩
    obtain ⟨text, htext, hlen⟩ := Handled.shown_le hcn
    exact hlen.trans (hK h hh text htext)
  · rintro ⟨N, hN⟩
    exact ⟨2048 + T + 2 * N, fun h hh => Handled.length_le (hT h hh) (hN h hh)⟩

end Records

/-! ## Names of any length -/

/-- The crates as they behave on the recorded exchange, for certificates that are nothing but a
Common Name: `a` as often as the DER is long. -/
def namedCrates : Crates where
  toCrypto := recorded [exchangeA]
  IpNet := IpAddr
  netContains net ip := net == ip
  GlobMatcher := Str
  isMatch g s := g == s
  Rate := Nat
  observe rate _ _ := (rate + 1, rate + 1)
  X509 := Nat
  X509Store := Unit
  fromDer der := some der.length
  subject n := [⟨some "CN".toList, "2.5.4.3".toList, true, some (List.replicate n 'a'),
    List.replicate n 'a'⟩]
  subjectAltNames _ := none
  chainVerify _ _ _ := .ok ⟨false, 20, "unable to get local issuer certificate".toList⟩

/-- An identity layer that allows one name. -/
def namedIdentity : MachineIdentity namedCrates where
  store := ()
  allowed := [workstationName]
  required := true
  dnsTtl := 60 * NANOS
  dnsNegativeTtl := 5 * NANOS
  dnsStaleGrace := 300 * NANOS

/-- The certificate header whose DER is `n` bytes long. -/
def namedCert (n : Nat) : Str := Base64.encode (List.replicate n 0)

/-- The recorded request, with a certificate for a name of `n` characters. -/
def namedRequest (n : Nat) : Handled namedCrates where
  proxy := ⟨(), none, none, some namedIdentity⟩
  session :=
    { req :=
        { method := exchangeA.method
          headers := (MACHINE_CERT_HEADER, asBytes (namedCert n)) ::
            [(HOST_HEADER, asBytes exchangeA.host), (TS_HEADER, asBytes exchangeA.ts),
              (NONCE_HEADER, asBytes exchangeA.inputs.nonceB64),
              (TOKEN_HEADER, asBytes exchangeA.inputs.tokenB64)]
          authority := none
          pathAndQuery := some exchangeA.path
          chunks := []
          readError := none }
      clientAddr := some ⟨workstationIp, 50000⟩
      serverAddr := none
      clientCert := none }
  env := replayEnv
  transfer := ⟨some 403, 0, 0⟩
  error := none
  timestamp := "2025-10-09T08:53:20Z".toList
  durationMs := 1

theorem headerStr_cons_of_ne {k name : Str} {v : Bytes} {headers : HeaderMap} (h : k ≠ name) :
    headerStr ((k, v) :: headers) name = headerStr headers name := by
  unfold headerStr HeaderMap.get
  rw [List.find?_cons_of_neg (by simpa using h)]

theorem namedCert_visible {n : Nat} {c : Char} (h : c ∈ namedCert n) :
    isVisible c = true ∧ isWhitespace c = false := by
  have hascii : 43 ≤ c.toNat ∧ c.toNat ≤ 122 := by
    rcases Base64.mem_encode h with hdigit | rfl
    · unfold Base64.isDigit Base64.value at hdigit
      split_ifs at hdigit with h1 h2 h3 h4 h5
      · omega
      · omega
      · omega
      · rw [h4]
        decide
      · rw [h5]
        decide
      · cases hdigit
    · decide
  refine ⟨isVisible_iff.2 (by omega), ?_⟩
  simp only [isWhitespace, List.contains_eq_mem, List.mem_cons, List.not_mem_nil, or_false,
    Bool.or_eq_false_iff, Bool.and_eq_false_iff, decide_eq_false_iff_not]
  omega

theorem trim_eq_self {s : Str} (h : ∀ c ∈ s, isWhitespace c = false) : trim s = s := by
  have hdrop : ∀ {l : Str}, (∀ c ∈ l, isWhitespace c = false) → l.dropWhile isWhitespace = l := by
    intro l hl
    cases l with
    | nil => rfl
    | cons c l => rw [List.dropWhile_cons_of_neg (by rw [hl c (by simp)]; decide)]
  unfold trim
  rw [hdrop h, hdrop (fun c hc => h c (List.mem_reverse.1 hc)), List.reverse_reverse]

theorem namedRequest_cert (n : Nat) :
    headerStr (namedRequest n).session.req.headers MACHINE_CERT_HEADER = some (namedCert n) ∧
      namedCrates.base64Decode (trim (namedCert n)) = some (List.replicate n 0) := by
  constructor
  · show (some (asBytes (namedCert n))).bind toStr = _
    rw [Option.bind_some, toStr_asBytes fun c hc => (namedCert_visible hc).1]
  · rw [trim_eq_self fun c hc => (namedCert_visible hc).2]
    exact Base64.decode_encode _

theorem namedRequest_presents (n : Nat) :
    (namedRequest n).session.req.Presents exchangeA.inputs where
  ts := by
    show headerStr ((MACHINE_CERT_HEADER, _) :: _) _ = _
    rw [headerStr_cons_of_ne (by decide)]
    decide +kernel
  nonce := by
    show headerStr ((MACHINE_CERT_HEADER, _) :: _) _ = _
    rw [headerStr_cons_of_ne (by decide)]
    decide +kernel
  token := by
    show headerStr ((MACHINE_CERT_HEADER, _) :: _) _ = _
    rw [headerStr_cons_of_ne (by decide)]
    decide +kernel
  host := by
    show ((headerStr ((MACHINE_CERT_HEADER, _) :: _) _).or none).map _ = _
    rw [headerStr_cons_of_ne (by decide)]
    decide +kernel
  method := rfl
  path := rfl

theorem namedRequest_checked (n : Nat) :
    MachineChecked (namedRequest n).proxy (namedRequest n).session (namedRequest n).env
      namedIdentity (namedCert n) where
  admitted := fun _ _ h => nomatch h
  notBypassed := by
    rintro ⟨_, _, _, h, _⟩
    cases h
  phaseOne := by
    have hok : verifyHeaders (recorded [exchangeA]) () exchangeA.inputs wallA .empty =
        .ok ⟨⟨exchangeA.nonce, by decide⟩, .unbound, 1760000000⟩ := by decide +kernel
    exact ⟨_, exchangeA.inputs, namedRequest_presents n, hok⟩
  machine := rfl
  presented := (namedRequest_cert n).1

theorem namedIdentity_refuses (n : Nat) :
    namedIdentity.nameAllowed (toAsciiLowercase (List.replicate n 'a')) = false := by
  have hw : 'w' ∈ workstationName := by decide
  have hne : workstationName ≠ toAsciiLowercase (List.replicate n 'a') := by
    intro h
    rw [h, toAsciiLowercase, List.map_replicate] at hw
    exact absurd (List.eq_of_mem_replicate hw) (by decide)
  show (false || (workstationName == _ || false)) = false
  simpa using hne

/-- The check quotes the name of the presented certificate. -/
theorem namedRequest_shows_iff {n : Nat} {cn : Str} :
    (namedRequest n).Shows cn ↔ cn = List.replicate n 'a' ∧ n ≠ 0 := by
  constructor
  · rintro ⟨m, cert, ip, hchecked, _, ⟨⟨der, x, hder, hx, hcn, _⟩, hsafe⟩⟩
    have hcert : some (namedCert n) = some cert :=
      (namedRequest_cert n).1.symm.trans hchecked.presented
    rw [← Option.some.inj hcert, (namedRequest_cert n).2] at hder
    cases hder
    cases hx
    cases hcn
    refine ⟨by rw [List.length_replicate], ?_⟩
    rintro rfl
    cases hsafe
  · rintro ⟨rfl, hn⟩
    refine ⟨namedIdentity, namedCert n, workstationIp, namedRequest_checked n, rfl,
      ⟨⟨_, n, (namedRequest_cert n).2, congrArg some List.length_replicate, rfl, fun h => ?_⟩, ?_⟩⟩
    · rw [namedIdentity_refuses] at h
      cases h
    · have ha : ∀ c ∈ List.replicate n 'a', illegalInName c = false := by
        intro c hc
        rw [List.eq_of_mem_replicate hc]
        decide
      simpa [unsafeName, hn] using ha

/-- Names of up to 64 characters. -/
theorem records_capped_iff_short : Capped (Set.image namedRequest {n | n ≤ 64}) := by
  refine (records_capped_iff (T := 64) (Set.image namedRequest {n | n ≤ 64}) ?_).2 ⟨64, ?_⟩
  · rintro _ ⟨n, _, rfl⟩
    refine ⟨fun m _ x => ⟨fun _ h => (nomatch h), fun r h => ?_⟩, fun _ h => (nomatch h),
      fun _ h => (nomatch h)⟩
    cases h
    decide
  · rintro _ ⟨n, hn, rfl⟩ cn hcn
    rw [(namedRequest_shows_iff.1 hcn).1, List.length_replicate]
    exact hn

/-- No length bounds the records of requests whose certificates carry long names. -/
theorem records_not_capped : ¬Capped (Set.range namedRequest) := by
  rintro ⟨K, hK⟩
  have hshows : (namedRequest (K + 1)).Shows (List.replicate (K + 1) 'a') :=
    namedRequest_shows_iff.2 ⟨rfl, K.succ_ne_zero⟩
  obtain ⟨text, htext, hlen⟩ := Handled.shown_le hshows
  have hbound := hK _ ⟨K + 1, rfl⟩ text htext
  rw [List.length_replicate] at hlen
  omega

end DenBrowser
