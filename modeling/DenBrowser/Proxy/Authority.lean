import DenBrowser.Proxy.GateWrites
import DenBrowser.Proxy.PathPrivacy

/-!
# Authorities and the host

The authorities a request may name (a registered name, an IPv4 literal or a bracketed IPv6
literal, with or without a port) and what `request_host`, which cuts at the first colon, makes of
them.  Three consumers rely on it: the token's host, the rate-limit target and the audit
record's server address.

* `requestHost_exact_iff` — the host is extracted exactly when it is not a bracketed literal;
* `rateTarget_injective` — a target determines the host it was made from;
* `bounded_eq_iff` — which host names the record's cap makes equal;
* `requestHost_separates_iff` — when two authorities are kept apart everywhere.
-/

set_option autoImplicit false

namespace DenBrowser

/-! ## The grammar -/

/-- `HEXDIG`, in either case. -/
def isHexDig (c : Char) : Bool :=
  c.isDigit || ('a' ≤ c && c ≤ 'f') || ('A' ≤ c && c ≤ 'F')

/-- `unreserved` and `sub-delims`. -/
def isRegNameChar (c : Char) : Bool :=
  c.isAlphanum || ['-', '.', '_', '~', '!', '$', '&', '\'', '(', ')', '*', '+', ',', ';',
    '='].contains c

/-- A registered name. -/
inductive RegName : Str → Prop where
  | nil : RegName []
  | char {c : Char} {name : Str} : isRegNameChar c = true → RegName name → RegName (c :: name)
  | percent {a b : Char} {name : Str} : isHexDig a = true → isHexDig b = true → RegName name →
      RegName ('%' :: a :: b :: name)

/-- An IPv4 literal. -/
def Ipv4 (lit : Str) : Prop := ∃ octets : List.Vector UInt8 4, lit = showV4 octets.toList

/-- Up to four hexadecimal digits of an IPv6 literal. -/
structure Hex16 (group : Str) : Prop where
  nonempty : group ≠ []
  short : group.length ≤ 4
  digits : ∀ c ∈ group, isHexDig c = true

/-- Pieces of an IPv6 literal that stand for `n` groups: the last may be an IPv4 literal, for
two. -/
inductive Groups : (n : Nat) → List Str → Prop where
  | plain {gs : List Str} : (∀ g ∈ gs, Hex16 g) → Groups gs.length gs
  | dotted {gs : List Str} {v4 : Str} : (∀ g ∈ gs, Hex16 g) → Ipv4 v4 →
      Groups (gs.length + 2) (gs ++ [v4])

/-- An IPv6 literal, without its brackets. -/
inductive Ipv6 : Str → Prop where
  | full {gs : List Str} : Groups 8 gs → Ipv6 ([':'].intercalate gs)
  | compressed {before after : List Str} {n : Nat} : (∀ g ∈ before, Hex16 g) → Groups n after →
      before.length + n ≤ 7 →
      Ipv6 ([':'].intercalate before ++ [':', ':'] ++ [':'].intercalate after)

/-- The host component of an authority. -/
inductive HostForm : Str → Prop where
  | regName {host : Str} : RegName host → HostForm host
  | ipv4 {host : Str} : Ipv4 host → HostForm host
  | ipv6 {lit : Str} : Ipv6 lit → HostForm ('[' :: lit ++ [']'])

/-- A valid authority. -/
structure HttpAuthority where
  host : Str
  port : Option Str
  valid : HostForm host
  digits : ∀ port' ∈ port, ∀ c ∈ port', c.isDigit = true

def HttpAuthority.text (a : HttpAuthority) : Str :=
  a.host ++ match a.port with
    | none => []
    | some port => ':' :: port

/-- The host is a bracketed literal. -/
def HttpAuthority.Bracketed (a : HttpAuthority) : Prop :=
  ∃ lit, a.host = '[' :: lit ++ [']'] ∧ Ipv6 lit

/-- The request names the authority in its `Host` header, or has none and names it in the
`:authority`. -/
def Request.Names (r : Request) (a : HttpAuthority) : Prop :=
  r.headers.get HOST_HEADER = some (asBytes a.text) ∨
    (r.headers.get HOST_HEADER = none ∧ r.authority = some a.text)

/-! ## Characters -/

/-- A visible ASCII character. -/
def isVisible (c : Char) : Bool := 32 < c.toNat && c.toNat < 127

theorem isVisible_iff {c : Char} : isVisible c = true ↔ 32 < c.toNat ∧ c.toNat < 127 := by
  simp [isVisible]

/-- What a host that is not a bracketed literal is made of. -/
def isNameChar (c : Char) : Bool :=
  isVisible c && c != ':' && c != '[' && c != '/' && c != '?'

theorem isHexDig_isNameChar {c : Char} (h : isHexDig c = true) : isNameChar c = true := by
  have hlt : c.toNat < 128 := by
    have hle : ∀ {a b : Char}, a ≤ b → a.toNat ≤ b.toNat := fun h => h
    have h9 : ('9' : Char).toNat = 57 := rfl
    have hf : ('f' : Char).toNat = 102 := rfl
    have hF : ('F' : Char).toNat = 70 := rfl
    unfold isHexDig at h
    simp only [Bool.or_eq_true, Bool.and_eq_true, decide_eq_true_eq, Char.isDigit_iff_toNat] at h
    rcases h with (h | h) | h
    · omega
    · have := hle h.2
      omega
    · have := hle h.2
      omega
  have hall : ∀ n < 128, isHexDig (Char.ofNat n) = true → isNameChar (Char.ofNat n) = true := by
    decide +kernel
  exact of_ascii (P := fun c => isHexDig c = true → isNameChar c = true) hlt hall h

theorem isRegNameChar_isNameChar {c : Char} (h : isRegNameChar c = true) :
    isNameChar c = true := by
  have hlt : c.toNat < 128 := by
    unfold isRegNameChar at h
    rw [Bool.or_eq_true] at h
    rcases h with h | h
    · unfold Char.isAlphanum Char.isAlpha Char.isUpper Char.isLower Char.isDigit at h
      simp only [Bool.or_eq_true, Bool.and_eq_true, decide_eq_true_eq, UInt32.le_iff_toNat_le,
        ge_iff_le] at h
      have hval : c.toNat = c.val.toNat := rfl
      have hZ : 'Z'.val.toNat = 90 := rfl
      have hz : 'z'.val.toNat = 122 := rfl
      have h9 : '9'.val.toNat = 57 := rfl
      omega
    · simp only [List.contains_cons, List.contains_nil, Bool.or_false, Bool.or_eq_true,
        beq_iff_eq] at h
      rcases h with h | h | h | h | h | h | h | h | h | h | h | h | h | h | h
      all_goals
        rw [h]
        decide
  have hall : ∀ n < 128, isRegNameChar (Char.ofNat n) = true →
      isNameChar (Char.ofNat n) = true := by decide +kernel
  exact of_ascii (P := fun c => isRegNameChar c = true → isNameChar c = true) hlt hall h

theorem isNameChar_iff {c : Char} : isNameChar c = true ↔
    isVisible c = true ∧ c ≠ ':' ∧ c ≠ '[' ∧ c ≠ '/' ∧ c ≠ '?' := by
  simp [isNameChar, and_assoc]

theorem RegName.isNameChar {name : Str} (h : RegName name) :
    ∀ c ∈ name, isNameChar c = true := by
  induction h with
  | nil =>
    intro c hc
    cases hc
  | char hchar _ ih =>
    intro c hc
    rcases List.mem_cons.1 hc with rfl | hc
    · exact isRegNameChar_isNameChar hchar
    · exact ih c hc
  | percent ha hb _ ih =>
    intro c hc
    rcases List.mem_cons.1 hc with rfl | hc
    · decide
    · rcases List.mem_cons.1 hc with rfl | hc
      · exact isHexDig_isNameChar ha
      · rcases List.mem_cons.1 hc with rfl | hc
        · exact isHexDig_isNameChar hb
        · exact ih c hc

theorem digit_of_mem_showInt {n : Nat} {c : Char} (h : c ∈ showInt n) : c.isDigit = true := by
  rw [show (n : Int) = Int.ofNat n from rfl, showInt_ofNat] at h
  exact Nat.isDigit_of_mem_toDigits (by decide) (by decide) h

theorem Ipv4.isNameChar {lit : Str} (h : Ipv4 lit) : ∀ c ∈ lit, isNameChar c = true := by
  obtain ⟨octets, rfl⟩ := h
  intro c hc
  unfold showV4 at hc
  rcases mem_intercalate hc with hc | ⟨l, hl, hc⟩
  · rw [List.mem_singleton.1 hc]
    decide
  · obtain ⟨b, _, rfl⟩ := List.mem_map.1 hl
    have hdigit := digit_of_mem_showInt hc
    exact isHexDig_isNameChar (by simp [isHexDig, hdigit])

theorem Groups.visible {n : Nat} {gs : List Str} (h : Groups n gs) :
    ∀ g ∈ gs, ∀ c ∈ g, isVisible c = true := by
  cases h with
  | plain hgs =>
    intro g hg c hc
    exact (isNameChar_iff.1 (isHexDig_isNameChar ((hgs g hg).digits c hc))).1
  | dotted hgs hv4 =>
    intro g hg c hc
    rcases List.mem_append.1 hg with hg | hg
    · exact (isNameChar_iff.1 (isHexDig_isNameChar ((hgs g hg).digits c hc))).1
    · rw [List.mem_singleton.1 hg] at hc
      exact (isNameChar_iff.1 (hv4.isNameChar c hc)).1

theorem visible_intercalate {gs : List Str} (h : ∀ g ∈ gs, ∀ c ∈ g, isVisible c = true) :
    ∀ c ∈ [':'].intercalate gs, isVisible c = true := by
  intro c hc
  rcases mem_intercalate hc with hc | ⟨g, hg, hc⟩
  · rw [List.mem_singleton.1 hc]
    decide
  · exact h g hg c hc

theorem Ipv6.visible {lit : Str} (h : Ipv6 lit) : ∀ c ∈ lit, isVisible c = true := by
  cases h with
  | full hgs => exact visible_intercalate hgs.visible
  | compressed hbefore hafter _ =>
    intro c hc
    rcases List.mem_append.1 hc with hc | hc
    · rcases List.mem_append.1 hc with hc | hc
      · exact visible_intercalate (Groups.plain hbefore).visible c hc
      · have hcolon : c = ':' := by simpa using hc
        rw [hcolon]
        decide
    · exact visible_intercalate hafter.visible c hc

/-- An IPv6 literal has a colon. -/
theorem Ipv6.colon_mem {lit : Str} (h : Ipv6 lit) : ':' ∈ lit := by
  have hjoin : ∀ {gs : List Str}, 2 ≤ gs.length → ':' ∈ [':'].intercalate gs := by
    intro gs hgs
    match gs, hgs with
    | a :: b :: rest, _ =>
      rw [List.intercalate_cons_cons]
      simp
  cases h with
  | full hgs =>
    generalize hn : 8 = n at hgs
    cases hgs with
    | plain _ => exact hjoin (by omega)
    | dotted _ _ => exact hjoin (by simp; omega)
  | compressed _ _ _ => simp

theorem isVisible_digit {c : Char} (h : c.isDigit = true) : isVisible c = true :=
  (isNameChar_iff.1 (isHexDig_isNameChar (by simp [isHexDig, h]))).1

theorem HostForm.nameChars_or {host : Str} (h : HostForm host) :
    (∀ c ∈ host, isNameChar c = true) ∨ ∃ lit, host = '[' :: lit ++ [']'] ∧ Ipv6 lit := by
  cases h with
  | regName hname => exact Or.inl hname.isNameChar
  | ipv4 hlit => exact Or.inl hlit.isNameChar
  | ipv6 hlit => exact Or.inr ⟨_, rfl, hlit⟩

section HttpAuthority

variable {a : HttpAuthority}

/-- A host that is not bracketed is made of name characters. -/
theorem HttpAuthority.nameChars (h : ¬a.Bracketed) : ∀ c ∈ a.host, isNameChar c = true :=
  a.valid.nameChars_or.resolve_right h

theorem HttpAuthority.visible (a : HttpAuthority) : ∀ c ∈ a.text, isVisible c = true := by
  have hhost : ∀ c ∈ a.host, isVisible c = true := by
    rcases a.valid.nameChars_or with hname | ⟨lit, hhost, hlit⟩
    · exact fun c hc => (isNameChar_iff.1 (hname c hc)).1
    · rw [hhost]
      intro c hc
      rcases List.mem_append.1 hc with hc | hc
      · rcases List.mem_cons.1 hc with rfl | hc
        · decide
        · exact hlit.visible c hc
      · rw [List.mem_singleton.1 hc]
        decide
  intro c hc
  unfold HttpAuthority.text at hc
  rcases List.mem_append.1 hc with hc | hc
  · exact hhost c hc
  · cases hport : a.port with
    | none => simp [hport] at hc
    | some port =>
      rw [hport] at hc
      rcases List.mem_cons.1 hc with rfl | hc
      · decide
      · exact isVisible_digit (a.digits port hport c hc)

end HttpAuthority

/-! ## Extraction -/

theorem utf8EncodeChar_visible {c : Char} (h : isVisible c = true) :
    String.utf8EncodeChar c = [UInt8.ofNat c.toNat] := by
  have hc := isVisible_iff.1 h
  exact utf8EncodeChar_ascii (by omega)

/-- A visible text is read back from a header's bytes. -/
theorem toStr_asBytes : ∀ {s : Str}, (∀ c ∈ s, isVisible c = true) → toStr (asBytes s) = some s
  | [], _ => rfl
  | c :: s, h => by
    have hc := h c (by simp)
    have hrest : toStr (asBytes s) = some s := toStr_asBytes fun d hd => h d (by simp [hd])
    have key : ∀ n < 127, 32 < n → visible (UInt8.ofNat n) = true ∧ (UInt8.ofNat n).toNat = n := by
      decide
    obtain ⟨hvis, hnat⟩ := key c.toNat (isVisible_iff.1 hc).2 (isVisible_iff.1 hc).1
    have hcons : asBytes (c :: s) = UInt8.ofNat c.toNat :: asBytes s := by
      unfold asBytes
      rw [List.flatMap_cons, utf8EncodeChar_visible hc]
      rfl
    unfold toStr at hrest ⊢
    rw [hcons, List.all_cons, hvis, Bool.true_and, List.map_cons, hnat, Char.ofNat_toNat]
    split_ifs at hrest ⊢ with hall
    rw [Option.some.inj hrest]

/-- `request_host` cuts the authority at its first colon. -/
theorem requestHost_of_names {r : Request} {a : HttpAuthority} (h : r.Names a) :
    requestHost r = some (a.text.takeWhile (· != ':')) := by
  have hauthority : (headerStr r.headers HOST_HEADER).or r.authority = some a.text := by
    unfold headerStr
    rcases h with h | ⟨hnone, h⟩
    · rw [h, Option.bind_some, toStr_asBytes a.visible, Option.some_or]
    · rw [hnone, h, Option.bind_none, Option.none_or]
  unfold requestHost
  rw [hauthority, Option.map_some]

/-- **The host is extracted exactly when it is not a bracketed literal**, whose colons are
inside the brackets. -/
theorem requestHost_exact_iff {r : Request} {a : HttpAuthority} (h : r.Names a) :
    requestHost r = some a.host ↔ ¬a.Bracketed := by
  rw [requestHost_of_names h, Option.some.injEq]
  constructor
  · rintro hcut ⟨lit, hhost, hlit⟩
    have hcolon : ':' ∈ a.text.takeWhile (· != ':') := by
      rw [hcut, hhost]
      simp [hlit.colon_mem]
    have hall := List.all_eq_true.1 List.all_takeWhile _ hcolon
    simp at hall
  · intro hname
    have hall : ∀ c ∈ a.host, (c != ':') = true := fun c hc =>
      bne_iff_ne.2 (isNameChar_iff.1 (a.nameChars hname c hc)).2.1
    unfold HttpAuthority.text
    rw [List.takeWhile_append_of_pos hall]
    cases a.port with
    | none => simp
    | some port => simp

/-! ## The rate-limit target -/

/-- What an HTTP request line or `:path` can hold: `*`, or a path or query. -/
def PathForm (path : Str) : Prop := path = ['*'] ∨ ∃ c rest, path = c :: rest ∧ (c = '/' ∨ c = '?')

theorem delimiter_not_mem {a : HttpAuthority} (h : ¬a.Bracketed) {c : Char}
    (hc : c = '/' ∨ c = '?') : c ∉ a.host := by
  intro hmem
  have hname := (isNameChar_iff.1 (a.nameChars h c hmem)).2.2.2
  rcases hc with rfl | rfl
  · exact hname.1 rfl
  · exact hname.2 rfl

/-- A name is read off a target up to the first delimiter. -/
theorem takeWhile_target {a : HttpAuthority} (h : ¬a.Bracketed) {c : Char} {rest : Str}
    (hc : c = '/' ∨ c = '?') :
    (a.host ++ c :: rest).takeWhile (fun d => d != '/' && d != '?') = a.host := by
  have hall : ∀ d ∈ a.host, (d != '/' && d != '?') = true := by
    intro d hd
    have hname := (isNameChar_iff.1 (a.nameChars h d hd)).2.2.2
    simp [hname.1, hname.2]
  rw [List.takeWhile_append_of_pos hall, List.takeWhile_cons_of_neg (by rcases hc with rfl | rfl <;>
    decide), List.append_nil]

/-- **A target determines the host it was made from.** -/
theorem target_injective {a₁ a₂ : HttpAuthority} (h₁ : ¬a₁.Bracketed) (h₂ : ¬a₂.Bracketed)
    {path₁ path₂ : Str} (hp₁ : PathForm path₁) (hp₂ : PathForm path₂)
    (h : a₁.host ++ path₁ = a₂.host ++ path₂) : a₁.host = a₂.host := by
  rcases hp₁ with rfl | ⟨c₁, rest₁, rfl, hc₁⟩
  · rcases hp₂ with rfl | ⟨c₂, rest₂, rfl, hc₂⟩
    · exact List.append_cancel_right h
    · have hmem : c₂ ∈ a₁.host ++ ['*'] := by
        rw [h]
        simp
      have hstar : c₂ ≠ '*' := by rcases hc₂ with rfl | rfl <;> decide
      simp [delimiter_not_mem h₁ hc₂, hstar] at hmem
  · rcases hp₂ with rfl | ⟨c₂, rest₂, rfl, hc₂⟩
    · have hmem : c₁ ∈ a₂.host ++ ['*'] := by
        rw [← h]
        simp
      have hstar : c₁ ≠ '*' := by rcases hc₁ with rfl | rfl <;> decide
      simp [delimiter_not_mem h₂ hc₁, hstar] at hmem
    · have htake := congrArg (List.takeWhile fun d => d != '/' && d != '?') h
      rwa [takeWhile_target h₁ hc₁, takeWhile_target h₂ hc₂] at htake

theorem rateTarget_of_names {s : Session} {a : HttpAuthority} (h : s.req.Names a)
    (hname : ¬a.Bracketed) : rateTarget s = a.host ++ s.req.path := by
  unfold rateTarget
  rw [(requestHost_exact_iff h).2 hname, Option.getD_some]

/-! ## The audit record -/

/-- **Which texts the cap makes equal**: those that are both longer and agree up to it. -/
theorem bounded_eq_iff {s t : Str} {n : Nat} :
    bounded s n = bounded t n ↔ s = t ∨ (n < s.length ∧ n < t.length ∧ s.take n = t.take n) := by
  have hcut : ∀ {u v : Str}, u.length ≤ n → n < v.length → u ≠ v.take n ++ ['…'] := by
    intro u v hu hv heq
    have hlen := congrArg List.length heq
    rw [List.length_append, List.length_take, List.length_singleton] at hlen
    omega
  unfold bounded
  split_ifs with hs ht ht
  · exact ⟨Or.inl, fun h => h.resolve_right fun h => absurd h.1 (by omega)⟩
  · constructor
    · exact fun h => absurd h (hcut hs (by omega))
    · rintro (rfl | h)
      · exact absurd hs ht
      · omega
  · constructor
    · exact fun h => absurd h.symm (hcut ht (by omega))
    · rintro (rfl | h)
      · exact absurd ht hs
      · omega
  · rw [List.append_left_inj]
    constructor
    · exact fun h => Or.inr ⟨by omega, by omega, h⟩
    · rintro (rfl | h)
      · rfl
      · exact h.2.2

variable {L : Crates}

/-- The record names the host the request was read with, capped. -/
theorem serverAddress_eq (p : Proxy L) (s : Session) (env : Env) (conn : Connection)
    (error : Option (Reason × Str)) (timestamp : Str) (durationMs : Nat) :
    ((requestFilter p s env).1.ctx.record L conn error timestamp durationMs).serverAddress =
      (requestHost s.req).map (bounded · MAX_HOST_CHARS) := by
  rw [(record_request L _ conn error timestamp durationMs).1]
  exact (requestFilter_written p s env).request.1

/-! ## Two requests -/

/-- The hosts of two requests' authorities are read exactly, and different hosts are kept apart
in the token's host, in the rate-limit target and in the audit records. -/
structure HostsKept (p : Proxy L) (s₁ s₂ : Session) (env₁ env₂ : Env)
    (a₁ a₂ : HttpAuthority) : Prop where
  exact₁ : requestHost s₁.req = some a₁.host
  exact₂ : requestHost s₂.req = some a₂.host
  attested : a₁.host ≠ a₂.host → ∀ i₁ i₂, s₁.req.Presents i₁ → s₂.req.Presents i₂ →
    i₁.host ≠ i₂.host
  limited : a₁.host ≠ a₂.host → rateTarget s₁ ≠ rateTarget s₂
  recorded : a₁.host ≠ a₂.host → ∀ conn₁ conn₂ error₁ error₂ timestamp₁ timestamp₂ ms₁ ms₂,
    ((requestFilter p s₁ env₁).1.ctx.record L conn₁ error₁ timestamp₁ ms₁).serverAddress ≠
      ((requestFilter p s₂ env₂).1.ctx.record L conn₂ error₂ timestamp₂ ms₂).serverAddress

/-- The record's cap makes the two different hosts equal. -/
def SameWhenCapped (a₁ a₂ : HttpAuthority) : Prop :=
  a₁.host ≠ a₂.host ∧ MAX_HOST_CHARS < a₁.host.length ∧ MAX_HOST_CHARS < a₂.host.length ∧
    a₁.host.take MAX_HOST_CHARS = a₂.host.take MAX_HOST_CHARS

/-- **When two authorities are kept apart everywhere**: neither host is a bracketed literal, and
the record's cap does not make them equal. -/
theorem hostsKept_iff {p : Proxy L} {s₁ s₂ : Session} {env₁ env₂ : Env} {a₁ a₂ : HttpAuthority}
    (h₁ : s₁.req.Names a₁) (h₂ : s₂.req.Names a₂) (hp₁ : PathForm s₁.req.path)
    (hp₂ : PathForm s₂.req.path) :
    HostsKept p s₁ s₂ env₁ env₂ a₁ a₂ ↔
      ¬a₁.Bracketed ∧ ¬a₂.Bracketed ∧ ¬SameWhenCapped a₁ a₂ := by
  constructor
  · rintro ⟨hexact₁, hexact₂, _, _, hrecorded⟩
    refine ⟨(requestHost_exact_iff h₁).1 hexact₁, (requestHost_exact_iff h₂).1 hexact₂, ?_⟩
    rintro ⟨hne, hcapped⟩
    refine hrecorded hne ⟨none, none, none, none, 0, 0⟩ ⟨none, none, none, none, 0, 0⟩ none none
      [] [] 0 0 ?_
    rw [serverAddress_eq, serverAddress_eq, hexact₁, hexact₂, Option.map_some, Option.map_some,
      bounded_eq_iff.2 (Or.inr hcapped)]
  · rintro ⟨hname₁, hname₂, hcapped⟩
    have hexact₁ := (requestHost_exact_iff h₁).2 hname₁
    have hexact₂ := (requestHost_exact_iff h₂).2 hname₂
    refine ⟨hexact₁, hexact₂, ?_, ?_, ?_⟩
    · intro hne i₁ i₂ hi₁ hi₂ heq
      refine hne (Option.some.inj ?_)
      rw [← hexact₁, ← hexact₂, hi₁.host, hi₂.host, heq]
    · intro hne heq
      rw [rateTarget_of_names h₁ hname₁, rateTarget_of_names h₂ hname₂] at heq
      exact hne (target_injective hname₁ hname₂ hp₁ hp₂ heq)
    · intro hne _ _ _ _ _ _ _ _ heq
      rw [serverAddress_eq, serverAddress_eq, hexact₁, hexact₂, Option.map_some, Option.map_some,
        Option.some.injEq, bounded_eq_iff] at heq
      rcases heq with heq | heq
      · exact hne heq
      · exact hcapped ⟨hne, heq⟩

theorem RegName.of_chars : ∀ {name : Str}, name.all isRegNameChar = true → RegName name
  | [], _ => .nil
  | c :: name, h => by
    rw [List.all_cons, Bool.and_eq_true] at h
    exact .char h.1 (RegName.of_chars h.2)

/-- A session whose request has the given `Host` header. -/
def hostSession (host : String) : Session where
  req := ⟨"GET".toList, [(HOST_HEADER, asBytes host.toList)], none, some "/".toList, [], none⟩
  clientAddr := none
  serverAddr := none
  clientCert := none

/-- Two names, one with a port, are kept apart. -/
theorem hostsKept_iff_names :
    HostsKept replayProxy (hostSession "a.example.com:8443") (hostSession "b.example.com")
      replayEnv replayEnv
      ⟨"a.example.com".toList, some "8443".toList, .regName (.of_chars (by decide)),
        by simp⟩
      ⟨"b.example.com".toList, none, .regName (.of_chars (by decide)), by simp⟩ := by
  refine (hostsKept_iff (Or.inl ?_) (Or.inl ?_) ?_ ?_).2 ⟨?_, ?_, ?_⟩
  · decide
  · decide
  · exact Or.inr ⟨'/', [], by decide, by simp⟩
  · exact Or.inr ⟨'/', [], by decide, by simp⟩
  · rintro ⟨lit, hhost, _⟩
    simp at hhost
  · rintro ⟨lit, hhost, _⟩
    simp at hhost
  · rintro ⟨_, hlen, _⟩
    revert hlen
    decide

theorem Hex16.of_digits {group : Str} (h : group ≠ []) (hlen : group.length ≤ 4)
    (hdigits : group.all isHexDig = true) : Hex16 group :=
  ⟨h, hlen, List.all_eq_true.1 hdigits⟩

theorem ipv6_documentation (last : Str) (h : Hex16 last) :
    Ipv6 (['2', '0', '0', '1', ':', 'd', 'b', '8'] ++ [':', ':'] ++ last) := by
  have hbefore : ∀ g ∈ ["2001".toList, "db8".toList], Hex16 g := by
    intro g hg
    rw [List.mem_cons, List.mem_singleton] at hg
    rcases hg with rfl | rfl
    · exact .of_digits (by decide) (by decide) (by decide)
    · exact .of_digits (by decide) (by decide) (by decide)
  have hgroup : ∀ g ∈ [last], Hex16 g := by simpa using h
  have hafter : Groups 1 [last] := Groups.plain hgroup
  have hlit := Ipv6.compressed hbefore hafter (by decide)
  rwa [List.intercalate_singleton] at hlit

/-- Two addresses of one network, and `[2001` for both. -/
theorem hostsKept_ipv6 :
    requestHost (hostSession "[2001:db8::1]:8443").req = some "[2001".toList ∧
    requestHost (hostSession "[2001:db8::2]").req = some "[2001".toList ∧
    rateTarget (hostSession "[2001:db8::1]:8443") = rateTarget (hostSession "[2001:db8::2]") ∧
    ¬HostsKept replayProxy (hostSession "[2001:db8::1]:8443") (hostSession "[2001:db8::2]")
      replayEnv replayEnv
      ⟨"[2001:db8::1]".toList, some "8443".toList,
        .ipv6 (ipv6_documentation ['1'] (.of_digits (by decide) (by decide) (by decide))),
        by simp⟩
      ⟨"[2001:db8::2]".toList, none,
        .ipv6 (ipv6_documentation ['2'] (.of_digits (by decide) (by decide) (by decide))),
        by simp⟩ := by
  have hcut : requestHost (hostSession "[2001:db8::1]:8443").req = some "[2001".toList := by
    decide
  refine ⟨hcut, by decide, by decide, fun hkept => ?_⟩
  have hexact := hkept.exact₁
  rw [hcut] at hexact
  revert hexact
  decide

end DenBrowser
