import DenBrowser.Proxy.Authority
import DenBrowser.Proxy.RateLimit
import Mathlib.Data.List.TakeWhile

/-!
# What rate-limit rules are matched against

The target is the host as the request spells it, up to its first colon, and the path.  A port
never makes a difference to the rule that is charged; the case of a letter does, because globs
are case-sensitive and nothing lowercases the host.

* `rateTarget_eq` — the target of a request;
* `sameBudget_iff` — which requests every accepted rule list treats alike.
-/

set_option autoImplicit false

namespace DenBrowser

/-! ## The target -/

/-- What `request_host` keeps of a host. -/
def cutHost (host : Str) : Str := host.takeWhile (· != ':')

/-- The text after the host is a port, and starts with the colon that ends the cut. -/
theorem HttpAuthority.takeWhile_text (a : HttpAuthority) :
    a.text.takeWhile (· != ':') = cutHost a.host := by
  unfold HttpAuthority.text cutHost
  cases a.port with
  | none => rw [List.append_nil]
  | some port =>
    dsimp only
    by_cases hall : ∀ c ∈ a.host, (c != ':') = true
    · rw [List.takeWhile_append_of_pos hall, List.takeWhile_cons_of_neg (by simp),
        List.append_nil, List.takeWhile_eq_self_iff.2 hall]
    · rw [List.takeWhile_append, if_neg fun hlen => hall ?_]
      rw [← List.takeWhile_eq_self_iff]
      exact (List.takeWhile_prefix _).eq_of_length hlen

/-- **The target of a request**: its host as spelled, without the port, and its path. -/
theorem rateTarget_eq {s : Session} {a : HttpAuthority} (h : s.req.Names a) :
    rateTarget s = cutHost a.host ++ s.req.path := by
  unfold rateTarget
  rw [requestHost_of_names h, Option.getD_some, a.takeWhile_text]

/-! ## Budgets -/

section Budget

variable {L : Crates} {B : RateBuilders L}

/-- Whatever rules are accepted, the two targets fall under the same one first, and a request
for either charges the same counters and is decided alike. -/
def SameBudget (B : RateBuilders L) (t₁ t₂ : Str) : Prop :=
  ∀ cfg l, RateLimiter.fromConfig B cfg = .ok (some l) →
    cfg.firstRule B t₁ = cfg.firstRule B t₂ ∧
      ∀ earlier ip now, (l.after earlier).admits ip t₁ now = (l.after earlier).admits ip t₂ now

/-- The pattern in which every character of a text is escaped. -/
def escapedGlob (text : Str) : Str := text.flatMap fun c => ['\\', c]

/-- Escaped characters stand for themselves. -/
def EscapesMatch (B : RateBuilders L) : Prop :=
  ∀ text, ∃ matcher, B.glob (escapedGlob text) = .ok matcher ∧
    ∀ s, L.isMatch matcher s = decide (s = text)

/-- A rule list with one pattern. -/
def oneRule (pattern : Str) : RateLimitConfig where
  enabled := true
  windowSecs := 0
  maxRequests := 0
  rules := [⟨pattern, 1, 1⟩]

/-- A rule for one target tells it from every other. -/
theorem SameBudget.eq (hglob : EscapesMatch B) {t₁ t₂ : Str} (h : SameBudget B t₁ t₂) :
    t₁ = t₂ := by
  obtain ⟨matcher, hmatcher, hmatch⟩ := hglob t₁
  have haccepted : RateLimiter.fromConfig B (oneRule (escapedGlob t₁)) =
      .ok (some ⟨none, [⟨matcher, .new B 1 1⟩]⟩) := by
    have hrule : buildRule B ⟨escapedGlob t₁, 1, 1⟩ = .ok ⟨matcher, .new B 1 1⟩ := by
      unfold buildRule
      simp [hmatcher]
    unfold RateLimiter.fromConfig oneRule buildRules
    simp [hrule, buildRules, universalLimit]
  have hfirst : ∀ t, (oneRule (escapedGlob t₁)).firstRule B t =
      if t = t₁ then some 0 else none := by
    intro t
    unfold RateLimitConfig.firstRule oneRule
    simp [List.findIdx?_cons, hmatcher, hmatch]
  have hsame := (h _ _ haccepted).1
  rw [hfirst, hfirst, if_pos rfl] at hsame
  by_contra hne
  rw [if_neg (Ne.symm hne)] at hsame
  cases hsame

/-- **Which requests every rule list treats alike**: two requests for one path, exactly when
their authorities spell the host, up to its first colon, with the same letters in the same
case. -/
theorem sameBudget_iff {s₁ s₂ : Session} {a₁ a₂ : HttpAuthority} (hglob : EscapesMatch B)
    (h₁ : s₁.req.Names a₁) (h₂ : s₂.req.Names a₂) (hpath : s₁.req.path = s₂.req.path) :
    SameBudget B (rateTarget s₁) (rateTarget s₂) ↔ cutHost a₁.host = cutHost a₂.host := by
  rw [rateTarget_eq h₁, rateTarget_eq h₂, hpath]
  constructor
  · intro hsame
    exact List.append_cancel_right (hsame.eq hglob)
  · intro hcut
    rw [hcut]
    exact fun _ _ _ => ⟨rfl, fun _ _ _ => rfl⟩

end Budget

/-! ## One name, spelled twice -/

theorem globMatch_escaped : ∀ text s : Str, globMatch (escapedGlob text) s = decide (s = text)
  | [], s => by cases s <;> rfl
  | c :: text, s => by
    have hcons : escapedGlob (c :: text) = '\\' :: c :: escapedGlob text := rfl
    rw [hcons]
    cases s with
    | nil => rfl
    | cons d t =>
      have hrest := globMatch_escaped text t
      show (c == d && globMatch (escapedGlob text) t) = _
      rw [hrest, Bool.eq_iff_iff, Bool.and_eq_true, beq_iff_eq, decide_eq_true_eq,
        decide_eq_true_eq, List.cons.injEq, eq_comm (a := c)]

theorem countingBuilders_escapes : EscapesMatch countingBuilders :=
  fun text => ⟨escapedGlob text, rfl, globMatch_escaped text⟩

/-- `a.example.com`, with or without a port. -/
def lowerAuthority (port : Option Str) (h : ∀ p ∈ port, ∀ c ∈ p, c.isDigit = true) :
    HttpAuthority :=
  ⟨"a.example.com".toList, port, .regName (.of_chars (by decide)), h⟩

def upperAuthority : HttpAuthority :=
  ⟨"A.Example.COM".toList, none, .regName (.of_chars (by decide)), by simp⟩

theorem names_lower :
    (hostSession "a.example.com").req.Names (lowerAuthority none (by simp)) :=
  Or.inl (by decide)

/-- A port makes no difference. -/
theorem sameBudget_iff_port : SameBudget countingBuilders
    (rateTarget (hostSession "a.example.com:8443")) (rateTarget (hostSession "a.example.com")) := by
  have hport : (hostSession "a.example.com:8443").req.Names
      (lowerAuthority (some "8443".toList) (by simp)) := Or.inl (by decide)
  exact (sameBudget_iff countingBuilders_escapes hport names_lower rfl).2 rfl

/-- In capitals the name leaves its pattern's budget. -/
theorem sameBudget_case :
    (hostSession "a.example.com").req.Names (lowerAuthority none (by simp)) ∧
    (hostSession "A.Example.COM").req.Names upperAuthority ∧
    toAsciiLowercase upperAuthority.host = (lowerAuthority none (by simp)).host ∧
    (oneRule "a.example.com/*".toList).firstRule countingBuilders
      (rateTarget (hostSession "a.example.com")) = some 0 ∧
    (oneRule "a.example.com/*".toList).firstRule countingBuilders
      (rateTarget (hostSession "A.Example.COM")) = none ∧
    ¬SameBudget countingBuilders (rateTarget (hostSession "a.example.com"))
      (rateTarget (hostSession "A.Example.COM")) := by
  have hlower : (oneRule "a.example.com/*".toList).firstRule countingBuilders
      (rateTarget (hostSession "a.example.com")) = some 0 := by decide
  have hupper : (oneRule "a.example.com/*".toList).firstRule countingBuilders
      (rateTarget (hostSession "A.Example.COM")) = none := by decide
  refine ⟨names_lower, Or.inl (by decide), by decide, hlower, hupper, fun hsame => ?_⟩
  have hrule := (hsame (oneRule "a.example.com/*".toList) _ rfl).1
  rw [hlower, hupper] at hrule
  cases hrule

end DenBrowser
