import DenBrowser.Proxy.Mtls

/-!
# Attestation bypass and rate limiting

The two layers `request_filter` consults before attestation: `ratelimit::RateLimiter`, which
counts every request that a cap applies to, and `passthrough::BypassPolicy`.

* `BypassPolicy.authorizes_iff` — who may skip attestation;
* `RateLimiter.admits_iff` — what a rate limiter admits: the universal cap and the first
  matching rule's cap both hold.
-/

set_option autoImplicit false

namespace DenBrowser

variable {L : Crates}

/-- `passthrough::BypassPolicy`. -/
structure BypassPolicy (L : Crates) where
  ranges : List L.IpNet
  allowedSubjects : List Str

/-- The matched subject, when a request from `ip` with the verified `cert` may skip
attestation. -/
def BypassPolicy.authorizes (p : BypassPolicy L) (ip : IpAddr) (cert : ClientCert) : Option Str :=
  if p.ranges.any (fun net => L.netContains net ip) then cert.matched p.allowedSubjects else none

theorem BypassPolicy.authorizes_iff {p : BypassPolicy L} {ip : IpAddr} {cert : ClientCert} :
    (∃ s, p.authorizes ip cert = some s) ↔
      (∃ net ∈ p.ranges, L.netContains net ip = true) ∧
      ∃ n ∈ cert.names, n ∈ p.allowedSubjects := by
  unfold BypassPolicy.authorizes
  by_cases h : p.ranges.any (fun net => L.netContains net ip) = true
  · rw [if_pos h, ClientCert.matched_isSome_iff]
    simp only [List.any_eq_true] at h
    exact ⟨fun hn => ⟨h, hn⟩, fun hn => hn.2⟩
  · rw [if_neg h]
    simp only [List.any_eq_true] at h
    simp [h]

/-! ## Rate limiting -/

/-- `ratelimit::Limit`: an estimator and its cap. -/
structure Limit (L : Crates) where
  rate : L.Rate
  max : Int

/-- Record one request from `ip` at time `now`, and whether it stays within the cap. -/
def Limit.admits (l : Limit L) (ip : IpAddr) (now : Nat) : Limit L × Bool :=
  let (rate, count) := L.observe l.rate ip now
  ({ l with rate := rate }, decide (count ≤ l.max))

/-- A per-URL-pattern rule. -/
structure Rule (L : Crates) where
  matcher : L.GlobMatcher
  limit : Limit L

/-- `ratelimit::RateLimiter`. -/
structure RateLimiter (L : Crates) where
  universal : Option (Limit L)
  rules : List (Rule L)

/-- Charge the first rule whose pattern matches. -/
def admitRules (ip : IpAddr) (target : Str) (now : Nat) : List (Rule L) → List (Rule L) × Bool
  | [] => ([], true)
  | r :: rs =>
    if L.isMatch r.matcher target then
      ({ r with limit := (r.limit.admits ip now).1 } :: rs, (r.limit.admits ip now).2)
    else
      let (rs', b) := admitRules ip target now rs
      (r :: rs', b)

/-- Decide whether a request from `ip` for `target` is admitted, charging every cap that
applies. -/
def RateLimiter.admits (l : RateLimiter L) (ip : IpAddr) (target : Str) (now : Nat) :
    RateLimiter L × Bool :=
  match l.universal with
  | some u =>
    let (u', ok) := u.admits ip now
    if ok then
      let (rules, b) := admitRules ip target now l.rules
      (⟨some u', rules⟩, b)
    else ({ l with universal := some u' }, false)
  | none =>
    let (rules, b) := admitRules ip target now l.rules
    ({ l with rules := rules }, b)

/-- The limiter admits a request exactly when the caps that apply to it do: the universal
one, and that of the first rule whose pattern matches. -/
theorem RateLimiter.admits_iff {l : RateLimiter L} {ip : IpAddr} {target : Str} {now : Nat} :
    (l.admits ip target now).2 = true ↔
      (∀ u, l.universal = some u → (u.admits ip now).2 = true) ∧
      ∀ r, l.rules.find? (fun r => L.isMatch r.matcher target) = some r →
        (r.limit.admits ip now).2 = true := by
  have hrules : ∀ rs : List (Rule L), (admitRules ip target now rs).2 = true ↔
      ∀ r, rs.find? (fun r => L.isMatch r.matcher target) = some r →
        (r.limit.admits ip now).2 = true := by
    intro rs
    induction rs with
    | nil => simp [admitRules]
    | cons r rs ih =>
      unfold admitRules
      by_cases h : L.isMatch r.matcher target = true
      · simp [h]
      · simpa [h] using ih
  unfold RateLimiter.admits
  cases hu : l.universal with
  | none => simpa using hrules l.rules
  | some u =>
    by_cases h : (u.admits ip now).2 = true
    · simpa [h] using hrules l.rules
    · simp [h]

end DenBrowser
