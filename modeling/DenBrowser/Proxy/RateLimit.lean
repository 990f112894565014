import DenBrowser.Lib.Quota
import DenBrowser.Proxy.Forwarding

/-!
# The rate limiter over a window

`ratelimit::RateLimiter::from_config`, and what a limiter decides on a sequence of requests that
falls in one window of each of its estimators, which are assumed to count exactly there.

* `fromConfig_policy` — an accepted configuration's limiter counts as the configuration says;
* `admits_charged` — one request: the limiter refines the quota policy;
* `rate_decisions` — the decisions, in counts;
* `rate_deletion` — which decisions change when one rule's requests are deleted.
-/

set_option autoImplicit false

namespace DenBrowser

/-! ## Configuration -/

/-- `config::RuleConfig`. -/
structure RuleConfig where
  pattern : Str
  windowSecs : Nat
  maxRequests : Int

/-- `config::RateLimitConfig`. -/
structure RateLimitConfig where
  enabled : Bool
  windowSecs : Nat
  maxRequests : Int
  rules : List RuleConfig

/-- What a limiter is built with: `Glob::new` with `compile_matcher`, or the text of its error,
and `Rate::new` of a number of seconds. -/
structure RateBuilders (L : Crates) where
  glob : Str → Except Str L.GlobMatcher
  rate : Nat → L.Rate

section Config

variable {L : Crates} (B : RateBuilders L)

/-- `Limit::new`. -/
def Limit.new (windowSecs : Nat) (max : Int) : Limit L := ⟨B.rate windowSecs, max⟩

/-- One turn of the loop over the rules. -/
def buildRule (r : RuleConfig) : Except Str (Rule L) :=
  if r.windowSecs = 0 then
    .error ("rate-limit rule ".toList ++ debugStr r.pattern ++ " has window_secs = 0".toList)
  else if r.maxRequests ≤ 0 then
    .error ("rate-limit rule ".toList ++ debugStr r.pattern ++ " has max_requests = ".toList ++
      showInt r.maxRequests ++ " (must be > 0)".toList)
  else
    match B.glob r.pattern with
    | .error e =>
      .error ("invalid rate-limit pattern ".toList ++ debugStr r.pattern ++ ": ".toList ++ e)
    | .ok matcher => .ok ⟨matcher, .new B r.windowSecs r.maxRequests⟩

def buildRules : List RuleConfig → Except Str (List (Rule L))
  | [] => .ok []
  | r :: rs =>
    match buildRule B r with
    | .error e => .error e
    | .ok rule =>
      match buildRules rs with
      | .error e => .error e
      | .ok rules => .ok (rule :: rules)

def universalLimit (cfg : RateLimitConfig) : Option (Limit L) :=
  if 0 < cfg.windowSecs ∧ 0 < cfg.maxRequests then some (.new B cfg.windowSecs cfg.maxRequests)
  else none

/-- `from_config`: the limiter, or `none` when rate limiting is disabled. -/
def RateLimiter.fromConfig (cfg : RateLimitConfig) : Except Str (Option (RateLimiter L)) :=
  if cfg.enabled = false then .ok none
  else
    match buildRules B cfg.rules with
    | .error e => .error e
    | .ok rules =>
      if (universalLimit B cfg).isNone ∧ rules.isEmpty then
        .error ("rate_limiting is enabled but no universal cap (window_secs/max_requests) " ++
          "and no rules are configured").toList
      else .ok (some ⟨universalLimit B cfg, rules⟩)

/-- The rule a target falls under: the first whose pattern matches. -/
def RateLimitConfig.firstRule (cfg : RateLimitConfig) (target : Str) : Option Nat :=
  cfg.rules.findIdx? fun r =>
    match B.glob r.pattern with
    | .ok matcher => L.isMatch matcher target
    | .error _ => false

/-- The universal cap, unless a zero disables it. -/
def RateLimitConfig.universalMax (cfg : RateLimitConfig) : Option Int :=
  if 0 < cfg.windowSecs ∧ 0 < cfg.maxRequests then some cfg.maxRequests else none

def RateLimitConfig.ruleMax (cfg : RateLimitConfig) (i : Nat) : Int :=
  ((cfg.rules[i]?).map RuleConfig.maxRequests).getD 0

/-- What the configuration says of requests from an IP for a target. -/
def RateLimitConfig.policy (cfg : RateLimitConfig) : Quota.Policy IpAddr (IpAddr × Str) Nat where
  key := Prod.fst
  cap := cfg.universalMax
  bucket r := cfg.firstRule B r.2
  max := cfg.ruleMax

end Config

section Policy

variable {L : Crates} {B : RateBuilders L}

/-- What a limiter's caps and patterns say. -/
def RateLimiter.policy (l : RateLimiter L) : Quota.Policy IpAddr (IpAddr × Str) Nat where
  key := Prod.fst
  cap := l.universal.map Limit.max
  bucket r := l.rules.findIdx? fun rule => L.isMatch rule.matcher r.2
  max i := ((l.rules[i]?).map fun rule => rule.limit.max).getD 0

/-- The rule is the configured one, compiled. -/
structure Built (B : RateBuilders L) (c : RuleConfig) (rule : Rule L) : Prop where
  glob : B.glob c.pattern = .ok rule.matcher
  limit : rule.limit = .new B c.windowSecs c.maxRequests

theorem buildRule_ok {c : RuleConfig} {rule : Rule L} (h : buildRule B c = .ok rule) :
    Built B c rule := by
  unfold buildRule at h
  split at h
  · cases h
  · split at h
    · cases h
    · split at h
      · cases h
      · rename_i hglob
        cases h
        exact ⟨hglob, rfl⟩

/-- The built rules are the configured ones, in order. -/
theorem buildRules_ok : ∀ {cs : List RuleConfig} {rules : List (Rule L)},
    buildRules B cs = .ok rules → List.Forall₂ (Built B) cs rules
  | [], rules, h => by
    cases h
    exact .nil
  | c :: cs, rules, h => by
    unfold buildRules at h
    split at h
    · cases h
    · rename_i rule hrule
      split at h
      · cases h
      · rename_i rest hrest
        cases h
        exact .cons (buildRule_ok hrule) (buildRules_ok hrest)

theorem built_findIdx {cs : List RuleConfig} {rules : List (Rule L)}
    (h : List.Forall₂ (Built B) cs rules) (target : Str) :
    (rules.findIdx? fun rule => L.isMatch rule.matcher target) =
      cs.findIdx? fun c =>
        match B.glob c.pattern with
        | .ok matcher => L.isMatch matcher target
        | .error _ => false := by
  induction h with
  | nil => rfl
  | cons hrule _ ih => rw [List.findIdx?_cons, List.findIdx?_cons, ih, hrule.glob]

theorem built_max {cs : List RuleConfig} {rules : List (Rule L)}
    (h : List.Forall₂ (Built B) cs rules) (i : Nat) :
    (rules[i]?).map (fun rule => rule.limit.max) = (cs[i]?).map RuleConfig.maxRequests := by
  induction h generalizing i with
  | nil => rfl
  | cons hrule _ ih =>
    cases i with
    | zero =>
      rw [List.getElem?_cons_zero, List.getElem?_cons_zero, Option.map_some, hrule.limit]
      rfl
    | succ i => simpa using ih i

/-- **An accepted configuration's limiter counts as the configuration says.** -/
theorem fromConfig_policy {cfg : RateLimitConfig} {l : RateLimiter L}
    (h : RateLimiter.fromConfig B cfg = .ok (some l)) : l.policy = cfg.policy B := by
  unfold RateLimiter.fromConfig at h
  split at h
  · cases h
  · split at h
    · cases h
    · rename_i rules hrules
      split at h
      · cases h
      · cases h
        have hall := buildRules_ok hrules
        have hcap : (universalLimit B cfg).map Limit.max = cfg.universalMax := by
          unfold universalLimit RateLimitConfig.universalMax
          split <;> rfl
        unfold RateLimiter.policy RateLimitConfig.policy RateLimitConfig.firstRule
        simp only [hcap, built_findIdx hall, built_max hall]
        rfl

end Policy

/-! ## Requests -/

/-- One request, and when it is counted. -/
structure RateRequest where
  ip : IpAddr
  target : Str
  now : Nat

/-- What a request asks for. -/
def RateRequest.call (r : RateRequest) : IpAddr × Str := (r.ip, r.target)

section Run

variable {L : Crates}

/-- An estimator after requests, latest first. -/
def observeAll (rate : L.Rate) : List RateRequest → L.Rate
  | [] => rate
  | r :: past => (L.observe (observeAll rate past) r.ip r.now).1

/-- At the times in `W`, from this state on, the estimator counts each IP's requests exactly. -/
def CountsExactly (W : Set Nat) (rate : L.Rate) : Prop :=
  ∀ (past : List RateRequest) (r : RateRequest), (∀ q ∈ past, q.now ∈ W) → r.now ∈ W →
    (L.observe (observeAll rate past) r.ip r.now).2 =
      ((past.filter fun q => decide (q.ip = r.ip)).length : Int) + 1

/-- The times in `W` fall in one window of each of the limiter's estimators, none of which has
counted a request in it yet. -/
structure RateLimiter.OneWindow (W : Set Nat) (l : RateLimiter L) : Prop where
  universal : ∀ u ∈ l.universal, CountsExactly W u.rate
  rules : ∀ rule ∈ l.rules, CountsExactly W rule.limit.rate

/-- The limiter after a sequence of requests. -/
def RateLimiter.after (l : RateLimiter L) : List RateRequest → RateLimiter L
  | [] => l
  | r :: rs => ((l.admits r.ip r.target r.now).1).after rs

/-- Its decisions on them. -/
def RateLimiter.decisions (l : RateLimiter L) : List RateRequest → List (RateRequest × Bool)
  | [] => []
  | r :: rs =>
    (r, (l.admits r.ip r.target r.now).2) :: ((l.admits r.ip r.target r.now).1).decisions rs

/-- The policy on requests with their times, which it does not look at. -/
def RateLimiter.timed (l : RateLimiter L) : Quota.Policy IpAddr RateRequest Nat :=
  l.policy.comap RateRequest.call

def Limit.charged (x : Limit L) (past : List RateRequest) : Limit L :=
  { x with rate := observeAll x.rate past }

def Rule.charged (rule : Rule L) (past : List RateRequest) : Rule L :=
  { rule with limit := rule.limit.charged past }

/-- The limiter after requests, latest first: each estimator has observed what its layer was
charged with. -/
def RateLimiter.charged (l : RateLimiter L) (past : List RateRequest) : RateLimiter L where
  universal := l.universal.map fun u => u.charged past
  rules := l.rules.mapIdx fun i rule => rule.charged (l.timed.charges i past)

variable {W : Set Nat} {l : RateLimiter L} {past : List RateRequest} {r : RateRequest}

/-- One estimator and its cap. -/
theorem Limit.admits_charged {x : Limit L} (hx : CountsExactly W x.rate)
    (hpast : ∀ q ∈ past, q.now ∈ W) (hr : r.now ∈ W) :
    (x.charged past).admits r.ip r.now = (x.charged (r :: past),
      decide (((past.filter fun q => decide (q.ip = r.ip)).length : Int) + 1 ≤ x.max)) := by
  unfold Limit.admits Limit.charged
  dsimp only
  rw [hx past r hpast hr]
  rfl

theorem admitRules_of_none {ip : IpAddr} {target : Str} {now : Nat} : ∀ {rs : List (Rule L)},
    (rs.findIdx? fun rule => L.isMatch rule.matcher target) = none →
    admitRules ip target now rs = (rs, true)
  | [], _ => rfl
  | rule :: rs, h => by
    rw [List.findIdx?_cons] at h
    by_cases hmatch : L.isMatch rule.matcher target = true
    · simp [hmatch] at h
    · have hrest : (rs.findIdx? fun rule => L.isMatch rule.matcher target) = none := by
        simpa [hmatch] using h
      unfold admitRules
      rw [if_neg hmatch, admitRules_of_none hrest]

/-- The first rule that matches decides, and only its estimator counts the request. -/
theorem admitRules_of_some (ip : IpAddr) (target : Str) (now : Nat) : ∀ {rs : List (Rule L)}
    {i : Nat}, (rs.findIdx? fun rule => L.isMatch rule.matcher target) = some i →
    ∃ rule, rs[i]? = some rule ∧ admitRules ip target now rs =
      (rs.set i { rule with limit := (rule.limit.admits ip now).1 }, (rule.limit.admits ip now).2)
  | [], i, h => by cases h
  | rule :: rs, i, h => by
    rw [List.findIdx?_cons] at h
    by_cases hmatch : L.isMatch rule.matcher target = true
    · rw [if_pos hmatch] at h
      cases h
      refine ⟨rule, rfl, ?_⟩
      unfold admitRules
      rw [if_pos hmatch]
      rfl
    · rw [if_neg hmatch] at h
      obtain ⟨j, hj, rfl⟩ := Option.map_eq_some_iff.1 h
      obtain ⟨rule', hrule', heq⟩ := admitRules_of_some ip target now hj
      refine ⟨rule', by simpa using hrule', ?_⟩
      unfold admitRules
      rw [if_neg hmatch, heq]
      rfl

/-- Charging keeps the patterns. -/
theorem findIdx_charged (l : RateLimiter L) (past : List RateRequest) (r : RateRequest) :
    ((l.charged past).rules.findIdx? fun rule => L.isMatch rule.matcher r.target) =
      l.timed.bucket r := by
  have hmatchers : (l.charged past).rules.map Rule.matcher = l.rules.map Rule.matcher := by
    refine List.ext_getElem? fun i => ?_
    simp only [RateLimiter.charged, List.getElem?_map, List.getElem?_mapIdx, Option.map_map]
    rfl
  have hfind : ∀ rules : List (Rule L),
      (rules.findIdx? fun rule => L.isMatch rule.matcher r.target) =
        (rules.map Rule.matcher).findIdx? fun g => L.isMatch g r.target := by
    intro rules
    rw [List.findIdx?_map]
    rfl
  rw [hfind, hmatchers, ← hfind]
  rfl

/-- The rules once the request is counted under the first that matches. -/
def RateLimiter.counted (l : RateLimiter L) (past : List RateRequest) (r : RateRequest) :
    List (Rule L) :=
  l.rules.mapIdx fun i rule => rule.charged
    (if l.timed.bucket r = some i then r :: l.timed.charges i past else l.timed.charges i past)

/-- A request that the universal cap refuses is not counted under a rule. -/
theorem RateLimiter.charged_cons : l.charged (r :: past) =
    ⟨l.universal.map fun u => u.charged (r :: past),
      if l.timed.passes past r then l.counted past r else (l.charged past).rules⟩ := by
  unfold RateLimiter.charged RateLimiter.counted
  cases hp : l.timed.passes past r <;> simp [Quota.Policy.charges_cons, hp]

/-- The layer of the rules. -/
theorem admitRules_charged (hl : l.OneWindow W) (hpast : ∀ q ∈ past, q.now ∈ W)
    (hr : r.now ∈ W) :
    admitRules r.ip r.target r.now (l.charged past).rules =
      (l.counted past r, l.timed.hasRoom past r) := by
  have hfind := findIdx_charged l past r
  unfold RateLimiter.counted Quota.Policy.hasRoom
  cases hb : l.timed.bucket r with
  | none =>
    rw [hb] at hfind
    rw [admitRules_of_none hfind]
    simp [RateLimiter.charged]
  | some i =>
    rw [hb] at hfind
    obtain ⟨rule', hrule', heq⟩ := admitRules_of_some r.ip r.target r.now hfind
    obtain ⟨rule, hrule, rfl⟩ : ∃ rule, l.rules[i]? = some rule ∧
        rule.charged (l.timed.charges i past) = rule' := by
      simpa [RateLimiter.charged] using hrule'
    have hmem : rule ∈ l.rules := List.mem_of_getElem? hrule
    have hwindow : ∀ q ∈ l.timed.charges i past, q.now ∈ W := by
      intro q hq
      exact hpast q (Quota.Policy.mem_of_mem_charges hq)
    have hlimit := Limit.admits_charged (hl.rules rule hmem) hwindow hr
    have hmax : l.timed.max i = rule.limit.max := by
      show ((l.rules[i]?).map fun rule => rule.limit.max).getD 0 = _
      rw [hrule]
      rfl
    rw [heq]
    unfold Rule.charged
    dsimp only
    rw [hlimit]
    refine Prod.ext (List.ext_getElem? fun j => ?_) ?_
    · dsimp only
      rw [List.getElem?_set, List.getElem?_mapIdx]
      by_cases hij : i = j
      · subst hij
        have hlt : i < (l.charged past).rules.length := (List.getElem?_eq_some_iff.1 hrule').1
        rw [if_pos rfl, if_pos hlt, hrule, if_pos rfl]
        rfl
      · have hne : ¬(some i = some j) := fun h => hij (Option.some.inj h)
        rw [if_neg hij, if_neg hne]
        exact List.getElem?_mapIdx
    · dsimp only
      rw [hmax]
      rfl

theorem RateLimiter.admits_of_none {ip : IpAddr} {target : Str} {now : Nat}
    (hu : l.universal = none) : l.admits ip target now =
      (⟨none, (admitRules ip target now l.rules).1⟩, (admitRules ip target now l.rules).2) := by
  unfold RateLimiter.admits
  rw [hu]

theorem RateLimiter.admits_of_some {ip : IpAddr} {target : Str} {now : Nat} {u : Limit L}
    (hu : l.universal = some u) : l.admits ip target now =
      if (u.admits ip now).2 = true then
        (⟨some (u.admits ip now).1, (admitRules ip target now l.rules).1⟩,
          (admitRules ip target now l.rules).2)
      else (⟨some (u.admits ip now).1, l.rules⟩, false) := by
  unfold RateLimiter.admits
  rw [hu]

/-- **One request**: a limiter that has been charged with `past` decides as its policy says, and
is charged with the request. -/
theorem RateLimiter.admits_charged (hl : l.OneWindow W) (hpast : ∀ q ∈ past, q.now ∈ W)
    (hr : r.now ∈ W) : (l.charged past).admits r.ip r.target r.now =
      (l.charged (r :: past), l.timed.admits past r) := by
  have hrules := admitRules_charged hl hpast hr
  unfold Quota.Policy.admits
  cases hu : l.universal with
  | none =>
    have hpass : l.timed.passes past r = true :=
      Quota.Policy.passes_of_cap_none (show l.universal.map _ = none by rw [hu]; rfl)
    have hnone : (l.charged past).universal = none :=
      show l.universal.map _ = none by rw [hu]; rfl
    rw [RateLimiter.admits_of_none hnone, hrules, RateLimiter.charged_cons, hu, hpass,
      Bool.true_and]
    rfl
  | some u =>
    have hlimit := Limit.admits_charged (hl.universal u hu) hpast hr
    have hpass : l.timed.passes past r =
        decide (((past.filter fun q => decide (q.ip = r.ip)).length : Int) + 1 ≤ u.max) := by
      have hcap : l.timed.cap = some u.max := show l.universal.map _ = _ by rw [hu]; rfl
      unfold Quota.Policy.passes
      rw [hcap]
      rfl
    have hsome : (l.charged past).universal = some (u.charged past) :=
      show l.universal.map _ = _ by rw [hu]; rfl
    rw [RateLimiter.admits_of_some hsome, hlimit, ← hpass, hrules, RateLimiter.charged_cons, hu]
    cases l.timed.passes past r with
    | true => rfl
    | false => rfl

theorem RateLimiter.charged_nil (l : RateLimiter L) : l.charged [] = l := by
  have huniversal : (l.charged []).universal = l.universal := by
    show l.universal.map (fun u => u) = l.universal
    cases l.universal <;> rfl
  have hrules : (l.charged []).rules = l.rules := by
    refine List.ext_getElem? fun i => ?_
    simp only [RateLimiter.charged, List.getElem?_mapIdx]
    cases l.rules[i]? <;> rfl
  show (⟨(l.charged []).universal, (l.charged []).rules⟩ : RateLimiter L) = _
  rw [huniversal, hrules]

/-- **A sequence of requests**, by induction on it. -/
theorem RateLimiter.run_charged (hl : l.OneWindow W) : ∀ (rs past : List RateRequest),
    (∀ q ∈ past, q.now ∈ W) → (∀ q ∈ rs, q.now ∈ W) →
    (l.charged past).after rs = l.charged (rs.reverse ++ past) ∧
      (l.charged past).decisions rs = l.timed.decisions past rs
  | [], past, _, _ => ⟨rfl, rfl⟩
  | r :: rs, past, hpast, hrs => by
    have hr : r.now ∈ W := hrs r List.mem_cons_self
    have hstep := RateLimiter.admits_charged hl hpast hr
    obtain ⟨hafter, hdecisions⟩ := RateLimiter.run_charged hl rs (r :: past)
      (fun q hq => by
        rcases List.mem_cons.1 hq with rfl | hq
        · exact hr
        · exact hpast q hq)
      fun q hq => hrs q (List.mem_cons_of_mem _ hq)
    unfold RateLimiter.after RateLimiter.decisions
    rw [hstep, hafter, hdecisions, Quota.Policy.decisions_cons]
    simp

/-! ## Later windows -/

/-- What `policy` reads of a limiter. -/
def RateLimiter.shape (l : RateLimiter L) : Option Int × List (L.GlobMatcher × Int) :=
  (l.universal.map Limit.max, l.rules.map fun rule => (rule.matcher, rule.limit.max))

theorem RateLimiter.policy_congr {l l' : RateLimiter L} (h : l.shape = l'.shape) :
    l.policy = l'.policy := by
  have hpolicy : ∀ l : RateLimiter L, l.policy =
      { key := Prod.fst
        cap := l.shape.1
        bucket := fun r => l.shape.2.findIdx? fun g => L.isMatch g.1 r.2
        max := fun i => ((l.shape.2[i]?).map Prod.snd).getD 0 } := by
    intro l
    simp only [RateLimiter.shape, RateLimiter.policy, List.findIdx?_map, List.getElem?_map,
      Option.map_map]
    rfl
  rw [hpolicy, h, ← hpolicy]

/-- Counting changes no cap and no pattern. -/
theorem RateLimiter.admits_policy (l : RateLimiter L) (ip : IpAddr) (target : Str) (now : Nat) :
    (l.admits ip target now).1.policy = l.policy := by
  have hrules : ∀ rs : List (Rule L), ((admitRules ip target now rs).1.map fun rule =>
      (rule.matcher, rule.limit.max)) = rs.map fun rule => (rule.matcher, rule.limit.max) := by
    intro rs
    induction rs with
    | nil => rfl
    | cons rule rs ih =>
      unfold admitRules
      split
      · rfl
      · simpa using ih
  refine RateLimiter.policy_congr (Prod.ext ?_ ?_)
  · cases hu : l.universal with
    | none =>
      rw [RateLimiter.admits_of_none hu]
      show none = l.universal.map _
      rw [hu]
      rfl
    | some u =>
      rw [RateLimiter.admits_of_some hu]
      show _ = l.universal.map _
      rw [hu]
      split <;> rfl
  · cases hu : l.universal with
    | none =>
      rw [RateLimiter.admits_of_none hu]
      exact hrules l.rules
    | some u =>
      rw [RateLimiter.admits_of_some hu]
      split
      · exact hrules l.rules
      · rfl

theorem RateLimiter.after_policy : ∀ (rs : List RateRequest) (l : RateLimiter L),
    (l.after rs).policy = l.policy
  | [], _ => rfl
  | r :: rs, l => by
    unfold RateLimiter.after
    rw [RateLimiter.after_policy rs, RateLimiter.admits_policy]

end Run

/-! ## The decisions -/

section Decisions

variable {L : Crates} {B : RateBuilders L} {cfg : RateLimitConfig} {l : RateLimiter L}
  {W : Set Nat}

/-- How many requests an IP has made. -/
def madeBy (ip : IpAddr) (rs : List RateRequest) : Nat :=
  (rs.filter fun q => decide (q.ip = ip)).length

/-- How many of them passed the universal cap and fell under rule `i` first. -/
def RateLimitConfig.chargedTo (B : RateBuilders L) (cfg : RateLimitConfig) (i : Nat) (ip : IpAddr)
    (rs : List RateRequest) : Nat :=
  (cfg.policy B).used i ip (rs.map RateRequest.call).reverse

/-- A limiter's decisions on one IP's requests. -/
def RateLimiter.decisionsFor (l : RateLimiter L) (ip : IpAddr) (rs : List RateRequest) :
    List Bool :=
  ((l.decisions rs).filter fun d => decide (d.1.ip = ip)).map Prod.snd

/-- The universal cap refuses the last of these requests. -/
def RateLimitConfig.OverUniversal (cfg : RateLimitConfig) (rs : List RateRequest) (ip : IpAddr) :
    Prop :=
  ∃ n, cfg.universalMax = some n ∧ n < (madeBy ip rs : Int)

theorem total_reverse {ip : IpAddr} {rs : List RateRequest} :
    (cfg.policy B).total ip (rs.map RateRequest.call).reverse = madeBy ip rs := by
  unfold Quota.Policy.total Quota.Policy.ofKey madeBy
  rw [← List.map_reverse, List.filter_map, List.length_map, List.filter_reverse,
    List.length_reverse]
  rfl

theorem call_cons_reverse (before : List RateRequest) (r : RateRequest) :
    r.call :: (before.map RateRequest.call).reverse =
      ((before ++ [r]).map RateRequest.call).reverse := by
  simp

/-- The policy's shared cap is the universal one. -/
theorem overUniversal_iff {before : List RateRequest} {r : RateRequest} :
    (∃ n, (cfg.policy B).cap = some n ∧ n < ((cfg.policy B).total ((cfg.policy B).key r.call)
      (r.call :: (before.map RateRequest.call).reverse) : Int)) ↔
      cfg.OverUniversal (before ++ [r]) r.ip := by
  rw [call_cons_reverse, total_reverse]
  rfl

/-- An IP's own requests, from the targets it asked for. -/
theorem calls_ofIp (ip : IpAddr) (rs : List RateRequest) :
    (rs.filter fun q => decide (q.ip = ip)).map RateRequest.call =
      ((rs.filter fun q => decide (q.ip = ip)).map RateRequest.target).map (Prod.mk ip) := by
  rw [List.map_map]
  refine List.map_congr_left fun q hq => ?_
  have hip : q.ip = ip := by simpa using (List.mem_filter.1 hq).2
  rw [← hip]
  rfl

/-- In one window, the decisions for an IP are the policy's on that IP's own requests. -/
theorem RateLimiter.decisionsFor_eq (hwindow : l.OneWindow W) (ip : IpAddr)
    {rs : List RateRequest} (hrs : ∀ q ∈ rs, q.now ∈ W) :
    l.decisionsFor ip rs = (l.policy.decisions []
      ((rs.filter fun q => decide (q.ip = ip)).map RateRequest.call)).map Prod.snd := by
  have hrun := (RateLimiter.run_charged hwindow rs [] (fun _ h => nomatch h) hrs).2
  rw [RateLimiter.charged_nil] at hrun
  have hkey := Quota.Policy.decisions_ofKey (P := l.timed) ip rs []
  have hcomap := Quota.Policy.decisions_comap (P := l.policy) (f := RateRequest.call)
    (rs.filter fun q => decide (q.ip = ip)) []
  rw [List.map_nil] at hcomap
  unfold RateLimiter.decisionsFor
  rw [hrun, ← hcomap, List.map_map]
  exact congrArg (List.map Prod.snd) hkey

/-- In one window, the limiter decides as the configuration's policy. -/
theorem decision_eq {l₀ : RateLimiter L} {earlier : List RateRequest}
    (hcfg : RateLimiter.fromConfig B cfg = .ok (some l₀))
    (hwindow : (l₀.after earlier).OneWindow W) {before : List RateRequest} {r : RateRequest}
    (hin : ∀ q ∈ before ++ [r], q.now ∈ W) :
    (((l₀.after earlier).after before).admits r.ip r.target r.now).2 =
      (cfg.policy B).admits (before.map RateRequest.call).reverse r.call := by
  have hpast : ∀ q ∈ before, q.now ∈ W := fun q hq => hin q (List.mem_append_left _ hq)
  have hafter := (RateLimiter.run_charged hwindow before [] (fun _ h => nomatch h) hpast).1
  rw [RateLimiter.charged_nil, List.append_nil] at hafter
  rw [hafter, RateLimiter.admits_charged hwindow
    (fun q hq => hpast q (List.mem_reverse.1 hq)) (hin r (by simp))]
  unfold RateLimiter.timed
  rw [Quota.Policy.admits_comap, RateLimiter.after_policy, fromConfig_policy hcfg,
    List.map_reverse]

/-- **Rate-limiter decisions.**  On requests that fall in one window of each limit, the decisions
for an IP are a function of the targets that IP asked for, and a request is refused exactly when
the IP's requests exceed the universal maximum, or those of them that passed it and fell under
the same rule exceed that rule's. -/
theorem rate_decisions {l₀ : RateLimiter L}
    (hcfg : RateLimiter.fromConfig B cfg = .ok (some l₀)) (earlier : List RateRequest)
    (hwindow : (l₀.after earlier).OneWindow W) :
    (∀ ip rs rs', (∀ q ∈ rs, q.now ∈ W) → (∀ q ∈ rs', q.now ∈ W) →
      (rs.filter fun q => decide (q.ip = ip)).map RateRequest.target =
        (rs'.filter fun q => decide (q.ip = ip)).map RateRequest.target →
      (l₀.after earlier).decisionsFor ip rs = (l₀.after earlier).decisionsFor ip rs') ∧
    ∀ before r, (∀ q ∈ before ++ [r], q.now ∈ W) →
      ((((l₀.after earlier).after before).admits r.ip r.target r.now).2 = false ↔
        cfg.OverUniversal (before ++ [r]) r.ip ∨
          ∃ i, cfg.firstRule B r.target = some i ∧
            cfg.ruleMax i < (cfg.chargedTo B i r.ip (before ++ [r]) : Int)) := by
  constructor
  · intro ip rs rs' hrs hrs' htargets
    rw [RateLimiter.decisionsFor_eq hwindow ip hrs, RateLimiter.decisionsFor_eq hwindow ip hrs',
      calls_ofIp, htargets, calls_ofIp]
  · intro before r hin
    rw [decision_eq hcfg hwindow hin, Quota.Policy.admits_eq_false_iff, overUniversal_iff,
      call_cons_reverse]
    rfl

/-- The requests that do not fall under rule `i` first. -/
def RateLimitConfig.deleteRule (B : RateBuilders L) (cfg : RateLimitConfig) (i : Nat)
    (rs : List RateRequest) : List RateRequest :=
  rs.filter fun q => decide (cfg.firstRule B q.target ≠ some i)

theorem without_reverse {i : Nat} {rs : List RateRequest} :
    ((cfg.deleteRule B i rs).map RateRequest.call).reverse =
      (cfg.policy B).without i (rs.map RateRequest.call).reverse := by
  unfold RateLimitConfig.deleteRule Quota.Policy.without
  rw [← List.map_reverse, ← List.map_reverse, List.filter_map, List.filter_reverse]
  rfl

end Decisions

/-! ## A limiter with two caps -/

/-- Globs with literal and escaped characters, `?` and `*`. -/
def globMatch : Str → Str → Bool
  | [], s => s.isEmpty
  | '*' :: p, s => s.tails.any fun t => globMatch p t
  | '?' :: p, s =>
    match s with
    | [] => false
    | _ :: t => globMatch p t
  | '\\' :: c :: p, s =>
    match s with
    | [] => false
    | d :: t => c == d && globMatch p t
  | c :: p, s =>
    match s with
    | [] => false
    | d :: t => c == d && globMatch p t

/-- The crates with such globs, and an estimator that keeps every request it observed. -/
def countingCrates : Crates :=
  { workstationCrates with
    GlobMatcher := Str
    isMatch := globMatch
    Rate := List IpAddr
    observe := fun rate ip _ =>
      (ip :: rate, ((rate.filter fun q => decide (q = ip)).length : Int) + 1) }

def countingBuilders : RateBuilders countingCrates := ⟨fun pattern => .ok pattern, fun _ => []⟩

theorem countsExactly_counting (W : Set Nat) :
    CountsExactly (L := countingCrates) W ([] : List IpAddr) := by
  have hobserved : ∀ past : List RateRequest,
      observeAll (L := countingCrates) ([] : List IpAddr) past = past.map RateRequest.ip := by
    intro past
    induction past with
    | nil => rfl
    | cons r past ih =>
      rw [List.map_cons, ← ih]
      rfl
  intro past r _ _
  rw [hobserved]
  show (((past.map RateRequest.ip).filter fun q => decide (q = r.ip)).length : Int) + 1 = _
  rw [List.filter_map, List.length_map]
  rfl

/-- Two requests a minute for each IP, one of them under `example.com/secrets/`. -/
def secretsConfig : RateLimitConfig where
  enabled := true
  windowSecs := 60
  maxRequests := 2
  rules := [⟨"example.com/secrets/*".toList, 60, 1⟩]

def secretsLimiter : RateLimiter countingCrates where
  universal := some ⟨([] : List IpAddr), 2⟩
  rules := [⟨"example.com/secrets/*".toList, ([] : List IpAddr), 1⟩]

theorem secretsConfig_accepted :
    RateLimiter.fromConfig countingBuilders secretsConfig = .ok (some secretsLimiter) := rfl

theorem secretsLimiter_window : secretsLimiter.OneWindow Set.univ where
  universal := by
    rintro _ ⟨⟩
    exact countsExactly_counting _
  rules := by
    intro rule hrule
    rw [List.mem_singleton.1 hrule]
    exact countsExactly_counting _

def secretRequest : RateRequest := ⟨workstationIp, "example.com/secrets/a".toList, 0⟩

def newsRequest : RateRequest := ⟨workstationIp, "example.com/news".toList, 0⟩

/-- The second request for a secret exceeds its rule's maximum. -/
theorem rate_decisions_secrets :
    ((secretsLimiter.after [secretRequest]).admits secretRequest.ip secretRequest.target
      secretRequest.now).2 = false := by
  refine ((rate_decisions secretsConfig_accepted [] secretsLimiter_window).2 [secretRequest]
    secretRequest fun _ _ => Set.mem_univ _).2 (Or.inr ⟨0, ?_, ?_⟩)
  · decide
  · decide

end DenBrowser
