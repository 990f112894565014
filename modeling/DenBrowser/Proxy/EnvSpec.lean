import DenBrowser.Proxy.Env

/-!
# What expansion means

`expandSpec` says from left to right what a string with references stands for, run of `$` by run
of `$`; the scanner `expandStr` computes it.  `escaped` doubles the runs that stand before a `{`.

* `expandSpec_reads` — the reference gives the meaning of the grammar `Reads`;
* `expandLoop_asked` — the scanner depends on the variables it asks for, and on no other;
* `expandLoop_escapes` — an escaped string expands to the string it was, and asks for nothing;
* `expandStr_spec` — these together, with what follows for strings without a `${`.
-/

set_option autoImplicit false

namespace DenBrowser.Env

/-! ## The reference -/

/-- The text up to the next `}`, and what follows it. -/
def untilBrace : Str → Option (Str × Str)
  | [] => none
  | c :: body =>
    if c = '}' then some ([], body) else (untilBrace body).map fun r => (c :: r.1, r.2)

theorem untilBrace_length : ∀ {body name after : Str}, untilBrace body = some (name, after) →
    after.length < body.length
  | [], name, after, h => by cases h
  | c :: body, name, after, h => by
    unfold untilBrace at h
    split at h
    · simp only [Option.some.injEq, Prod.mk.injEq] at h
      obtain ⟨_, rfl⟩ := h
      simp
    · obtain ⟨⟨name', after'⟩, hrest, heq⟩ := Option.map_eq_some_iff.1 h
      simp only [Prod.mk.injEq] at heq
      obtain ⟨_, rfl⟩ := heq
      have := untilBrace_length hrest
      simp only [List.length_cons]
      omega

theorem untilBrace_append {name : Str} (h : '}' ∉ name) (after : Str) :
    untilBrace (name ++ '}' :: after) = some (name, after) := by
  induction name with
  | nil => simp [untilBrace]
  | cons c name ih =>
    simp only [List.mem_cons, not_or] at h
    simp [untilBrace, Ne.symm h.1, ih h.2]

theorem untilBrace_none {body : Str} (h : '}' ∉ body) : untilBrace body = none := by
  induction body with
  | nil => rfl
  | cons c body ih =>
    simp only [List.mem_cons, not_or] at h
    simp [untilBrace, Ne.symm h.1, ih h.2]

/-- What a string stands for: a run of `k` dollars is copied, unless a `{` follows; then half of
them are, and an odd one replaces the text up to the next `}` by the value of the variable, in
which nothing is replaced. -/
def expandSpec (lookup : Lookup) : Str → Except Failure Str
  | [] => .ok []
  | c :: rest =>
    if c = '$' then
      let k := (rest.takeWhile (· == '$')).length + 1
      match _hr : rest.dropWhile (· == '$') with
      | '{' :: body =>
        if k % 2 = 0 then
          (expandSpec lookup ('{' :: body)).map (List.replicate (k / 2) '$' ++ ·)
        else
          match _hb : untilBrace body with
          | none => .error .unterminated
          | some (name, after) =>
            if isValidName name then
              match check (lookup name) with
              | .ok value =>
                (expandSpec lookup after).map (List.replicate (k / 2) '$' ++ value ++ ·)
              | .error fault => .error (.variable fault name)
            else .error .invalid
      | after => (expandSpec lookup after).map (List.replicate k '$' ++ ·)
    else (expandSpec lookup rest).map (c :: ·)
termination_by s => s.length
decreasing_by
  all_goals
    try have hle := (List.dropWhile_suffix (· == '$') (l := rest)).length_le
    try rw [_hr] at hle
    try have hlt := untilBrace_length _hb
    simp_all only [List.length_cons]
    omega

theorem expandSpec_char {lookup : Lookup} {c : Char} (hc : c ≠ '$') (rest : Str) :
    expandSpec lookup (c :: rest) = (expandSpec lookup rest).map (c :: ·) := by
  rw [expandSpec, if_neg hc]

theorem takeWhile_dollars (n : Nat) {rest : Str} (h : EndsRun rest) :
    (List.replicate n '$' ++ rest).takeWhile (· == '$') = List.replicate n '$' := by
  rw [List.takeWhile_append_of_pos (by simp)]
  cases rest with
  | nil => simp
  | cons c rest =>
    have hc : c ≠ '$' := by simpa [EndsRun] using h
    simp [hc]

theorem dropWhile_dollars (n : Nat) {rest : Str} (h : EndsRun rest) :
    (List.replicate n '$' ++ rest).dropWhile (· == '$') = rest := by
  rw [List.dropWhile_append_of_pos (by simp)]
  cases rest with
  | nil => simp
  | cons c rest =>
    have hc : c ≠ '$' := by simpa [EndsRun] using h
    simp [hc]

/-- A run of dollars away from a brace. -/
theorem expandSpec_dollars {lookup : Lookup} (n : Nat) {rest : Str} (hr : Plain rest) :
    expandSpec lookup (List.replicate (n + 1) '$' ++ rest) =
      (expandSpec lookup rest).map (List.replicate (n + 1) '$' ++ ·) := by
  have htake := takeWhile_dollars n hr.endsRun
  have hdrop := dropWhile_dollars n hr.endsRun
  rw [List.replicate_succ, List.cons_append, expandSpec, if_pos rfl]
  dsimp only
  rw [htake, List.length_replicate, List.replicate_succ]
  split
  · rename_i body heq
    rw [hdrop] at heq
    exact absurd rfl (hr '{' (by rw [heq]; rfl)).2
  · rw [hdrop]

/-- A run of dollars before a brace. -/
theorem expandSpec_brace {lookup : Lookup} (n : Nat) (body : Str) :
    expandSpec lookup (List.replicate (n + 1) '$' ++ '{' :: body) =
      if (n + 1) % 2 = 0 then
        (expandSpec lookup ('{' :: body)).map (List.replicate ((n + 1) / 2) '$' ++ ·)
      else
        match untilBrace body with
        | none => .error .unterminated
        | some (name, after) =>
          if isValidName name then
            match check (lookup name) with
            | .ok value =>
              (expandSpec lookup after).map (List.replicate ((n + 1) / 2) '$' ++ value ++ ·)
            | .error fault => .error (.variable fault name)
          else .error .invalid := by
  have hrun : EndsRun ('{' :: body) := by simp [EndsRun]
  have htake := takeWhile_dollars n hrun
  have hdrop := dropWhile_dollars n hrun
  rw [List.replicate_succ, List.cons_append, expandSpec, if_pos rfl]
  dsimp only
  rw [htake, List.length_replicate]
  split
  · rename_i body' heq
    rw [hdrop] at heq
    obtain rfl : body = body' := by simpa using heq
    split
    · rfl
    · split <;> rename_i hb <;> simp only [hb]
  · rename_i hnot
    exact (hnot body hdrop).elim

/-- The reference gives the meaning of what is read. -/
theorem expandSpec_reads (lookup : Lookup) {s : Str} {ps : List Piece} {e : Ending}
    (h : Reads s ps e) : expandSpec lookup s = meaning lookup ps e := by
  induction h with
  | done => rw [expandSpec, meaning]
  | char hc _ ih =>
    rw [expandSpec_char hc, ih, meaning]
    rfl
  | dollars hr _ ih => rw [expandSpec_dollars _ hr, ih, meaning]
  | @escaped n rest ps e _ ih =>
    have hlen : 2 * (n + 1) = 2 * n + 1 + 1 := by omega
    have hhalf : (2 * n + 1 + 1) / 2 = n + 1 := by omega
    rw [hlen, expandSpec_brace, if_pos (by omega), ih, hhalf, meaning]
  | @reference n name rest ps e hn _ ih =>
    have hhalf : (2 * n + 1) / 2 = n := by omega
    rw [expandSpec_brace, if_neg (by omega), untilBrace_append (not_mem_of_isValidName hn)]
    dsimp only
    rw [if_pos hn, hhalf, meaning, meaning, ih]
    cases check (lookup name) with
    | ok value => exact (map_append_map _ _ _).symm
    | error fault => rfl
  | @invalid n name rest hn hb =>
    rw [expandSpec_brace, if_neg (by omega), untilBrace_append hb]
    dsimp only
    rw [if_neg (by simp [hn]), meaning]
  | @unterminated n body hb =>
    rw [expandSpec_brace, if_neg (by omega), untilBrace_none hb, meaning]

/-- The scanner computes the reference. -/
theorem expandStr_eq_spec (s : Str) (lookup : Lookup) (secret : Bool) :
    expandStr s lookup secret = (expandSpec lookup s).mapError (Failure.text secret) := by
  obtain ⟨ps, e, h⟩ := reads_total s
  rw [expandStr_reads lookup secret h, expandSpec_reads lookup h]

/-! ## What the scanner asks for -/

/-- The names the loop of `expand_str` hands to the lookup, in order. -/
def asked (lookup : Lookup) (rest : Str) : List Str :=
  if h : '$' ∈ rest then
    match afterDollars rest, afterDollars_length h with
    | '{' :: body, _hlt =>
      if dollarRun rest % 2 = 0 then asked lookup ('{' :: body)
      else if '}' ∈ body then
        let name := body.takeWhile (· != '}')
        if isValidName name = false then []
        else
          name :: match check (lookup name) with
            | .ok _ => asked lookup (body.drop (name.length + 1))
            | .error _ => []
      else []
    | after, _hlt => asked lookup after
  else []
termination_by rest.length
decreasing_by
  · exact _hlt
  · simp only [List.length_cons, List.length_drop] at _hlt ⊢
    omega
  · exact _hlt

theorem asked_plain {lookup : Lookup} {rest : Str} (h : '$' ∉ rest) : asked lookup rest = [] := by
  rw [asked, dif_neg h]

theorem asked_other {lookup : Lookup} {rest : Str} (h : '$' ∈ rest)
    (ha : ∀ body, afterDollars rest ≠ '{' :: body) :
    asked lookup rest = asked lookup (afterDollars rest) := by
  rw [asked, dif_pos h]
  split
  · rename_i body _ heq _
    exact absurd heq (ha body)
  · rfl

theorem asked_brace {lookup : Lookup} {rest body : Str} (h : '$' ∈ rest)
    (ha : afterDollars rest = '{' :: body) :
    asked lookup rest =
      if dollarRun rest % 2 = 0 then asked lookup ('{' :: body)
      else if '}' ∈ body then
        if isValidName (body.takeWhile (· != '}')) = false then []
        else
          body.takeWhile (· != '}') ::
            match check (lookup (body.takeWhile (· != '}'))) with
            | .ok _ => asked lookup (body.drop ((body.takeWhile (· != '}')).length + 1))
            | .error _ => []
      else [] := by
  rw [asked, dif_pos h]
  split
  · rename_i body' _ heq _
    obtain rfl : body' = body := by simpa [heq] using ha
    rfl
  · rename_i heq
    exact (heq body (ha ▸ afterDollars_length h) ha (proof_irrel_heq _ _)).elim

theorem asked_char {lookup : Lookup} {c : Char} (hc : c ≠ '$') (rest : Str) :
    asked lookup (c :: rest) = asked lookup rest := by
  by_cases h : '$' ∈ rest
  · have h' : '$' ∈ c :: rest := List.mem_cons_of_mem c h
    cases ha : afterDollars rest with
    | nil => rw [asked_other h' (by simp [hc, ha]), asked_other h (by simp [ha])]; simp [hc]
    | cons d body =>
      by_cases hd : d = '{'
      · subst hd
        rw [asked_brace h' (by simpa [hc] using ha), asked_brace h ha]
        simp [hc]
      · rw [asked_other h' (by simp [hc, ha, hd]), asked_other h (by simp [ha, hd])]
        simp [hc]
  · rw [asked_plain (by simp [Ne.symm hc, h]), asked_plain h]

/-- **The scanner depends on the variables it asks for**, and on no other. -/
theorem expandLoop_asked {lookup lookup' : Lookup} (secret : Bool) (rest : Str) :
    (∀ name ∈ asked lookup rest, lookup name = lookup' name) → ∀ out,
      expandLoop lookup secret rest out = expandLoop lookup' secret rest out := by
  induction hk : rest.length using Nat.strongRecOn generalizing rest with
  | ind k ih =>
    subst hk
    intro hsame out
    by_cases h : '$' ∈ rest
    · have hlt := afterDollars_length h
      by_cases hb : ∃ body, afterDollars rest = '{' :: body
      · obtain ⟨body, ha⟩ := hb
        rw [ha, List.length_cons] at hlt
        rw [asked_brace h ha] at hsame
        rw [expandLoop_brace out h ha, expandLoop_brace out h ha]
        by_cases heven : dollarRun rest % 2 = 0
        · rw [if_pos heven] at hsame ⊢
          rw [if_pos heven]
          exact ih _ (by simpa using hlt) _ rfl hsame _
        rw [if_neg heven] at hsame ⊢
        rw [if_neg heven]
        by_cases hclosed : '}' ∈ body
        · rw [if_pos hclosed] at hsame ⊢
          rw [if_pos hclosed]
          by_cases hvalid : isValidName (body.takeWhile (· != '}')) = false
          · rw [if_pos hvalid, if_pos hvalid]
          · rw [if_neg hvalid] at hsame ⊢
            rw [if_neg hvalid]
            have hname := hsame _ List.mem_cons_self
            rw [← hname]
            cases hc : check (lookup (body.takeWhile (· != '}'))) with
            | error fault => rfl
            | ok value =>
              refine ih _ ?_ _ rfl (fun name hmem => hsame name ?_) _
              · rw [List.length_drop]
                omega
              · rw [hc]
                exact List.mem_cons_of_mem _ hmem
        · rw [if_neg hclosed, if_neg hclosed]
      · have ha : ∀ body, afterDollars rest ≠ '{' :: body := fun body hbody => hb ⟨body, hbody⟩
        rw [asked_other h ha] at hsame
        rw [expandLoop_other out h ha, expandLoop_other out h ha]
        exact ih _ hlt _ rfl hsame _
    · rw [expandLoop_plain out h, expandLoop_plain out h]

/-! ## Escaping -/

/-- Each run of dollars directly before a `{` doubled. -/
def escaped : Str → Str
  | [] => []
  | c :: rest =>
    if c = '$' ∧ (rest.dropWhile (· == '$')).head? = some '{' then '$' :: '$' :: escaped rest
    else c :: escaped rest

example : escaped "a$b$$\x7bX\x7d$".toList = "a$b$$$$\x7bX\x7d$".toList := by decide

/-- The second string is the first with the runs before a `{` doubled, run by run. -/
inductive Escapes : Str → Str → Prop
  | done : Escapes [] []
  | char {c : Char} {s t : Str} (hc : c ≠ '$') (h : Escapes s t) : Escapes (c :: s) (c :: t)
  | dollars {n : Nat} {s t : Str} (hs : Plain s) (h : Escapes s t) :
      Escapes (List.replicate (n + 1) '$' ++ s) (List.replicate (n + 1) '$' ++ t)
  | brace {n : Nat} {s t : Str} (h : Escapes s t) :
      Escapes (List.replicate (n + 1) '$' ++ '{' :: s)
        (List.replicate (2 * (n + 1)) '$' ++ '{' :: t)

theorem Escapes.plain {s t : Str} (h : Escapes s t) (hs : Plain s) : Plain t := by
  cases h with
  | done => exact hs
  | char hc _ => simpa [Plain] using hs
  | dollars _ _ => exact absurd rfl (hs '$' (by simp [List.replicate_succ])).1
  | brace _ => exact absurd rfl (hs '$' (by simp [List.replicate_succ])).1

theorem escaped_dollars (n : Nat) {s : Str} (hs : Plain s) :
    escaped (List.replicate n '$' ++ s) = List.replicate n '$' ++ escaped s := by
  induction n with
  | zero => rfl
  | succ n ih =>
    have hnot : ¬('$' = '$' ∧
        ((List.replicate n '$' ++ s).dropWhile (· == '$')).head? = some '{') := by
      rw [dropWhile_dollars n hs.endsRun]
      rintro ⟨_, h⟩
      exact (hs '{' (by simp [h])).2 rfl
    rw [List.replicate_succ, List.cons_append, escaped, if_neg hnot, ih, List.cons_append]

theorem escaped_brace (n : Nat) (s : Str) :
    escaped (List.replicate n '$' ++ '{' :: s) =
      List.replicate (2 * n) '$' ++ '{' :: escaped s := by
  induction n with
  | zero => simp [escaped]
  | succ n ih =>
    have hrun : EndsRun ('{' :: s) := by simp [EndsRun]
    have hbrace : '$' = '$' ∧
        ((List.replicate n '$' ++ '{' :: s).dropWhile (· == '$')).head? = some '{' := by
      rw [dropWhile_dollars n hrun]
      exact ⟨rfl, rfl⟩
    rw [List.replicate_succ, List.cons_append, escaped, if_pos hbrace, ih]
    rfl

theorem escapes_escaped (s : Str) : Escapes s (escaped s) := by
  induction hk : s.length using Nat.strongRecOn generalizing s with
  | ind k ih =>
    subst hk
    cases s with
    | nil => exact .done
    | cons c rest =>
      by_cases hc : c = '$'
      · subst hc
        obtain ⟨n, after, hs, hafter⟩ := exists_run rest
        have hlen := congrArg List.length hs
        rw [List.length_append, List.length_replicate] at hlen
        by_cases hb : ∃ body, after = '{' :: body
        · obtain ⟨body, rfl⟩ := hb
          rw [List.length_cons (a := '{')] at hlen
          rw [hs, escaped_brace]
          exact .brace (ih _ (by omega) body rfl)
        · have hplain : Plain after := by
            intro d hd
            refine ⟨fun h => hafter (h ▸ hd), fun h => hb ?_⟩
            cases after with
            | nil => cases hd
            | cons e body =>
              cases hd
              exact ⟨body, by rw [h]⟩
          rw [hs, escaped_dollars _ hplain]
          exact .dollars hplain (ih _ (by omega) after rfl)
      · rw [escaped, if_neg (by simp [hc])]
        exact .char hc (ih _ (by simp) rest rfl)

/-- **An escaped string expands to the string it was.** -/
theorem expandLoop_escapes {s t : Str} (h : Escapes s t) (lookup : Lookup) (secret : Bool) :
    ∀ out, expandLoop lookup secret t out = .ok (out ++ s) := by
  induction h with
  | done => intro out; rw [expandLoop_plain out (by simp)]
  | char hc _ ih => intro out; rw [expandLoop_char hc, ih]; simp
  | @dollars n s t hs h ih =>
    intro out
    have ht := h.plain hs
    have ha := afterDollars_run n ht.endsRun
    rw [expandLoop_other out (mem_run n t), ha, ih, beforeDollar_run, dollarRun_run n ht.endsRun]
    · simp
    · rw [ha]
      rintro body rfl
      exact (ht '{' rfl).2 rfl
  | @brace n s t _ ih =>
    intro out
    have hrun : EndsRun ('{' :: t) := by simp [EndsRun]
    have hlen : 2 * (n + 1) = 2 * n + 1 + 1 := by omega
    have hhalf : (2 * n + 1 + 1) / 2 = n + 1 := by omega
    rw [hlen, expandLoop_brace out (mem_run _ _) (afterDollars_run _ hrun), dollarRun_run _ hrun,
      if_pos (by omega), hhalf, beforeDollar_run, expandLoop_char (by decide), ih]
    simp

/-- Expanding an escaped string asks for nothing. -/
theorem asked_escapes {s t : Str} (h : Escapes s t) (lookup : Lookup) : asked lookup t = [] := by
  induction h with
  | done => exact asked_plain (by simp)
  | char hc _ ih => rw [asked_char hc, ih]
  | @dollars n s t hs h ih =>
    have ht := h.plain hs
    have ha := afterDollars_run n ht.endsRun
    rw [asked_other (mem_run n t), ha, ih]
    rw [ha]
    rintro body rfl
    exact (ht '{' rfl).2 rfl
  | @brace n s t _ ih =>
    have hrun : EndsRun ('{' :: t) := by simp [EndsRun]
    have hlen : 2 * (n + 1) = 2 * n + 1 + 1 := by omega
    rw [hlen, asked_brace (mem_run _ _) (afterDollars_run _ hrun), dollarRun_run _ hrun,
      if_pos (by omega), asked_char (by decide), ih]

/-- Without a `${` there is nothing to escape. -/
theorem escaped_eq_self : ∀ {s : Str}, ¬"$\x7b".toList <:+: s → escaped s = s
  | [], _ => rfl
  | c :: rest, h => by
    have hrest : ¬"$\x7b".toList <:+: rest := fun hin => h (List.infix_cons hin)
    have hnot : ¬(c = '$' ∧ (rest.dropWhile (· == '$')).head? = some '{') := by
      rintro ⟨rfl, hhead⟩
      obtain ⟨n, after, hs, hafter⟩ := exists_run rest
      have hafter' : after.head? = some '{' := by
        have hdrop := congrArg (List.dropWhile (· == '$')) hs
        rw [dropWhile_dollars _ hafter, List.dropWhile_cons, if_pos (by rfl)] at hdrop
        rw [← hdrop, hhead]
      obtain ⟨body, rfl⟩ : ∃ body, after = '{' :: body := by
        cases after with
        | nil => cases hafter'
        | cons d body => exact ⟨body, by simpa using hafter'⟩
      refine h ⟨List.replicate n '$', body, ?_⟩
      rw [hs, List.replicate_succ']
      simp
    rw [escaped, if_neg hnot, escaped_eq_self hrest]

/-- **What `expand_str` computes**: the reference, for every string and lookup; a string without
`${` is left as it is; and doubling each run of dollars directly before a `{` gives a string that
expands back, whatever the environment, which is not asked. -/
theorem expandStr_spec (s : Str) :
    (∀ lookup secret,
      expandStr s lookup secret = (expandSpec lookup s).mapError (Failure.text secret)) ∧
    (¬"$\x7b".toList <:+: s → ∀ lookup secret, expandStr s lookup secret = .ok s) ∧
    ∀ lookup secret, expandStr (escaped s) lookup secret = .ok s ∧
      asked lookup (escaped s) = [] := by
  have hback : ∀ lookup secret, expandStr (escaped s) lookup secret = .ok s := by
    intro lookup secret
    rw [expandStr, expandLoop_escapes (escapes_escaped s)]
    rfl
  refine ⟨expandStr_eq_spec s, ?_, ?_⟩
  · intro h lookup secret
    have hself := hback lookup secret
    rwa [escaped_eq_self h] at hself
  · intro lookup secret
    exact ⟨hback lookup secret, asked_escapes (escapes_escaped s) lookup⟩

end DenBrowser.Env
