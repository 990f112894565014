import DenBrowser.Browser.SiteListFilter

/-!
# One list after the other

The build writes one list into the site filter and then the other, and the second time it reads
what it wrote.  A list that is written can begin a block of the other one, or end it.

* `first_clean`, `second_clean` — a filter that declares both lists has them where they were put;
* `Fitting` — when two lists can stand in one file;
* `filter_first`, `filter_second` — the filter declares the lists exactly when they fit.
-/

set_option autoImplicit false

namespace DenBrowser.SiteLists

open SiteConfig GeneratedBlock Sentinel Words Lockdown

section

variable {k j : SentinelName} {ks js : List Str} {pk pj qk qj : List PyTemplate.Piece}
  {a b c m t w z result : Str}

/-! ## One block after the other -/

/-- The text between two first sentinels is outside of the blocks, when no block ends in it. -/
theorem outside_unclosed {n : SentinelName} {x y : Str} (hx : ¬n.start.text <:+: x)
    (hy : ¬n.stop.text <:+: y) :
    outside n (x ++ (n.start.text ++ y)) = [x ++ (n.start.text ++ y)] :=
  outside_eq_self (congrArg Parts.blocks (blocks_of_unclosed n.start.ne_nil
    ((fresh_start_iff n).2 hx) ((cut_eq_none n.stop.ne_nil).2 hy)))

/-- **The first block is written first**: what was written into it is read again. -/
theorem first_clean (hk : PyTemplate.run .text (body k ks) = some (qk, .text))
    (hj : PyTemplate.run .text (body j js) = some (qj, .text))
    (hexpand : ∀ x, PyTemplate.expand pj x =
      j.start.text ++ (PyTemplate.expand qj x ++ j.stop.text))
    (ht : PyTemplate.expand qk (k.start.text ++ w) = t) (hne : k ≠ j) (ha : Free k j a)
    (hm : Free k j m) (hc : Free k j c) (hz : Free k j z)
    (hresult : substitute j.start.text j.stop.text (PyTemplate.expand pj)
      (two k j a (universalNewlines t) m c z) = result)
    (hdeclk : Declares k ks result) (hdeclj : Declares j js result)
    (hquiet : ∀ part ∈ outsideBoth k j result, Quiet k j part) :
    (∀ s ∈ ks, Verbatim s) ∧ (∀ s ∈ js, Verbatim s) ∧
      result = two k j a (body k ks) m (body j js) z ∧
      Clean k j a (body k ks) m (body j js) z := by
  have hfreshA := (fresh_start_iff k).2 ha.first
  cases hcut : cut j.start.text (universalNewlines t) with
  | some p =>
    -- the second sentinel is found in the text of the first list
    obtain ⟨x, y⟩ := p
    obtain ⟨heq, hx⟩ := of_cut hcut
    have hbefore : Fresh j.start.text (a ++ (k.start.text ++ x)) := by
      rw [fresh_start_iff]
      intro hin
      rcases infix_append (distinct_start hne.symm) hin with hin | hin
      · exact ha.second hin
      · exact (fresh_start_iff j).1 hx hin
    have htext : two k j a (universalNewlines t) m c z = (a ++ (k.start.text ++ x)) ++
        (j.start.text ++ (y ++ (k.stop.text ++ (m ++ (j.start.text ++ (c ++
          (j.stop.text ++ z))))))) := by
      rw [heq]
      simp [two]
    cases hstop : cut j.stop.text (y ++ (k.stop.text ++ (m ++ (j.start.text ++ (c ++
        (j.stop.text ++ z)))))) with
    | none =>
      have hin : j.stop.text <:+: y ++ (k.stop.text ++ (m ++ (j.start.text ++ (c ++
          (j.stop.text ++ z))))) :=
        ⟨y ++ (k.stop.text ++ (m ++ (j.start.text ++ c))), z, by simp⟩
      exact absurd hin ((cut_eq_none j.stop.ne_nil).1 hstop)
    | some q =>
      obtain ⟨b', r⟩ := q
      obtain ⟨hrest, hb'⟩ := of_cut hstop
      obtain ⟨v, hv⟩ := expand_newline hj (j.start.text ++ (b' ++ j.stop.text))
      rw [htext, hrest, substitute_append j.start.ne_nil j.stop.ne_nil hbefore hb', hexpand,
        hv] at hresult
      obtain ⟨q, o, r', hsplit, hleaves, hline⟩ := leaves_of_cut hcut (v ++ (j.stop.text ++
        substitute j.start.text j.stop.text (PyTemplate.expand pj) r))
      have hshape : result = a ++ (k.start.text ++ (q ++ '\n' :: r')) := by
        rw [← hresult, ← hline]
        simp
      rw [hshape] at hdeclk
      exact (declares_broken hk (ht.trans hsplit) hleaves hfreshA hdeclk).elim
  | none =>
    have hno := (cut_eq_none j.start.ne_nil).1 hcut
    have hnone : (blocks j.start.text j.stop.text z).blocks = [] := blocks_of_avoids hz.second
    have hbefore : Fresh j.start.text (upToSecond k a (universalNewlines t) m) :=
      (fresh_start_iff j).2 (not_infix_upToSecond hne ha.second hno hm.second)
    rw [two_eq, substitute_append j.start.ne_nil j.stop.ne_nil hbefore
      ((fresh_stop_iff j).2 hc.secondStop), hexpand, substitute_eq_self j.start.ne_nil hnone]
      at hresult
    generalize hu : PyTemplate.expand qj (j.start.text ++ (c ++ j.stop.text)) = u at hresult
    have hsecond : result = upToSecond k a (universalNewlines t) m ++
        (j.start.text ++ (u ++ (j.stop.text ++ z))) := by
      rw [← hresult]
      simp
    have hfirst : result = a ++ (k.start.text ++ (universalNewlines t ++ (k.stop.text ++
        (m ++ (j.start.text ++ (u ++ (j.stop.text ++ z))))))) := by
      rw [hsecond]
      simp [upToSecond]
    rw [hfirst] at hdeclk
    obtain ⟨hks, hbodyk, hfreshk⟩ := declares_reread hk ht hfreshA hdeclk
    rw [hsecond] at hdeclj
    obtain ⟨hjs, rfl, hfreshj⟩ := declares_read hj hu hbefore hdeclj
    rw [hbodyk] at hno hfirst
    have hstopk := (fresh_stop_iff k).1 hfreshk
    have hstopj := (fresh_stop_iff j).1 hfreshj
    refine ⟨hks, hjs, hfirst, ⟨hne, ha.toQuiet, hm.toQuiet, hz.toQuiet, hz.firstStop, hstopk, hno,
      hstopj, ?_⟩⟩
    -- a second block of the first list would begin outside
    intro x y hxy hin
    cases hblocks : (blocks k.start.text k.stop.text
        (m ++ (j.start.text ++ (body j js ++ (j.stop.text ++ z))))).blocks with
    | nil =>
      rw [blocks_eq_nil_iff k.start.ne_nil k.stop.ne_nil] at hblocks
      exact hblocks (m ++ (j.start.text ++ x)) (y ++ (j.stop.text ++ z)) (by rw [hxy]; simp)
        (hin.trans (List.prefix_append y _).isInfix)
    | cons p ps =>
      obtain ⟨x₁, b₁⟩ := p
      obtain ⟨r₁, hrest, hx₁, hb₁, _⟩ := of_blocks_cons k.start.ne_nil hblocks
      obtain ⟨p₁, r, hp₁, rfl, _⟩ := occurs_second hne hm.first hz.first hrest
      have hpart : m ++ (j.start.text ++ p₁) ∈ outsideBoth k j result := by
        rw [hfirst]
        unfold outsideBoth
        rw [List.mem_flatMap]
        refine ⟨m ++ (j.start.text ++ p₁), ?_, ?_⟩
        · unfold outside
          rw [blocks_append k.start.ne_nil k.stop.ne_nil hfreshA hfreshk, hrest,
            blocks_append k.start.ne_nil k.stop.ne_nil hx₁ hb₁]
          simp [Parts.outside]
        · have hclosed : ¬j.stop.text <:+: p₁ := fun h =>
            hstopj (h.trans ⟨[], k.start.text ++ r, by rw [hp₁]; simp⟩)
          rw [outside_unclosed hm.second hclosed]
          exact List.mem_singleton_self _
      exact (hquiet _ hpart).second ⟨m, p₁, by simp⟩

/-- **The second block is written first**: it is read again with the list in it. -/
theorem second_clean (hk : PyTemplate.run .text (body k ks) = some (qk, .text))
    (hj : PyTemplate.run .text (body j js) = some (qj, .text))
    (hexpand : ∀ x, PyTemplate.expand pk x =
      k.start.text ++ (PyTemplate.expand qk x ++ k.stop.text))
    (ht : PyTemplate.expand qj (j.start.text ++ w) = t) (hne : k ≠ j) (ha : Free k j a)
    (hb : Free k j b) (hm : Free k j m) (hz : Free k j z)
    (hresult : substitute k.start.text k.stop.text (PyTemplate.expand pk)
      (two k j a b m (universalNewlines t) z) = result)
    (hdeclk : Declares k ks result) (hdeclj : Declares j js result)
    (hquiet : ∀ part ∈ outsideBoth j k result, Quiet k j part) :
    (∀ s ∈ ks, Verbatim s) ∧ (∀ s ∈ js, Verbatim s) ∧
      result = two k j a (body k ks) m (body j js) z ∧
      Clean k j a (body k ks) m (body j js) z := by
  have hfreshA := (fresh_start_iff k).2 ha.first
  have hfirst : result = a ++ (k.start.text ++
      (PyTemplate.expand qk (k.start.text ++ (b ++ k.stop.text)) ++ (k.stop.text ++
        substitute k.start.text k.stop.text (PyTemplate.expand pk)
          (m ++ (j.start.text ++ (universalNewlines t ++ (j.stop.text ++ z))))))) := by
    rw [← hresult]
    unfold two
    rw [substitute_append k.start.ne_nil k.stop.ne_nil hfreshA ((fresh_stop_iff k).2 hb.firstStop),
      hexpand]
    simp
  have hdeclk' := hdeclk
  rw [hfirst] at hdeclk'
  obtain ⟨hks, hbodyk, hfreshk⟩ := declares_read hk rfl hfreshA hdeclk'
  rw [hbodyk] at hfirst
  have hstopk := (fresh_stop_iff k).1 hfreshk
  generalize hg : substitute k.start.text k.stop.text (PyTemplate.expand pk)
    (m ++ (j.start.text ++ (universalNewlines t ++ (j.stop.text ++ z)))) = g at hfirst
  -- a block of the second list would begin in the first one
  have hother : ¬j.start.text <:+: body k ks := by
    intro hin
    cases hcut : cut j.start.text (body k ks) with
    | none => exact (cut_eq_none j.start.ne_nil).1 hcut hin
    | some p =>
      obtain ⟨x, y⟩ := p
      obtain ⟨hxy, hx⟩ := of_cut hcut
      have hx' : ¬j.start.text <:+: a ++ (k.start.text ++ x) := by
        intro hin
        rcases infix_append (distinct_start hne.symm) hin with hin | hin
        · exact ha.second hin
        · exact (fresh_start_iff j).1 hx hin
      have hshape : result = (a ++ (k.start.text ++ x)) ++
          (j.start.text ++ (y ++ (k.stop.text ++ g))) := by
        rw [hfirst, hxy]
        simp
      cases hblocks : (blocks j.start.text j.stop.text result).blocks with
      | nil => exact hdeclj.ne_nil hblocks
      | cons q qs =>
        obtain ⟨x₁, b₁⟩ := q
        obtain ⟨r₁, hrest, hx₁, _, _⟩ := of_blocks_cons j.start.ne_nil hblocks
        have hsame : x₁ = a ++ (k.start.text ++ x) := by
          have h₁ := cut_append j.start.ne_nil hx₁ (b₁ ++ (j.stop.text ++ r₁))
          have h₂ := cut_append j.start.ne_nil ((fresh_start_iff j).2 hx')
            (y ++ (k.stop.text ++ g))
          rw [← hrest] at h₁
          rw [← hshape, h₁] at h₂
          exact (Prod.mk.inj (Option.some.inj h₂)).1
        have hpart : a ++ (k.start.text ++ x) ∈ outsideBoth j k result := by
          unfold outsideBoth
          rw [List.mem_flatMap]
          refine ⟨a ++ (k.start.text ++ x), ?_, ?_⟩
          · unfold outside Parts.outside
            rw [hblocks, hsame]
            exact List.mem_append_left _ List.mem_cons_self
          · have hclosed : ¬k.stop.text <:+: x := fun h =>
              hstopk (h.trans ⟨[], j.start.text ++ y, by rw [hxy]; simp⟩)
            rw [outside_unclosed ha.first hclosed]
            exact List.mem_singleton_self _
        exact (hquiet _ hpart).first ⟨a, x, by simp⟩
  have hbefore : Fresh j.start.text (upToSecond k a (body k ks) m) :=
    (fresh_start_iff j).2 (not_infix_upToSecond hne ha.second hother hm.second)
  cases hblocks : (blocks k.start.text k.stop.text
      (m ++ (j.start.text ++ (universalNewlines t ++ (j.stop.text ++ z))))).blocks with
  | nil =>
    rw [substitute_eq_self k.start.ne_nil hblocks] at hg
    have hsecond : result = upToSecond k a (body k ks) m ++
        (j.start.text ++ (universalNewlines t ++ (j.stop.text ++ z))) := by
      rw [hfirst, ← hg]
      simp [upToSecond]
    rw [hsecond] at hdeclj
    obtain ⟨hjs, hbodyj, hfreshj⟩ := declares_reread hj ht hbefore hdeclj
    rw [hbodyj] at hsecond hblocks
    rw [blocks_eq_nil_iff k.start.ne_nil k.stop.ne_nil] at hblocks
    refine ⟨hks, hjs, by rw [hsecond, two_eq], ⟨hne, ha.toQuiet, hm.toQuiet, hz.toQuiet,
      hz.firstStop, hstopk, hother, (fresh_stop_iff j).1 hfreshj, ?_⟩⟩
    intro x y hxy hin
    exact hblocks (m ++ (j.start.text ++ x)) (y ++ (j.stop.text ++ z)) (by rw [hxy]; simp)
      (hin.trans (List.prefix_append y _).isInfix)
  | cons p ps =>
    -- the list is written into the block of the second one
    obtain ⟨x₁, b₁⟩ := p
    obtain ⟨r₁, hrest, hx₁, hb₁, _⟩ := of_blocks_cons k.start.ne_nil hblocks
    obtain ⟨p₁, r, hp₁, rfl, _⟩ := occurs_second hne hm.first hz.first hrest
    have hfresh : Fresh k.start.text p₁ := by
      rw [fresh_start_iff] at hx₁ ⊢
      intro hin
      exact hx₁ (hin.trans ⟨m ++ j.start.text, [], by simp⟩)
    have hcut : cut k.start.text (universalNewlines t) = some (p₁, r) := by
      rw [hp₁, cut_append k.start.ne_nil hfresh]
    obtain ⟨v, hv⟩ := expand_newline hk (k.start.text ++ (b₁ ++ k.stop.text))
    rw [hrest, substitute_append k.start.ne_nil k.stop.ne_nil hx₁ hb₁, hexpand, hv] at hg
    obtain ⟨q, o, r', hsplit, hleaves, hline⟩ := leaves_of_cut hcut (v ++ (k.stop.text ++
      substitute k.start.text k.stop.text (PyTemplate.expand pk) r₁))
    have hshape : result = upToSecond k a (body k ks) m ++ (j.start.text ++ (q ++ '\n' :: r')) := by
      rw [hfirst, ← hg, ← hline]
      simp [upToSecond]
    rw [hshape] at hdeclj
    exact (declares_broken hj (ht.trans hsplit) hleaves hbefore hdeclj).elim

end

/-! ## Both lists -/

/-- Lists that can stand in one file, the block of `k` before the one of `j`. -/
structure Fitting (k j : SentinelName) (ks js : List Str) : Prop where
  first : ∀ s ∈ ks, Verbatim s ∧ ¬k.stop.text <:+: s
  second : ∀ s ∈ js, Verbatim s ∧ ¬j.stop.text <:+: s
  firstOther : ∀ s ∈ ks, ¬j.start.text <:+: s
  secondOther : ¬Reopens k js

section

variable {k j : SentinelName} {ks js : List Str} {pk pj : List PyTemplate.Piece}
  {a b c m z text : Str}

theorem not_infix_body {w : Str} (h : InItems w) (n : SentinelName) {items : List Str} :
    ¬w <:+: body n items ↔ ∀ s ∈ items, ¬w <:+: s := by
  rw [h.infix_body]
  simp

/-- **Two lists fit** when their blocks are found where they are. -/
theorem fitting_iff (h : Placed k j a b m c z) : Fitting k j ks js ↔
    (∀ s ∈ ks, Verbatim s) ∧ (∀ s ∈ js, Verbatim s) ∧
      Clean k j a (body k ks) m (body j js) z := by
  constructor
  · intro hfit
    refine ⟨fun s hs => (hfit.first s hs).1, fun s hs => (hfit.second s hs).1, ?_⟩
    exact {
      ne := h.ne
      before := h.before.toQuiet
      between := h.between.toQuiet
      after := h.after.toQuiet
      afterStop := h.after.firstStop
      first := (not_infix_body (inItems_stop k) k).2 fun s hs => (hfit.first s hs).2
      firstOther := (not_infix_body (inItems_start j) k).2 hfit.firstOther
      second := (not_infix_body (inItems_stop j) j).2 fun s hs => (hfit.second s hs).2
      secondOther := fun x y hxy hin => hfit.secondOther ((reopens_iff k).2 ⟨x, y, hxy, hin⟩) }
  · rintro ⟨hks, hjs, hclean⟩
    have hfirst := (not_infix_body (inItems_stop k) k).1 hclean.first
    have hsecond := (not_infix_body (inItems_stop j) j).1 hclean.second
    refine ⟨fun s hs => ⟨hks s hs, hfirst s hs⟩, fun s hs => ⟨hjs s hs, hsecond s hs⟩,
      (not_infix_body (inItems_start j) k).1 hclean.firstOther, fun hreopens => ?_⟩
    obtain ⟨x, y, hxy, hin⟩ := (reopens_iff k).1 hreopens
    exact hclean.secondOther x y hxy hin

/-- A file with both lists where they are found declares them. -/
theorem Clean.declares (h : Clean k j a (body k ks) m (body j js) z)
    (hks : ∀ s ∈ ks, Verbatim s) (hjs : ∀ s ∈ js, Verbatim s) :
    Declares k ks (two k j a (body k ks) m (body j js) z) ∧
      Declares j js (two k j a (body k ks) m (body j js) z) := by
  refine ⟨⟨?_, ?_⟩, ⟨?_, ?_⟩⟩
  · rw [h.blocks_first]
    simp
  · intro b hb
    rw [h.blocks_first] at hb
    rw [List.mem_singleton.1 hb, arrayIn_body hks]
  · rw [h.blocks_second]
    simp
  · intro b hb
    rw [h.blocks_second] at hb
    rw [List.mem_singleton.1 hb, arrayIn_body hjs]

theorem map_universalNewlines_eq_self {parts : List Str} :
    parts.map universalNewlines = parts ↔ ∀ part ∈ parts, '\r' ∉ part := by
  induction parts with
  | nil => simp
  | cons part parts ih =>
    rw [List.map_cons, List.cons.injEq, ih, universalNewlines_eq_self, List.forall_mem_cons]

/-- What a template writes, with the sentinels around it. -/
theorem expand_fitting {n : SentinelName} {items : List Str} {ps : List PyTemplate.Piece}
    (hps : PyTemplate.parse (replacement n items) = some ps) (h : ∀ s ∈ items, Verbatim s)
    (x : Str) : PyTemplate.expand ps x = n.start.text ++ (body n items ++ n.stop.text) := by
  obtain ⟨ps', hps', hexpand⟩ := expand_plain fun s hs => (h s hs).not_mem (by decide)
  rw [hps] at hps'
  cases hps'
  exact hexpand x

theorem cr_not_mem_body (n : SentinelName) {items : List Str} (h : ∀ s ∈ items, Verbatim s) :
    '\r' ∉ body n items := by
  have hheader : '\r' ∉ header n := by cases n <;> decide
  unfold body
  rw [List.mem_append, List.mem_append, not_or, not_or]
  refine ⟨hheader, ?_, by decide⟩
  intro hmem
  obtain ⟨s, hs, hmem⟩ := List.mem_flatMap.1 hmem
  rcases List.mem_append.1 hmem with hmem | hmem
  · exact absurd hmem (by decide)
  · rcases List.mem_append.1 hmem with hmem | hmem
    · exact (h s hs).not_mem (by decide) hmem
    · exact absurd hmem (by decide)

/-- The file with the lists is read as it is. -/
theorem universalNewlines_lists (hks : ∀ s ∈ ks, Verbatim s) (hjs : ∀ s ∈ js, Verbatim s)
    (a m z : Str) :
    universalNewlines (two k j a (body k ks) m (body j js) z) =
      two k j (universalNewlines a) (body k ks) (universalNewlines m) (body j js)
        (universalNewlines z) := by
  rw [universalNewlines_two, universalNewlines_eq_self.2 (cr_not_mem_body k hks),
    universalNewlines_eq_self.2 (cr_not_mem_body j hjs)]

theorem universalNewlines_again (s : Str) :
    universalNewlines (universalNewlines s) = universalNewlines s :=
  universalNewlines_eq_self.2 (cr_not_mem_universalNewlines s)

/-! ## The filter that is written -/

section

variable (hpk : PyTemplate.parse (replacement k ks) = some pk)
  (hpj : PyTemplate.parse (replacement j js) = some pj)

include hpk

/-- The first list written, whatever it is. -/
theorem injected_first (h : Placed k j a b m c z) : ∃ qk,
    PyTemplate.run .text (body k ks) = some (qk, .text) ∧
      injected k pk (two k j a b m c z) = two k j (universalNewlines a)
        (PyTemplate.expand qk (k.start.text ++ (universalNewlines b ++ k.stop.text)))
        (universalNewlines m) (universalNewlines c) (universalNewlines z) := by
  obtain ⟨qk, hrun, hexpand⟩ := expand_replacement hpk
  refine ⟨qk, hrun, ?_⟩
  unfold injected
  rw [universalNewlines_two, h.universalNewlines.clean.substitute_first, hexpand]
  simp [two]

omit hpk in
include hpj in
/-- The second list written, whatever it is. -/
theorem injected_second (h : Placed k j a b m c z) : ∃ qj,
    PyTemplate.run .text (body j js) = some (qj, .text) ∧
      injected j pj (two k j a b m c z) = two k j (universalNewlines a) (universalNewlines b)
        (universalNewlines m)
        (PyTemplate.expand qj (j.start.text ++ (universalNewlines c ++ j.stop.text)))
        (universalNewlines z) := by
  obtain ⟨qj, hrun, hexpand⟩ := expand_replacement hpj
  refine ⟨qj, hrun, ?_⟩
  unfold injected
  rw [universalNewlines_two, h.universalNewlines.clean.substitute_second, hexpand]
  simp [two, upToSecond]

/-- The first list written again. -/
theorem injected_first_again (h : Clean k j a (body k ks) m (body j js) z)
    (hks : ∀ s ∈ ks, Verbatim s) (hjs : ∀ s ∈ js, Verbatim s)
    (hcr : ∀ part ∈ [a, m, z], '\r' ∉ part) :
    injected k pk (two k j a (body k ks) m (body j js) z) =
      two k j a (body k ks) m (body j js) z := by
  have hmap := map_universalNewlines_eq_self.2 hcr
  simp only [List.map_cons, List.map_nil, List.cons.injEq, and_true] at hmap
  obtain ⟨ha, hm, hz⟩ := hmap
  unfold injected
  rw [universalNewlines_lists hks hjs, ha, hm, hz, h.substitute_first, expand_fitting hpk hks]
  simp [two]

omit hpk in
include hpj in
/-- The second list written again. -/
theorem injected_second_again (h : Clean k j a (body k ks) m (body j js) z)
    (hks : ∀ s ∈ ks, Verbatim s) (hjs : ∀ s ∈ js, Verbatim s)
    (hcr : ∀ part ∈ [a, m, z], '\r' ∉ part) :
    injected j pj (two k j a (body k ks) m (body j js) z) =
      two k j a (body k ks) m (body j js) z := by
  have hmap := map_universalNewlines_eq_self.2 hcr
  simp only [List.map_cons, List.map_nil, List.cons.injEq, and_true] at hmap
  obtain ⟨ha, hm, hz⟩ := hmap
  unfold injected
  rw [universalNewlines_lists hks hjs, ha, hm, hz, h.substitute_second, expand_fitting hpj hjs]
  simp [two, upToSecond]

/-! ## One order and the other -/

include hpk hpj

omit hpj in
/-- The list of the first block written. -/
theorem injected_first_clean (h : Placed k j a b m c z) (hfit : Fitting k j ks js) :
    injected k pk (two k j a b m c z) = two k j (universalNewlines a) (body k ks)
        (universalNewlines m) (universalNewlines c) (universalNewlines z) ∧
      Clean k j (universalNewlines a) (body k ks) (universalNewlines m) (universalNewlines c)
        (universalNewlines z) := by
  obtain ⟨hks, _, hclean⟩ := (fitting_iff h.universalNewlines).1 hfit
  have hplaced := h.universalNewlines
  refine ⟨?_, { hclean with
    second := hplaced.second.secondStop
    secondOther := hplaced.clean.secondOther }⟩
  unfold injected
  rw [universalNewlines_two, hplaced.clean.substitute_first, expand_fitting hpk hks]
  simp [two]

omit hpk in
/-- The list of the second block written. -/
theorem injected_second_clean (h : Placed k j a b m c z) (hfit : Fitting k j ks js) :
    injected j pj (two k j a b m c z) = two k j (universalNewlines a) (universalNewlines b)
        (universalNewlines m) (body j js) (universalNewlines z) ∧
      Clean k j (universalNewlines a) (universalNewlines b) (universalNewlines m) (body j js)
        (universalNewlines z) := by
  obtain ⟨_, hjs, hclean⟩ := (fitting_iff h.universalNewlines).1 hfit
  have hplaced := h.universalNewlines
  refine ⟨?_, { hclean with
    first := hplaced.first.firstStop
    firstOther := hplaced.first.second }⟩
  unfold injected
  rw [universalNewlines_two, hplaced.clean.substitute_second, expand_fitting hpj hjs]
  simp [two, upToSecond]

/-- The lists written, the one in the first block first. -/
theorem injected_first_second (h : Placed k j a b m c z) (hfit : Fitting k j ks js) :
    injected j pj (injected k pk (two k j a b m c z)) = two k j (universalNewlines a)
      (body k ks) (universalNewlines m) (body j js) (universalNewlines z) := by
  obtain ⟨hks, hjs, _⟩ := (fitting_iff h.universalNewlines).1 hfit
  obtain ⟨hone, hclean⟩ := injected_first_clean hpk h hfit
  rw [hone]
  unfold injected
  rw [universalNewlines_two, universalNewlines_again, universalNewlines_again,
    universalNewlines_again, universalNewlines_again,
    universalNewlines_eq_self.2 (cr_not_mem_body k hks), hclean.substitute_second,
    expand_fitting hpj hjs]
  simp [two, upToSecond]

/-- The lists written, the one in the second block first. -/
theorem injected_second_first (h : Placed k j a b m c z) (hfit : Fitting k j ks js) :
    injected k pk (injected j pj (two k j a b m c z)) = two k j (universalNewlines a)
      (body k ks) (universalNewlines m) (body j js) (universalNewlines z) := by
  obtain ⟨hks, hjs, _⟩ := (fitting_iff h.universalNewlines).1 hfit
  obtain ⟨hone, hclean⟩ := injected_second_clean hpj h hfit
  rw [hone]
  unfold injected
  rw [universalNewlines_two, universalNewlines_again, universalNewlines_again,
    universalNewlines_again, universalNewlines_again,
    universalNewlines_eq_self.2 (cr_not_mem_body j hjs), hclean.substitute_first,
    expand_fitting hpk hks]
  simp [two]

/-- **The filter, the list of the first block written first**, declares both lists and is as it was
outside of them exactly when they fit. -/
theorem filter_first (h : Placed k j a b m c z)
    (htext : injected j pj (injected k pk (two k j a b m c z)) = text) :
    (Declares k ks text ∧ Declares j js text ∧
        outsideBoth k j text = outsideBoth k j (two k j a b m c z)) ↔
      Fitting k j ks js ∧ ∀ part ∈ outsideBoth k j (two k j a b m c z), '\r' ∉ part := by
  have hsource : outsideBoth k j (two k j a b m c z) = [a, m, z] := h.clean.outside_first
  rw [hsource, ← map_universalNewlines_eq_self]
  constructor
  · rintro ⟨hdeclk, hdeclj, houtside⟩
    have hquiet : ∀ part ∈ outsideBoth k j text, Quiet k j part := by
      rw [houtside]
      simp [h.before.toQuiet, h.between.toQuiet, h.after.toQuiet]
    obtain ⟨qk, hrunk, hone⟩ := injected_first hpk h
    obtain ⟨qj, hrunj, hexpandj⟩ := expand_replacement hpj
    rw [hone] at htext
    unfold injected at htext
    rw [universalNewlines_two, universalNewlines_again, universalNewlines_again,
      universalNewlines_again, universalNewlines_again] at htext
    have hplaced := h.universalNewlines
    obtain ⟨hks, hjs, hresult, hclean⟩ := first_clean hrunk hrunj hexpandj rfl h.ne hplaced.before
      hplaced.between hplaced.second hplaced.after htext hdeclk hdeclj hquiet
    refine ⟨(fitting_iff hplaced).2 ⟨hks, hjs, hclean⟩, ?_⟩
    rw [hresult, hclean.outside_first] at houtside
    exact houtside
  · rintro ⟨hfit, hcr⟩
    rw [injected_first_second hpk hpj h hfit] at htext
    obtain ⟨hks, hjs, hclean⟩ := (fitting_iff h.universalNewlines).1 hfit
    obtain ⟨hdeclk, hdeclj⟩ := hclean.declares hks hjs
    subst htext
    refine ⟨hdeclk, hdeclj, ?_⟩
    rw [hclean.outside_first]
    exact hcr

/-- **The filter, the list of the second block written first.** -/
theorem filter_second (h : Placed k j a b m c z)
    (htext : injected k pk (injected j pj (two k j a b m c z)) = text) :
    (Declares k ks text ∧ Declares j js text ∧
        outsideBoth j k text = outsideBoth j k (two k j a b m c z)) ↔
      Fitting k j ks js ∧ ∀ part ∈ outsideBoth j k (two k j a b m c z), '\r' ∉ part := by
  have hsource : outsideBoth j k (two k j a b m c z) = [a, m, z] := h.clean.outside_second
  rw [hsource, ← map_universalNewlines_eq_self]
  constructor
  · rintro ⟨hdeclk, hdeclj, houtside⟩
    have hquiet : ∀ part ∈ outsideBoth j k text, Quiet k j part := by
      rw [houtside]
      simp [h.before.toQuiet, h.between.toQuiet, h.after.toQuiet]
    obtain ⟨qj, hrunj, hone⟩ := injected_second hpj h
    obtain ⟨qk, hrunk, hexpandk⟩ := expand_replacement hpk
    rw [hone] at htext
    unfold injected at htext
    rw [universalNewlines_two, universalNewlines_again, universalNewlines_again,
      universalNewlines_again, universalNewlines_again] at htext
    have hplaced := h.universalNewlines
    obtain ⟨hks, hjs, hresult, hclean⟩ := second_clean hrunk hrunj hexpandk rfl h.ne hplaced.before
      hplaced.first hplaced.between hplaced.after htext hdeclk hdeclj hquiet
    refine ⟨(fitting_iff hplaced).2 ⟨hks, hjs, hclean⟩, ?_⟩
    rw [hresult, hclean.outside_second] at houtside
    exact houtside
  · rintro ⟨hfit, hcr⟩
    rw [injected_second_first hpk hpj h hfit] at htext
    obtain ⟨hks, hjs, hclean⟩ := (fitting_iff h.universalNewlines).1 hfit
    obtain ⟨hdeclk, hdeclj⟩ := hclean.declares hks hjs
    subst htext
    refine ⟨hdeclk, hdeclj, ?_⟩
    rw [hclean.outside_second]
    exact hcr

end

end

end DenBrowser.SiteLists
