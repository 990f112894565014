import DenBrowser.Browser.SiteLists

/-!
# What a block says

A string of a list goes through two readers, the one of replacement templates and the one of C++
string literals, and a list is in the file when the second has read what went into the first.

* `backslash_not_mem` — such a string has no backslash;
* `items_read` — the entries are read one after the other;
* `array_read` — a block that declares the list has its text.
-/

set_option autoImplicit false

namespace DenBrowser.SiteLists

open SiteConfig GeneratedBlock CTables Words

/-- The string can be written literally. -/
def Verbatim (s : Str) : Prop := ∀ c ∈ s, Plain c ∧ c ≠ Char.ofNat 0

instance (s : Str) : Decidable (Verbatim s) := by
  unfold Verbatim
  exact List.decidableBAll _ s

theorem Verbatim.plain {s : Str} (h : Verbatim s) : ∀ c ∈ s, Plain c := fun c hc => (h c hc).1

theorem Verbatim.not_mem {s : Str} (h : Verbatim s) {c : Char} (hc : ¬Plain c) : c ∉ s :=
  fun hmem => hc (h.plain c hmem)

/-! ## The first sentinel in a literal -/

section

variable (n : SentinelName)

theorem plain_start : ∀ c ∈ n.start.text, Plain c := by
  cases n <;> exact forall_mem_of_all (by decide)

theorem backslash_not_mem_start : '\\' ∉ n.start.text := fun h =>
  (plain_start n _ h).2.1 rfl

theorem dash_mem_start : '─' ∈ n.start.text := by cases n <;> decide

theorem cString_start (v : Str) : cString (n.start.text ++ v) = n.start.text ++ cString v := by
  apply List.takeWhile_append_of_pos
  cases n <;> exact forall_mem_of_all (by decide)

/-- A literal that the first sentinel stands in. -/
theorem spells_start {x y v : Str} (h : Spells (x ++ (n.start.text ++ y)) v) :
    ∃ v₁ v₂, v = v₁ ++ (n.start.text ++ v₂) ∧ Spells x v₁ := by
  have hhead : ∃ t, n.start.text = '/' :: t := ⟨n.start.text.tail, by cases n <;> rfl⟩
  obtain ⟨t, ht⟩ := hhead
  have h' : Spells (x ++ '/' :: (t ++ y)) v := by
    rw [ht] at h
    exact h
  obtain ⟨v₁, v₂, rfl, h₁, h₂⟩ := h'.split rfl
  have h₂' : Spells (n.start.text ++ y) v₂ := by
    rw [ht]
    exact h₂
  obtain ⟨_, v₃, rfl, _⟩ := h₂'.plain_append (backslash_not_mem_start n)
  exact ⟨v₁, v₃, rfl, h₁⟩

end

/-! ## One item -/

section

variable {n : SentinelName} {s rest m t v o : Str} {ps : List PyTemplate.Piece}
  {mode : PyTemplate.Mode}

/-- The end of an item's line, in any mode. -/
theorem run_quote (h : PyTemplate.run mode ('"' :: ',' :: '\n' :: rest) = some (ps, .text)) :
    ∃ e qs, e.count '\\' ≤ PyTemplate.pending mode ∧ (mode = .text → e = []) ∧
      PyTemplate.run .text rest = some (qs, .text) ∧
      ∀ m, PyTemplate.expand ps m = e ++ '"' :: ',' :: '\n' :: PyTemplate.expand qs m := by
  obtain ⟨p₁, m₁, ps₁, hquote, hcomma, rfl⟩ := PyTemplate.run_cons_some h
  obtain ⟨rfl, e, rfl, he⟩ := PyTemplate.step_quote hquote
  obtain ⟨p₂, m₂, ps₂, hstep, hnewline, rfl⟩ := PyTemplate.run_cons_some hcomma
  cases hstep
  obtain ⟨p₃, m₃, ps₃, hstep, hrest, rfl⟩ := PyTemplate.run_cons_some hnewline
  cases hstep
  refine ⟨e, ps₃, ?_, he, hrest, ?_⟩
  · have hcount := PyTemplate.step_countP (p := fun c => c == '\\') rfl hquote
    rw [PyTemplate.charsOf_chars, List.countP_append] at hcount
    have hcount' : e.count '\\' + 0 + 0 ≤ PyTemplate.pending mode + 0 := hcount
    omega
  · intro m
    rw [PyTemplate.expand_append, PyTemplate.expand_chars]
    simp [PyTemplate.expand]

/-- **A string with a backslash is not read back.**  Without the match in it, the template has not
more backslashes than the string, and the literal half as many.  With the match in it, the string
would have the first sentinel where the literal has it, which is too early. -/
theorem backslash_not_mem
    (hrun : PyTemplate.run .text (s ++ '"' :: ',' :: '\n' :: rest) = some (ps, .text))
    (hexpand : PyTemplate.expand ps (n.start.text ++ m) = t ++ '"' :: o) (hspells : Spells t v)
    (hs : cString v = s) : '\\' ∉ s := by
  intro hmem
  have hpos : 0 < s.count '\\' := List.count_pos_iff.2 hmem
  have hread : s.count '\\' ≤ v.count '\\' := by
    rw [← hs]
    exact (List.takeWhile_sublist _).count_le _
  have hhalf := hspells.count_backslash
  obtain ⟨qs, m₁, rs, hq, hr, rfl⟩ := PyTemplate.run_append_some hrun
  rw [PyTemplate.expand_append] at hexpand
  by_cases hw : .whole ∈ qs
  · obtain ⟨u, w, qu, ru, hsu, hu, hno, rfl⟩ := PyTemplate.run_first_whole hq hw
    rw [PyTemplate.expand_append, PyTemplate.expand_eq_charsOf hno] at hexpand
    have hslash : (PyTemplate.charsOf qu).count '\\' + 1 ≤ u.count '\\' := by
      have hcount := PyTemplate.run_count hu
      simpa [PyTemplate.pending] using hcount
    have hlength : (PyTemplate.charsOf qu).length + 1 ≤ u.length := by
      have hlen := PyTemplate.run_length hu
      simpa [PyTemplate.pending] using hlen
    have hdash : u.count '─' ≤ (PyTemplate.charsOf qu).count '─' :=
      PyTemplate.run_keeps (by decide) hu
    have hu_le : u.count '\\' ≤ s.count '\\' := by
      rw [hsu]
      exact (List.sublist_append_left u _).count_le _
    generalize PyTemplate.charsOf qu = q at hexpand hslash hlength hdash
    obtain ⟨x, hx⟩ : ∃ x, q ++ (n.start.text ++ x) = t ++ '"' :: o :=
      ⟨m ++ (PyTemplate.expand ru (n.start.text ++ m) ++
        PyTemplate.expand rs (n.start.text ++ m)), by
          rw [← hexpand]
          simp [PyTemplate.expand]⟩
    rcases List.append_eq_append_iff.1 hx with ⟨t₂, ht, hrest⟩ | ⟨a, ha, _⟩
    · -- the literal goes on with the sentinel
      have hquote : '"' ∉ n.start.text := fun h => (plain_start n _ h).1 rfl
      obtain ⟨t₃, rfl⟩ := prefix_of_not_mem hquote hrest
      rw [ht] at hspells
      obtain ⟨v₁, v₂, rfl, h₁⟩ := spells_start n hspells
      have hv₁ := h₁.count_backslash
      have hlen₁ := h₁.length_le
      have hdash₁ := h₁.count_le (x := '─') (by decide)
      by_cases hnul : Char.ofNat 0 ∈ v₁
      · have hshort : (cString (v₁ ++ (n.start.text ++ v₂))).length ≤ v₁.length := by
          unfold cString
          rw [List.takeWhile_append, if_neg]
          · exact (List.takeWhile_sublist _).length_le
          · intro hall
            have hself := (List.takeWhile_sublist
              (fun c => c != Char.ofNat 0) (l := v₁)).eq_of_length hall
            exact cString_eq_self.1 hself hnul
        rw [hs, hsu, List.length_append] at hshort
        omega
      · have hself : cString (v₁ ++ (n.start.text ++ v₂)) =
            v₁ ++ (n.start.text ++ cString v₂) := by
          rw [← cString_start]
          apply List.takeWhile_append_of_pos
          intro c hc
          rw [bne_iff_ne]
          rintro rfl
          exact hnul hc
        rw [hself, ← List.append_assoc] at hs
        rcases List.append_eq_append_iff.1 (hs.trans hsu) with ⟨a, hua, _⟩ | ⟨a, hva, _⟩
        · have hcount := congrArg (List.count '─') hua
          have hstart := List.count_pos_iff.2 (dash_mem_start n)
          rw [List.count_append, List.count_append] at hcount
          omega
        · have hcount := congrArg (List.count '\\') hva
          have hstart := List.count_eq_zero.2 (backslash_not_mem_start n)
          rw [List.count_append, List.count_append] at hcount
          omega
    · have hle : t.count '\\' ≤ q.count '\\' := by
        rw [ha]
        exact (List.sublist_append_left t a).count_le _
      omega
  · obtain ⟨e, qs', he, _, _, hquote⟩ := run_quote hr
    rw [PyTemplate.expand_eq_charsOf hw, hquote] at hexpand
    have hslash := PyTemplate.run_count hq
    have hassoc : (t ++ ['"']) ++ o = (PyTemplate.charsOf qs ++ (e ++ ['"', ','])) ++
        '\n' :: PyTemplate.expand qs' (n.start.text ++ m) := by
      simpa using hexpand.symm
    have hline : '\n' ∉ t ++ ['"'] := by
      rw [List.mem_append, not_or]
      exact ⟨hspells.newline_not_mem, by decide⟩
    obtain ⟨a, ha⟩ := prefix_of_not_mem hline hassoc
    have hcount := congrArg (List.count '\\') ha
    have hend : ['"', ','].count '\\' = 0 := rfl
    simp only [List.count_append] at hcount
    have hzero : PyTemplate.pending .text = 0 := rfl
    omega

/-- **An item is read back** only when it can be written literally. -/
theorem item_read
    (hrun : PyTemplate.run .text (s ++ '"' :: ',' :: '\n' :: rest) = some (ps, .text))
    (hexpand : PyTemplate.expand ps (n.start.text ++ m) = t ++ '"' :: o) (hspells : Spells t v)
    (hs : cString v = s) :
    Verbatim s ∧ t = s ∧ v = s ∧ ∃ qs, PyTemplate.run .text rest = some (qs, .text) ∧
      o = ',' :: '\n' :: PyTemplate.expand qs (n.start.text ++ m) := by
  have hslash := backslash_not_mem hrun hexpand hspells hs
  obtain ⟨ss, m₁, rs, hq, hr, rfl⟩ := PyTemplate.run_append_some hrun
  rw [PyTemplate.run_plain hslash] at hq
  cases hq
  obtain ⟨e, qs, _, he, hqs, hquote⟩ := run_quote hr
  rw [he rfl] at hquote
  rw [PyTemplate.expand_append, PyTemplate.expand_chars, hquote, List.nil_append] at hexpand
  have hts : t = s := by
    rcases List.append_eq_append_iff.1 hexpand with ⟨a, ht, hrest⟩ | ⟨a, hst, _⟩
    · cases a with
      | nil => rw [ht, List.append_nil]
      | cons c a =>
        obtain ⟨rfl, _⟩ := List.cons.inj hrest
        rw [ht] at hspells
        obtain ⟨_, v', _, hv'⟩ := hspells.plain_append hslash
        cases hv' with
        | plain hc _ => exact absurd rfl hc.1
    · have ht : '\\' ∉ t := fun h => hslash (by rw [hst]; exact List.mem_append_left a h)
      obtain ⟨rfl, _⟩ := hspells.eq_self ht
      have hlen : (cString v).length ≤ v.length := (List.takeWhile_sublist _).length_le
      rw [hs, hst, List.length_append] at hlen
      have hnil : a = [] := List.length_eq_zero_iff.1 (by omega)
      rw [hst, hnil, List.append_nil]
  subst hts
  obtain ⟨rfl, hplain⟩ := hspells.eq_self hslash
  have hnul := cString_eq_self.1 hs
  refine ⟨fun c hc => ⟨hplain c hc, ?_⟩, rfl, rfl, qs, hqs, ?_⟩
  · rintro rfl
    exact hnul hc
  · rw [List.append_cancel_left_eq] at hexpand
    exact (List.cons.inj hexpand).2.symm

end

/-- A word that only an item can have. -/
structure InItems (w : Str) : Prop where
  quote : '"' ∉ w
  newline : '\n' ∉ w
  dash : '─' ∈ w

theorem inItems_start (n : SentinelName) : InItems n.start.text := by
  cases n <;> exact ⟨by decide, by decide, by decide⟩

theorem inItems_stop (n : SentinelName) : InItems n.stop.text := by
  cases n <;> exact ⟨by decide, by decide, by decide⟩

/-! ## The items -/

/-- What a text goes on with where it leaves the template: nothing, or a new line, right after a
sentinel or in the place of a carriage return. -/
def Leaves (p o r : Str) : Prop :=
  r = [] ∨ (∃ r', r = '\n' :: r') ∧ (p.getLast? = some '─' ∨ o.head? = some '\r')

theorem Leaves.split {p o r a b : Str} (h : Leaves p o r) (ha : '\n' ∉ a)
    (heq : a ++ b = p ++ r) : ∃ p', p = a ++ p' ∧ b = p' ++ r := by
  rcases h with rfl | ⟨⟨r', rfl⟩, _⟩
  · rw [List.append_nil] at heq
    exact ⟨b, heq.symm, (List.append_nil b).symm⟩
  · obtain ⟨p', rfl⟩ := prefix_of_not_mem ha heq
    rw [List.append_assoc, List.append_cancel_left_eq] at heq
    exact ⟨p', rfl, heq⟩

/-- A part that ends otherwise is not where the text leaves the template. -/
theorem Leaves.rest {p o r a : Str} (h : Leaves (a ++ p) o r) (ha : a.getLast? ≠ some '─') :
    Leaves p o r := by
  rcases h with rfl | ⟨hr, hlast | hcr⟩
  · exact Or.inl rfl
  · cases hp : p with
    | nil =>
      rw [hp, List.append_nil] at hlast
      exact absurd hlast ha
    | cons c p =>
      rw [hp, List.getLast?_append_of_ne_nil _ (List.cons_ne_nil c p)] at hlast
      exact Or.inr ⟨hr, Or.inl hlast⟩
  · exact Or.inr ⟨hr, Or.inr hcr⟩

/-- A part without a dash or a carriage return. -/
def Inner (a : Str) : Prop := '─' ∉ a ∧ '\r' ∉ a

instance (a : Str) : Decidable (Inner a) := by
  unfold Inner
  infer_instance

theorem Leaves.eq_nil {p o r : Str} (h : Leaves p o r) (hin : Inner (p ++ o)) : r = [] := by
  rcases h with rfl | ⟨_, hlast | hcr⟩
  · rfl
  · exact absurd (List.mem_append_left o (List.mem_of_getLast? hlast)) hin.1
  · exact absurd (List.mem_append_right p (List.mem_of_head? hcr)) hin.2

/-- A part that the text has in common with the template, when it is read to its end. -/
theorem Leaves.covers {p r a b o : Str} (h : Leaves p o r) (ha : Inner a)
    (heq : a ++ b = p ++ o) (hread : ∀ q ∈ a.inits, q ≠ a → p = q → r ≠ []) :
    ∃ p', p = a ++ p' := by
  rcases List.append_eq_append_iff.1 heq with ⟨p', hp, _⟩ | ⟨a', hpa, ho⟩
  · exact ⟨p', hp⟩
  · cases a' with
    | nil => exact ⟨[], by rw [hpa]; simp⟩
    | cons c a' =>
      have hmem : p ∈ a.inits := (List.mem_inits p a).2 ⟨_, hpa.symm⟩
      have hne : p ≠ a := by
        intro h
        rw [h] at hpa
        simpa using congrArg List.length hpa
      have hnil : r = [] := by
        rcases h with hr | ⟨hr, hlast | hcr⟩
        · exact hr
        · exact absurd (hpa ▸ List.mem_append_left _ (List.mem_of_getLast? hlast)) ha.1
        · rw [ho] at hcr
          cases hcr
          exact absurd (hpa ▸ List.mem_append_right p List.mem_cons_self) ha.2
      exact absurd hnil (hread p hmem hne rfl)

/-- The tokens after the entries. -/
def endTokens : List Token := [word "nullptr", .punct '}', .punct ';']

def itemTokens (items : List Str) : List Token := items.flatMap fun s => [.literal s, .punct ',']

/-- **The entries are read one after the other.** -/
theorem items_read {n : SentinelName} {m r o : Str} : ∀ {items lits : List Str} {p : Str}
    {ps : List PyTemplate.Piece},
    PyTemplate.run .text (entries items ++ footer) = some (ps, .text) →
    PyTemplate.expand ps (n.start.text ++ m) = p ++ o →
    lex .code (p ++ r) = some (itemTokens lits ++ endTokens) → Leaves p o r →
    lits.map cString = items →
    (∀ s ∈ items, Verbatim s) ∧ lits = items ∧ ∃ p', p = entries items ++ p' ∧ p' ++ o = footer ∧
      lex .code (p' ++ r) = some endTokens ∧ Leaves p' o r := by
  intro items
  induction items with
  | nil =>
    intro lits p ps hrun hexpand hlex hleaves hlits
    rw [List.map_eq_nil_iff] at hlits
    subst hlits
    have hplain : PyTemplate.run .text (entries [] ++ footer) =
        some (PyTemplate.chars footer, .text) := PyTemplate.run_plain (by decide)
    rw [hplain] at hrun
    cases hrun
    rw [PyTemplate.expand_chars] at hexpand
    exact ⟨by simp, rfl, p, rfl, hexpand.symm, hlex, hleaves⟩
  | cons s items ih =>
    intro lits p ps hrun hexpand hlex hleaves hlits
    obtain ⟨lit, lits, rfl, hlit, hmore⟩ := List.map_eq_cons_iff.1 hlits
    have hshape : entries (s :: items) ++ footer =
        "  \"".toList ++ (s ++ '"' :: ',' :: '\n' :: (entries items ++ footer)) := by
      simp [entries]
    rw [hshape] at hrun
    obtain ⟨qs, mode, rs, hquote, hitem, rfl⟩ := PyTemplate.run_append_some hrun
    rw [PyTemplate.run_plain (by decide)] at hquote
    cases hquote
    rw [PyTemplate.expand_append, PyTemplate.expand_chars] at hexpand
    have hopen : ∀ q ∈ "  \"".toList.inits, q ≠ "  \"".toList → lex .code q = some [] := by
      decide
    obtain ⟨p₁, rfl⟩ := hleaves.covers (by decide) hexpand fun q hq hne hp hr => by
      rw [hp, hr, List.append_nil, hopen q hq hne] at hlex
      cases hlex
    rw [List.append_assoc, List.append_cancel_left_eq] at hexpand
    have hcode : run .code "  \"".toList = some ([], .literal []) := by decide
    rw [List.append_assoc, lex_silent hcode] at hlex
    have hleaves₁ := hleaves.rest (by decide)
    obtain ⟨t, v, b, ts, hb, hspells, hts, hrest⟩ := of_lex_literal hlex
    have hline : '\n' ∉ t ++ ['"'] := by
      rw [List.mem_append, not_or]
      exact ⟨hspells.newline_not_mem, by decide⟩
    obtain ⟨p₂, rfl, rfl⟩ := hleaves₁.split (b := b) hline (by rw [hb]; simp)
    rw [List.append_assoc, List.append_assoc, List.singleton_append] at hexpand
    have htokens : itemTokens (lit :: lits) ++ endTokens =
        .literal lit :: .punct ',' :: (itemTokens lits ++ endTokens) := by
      simp [itemTokens]
    rw [htokens] at hts
    obtain ⟨hv, rfl⟩ := List.cons.inj hts
    rw [List.nil_append, Token.literal.injEq] at hv
    subst hv
    obtain ⟨hs, rfl, hlit', qs, hqs, hnext⟩ := item_read hitem hexpand hspells hlit
    subst hlit'
    have hleaves₂ : Leaves p₂ o r := hleaves₁.rest (by simp)
    have hcomma : ∀ q ∈ [',', '\n'].inits, q ≠ [',', '\n'] → lex .code q = some [] ∨
        lex .code q = some [.punct ','] := by decide
    have hends : itemTokens lits ++ endTokens ≠ [] := by simp [endTokens]
    obtain ⟨p₃, rfl⟩ := hleaves₂.covers (a := [',', '\n']) (by decide) hnext.symm
      fun q hq hne hp hr => by
        rw [hp, hr, List.append_nil] at hrest
        rcases hcomma q hq hne with h | h
        · rw [h] at hrest
          cases hrest
        · rw [h] at hrest
          exact hends (List.cons.inj (Option.some.inj hrest)).2.symm
    have hcode' : run .code [',', '\n'] = some ([.punct ','], .code) := by decide
    rw [List.append_assoc, lex_append hcode'] at hrest
    obtain ⟨ts', hts', hcons⟩ := Option.map_eq_some_iff.1 hrest
    have htail : ts' = itemTokens lits ++ endTokens := (List.cons.inj hcons).2
    rw [htail] at hts'
    have hnext' : PyTemplate.expand qs (n.start.text ++ m) = p₃ ++ o :=
      (List.cons.inj (List.cons.inj hnext).2).2.symm
    obtain ⟨hall, rfl, p', rfl, hfooter, hlexEnd, hleavesEnd⟩ :=
      ih hqs hnext' hts' (hleaves₂.rest (by decide)) hmore
    refine ⟨List.forall_mem_cons.2 ⟨hs, hall⟩, rfl, p', ?_, hfooter, hlexEnd, hleavesEnd⟩
    simp [entries]

/-! ## The block -/

/-- The tokens before the entries. -/
def headerTokens (n : SentinelName) : List Token :=
  [word "static", word "const", word "char", .punct '*', word "const", .word (VAR_NAMES n)] ++
    boundsTokens none

theorem run_header (n : SentinelName) :
    run .comment (header n) = some (headerTokens n, .code) := by
  cases n <;> decide +kernel

theorem stringsTokens_eq (n : SentinelName) (items : List Str) :
    stringsTokens (VAR_NAMES n) items = headerTokens n ++ (itemTokens items ++ endTokens) := by
  simp [stringsTokens, headerTokens, itemTokens, endTokens]

/-- **A block that declares the list** has its text, up to the last newline, and all strings of the
list can be written literally. -/
theorem array_read {n : SentinelName} {items : List Str} {ps : List PyTemplate.Piece}
    {m p r o : Str} (hrun : PyTemplate.run .text (body n items) = some (ps, .text))
    (hexpand : PyTemplate.expand ps (n.start.text ++ m) = p ++ o) (hleaves : Leaves p o r)
    (harray : arrayIn n (p ++ r) = some (items.map some ++ [none])) :
    (∀ s ∈ items, Verbatim s) ∧ r = [] ∧ p ++ o = body n items ∧ (o = [] ∨ o = ['\n']) := by
  unfold arrayIn at harray
  split at harray
  · rename_i name its hdecls
    split at harray
    · rename_i hname
      subst hname
      obtain ⟨lits, rfl, hlex⟩ := of_declarations_strings hdecls
      have hlits : lits.map cString = items := by
        have hmaps : (lits.map cString).map some ++ [none] = items.map some ++ [none] := by
          have heq := Option.some.inj harray
          simpa [Function.comp_def] using heq
        have hsome := List.append_cancel_right hmaps
        exact List.map_injective_iff.2 (Option.some_injective _) hsome
      unfold body at hrun
      obtain ⟨qs, mode, rs, hheader, hrest, rfl⟩ := PyTemplate.run_append_some hrun
      have hslash : '\\' ∉ header n := by cases n <;> decide
      rw [PyTemplate.run_plain hslash] at hheader
      cases hheader
      rw [PyTemplate.expand_append, PyTemplate.expand_chars] at hexpand
      have hinner : Inner (header n) := by cases n <;> decide
      have hshort : ∀ q ∈ (header n).inits, q ≠ header n →
          (lex .comment q).all (fun ts => !ts.contains (.punct ';')) = true := by
        cases n <;> decide +kernel
      obtain ⟨p₁, rfl⟩ := hleaves.covers hinner hexpand fun q hq hne hp hr => by
        have hno := hshort q hq hne
        rw [hp, hr, List.append_nil] at hlex
        rw [hlex, stringsTokens_eq] at hno
        simp [endTokens] at hno
      rw [List.append_assoc, List.append_cancel_left_eq] at hexpand
      rw [List.append_assoc, lex_append (run_header n), stringsTokens_eq] at hlex
      obtain ⟨ts, hts, heq⟩ := Option.map_eq_some_iff.1 hlex
      rw [List.append_cancel_left_eq] at heq
      subst heq
      have hlast : (header n).getLast? ≠ some '─' := fun h => hinner.1 (List.mem_of_getLast? h)
      obtain ⟨hall, _, p', rfl, hfooter, hend, hleavesEnd⟩ :=
        items_read hrest hexpand hts (hleaves.rest hlast) hlits
      have hr : r = [] := hleavesEnd.eq_nil (by rw [hfooter]; decide)
      subst hr
      have hwhole : ∀ q ∈ footer.inits, lex .code q = some endTokens →
          footer = q ++ [] ∨ footer = q ++ ['\n'] := by decide +kernel
      rw [List.append_nil] at hend
      refine ⟨hall, rfl, ?_, ?_⟩
      · rw [List.append_assoc, List.append_assoc, hfooter]
        rfl
      · have hmem : p' ∈ footer.inits := (List.mem_inits p' footer).2 ⟨o, hfooter⟩
        rcases hwhole p' hmem hend with h | h
        · exact Or.inl (List.append_cancel_left (hfooter.trans h))
        · exact Or.inr (List.append_cancel_left (hfooter.trans h))
    · cases harray
  · cases harray

theorem run_item {s : Str} (h : ∀ c ∈ s, Plain c) :
    run .code ("  \"".toList ++ (s ++ "\",\n".toList)) = some ([.literal s, .punct ','], .code) := by
  have hopen : run .code "  \"".toList = some ([], .literal []) := by decide
  have hclose : run (.literal s) "\",\n".toList = some ([.literal s, .punct ','], .code) := rfl
  exact run_trans hopen (run_trans (run_plain h) hclose)

theorem run_entries {items : List Str} (h : ∀ s ∈ items, Verbatim s) :
    run .code (entries items) = some (itemTokens items, .code) := by
  induction items with
  | nil => rfl
  | cons s items ih =>
    obtain ⟨hs, hitems⟩ := List.forall_mem_cons.1 h
    exact run_trans (run_item hs.plain) (ih hitems)

/-- **The text of a list** that can be written literally declares the list. -/
theorem arrayIn_body {n : SentinelName} {items : List Str} (h : ∀ s ∈ items, Verbatim s) :
    arrayIn n (body n items) = some (items.map some ++ [none]) := by
  have hfooter : run .code footer = some (endTokens, .code) := by decide +kernel
  have hrun := run_trans (run_header n) (run_trans (run_entries h) hfooter)
  have hlex : lex .comment (body n items) = some (stringsTokens (VAR_NAMES n) items) := by
    unfold lex body
    rw [hrun, stringsTokens_eq]
    simp [finish]
  have hparts : lex .comment (body n items) =
      some ([(Decl.strings (VAR_NAMES n) (items.map some ++ [none]),
        stringsTokens (VAR_NAMES n) items)].flatMap Prod.snd) := by
    simpa using hlex
  have hdecls : declarations (body n items) =
      some [.strings (VAR_NAMES n) (items.map some ++ [none])] := by
    refine declarations_eq hparts ?_
    intro p hp
    rw [List.mem_singleton.1 hp]
    exact ⟨by simp [stringsTokens], readDecl_strings _ _⟩
  have hself : ∀ s ∈ items, cString s = s := by
    intro s hs
    rw [cString_eq_self]
    intro hnul
    exact (h s hs _ hnul).2 rfl
  unfold arrayIn
  rw [hdecls]
  dsimp only
  rw [if_pos rfl]
  have hmap : items.map (fun s => some (cString s)) = items.map some :=
    List.map_congr_left fun s hs => congrArg some (hself s hs)
  simp [Function.comp_def, hmap]

/-! ## Blocks in a file -/

section

variable {n : SentinelName} {items : List Str} {ps : List PyTemplate.Piece} {m t z b z' : Str}

/-- **A block of the file that is written** declares the list only if it has the list's text. -/
theorem block_read (hrun : PyTemplate.run .text (body n items) = some (ps, .text))
    (hexpand : PyTemplate.expand ps (n.start.text ++ m) = t)
    (hcut : Sentinel.cut n.stop.text (t ++ (n.stop.text ++ z)) = some (b, z'))
    (harray : arrayIn n b = some (items.map some ++ [none])) :
    (∀ s ∈ items, Verbatim s) ∧ t = body n items ∧ b = body n items ∧ z' = z ∧
      Sentinel.Fresh n.stop.text (body n items) := by
  obtain ⟨e, rfl, _⟩ := Sentinel.cut_le hcut rfl
  obtain ⟨heq, hfresh⟩ := Sentinel.of_cut hcut
  rw [← List.append_nil b] at harray
  obtain ⟨hall, _, hbody, he⟩ := array_read hrun hexpand (Or.inl rfl) harray
  rw [List.append_assoc, List.append_cancel_left_eq] at heq
  rcases he with rfl | rfl
  · rw [List.append_nil] at hbody ⊢
    rw [List.nil_append, List.append_cancel_left_eq] at heq
    exact ⟨hall, hbody, hbody, heq.symm, hbody ▸ hfresh⟩
  · have hhead := n.stop.head?_append z'
    rw [← heq] at hhead
    exact absurd rfl hhead

/-- A block whose text leaves the template does not declare the list. -/
theorem broken_block {q o r : Str} (hrun : PyTemplate.run .text (body n items) = some (ps, .text))
    (hexpand : PyTemplate.expand ps (n.start.text ++ m) = q ++ o)
    (hleaves : q.getLast? = some '─' ∨ o.head? = some '\r')
    (hcut : Sentinel.cut n.stop.text (q ++ '\n' :: r) = some (b, z'))
    (harray : arrayIn n b = some (items.map some ++ [none])) : False := by
  obtain ⟨heq, _⟩ := Sentinel.of_cut hcut
  rcases occurs_cons (inItems_stop n).newline heq.symm with ⟨d, rfl, _⟩ | ⟨c, _, rfl⟩
  · -- the second sentinel is in the part before
    rw [← List.append_nil b] at harray
    rw [List.append_assoc, List.append_assoc] at hexpand
    obtain ⟨_, _, _, he⟩ := array_read hrun hexpand (Or.inl rfl) harray
    rcases he with he | he
    · exact n.stop.ne_nil (List.append_eq_nil_iff.1 he).1
    · have hhead := n.stop.head?_append (d ++ o)
      rw [he] at hhead
      exact hhead rfl
  · obtain ⟨_, hnil, _⟩ := array_read hrun hexpand (Or.inr ⟨⟨c, rfl⟩, hleaves⟩) harray
    cases hnil

end

/-! ## Lists with sentinels -/

namespace InItems

variable {w : Str} (h : InItems w)

include h

theorem avoids {t : Str} (ht : '─' ∉ t) : ¬w <:+: t := fun hin => ht (hin.subset h.dash)

/-- Where the word stands among the entries. -/
theorem occurs_entries {s : Str} {items : List Str} {c d : Str}
    (heq : entries (s :: items) ++ footer = c ++ (w ++ d)) :
    (∃ x y, s = x ++ (w ++ y) ∧ d = y ++ '"' :: ',' :: '\n' :: (entries items ++ footer)) ∨
      ∃ c', entries items ++ footer = c' ++ (w ++ d) := by
  have hshape : entries (s :: items) ++ footer =
      "  ".toList ++ '"' :: (s ++ '"' :: ',' :: '\n' :: (entries items ++ footer)) := by
    simp [entries]
  rw [hshape] at heq
  rcases occurs_cons h.quote heq.symm with ⟨d', hd', _⟩ | ⟨c', hc', _⟩
  · exact absurd ⟨c, d', by rw [hd', List.append_assoc]⟩ (h.avoids (t := "  ".toList) (by decide))
  · rcases occurs_cons h.quote hc'.symm with ⟨d', hs, hd⟩ | ⟨c'', hrest, _⟩
    · exact Or.inl ⟨c', d', hs, hd⟩
    · have hcomma : [','] ++ '\n' :: (entries items ++ footer) = c'' ++ (w ++ d) := hrest
      rcases occurs_cons h.newline hcomma.symm with ⟨d', hd', _⟩ | ⟨c₃, hc₃, _⟩
      · exact absurd ⟨c'', d', by rw [hd', List.append_assoc]⟩
          (h.avoids (t := [',']) (by decide))
      · exact Or.inr ⟨c₃, hc₃⟩

theorem occurs_header {n : SentinelName} {items : List Str} {c d : Str}
    (heq : body n items = c ++ (w ++ d)) : ∃ c', entries items ++ footer = c' ++ (w ++ d) := by
  obtain ⟨head, hhead, hdash⟩ : ∃ head, header n = head ++ ['\n'] ∧ '─' ∉ head :=
    ⟨(header n).dropLast, by cases n <;> rfl, by cases n <;> decide⟩
  unfold body at heq
  rw [hhead, List.append_assoc, List.singleton_append] at heq
  rcases occurs_cons h.newline heq.symm with ⟨d', hd', _⟩ | ⟨c', hc', _⟩
  · exact absurd ⟨c, d', by rw [hd', List.append_assoc]⟩ (h.avoids hdash)
  · exact ⟨c', hc'⟩

theorem infix_entries {items : List Str} :
    w <:+: entries items ++ footer ↔ ∃ s ∈ items, w <:+: s := by
  induction items with
  | nil =>
    refine iff_of_false (h.avoids (by decide)) ?_
    rintro ⟨s, hs, _⟩
    cases hs
  | cons s items ih =>
    rw [List.exists_mem_cons_iff, ← ih]
    constructor
    · rintro ⟨c, d, heq⟩
      rw [List.append_assoc] at heq
      rcases h.occurs_entries heq.symm with ⟨x, y, rfl, _⟩ | ⟨c', hc'⟩
      · exact Or.inl ⟨x, y, by rw [List.append_assoc]⟩
      · exact Or.inr ⟨c', d, by rw [hc', List.append_assoc]⟩
    · have hs : s <:+: entries (s :: items) ++ footer :=
        ⟨"  \"".toList, "\",\n".toList ++ (entries items ++ footer), by simp [entries]⟩
      have hrest : entries items ++ footer <:+: entries (s :: items) ++ footer :=
        ⟨"  \"".toList ++ (s ++ "\",\n".toList), [], by simp [entries]⟩
      rintro (hin | hin)
      · exact hin.trans hs
      · exact hin.trans hrest

/-- **The word is in the text of a list** when it is in an item. -/
theorem infix_body {n : SentinelName} {items : List Str} :
    w <:+: body n items ↔ ∃ s ∈ items, w <:+: s := by
  rw [← h.infix_entries]
  constructor
  · rintro ⟨c, d, heq⟩
    rw [List.append_assoc] at heq
    obtain ⟨c', hc'⟩ := h.occurs_header heq.symm
    exact ⟨c', d, by rw [hc', List.append_assoc]⟩
  · intro hin
    exact hin.trans (List.suffix_append _ _).isInfix

end InItems

/-- An item has the first sentinel of a block, and the second comes after it, in the same item or
in a later one. -/
def Reopens (k : SentinelName) : List Str → Prop
  | [] => False
  | s :: items =>
    (∃ x y, s = x ++ (k.start.text ++ y) ∧
      (k.stop.text <:+: y ∨ ∃ t ∈ items, k.stop.text <:+: t)) ∨ Reopens k items

theorem reopens_iff_entries (k : SentinelName) {items : List Str} : Reopens k items ↔
    ∃ c d, entries items ++ footer = c ++ (k.start.text ++ d) ∧ k.stop.text <:+: d := by
  have hstart := inItems_start k
  have hstop := inItems_stop k
  induction items with
  | nil =>
    refine iff_of_false id ?_
    rintro ⟨c, d, heq, _⟩
    exact hstart.avoids (t := footer) (by decide) ⟨c, d, by rw [List.append_assoc]; exact heq.symm⟩
  | cons s items ih =>
    rw [Reopens]
    constructor
    · rintro (⟨x, y, rfl, hin⟩ | hlater)
      · refine ⟨"  \"".toList ++ x, y ++ '"' :: ',' :: '\n' :: (entries items ++ footer),
          by simp [entries], ?_⟩
        rcases hin with hin | hin
        · exact hin.trans (List.prefix_append y _).isInfix
        · refine (hstop.infix_entries.2 hin).trans ⟨y ++ ['"', ',', '\n'], [], ?_⟩
          simp
      · obtain ⟨c, d, heq, hin⟩ := ih.1 hlater
        exact ⟨"  \"".toList ++ (s ++ ("\",\n".toList ++ c)), d, by
            have hshape : entries (s :: items) ++ footer = "  \"".toList ++
                (s ++ ("\",\n".toList ++ (entries items ++ footer))) := by simp [entries]
            rw [hshape, heq]
            simp, hin⟩
    · rintro ⟨c, d, heq, hin⟩
      rcases hstart.occurs_entries heq with ⟨x, y, hs, rfl⟩ | ⟨c', hc'⟩
      · refine Or.inl ⟨x, y, hs, ?_⟩
        rcases infix_cons hstop.quote hin with hin | hin
        · exact Or.inl hin
        · have hin' : k.stop.text <:+: [','] ++ '\n' :: (entries items ++ footer) := hin
          rcases infix_cons hstop.newline hin' with hin | hin
          · exact absurd hin (hstop.avoids (by decide))
          · exact Or.inr (hstop.infix_entries.1 hin)
      · exact Or.inr (ih.2 ⟨c', d, hc', hin⟩)

/-- **A list opens a block again** when its text does. -/
theorem reopens_iff (k : SentinelName) {n : SentinelName} {items : List Str} : Reopens k items ↔
    ∃ c d, body n items = c ++ (k.start.text ++ d) ∧ k.stop.text <:+: d := by
  rw [reopens_iff_entries]
  constructor
  · rintro ⟨c, d, heq, hin⟩
    exact ⟨header n ++ c, d, by unfold body; rw [heq, List.append_assoc], hin⟩
  · rintro ⟨c, d, heq, hin⟩
    obtain ⟨c', hc'⟩ := (inItems_start k).occurs_header heq
    exact ⟨c', d, hc', hin⟩

theorem not_reopens {k : SentinelName} {items : List Str}
    (h : ∀ s ∈ items, ¬k.start.text <:+: s) : ¬Reopens k items := by
  rw [reopens_iff_entries]
  rintro ⟨c, d, heq, _⟩
  have hin : k.start.text <:+: entries items ++ footer := ⟨c, d, by rw [heq, List.append_assoc]⟩
  obtain ⟨s, hs, hin⟩ := (inItems_start k).infix_entries.1 hin
  exact h s hs hin

end DenBrowser.SiteLists
