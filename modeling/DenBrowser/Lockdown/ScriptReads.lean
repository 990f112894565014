import DenBrowser.Lockdown.CompilerReads

/-!
# What JavaScript makes of the file

The same file below its first line, scanned and parsed as a script.

* `scan_universalNewlines`, `skipFirstLine_universalNewlines` — the three spellings of a newline
  are one to AutoConfig, as they are to the compiler;
* `scan_item` — each piece leaves its tokens;
* `statements_tokens` — the parser takes the statements one by one;
* `script_of_cfgFile` — the script calls `lockPref` once for every statement below the first line.
-/

set_option autoImplicit false

namespace DenBrowser.Lockdown

/-! ## Newlines -/

/-- What a newline of either spelling does to the scanner. -/
def newlineStep : Mode → Str → Option (List Token)
  | .code w, t => (scan (.code []) t).map (flush w ++ ·)
  | .lineComment, t => scan (.code []) t
  | .blockComment, t => scan .blockComment t
  | .str _, _ => none

theorem scan_code_gap {c : Char} (h : isJsGap c = true) (w t : Str) :
    scan (.code w) (c :: t) = (scan (.code []) t).map (flush w ++ ·) := by
  rw [scan_code_cons, if_pos h]

theorem scan_newline {c : Char} (h : c = '\n' ∨ c = '\r') (m : Mode) (t : Str) :
    scan m (c :: t) = newlineStep m t := by
  have hgap : isJsGap c = true ∧ c ≠ '*' := by
    rcases h with rfl | rfl
    · decide
    · decide
  cases m with
  | code w => exact scan_code_gap hgap.1 w t
  | blockComment => exact (scan_blockComment_cons c t).trans (if_neg hgap.2)
  | lineComment =>
    rcases h with rfl | rfl
    · rfl
    · rfl
  | str cs =>
    rcases h with rfl | rfl
    · rfl
    · rfl

theorem map_flush_nil (o : Option (List Token)) : o.map (flush [] ++ ·) = o := by
  cases o <;> rfl

theorem scan_code_nil_gap {c : Char} (h : isJsGap c = true) (t : Str) :
    scan (.code []) (c :: t) = scan (.code []) t := by
  rw [scan_code_gap h, map_flush_nil]

theorem newlineStep_newline (m : Mode) (t : Str) : newlineStep m ('\n' :: t) = newlineStep m t := by
  have hcode : scan (.code []) ('\n' :: t) = scan (.code []) t := scan_code_nil_gap (by decide) t
  cases m with
  | code w => exact congrArg (Option.map _) hcode
  | lineComment => exact hcode
  | blockComment => exact (scan_blockComment_cons _ t).trans (if_neg (by decide))
  | str cs => rfl

/-- The head of the text after reading it, and what follows. -/
theorem universalNewlines_cases (t : Str) :
    t = [] ∨
      (∃ c s, t = c :: s ∧ c ≠ '\r' ∧ universalNewlines t = c :: universalNewlines s) ∨
      (∃ s, t = '\r' :: '\n' :: s ∧ universalNewlines t = '\n' :: universalNewlines s) ∨
      (∃ s, t = '\r' :: s ∧ universalNewlines t = '\n' :: universalNewlines s) := by
  cases t with
  | nil => exact Or.inl rfl
  | cons c s =>
    right
    by_cases hc : c = '\r'
    · subst hc
      right
      cases s with
      | nil => exact Or.inr ⟨[], rfl, rfl⟩
      | cons d u =>
        by_cases hd : d = '\n'
        · subst hd
          exact Or.inl ⟨u, rfl, rfl⟩
        · refine Or.inr ⟨d :: u, rfl, ?_⟩
          show (if d = '\n' then _ else _) = _
          rw [if_neg hd]
    · exact Or.inl ⟨c, s, rfl, hc, universalNewlines_cons hc s⟩

/-- **The scanner sees the same tokens** whichever way the lines end. -/
theorem scan_universalNewlines (t : Str) (m : Mode) :
    scan m (universalNewlines t) = scan m t := by
  rcases universalNewlines_cases t with rfl | ⟨c, s, rfl, hc, heq⟩ | ⟨s, rfl, heq⟩ | ⟨s, rfl, heq⟩
  · rfl
  · rw [heq]
    have ih : ∀ m, scan m (universalNewlines s) = scan m s := fun m => scan_universalNewlines s m
    cases m with
    | code w =>
      rw [scan_code_cons, scan_code_cons, ih, ih, ih]
      -- only `/` looks at the next character
      congr 4
      rcases universalNewlines_cases s with rfl | ⟨d, u, rfl, hd, hs⟩ | ⟨u, rfl, hs⟩ | ⟨u, rfl, hs⟩
      · rfl
      · rw [hs]
        show (if d = '/' then _ else _) = (if d = '/' then _ else _)
        rw [scan_universalNewlines u, scan_universalNewlines u]
      · rw [hs]
        rfl
      · rw [hs]
        rfl
    | lineComment =>
      rw [scan_lineComment_cons, scan_lineComment_cons, ih, ih]
    | blockComment =>
      rw [scan_blockComment_cons, scan_blockComment_cons, ih]
      congr 1
      rcases universalNewlines_cases s with rfl | ⟨d, u, rfl, hd, hs⟩ | ⟨u, rfl, hs⟩ | ⟨u, rfl, hs⟩
      · rfl
      · rw [hs]
        show (if d = '/' then _ else _) = (if d = '/' then _ else _)
        rw [scan_universalNewlines u, ← hs, ih]
      · have hstep := ih .blockComment
        rw [hs] at hstep ⊢
        exact hstep
      · have hstep := ih .blockComment
        rw [hs] at hstep ⊢
        exact hstep
    | str cs => rw [scan_str_cons, scan_str_cons, ih, ih]
  · rw [heq, scan_newline (Or.inl rfl), scan_newline (Or.inr rfl), newlineStep_newline]
    cases m with
    | code w => exact congrArg (Option.map _) (scan_universalNewlines s _)
    | lineComment => exact scan_universalNewlines s _
    | blockComment => exact scan_universalNewlines s _
    | str cs => rfl
  · rw [heq, scan_newline (Or.inl rfl), scan_newline (Or.inr rfl)]
    cases m with
    | code w => exact congrArg (Option.map _) (scan_universalNewlines s _)
    | lineComment => exact scan_universalNewlines s _
    | blockComment => exact scan_universalNewlines s _
    | str cs => rfl
termination_by t.length
decreasing_by all_goals subst_vars; simp only [List.length_cons]; omega

/-- Skipping the first line and reading in text mode may be exchanged. -/
theorem skipFirstLine_universalNewlines (t : Str) :
    universalNewlines (skipFirstLine t) = skipFirstLine (universalNewlines t) := by
  induction t with
  | nil => rfl
  | cons c s ih =>
    by_cases hn : c = '\n'
    · subst hn
      rw [universalNewlines_cons (by decide)]
      rfl
    · by_cases hr : c = '\r'
      · subst hr
        cases s with
        | nil => rfl
        | cons d u =>
          by_cases hd : d = '\n'
          · subst hd
            rfl
          · have hskip : skipFirstLine ('\r' :: d :: u) = d :: u := by
              show (if d = '\n' then _ else _) = _
              rw [if_neg hd]
            have hread : universalNewlines ('\r' :: d :: u) =
                '\n' :: universalNewlines (d :: u) := by
              rw [universalNewlines.eq_def]
              show (if d = '\n' then _ else _) = _
              rw [if_neg hd]
            rw [hskip, hread]
            rfl
      · have hskip : ∀ u, skipFirstLine (c :: u) = skipFirstLine u := by
          intro u
          rw [skipFirstLine.eq_def]
          show (if c = '\n' then _ else if c = '\r' then _ else _) = _
          rw [if_neg hn, if_neg hr]
        rw [hskip, universalNewlines_cons hr, hskip, ih]

theorem no_return_universalNewlines (t : Str) : '\r' ∉ universalNewlines t := by
  rcases universalNewlines_cases t with rfl | ⟨c, s, rfl, hc, heq⟩ | ⟨s, rfl, heq⟩ | ⟨s, rfl, heq⟩
  · exact List.not_mem_nil
  · rw [heq]
    exact List.not_mem_cons_of_ne_of_not_mem (Ne.symm hc) (no_return_universalNewlines s)
  · rw [heq]
    exact List.not_mem_cons_of_ne_of_not_mem (by decide) (no_return_universalNewlines s)
  · rw [heq]
    exact List.not_mem_cons_of_ne_of_not_mem (by decide) (no_return_universalNewlines s)
termination_by t.length
decreasing_by all_goals subst_vars; simp only [List.length_cons]; omega

theorem skipFirstLine_line {l : Str} (hn : '\n' ∉ l) (hr : '\r' ∉ l) (t : Str) :
    skipFirstLine (l ++ '\n' :: t) = t := by
  induction l with
  | nil => rfl
  | cons c l ih =>
    obtain ⟨hcn, htn⟩ := List.ne_and_not_mem_of_not_mem_cons hn
    obtain ⟨hcr, htr⟩ := List.ne_and_not_mem_of_not_mem_cons hr
    rw [List.cons_append, skipFirstLine.eq_def]
    show (if c = '\n' then _ else if c = '\r' then _ else _) = _
    rw [if_neg (Ne.symm hcn), if_neg (Ne.symm hcr), ih htn htr]

theorem skipFirstLine_only {l : Str} (hn : '\n' ∉ l) (hr : '\r' ∉ l) : skipFirstLine l = [] := by
  induction l with
  | nil => rfl
  | cons c l ih =>
    obtain ⟨hcn, htn⟩ := List.ne_and_not_mem_of_not_mem_cons hn
    obtain ⟨hcr, htr⟩ := List.ne_and_not_mem_of_not_mem_cons hr
    rw [skipFirstLine.eq_def]
    show (if c = '\n' then _ else if c = '\r' then _ else _) = _
    rw [if_neg (Ne.symm hcn), if_neg (Ne.symm hcr), ih htn htr]

/-! ## Tokens -/

def Literal.tokens : Literal → List Token
  | .int true digits => [.minus, .word digits.1]
  | .str s => [.str s.1]
  | l => [.word l.render]

def Statement.tokens (s : Statement) : List Token :=
  [.word lockPrefWord, .open, .str s.name.1, .comma] ++ s.literal.tokens ++ [.close, .semi]

def Item.tokens (it : Item) : List Token := it.statement.flatMap Statement.tokens

theorem scan_gap {gap : Str} (h : ∀ c ∈ gap, isJsGap c = true) (t : Str) :
    scan (.code []) (gap ++ t) = scan (.code []) t := by
  induction gap with
  | nil => rfl
  | cons c gap ih =>
    obtain ⟨hc, htail⟩ := List.forall_mem_cons.1 h
    rw [List.cons_append, scan_code_nil_gap hc, ih htail]

theorem scan_punctuator {c : Char} (tok : Token) (hc : punctuator c = some tok)
    (hplain : isJsGap c = false ∧ isWordChar c = false ∧ c ≠ '"' ∧ c ≠ '/') (w t : Str) :
    scan (.code w) (c :: t) = (scan (.code []) t).map fun ts => flush w ++ tok :: ts := by
  obtain ⟨hgap, hword, hquote, hslash⟩ := hplain
  rw [scan_code_cons, hgap, hword, if_neg hquote, if_neg hslash, hc]
  rfl

/-- A punctuator ends the word before it, with or without a gap. -/
theorem scan_gap_punctuator (gap : Gap) {c : Char} (tok : Token)
    (hc : punctuator c = some tok)
    (hplain : isJsGap c = false ∧ isWordChar c = false ∧ c ≠ '"' ∧ c ≠ '/') (w t : Str) :
    scan (.code w) (gap.1 ++ c :: t) = (scan (.code []) t).map fun ts => flush w ++ tok :: ts := by
  have h : ∀ d ∈ gap.1, isJsGap d = true := fun _ hd => Gap.jsGap hd
  cases hgap : gap.1 with
  | nil => exact scan_punctuator tok hc hplain w t
  | cons d ds =>
    rw [hgap] at h
    obtain ⟨hd, htail⟩ := List.forall_mem_cons.1 h
    rw [List.cons_append, scan_code_gap hd, scan_gap htail, scan_punctuator tok hc hplain,
      Option.map_map]
    rfl

theorem scan_word {cs : Str} (h : ∀ c ∈ cs, isWordChar c = true ∧ isJsGap c = false) (w t : Str) :
    scan (.code w) (cs ++ t) = scan (.code (w ++ cs)) t := by
  induction cs generalizing w with
  | nil => rw [List.append_nil, List.nil_append]
  | cons c cs ih =>
    obtain ⟨⟨hword, hgap⟩, htail⟩ := List.forall_mem_cons.1 h
    rw [List.cons_append, scan_code_cons, hgap, if_neg Bool.false_ne_true, if_pos hword, ih htail,
      List.append_assoc, List.singleton_append]

theorem scan_quoted {cs : Str} (h : ∀ c ∈ cs, isPlain c = true) (acc t : Str) :
    scan (.str acc) (cs ++ '"' :: t) = (scan (.code []) t).map (.str (acc ++ cs) :: ·) := by
  induction cs generalizing acc with
  | nil =>
    rw [List.nil_append, scan_str_cons, if_pos rfl, List.append_nil]
  | cons c cs ih =>
    obtain ⟨hc, htail⟩ := List.forall_mem_cons.1 h
    simp only [isPlain, Bool.and_eq_true, bne_iff_ne] at hc
    obtain ⟨⟨⟨hquote, hback⟩, hn⟩, hr⟩ := hc
    have hno : ¬ (c = '\\' ∨ c = '\n' ∨ c = '\r') := by
      rintro (h | h | h)
      · exact hback h
      · exact hn h
      · exact hr h
    rw [List.cons_append, scan_str_cons, if_neg hquote, if_neg hno, ih htail, List.append_assoc,
      List.singleton_append]

theorem scan_string {cs : Str} (h : ∀ c ∈ cs, isPlain c = true) (t : Str) :
    scan (.code []) ('"' :: (cs ++ '"' :: t)) = (scan (.code []) t).map (.str cs :: ·) := by
  rw [scan_code_cons, if_neg (by decide), if_neg (by decide), if_pos rfl, map_flush_nil,
    scan_quoted h]
  rfl

/-- The rest of the file after a piece. -/
def EndsLine (rest : Str) : Prop := rest = [] ∨ ∃ r, rest = '\n' :: r

theorem endsLine_below (items : List Item) : EndsLine (below items) := by
  cases items with
  | nil => exact Or.inl rfl
  | cons it items => exact Or.inr ⟨it.render ++ below items, rfl⟩

theorem scan_lineComment {text rest : Str} (h : ∀ c ∈ text, isLineTerminator c = false)
    (hrest : EndsLine rest) : scan .lineComment (text ++ rest) = scan (.code []) rest := by
  induction text with
  | nil =>
    rcases hrest with rfl | ⟨r, rfl⟩
    · rfl
    · rw [List.nil_append, scan_lineComment_cons, if_pos (by decide), scan_code_nil_gap (by decide)]
  | cons c text ih =>
    obtain ⟨hc, htail⟩ := List.forall_mem_cons.1 h
    rw [List.cons_append, scan_lineComment_cons, hc, if_neg Bool.false_ne_true, ih htail]

theorem scan_slashes {text rest : Str} (h : ∀ c ∈ text, isLineTerminator c = false)
    (hrest : EndsLine rest) :
    scan (.code []) ('/' :: '/' :: (text ++ rest)) = scan (.code []) rest := by
  rw [scan_code_cons, if_neg (by decide), if_neg (by decide), if_neg (by decide), if_pos rfl]
  show (if '/' = '/' then _ else _) = _
  rw [if_pos rfl, map_flush_nil, scan_lineComment h hrest]

theorem scan_blockComment {text : Str} (h : ¬ ['*', '/'] <:+: text) (t : Str) :
    scan .blockComment (text ++ '*' :: '/' :: t) = scan (.code []) t := by
  induction text with
  | nil =>
    rw [List.nil_append, scan_blockComment_cons, if_pos rfl]
    exact if_pos rfl
  | cons c text ih =>
    have htail : ¬ ['*', '/'] <:+: text := fun hin => h (List.infix_cons hin)
    rw [List.cons_append, scan_blockComment_cons]
    split
    · rename_i hc
      cases text with
      | nil =>
        rw [List.nil_append] at ih ⊢
        show (if '*' = '/' then _ else _) = _
        rw [if_neg (by decide)]
        exact ih htail
      | cons d text =>
        have hd : d ≠ '/' := by
          rintro rfl
          apply h
          rw [hc]
          exact ⟨[], text, rfl⟩
        show (if d = '/' then _ else _) = _
        rw [if_neg hd]
        exact ih htail
    · exact ih htail

theorem scan_renderComment (c : Option CommentText) {rest : Str} (hrest : EndsLine rest) :
    scan (.code []) (renderComment c ++ rest) = scan (.code []) rest := by
  cases c with
  | none => rfl
  | some text => exact scan_slashes text.2 hrest

theorem digit_wordChar {c : Char} (h : c.isDigit = true) :
    isWordChar c = true ∧ isJsGap c = false := by
  constructor
  · unfold isWordChar Char.isAlphanum
    rw [h]
    simp
  · simp only [Char.isDigit, Bool.and_eq_true, decide_eq_true_eq, UInt32.le_iff_toNat_le] at h
    have hnat : c.toNat = c.val.toNat := rfl
    have h0 : '0'.val.toNat = 48 := rfl
    have h9 : '9'.val.toNat = 57 := rfl
    have hlow : 48 ≤ c.toNat := by omega
    have hhigh : c.toNat ≤ 57 := by omega
    unfold isJsGap isJsWhiteSpace isLineTerminator
    simp only [List.contains_eq_mem, List.mem_cons, List.not_mem_nil, or_false,
      Bool.or_eq_false_iff, Bool.and_eq_false_iff, decide_eq_false_iff_not]
    omega

/-- A word and the parenthesis that closes the call. -/
theorem scan_word_close {word : Str} (hword : ∀ c ∈ word, isWordChar c = true ∧ isJsGap c = false)
    (hne : word ≠ []) (gap : Gap) (t : Str) :
    scan (.code []) (word ++ (gap.1 ++ ')' :: t)) =
      (scan (.code []) t).map fun ts => .word word :: .close :: ts := by
  have hflush : flush word = [.word word] := by
    cases word with
    | nil => exact absurd rfl hne
    | cons c word => rfl
  rw [scan_word hword, List.nil_append,
    scan_gap_punctuator gap (c := ')') .close rfl (by decide), hflush]
  rfl

theorem scan_literal (l : Literal) (gap : Gap) (t : Str) :
    scan (.code []) (l.render ++ (gap.1 ++ ')' :: t)) =
      (scan (.code []) t).map fun ts => l.tokens ++ .close :: ts := by
  cases l with
  | bool b =>
    cases b with
    | true => exact scan_word_close (forall_mem_of_all (by decide)) (by decide) gap t
    | false => exact scan_word_close (forall_mem_of_all (by decide)) (by decide) gap t
  | int negative digits =>
    have hdigits := scan_word_close (fun c hc => digit_wordChar (digits.2.2 c hc)) digits.2.1 gap t
    cases negative with
    | false => exact hdigits
    | true =>
      show scan (.code []) ('-' :: (digits.1 ++ (gap.1 ++ ')' :: t))) = _
      rw [scan_punctuator (c := '-') .minus rfl (by decide), hdigits, Option.map_map]
      rfl
  | str s =>
    have hrender : (Literal.str s).render ++ (gap.1 ++ ')' :: t) =
        '"' :: (s.1 ++ '"' :: (gap.1 ++ ')' :: t)) := by
      unfold Literal.render
      simp
    rw [hrender, scan_string s.2,
      scan_gap_punctuator gap (c := ')') .close rfl (by decide),
      Option.map_map]
    rfl

/-- The statement from its value. -/
theorem scan_fromValue (s : Statement) {rest : Str} (hrest : EndsLine rest) :
    scan (.code []) (s.fromValue ++ rest) =
      (scan (.code []) rest).map fun ts => s.literal.tokens ++ .close :: .semi :: ts := by
  have hrender : s.fromValue ++ rest = s.literal.render ++ (s.afterValue.1 ++
      ')' :: (s.beforeSemi.1 ++ ';' :: (s.afterSemi.1 ++ (renderComment s.comment ++ rest)))) := by
    unfold Statement.fromValue Statement.tail
    simp
  rw [hrender, scan_literal, scan_gap_punctuator s.beforeSemi (c := ';') .semi rfl (by decide),
    scan_gap (fun _ h => Gap.jsGap (g := s.afterSemi) h), scan_renderComment _ hrest,
    Option.map_map]
  rfl

theorem scan_statement (s : Statement) {rest : Str} (hrest : EndsLine rest) :
    scan (.code []) (s.render ++ rest) = (scan (.code []) rest).map (s.tokens ++ ·) := by
  have hrender : s.render ++ rest = s.indent.1 ++ (lockPrefWord ++ '(' :: (s.afterParen.1 ++
      '"' :: (s.name.1 ++ '"' :: (s.afterName.1 ++ ',' :: (s.beforeValue.1 ++
        (s.fromValue ++ rest)))))) := by
    unfold Statement.render
    simp [lockPrefWord]
  have hvalue := scan_fromValue s hrest
  have hcomma := scan_gap_punctuator s.afterName (c := ',') .comma rfl (by decide) []
    (s.beforeValue.1 ++ (s.fromValue ++ rest))
  rw [scan_gap (fun _ h => Gap.jsGap (g := s.beforeValue) h), hvalue] at hcomma
  have hopen := scan_punctuator (c := '(') .open rfl (by decide) lockPrefWord
    (s.afterParen.1 ++ '"' :: (s.name.1 ++ '"' :: (s.afterName.1 ++ ',' :: (s.beforeValue.1 ++
      (s.fromValue ++ rest)))))
  rw [scan_gap (fun _ h => Gap.jsGap (g := s.afterParen) h), scan_string s.name.2.2,
    hcomma] at hopen
  rw [hrender, scan_gap (fun _ h => Gap.jsGap (g := s.indent) h),
    scan_word (forall_mem_of_all (by decide)), List.nil_append, hopen]
  cases scan (.code []) rest with
  | none => rfl
  | some ts =>
    show some _ = some _
    unfold Statement.tokens
    simp [flush, lockPrefWord]

theorem scan_item (it : Item) {rest : Str} (hrest : EndsLine rest) :
    scan (.code []) (it.render ++ rest) = (scan (.code []) rest).map (it.tokens ++ ·) := by
  have hgap : ∀ (g : Gap) (t : Str), scan (.code []) (g.1 ++ t) = scan (.code []) t :=
    fun g t => scan_gap (fun _ h => Gap.jsGap (g := g) h) t
  have hnone : ∀ {text : Str}, scan (.code []) text = scan (.code []) rest →
      scan (.code []) text = (scan (.code []) rest).map ([] ++ ·) := by
    intro text h
    rw [h]
    exact (map_flush_nil _).symm
  cases it with
  | blank gap =>
    apply hnone
    exact hgap gap rest
  | comment indent text =>
    apply hnone
    show scan (.code []) ((indent.1 ++ '/' :: '/' :: text.1) ++ rest) = _
    rw [List.append_assoc, hgap]
    exact scan_slashes text.2 hrest
  | note indent text after =>
    apply hnone
    have hrender : (Item.note indent text after).render ++ rest =
        indent.1 ++ '/' :: '*' :: (text.1 ++ '*' :: '/' :: (after.1 ++ rest)) := by
      unfold Item.render
      simp
    rw [hrender, hgap, scan_code_cons, if_neg (by decide), if_neg (by decide), if_neg (by decide),
      if_pos rfl]
    show (if '*' = '/' then _ else if '*' = '*' then _ else _) = _
    rw [if_neg (by decide), if_pos rfl, map_flush_nil, scan_blockComment text.2.1, hgap]
  | lockPref s =>
    have h := scan_statement s hrest
    unfold Item.tokens Item.statement
    rw [List.flatMap_singleton]
    exact h

/-- **The tokens of the file** below its first line. -/
theorem scan_below (items : List Item) :
    scan (.code []) (below items) = some (items.flatMap Item.tokens) := by
  induction items with
  | nil => rfl
  | cons it items ih =>
    show scan (.code []) ('\n' :: (it.render ++ below items)) = _
    rw [scan_code_nil_gap (by decide), scan_item it (endsLine_below items), ih]
    rfl

/-! ## The parser -/

/-- The call that a statement makes. -/
def Statement.call (s : Statement) : LockCall := (s.name.1, s.literal.value)

theorem digitsValue_eq_magnitude {digits : Str} (h : ∀ c ∈ digits, c.isDigit = true) :
    magnitude digits = digitsValue 10 digits := by
  have hfold : ∀ (l : Str) (n : Nat), (∀ c ∈ l, c.isDigit = true) →
      l.foldl (fun n c => 10 * n + (decimal c).getD 0) n =
        l.foldl (fun n c => 10 * n + (c.toNat - '0'.toNat)) n := by
    intro l
    induction l with
    | nil => intro n _; rfl
    | cons c l ih =>
      intro n hl
      obtain ⟨hc, htail⟩ := List.forall_mem_cons.1 hl
      rw [List.foldl_cons, List.foldl_cons, decimal_of_isDigit hc]
      exact ih _ htail
  exact hfold digits 0 h

theorem octal_le_decimal (digits : Str) : digitsValue 8 digits ≤ digitsValue 10 digits := by
  have hfold : ∀ (l : Str) (m n : Nat), m ≤ n →
      l.foldl (fun n c => 8 * n + (c.toNat - '0'.toNat)) m ≤
        l.foldl (fun n c => 10 * n + (c.toNat - '0'.toNat)) n := by
    intro l
    induction l with
    | nil => intro m n h; exact h
    | cons c l ih =>
      intro m n h
      apply ih
      show 8 * m + _ ≤ 10 * n + _
      omega
  exact hfold digits 0 0 (Nat.le_refl 0)

theorem jsDigits_le_magnitude (digits : Digits) : jsDigits digits.1 ≤ magnitude digits.1 := by
  rw [digitsValue_eq_magnitude digits.2.2]
  unfold jsDigits
  split
  · exact octal_le_decimal digits.1
  · exact Nat.le_refl _

theorem pyInt_digits (digits : Digits) : pyInt digits.1 = magnitude digits.1 := by
  unfold pyInt
  split
  · rename_i ds hds
    have hminus := digits.2.2 '-' (by rw [hds]; exact List.mem_cons_self)
    exact absurd hminus (by decide)
  · rfl

theorem jsNat_digits (digits : Digits) : jsNat digits.1 = some (jsDigits digits.1) := by
  unfold jsNat
  rw [if_neg]
  rintro (h | h)
  · exact digits.2.1 h
  · apply h
    rw [List.all_eq_true]
    exact digits.2.2

theorem wordValue_digits (digits : Digits) :
    wordValue digits.1 = int32 (jsDigits digits.1) := by
  have hbool : boolWord digits.1 = none := by
    have hne : ∀ w : Str, 'e' ∈ w → digits.1 ≠ w := by
      intro w hw h
      have hdigit := digits.2.2 'e' (by rw [h]; exact hw)
      revert hdigit
      decide
    unfold boolWord
    rw [if_neg (hne _ (by decide)), if_neg (hne _ (by decide))]
  unfold wordValue
  rw [hbool, jsNat_digits]
  rfl

theorem literal_tokens {l : Literal} (h : l.InRange) (rest : List Token) :
    literal (l.tokens ++ rest) = some (l.value, rest) := by
  cases l with
  | bool b =>
    cases b with
    | true => rfl
    | false => rfl
  | int negative digits =>
    have hle := jsDigits_le_magnitude digits
    obtain ⟨hlow, hhigh⟩ := h
    cases negative with
    | true =>
      have hpy : pyInt (Literal.int true digits).render = -(magnitude digits.1 : Int) := rfl
      rw [hpy] at hlow
      show ((jsNat digits.1).bind fun n => int32 (-(n : Int))).map _ = _
      rw [jsNat_digits, Option.bind_some, int32, if_pos]
      · rfl
      · omega
    | false =>
      have hpy : pyInt (Literal.int false digits).render = magnitude digits.1 := pyInt_digits digits
      rw [hpy] at hhigh
      show (wordValue digits.1).map _ = _
      rw [wordValue_digits, int32, if_pos]
      · rfl
      · omega
  | str s => rfl

theorem statement_tokens {s : Statement} (h : s.literal.InRange) (fuel : Nat) (rest : List Token) :
    statement (fuel + 1) (s.tokens ++ rest) = some (.lock s.call, rest) := by
  have htokens : s.tokens ++ rest = .word lockPrefWord :: .open :: .str s.name.1 :: .comma ::
      (s.literal.tokens ++ .close :: .semi :: rest) := by
    unfold Statement.tokens
    simp
  rw [htokens]
  show (if lockPrefWord = lockPrefWord then _ else _) = _
  rw [if_pos rfl, lockPrefCall, literal_tokens h]
  rfl

theorem statements_tokens {ss : List Statement} (h : ∀ s ∈ ss, s.literal.InRange) :
    ∀ fuel : Nat, ss.length < fuel → ∃ p, statements fuel (ss.flatMap Statement.tokens) =
      some (p, []) ∧ p.calls = ss.map Statement.call := by
  induction ss with
  | nil =>
    intro fuel hfuel
    cases fuel with
    | zero => exact absurd hfuel (Nat.not_lt_zero _)
    | succ fuel => exact ⟨.empty, rfl, rfl⟩
  | cons s ss ih =>
    intro fuel hfuel
    obtain ⟨hs, htail⟩ := List.forall_mem_cons.1 h
    rw [List.length_cons] at hfuel
    obtain ⟨fuel, rfl⟩ : ∃ n, fuel = n + 2 := ⟨fuel - 2, by omega⟩
    obtain ⟨p, hp, hcalls⟩ := ih htail (fuel + 1) (by omega)
    refine ⟨.seq (.lock s.call) p, ?_, ?_⟩
    · have hstep : statements (fuel + 2) (s.tokens ++ ss.flatMap Statement.tokens) =
          (statement (fuel + 1) (s.tokens ++ ss.flatMap Statement.tokens)).bind fun first =>
            (statements (fuel + 1) first.2).bind fun others =>
              some (.seq first.1 others.1, others.2) := rfl
      rw [List.flatMap_cons, hstep, statement_tokens hs]
      show (statements (fuel + 1) (ss.flatMap Statement.tokens)).bind _ = _
      rw [hp]
      rfl
    · show [s.call] ++ p.calls = _
      rw [hcalls]
      rfl

theorem program_tokens {ss : List Statement} (h : ∀ s ∈ ss, s.literal.InRange) :
    program (ss.flatMap Statement.tokens) = some (ss.map Statement.call) := by
  have hlength : ∀ ss : List Statement, ss.length ≤ (ss.flatMap Statement.tokens).length := by
    intro ss
    induction ss with
    | nil => exact Nat.le_refl _
    | cons s ss ih =>
      rw [List.flatMap_cons, List.length_append, List.length_cons]
      have hone : 1 ≤ s.tokens.length := by
        unfold Statement.tokens
        simp
      omega
  have hfuel := hlength ss
  obtain ⟨p, hp, hcalls⟩ := statements_tokens h
    (2 * (ss.flatMap Statement.tokens).length + 2) (by omega)
  unfold program
  rw [hp]
  exact congrArg some hcalls

/-- **The script calls `lockPref` once for each statement** below the first line, in order. -/
theorem script_of_cfgFile {cfg : CfgFile} {text : Str}
    (htext : universalNewlines text = cfg.render) (h : ∀ s ∈ cfg.executed, s.literal.InRange) :
    script (skipFirstLine text) = some (cfg.executed.map Statement.call) := by
  have hone : '\n' ∉ cfg.first.render := by
    cases cfg.first with
    | free line oneLine _ => exact oneLine
    | comment indent text =>
      have h1 := indent.oneLine
      have h2 := CommentText.oneLine text
      unfold FirstLine.render Item.render
      simp only [List.mem_append, List.mem_cons, not_or]
      exact ⟨h1, by decide, by decide, h2⟩
    | lockPref s => exact s.oneLine
  have hreturn : '\r' ∉ cfg.first.render := by
    intro hr
    apply no_return_universalNewlines text
    rw [htext]
    exact List.mem_append_left _ hr
  have hscan : scan (.code []) (skipFirstLine text) = some (cfg.items.flatMap Item.tokens) := by
    rw [← scan_universalNewlines, skipFirstLine_universalNewlines, htext]
    show scan (.code []) (skipFirstLine (cfg.first.render ++ below cfg.items)) = _
    rw [← scan_below cfg.items]
    cases cfg.items with
    | nil =>
      rw [show below [] = [] from rfl, List.append_nil, skipFirstLine_only hone hreturn]
    | cons it items =>
      show scan (.code [])
          (skipFirstLine (cfg.first.render ++ '\n' :: (it.render ++ below items))) =
        scan (.code []) ('\n' :: (it.render ++ below items))
      rw [skipFirstLine_line hone hreturn, scan_code_nil_gap (by decide)]
  have htokens : cfg.items.flatMap Item.tokens = cfg.executed.flatMap Statement.tokens := by
    unfold CfgFile.executed Item.tokens
    rw [List.flatMap_assoc]
  unfold script
  rw [hscan, Option.bind_some, htokens, program_tokens h]

end DenBrowser.Lockdown
