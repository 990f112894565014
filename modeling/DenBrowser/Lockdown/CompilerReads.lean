import DenBrowser.Lockdown.CfgFile
import Mathlib.Data.List.TakeWhile

/-!
# What the compiler reads

The regular expression followed through a statement of a configuration file, and the loop
through the file.

* `lineTail_in_string` — within a string, only a text that looks like the end of the statement can
  end the match;
* `lineEntry_statement` — what is read of a statement that is accepted;
* `entries_of_parseCfg` — what is read of a file that is accepted: the statements of all its lines.
-/

set_option autoImplicit false

namespace DenBrowser.Lockdown

open Backtrack

/-! ## What the compiler reads of a statement -/

/-- `\s*\)\s*;\s*` as a text. -/
def Closer (s : Str) : Prop :=
  ∃ a b c : Str, (∀ d ∈ a, isSpace d = true) ∧ (∀ d ∈ b, isSpace d = true) ∧
    (∀ d ∈ c, isSpace d = true) ∧ s = a ++ ')' :: (b ++ ';' :: c)

/-- `(?://.*)?$` as a text. -/
def LineEnd (s : Str) : Prop :=
  (s = [] ∨ s = ['\n']) ∨
    ∃ w nl, s = '/' :: '/' :: (w ++ nl) ∧ '\n' ∉ w ∧ (nl = [] ∨ nl = ['\n'])

theorem mem_closing {s : Str} {m : Unit × Str} :
    m ∈ closing s ↔ ∃ close, s = close ++ m.2 ∧ Closer close := by
  constructor
  · intro h
    unfold closing at h
    obtain ⟨a, s1, ha, h1⟩ := mem_bind.1 h
    obtain ⟨_, s2, hparen, h2⟩ := mem_bind.1 h1
    obtain ⟨b, s3, hb, h3⟩ := mem_bind.1 h2
    obtain ⟨_, s4, hsemi, h4⟩ := mem_bind.1 h3
    obtain ⟨c, s5, hc, h5⟩ := mem_bind.1 h4
    obtain rfl := List.mem_singleton.1 h5
    obtain ⟨rfl, hspaceA⟩ := mem_many.1 ha
    obtain rfl := mem_lit.1 hparen
    obtain ⟨rfl, hspaceB⟩ := mem_many.1 hb
    obtain rfl := mem_lit.1 hsemi
    obtain ⟨rfl, hspaceC⟩ := mem_many.1 hc
    exact ⟨a ++ ')' :: (b ++ ';' :: c), by simp, a, b, c, hspaceA, hspaceB, hspaceC, rfl⟩
  · rintro ⟨close, rfl, a, b, c, ha, hb, hc, rfl⟩
    unfold closing
    refine mem_bind.2 ⟨a, ')' :: (b ++ ';' :: c) ++ m.2, mem_many.2 ⟨by simp, ha⟩, ?_⟩
    refine mem_bind.2 ⟨(), (b ++ ';' :: c) ++ m.2, mem_lit.2 rfl, ?_⟩
    refine mem_bind.2 ⟨b, ';' :: c ++ m.2, mem_many.2 ⟨by simp, hb⟩, ?_⟩
    refine mem_bind.2 ⟨(), c ++ m.2, mem_lit.2 rfl, ?_⟩
    exact mem_bind.2 ⟨c, m.2, mem_many.2 ⟨rfl, hc⟩, List.mem_singleton.2 rfl⟩

theorem lineTail_ne_nil_iff {s : Str} :
    lineTail s ≠ [] ↔ ∃ close rest, s = close ++ rest ∧ Closer close ∧ LineEnd rest := by
  constructor
  · intro h
    obtain ⟨m, hm⟩ := List.exists_mem_of_ne_nil _ h
    unfold lineTail at hm
    obtain ⟨_, rest, hclosing, h1⟩ := mem_bind.1 hm
    obtain ⟨o, s2, hopt, h2⟩ := mem_bind.1 h1
    obtain ⟨close, hs, hclose⟩ := mem_closing.1 hclosing
    have hend := (mem_atEnd.1 h2).1
    refine ⟨close, rest, hs, hclose, ?_⟩
    rcases mem_opt.1 hopt with ⟨w, _, hw⟩ | hnone
    · obtain ⟨_, s3, hslashes, hrun⟩ := mem_bind.1 hw
      obtain rfl := mem_lit.1 hslashes
      obtain ⟨rfl, hno⟩ := mem_many.1 hrun
      refine Or.inr ⟨w, s2, rfl, ?_, hend⟩
      intro hn
      have := hno _ hn
      revert this
      decide
    · obtain ⟨_, rfl⟩ := Prod.mk.inj hnone
      exact Or.inl hend
  · rintro ⟨close, rest, rfl, hclose, hrest⟩
    have hclosing : ((), rest) ∈ closing (close ++ rest) := mem_closing.2 ⟨close, rfl, hclose⟩
    rcases hrest with hend | ⟨w, nl, rfl, hw, hend⟩
    · apply List.ne_nil_of_mem (a := ((), rest))
      refine mem_bind.2 ⟨(), rest, hclosing, mem_bind.2 ⟨none, rest, mem_opt.2 (Or.inr rfl), ?_⟩⟩
      exact mem_atEnd.2 ⟨hend, rfl⟩
    · apply List.ne_nil_of_mem (a := ((), nl))
      refine mem_bind.2 ⟨(), _, hclosing, mem_bind.2 ⟨some w, nl, ?_, mem_atEnd.2 ⟨hend, rfl⟩⟩⟩
      refine mem_opt.2 (Or.inl ⟨w, rfl, mem_bind.2 ⟨(), w ++ nl, mem_lit.2 rfl, ?_⟩⟩)
      refine mem_many.2 ⟨rfl, ?_⟩
      intro c hc
      rw [decide_eq_true_eq]
      rintro rfl
      exact hw hc

theorem endsStatement_iff {s : Str} :
    endsStatement s = true ↔ ∃ close w, s = close ++ '/' :: '/' :: w ∧ Closer close := by
  have hfirst : endsStatement s = true ↔ ∃ m, m ∈ statementEnd s := by
    unfold endsStatement Pat.first
    cases statementEnd s with
    | nil => simp
    | cons m ms => simp
  rw [hfirst]
  constructor
  · rintro ⟨m, hm⟩
    unfold statementEnd at hm
    obtain ⟨_, rest, hclosing, hslashes⟩ := mem_bind.1 hm
    obtain ⟨close, hs, hclose⟩ := mem_closing.1 hclosing
    rw [mem_lit.1 hslashes] at hs
    exact ⟨close, m.2, hs, hclose⟩
  · rintro ⟨close, w, rfl, hclose⟩
    exact ⟨((), w), mem_bind.2 ⟨(), _, mem_closing.2 ⟨close, rfl, hclose⟩, mem_lit.2 rfl⟩⟩

/-- A text that goes on with neither white space nor a closing parenthesis is no end. -/
theorem lineTail_stops {c : Char} {s : Str} (hspace : isSpace c = false) (hc : c ≠ ')') :
    lineTail (c :: s) = [] := by
  by_contra h
  obtain ⟨close, rest, hs, ⟨a, b, d, ha, _, _, rfl⟩, _⟩ := lineTail_ne_nil_iff.1 h
  cases a with
  | nil => exact hc (List.cons.inj hs).1
  | cons e a =>
    obtain ⟨rfl, _⟩ := List.cons.inj hs
    rw [ha c List.mem_cons_self] at hspace
    cases hspace

theorem quote_not_mem_closer {s : Str} (h : Closer s) : '"' ∉ s := by
  obtain ⟨a, b, c, ha, hb, hc, rfl⟩ := h
  have hquote : isSpace '"' = false := by decide
  have hno : ∀ l : Str, (∀ d ∈ l, isSpace d = true) → '"' ∉ l := by
    intro l hl hmem
    rw [hl _ hmem] at hquote
    cases hquote
  simp only [List.mem_append, List.mem_cons, not_or]
  exact ⟨hno a ha, by decide, hno b hb, by decide, hno c hc⟩

/-- **Within a string** only a text that looks like the end of the statement can end the match. -/
theorem lineTail_in_string {v tail : Str} :
    lineTail (v ++ '"' :: tail) ≠ [] → endsStatement v = true := by
  intro h
  obtain ⟨close, rest, hs, hclose, hrest⟩ := lineTail_ne_nil_iff.1 h
  have hquote := quote_not_mem_closer hclose
  rw [endsStatement_iff]
  rcases List.append_eq_append_iff.1 hs with ⟨x, hx, hx'⟩ | ⟨x, hx, hx'⟩
  · -- the end begins after the string
    cases x with
    | nil =>
      rw [List.nil_append] at hx'
      exfalso
      rcases hrest with (hnil | hnl) | ⟨w, nl, hslash, _, _⟩
      · rw [hnil] at hx'
        cases hx'
      · rw [hnl] at hx'
        cases hx'
      · rw [hslash] at hx'
        cases hx'
    | cons c x =>
      obtain ⟨rfl, _⟩ := List.cons.inj hx'
      rw [hx] at hquote
      exact absurd (by simp) hquote
  · -- or within it
    rcases hrest with (hnil | hnl) | ⟨w, nl, hslash, _, _⟩
    · rw [hnil] at hx'
      simp at hx'
    · rw [hnl] at hx'
      cases x with
      | nil => cases hx'
      | cons c x => simp at hx'
    · rw [hslash] at hx'
      cases x with
      | nil => cases hx'
      | cons c x =>
        obtain ⟨rfl, hsecond⟩ := List.cons.inj hx'
        cases x with
        | nil => cases hsecond
        | cons d x =>
          obtain ⟨rfl, _⟩ := List.cons.inj hsecond
          exact ⟨close, x, hx, hclose⟩

theorem lineTail_of_endsStatement {v tail nl : Str} (hv : endsStatement v = true)
    (hplain : ∀ c ∈ v, isPlain c = true) (htail : '\n' ∉ tail) (hnl : nl = [] ∨ nl = ['\n']) :
    lineTail (v ++ '"' :: (tail ++ nl)) ≠ [] := by
  obtain ⟨close, w, rfl, hclose⟩ := endsStatement_iff.1 hv
  refine lineTail_ne_nil_iff.2
    ⟨close, '/' :: '/' :: ((w ++ '"' :: tail) ++ nl), by simp, hclose, Or.inr ⟨_, nl, rfl, ?_, hnl⟩⟩
  have hw : '\n' ∉ w := by
    intro h
    exact oneLine_of_plain hplain (by simp [h])
  simp only [List.mem_append, List.mem_cons, not_or]
  exact ⟨hw, by decide, htail⟩

/-- White space up to a literal. -/
theorem spaces_then_lit {gap : Str} (hgap : ∀ c ∈ gap, isSpace c = true) {c : Char}
    (hc : isSpace c = false) (w rest : Str) {β : Type} (g : Unit → Pat Char β) :
    (many isSpace >>= fun _ => lit (c :: w) >>= g) (gap ++ (c :: w ++ rest)) = g () rest := by
  have hpossessive := bind_many_possessive (p := isSpace) (f := fun _ => lit (c :: w) >>= g)
    hgap (stopsAt_cons hc (w ++ rest))
  rw [List.cons_append, hpossessive]
  · exact bind_lit_append (c :: w) rest g
  · intro u d tail hd
    apply bind_lit_cons_ne
    rintro rfl
    rw [hc] at hd
    cases hd

theorem lockpref_upto_value (s : Statement) (nl : Str) :
    LOCKPREF_RE (s.render ++ nl) =
      (many isSpace >>= fun _ => valueTail s.name.1) (s.beforeValue.1 ++ (s.fromValue ++ nl)) := by
  have hname : ∀ c ∈ s.name.1, decide (c ≠ '"') = true := by
    intro c hc
    have := s.name.2.2 c hc
    simp only [isPlain, Bool.and_eq_true, bne_iff_ne] at this
    exact decide_eq_true this.1.1.1
  have hquote : StopsAt (fun c => decide (c ≠ '"'))
      ('"' :: (s.afterName.1 ++ ([','] ++ (s.beforeValue.1 ++ (s.fromValue ++ nl))))) :=
    stopsAt_cons (by decide) _
  have hrender : s.render ++ nl = s.indent.1 ++ ('l' :: ['o', 'c', 'k', 'P', 'r', 'e', 'f', '('] ++
      (s.afterParen.1 ++ (['"'] ++ (s.name.1 ++ '"' ::
        (s.afterName.1 ++ ([','] ++ (s.beforeValue.1 ++ (s.fromValue ++ nl)))))))) := by
    unfold Statement.render
    simp
  rw [hrender]
  unfold LOCKPREF_RE
  rw [spaces_then_lit (fun _ h => Gap.space h) (by decide),
    spaces_then_lit (fun _ h => Gap.space h) (by decide),
    bind_many1_possessive hname s.name.2.1 hquote, bind_lit_cons,
    spaces_then_lit (fun _ h => Gap.space h) (by decide)]
  intro u c tail hc
  apply bind_lit_cons_ne
  rintro rfl
  revert hc
  decide

/-- The first match, when the value is `c :: w` and no shorter one works. -/
theorem first_of_value (s : Statement) {nl : Str} {c : Char} {w rest : Str}
    (hvalue : s.fromValue ++ nl = c :: w ++ rest) (hc : isSpace c = false)
    (hline : '\n' ∉ c :: w) (hend : lineTail rest ≠ [])
    (hshorter : ∀ u v, w = u ++ v → v ≠ [] → lineTail (v ++ rest) = []) :
    LOCKPREF_RE.first (s.render ++ nl) = some (s.name.1, c :: w) := by
  have hrun : ∀ d ∈ c :: w, decide (d ≠ '\n') = true := by
    intro d hd
    apply decide_eq_true
    rintro rfl
    exact hline hd
  let f : Str → Pat Char (Str × Str) := fun value => do
    lineTail
    pure (s.name.1, value)
  have hf : ∀ value text, f value text =
      (lineTail text).map fun m => ((s.name.1, value), m.2) := by
    intro value text
    show (lineTail text).flatMap (fun m => [((s.name.1, value), m.2)]) = _
    exact List.flatMap_pure_eq_map _ _
  have hlast : f (c :: w) rest ≠ [] := by
    rw [hf]
    intro h
    exact hend (List.map_eq_nil_iff.1 h)
  have hlazy := head_bind_many1Lazy (f := f) hrun hlast (by
    intro u v huv hv
    rw [hf, hshorter u v huv hv]
    rfl)
  have hstop : StopsAt isSpace (s.fromValue ++ nl) := by
    rw [hvalue, List.cons_append]
    exact stopsAt_cons hc _
  have hgreedy := head_bind_many (p := isSpace) (f := fun _ => valueTail s.name.1)
    (fun _ h => Gap.space (g := s.beforeValue) h) hstop
  have hvalueTail : (valueTail s.name.1 (s.fromValue ++ nl)).head? = (f (c :: w) rest).head? := by
    rw [hvalue]
    exact hlazy
  have hsome : ∃ m, (f (c :: w) rest).head? = some m ∧ m.1 = (s.name.1, c :: w) := by
    rw [hf]
    cases htail : lineTail rest with
    | nil => exact absurd htail hend
    | cons m ms => exact ⟨_, rfl, rfl⟩
  obtain ⟨m, hm, hm1⟩ := hsome
  unfold Pat.first
  rw [lockpref_upto_value, hgreedy, hvalueTail, hm]
  · exact congrArg some hm1
  · intro hnil
    rw [hnil, hm] at hvalueTail
    cases hvalueTail

/-- The end of a statement ends a line, with its newline or without. -/
theorem Statement.lineTail_tail (s : Statement) {nl : Str} (hnl : nl = [] ∨ nl = ['\n']) :
    lineTail (s.tail ++ nl) ≠ [] := by
  refine lineTail_ne_nil_iff.2
    ⟨s.afterValue.1 ++ ')' :: (s.beforeSemi.1 ++ ';' :: s.afterSemi.1),
      renderComment s.comment ++ nl, ?_,
      ⟨_, _, _, fun _ h => Gap.space h, fun _ h => Gap.space h, fun _ h => Gap.space h, rfl⟩, ?_⟩
  · unfold Statement.tail
    simp
  · cases s.comment with
    | none => exact Or.inl hnl
    | some text => exact Or.inr ⟨text.1, nl, rfl, CommentText.oneLine text, hnl⟩

/-! ### Stripping -/

theorem rstrip_cons {c : Char} (hc : isSpace c = false) (s : Str) :
    ∃ t gap, rstrip (c :: s) = c :: t ∧ s = t ++ gap ∧ ∀ d ∈ gap, isSpace d = true := by
  have hsplit := List.takeWhile_append_dropWhile (p := isSpace) (l := s.reverse)
  refine ⟨(s.reverse.dropWhile isSpace).reverse, (s.reverse.takeWhile isSpace).reverse, ?_, ?_, ?_⟩
  · unfold rstrip
    rw [List.reverse_cons, List.dropWhile_append]
    split
    · rename_i hempty
      rw [List.isEmpty_iff.1 hempty, List.dropWhile_cons, hc]
      rfl
    · simp
  · rw [← List.reverse_append, hsplit, List.reverse_reverse]
  · intro d hd
    exact List.mem_takeWhile_imp (List.mem_reverse.1 hd)

theorem rstrip_of_last {s : Str} {c : Char} (hc : isSpace c = false) :
    rstrip (s ++ [c]) = s ++ [c] := by
  unfold rstrip
  rw [List.reverse_append, List.reverse_singleton, List.singleton_append, List.dropWhile_cons, hc]
  simp

theorem strip_spaces_cons {gap : Str} (hgap : ∀ c ∈ gap, isSpace c = true) {c : Char}
    (hc : isSpace c = false) (s : Str) :
    ∃ t gap', strip (gap ++ c :: s) = c :: t ∧ s = t ++ gap' ∧ ∀ d ∈ gap', isSpace d = true := by
  unfold strip
  rw [List.dropWhile_append_of_pos hgap, List.dropWhile_cons, hc]
  exact rstrip_cons hc s

/-! ### Values -/

theorem decimal_of_isDigit {c : Char} (h : c.isDigit = true) :
    decimal c = some (c.toNat - '0'.toNat) := by
  have hlow : '0' ≤ c := by
    simp only [Char.isDigit, Bool.and_eq_true, decide_eq_true_eq] at h
    exact h.1
  have hrange : 0x30 ≤ c.toNat ∧ c.toNat < 0x30 + 10 := by
    simp only [Char.isDigit, Bool.and_eq_true, decide_eq_true_eq, UInt32.le_iff_toNat_le] at h
    have hnat : c.toNat = c.val.toNat := rfl
    have h0 : '0'.val.toNat = 48 := rfl
    have h9 : '9'.val.toNat = 57 := rfl
    omega
  unfold decimal zeros
  rw [List.find?_cons_of_pos (by simp [hrange])]
  rfl

theorem isInteger_render (negative : Bool) (digits : Digits) :
    isInteger (Literal.int negative digits).render = true := by
  have hall : (digits.1 ≠ [] && digits.1.all fun c => (decimal c).isSome) = true := by
    rw [Bool.and_eq_true, decide_eq_true_eq, List.all_eq_true]
    refine ⟨digits.2.1, ?_⟩
    intro c hc
    rw [decimal_of_isDigit (digits.2.2 c hc)]
    rfl
  cases negative with
  | true => exact hall
  | false =>
    show isInteger digits.1 = true
    unfold isInteger
    split
    · rename_i ds hds
      have hminus := digits.2.2 '-' (by rw [hds]; exact List.mem_cons_self)
      exact absurd hminus (by decide)
    · exact hall

theorem digit_not_space {c : Char} (h : c.isDigit = true) : isSpace c = false ∧ c ≠ ')' := by
  constructor
  · simp only [Char.isDigit, Bool.and_eq_true, decide_eq_true_eq, UInt32.le_iff_toNat_le] at h
    have hnat : c.toNat = c.val.toNat := rfl
    have h0 : '0'.val.toNat = 48 := rfl
    have h9 : '9'.val.toNat = 57 := rfl
    have hlow : 48 ≤ c.toNat := by omega
    have hhigh : c.toNat ≤ 57 := by omega
    unfold isSpace isWhitespace
    simp only [List.contains_eq_mem, List.mem_cons, List.not_mem_nil, or_false,
      Bool.or_eq_false_iff, Bool.and_eq_false_iff, decide_eq_false_iff_not]
    omega
  · rintro rfl
    revert h
    decide

/-- A literal that is a word or a number: its characters cannot end the match early. -/
theorem first_of_solid (s : Statement) {nl : Str} (hnl : nl = [] ∨ nl = ['\n'])
    {c : Char} {w : Str} (hrender : s.literal.render = c :: w)
    (hsolid : ∀ d ∈ c :: w, isSpace d = false ∧ d ≠ ')') :
    LOCKPREF_RE.first (s.render ++ nl) = some (s.name.1, s.literal.render) := by
  have hvalue : s.fromValue ++ nl = c :: w ++ (s.tail ++ nl) := by
    unfold Statement.fromValue
    rw [hrender, List.append_assoc]
  have hline : '\n' ∉ c :: w := by
    rw [← hrender]
    exact s.literal.oneLine
  rw [hrender]
  apply first_of_value s hvalue (hsolid c List.mem_cons_self).1 hline (s.lineTail_tail hnl)
  intro u v huv hv
  cases v with
  | nil => exact absurd rfl hv
  | cons d v =>
    have hd := hsolid d (by rw [huv]; simp)
    exact lineTail_stops hd.1 hd.2

theorem strip_of_solid {c : Char} {w : Str} (hsolid : ∀ d ∈ c :: w, isSpace d = false) :
    strip (c :: w) = c :: w := by
  unfold strip
  rw [List.dropWhile_cons, hsolid c List.mem_cons_self]
  show rstrip (c :: w) = c :: w
  rcases List.eq_nil_or_concat (c :: w) with hnil | ⟨init, d, hlast⟩
  · cases hnil
  · rw [hlast, List.concat_eq_append]
    apply rstrip_of_last
    apply hsolid
    rw [hlast, List.concat_eq_append]
    simp

/-- A statement's line is neither blank nor a comment. -/
theorem not_skipped (s : Statement) (nl : Str) :
    ¬ (strip (s.render ++ nl) = [] ∨ ['/', '/'] <+: strip (s.render ++ nl)) := by
  obtain ⟨t, _, ht, _⟩ := strip_spaces_cons (c := 'l')
    (fun _ h => Gap.space (g := s.indent) h) (by decide)
    (['o', 'c', 'k', 'P', 'r', 'e', 'f', '('] ++ (s.afterParen.1 ++ '"' :: (s.name.1 ++ '"' ::
      (s.afterName.1 ++ ',' :: (s.beforeValue.1 ++ s.fromValue)))) ++ nl)
  have hrender : s.render ++ nl = s.indent.1 ++ 'l' ::
      (['o', 'c', 'k', 'P', 'r', 'e', 'f', '('] ++ (s.afterParen.1 ++ '"' :: (s.name.1 ++ '"' ::
      (s.afterName.1 ++ ',' :: (s.beforeValue.1 ++ s.fromValue)))) ++ nl) := by
    unfold Statement.render
    simp
  rw [hrender, ht]
  rintro (h | ⟨rest, h⟩)
  · cases h
  · cases h

theorem lineEntry_of_first (s : Statement) {nl value : Str} (lineno : Nat)
    (h : LOCKPREF_RE.first (s.render ++ nl) = some (s.name.1, value)) :
    lineEntry lineno (s.render ++ nl) = (valueEntry lineno s.name.1 (strip value)).map some := by
  unfold lineEntry
  rw [if_neg (not_skipped s nl), h]

theorem valueEntry_quoted (lineno : Nat) (name t : Str) :
    valueEntry lineno name ('"' :: t) =
      if ('"' :: t).getLast? = some '"' then
        if '"' ∈ t.dropLast ∨ '\\' ∈ t.dropLast then .error (.escape lineno)
        else .ok ⟨.str, name, '"' :: t.dropLast ++ ['"']⟩
      else .error (.valueForm lineno ('"' :: t)) := by
  have hword : ¬ ('"' :: t = "true".toList ∨ '"' :: t = "false".toList) := by
    rintro (h | h)
    · cases h
    · cases h
  have hint : isInteger ('"' :: t) = false := by
    have hd : decimal '"' = none := by decide
    unfold isInteger
    split
    · rename_i heq
      cases heq
    · rw [List.all_cons, hd]
      simp
  unfold valueEntry
  rw [if_neg hword, if_neg (by simp [hint])]
  simp only [List.head?_cons, true_and, List.drop_one, List.tail_cons]

/-- The first suffix that looks like the end of the statement. -/
theorem first_ending : ∀ {s : Str}, (∃ u v, s = u ++ v ∧ endsStatement v = true) →
    ∃ u v, s = u ++ v ∧ endsStatement v = true ∧
      ∀ u' v', u = u' ++ v' → v' ≠ [] → endsStatement (v' ++ v) = false
  | [], ⟨u, v, hs, hv⟩ => by
    obtain ⟨rfl, rfl⟩ := List.append_eq_nil_iff.1 hs.symm
    refine ⟨[], [], rfl, hv, ?_⟩
    intro u' v' huv hne
    exact absurd (List.append_eq_nil_iff.1 huv.symm).2 hne
  | c :: s, ⟨u, v, hs, hv⟩ => by
    by_cases hnow : endsStatement (c :: s) = true
    · refine ⟨[], c :: s, rfl, hnow, ?_⟩
      intro u' v' huv hne
      exact absurd (List.append_eq_nil_iff.1 huv.symm).2 hne
    · have hlater : ∃ u v, s = u ++ v ∧ endsStatement v = true := by
        cases u with
        | nil =>
          rw [List.nil_append] at hs
          rw [hs] at hnow
          exact absurd hv hnow
        | cons d u => exact ⟨u, v, (List.cons.inj hs).2, hv⟩
      obtain ⟨u0, v0, hs0, hv0, hmin⟩ := first_ending hlater
      refine ⟨c :: u0, v0, by rw [hs0, List.cons_append], hv0, ?_⟩
      intro u' v' huv hne
      cases u' with
      | nil =>
        rw [List.nil_append] at huv
        rw [← huv, List.cons_append, ← hs0]
        exact Bool.eq_false_iff.2 hnow
      | cons d u' => exact hmin u' v' (List.cons.inj huv).2 hne

/-- A string no part of which looks like the end of the statement is read whole. -/
theorem first_of_open (s : Statement) {nl : Str} (hnl : nl = [] ∨ nl = ['\n']) {q : Quoted}
    (hliteral : s.literal = .str q)
    (hopen : ∀ u v, q.1 = u ++ v → endsStatement v = false) :
    LOCKPREF_RE.first (s.render ++ nl) = some (s.name.1, '"' :: (q.1 ++ ['"'])) := by
  have hvalue : s.fromValue ++ nl = '"' :: (q.1 ++ ['"']) ++ (s.tail ++ nl) := by
    unfold Statement.fromValue
    rw [hliteral, List.append_assoc]
    rfl
  have hline : '\n' ∉ '"' :: (q.1 ++ ['"']) := by
    have h := s.literal.oneLine
    rw [hliteral] at h
    exact h
  apply first_of_value s hvalue (by decide) hline (s.lineTail_tail hnl)
  intro u v huv hv
  obtain ⟨v', hv'⟩ : ∃ v', v = v' ++ ['"'] := by
    rcases List.eq_nil_or_concat v with rfl | ⟨init, d, rfl⟩
    · exact absurd rfl hv
    · rw [List.concat_eq_append, ← List.append_assoc] at huv
      obtain ⟨_, hd⟩ := List.append_inj' huv rfl
      rw [List.concat_eq_append, ← (List.cons.inj hd).1]
      exact ⟨init, rfl⟩
  rw [hv', ← List.append_assoc] at huv
  obtain ⟨hq, _⟩ := List.append_inj' huv rfl
  by_contra h
  rw [hv', List.append_assoc] at h
  have hends := lineTail_in_string (v := v') h
  rw [hopen u v' hq] at hends
  cases hends

/-- Otherwise it is cut before the first part that does. -/
theorem first_of_cut (s : Statement) {nl : Str} (hnl : nl = [] ∨ nl = ['\n']) {q : Quoted}
    (hliteral : s.literal = .str q) {u v : Str} (hq : q.1 = u ++ v)
    (hv : endsStatement v = true)
    (hmin : ∀ u' v', u = u' ++ v' → v' ≠ [] → endsStatement (v' ++ v) = false) :
    LOCKPREF_RE.first (s.render ++ nl) = some (s.name.1, '"' :: u) := by
  have hvalue : s.fromValue ++ nl = '"' :: u ++ (v ++ '"' :: (s.tail ++ nl)) := by
    unfold Statement.fromValue
    rw [hliteral]
    show ('"' :: q.1 ++ ['"']) ++ s.tail ++ nl = _
    rw [hq]
    simp
  have hline : '\n' ∉ '"' :: u := by
    have h := oneLine_of_plain q.2
    rw [hq] at h
    intro hmem
    rcases List.mem_cons.1 hmem with h' | h'
    · cases h'
    · exact h (List.mem_append_left v h')
  have hplain : ∀ c ∈ v, isPlain c = true := by
    intro c hc
    apply q.2
    rw [hq]
    exact List.mem_append_right u hc
  apply first_of_value s hvalue (by decide) hline
    (lineTail_of_endsStatement hv hplain s.tail_oneLine hnl)
  intro u' v' huv hne
  by_contra h
  rw [← List.append_assoc] at h
  have hends := lineTail_in_string h
  rw [hmin u' v' huv hne] at hends
  cases hends

theorem endsStatement_of_spaces {u v : Str} (hu : ∀ c ∈ u, isSpace c = true)
    (hv : endsStatement v = true) : endsStatement (u ++ v) = true := by
  obtain ⟨close, w, rfl, a, b, c, ha, hb, hc, rfl⟩ := endsStatement_iff.1 hv
  refine endsStatement_iff.2 ⟨(u ++ a) ++ ')' :: (b ++ ';' :: c), w, by simp, ?_⟩
  refine ⟨u ++ a, b, c, ?_, hb, hc, rfl⟩
  intro d hd
  rcases List.mem_append.1 hd with h | h
  · exact hu d h
  · exact ha d h

theorem not_special_of_plain {c : Char} (h : isPlain c = true) : c ≠ '"' ∧ c ≠ '\\' := by
  simp only [isPlain, Bool.and_eq_true, bne_iff_ne] at h
  exact ⟨h.1.1.1, h.1.1.2⟩

theorem lineEntry_string (s : Statement) {nl : Str} (hnl : nl = [] ∨ nl = ['\n']) {q : Quoted}
    (hliteral : s.literal = .str q) {lineno : Nat} {e : Option Entry}
    (h : lineEntry lineno (s.render ++ nl) = .ok e) : e = some s.entry := by
  have hentry : s.entry =
      ⟨.str, s.name.1, '"' :: (if endsStatement q.1 then [] else q.1) ++ ['"']⟩ := by
    unfold Statement.entry
    rw [hliteral]
    rfl
  by_cases hsome : ∃ u v, q.1 = u ++ v ∧ endsStatement v = true
  · obtain ⟨u, v, hq, hv, hmin⟩ := first_ending hsome
    rw [lineEntry_of_first s lineno (first_of_cut s hnl hliteral hq hv hmin)] at h
    obtain ⟨t, gap, ht, hu, hgap⟩ := rstrip_cons (c := '"') (by decide) u
    have hstrip : strip ('"' :: u) = '"' :: t := ht
    rw [hstrip, valueEntry_quoted] at h
    cases ht' : t with
    | nil =>
      -- the cut leaves the lone quote
      rw [ht'] at hu h
      rw [List.nil_append] at hu
      have hwhole : endsStatement q.1 = true := by
        rw [hq, hu]
        exact endsStatement_of_spaces hgap hv
      rw [hentry, hwhole]
      cases h
      rfl
    | cons d t' =>
      -- the cut leaves no closing quote: refused
      exfalso
      have hlast : ('"' :: t).getLast? ≠ some '"' := by
        intro hlast
        rw [ht', List.getLast?_cons_cons] at hlast
        have hmem : '"' ∈ t := by
          rw [ht']
          exact List.mem_of_getLast? hlast
        have hplain : isPlain '"' = true := by
          apply q.2
          rw [hq, hu]
          simp [hmem]
        revert hplain
        decide
      rw [if_neg hlast] at h
      cases h
  · have hopen : ∀ u v, q.1 = u ++ v → endsStatement v = false := by
      intro u v huv
      rw [Bool.eq_false_iff]
      intro hv
      exact hsome ⟨u, v, huv, hv⟩
    have hstrip : strip ('"' :: (q.1 ++ ['"'])) = '"' :: (q.1 ++ ['"']) := by
      unfold strip
      rw [List.dropWhile_cons, show isSpace '"' = false by decide]
      exact rstrip_of_last (s := '"' :: q.1) (by decide)
    rw [lineEntry_of_first s lineno (first_of_open s hnl hliteral hopen), hstrip,
      valueEntry_quoted, List.dropLast_concat] at h
    have hlast : ('"' :: (q.1 ++ ['"'])).getLast? = some '"' := by
      rw [← List.cons_append, List.getLast?_concat]
    have hnone : ¬ ('"' ∈ q.1 ∨ '\\' ∈ q.1) := by
      rintro (hc | hc)
      · exact (not_special_of_plain (q.2 _ hc)).1 rfl
      · exact (not_special_of_plain (q.2 _ hc)).2 rfl
    rw [if_pos hlast, if_neg hnone] at h
    rw [hentry, hopen [] q.1 rfl]
    cases h
    rfl

/-- **What the compiler reads of a statement** that it accepts. -/
theorem lineEntry_statement (s : Statement) {nl : Str} (hnl : nl = [] ∨ nl = ['\n'])
    {lineno : Nat} {e : Option Entry} (h : lineEntry lineno (s.render ++ nl) = .ok e) :
    e = some s.entry ∧ s.literal.InRange := by
  cases hliteral : s.literal with
  | bool b =>
    have hsolid : ∀ d ∈ (Literal.bool b).render, isSpace d = false ∧ d ≠ ')' := by
      apply forall_mem_of_all
      cases b with
      | true => decide
      | false => decide
    have hentry : s.entry = ⟨.bool, s.name.1, (Literal.bool b).render⟩ := by
      unfold Statement.entry
      rw [hliteral]
      rfl
    refine ⟨?_, trivial⟩
    rw [hentry]
    cases b with
    | true =>
      rw [lineEntry_of_first s lineno (first_of_solid s hnl (by rw [hliteral]; rfl) hsolid),
        hliteral] at h
      cases h
      rfl
    | false =>
      rw [lineEntry_of_first s lineno (first_of_solid s hnl (by rw [hliteral]; rfl) hsolid),
        hliteral] at h
      cases h
      rfl
  | int negative digits =>
    have hsolid : ∀ d ∈ (Literal.int negative digits).render, isSpace d = false ∧ d ≠ ')' := by
      intro d hd
      cases negative with
      | true =>
        rcases List.mem_cons.1 hd with rfl | hd
        · decide
        · exact digit_not_space (digits.2.2 d hd)
      | false => exact digit_not_space (digits.2.2 d hd)
    have hint := isInteger_render negative digits
    have hword : ¬ ((Literal.int negative digits).render = "true".toList ∨
        (Literal.int negative digits).render = "false".toList) := by
      rintro (hw | hw)
      · rw [hw] at hint
        revert hint
        decide
      · rw [hw] at hint
        revert hint
        decide
    have hentry : s.entry = ⟨.int, s.name.1, (Literal.int negative digits).render⟩ := by
      unfold Statement.entry
      rw [hliteral]
      rfl
    cases hrender : (Literal.int negative digits).render with
    | nil =>
      rw [hrender] at hint
      cases hint
    | cons c w =>
      rw [hrender] at hsolid
      rw [lineEntry_of_first s lineno
        (first_of_solid s hnl (by rw [hliteral, hrender]) hsolid), hliteral, hrender,
        strip_of_solid fun d hd => (hsolid d hd).1, ← hrender] at h
      unfold valueEntry at h
      rw [if_neg hword, if_pos hint] at h
      split at h
      · rename_i hrange
        rw [hentry]
        cases h
        exact ⟨rfl, hrange⟩
      · cases h
  | str q =>
    refine ⟨?_, trivial⟩
    exact lineEntry_string s hnl hliteral h

/-! ## What the compiler reads of a file -/

theorem infix_of_append_left {l a b : Str} (hl : l ≠ []) (ha : ∀ c ∈ a, c ∉ l)
    (h : l <:+: a ++ b) : l <:+: b := by
  induction a with
  | nil => exact h
  | cons c a ih =>
    obtain ⟨hc, htail⟩ := List.forall_mem_cons.1 ha
    rw [List.cons_append, List.infix_cons_iff] at h
    rcases h with ⟨rest, hrest⟩ | h
    · cases l with
      | nil => exact absurd rfl hl
      | cons d l =>
        rw [List.cons_append] at hrest
        exact absurd (List.mem_cons.2 (Or.inl (List.cons.inj hrest).1.symm)) hc
    · exact ih htail h

theorem infix_of_append_right {l a b : Str} (hl : l ≠ []) (hb : ∀ c ∈ b, c ∉ l)
    (h : l <:+: a ++ b) : l <:+: a := by
  rw [← List.reverse_infix, List.reverse_append] at h
  rw [← List.reverse_infix]
  refine infix_of_append_left (by simpa using hl) ?_ h
  intro c hc hcl
  exact hb c (List.mem_reverse.1 hc) (List.mem_reverse.1 hcl)

theorem gap_not_mem_word {c : Char} (h : isGap c = true) : c ∉ lockPrefWord := by
  intro hmem
  have hall : ∀ d ∈ lockPrefWord, isGap d = false := forall_mem_of_all (by decide)
  rw [hall c hmem] at h
  cases h

theorem newline_not_mem_word {nl : Str} (hnl : nl = [] ∨ nl = ['\n']) :
    ∀ c ∈ nl, c ∉ lockPrefWord := by
  rcases hnl with rfl | rfl
  · intro c hc
    cases hc
  · apply forall_mem_of_all
    decide

theorem lockPrefWord_ne_nil : lockPrefWord ≠ [] := by decide

theorem readlines_append (a b : Str) :
    readlines (a ++ '\n' :: b) = readlines (a ++ ['\n']) ++ readlines b := by
  induction a with
  | nil => rfl
  | cons c a ih =>
    by_cases hc : c = '\n'
    · subst hc
      rw [List.cons_append, List.cons_append, readlines_cons_newline, readlines_cons_newline, ih]
      rfl
    · cases hlines : readlines (a ++ ['\n']) with
      | nil =>
        have hempty : ∀ s : Str, readlines (s ++ ['\n']) ≠ [] := by
          intro s
          cases s with
          | nil => decide
          | cons d s =>
            rw [List.cons_append]
            unfold readlines
            split
            · exact List.cons_ne_nil _ _
            · split
              · exact List.cons_ne_nil _ _
              · exact List.cons_ne_nil _ _
        exact absurd hlines (hempty a)
      | cons l ls =>
        rw [hlines] at ih
        rw [List.cons_append, List.cons_append, readlines_cons hc hlines, readlines_cons hc ih]
        rfl

theorem readlines_single {s : Str} (hs : '\n' ∉ s) (hne : s ≠ []) {nl : Str}
    (hnl : nl = [] ∨ nl = ['\n']) : readlines (s ++ nl) = [s ++ nl] := by
  rcases hnl with rfl | rfl
  · rw [List.append_nil]
    exact (readlines_last hs).resolve_right hne
  · exact readlines_append_newline hs []

/-- The lines of a piece of the file leave the entries of these statements, if any are accepted. -/
def Reads (piece : Str) (ss : List Statement) : Prop :=
  ∀ nl lineno es, (nl = [] ∨ nl = ['\n']) → entriesFrom lineno (readlines (piece ++ nl)) = .ok es →
    es = ss.map Statement.entry ∧ ∀ s ∈ ss, s.literal.InRange

theorem reads_quiet {piece : Str} (h : ¬ lockPrefWord <:+: piece) : Reads piece [] := by
  intro nl lineno es hnl hes
  rw [entriesFrom_quiet] at hes
  · cases hes
    exact ⟨rfl, by simp⟩
  · intro raw hraw hword
    apply h
    exact infix_of_append_right lockPrefWord_ne_nil (newline_not_mem_word hnl)
      (hword.trans (infix_of_mem_readlines hraw))

theorem reads_comment (indent : Gap) (text : CommentText) :
    Reads (Item.comment indent text).render [] := by
  intro nl lineno es hnl hes
  have hline : '\n' ∉ (Item.comment indent text).render := by
    have h1 := indent.oneLine
    have h2 := CommentText.oneLine text
    unfold Item.render
    simp only [List.mem_append, List.mem_cons, not_or]
    exact ⟨h1, by decide, by decide, h2⟩
  have hne : (Item.comment indent text).render ≠ [] := by
    unfold Item.render
    simp
  have hskip : lineEntry lineno ((Item.comment indent text).render ++ nl) = .ok none := by
    obtain ⟨t, gap, ht, hs, hgap⟩ := strip_spaces_cons (c := '/')
      (fun _ h => Gap.space (g := indent) h) (by decide) ('/' :: (text.1 ++ nl))
    have hrender : (Item.comment indent text).render ++ nl =
        indent.1 ++ '/' :: ('/' :: (text.1 ++ nl)) := by
      unfold Item.render
      simp
    unfold lineEntry
    rw [hrender, ht, if_pos]
    cases t with
    | nil =>
      have hslash := hgap '/' (by rw [← List.nil_append gap, ← hs]; exact List.mem_cons_self)
      revert hslash
      decide
    | cons d t =>
      obtain ⟨rfl, _⟩ := List.cons.inj hs
      exact Or.inr ⟨t, rfl⟩
  rw [readlines_single hline hne hnl, entriesFrom_cons, hskip] at hes
  cases hes
  exact ⟨rfl, by simp⟩

theorem reads_statement (s : Statement) : Reads s.render [s] := by
  intro nl lineno es hnl hes
  have hne : s.render ≠ [] := by
    unfold Statement.render
    simp
  rw [readlines_single s.oneLine hne hnl, entriesFrom_cons] at hes
  cases hentry : lineEntry lineno (s.render ++ nl) with
  | error e =>
    rw [hentry] at hes
    cases hes
  | ok e =>
    obtain ⟨rfl, hrange⟩ := lineEntry_statement s hnl hentry
    rw [hentry] at hes
    cases hes
    exact ⟨rfl, by simpa using hrange⟩

theorem reads_item (it : Item) : Reads it.render it.statement := by
  cases it with
  | blank gap =>
    apply reads_quiet
    intro h
    have hnil : lockPrefWord <:+: gap.1 ++ [] := by rw [List.append_nil]; exact h
    have := infix_of_append_left lockPrefWord_ne_nil
      (fun c hc => gap_not_mem_word (gap.2 c hc)) hnil
    exact lockPrefWord_ne_nil (List.infix_nil.1 this)
  | comment indent text => exact reads_comment indent text
  | note indent text after =>
    apply reads_quiet
    intro h
    apply text.2.2
    have hleft := infix_of_append_right lockPrefWord_ne_nil
      (fun c hc => gap_not_mem_word (after.2 c hc)) h
    exact infix_of_append_left lockPrefWord_ne_nil
      (fun c hc => gap_not_mem_word (indent.2 c hc)) hleft
  | lockPref s => exact reads_statement s

theorem reads_first (first : FirstLine) : Reads first.render first.statement := by
  cases first with
  | free line _ quiet => exact reads_quiet quiet
  | comment indent text => exact reads_comment indent text
  | lockPref s => exact reads_statement s

theorem reads_below (items : List Item) : ∀ {piece : Str} {ss : List Statement} {lineno : Nat}
    {es : List Entry}, Reads piece ss →
    entriesFrom lineno (readlines (piece ++ below items)) = .ok es →
    es = (ss ++ items.flatMap Item.statement).map Statement.entry ∧
      ∀ s ∈ ss ++ items.flatMap Item.statement, s.literal.InRange := by
  induction items with
  | nil =>
    intro piece ss lineno es hpiece hes
    have h := hpiece [] lineno es (Or.inl rfl) hes
    rw [List.flatMap_nil, List.append_nil]
    exact h
  | cons it items ih =>
    intro piece ss lineno es hpiece hes
    have hbelow : piece ++ below (it :: items) = piece ++ '\n' :: (it.render ++ below items) := rfl
    rw [hbelow, readlines_append, entriesFrom_append] at hes
    cases hhead : entriesFrom lineno (readlines (piece ++ ['\n'])) with
    | error e =>
      rw [hhead] at hes
      cases hes
    | ok before =>
      obtain ⟨hbefore, hrange⟩ := hpiece ['\n'] lineno before (Or.inr rfl) hhead
      rw [hhead] at hes
      cases htail : entriesFrom (lineno + (readlines (piece ++ ['\n'])).length)
          (readlines (it.render ++ below items)) with
      | error e =>
        rw [htail] at hes
        cases hes
      | ok after =>
        obtain ⟨hafter, hrange'⟩ := ih (reads_item it) htail
        rw [htail] at hes
        cases hes
        rw [List.flatMap_cons, hbefore, hafter, ← List.map_append]
        refine ⟨rfl, ?_⟩
        intro s hs
        rcases List.mem_append.1 hs with h | h
        · exact hrange s h
        · exact hrange' s h

/-- **What the compiler reads of a file** that it accepts: the statements of all its lines. -/
theorem entries_of_parseCfg {cfg : CfgFile} {text : Str}
    (htext : universalNewlines text = cfg.render) {entries : List Entry}
    (hparse : parseCfg text = .ok entries) :
    entries = cfg.written.map Statement.entry ∧ ∀ s ∈ cfg.written, s.literal.InRange := by
  unfold parseCfg at hparse
  rw [htext] at hparse
  cases hes : entriesFrom 1 (readlines cfg.render) with
  | error e =>
    rw [hes] at hparse
    cases hparse
  | ok es =>
    have hread := reads_below cfg.items (reads_first cfg.first) hes
    rw [hes] at hparse
    change (if es = [] then _ else _) = _ at hparse
    split at hparse
    · cases hparse
    · cases hparse
      exact hread

end DenBrowser.Lockdown
