import DenBrowser.Lib.Words

/-!
# Blocks between sentinels

A block of a text goes from the first sentinel to the next second one, as the lazy pattern
`start.*?stop` finds it, and the search goes on after it.

* `blocks` — what comes before each block, what it holds, and what comes after the last one;
* `replace` — the text with the content of each block replaced;
* `blocks_replace` — the new text has the same blocks, with the new content, so that
  `replace_replace` doing it again changes nothing.
-/

set_option autoImplicit false

namespace Sentinel

open Words

variable {α : Type} [DecidableEq α]

/-! ## The first place of a word -/

/-- What comes before the first `t`, and after it. -/
def cut (t : List α) : List α → Option (List α × List α)
  | [] => none
  | c :: s =>
    if t.isPrefixOf (c :: s) then some ([], (c :: s).drop t.length)
    else (cut t s).map fun p => (c :: p.1, p.2)

/-- The first `t` of `a ++ t` is the one at its end. -/
def Fresh (t : List α) : List α → Prop
  | [] => True
  | c :: a => ¬t <+: c :: (a ++ t) ∧ Fresh t a

instance decidableFresh (t : List α) : (a : List α) → Decidable (Fresh t a)
  | [] => isTrue trivial
  | c :: a =>
    have := decidableFresh t a
    inferInstanceAs (Decidable (¬t <+: c :: (a ++ t) ∧ Fresh t a))

theorem isPrefixOf_append {t a : List α} (b : List α) (h : t.length ≤ a.length) :
    t.isPrefixOf (a ++ b) = t.isPrefixOf a := by
  rw [Bool.eq_iff_iff, List.isPrefixOf_iff_prefix, List.isPrefixOf_iff_prefix]
  constructor
  · intro hp
    exact List.prefix_of_prefix_length_le hp (List.prefix_append a b) h
  · intro hp
    exact hp.trans (List.prefix_append a b)

theorem cut_append {t : List α} (ht : t ≠ []) {a : List α} (ha : Fresh t a) (b : List α) :
    cut t (a ++ (t ++ b)) = some (a, b) := by
  induction a with
  | nil =>
    rw [List.nil_append]
    cases t with
    | nil => exact absurd rfl ht
    | cons c t =>
      have hp : (c :: t).isPrefixOf (c :: t ++ b) = true := by simp
      rw [List.cons_append] at hp ⊢
      rw [cut, if_pos hp, ← List.cons_append, List.drop_left]
  | cons c a ih =>
    obtain ⟨hc, ha⟩ := ha
    have hno : t.isPrefixOf (c :: (a ++ (t ++ b))) = false := by
      have hassoc : c :: (a ++ (t ++ b)) = c :: (a ++ t) ++ b := by simp
      rw [hassoc, isPrefixOf_append b (by simp; omega), ← Bool.not_eq_true,
        List.isPrefixOf_iff_prefix]
      exact hc
    rw [List.cons_append, cut, if_neg (by rw [hno]; decide), ih ha]
    rfl

theorem of_cut {t : List α} : ∀ {s a b : List α}, cut t s = some (a, b) →
    s = a ++ (t ++ b) ∧ Fresh t a := by
  intro s
  induction s with
  | nil =>
    intro a b h
    cases h
  | cons c s ih =>
    intro a b h
    rw [cut] at h
    split at h
    · rename_i hp
      obtain ⟨r, hr⟩ := List.isPrefixOf_iff_prefix.1 hp
      rw [← hr, List.drop_left] at h
      cases h
      exact ⟨by rw [← hr]; rfl, trivial⟩
    · rename_i hp
      obtain ⟨⟨a', b'⟩, hcut, heq⟩ := Option.map_eq_some_iff.1 h
      cases heq
      obtain ⟨rfl, hfresh⟩ := ih hcut
      refine ⟨rfl, ?_, hfresh⟩
      intro hprefix
      apply hp
      rw [List.isPrefixOf_iff_prefix]
      refine hprefix.trans ⟨b', ?_⟩
      simp

omit [DecidableEq α] in
/-- A word that does not begin inside is first where it stands. -/
theorem fresh_of_not_mem {x : α} {t a : List α} (ha : x ∉ a) : Fresh (x :: t) a := by
  induction a with
  | nil => exact trivial
  | cons c a ih =>
    rw [List.mem_cons, not_or] at ha
    refine ⟨?_, ih ha.2⟩
    intro hp
    exact ha.1 (List.cons_prefix_cons.1 hp).1

omit [DecidableEq α] in
/-- **A word that does not overlap itself** is first where it stands when it is not inside. -/
theorem fresh_iff {t : List α} (ht : t ≠ []) (hself : Apart t t) {a : List α} :
    Fresh t a ↔ ¬t <:+: a := by
  induction a with
  | nil => simp [Fresh, ht]
  | cons c a ih =>
    rw [Fresh, ih, List.infix_cons_iff, not_or]
    refine and_congr_left fun ha => not_congr ?_
    constructor
    · rintro ⟨d, h⟩
      have h' : [] ++ (t ++ d) = (c :: a) ++ (t ++ []) := by simpa using h
      rcases occurs_append hself hself h' with ⟨d', heq, _⟩ | ⟨hnil, _⟩ | ⟨c', _, hnil⟩
      · exact ⟨d', heq.symm⟩
      · cases hnil
      · cases hnil
    · rintro ⟨d, h⟩
      exact ⟨d ++ t, by rw [← List.append_assoc, h]; rfl⟩

theorem cut_eq_none {t : List α} (ht : t ≠ []) {s : List α} : cut t s = none ↔ ¬t <:+: s := by
  induction s with
  | nil => simp [cut, ht]
  | cons c s ih =>
    rw [cut, List.infix_cons_iff, not_or]
    split
    · rename_i hp
      simp [List.isPrefixOf_iff_prefix.1 hp]
    · rename_i hp
      rw [Option.map_eq_none_iff, ih]
      rw [List.isPrefixOf_iff_prefix] at hp
      simp [hp]

/-- The first place of a word is not after another. -/
theorem cut_le {t s a b c d : List α} (h : cut t s = some (a, b)) (hs : s = c ++ (t ++ d)) :
    ∃ e, c = a ++ e ∧ b = (e ++ (t ++ d)).drop t.length := by
  obtain ⟨hab, hfresh⟩ := of_cut h
  rw [hab] at hs
  have hle : a.length ≤ c.length := by
    by_contra hlt
    have hc : c.length < a.length := by omega
    have hno : ∀ (a c : List α), Fresh t a → c.length < a.length →
        ∀ b d, a ++ (t ++ b) ≠ c ++ (t ++ d) := by
      intro a
      induction a with
      | nil =>
        intro c _ hlen
        cases hlen
      | cons x a ih =>
        intro c hf hlen b d heq
        cases c with
        | nil =>
          apply hf.1
          have hp : t <+: x :: (a ++ t) ++ b := ⟨d, by simpa using heq.symm⟩
          exact List.prefix_of_prefix_length_le hp (List.prefix_append _ _) (by simp; omega)
        | cons y c =>
          exact ih c hf.2 (by simpa using hlen) b d (List.cons.inj heq).2
    exact hno a c hfresh hc b d hs
  obtain ⟨e, rfl⟩ : ∃ e, c = a ++ e := by
    have hp : a <+: a ++ (t ++ b) := List.prefix_append _ _
    rw [hs] at hp
    obtain ⟨e, he⟩ := List.prefix_of_prefix_length_le hp (List.prefix_append c _) hle
    exact ⟨e, he.symm⟩
  rw [List.append_assoc, List.append_cancel_left_eq] at hs
  exact ⟨e, rfl, by rw [← hs, List.drop_left]⟩

/-! ## Blocks -/

/-- The blocks of a text, each with what comes before it, and what comes after the last. -/
structure Parts (α : Type) where
  blocks : List (List α × List α)
  tail : List α
  deriving DecidableEq

section

variable (start stop : List α)

/-- At most `n` blocks. -/
def parts : Nat → List α → Parts α
  | 0, s => ⟨[], s⟩
  | n + 1, s =>
    match cut start s with
    | none => ⟨[], s⟩
    | some (before, rest) =>
      match cut stop rest with
      | none => ⟨[], s⟩
      | some (body, rest) =>
        ⟨(before, body) :: (parts n rest).blocks, (parts n rest).tail⟩

/-- The blocks of a text; it has at most one for each character. -/
def blocks (s : List α) : Parts α := parts start stop s.length s

/-- What is not in a block. -/
def Parts.outside (p : Parts α) : List (List α) := p.blocks.map Prod.fst ++ [p.tail]

/-- What the blocks hold. -/
def Parts.bodies (p : Parts α) : List (List α) := p.blocks.map Prod.snd

/-- The text of blocks. -/
def Parts.text (p : Parts α) : List α :=
  (p.blocks.flatMap fun b => b.1 ++ (start ++ (b.2 ++ stop))) ++ p.tail

/-- The same blocks with another content, which may depend on the old one. -/
def Parts.fill (p : Parts α) (f : List α → List α) : Parts α :=
  ⟨p.blocks.map fun b => (b.1, f b.2), p.tail⟩

/-- The text with another content of its blocks. -/
def replace (f : List α → List α) (s : List α) : List α :=
  ((blocks start stop s).fill f).text start stop

/-- Each part mapped. -/
def Parts.map (p : Parts α) (g : List α → List α) : Parts α :=
  ⟨p.blocks.map fun b => (g b.1, g b.2), g p.tail⟩

/-- The blocks of a text, one after the other. -/
inductive Scanned : List α → Parts α → Prop
  | done {s : List α} (h : cut start s = none ∨ ∃ a r, cut start s = some (a, r) ∧ cut stop r = none) :
      Scanned s ⟨[], s⟩
  | block {s a r b r' : List α} {p : Parts α} (h : cut start s = some (a, r))
      (h' : cut stop r = some (b, r')) (rest : Scanned r' p) :
      Scanned s ⟨(a, b) :: p.blocks, p.tail⟩

end

variable {start stop : List α}

theorem scanned_parts (hstart : start ≠ []) :
    ∀ (n : Nat) (s : List α), s.length ≤ n → Scanned start stop s (parts start stop n s) := by
  intro n
  induction n with
  | zero =>
    intro s hs
    have hnil := List.length_eq_zero_iff.1 (Nat.le_zero.1 hs)
    subst hnil
    exact Scanned.done (Or.inl rfl)
  | succ n ih =>
    intro s hs
    rw [parts]
    split
    · rename_i h
      exact Scanned.done (Or.inl h)
    · rename_i before rest h
      split
      · rename_i h'
        exact Scanned.done (Or.inr ⟨before, rest, h, h'⟩)
      · rename_i body rest' h'
        refine Scanned.block h h' (ih rest' ?_)
        have h1 := congrArg List.length (of_cut h).1
        have h2 := congrArg List.length (of_cut h').1
        have hpos := List.length_pos_iff.2 hstart
        simp only [List.length_append] at h1 h2
        omega

theorem Scanned.unique {s : List α} {p q : Parts α} (hp : Scanned start stop s p)
    (hq : Scanned start stop s q) : p = q := by
  induction hp generalizing q with
  | done h =>
    cases hq with
    | done _ => rfl
    | block h1 h2 _ =>
      rcases h with h | ⟨a, r, h, h'⟩
      · rw [h] at h1
        cases h1
      · rw [h] at h1
        cases h1
        rw [h'] at h2
        cases h2
  | block h1 h2 _ ih =>
    cases hq with
    | done h =>
      rcases h with h | ⟨a, r, h, h'⟩
      · rw [h] at h1
        cases h1
      · rw [h] at h1
        cases h1
        rw [h'] at h2
        cases h2
    | block h3 h4 rest =>
      rw [h1] at h3
      cases h3
      rw [h2] at h4
      cases h4
      rw [ih rest]

/-- **The blocks of a text** are those that are found one after the other. -/
theorem blocks_eq_iff (hstart : start ≠ []) {s : List α} {p : Parts α} :
    blocks start stop s = p ↔ Scanned start stop s p := by
  have h : Scanned start stop s (blocks start stop s) :=
    scanned_parts hstart s.length s (Nat.le_refl _)
  constructor
  · rintro rfl
    exact h
  · exact h.unique

theorem Scanned.text_eq {s : List α} {p : Parts α} (h : Scanned start stop s p) :
    p.text start stop = s := by
  induction h with
  | done _ => rfl
  | block h1 h2 _ ih =>
    rw [(of_cut h1).1, (of_cut h2).1, ← ih]
    simp [Parts.text]

theorem text_blocks (hstart : start ≠ []) (s : List α) :
    (blocks start stop s).text start stop = s :=
  ((blocks_eq_iff hstart).1 rfl).text_eq

/-! ## Replacing -/

theorem Scanned.fill (hstart : start ≠ []) (hstop : stop ≠ []) {f : List α → List α}
    {s : List α} {p : Parts α} (h : Scanned start stop s p)
    (hf : ∀ b ∈ p.bodies, Fresh stop (f b)) :
    Scanned start stop ((p.fill f).text start stop) (p.fill f) := by
  induction h with
  | done h => exact Scanned.done h
  | @block s a r b r' p h1 _ _ ih =>
    have htext : (Parts.fill ⟨(a, b) :: p.blocks, p.tail⟩ f).text start stop =
        a ++ (start ++ (f b ++ (stop ++ (p.fill f).text start stop))) := by
      simp [Parts.fill, Parts.text]
    rw [htext]
    refine Scanned.block (cut_append hstart (of_cut h1).2 _)
      (cut_append hstop (hf b List.mem_cons_self) _) (ih ?_)
    intro c hc
    exact hf c (List.mem_cons_of_mem _ hc)

/-- **The new text** has the same blocks with the new content. -/
theorem blocks_replace (hstart : start ≠ []) (hstop : stop ≠ []) {f : List α → List α}
    {s : List α} (hf : ∀ b ∈ (blocks start stop s).bodies, Fresh stop (f b)) :
    blocks start stop (replace start stop f s) = (blocks start stop s).fill f :=
  (blocks_eq_iff hstart).2 (((blocks_eq_iff hstart).1 rfl).fill hstart hstop hf)

omit [DecidableEq α] in
theorem Parts.outside_fill (p : Parts α) (f : List α → List α) :
    (p.fill f).outside = p.outside := by
  simp [Parts.fill, Parts.outside]

/-- **Again**: a content that does not depend on the old one is the same the second time. -/
theorem replace_replace (hstart : start ≠ []) (hstop : stop ≠ []) {body : List α}
    (hbody : Fresh stop body) (s : List α) :
    replace start stop (fun _ => body) (replace start stop (fun _ => body) s) =
      replace start stop (fun _ => body) s := by
  rw [replace, blocks_replace hstart hstop fun _ _ => hbody]
  simp [replace, Parts.fill, Parts.text, Function.comp_def]

/-! ## Where blocks are -/

/-- A text that begins with a block. -/
theorem blocks_append (hstart : start ≠ []) (hstop : stop ≠ []) {a b : List α}
    (ha : Fresh start a) (hb : Fresh stop b) (r : List α) :
    blocks start stop (a ++ (start ++ (b ++ (stop ++ r)))) =
      ⟨(a, b) :: (blocks start stop r).blocks, (blocks start stop r).tail⟩ :=
  (blocks_eq_iff hstart).2 (Scanned.block (cut_append hstart ha _) (cut_append hstop hb _)
    ((blocks_eq_iff hstart).1 rfl))

/-- The first block of a text. -/
theorem of_blocks_cons (hstart : start ≠ []) {s a b : List α} {bs : List (List α × List α)}
    (h : (blocks start stop s).blocks = (a, b) :: bs) :
    ∃ r, s = a ++ (start ++ (b ++ (stop ++ r))) ∧ Fresh start a ∧ Fresh stop b ∧
      blocks start stop s =
        ⟨(a, b) :: (blocks start stop r).blocks, (blocks start stop r).tail⟩ := by
  have hscan : Scanned start stop s (blocks start stop s) := (blocks_eq_iff hstart).1 rfl
  generalize hp : blocks start stop s = p at h hscan ⊢
  cases hscan with
  | done _ => cases h
  | block h1 h2 rest =>
    cases h
    obtain ⟨hs, ha⟩ := of_cut h1
    obtain ⟨hr, hb⟩ := of_cut h2
    rename_i r r' p
    refine ⟨r', by rw [hs, hr], ha, hb, ?_⟩
    rw [(blocks_eq_iff hstart).2 rest]

/-- **A text has a block** when the second sentinel stands after the first. -/
theorem blocks_eq_nil_iff (hstart : start ≠ []) (hstop : stop ≠ []) {s : List α} :
    (blocks start stop s).blocks = [] ↔ ∀ c d, s = c ++ (start ++ d) → ¬stop <:+: d := by
  have hscan : Scanned start stop s (blocks start stop s) := (blocks_eq_iff hstart).1 rfl
  generalize blocks start stop s = p at hscan ⊢
  cases hscan with
  | done h =>
    refine ⟨fun _ c d hs hin => ?_, fun _ => rfl⟩
    rcases h with h | ⟨a, r, h, h'⟩
    · exact (cut_eq_none hstart).1 h ⟨c, d, by rw [hs, List.append_assoc]⟩
    · obtain ⟨e, _, hr⟩ := cut_le h hs
      apply (cut_eq_none hstop).1 h'
      -- what comes after the first place has what comes after any place
      have hsuffix : d <:+ r := by
        rw [hr, ← List.append_assoc]
        have hle : start.length ≤ (e ++ start).length := by
          rw [List.length_append]
          omega
        exact ⟨(e ++ start).drop start.length, (List.drop_append_of_le_length hle).symm⟩
      exact hin.trans hsuffix.isInfix
  | block h1 h2 rest =>
    obtain ⟨hs, _⟩ := of_cut h1
    obtain ⟨hr, _⟩ := of_cut h2
    constructor
    · intro h
      cases h
    · intro h
      exact absurd ⟨_, _, by rw [hr, List.append_assoc]⟩ (h _ _ hs)

theorem blocks_eq_self (hstart : start ≠ []) {s : List α} (h : (blocks start stop s).blocks = []) :
    blocks start stop s = ⟨[], s⟩ := by
  have htext : (blocks start stop s).text start stop = s := text_blocks hstart s
  generalize blocks start stop s = p at h htext ⊢
  obtain ⟨bs, tail⟩ := p
  subst h
  exact congrArg _ htext

/-! ## Substituting -/

/-- The text with each block replaced, its sentinels included. -/
def substitute (start stop : List α) (g : List α → List α) (s : List α) : List α :=
  ((blocks start stop s).blocks.flatMap fun b => b.1 ++ g (start ++ (b.2 ++ stop))) ++
    (blocks start stop s).tail

/-- What keeps the sentinels replaces what stands between them. -/
theorem substitute_eq_replace {f g : List α → List α}
    (h : ∀ b, g (start ++ (b ++ stop)) = start ++ (f b ++ stop)) (s : List α) :
    substitute start stop g s = replace start stop f s := by
  unfold substitute replace Parts.text Parts.fill
  rw [List.flatMap_map]
  congr 1
  apply List.flatMap_congr
  intro b _
  rw [h]

/-- A text that begins with a block. -/
theorem substitute_append (hstart : start ≠ []) (hstop : stop ≠ []) {a b : List α}
    (ha : Fresh start a) (hb : Fresh stop b) (g : List α → List α) (r : List α) :
    substitute start stop g (a ++ (start ++ (b ++ (stop ++ r)))) =
      a ++ (g (start ++ (b ++ stop)) ++ substitute start stop g r) := by
  unfold substitute
  rw [blocks_append hstart hstop ha hb]
  simp

theorem substitute_eq_self (hstart : start ≠ []) {g : List α → List α} {s : List α}
    (h : (blocks start stop s).blocks = []) : substitute start stop g s = s := by
  unfold substitute
  rw [blocks_eq_self hstart h]
  rfl

/-- A text whose first block does not end. -/
theorem blocks_of_unclosed (hstart : start ≠ []) {a r : List α} (ha : Fresh start a)
    (hr : cut stop r = none) : blocks start stop (a ++ (start ++ r)) = ⟨[], a ++ (start ++ r)⟩ :=
  (blocks_eq_iff hstart).2 (Scanned.done (Or.inr ⟨a, r, cut_append hstart ha r, hr⟩))

/-- **A replacement that is longer** makes the text longer. -/
theorem length_substitute (hstart : start ≠ []) {g : List α → List α}
    (h : ∀ b, (start ++ (b ++ stop)).length < (g (start ++ (b ++ stop))).length) (s : List α) :
    s.length + (blocks start stop s).blocks.length ≤ (substitute start stop g s).length := by
  have hall : ∀ bs : List (List α × List α),
      (bs.flatMap fun b => b.1 ++ (start ++ (b.2 ++ stop))).length + bs.length ≤
        (bs.flatMap fun b => b.1 ++ g (start ++ (b.2 ++ stop))).length := by
    intro bs
    induction bs with
    | nil => exact Nat.le_refl _
    | cons b bs ih =>
      have hb := h b.2
      simp only [List.flatMap_cons, List.length_append, List.length_cons] at hb ih ⊢
      omega
  have hlen := hall (blocks start stop s).blocks
  have htext : ((blocks start stop s).text start stop).length = s.length :=
    congrArg List.length (text_blocks hstart s)
  unfold Parts.text at htext
  unfold substitute
  rw [List.length_append] at htext ⊢
  omega

end Sentinel
