import DenBrowser.Lib.Sentinel
import DenBrowser.Lockdown.LockPref

/-!
# Source files that the build writes a block of

`scripts/build.sh` opens a source file of the browser in Python's text mode, substitutes the text
between two sentinels and writes the file back with the newlines as they are.

* `blocks_universalNewlines` — text mode keeps the blocks of a file;
* `outside_writeBlocks` — what is not in a block is the same when it has no carriage return;
* `writeBlocks_writeBlocks` — doing it again changes nothing.
-/

set_option autoImplicit false

namespace DenBrowser.GeneratedBlock

open Lockdown Sentinel

/-- A comment that begins or ends a block. -/
structure Marker where
  text : Str
  ne_nil : text ≠ []
  oneLine : ∀ c ∈ text, c ≠ '\r' ∧ c ≠ '\n'

/-- The file read, each block's content replaced, and the file written. -/
def writeBlocks (start stop : Marker) (f : Str → Str) (source : Str) : Str :=
  replace start.text stop.text f (universalNewlines source)

/-- How many blocks are replaced. -/
def blockCount (start stop : Marker) (source : Str) : Nat :=
  (blocks start.text stop.text (universalNewlines source)).blocks.length

/-! ## Universal newlines -/

theorem universalNewlines_cr {s : Str} (h : s.head? ≠ some '\n') :
    universalNewlines ('\r' :: s) = '\n' :: universalNewlines s := by
  rw [universalNewlines.eq_def]
  dsimp only
  rw [if_pos rfl]
  cases s with
  | nil => rfl
  | cons d s =>
    have hd : d ≠ '\n' := by
      rintro rfl
      exact h rfl
    dsimp only
    rw [if_neg hd]

theorem universalNewlines_crlf (s : Str) :
    universalNewlines ('\r' :: '\n' :: s) = '\n' :: universalNewlines s := by
  rw [universalNewlines.eq_def]
  dsimp only
  rw [if_pos rfl, if_pos rfl]

/-- The text one newline or other character at a time. -/
theorem newlines_induction {P : Str → Prop} (nil : P [])
    (crlf : ∀ s, P s → P ('\r' :: '\n' :: s))
    (cr : ∀ s, s.head? ≠ some '\n' → P s → P ('\r' :: s))
    (other : ∀ c s, c ≠ '\r' → P s → P (c :: s)) : ∀ s, P s
  | [] => nil
  | c :: s => by
    by_cases hc : c = '\r'
    · subst hc
      match s with
      | [] => exact cr [] (by simp) nil
      | d :: t =>
        by_cases hd : d = '\n'
        · subst hd
          exact crlf t (newlines_induction nil crlf cr other t)
        · exact cr (d :: t) (by simpa using hd) (newlines_induction nil crlf cr other (d :: t))
    · exact other c s hc (newlines_induction nil crlf cr other s)

theorem universalNewlines_append {b : Str} (hb : b.head? ≠ some '\n') (a : Str) :
    universalNewlines (a ++ b) = universalNewlines a ++ universalNewlines b := by
  induction a using newlines_induction with
  | nil => rfl
  | crlf s ih =>
    rw [List.cons_append, List.cons_append, universalNewlines_crlf, universalNewlines_crlf, ih]
    rfl
  | cr s hs ih =>
    have hs' : (s ++ b).head? ≠ some '\n' := by
      cases s with
      | nil => exact hb
      | cons d s => exact hs
    rw [List.cons_append, universalNewlines_cr hs', universalNewlines_cr hs, ih]
    rfl
  | other c s hc ih =>
    rw [List.cons_append, universalNewlines_cons hc, universalNewlines_cons hc, ih]
    rfl

theorem cr_not_mem_universalNewlines (s : Str) : '\r' ∉ universalNewlines s := by
  induction s using newlines_induction with
  | nil => simp [universalNewlines]
  | crlf s ih =>
    rw [universalNewlines_crlf]
    simpa using ih
  | cr s hs ih =>
    rw [universalNewlines_cr hs]
    simpa using ih
  | other c s hc ih =>
    rw [universalNewlines_cons hc]
    simpa [ih] using fun h => hc h.symm

/-- The first carriage return of a text is read as a newline. -/
theorem universalNewlines_break {a : Str} (ha : '\r' ∉ a) (b : Str) :
    ∃ c, universalNewlines (a ++ '\r' :: b) = a ++ '\n' :: c := by
  induction a with
  | nil =>
    by_cases hb : b.head? = some '\n'
    · cases b with
      | nil => cases hb
      | cons d b =>
        cases hb
        exact ⟨_, universalNewlines_crlf b⟩
    · exact ⟨_, universalNewlines_cr hb⟩
  | cons c a ih =>
    rw [List.mem_cons, not_or] at ha
    obtain ⟨r, hr⟩ := ih ha.2
    refine ⟨r, ?_⟩
    rw [List.cons_append, universalNewlines_cons fun hc => ha.1 hc.symm, hr]
    rfl

theorem universalNewlines_eq_self {s : Str} : universalNewlines s = s ↔ '\r' ∉ s := by
  constructor
  · intro h
    rw [← h]
    exact cr_not_mem_universalNewlines s
  · intro h
    induction s with
    | nil => rfl
    | cons c s ih =>
      rw [List.mem_cons, not_or] at h
      rw [universalNewlines_cons fun hc => h.1 hc.symm, ih h.2]

/-! ## Blocks in text mode -/

theorem Marker.universalNewlines (m : Marker) : universalNewlines m.text = m.text :=
  universalNewlines_eq_self.2 fun h => (m.oneLine _ h).1 rfl

theorem Marker.head?_append (m : Marker) (s : Str) : (m.text ++ s).head? ≠ some '\n' := by
  cases h : m.text with
  | nil => exact absurd h m.ne_nil
  | cons c t =>
    intro hc
    exact (m.oneLine c (by rw [h]; exact List.mem_cons_self)).2 (Option.some.inj hc)

/-- A marker stands where it stood. -/
theorem isPrefixOf_universalNewlines {t : Str} (ht : ∀ c ∈ t, c ≠ '\r' ∧ c ≠ '\n') : ∀ s : Str,
    t.isPrefixOf (universalNewlines s) = t.isPrefixOf s := by
  induction t with
  | nil =>
    intro s
    rfl
  | cons c t ih =>
    intro s
    obtain ⟨hc, ht⟩ := List.forall_mem_cons.1 ht
    cases s with
    | nil => rfl
    | cons d s =>
      by_cases hd : d = '\r'
      · subst hd
        have hno : ∀ r : Str, (c :: t).isPrefixOf ('\n' :: r) = false := by
          intro r
          simp [List.isPrefixOf, hc.2]
        have hno' : (c :: t).isPrefixOf ('\r' :: s) = false := by
          simp [List.isPrefixOf, hc.1]
        rw [hno']
        by_cases hs : s.head? = some '\n'
        · cases s with
          | nil => cases hs
          | cons e s =>
            cases hs
            rw [universalNewlines_crlf, hno]
        · rw [universalNewlines_cr hs, hno]
      · rw [universalNewlines_cons hd, List.isPrefixOf, List.isPrefixOf, ih ht]

theorem universalNewlines_append_of_not_mem {a : Str} (ha : '\r' ∉ a) (b : Str) :
    universalNewlines (a ++ b) = a ++ universalNewlines b := by
  induction a with
  | nil => rfl
  | cons c a ih =>
    rw [List.mem_cons, not_or] at ha
    rw [List.cons_append, universalNewlines_cons fun hc => ha.1 hc.symm, ih ha.2]
    rfl

theorem Marker.not_isPrefixOf (m : Marker) {c : Char} (hc : c = '\r' ∨ c = '\n') (s : Str) :
    m.text.isPrefixOf (c :: s) = false := by
  cases h : m.text with
  | nil => exact absurd h m.ne_nil
  | cons d t =>
    have hd := m.oneLine d (by rw [h]; exact List.mem_cons_self)
    have hne : d ≠ c := by
      rintro rfl
      exact hc.elim hd.1 hd.2
    simp [List.isPrefixOf, hne]

theorem cut_newline (m : Marker) {c : Char} (hc : c = '\r' ∨ c = '\n') (s : Str) :
    cut m.text (c :: s) = (cut m.text s).map fun p => (c :: p.1, p.2) := by
  rw [cut, if_neg (by rw [m.not_isPrefixOf hc]; decide)]

theorem cut_universalNewlines (m : Marker) (s : Str) :
    cut m.text (universalNewlines s) =
      (cut m.text s).map fun p => (universalNewlines p.1, universalNewlines p.2) := by
  induction s using newlines_induction with
  | nil => rfl
  | crlf s ih =>
    rw [universalNewlines_crlf, cut_newline m (Or.inr rfl), cut_newline m (Or.inl rfl),
      cut_newline m (Or.inr rfl), ih]
    simp only [Option.map_map, Function.comp_def, universalNewlines_crlf]
  | cr s hs ih =>
    rw [universalNewlines_cr hs, cut_newline m (Or.inr rfl), cut_newline m (Or.inl rfl), ih]
    cases hcut : cut m.text s with
    | none => rfl
    | some p =>
      have hhead : p.1.head? ≠ some '\n' := by
        intro h
        apply hs
        rw [(of_cut hcut).1, List.head?_append, h]
        rfl
      simp only [Option.map_some, universalNewlines_cr hhead]
  | other c s hc ih =>
    have hsame := isPrefixOf_universalNewlines m.oneLine (c :: s)
    rw [universalNewlines_cons hc] at hsame ⊢
    rw [cut, cut, hsame]
    split
    · rename_i hp
      obtain ⟨r, hr⟩ := List.isPrefixOf_iff_prefix.1 hp
      have hnotMem : '\r' ∉ m.text := fun h => (m.oneLine _ h).1 rfl
      have hdrop := universalNewlines_append_of_not_mem hnotMem r
      rw [hr, universalNewlines_cons hc] at hdrop
      rw [hdrop, ← hr, List.drop_left, List.drop_left]
      rfl
    · rw [ih]
      simp only [Option.map_map, Function.comp_def, universalNewlines_cons hc]

theorem scanned_universalNewlines {start stop : Marker} {s : Str} {p : Parts Char}
    (h : Scanned start.text stop.text s p) :
    Scanned start.text stop.text (universalNewlines s) (p.map universalNewlines) := by
  induction h with
  | @done s h =>
    apply Scanned.done
    rw [cut_universalNewlines]
    rcases h with h | ⟨a, r, h, h'⟩
    · rw [h]
      exact Or.inl rfl
    · rw [h]
      refine Or.inr ⟨_, _, rfl, ?_⟩
      rw [cut_universalNewlines, h']
      rfl
  | @block s a r b r' p h1 h2 _ ih =>
    have hstart : cut start.text (universalNewlines s) =
        some (universalNewlines a, universalNewlines r) := by
      rw [cut_universalNewlines, h1]
      rfl
    have hstop : cut stop.text (universalNewlines r) =
        some (universalNewlines b, universalNewlines r') := by
      rw [cut_universalNewlines, h2]
      rfl
    exact Scanned.block hstart hstop ih

/-- **Text mode keeps the markers of a file.** -/
theorem Marker.infix_universalNewlines (m : Marker) {s : Str} :
    m.text <:+: Lockdown.universalNewlines s ↔ m.text <:+: s := by
  rw [← not_iff_not, ← cut_eq_none m.ne_nil, ← cut_eq_none m.ne_nil, cut_universalNewlines,
    Option.map_eq_none_iff]

theorem Marker.universalNewlines_append (m : Marker) (a b : Str) :
    Lockdown.universalNewlines (a ++ (m.text ++ b)) =
      Lockdown.universalNewlines a ++ (m.text ++ Lockdown.universalNewlines b) := by
  rw [GeneratedBlock.universalNewlines_append (m.head?_append b),
    universalNewlines_append_of_not_mem fun h => (m.oneLine _ h).1 rfl]

/-- **Text mode keeps the blocks of a file.** -/
theorem blocks_universalNewlines (start stop : Marker) (s : Str) :
    blocks start.text stop.text (universalNewlines s) =
      (blocks start.text stop.text s).map universalNewlines :=
  (blocks_eq_iff start.ne_nil).2
    (scanned_universalNewlines ((blocks_eq_iff start.ne_nil).1 rfl))

theorem blockCount_eq (start stop : Marker) (source : Str) :
    blockCount start stop source = (blocks start.text stop.text source).blocks.length := by
  unfold blockCount
  rw [blocks_universalNewlines]
  simp [Parts.map]

/-! ## The file that is written -/

section

variable {start stop : Marker} {f : Str → Str} {source : Str}

theorem blocks_writeBlocks
    (hf : ∀ b ∈ (blocks start.text stop.text (universalNewlines source)).bodies,
      Fresh stop.text (f b)) :
    blocks start.text stop.text (writeBlocks start stop f source) =
      ((blocks start.text stop.text source).map universalNewlines).fill f := by
  unfold writeBlocks
  rw [blocks_replace start.ne_nil stop.ne_nil hf, blocks_universalNewlines]

/-- **Outside of the blocks** the file is the same, when there is no carriage return there. -/
theorem outside_writeBlocks
    (hf : ∀ b ∈ (blocks start.text stop.text (universalNewlines source)).bodies,
      Fresh stop.text (f b)) :
    (blocks start.text stop.text (writeBlocks start stop f source)).outside =
        (blocks start.text stop.text source).outside ↔
      ∀ part ∈ (blocks start.text stop.text source).outside, '\r' ∉ part := by
  have hmap : ∀ p : Parts Char, (p.map universalNewlines).outside =
      p.outside.map universalNewlines := by
    intro p
    simp [Parts.map, Parts.outside]
  rw [blocks_writeBlocks hf, Parts.outside_fill, hmap]
  constructor
  · intro h part hpart
    rw [← h] at hpart
    obtain ⟨q, _, rfl⟩ := List.mem_map.1 hpart
    exact cr_not_mem_universalNewlines q
  · intro h
    calc (blocks start.text stop.text source).outside.map universalNewlines
        = (blocks start.text stop.text source).outside.map id :=
          List.map_congr_left fun part hpart => universalNewlines_eq_self.2 (h part hpart)
      _ = _ := List.map_id _

/-- **Again**: the second time nothing changes. -/
theorem writeBlocks_writeBlocks {body : Str} (hbody : Fresh stop.text body) (source : Str) :
    writeBlocks start stop (fun _ => body) (writeBlocks start stop (fun _ => body) source) =
      writeBlocks start stop (fun _ => body) source := by
  have hidem : ∀ s, universalNewlines (universalNewlines s) = universalNewlines s := fun s =>
    universalNewlines_eq_self.2 (cr_not_mem_universalNewlines s)
  have hblocks : blocks start.text stop.text (writeBlocks start stop (fun _ => body) source) =
      ((blocks start.text stop.text source).map universalNewlines).fill fun _ => body :=
    blocks_writeBlocks fun _ _ => hbody
  have htext : writeBlocks start stop (fun _ => body) source =
      (((blocks start.text stop.text source).map universalNewlines).fill
        fun _ => body).text start.text stop.text := by
    rw [← hblocks, text_blocks start.ne_nil]
  have hagain : writeBlocks start stop (fun _ => body)
      (writeBlocks start stop (fun _ => body) source) =
      (((blocks start.text stop.text (writeBlocks start stop (fun _ => body) source)).map
        universalNewlines).fill fun _ => body).text start.text stop.text := by
    rw [writeBlocks, replace, blocks_universalNewlines]
  rw [hagain, hblocks, htext]
  simp [Parts.map, Parts.fill, Parts.text, hidem, Function.comp_def]

end

end DenBrowser.GeneratedBlock
