import Mathlib.Data.List.Forall2
import Mathlib.Tactic.Common

/-!
# Two ways to cut a text into lines

`chunks` cuts after each newline and keeps it, as `git` does; `splitLines` cuts at every character
of a class of line breaks, a carriage return with the newline after it being one break, and drops
the breaks, as `str.splitlines` does.

* `length_splitLines` — the second gives one line more for each stray break;
* `splitLines_related` — without one, the lines are the same but for a break at the end;
* `splitLines_newline` — a newline cuts the second way in two, `splitLines_same` — a line alone.
-/

set_option autoImplicit false

namespace Lines

/-! ## Lines that end in a newline -/

section Chunks

variable {α : Type} [DecidableEq α] (nl : α)

/-- The lines of a text, each with its newline; the last one may have none. -/
def chunks : List α → List (List α)
  | [] => []
  | c :: cs =>
    if c = nl then [c] :: chunks cs
    else
      match chunks cs with
      | [] => [[c]]
      | l :: ls => (c :: l) :: ls

/-- A line without its newline. -/
def content (l : List α) : List α := if l.getLast? = some nl then l.dropLast else l

theorem chunks_eq_nil {cs : List α} : chunks nl cs = [] ↔ cs = [] := by
  cases cs with
  | nil => simp [chunks]
  | cons c cs =>
    unfold chunks
    split
    · simp
    · split
      · simp
      · simp

theorem chunks_cons_ne {c : α} (hc : c ≠ nl) {cs l : List α} {ls : List (List α)}
    (h : chunks nl cs = l :: ls) : chunks nl (c :: cs) = (c :: l) :: ls := by
  unfold chunks
  rw [if_neg hc, h]

theorem flatten_chunks (cs : List α) : (chunks nl cs).flatten = cs := by
  induction cs with
  | nil => rfl
  | cons c cs ih =>
    unfold chunks
    split
    · rw [List.flatten_cons, ih]
      rfl
    · split
      · rename_i h
        rw [(chunks_eq_nil nl).1 h]
        rfl
      · rename_i l ls h
        rw [h] at ih
        rw [← ih]
        rfl

theorem chunks_ne_nil : ∀ {cs l : List α}, l ∈ chunks nl cs → l ≠ [] := by
  intro cs
  induction cs with
  | nil =>
    intro l h
    cases h
  | cons c cs ih =>
    intro l h
    unfold chunks at h
    split at h
    · rcases List.mem_cons.1 h with rfl | h
      · simp
      · exact ih h
    · split at h
      · rw [List.mem_singleton.1 h]
        simp
      · rename_i l' ls hls
        rcases List.mem_cons.1 h with rfl | h
        · simp
        · exact ih (by rw [hls]; exact List.mem_cons_of_mem _ h)

/-- A part without a newline is in the first line. -/
theorem chunks_append {u : List α} (hu : nl ∉ u) (cs : List α) :
    chunks nl (u ++ nl :: cs) = (u ++ [nl]) :: chunks nl cs := by
  induction u with
  | nil =>
    show chunks nl (nl :: cs) = [nl] :: chunks nl cs
    rw [chunks, if_pos rfl]
  | cons c u ih =>
    have hc : c ≠ nl := fun h => hu (h ▸ List.mem_cons_self)
    exact chunks_cons_ne nl hc (ih fun h => hu (List.mem_cons_of_mem _ h))

theorem chunks_of_not_mem {u : List α} (hu : nl ∉ u) (hne : u ≠ []) : chunks nl u = [u] := by
  induction u with
  | nil => exact absurd rfl hne
  | cons c u ih =>
    have hc : c ≠ nl := fun h => hu (h ▸ List.mem_cons_self)
    cases u with
    | nil =>
      unfold chunks
      rw [if_neg hc]
      rfl
    | cons d u => exact chunks_cons_ne nl hc (ih (fun h => hu (List.mem_cons_of_mem _ h)) (by simp))

theorem content_newline (u : List α) : content nl (u ++ [nl]) = u := by
  unfold content
  rw [List.getLast?_concat, if_pos rfl, List.dropLast_concat]

theorem content_of_not_mem {u : List α} (hu : nl ∉ u) : content nl u = u := by
  unfold content
  rw [if_neg]
  intro h
  exact hu (List.mem_of_getLast? h)

theorem content_cons_ne {c : α} {l : List α} (h : l ≠ []) :
    content nl (c :: l) = c :: content nl l := by
  unfold content
  rw [List.getLast?_cons_of_ne_nil h, List.dropLast_cons_of_ne_nil h]
  split
  · rfl
  · rfl

/-- The lines of a text one by one: after a newline it goes on. -/
theorem chunks_induction {P : List α → Prop} (nil : P [])
    (line : ∀ u cs, nl ∉ u → P cs → P (u ++ nl :: cs))
    (last : ∀ u, nl ∉ u → u ≠ [] → P u) (cs : List α) : P cs := by
  by_cases hmem : nl ∈ cs
  · obtain ⟨u, v, hcs, hu⟩ := List.eq_append_cons_of_mem hmem
    have hlt : v.length < cs.length := by
      rw [hcs]
      simp
      omega
    rw [hcs]
    exact line u v hu (chunks_induction nil line last v)
  · by_cases hne : cs = []
    · rw [hne]
      exact nil
    · exact last cs hmem hne
termination_by cs.length

end Chunks

/-! ## Lines that end in any break -/

section Breaks

variable (brk : Char → Bool)

/-- `cr` is whether the character before was a carriage return, whose break a newline is part
of. -/
def splitFrom : Bool → List Char → List (List Char)
  | _, [] => []
  | cr, c :: cs =>
    if c = '\n' ∧ cr = true then splitFrom false cs
    else if brk c then [] :: splitFrom (c == '\r') cs
    else
      match splitFrom false cs with
      | [] => [[c]]
      | l :: ls => (c :: l) :: ls

def splitLines (text : List Char) : List (List Char) := splitFrom brk false text

/-- The break `c` before `cs` ends no line of the first kind: it is not a newline, nor the
carriage return before one, nor the last character. -/
def Stray (c : Char) (cs : List Char) : Prop :=
  brk c = true ∧ c ≠ '\n' ∧ cs ≠ [] ∧ ¬(c = '\r' ∧ cs.head? = some '\n')

instance (c : Char) (cs : List Char) : Decidable (Stray brk c cs) := by
  unfold Stray
  infer_instance

/-- No break is a stray one. -/
def Clean (text : List Char) : Prop :=
  ∀ u c cs, text = u ++ c :: cs → ¬Stray brk c cs

/-- The number of stray breaks. -/
def strays : List Char → Nat
  | [] => 0
  | c :: cs => (if Stray brk c cs then 1 else 0) + strays cs

variable {brk}

theorem clean_cons {c : Char} {cs : List Char} :
    Clean brk (c :: cs) ↔ ¬Stray brk c cs ∧ Clean brk cs := by
  constructor
  · intro h
    refine ⟨h [] c cs rfl, ?_⟩
    rintro u d ds rfl
    exact h (c :: u) d ds rfl
  · rintro ⟨hc, hcs⟩ u d ds heq
    cases u with
    | nil =>
      cases heq
      exact hc
    | cons e u =>
      cases heq
      exact hcs u d ds rfl

theorem clean_nil : Clean brk [] := by
  intro u c cs h
  simp at h

theorem strays_eq_zero {text : List Char} : strays brk text = 0 ↔ Clean brk text := by
  induction text with
  | nil => exact ⟨fun _ => clean_nil, fun _ => rfl⟩
  | cons c cs ih =>
    rw [clean_cons, ← ih, strays]
    split
    · rename_i h
      simp [h]
    · rename_i h
      simp [h]

instance (text : List Char) : Decidable (Clean brk text) :=
  decidable_of_iff _ strays_eq_zero

theorem splitFrom_eq_nil {cs : List Char} : splitFrom brk false cs = [] ↔ cs = [] := by
  cases cs with
  | nil => simp [splitFrom]
  | cons c cs =>
    unfold splitFrom
    rw [if_neg (by simp)]
    split
    · simp
    · split
      · simp
      · simp

/-- After a carriage return only a newline is read differently. -/
theorem splitFrom_true {cs : List Char} (h : cs.head? ≠ some '\n') :
    splitFrom brk true cs = splitFrom brk false cs := by
  cases cs with
  | nil => rfl
  | cons c cs =>
    have hc : c ≠ '\n' := by
      rintro rfl
      exact h rfl
    simp [splitFrom, hc]

theorem splitFrom_newline_cons (hnl : brk '\n' = true) (cs : List Char) :
    splitFrom brk false ('\n' :: cs) = [] :: splitFrom brk false cs := by
  rw [splitFrom, if_neg (by simp), if_pos hnl]
  rfl

theorem splitFrom_break {c : Char} (hc : brk c = true) (cs : List Char) :
    splitFrom brk false (c :: cs) = [] :: splitFrom brk (c == '\r') cs := by
  rw [splitFrom, if_neg (by simp), if_pos hc]

theorem splitFrom_cons {c : Char} (hc : brk c = false) {cs l : List Char}
    {ls : List (List Char)} (h : splitFrom brk false cs = l :: ls) :
    splitFrom brk false (c :: cs) = (c :: l) :: ls := by
  rw [splitFrom, if_neg (by simp), hc, h]
  rfl

theorem length_chunks_cons (c : Char) (cs : List Char) :
    (chunks '\n' (c :: cs)).length =
      if c = '\n' ∨ cs = [] then 1 + (chunks '\n' cs).length else (chunks '\n' cs).length := by
  rw [chunks]
  split
  · rename_i hc
    rw [if_pos (Or.inl hc), List.length_cons, Nat.add_comm]
  · rename_i hc
    cases hcs : chunks '\n' cs with
    | nil =>
      rw [if_pos (Or.inr ((chunks_eq_nil _).1 hcs))]
      rfl
    | cons l ls =>
      rw [if_neg]
      · rfl
      · rintro (h | h)
        · exact hc h
        · rw [h] at hcs
          cases hcs

/-- **One line more for each stray break.** -/
theorem length_splitLines (hnl : brk '\n' = true) (text : List Char) :
    (splitLines brk text).length = (chunks '\n' text).length + strays brk text := by
  unfold splitLines
  induction text with
  | nil => rfl
  | cons c cs ih =>
    rw [length_chunks_cons, strays]
    by_cases hc : brk c = true
    · rw [splitFrom_break hc, List.length_cons]
      by_cases hnlc : c = '\n'
      · subst hnlc
        have hstray : ¬Stray brk '\n' cs := fun h => h.2.1 rfl
        have hcr' : ('\n' == '\r') = false := by decide
        rw [if_pos (Or.inl rfl), if_neg hstray, hcr', ih]
        omega
      · by_cases hnil : cs = []
        · subst hnil
          have hstray : ¬Stray brk c [] := fun h => h.2.2.1 rfl
          rw [if_pos (Or.inr rfl), if_neg hstray]
          rfl
        · rw [if_neg fun h => h.elim hnlc hnil]
          by_cases hpair : c = '\r' ∧ cs.head? = some '\n'
          · have hstray : ¬Stray brk c cs := fun h => h.2.2.2 hpair
            obtain ⟨rfl, hhead⟩ := hpair
            cases cs with
            | nil => exact absurd rfl hnil
            | cons d ds =>
              cases hhead
              rw [if_neg hstray]
              -- the newline is part of the break, where it would have been one of its own
              have hself : ('\r' == '\r') = true := by decide
              rw [splitFrom_newline_cons hnl, List.length_cons] at ih
              rw [hself, splitFrom, if_pos ⟨rfl, rfl⟩]
              omega
          · have hstray : Stray brk c cs := ⟨hc, hnlc, hnil, hpair⟩
            rw [if_pos hstray]
            have hsame : splitFrom brk (c == '\r') cs = splitFrom brk false cs := by
              by_cases hcr' : c = '\r'
              · have hself : (c == '\r') = true := by simpa using hcr'
                rw [hself]
                exact splitFrom_true fun h => hpair ⟨hcr', h⟩
              · have hself : (c == '\r') = false := by simpa using hcr'
                rw [hself]
            rw [hsame, ih]
            omega
    · have hc' : brk c = false := by simpa using hc
      have hnlc : c ≠ '\n' := by
        rintro rfl
        exact hc hnl
      have hstray : ¬Stray brk c cs := fun h => hc h.1
      rw [if_neg hstray]
      cases hsplit : splitFrom brk false cs with
      | nil =>
        have hnil := splitFrom_eq_nil.1 hsplit
        subst hnil
        rw [if_pos (Or.inr rfl), splitFrom, if_neg (by simp), hc']
        rfl
      | cons l ls =>
        have hnil : cs ≠ [] := by
          rintro rfl
          cases hsplit
        rw [if_neg fun h => h.elim hnlc hnil, splitFrom_cons hc' hsplit, List.length_cons]
        rw [hsplit, List.length_cons] at ih
        omega

/-! ## The lines of a clean text -/

/-- A line of the first kind and the line of the second kind that it is, with the break that the
second kind drops. -/
def Same (brk : Char → Bool) (l g : List Char) : Prop :=
  g = l ∨ ∃ c, brk c = true ∧ g = l ++ [c]

theorem Same.cons {l g : List Char} (h : Same brk l g) (c : Char) :
    Same brk (c :: l) (c :: g) := by
  rcases h with rfl | ⟨d, hd, rfl⟩
  · exact Or.inl rfl
  · exact Or.inr ⟨d, hd, rfl⟩

/-- What is not a break is kept. -/
theorem Same.of_append {a g l : List Char} (h : Same brk l (a ++ g))
    (ha : ∀ c ∈ a, brk c = false) : ∃ s, l = a ++ s := by
  rcases h with h | ⟨c, hc, h⟩
  · exact ⟨g, h.symm⟩
  · rcases List.eq_nil_or_concat g with rfl | ⟨g, d, rfl⟩
    · rw [List.append_nil] at h
      have hfree := ha c (by rw [h]; simp)
      rw [hc] at hfree
      cases hfree
    · rw [List.concat_eq_append, ← List.append_assoc] at h
      exact ⟨g, (List.append_inj_left' h rfl).symm⟩

/-- **Without a stray break the lines are the same.** -/
theorem splitLines_related (hnl : brk '\n' = true) {text : List Char} (h : Clean brk text) :
    List.Forall₂ (Same brk) (splitLines brk text)
      ((chunks '\n' text).map (content '\n')) := by
  unfold splitLines
  induction text with
  | nil => exact List.Forall₂.nil
  | cons c cs ih =>
    obtain ⟨hstray, hcs⟩ := clean_cons.1 h
    have ih := ih hcs
    by_cases hc : brk c = true
    · rw [splitFrom_break hc]
      by_cases hnlc : c = '\n'
      · subst hnlc
        have hcr : ('\n' == '\r') = false := by decide
        rw [hcr, chunks, if_pos rfl, List.map_cons]
        exact List.Forall₂.cons (Or.inl rfl) ih
      · have hend : cs = [] ∨ c = '\r' ∧ cs.head? = some '\n' := by
          by_contra hno
          push Not at hno
          exact hstray ⟨hc, hnlc, hno.1, fun hp => hno.2 hp.1 hp.2⟩
        rcases hend with rfl | ⟨rfl, hhead⟩
        · rw [chunks, if_neg hnlc]
          refine List.Forall₂.cons (Or.inr ⟨c, hc, ?_⟩) List.Forall₂.nil
          exact content_of_not_mem _ (by simpa using fun h => hnlc h.symm)
        · cases cs with
          | nil => cases hhead
          | cons d ds =>
            cases hhead
            rw [splitFrom_newline_cons hnl, chunks, if_pos rfl, List.map_cons] at ih
            have hself : ('\r' == '\r') = true := by decide
            have hline : chunks '\n' ('\r' :: '\n' :: ds) = ['\r', '\n'] :: chunks '\n' ds :=
              chunks_append '\n' (u := ['\r']) (by decide) ds
            rw [hself, splitFrom, if_pos ⟨rfl, rfl⟩, hline, List.map_cons]
            cases ih with
            | cons _ htail => exact List.Forall₂.cons (Or.inr ⟨'\r', hc, rfl⟩) htail
    · have hc' : brk c = false := by simpa using hc
      have hnlc : c ≠ '\n' := by
        rintro rfl
        exact hc hnl
      cases hsplit : splitFrom brk false cs with
      | nil =>
        have hnil := splitFrom_eq_nil.1 hsplit
        subst hnil
        rw [splitFrom, if_neg (by simp), hc', chunks, if_neg hnlc]
        refine List.Forall₂.cons (Or.inl ?_) List.Forall₂.nil
        exact content_of_not_mem _ (by simpa using fun h => hnlc h.symm)
      | cons l ls =>
        rw [splitFrom_cons hc' hsplit]
        rw [hsplit] at ih
        cases hchunks : chunks '\n' cs with
        | nil =>
          rw [hchunks] at ih
          cases ih
        | cons g gs =>
          rw [hchunks, List.map_cons] at ih
          have hg : g ≠ [] := chunks_ne_nil '\n' (by rw [hchunks]; exact List.mem_cons_self)
          rw [chunks_cons_ne '\n' hnlc hchunks, List.map_cons, content_cons_ne '\n' hg]
          cases ih with
          | cons hhead htail => exact List.Forall₂.cons (hhead.cons c) htail

/-! ## Texts put together -/

/-- **A newline cuts the text in two.** -/
theorem splitFrom_newline (hnl : brk '\n' = true) (b : List Char) : ∀ (a : List Char) (cr : Bool),
    splitFrom brk cr (a ++ '\n' :: b) = splitFrom brk cr (a ++ ['\n']) ++ splitFrom brk false b := by
  intro a
  induction a with
  | nil =>
    intro cr
    cases cr with
    | true => simp [splitFrom]
    | false => simp [splitFrom, hnl]
  | cons c a ih =>
    intro cr
    rw [List.cons_append, List.cons_append, splitFrom, splitFrom]
    split
    · exact ih false
    · split
      · rw [ih]
        rfl
      · rw [ih]
        cases hl : splitFrom brk false (a ++ ['\n']) with
        | nil =>
          have := splitFrom_eq_nil.1 hl
          simp at this
        | cons l ls => rfl

theorem splitLines_newline (hnl : brk '\n' = true) (a b : List Char) :
    splitLines brk (a ++ '\n' :: b) = splitLines brk (a ++ ['\n']) ++ splitLines brk b :=
  splitFrom_newline hnl b a false

/-- No line has a break in it. -/
theorem not_brk_of_mem : ∀ {text : List Char} {cr : Bool} {l : List Char},
    l ∈ splitFrom brk cr text → ∀ c ∈ l, brk c = false := by
  intro text
  induction text with
  | nil =>
    intro cr l h
    cases h
  | cons d ds ih =>
    intro cr l h
    rw [splitFrom] at h
    split at h
    · exact ih h
    · split at h
      · rcases List.mem_cons.1 h with rfl | h
        · simp
        · exact ih h
      · rename_i hd
        have hd' : brk d = false := by simpa using hd
        split at h
        · rw [List.mem_singleton.1 h]
          simpa using hd'
        · rename_i l' ls hls
          rcases List.mem_cons.1 h with rfl | h
          · intro c hc
            rcases List.mem_cons.1 hc with rfl | hc
            · exact hd'
            · exact ih (l := l') (by rw [hls]; exact List.mem_cons_self) c hc
          · exact ih (by rw [hls]; exact List.mem_cons_of_mem _ h)

theorem splitFrom_append {l : List Char} (hl : ∀ c ∈ l, brk c = false) {rest m : List Char}
    {ms : List (List Char)} (h : splitFrom brk false rest = m :: ms) :
    splitFrom brk false (l ++ rest) = (l ++ m) :: ms := by
  induction l with
  | nil => exact h
  | cons c l ih =>
    exact splitFrom_cons (hl c List.mem_cons_self) (ih fun d hd => hl d (List.mem_cons_of_mem _ hd))

/-- **A line with its newline:** one line of the second kind, and empty ones. -/
theorem splitLines_same (hnl : brk '\n' = true) {l g : List Char} (h : Same brk l g)
    (hl : ∀ c ∈ l, brk c = false) :
    ∃ rest, splitLines brk (g ++ ['\n']) = l :: rest ∧ ∀ r ∈ rest, r = [] := by
  unfold splitLines
  rcases h with rfl | ⟨c, hc, rfl⟩
  · refine ⟨[], ?_, by simp⟩
    have h := splitFrom_append hl (splitFrom_newline_cons hnl [])
    rw [List.append_nil] at h
    exact h
  · have hbreak := splitFrom_break hc ['\n']
    rw [List.append_assoc]
    have h := splitFrom_append hl hbreak
    rw [List.append_nil] at h
    refine ⟨_, h, ?_⟩
    cases hcr : c == '\r' with
    | true => simp [splitFrom]
    | false => simp [splitFrom, hnl]

/-! ## A break at the end only -/

/-- No character but the last is a break. -/
def EndBreak (brk : Char → Bool) (g : List Char) : Prop := ∀ c ∈ g.dropLast, brk c = false

theorem EndBreak.same {g : List Char} (h : EndBreak brk g) :
    ∃ l, Same brk l g ∧ ∀ c ∈ l, brk c = false := by
  rcases List.eq_nil_or_concat g with rfl | ⟨l, c, rfl⟩
  · exact ⟨[], Or.inl rfl, by simp⟩
  · unfold EndBreak at h
    rw [List.concat_eq_append, List.dropLast_concat] at h
    rw [List.concat_eq_append]
    cases hc : brk c with
    | true => exact ⟨l, Or.inr ⟨c, hc, rfl⟩, h⟩
    | false =>
      refine ⟨l ++ [c], Or.inl rfl, ?_⟩
      intro d hd
      rcases List.mem_append.1 hd with hd | hd
      · exact h d hd
      · rw [List.mem_singleton.1 hd]
        exact hc

theorem Same.endBreak {l g : List Char} (h : Same brk l g) (hl : ∀ c ∈ l, brk c = false) :
    EndBreak brk g := by
  rcases h with rfl | ⟨c, _, rfl⟩
  · intro d hd
    exact hl d ((List.dropLast_subset _ hd))
  · intro d hd
    rw [List.dropLast_concat] at hd
    exact hl d hd

/-- The lines of a clean text have a break at the end only. -/
theorem endBreak_of_clean (hnl : brk '\n' = true) {text : List Char} (h : Clean brk text)
    {g : List Char} (hg : g ∈ (chunks '\n' text).map (content '\n')) : EndBreak brk g := by
  have hrel := splitLines_related hnl h
  have hfree : ∀ l ∈ splitLines brk text, ∀ c ∈ l, brk c = false := fun l hl => not_brk_of_mem hl
  revert hg hrel hfree
  generalize splitLines brk text = lines, (chunks '\n' text).map (content '\n') = lines'
  intro hg hrel hfree
  induction hrel with
  | nil => cases hg
  | cons hsame _ ih =>
    rcases List.mem_cons.1 hg with rfl | hg
    · exact hsame.endBreak (hfree _ List.mem_cons_self)
    · exact ih hg fun l hl => hfree l (List.mem_cons_of_mem _ hl)

theorem mem_dropLast_append {a b : List Char} {c : Char} (h : c ∈ (a ++ b).dropLast) :
    c ∈ a ∨ c ∈ b.dropLast := by
  cases b with
  | nil =>
    rw [List.append_nil] at h
    exact Or.inl (List.dropLast_subset _ h)
  | cons d b =>
    rw [List.dropLast_append_of_ne_nil (by simp)] at h
    exact List.mem_append.1 h

theorem EndBreak.append {a b : List Char} (ha : ∀ c ∈ a, brk c = false) (hb : EndBreak brk b) :
    EndBreak brk (a ++ b) := by
  intro c hc
  rcases mem_dropLast_append hc with hc | hc
  · exact ha c hc
  · exact hb c hc

theorem EndBreak.of_append {a b : List Char} (h : EndBreak brk (a ++ b)) : EndBreak brk b := by
  intro c hc
  apply h
  cases b with
  | nil => cases hc
  | cons d b =>
    rw [List.dropLast_append_of_ne_nil (by simp)]
    exact List.mem_append_right a hc

theorem EndBreak.front {a b : List Char} (h : EndBreak brk (a ++ b)) (hb : b ≠ []) :
    ∀ c ∈ a, brk c = false := by
  intro c hc
  apply h
  rw [List.dropLast_append_of_ne_nil hb]
  exact List.mem_append_left _ hc

end Breaks

end Lines
