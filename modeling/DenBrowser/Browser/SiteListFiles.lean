import DenBrowser.Browser.SiteListArrays

/-!
# Files with lists

A file has one block for its list, or two for two lists that are written one after the other.

* `declares_read` — the first block of a file that declares the list has the list's text;
* `file_iff` — a file with the blocks of one list.
-/

set_option autoImplicit false

namespace DenBrowser.SiteLists

open SiteConfig GeneratedBlock Sentinel Words Lockdown

/-- What is not in a block of the list. -/
def outside (n : SentinelName) (text : Str) : List Str :=
  (blocks n.start.text n.stop.text text).outside

/-- There is a block of the list, and each declares its array: the strings of the list, and a null
pointer. -/
structure Declares (n : SentinelName) (items : List Str) (text : Str) : Prop where
  ne_nil : (blocks n.start.text n.stop.text text).blocks ≠ []
  array : ∀ b ∈ (blocks n.start.text n.stop.text text).bodies,
    arrayIn n b = some (items.map some ++ [none])

/-! ## Sentinels -/

theorem fresh_start_iff (n : SentinelName) {a : Str} :
    Fresh n.start.text a ↔ ¬n.start.text <:+: a :=
  fresh_iff n.start.ne_nil (by cases n <;> decide)

theorem fresh_stop_iff (n : SentinelName) {a : Str} : Fresh n.stop.text a ↔ ¬n.stop.text <:+: a :=
  fresh_iff n.stop.ne_nil (by cases n <;> decide)

theorem distinct_start_stop (n k : SentinelName) : Distinct n.start.text k.stop.text := by
  cases n <;> cases k <;> exact ⟨by decide, by decide, by decide, by decide⟩

theorem distinct_start {n k : SentinelName} (h : n ≠ k) : Distinct n.start.text k.start.text := by
  cases n <;> cases k <;> first
    | exact absurd rfl h
    | exact ⟨by decide, by decide, by decide, by decide⟩

theorem distinct_stop {n k : SentinelName} (h : n ≠ k) : Distinct n.stop.text k.stop.text := by
  cases n <;> cases k <;> first
    | exact absurd rfl h
    | exact ⟨by decide, by decide, by decide, by decide⟩

/-! ## The first block -/

section

variable {n : SentinelName} {items : List Str} {ps qs : List PyTemplate.Piece}
  {text content a m t y r : Str}

/-- What a block's template writes begins with a new line. -/
theorem expand_newline (hrun : PyTemplate.run .text (body n items) = some (qs, .text)) (m : Str) :
    ∃ r, PyTemplate.expand qs m = '\n' :: r := by
  have hhead : ∃ rest, body n items = '\n' :: rest := ⟨(body n items).tail, rfl⟩
  obtain ⟨rest, hrest⟩ := hhead
  rw [hrest] at hrun
  obtain ⟨p, mode, rs, hstep, _, rfl⟩ := PyTemplate.run_cons_some hrun
  cases hstep
  exact ⟨PyTemplate.expand rs m, by rw [PyTemplate.expand_append]; rfl⟩

/-- **The first block of a file** that declares the list has the list's text. -/
theorem declares_read (hrun : PyTemplate.run .text (body n items) = some (qs, .text))
    (hexpand : PyTemplate.expand qs (n.start.text ++ m) = t) (ha : Fresh n.start.text a)
    (hdecl : Declares n items (a ++ (n.start.text ++ (t ++ (n.stop.text ++ y))))) :
    (∀ s ∈ items, Verbatim s) ∧ t = body n items ∧ Fresh n.stop.text (body n items) := by
  cases hcut : cut n.stop.text (t ++ (n.stop.text ++ y)) with
  | none =>
    have hin : n.stop.text <:+: t ++ (n.stop.text ++ y) := ⟨t, y, by rw [List.append_assoc]⟩
    exact absurd hin ((cut_eq_none n.stop.ne_nil).1 hcut)
  | some p =>
    obtain ⟨b, z⟩ := p
    obtain ⟨heq, hb⟩ := of_cut hcut
    have hbody : b ∈ (blocks n.start.text n.stop.text
        (a ++ (n.start.text ++ (t ++ (n.stop.text ++ y))))).bodies := by
      rw [heq, blocks_append n.start.ne_nil n.stop.ne_nil ha hb]
      exact List.mem_cons_self
    obtain ⟨hall, ht, _, _, hfresh⟩ := block_read hrun hexpand hcut (hdecl.array b hbody)
    exact ⟨hall, ht, hfresh⟩

/-- A block that leaves the list's template does not declare the list. -/
theorem declares_broken {q o : Str} (hrun : PyTemplate.run .text (body n items) = some (qs, .text))
    (hexpand : PyTemplate.expand qs (n.start.text ++ m) = q ++ o)
    (hleaves : q.getLast? = some '─' ∨ o.head? = some '\r') (ha : Fresh n.start.text a)
    (hdecl : Declares n items (a ++ (n.start.text ++ (q ++ '\n' :: r)))) : False := by
  cases hcut : cut n.stop.text (q ++ '\n' :: r) with
  | none =>
    apply hdecl.ne_nil
    rw [blocks_of_unclosed n.start.ne_nil ha hcut]
  | some c =>
    obtain ⟨b, z⟩ := c
    obtain ⟨heq, hb⟩ := of_cut hcut
    have hbody : b ∈ (blocks n.start.text n.stop.text
        (a ++ (n.start.text ++ (q ++ '\n' :: r)))).bodies := by
      rw [heq, blocks_append n.start.ne_nil n.stop.ne_nil ha hb]
      exact List.mem_cons_self
    exact broken_block hrun hexpand hleaves hcut (hdecl.array b hbody)

/-- **The first block of a file** that was read again declares the list only if it was written with
the list's text. -/
theorem declares_reread (hrun : PyTemplate.run .text (body n items) = some (qs, .text))
    (hexpand : PyTemplate.expand qs (n.start.text ++ m) = t) (ha : Fresh n.start.text a)
    (hdecl : Declares n items
      (a ++ (n.start.text ++ (universalNewlines t ++ (n.stop.text ++ y))))) :
    (∀ s ∈ items, Verbatim s) ∧ universalNewlines t = body n items ∧
      Fresh n.stop.text (body n items) := by
  by_cases hcr : '\r' ∈ t
  · obtain ⟨u, v, rfl, hu⟩ := List.eq_append_cons_of_mem hcr
    obtain ⟨w, hw⟩ := universalNewlines_break hu v
    rw [hw, List.append_assoc, List.cons_append] at hdecl
    exact (declares_broken hrun hexpand (Or.inr rfl) ha hdecl).elim
  · rw [universalNewlines_eq_self.2 hcr] at hdecl ⊢
    exact declares_read hrun hexpand ha hdecl

/-- Where a text that is read again has another sentinel, it has left the template. -/
theorem leaves_of_cut {k : SentinelName} {t x y : Str}
    (h : cut k.start.text (universalNewlines t) = some (x, y)) (s : Str) :
    ∃ q o r, t = q ++ o ∧ (q.getLast? = some '─' ∨ o.head? = some '\r') ∧
      x ++ (k.start.text ++ '\n' :: s) = q ++ '\n' :: r := by
  rw [cut_universalNewlines] at h
  obtain ⟨⟨x', y'⟩, hcut, heq⟩ := Option.map_eq_some_iff.1 h
  cases heq
  obtain ⟨ht, _⟩ := of_cut hcut
  by_cases hcr : '\r' ∈ x'
  · obtain ⟨u, v, rfl, hu⟩ := List.eq_append_cons_of_mem hcr
    obtain ⟨w, hw⟩ := universalNewlines_break hu v
    refine ⟨u, '\r' :: (v ++ (k.start.text ++ y')), w ++ (k.start.text ++ '\n' :: s), ?_,
      Or.inr rfl, ?_⟩
    · rw [ht]
      simp
    · rw [hw]
      simp
  · have hlast : k.start.text.getLast? = some '─' := by cases k <;> decide
    refine ⟨x' ++ k.start.text, y', s, ?_, Or.inl ?_, ?_⟩
    · rw [ht, List.append_assoc]
    · rw [List.getLast?_append_of_ne_nil _ k.start.ne_nil, hlast]
    · rw [universalNewlines_eq_self.2 hcr, List.append_assoc]

end

/-! ## The file that is written -/

/-- The file after the step for one list. -/
def injected (n : SentinelName) (ps : List PyTemplate.Piece) (content : Str) : Str :=
  substitute n.start.text n.stop.text (PyTemplate.expand ps) (universalNewlines content)

section

variable {repr : Json → Str} {n : SentinelName} {value : Json} {items : List Str}
  {ps : List PyTemplate.Piece} {content result : Str}

theorem inject_some (h : inject repr n value content = some result) :
    ∃ items ps, iterated repr value = some items ∧
      PyTemplate.parse (replacement n items) = some ps ∧ blockCount n.start n.stop content ≠ 0 ∧
      result = injected n ps content := by
  obtain ⟨items, hitems, h⟩ := Option.bind_eq_some_iff.1 h
  obtain ⟨ps, hps, h⟩ := Option.bind_eq_some_iff.1 h
  split at h
  · cases h
  · rename_i hcount
    cases h
    exact ⟨items, ps, hitems, hps, hcount, rfl⟩

theorem inject_eq (hitems : iterated repr value = some items)
    (hps : PyTemplate.parse (replacement n items) = some ps)
    (hcount : blockCount n.start n.stop content ≠ 0) :
    inject repr n value content = some (injected n ps content) := by
  unfold inject
  rw [hitems, Option.bind_some, hps, Option.bind_some, if_neg hcount]
  rfl

/-- Strings that can be written literally are written between the sentinels. -/
theorem injected_plain (hps : PyTemplate.parse (replacement n items) = some ps)
    (hall : ∀ s ∈ items, Verbatim s) (content : Str) :
    injected n ps content = writeBlocks n.start n.stop (fun _ => body n items) content := by
  obtain ⟨ps', hps', hexpand⟩ := expand_plain fun s hs => (hall s hs).not_mem (by decide)
  rw [hps] at hps'
  cases hps'
  exact substitute_eq_replace (fun b => hexpand _) _

/-- **A file with the blocks of one list** declares the list, and is as it was outside of them,
exactly when the list can be written into it. -/
theorem file_iff (hps : PyTemplate.parse (replacement n items) = some ps)
    (hcount : blockCount n.start n.stop content ≠ 0) :
    (Declares n items (injected n ps content) ∧
        outside n (injected n ps content) = outside n content) ↔
      (∀ s ∈ items, Verbatim s ∧ ¬n.stop.text <:+: s) ∧
        ∀ part ∈ outside n content, '\r' ∉ part := by
  have hstop : Fresh n.stop.text (body n items) ↔ ∀ s ∈ items, ¬n.stop.text <:+: s := by
    rw [fresh_stop_iff, (inItems_stop n).infix_body]
    simp
  constructor
  · rintro ⟨hdecl, houtside⟩
    have hread : (∀ s ∈ items, Verbatim s) ∧ Fresh n.stop.text (body n items) := by
      obtain ⟨qs, hrun, hexpand⟩ := expand_replacement hps
      unfold blockCount at hcount
      cases hblocks : (blocks n.start.text n.stop.text (universalNewlines content)).blocks with
      | nil =>
        rw [hblocks] at hcount
        exact absurd rfl hcount
      | cons b bs =>
        obtain ⟨a, b⟩ := b
        obtain ⟨r, htext, ha, hb, _⟩ := of_blocks_cons n.start.ne_nil hblocks
        have hwritten : injected n ps content = a ++ (n.start.text ++
            (PyTemplate.expand qs (n.start.text ++ (b ++ n.stop.text)) ++ (n.stop.text ++
              substitute n.start.text n.stop.text (PyTemplate.expand ps) r))) := by
          unfold injected
          rw [htext, substitute_append n.start.ne_nil n.stop.ne_nil ha hb, hexpand]
          simp
        rw [hwritten] at hdecl
        obtain ⟨hall, _, hfresh⟩ := declares_read hrun rfl ha hdecl
        exact ⟨hall, hfresh⟩
    obtain ⟨hall, hfresh⟩ := hread
    rw [injected_plain hps hall] at houtside
    refine ⟨fun s hs => ⟨hall s hs, hstop.1 hfresh s hs⟩, ?_⟩
    exact (outside_writeBlocks fun _ _ => hfresh).1 houtside
  · rintro ⟨hitems, hcr⟩
    have hall : ∀ s ∈ items, Verbatim s := fun s hs => (hitems s hs).1
    have hfresh := hstop.2 fun s hs => (hitems s hs).2
    rw [injected_plain hps hall]
    refine ⟨⟨?_, ?_⟩, (outside_writeBlocks fun _ _ => hfresh).2 hcr⟩
    · rw [blockCount_eq] at hcount
      rw [blocks_writeBlocks fun _ _ => hfresh]
      simpa [Parts.fill, Parts.map] using hcount
    intro b hb
    rw [blocks_writeBlocks fun _ _ => hfresh] at hb
    have hbody : b = body n items := by
      simp only [Parts.bodies, Parts.fill, List.map_map, List.mem_map, Function.comp_apply] at hb
      obtain ⟨_, _, rfl⟩ := hb
      rfl
    rw [hbody]
    exact arrayIn_body hall

/-- **Again**: the file with the list is written as it is. -/
theorem inject_again (hitems : iterated repr value = some items)
    (hps : PyTemplate.parse (replacement n items) = some ps)
    (hcount : blockCount n.start n.stop content ≠ 0)
    (hall : ∀ s ∈ items, Verbatim s ∧ ¬n.stop.text <:+: s) :
    inject repr n value (injected n ps content) = some (injected n ps content) := by
  have hverbatim : ∀ s ∈ items, Verbatim s := fun s hs => (hall s hs).1
  have hfresh : Fresh n.stop.text (body n items) := by
    rw [fresh_stop_iff, (inItems_stop n).infix_body]
    rintro ⟨s, hs, hin⟩
    exact (hall s hs).2 hin
  have hwritten := injected_plain hps hverbatim content
  have hcount' : blockCount n.start n.stop (injected n ps content) ≠ 0 := by
    rw [blockCount_eq] at hcount ⊢
    rw [hwritten, blocks_writeBlocks fun _ _ => hfresh]
    simpa [Parts.fill, Parts.map] using hcount
  rw [inject_eq hitems hps hcount', injected_plain hps hverbatim, hwritten,
    writeBlocks_writeBlocks hfresh]

end

end DenBrowser.SiteLists
