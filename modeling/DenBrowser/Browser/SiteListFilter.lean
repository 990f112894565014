import DenBrowser.Browser.SiteListFiles

/-!
# The file with two lists

The site filter has a block for the whitelist and one for the blacklist, and the build writes first
the one and then the other.  What is in one block can be taken for a part of the other.

* `Clean` — two blocks that are found where they are;
* `substitute_first`, `substitute_second` — one of them replaced;
* `outside_first`, `outside_second` — what is outside of both.
-/

set_option autoImplicit false

namespace DenBrowser.SiteLists

open SiteConfig GeneratedBlock Sentinel Words Lockdown

/-! ## Two blocks -/

/-- A file with a block of `k` and then a block of `j`. -/
def two (k j : SentinelName) (a b m c z : Str) : Str :=
  a ++ (k.start.text ++ (b ++ (k.stop.text ++ (m ++ (j.start.text ++ (c ++ (j.stop.text ++ z)))))))

/-- The file up to the second block. -/
def upToSecond (k : SentinelName) (a b m : Str) : Str :=
  a ++ (k.start.text ++ (b ++ (k.stop.text ++ m)))

/-- No sentinel that begins a block stands in the part. -/
structure Quiet (k j : SentinelName) (part : Str) : Prop where
  first : ¬k.start.text <:+: part
  second : ¬j.start.text <:+: part

/-- None of the four sentinels stands in the part. -/
structure Free (k j : SentinelName) (part : Str) : Prop extends Quiet k j part where
  firstStop : ¬k.stop.text <:+: part
  secondStop : ¬j.stop.text <:+: part

/-- The parts of a file in which each of the four sentinels stands once. -/
structure Placed (k j : SentinelName) (a b m c z : Str) : Prop where
  ne : k ≠ j
  before : Free k j a
  first : Free k j b
  between : Free k j m
  second : Free k j c
  after : Free k j z

theorem free_of_not_mem {k j : SentinelName} {part : Str} (h : '─' ∉ part) : Free k j part :=
  ⟨⟨(inItems_start k).avoids h, (inItems_start j).avoids h⟩, (inItems_stop k).avoids h,
    (inItems_stop j).avoids h⟩

/-- What stands between the sentinels does not hide one of them. -/
structure Clean (k j : SentinelName) (a b m c z : Str) : Prop where
  ne : k ≠ j
  before : Quiet k j a
  between : Quiet k j m
  after : Quiet k j z
  afterStop : ¬k.stop.text <:+: z
  first : ¬k.stop.text <:+: b
  firstOther : ¬j.start.text <:+: b
  second : ¬j.stop.text <:+: c
  secondOther : ∀ x y, c = x ++ (k.start.text ++ y) → ¬k.stop.text <:+: y

theorem two_eq (k j : SentinelName) (a b m c z : Str) :
    two k j a b m c z = upToSecond k a b m ++ (j.start.text ++ (c ++ (j.stop.text ++ z))) := by
  simp [two, upToSecond]

section

variable {k j : SentinelName} {a b m c z : Str}

theorem universalNewlines_two (k j : SentinelName) (a b m c z : Str) :
    universalNewlines (two k j a b m c z) =
      two k j (universalNewlines a) (universalNewlines b) (universalNewlines m)
        (universalNewlines c) (universalNewlines z) := by
  unfold two
  rw [k.start.universalNewlines_append, k.stop.universalNewlines_append,
    j.start.universalNewlines_append, j.stop.universalNewlines_append]

theorem Free.universalNewlines {part : Str} (h : Free k j part) :
    Free k j (universalNewlines part) :=
  ⟨⟨fun hin => h.first (k.start.infix_universalNewlines.1 hin),
      fun hin => h.second (j.start.infix_universalNewlines.1 hin)⟩,
    fun hin => h.firstStop (k.stop.infix_universalNewlines.1 hin),
    fun hin => h.secondStop (j.stop.infix_universalNewlines.1 hin)⟩

theorem Placed.universalNewlines (h : Placed k j a b m c z) :
    Placed k j (universalNewlines a) (universalNewlines b) (universalNewlines m)
      (universalNewlines c) (universalNewlines z) :=
  ⟨h.ne, h.before.universalNewlines, h.first.universalNewlines, h.between.universalNewlines,
    h.second.universalNewlines, h.after.universalNewlines⟩

theorem Placed.clean (h : Placed k j a b m c z) : Clean k j a b m c z where
  ne := h.ne
  before := h.before.toQuiet
  between := h.between.toQuiet
  after := h.after.toQuiet
  afterStop := h.after.firstStop
  first := h.first.firstStop
  firstOther := h.first.second
  second := h.second.secondStop
  secondOther x y hc := (h.second.first ⟨x, y, by rw [hc, List.append_assoc]⟩).elim

/-- The first sentinel of the second block does not stand before it. -/
theorem not_infix_upToSecond (hne : k ≠ j) (ha : ¬j.start.text <:+: a) (hb : ¬j.start.text <:+: b)
    (hm : ¬j.start.text <:+: m) : ¬j.start.text <:+: upToSecond k a b m := by
  intro hin
  rcases infix_append (distinct_start hne.symm) hin with hin | hin
  · exact ha hin
  · rcases infix_append (distinct_start_stop j k) hin with hin | hin
    · exact hb hin
    · exact hm hin

/-- Where a block of `k` can begin after the first one. -/
theorem occurs_second (hne : k ≠ j) (hm : ¬k.start.text <:+: m) (hz : ¬k.start.text <:+: z)
    {x y : Str} (h : m ++ (j.start.text ++ (c ++ (j.stop.text ++ z))) = x ++ (k.start.text ++ y)) :
    ∃ p r, c = p ++ (k.start.text ++ r) ∧ x = m ++ (j.start.text ++ p) ∧
      y = r ++ (j.stop.text ++ z) := by
  rcases (distinct_start hne).occurs h with ⟨d, hm', _⟩ | ⟨p, hp, hx⟩
  · exact absurd ⟨x, d, by rw [hm', List.append_assoc]⟩ hm
  · rcases (distinct_start_stop k j).occurs hp with ⟨r, hc, hy⟩ | ⟨p', hz', _⟩
    · exact ⟨p, r, hc, hx, hy⟩
    · exact absurd ⟨p', y, by rw [hz', List.append_assoc]⟩ hz

namespace Clean

variable (h : Clean k j a b m c z)

include h

/-- After the first block there is none of its kind. -/
theorem blocks_rest : (blocks k.start.text k.stop.text
    (m ++ (j.start.text ++ (c ++ (j.stop.text ++ z))))).blocks = [] := by
  rw [blocks_eq_nil_iff k.start.ne_nil k.stop.ne_nil]
  intro x y heq hin
  obtain ⟨p, r, hc, _, rfl⟩ := occurs_second h.ne h.between.first h.after.first heq
  rcases infix_append (distinct_stop h.ne) hin with hin | hin
  · exact h.secondOther p r hc hin
  · exact h.afterStop hin

theorem fresh_upToSecond : Fresh j.start.text (upToSecond k a b m) :=
  (fresh_start_iff j).2
    (not_infix_upToSecond h.ne h.before.second h.firstOther h.between.second)

theorem blocks_first : blocks k.start.text k.stop.text (two k j a b m c z) =
    ⟨[(a, b)], m ++ (j.start.text ++ (c ++ (j.stop.text ++ z)))⟩ := by
  unfold two
  rw [blocks_append k.start.ne_nil k.stop.ne_nil ((fresh_start_iff k).2 h.before.first)
    ((fresh_stop_iff k).2 h.first), blocks_eq_self k.start.ne_nil h.blocks_rest]

theorem blocks_second : blocks j.start.text j.stop.text (two k j a b m c z) =
    ⟨[(upToSecond k a b m, c)], z⟩ := by
  have hz : (blocks j.start.text j.stop.text z).blocks = [] := by
    rw [blocks_eq_nil_iff j.start.ne_nil j.stop.ne_nil]
    intro x y heq _
    exact h.after.second ⟨x, y, by rw [heq, List.append_assoc]⟩
  rw [two_eq, blocks_append j.start.ne_nil j.stop.ne_nil h.fresh_upToSecond
    ((fresh_stop_iff j).2 h.second), blocks_eq_self j.start.ne_nil hz]

/-- The first block replaced. -/
theorem substitute_first (g : Str → Str) :
    substitute k.start.text k.stop.text g (two k j a b m c z) =
      a ++ (g (k.start.text ++ (b ++ k.stop.text)) ++
        (m ++ (j.start.text ++ (c ++ (j.stop.text ++ z))))) := by
  unfold two
  rw [substitute_append k.start.ne_nil k.stop.ne_nil ((fresh_start_iff k).2 h.before.first)
    ((fresh_stop_iff k).2 h.first), substitute_eq_self k.start.ne_nil h.blocks_rest]

/-- The second block replaced. -/
theorem substitute_second (g : Str → Str) :
    substitute j.start.text j.stop.text g (two k j a b m c z) =
      upToSecond k a b m ++ (g (j.start.text ++ (c ++ j.stop.text)) ++ z) := by
  have hz : (blocks j.start.text j.stop.text z).blocks = [] := by
    rw [blocks_eq_nil_iff j.start.ne_nil j.stop.ne_nil]
    intro x y heq _
    exact h.after.second ⟨x, y, by rw [heq, List.append_assoc]⟩
  rw [two_eq, substitute_append j.start.ne_nil j.stop.ne_nil h.fresh_upToSecond
    ((fresh_stop_iff j).2 h.second), substitute_eq_self j.start.ne_nil hz]

theorem blockCount_first : blockCount k.start k.stop (two k j a b m c z) ≠ 0 := by
  rw [blockCount_eq, h.blocks_first]
  exact Nat.one_ne_zero

theorem blockCount_second : blockCount j.start j.stop (two k j a b m c z) ≠ 0 := by
  rw [blockCount_eq, h.blocks_second]
  exact Nat.one_ne_zero

end Clean

end

/-! ## What is outside of both -/

/-- What is in no block of `n` and then in no block of `k`. -/
def outsideBoth (n k : SentinelName) (text : Str) : List Str :=
  (outside n text).flatMap (outside k)

/-- A part without a sentinel is outside. -/
theorem outside_eq_self {n : SentinelName} {text : Str}
    (h : (blocks n.start.text n.stop.text text).blocks = []) : outside n text = [text] := by
  unfold outside
  rw [blocks_eq_self n.start.ne_nil h]
  rfl

theorem blocks_of_avoids {n : SentinelName} {text : Str} (h : ¬n.start.text <:+: text) :
    (blocks n.start.text n.stop.text text).blocks = [] := by
  rw [blocks_eq_nil_iff n.start.ne_nil n.stop.ne_nil]
  intro x y heq _
  exact h ⟨x, y, by rw [heq, List.append_assoc]⟩

section

variable {k j : SentinelName} {a b m c z : Str}

/-- **What is outside** of the blocks, the blocks of `k` taken first. -/
theorem Clean.outside_first (h : Clean k j a b m c z) :
    outsideBoth k j (two k j a b m c z) = [a, m, z] := by
  have hrest : outside j (m ++ (j.start.text ++ (c ++ (j.stop.text ++ z)))) = [m, z] := by
    unfold outside
    rw [blocks_append j.start.ne_nil j.stop.ne_nil ((fresh_start_iff j).2 h.between.second)
      ((fresh_stop_iff j).2 h.second), blocks_eq_self j.start.ne_nil
        (blocks_of_avoids h.after.second)]
    rfl
  have houter : outside k (two k j a b m c z) =
      [a, m ++ (j.start.text ++ (c ++ (j.stop.text ++ z)))] := by
    unfold outside
    rw [h.blocks_first]
    rfl
  unfold outsideBoth
  rw [houter, List.flatMap_cons, List.flatMap_singleton,
    outside_eq_self (blocks_of_avoids h.before.second), hrest]
  rfl

/-- **What is outside** of the blocks, the blocks of `j` taken first. -/
theorem Clean.outside_second (h : Clean k j a b m c z) :
    outsideBoth j k (two k j a b m c z) = [a, m, z] := by
  have hfront : outside k (upToSecond k a b m) = [a, m] := by
    unfold outside upToSecond
    rw [blocks_append k.start.ne_nil k.stop.ne_nil ((fresh_start_iff k).2 h.before.first)
      ((fresh_stop_iff k).2 h.first), blocks_eq_self k.start.ne_nil
        (blocks_of_avoids h.between.first)]
    rfl
  have houter : outside j (two k j a b m c z) = [upToSecond k a b m, z] := by
    unfold outside
    rw [h.blocks_second]
    rfl
  unfold outsideBoth
  rw [houter, List.flatMap_cons, List.flatMap_singleton, hfront,
    outside_eq_self (blocks_of_avoids h.after.first)]
  rfl

end

end DenBrowser.SiteLists
