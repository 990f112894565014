import DenBrowser.Browser.NewTabTiles

/-!
# The text of the tiles

The text between the markers goes through a replacement template, and later through a reader that
normalizes newlines.

* `inert_body` — it has an escape of the template only where a title or an address has one;
* `not_angle` — it has no angle bracket but those of the tiles;
* `universalNewlines_body` — newlines are normalized in the titles and addresses.
-/

set_option autoImplicit false

namespace DenBrowser.NewTab

open GeneratedBlock Sentinel HtmlFragment PyTemplate
open Lockdown (universalNewlines universalNewlines_cons)

/-! ## Escapes -/

/-- A part without a backslash has no escape, and ends none. -/
theorem inert_plain_append {a : Str} (ha : '\\' ∉ a) (b : Str) : Inert (a ++ b) ↔ Inert b := by
  induction a with
  | nil => rfl
  | cons c a ih =>
    rw [List.mem_cons, not_or] at ha
    rw [List.cons_append, Inert, ih ha.2]
    exact ⟨fun h => h.2, fun h => ⟨fun hc => absurd hc.symm ha.1, h⟩⟩

/-- The first character of an escaped text begins an escape if the one of the text does. -/
theorem active_head_escape (s : Str) :
    (∀ d ∈ (escape s).head?, ¬Active d) ↔ ∀ d ∈ s.head?, ¬Active d := by
  cases s with
  | nil => rfl
  | cons c s =>
    have hhead : ∀ r : Str, r ≠ [] → (r ++ escape s).head? = r.head? := by
      intro r hr
      rw [List.head?_append_of_ne_nil _ hr]
    rw [escape_cons]
    rcases reference_cases c with ⟨h, rfl⟩ | ⟨h, rfl⟩ | ⟨h, rfl⟩ | ⟨h, rfl⟩ | ⟨h, rfl⟩ | ⟨h, _⟩
    all_goals rw [h]
    · exact iff_of_true (by simp; decide) (by simp; decide)
    · exact iff_of_true (by simp; decide) (by simp; decide)
    · exact iff_of_true (by simp; decide) (by simp; decide)
    · exact iff_of_true (by simp; decide) (by simp; decide)
    · exact iff_of_true (by simp; decide) (by simp; decide)
    · simp

/-- **Escaping** makes no escape of the template, and hides none. -/
theorem inert_escape (s : Str) : Inert (escape s) ↔ Inert s := by
  induction s with
  | nil => rfl
  | cons c s ih =>
    rw [escape_cons]
    rcases reference_cases c with ⟨h, rfl⟩ | ⟨h, rfl⟩ | ⟨h, rfl⟩ | ⟨h, rfl⟩ | ⟨h, rfl⟩ | ⟨h, _⟩
    · rw [h, Option.getD_some, inert_plain_append (by decide), ih]
      exact (inert_plain_append (a := ['&']) (by decide) s).symm
    · rw [h, Option.getD_some, inert_plain_append (by decide), ih]
      exact (inert_plain_append (a := ['<']) (by decide) s).symm
    · rw [h, Option.getD_some, inert_plain_append (by decide), ih]
      exact (inert_plain_append (a := ['>']) (by decide) s).symm
    · rw [h, Option.getD_some, inert_plain_append (by decide), ih]
      exact (inert_plain_append (a := ['"']) (by decide) s).symm
    · rw [h, Option.getD_some, inert_plain_append (by decide), ih]
      exact (inert_plain_append (a := ['\'']) (by decide) s).symm
    · rw [h, Option.getD_none, List.singleton_append, Inert, Inert, ih, active_head_escape]

/-- An escaped text before a part that does not go on with an escape. -/
theorem inert_escape_append {s b : Str} (hb : ∀ d ∈ b.head?, ¬Active d) :
    Inert (escape s ++ b) ↔ Inert s ∧ Inert b := by
  rw [inert_append hb, inert_escape]

def Tile.Inert (t : Tile) : Prop :=
  PyTemplate.Inert t.href ∧ PyTemplate.Inert t.badge ∧ PyTemplate.Inert t.label

theorem inert_tile (t : Tile) (b : Str) : Inert (t.text ++ b) ↔ t.Inert ∧ Inert b := by
  unfold Tile.text Tile.Inert
  simp only [List.append_assoc]
  rw [inert_plain_append (by decide), inert_escape_append (by simp; decide),
    inert_plain_append (by decide), inert_plain_append (by decide),
    inert_escape_append (by simp; decide), inert_plain_append (by decide),
    inert_escape_append (by simp; decide), inert_plain_append (by decide)]
  simp only [and_assoc]

/-- **The text has escapes** only where a tile has. -/
theorem inert_body (tiles : List Tile) (b : Str) :
    Inert (body (tiles.map Tile.text) ++ b) ↔ (∀ t ∈ tiles, t.Inert) ∧ Inert b := by
  have hlines : ∀ ts : List Tile,
      Inert ((ts.map Cell.tile).flatMap (fun c => c.text ++ indent) ++ b) ↔
        (∀ t ∈ ts, t.Inert) ∧ Inert b := by
    intro ts
    induction ts with
    | nil => simp
    | cons t ts ih =>
      rw [List.map_cons, List.flatMap_cons, List.append_assoc, List.append_assoc]
      show Inert (t.text ++ _) ↔ _
      rw [inert_tile, inert_plain_append (by decide), ih, List.forall_mem_cons, and_assoc]
  rw [body_cells, List.append_assoc, inert_plain_append (by decide)]
  unfold cells
  by_cases h : tiles = []
  · subst h
    rw [if_pos rfl]
    simp only [List.flatMap_cons, List.flatMap_nil, List.append_assoc, List.nil_append]
    rw [show Cell.noShortcuts.text = noShortcuts from rfl, inert_plain_append (by decide),
      inert_plain_append (by decide)]
    simp
  · rw [if_neg h]
    exact hlines tiles

/-! ## Angle brackets -/

/-- A bracket and what comes after it are both in one part, when the first does not end with a
bracket. -/
theorem angle_append {x : Char} {a b : Str} (ha : a.getLast? ≠ some '<')
    (h : ['<', x] <:+: a ++ b) : ['<', x] <:+: a ∨ ['<', x] <:+: b := by
  obtain ⟨c, d, h⟩ := h
  rw [List.append_assoc] at h
  rcases List.append_eq_append_iff.1 h with ⟨a', rfl, h'⟩ | ⟨c', rfl, h'⟩
  · cases a' with
    | nil => exact Or.inr ⟨[], d, h'⟩
    | cons y a' =>
      have hcons : '<' :: x :: d = y :: (a' ++ b) := h'
      obtain ⟨rfl, hrest⟩ := List.cons.inj hcons
      cases a' with
      | nil => exact absurd (by simp) ha
      | cons z a' =>
        obtain ⟨rfl, _⟩ := List.cons.inj hrest
        exact Or.inl ⟨c, a', by simp⟩
  · exact Or.inr ⟨c', d, by rw [h', List.append_assoc]⟩

theorem angle_escape {x : Char} {s b : Str} (h : ['<', x] <:+: escape s ++ b) :
    ['<', x] <:+: b := by
  have hno := lt_not_mem_escape s
  have hlast : (escape s).getLast? ≠ some '<' := fun h => hno (List.mem_of_getLast? h)
  rcases angle_append hlast h with h | h
  · exact absurd (h.subset List.mem_cons_self) hno
  · exact h

/-- Before an angle bracket of a tile is nothing but these. -/
theorem not_angle_tile {x : Char} (hx : x = '!' ∨ x = '0') (t : Tile) {b : Str}
    (h : ['<', x] <:+: t.text ++ b) : ['<', x] <:+: b := by
  have hpart : ∀ {a r : Str}, a.getLast? ≠ some '<' → ¬['<', '!'] <:+: a → ¬['<', '0'] <:+: a →
      ['<', x] <:+: a ++ r → ['<', x] <:+: r := by
    intro a r hlast h1 h2 h
    rcases angle_append hlast h with h | h
    · rcases hx with rfl | rfl
      · exact absurd h h1
      · exact absurd h h2
    · exact h
  unfold Tile.text at h
  simp only [List.append_assoc] at h
  have h1 := angle_escape (hpart (by decide) (by decide) (by decide) h)
  have h2 := hpart (by decide) (by decide) (by decide)
    (hpart (by decide) (by decide) (by decide) h1)
  have h3 := angle_escape (hpart (by decide) (by decide) (by decide) (angle_escape h2))
  exact hpart (by decide) (by decide) (by decide) h3

/-- **The text has no bracket** but those of the tiles. -/
theorem not_angle {x : Char} (hx : x = '!' ∨ x = '0') (tiles : List Tile) :
    ¬['<', x] <:+: body (tiles.map Tile.text) := by
  have hindent : ∀ {b : Str}, ['<', x] <:+: indent ++ b → ['<', x] <:+: b := by
    intro b h
    rcases angle_append (by decide) h with h | h
    · exact absurd (h.subset List.mem_cons_self) (by decide)
    · exact h
  have hlines : ∀ ts : List Tile,
      ¬['<', x] <:+: (ts.map Cell.tile).flatMap fun c => c.text ++ indent := by
    intro ts
    induction ts with
    | nil => simp
    | cons t ts ih =>
      intro h
      rw [List.map_cons, List.flatMap_cons, List.append_assoc] at h
      exact ih (hindent (not_angle_tile hx t h))
  rw [body_cells]
  intro h
  have h := hindent h
  unfold cells at h
  split at h
  · have hno : ¬['<', x] <:+: noShortcuts ++ indent := by
      rcases hx with rfl | rfl <;> decide
    apply hno
    simpa [Cell.text] using h
  · exact hlines tiles h

/-- The second marker does not stand in the text. -/
theorem fresh_body (tiles : List Tile) : Fresh endMarker.text (body (tiles.map Tile.text)) := by
  rw [fresh_iff endMarker.ne_nil (by decide)]
  intro h
  have hbang : ['<', '!'] <:+: endMarker.text := ⟨[], "-- DEN_SHORTCUTS_END -->".toList, rfl⟩
  exact not_angle (Or.inl rfl) tiles (hbang.trans h)

/-! ## Newlines -/

/-- **Escaping** leaves newlines alone. -/
theorem universalNewlines_escape (s : Str) :
    universalNewlines (escape s) = escape (universalNewlines s) := by
  induction s using newlines_induction with
  | nil => rfl
  | crlf s ih =>
    have hescape : escape ('\r' :: '\n' :: s) = '\r' :: '\n' :: escape s := rfl
    rw [hescape, universalNewlines_crlf, universalNewlines_crlf, ih]
    rfl
  | cr s hs ih =>
    have hescape : escape ('\r' :: s) = '\r' :: escape s := rfl
    have hhead : (escape s).head? ≠ some '\n' := by
      cases s with
      | nil => exact hs
      | cons c s =>
        rw [escape_cons]
        rcases reference_cases c with ⟨h, _⟩ | ⟨h, _⟩ | ⟨h, _⟩ | ⟨h, _⟩ | ⟨h, _⟩ | ⟨h, _⟩
        all_goals rw [h]
        · simp
        · simp
        · simp
        · simp
        · simp
        · simpa using hs
    rw [hescape, universalNewlines_cr hs, universalNewlines_cr hhead, ih]
    rfl
  | other c s hc ih =>
    rw [universalNewlines_cons hc, escape_cons, escape_cons, ← ih]
    rcases reference_cases c with ⟨h, _⟩ | ⟨h, _⟩ | ⟨h, _⟩ | ⟨h, _⟩ | ⟨h, _⟩ | ⟨h, _⟩
    · rw [h, Option.getD_some, universalNewlines_append_of_not_mem (by decide)]
    · rw [h, Option.getD_some, universalNewlines_append_of_not_mem (by decide)]
    · rw [h, Option.getD_some, universalNewlines_append_of_not_mem (by decide)]
    · rw [h, Option.getD_some, universalNewlines_append_of_not_mem (by decide)]
    · rw [h, Option.getD_some, universalNewlines_append_of_not_mem (by decide)]
    · rw [h, Option.getD_none, universalNewlines_append_of_not_mem (by simpa using Ne.symm hc)]

/-- A tile with its newlines normalized. -/
def Tile.lines (t : Tile) : Tile :=
  ⟨universalNewlines t.href, universalNewlines t.badge, universalNewlines t.label⟩

theorem universalNewlines_tile (t : Tile) (b : Str) :
    universalNewlines (t.text ++ b) = t.lines.text ++ universalNewlines b := by
  have hescape : ∀ (s : Str) {r : Str}, r.head? ≠ some '\n' →
      universalNewlines (escape s ++ r) = escape (universalNewlines s) ++ universalNewlines r := by
    intro s r hr
    rw [universalNewlines_append hr, universalNewlines_escape]
  unfold Tile.text Tile.lines
  simp only [List.append_assoc]
  rw [universalNewlines_append_of_not_mem (by decide), hescape _ (by simp),
    universalNewlines_append_of_not_mem (by decide),
    universalNewlines_append_of_not_mem (by decide), hescape _ (by simp),
    universalNewlines_append_of_not_mem (by decide), hescape _ (by simp),
    universalNewlines_append_of_not_mem (by decide)]

/-- **Newlines are normalized** in the titles and addresses. -/
theorem universalNewlines_body (tiles : List Tile) :
    universalNewlines (body (tiles.map Tile.text)) =
      body ((tiles.map Tile.lines).map Tile.text) := by
  have hlines : ∀ ts : List Tile,
      universalNewlines ((ts.map Cell.tile).flatMap fun c => c.text ++ indent) =
        ((ts.map Tile.lines).map Cell.tile).flatMap fun c => c.text ++ indent := by
    intro ts
    induction ts with
    | nil => rfl
    | cons t ts ih =>
      rw [List.map_cons, List.flatMap_cons, List.append_assoc]
      show universalNewlines (t.text ++ _) = _
      rw [universalNewlines_tile, universalNewlines_append_of_not_mem (by decide), ih]
      simp [Cell.text]
  rw [body_cells, body_cells, universalNewlines_append_of_not_mem (by decide)]
  unfold cells
  by_cases h : tiles = []
  · subst h
    rw [if_pos rfl, List.map_nil, if_pos rfl, universalNewlines_eq_self.2 (by decide)]
  · rw [if_neg h, if_neg (by simpa using h), hlines]

end DenBrowser.NewTab
