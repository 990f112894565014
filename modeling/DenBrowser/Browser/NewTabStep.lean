import DenBrowser.Browser.NewTabText

/-!
# The step for the new-tab page

A title and an address are escaped for HTML, but not for the template that they become a part of.

* `Faithful` — the page shows the bookmarks, and nothing else is changed;
* `step27_exact` — when it does.
-/

set_option autoImplicit false

namespace DenBrowser.NewTab

open SiteConfig GeneratedBlock Sentinel HtmlFragment PyTemplate
open Lockdown (isSpace strip rstrip universalNewlines)

/-! ## Bookmarks -/

/-- A bookmark with a title and an address that are strings. -/
structure Bookmark where
  title : JsonString
  url : JsonString

def bookmark (b : Json) : Option Bookmark :=
  match b with
  | .dict fields =>
    match lookup fields "title", lookup fields "url" with
    | some (.str title), some (.str url) => some ⟨title, url⟩
    | _, _ => none
  | _ => none

/-- The bookmarks of a configuration that has a list of them, or none. -/
def listed (config : Option Json) : Option (List Bookmark) :=
  match config with
  | none => some []
  | some (.dict fields) =>
    match (lookup fields "bookmarks").getD (.list []) with
    | .list items => items.mapM bookmark
    | _ => none
  | some _ => none

/-- The title is not empty, and the address is one of `http` or `https`. -/
structure Bookmark.Valid (b : Bookmark) : Prop where
  title : b.title ≠ .text []
  url : ∀ u, b.url = .text u → urlRe u = true

/-- The tile that is meant: the badge is the first character of the title that is not a space, in
upper case. -/
def shown (upper : Char → Str) (b : Bookmark) : Option Tile :=
  match b.title, b.url with
  | .text t, .text u => (t.find? fun c => !isSpace c).map fun c => ⟨u, upper c, t⟩
  | _, _ => none

/-- The page shows the tiles between its markers, as text and as HTML, and what is outside of them
stays. -/
structure Faithful (tiles : List Tile) (page result : Str) : Prop where
  ne_nil : (blocks startMarker.text endMarker.text result).blocks ≠ []
  text : ∀ b ∈ (blocks startMarker.text endMarker.text result).bodies,
    b = body (tiles.map Tile.text)
  html : ∀ b ∈ (blocks startMarker.text endMarker.text result).bodies,
    nodes (universalNewlines b) = some (pageNodes tiles)
  outside : (blocks startMarker.text endMarker.text result).outside =
    (blocks startMarker.text endMarker.text page).outside

/-- `str.upper` leaves a character as it is or makes letters of it. -/
def Uppercase (upper : Char → Str) : Prop :=
  ∀ c, upper c = [c] ∨ ∀ d ∈ upper c, d.isAlpha = true ∨ 128 ≤ d.toNat

/-- The text is the same after the template and after HTML. -/
structure Literal (s : Str) : Prop where
  inert : Inert s
  cr : '\r' ∉ s
  nul : nul ∉ s

/-- The title has a character for the badge, and both strings are shown as they are. -/
def Bookmark.Suits (b : Bookmark) : Prop :=
  ∃ t u, b.title = .text t ∧ b.url = .text u ∧ (∃ c ∈ t, isSpace c = false) ∧
    Literal t ∧ Literal u

/-! ## The tiles of bookmarks -/

/-- What is left of a text that begins with something else than a space begins with it. -/
theorem head_rstrip {c : Char} (hc : isSpace c = false) (s : Str) :
    (rstrip (c :: s)).head? = some c := by
  have hkept : ∀ r : Str, ∃ x, (r ++ [c]).dropWhile isSpace = x ++ [c] := by
    intro r
    induction r with
    | nil => exact ⟨[], by simp [hc]⟩
    | cons d r ih =>
      rw [List.cons_append, List.dropWhile_cons]
      split
      · exact ih
      · exact ⟨d :: r, rfl⟩
  obtain ⟨x, hx⟩ := hkept s.reverse
  unfold rstrip
  rw [List.reverse_cons, hx]
  simp

/-- **The badge's character** is the first of the title that is not a space. -/
theorem head_strip (t : Str) : (strip t).head? = t.find? fun c => !isSpace c := by
  unfold strip
  induction t with
  | nil => rfl
  | cons c t ih =>
    rw [List.dropWhile_cons, List.find?_cons]
    cases hc : isSpace c with
    | true => exact ih
    | false => exact head_rstrip hc t

section

variable {upper : Char → Str}

theorem tile_eq {j : Json} {b : Bookmark} (hj : bookmark j = some b) (hb : b.Valid) :
    tile upper j = (shown upper b).map Tile.text := by
  unfold bookmark at hj
  split at hj
  · rename_i fields
    split at hj
    · rename_i title url htitle hurl
      cases hj
      unfold tile shown
      dsimp only
      rw [htitle, hurl, Option.getD_some, Option.getD_some]
      cases title with
      | surrogate => cases url <;> simp
      | text t =>
        cases url with
        | surrogate => simp
        | text u =>
          have ht : t ≠ [] := fun h => hb.title (by rw [h])
          have hre := hb.url u rfl
          have hu : u ≠ [] := by
            rintro rfl
            cases hre
          have htrue : ∀ s : Str, s ≠ [] → (Json.str (.text s)).truthy = true := by
            intro s hs
            simp [Json.truthy, hs]
          rw [htrue t ht, htrue u hu]
          dsimp only
          rw [if_neg (by decide), if_pos hre, head_strip, Option.map_map]
          rfl
    · cases hj
  · cases hj

theorem tiles_eq {js : List Json} {bs : List Bookmark} (hjs : js.mapM bookmark = some bs)
    (hbs : ∀ b ∈ bs, b.Valid) :
    js.mapM (tile upper) = (bs.mapM (shown upper)).map (List.map Tile.text) := by
  induction js generalizing bs with
  | nil =>
    cases hjs
    rfl
  | cons j js ih =>
    rw [List.mapM_cons] at hjs
    obtain ⟨b, hj, hjs⟩ := Option.bind_eq_some_iff.1 hjs
    obtain ⟨bs', hrest, hjs⟩ := Option.bind_eq_some_iff.1 hjs
    cases hjs
    obtain ⟨hb, hbs⟩ := List.forall_mem_cons.1 hbs
    rw [List.mapM_cons, List.mapM_cons, tile_eq hj hb, ih hrest hbs]
    cases shown upper b with
    | none => rfl
    | some t =>
      cases bs'.mapM (shown upper) <;> rfl

/-- The bookmarks are what the step goes over. -/
theorem listed_eq {config : Option Json} {bs : List Bookmark} (h : listed config = some bs) :
    ∃ values, bookmarks config = some values ∧ values.mapM bookmark = some bs := by
  unfold listed at h
  split at h
  · cases h
    exact ⟨[], rfl, rfl⟩
  · rename_i fields
    split at h
    · rename_i items hitems
      refine ⟨items, ?_, h⟩
      unfold bookmarks
      dsimp only
      rw [hitems]
    · cases h
  · cases h

theorem exists_mapM {α β : Type} {f : α → Option β} {P : β → Prop} {l : List α} :
    (∃ ys, l.mapM f = some ys ∧ ∀ y ∈ ys, P y) ↔ ∀ x ∈ l, ∃ y, f x = some y ∧ P y := by
  induction l with
  | nil => exact ⟨fun _ x hx => (by cases hx), fun _ => ⟨[], rfl, fun y hy => (by cases hy)⟩⟩
  | cons x l ih =>
    rw [List.forall_mem_cons, ← ih]
    constructor
    · rintro ⟨ys, h, hys⟩
      rw [List.mapM_cons] at h
      obtain ⟨y, hx, h⟩ := Option.bind_eq_some_iff.1 h
      obtain ⟨ys', hl, h⟩ := Option.bind_eq_some_iff.1 h
      cases h
      obtain ⟨hy, hys⟩ := List.forall_mem_cons.1 hys
      exact ⟨⟨y, hx, hy⟩, ys', hl, hys⟩
    · rintro ⟨⟨y, hx, hy⟩, ys, hl, hys⟩
      refine ⟨y :: ys, ?_, List.forall_mem_cons.2 ⟨hy, hys⟩⟩
      rw [List.mapM_cons, hx, hl]
      rfl

/-- The tile has no escapes, and is read as it is. -/
def Tile.Kept (t : Tile) : Prop := t.Inert ∧ t.lines.seen = t

theorem literal_iff {s : Str} : Literal s ↔
    Inert s ∧ HtmlFragment.seen (universalNewlines s) = s := by
  constructor
  · intro h
    refine ⟨h.inert, ?_⟩
    rw [universalNewlines_eq_self.2 h.cr, seen_eq_self]
    exact h.nul
  · rintro ⟨hinert, hseen⟩
    have hcr : '\r' ∉ s := by
      rw [← hseen]
      exact fun h => cr_not_mem_universalNewlines s (List.mem_of_mem_filter h)
    rw [universalNewlines_eq_self.2 hcr, seen_eq_self] at hseen
    exact ⟨hinert, hcr, hseen⟩

theorem literal_iff_value {s : Str} : Literal s ↔
    Inert s ∧ seenValue (universalNewlines s) = s := by
  constructor
  · intro h
    refine ⟨h.inert, ?_⟩
    rw [universalNewlines_eq_self.2 h.cr, seenValue_eq_self]
    exact h.nul
  · rintro ⟨hinert, hseen⟩
    have hcr : '\r' ∉ s := by
      rw [← hseen]
      intro hmem
      obtain ⟨c, hc, heq⟩ := List.mem_map.1 hmem
      split at heq
      · exact absurd heq (by decide)
      · subst heq
        exact cr_not_mem_universalNewlines s hc
    rw [universalNewlines_eq_self.2 hcr, seenValue_eq_self] at hseen
    exact ⟨hinert, hcr, hseen⟩

theorem kept_iff {t : Tile} :
    t.Kept ↔ Literal t.href ∧ Literal t.badge ∧ Literal t.label := by
  obtain ⟨href, badge, label⟩ := t
  rw [literal_iff_value, literal_iff, literal_iff]
  unfold Tile.Kept Tile.Inert Tile.lines Tile.seen
  simp only [Tile.mk.injEq]
  tauto

/-- A badge is always shown as it is. -/
theorem literal_upper (hupper : Uppercase upper) {c : Char} (hspace : isSpace c = false)
    (hnul : c ≠ nul) : Literal (upper c) := by
  rcases hupper c with h | h
  · rw [h]
    refine ⟨⟨fun _ d hd => (by cases hd), trivial⟩, ?_, ?_⟩
    · rw [List.mem_singleton]
      rintro rfl
      cases hspace
    · rw [List.mem_singleton]
      exact hnul.symm
  · have hno : ∀ d : Char, d.isAlpha = false → d.toNat < 128 → d ∉ upper c := by
      intro d hd hlt hmem
      rcases h d hmem with h | h
      · rw [hd] at h
        cases h
      · omega
    exact ⟨inert_of_not_mem (hno _ (by decide) (by decide)), hno _ (by decide) (by decide),
      hno _ (by decide) (by decide)⟩

/-- **A bookmark suits** when it has a tile that is kept. -/
theorem suits_iff (hupper : Uppercase upper) (b : Bookmark) :
    (∃ t, shown upper b = some t ∧ t.Kept) ↔ b.Suits := by
  constructor
  · rintro ⟨tile, hshown, hkept⟩
    unfold shown at hshown
    split at hshown
    · rename_i t u ht hu
      obtain ⟨c, hfind, rfl⟩ := Option.map_eq_some_iff.1 hshown
      obtain ⟨hhref, _, hlabel⟩ := kept_iff.1 hkept
      have hc := List.find?_some hfind
      exact ⟨t, u, ht, hu, ⟨c, List.mem_of_find?_eq_some hfind, by simpa using hc⟩, hlabel, hhref⟩
    · cases hshown
  · rintro ⟨t, u, ht, hu, ⟨c, hc, hspace⟩, hlabel, hhref⟩
    have hsome : (t.find? fun c => !isSpace c).isSome = true :=
      List.find?_isSome.2 ⟨c, hc, by rw [hspace]; rfl⟩
    obtain ⟨d, hd⟩ := Option.isSome_iff_exists.1 hsome
    have hdspace : isSpace d = false := by
      have h := List.find?_some hd
      simpa using h
    have hdnul : d ≠ nul := by
      rintro rfl
      exact hlabel.nul (List.mem_of_find?_eq_some hd)
    refine ⟨⟨u, upper d, t⟩, ?_, kept_iff.2 ⟨hhref, literal_upper hupper hdspace hdnul, hlabel⟩⟩
    unfold shown
    rw [ht, hu]
    dsimp only
    rw [hd]
    rfl

end

/-! ## The page -/

theorem node_injective {t t' : Tile} (h : t.node = t'.node) : t = t' := by
  have hchars : ∀ {s s' : Str}, s.map Node.char = s'.map Node.char → s = s' :=
    fun h => List.map_injective_iff.2 (fun _ _ h => Node.char.inj h) h
  obtain ⟨href, badge, label⟩ := t
  obtain ⟨href', badge', label'⟩ := t'
  unfold Tile.node at h
  simp only [Node.element.injEq, List.cons.injEq, Prod.mk.injEq, true_and, and_true] at h
  obtain ⟨rfl, hbadge, hlabel⟩ := h
  rw [hchars hbadge, hchars hlabel]

/-- **The HTML of tiles** tells them apart. -/
theorem pageNodes_map {f : Tile → Tile} {tiles : List Tile} :
    pageNodes (tiles.map f) = pageNodes tiles ↔ ∀ t ∈ tiles, f t = t := by
  constructor
  · intro h
    by_cases hnil : tiles = []
    · simp [hnil]
    unfold pageNodes cells at h
    rw [if_neg (by simpa using hnil), if_neg hnil, List.append_cancel_left_eq, List.map_map,
      List.flatMap_map, List.flatMap_map] at h
    clear hnil
    induction tiles with
    | nil => simp
    | cons t ts ih =>
      rw [List.flatMap_cons, List.flatMap_cons, List.cons_append, List.cons_append,
        List.cons.injEq, List.append_cancel_left_eq] at h
      exact List.forall_mem_cons.2 ⟨node_injective h.1, ih h.2⟩
  · intro h
    have hself : tiles.map f = tiles := (List.map_congr_left h).trans (List.map_id tiles)
    rw [hself]

section

variable {tiles : List Tile} {page result : Str}

/-- **A page that shows the tiles** was written without escapes.  An escape is shorter than it is
written, and the match is not in the template, so that the text would be too short. -/
theorem inert_of_text (hcount : blockCount startMarker endMarker page ≠ 0)
    (hwrite : write (tiles.map Tile.text) page = some result)
    (htext : ∀ b ∈ (blocks startMarker.text endMarker.text result).bodies,
      b = body (tiles.map Tile.text)) : Inert (body (tiles.map Tile.text)) := by
  obtain ⟨ps, hps, hwrite⟩ := Option.bind_eq_some_iff.1 hwrite
  rw [if_neg hcount] at hwrite
  cases hwrite
  have hbody : body (tiles.map Tile.text) =
      (indent ++ (inner (tiles.map Tile.text) ++ ['\n'])) ++ "        ".toList := by
    unfold body
    rw [List.append_assoc, List.append_assoc]
    rfl
  have hshape : replacement (tiles.map Tile.text) = startMarker.text ++
      ((indent ++ inner (tiles.map Tile.text)) ++
        '\n' :: ("        ".toList ++ endMarker.text)) := by
    unfold replacement
    rw [hbody]
    simp
  rw [hshape] at hps
  obtain ⟨qs, hrun, rfl⟩ := parse_frame (by decide) (by decide) hps
  rw [List.append_assoc] at hrun
  -- the first block of the page that is written
  unfold blockCount at hcount
  cases hblocks : (blocks startMarker.text endMarker.text (universalNewlines page)).blocks with
  | nil =>
    rw [hblocks] at hcount
    exact absurd rfl hcount
  | cons p bs =>
    obtain ⟨a, b⟩ := p
    obtain ⟨r, hpage, ha, hb, _⟩ := of_blocks_cons startMarker.ne_nil hblocks
    rw [hpage, substitute_append startMarker.ne_nil endMarker.ne_nil ha hb, expand_append,
      expand_append, expand_chars, expand_chars] at htext
    generalize substitute startMarker.text endMarker.text _ r = rest at htext
    have hnotWhole : .whole ∉ qs := by
      intro hw
      have hin := infix_of_whole hrun hw
      apply not_angle (Or.inr rfl) tiles
      rw [hbody]
      exact hin.trans (List.prefix_append _ _).isInfix
    rw [expand_eq_charsOf hnotWhole] at htext
    cases hcut : cut endMarker.text ((charsOf qs ++ "        ".toList) ++
        (endMarker.text ++ rest)) with
    | none =>
      have hin : endMarker.text <:+: (charsOf qs ++ "        ".toList) ++
          (endMarker.text ++ rest) := ⟨charsOf qs ++ "        ".toList, rest, by simp⟩
      exact absurd hin ((cut_eq_none endMarker.ne_nil).1 hcut)
    | some c =>
      obtain ⟨t, z⟩ := c
      obtain ⟨heq, ht⟩ := of_cut hcut
      obtain ⟨e, he, _⟩ := cut_le hcut rfl
      have hmem : t ∈ (blocks startMarker.text endMarker.text (a ++ (startMarker.text ++
          (t ++ (endMarker.text ++ z))))).bodies := by
        rw [blocks_append startMarker.ne_nil endMarker.ne_nil ha ht]
        exact List.mem_cons_self
      rw [← heq] at hmem
      have htext' := htext t (by simpa using hmem)
      have hlength := run_length hrun
      have hlen := congrArg List.length he
      rw [htext', hbody] at hlen
      have hzero : pending .text = 0 := rfl
      simp only [List.length_append] at hlen hlength
      have hnil : e = [] := List.length_eq_zero_iff.1 (by omega)
      rw [hnil, List.append_nil, htext', hbody, List.append_cancel_right_eq] at he
      rw [hbody, inert_append (by simp; decide)]
      exact ⟨inert_of_run hrun he, by decide⟩

theorem inactive_endMarker : ∀ d ∈ endMarker.text.head?, ¬Active d := by
  have hcons : endMarker.text = '<' :: "!-- DEN_SHORTCUTS_END -->".toList := rfl
  rw [hcons]
  rintro d ⟨⟩
  decide

/-- Without escapes the text is written between the markers. -/
theorem write_inert (hinert : Inert (body (tiles.map Tile.text)))
    (hcount : blockCount startMarker endMarker page ≠ 0) :
    write (tiles.map Tile.text) page =
      some (writeBlocks startMarker endMarker (fun _ => body (tiles.map Tile.text)) page) := by
  have hall : Inert (replacement (tiles.map Tile.text)) := by
    unfold replacement
    rw [inert_plain_append (by decide), inert_append inactive_endMarker]
    exact ⟨hinert, by decide⟩
  have hlast : (replacement (tiles.map Tile.text)).getLast? ≠ some '\\' := by
    unfold replacement
    rw [List.getLast?_append_of_ne_nil _ (List.append_ne_nil_of_right_ne_nil _ endMarker.ne_nil),
      List.getLast?_append_of_ne_nil _ endMarker.ne_nil]
    decide
  unfold write
  rw [parse_inert hall hlast, Option.bind_some, if_neg hcount]
  exact congrArg some (substitute_eq_replace (fun _ => expand_chars _ _) _)

/-- **The page** shows the tiles, and nothing else is changed, exactly when the tiles are kept and
there is no carriage return outside of the markers. -/
theorem write_exact (hcount : blockCount startMarker endMarker page ≠ 0) :
    (∃ result, write (tiles.map Tile.text) page = some result ∧ Faithful tiles page result ∧
        write (tiles.map Tile.text) result = some result) ↔
      (∀ t ∈ tiles, t.Kept) ∧
        ∀ part ∈ (blocks startMarker.text endMarker.text page).outside, '\r' ∉ part := by
  have hfresh := fresh_body tiles
  have hread : nodes (universalNewlines (body (tiles.map Tile.text))) =
      some (pageNodes (tiles.map fun t => t.lines.seen)) := by
    rw [universalNewlines_body, nodes_body, List.map_map]
    rfl
  have hinert_iff : Inert (body (tiles.map Tile.text)) ↔ ∀ t ∈ tiles, t.Inert := by
    have h := inert_body tiles []
    rw [List.append_nil] at h
    rw [h]
    exact and_iff_left trivial
  constructor
  · rintro ⟨result, hwrite, hfaithful, _⟩
    have hinert := inert_of_text hcount hwrite hfaithful.text
    rw [write_inert hinert hcount] at hwrite
    cases hwrite
    refine ⟨fun t ht => ⟨hinert_iff.1 hinert t ht, ?_⟩,
      (outside_writeBlocks fun _ _ => hfresh).1 hfaithful.outside⟩
    obtain ⟨b, hb⟩ : ∃ b, b ∈ (blocks startMarker.text endMarker.text
        (writeBlocks startMarker endMarker (fun _ => body (tiles.map Tile.text)) page)).bodies := by
      obtain ⟨p, hp⟩ := List.exists_mem_of_ne_nil _ hfaithful.ne_nil
      exact ⟨p.2, List.mem_map_of_mem hp⟩
    have hhtml := hfaithful.html b hb
    rw [hfaithful.text b hb, hread] at hhtml
    exact pageNodes_map.1 (Option.some.inj hhtml) t ht
  · rintro ⟨hkept, hcr⟩
    have hinert := hinert_iff.2 fun t ht => (hkept t ht).1
    have hblocks : blocks startMarker.text endMarker.text
        (writeBlocks startMarker endMarker (fun _ => body (tiles.map Tile.text)) page) = _ :=
      blocks_writeBlocks fun _ _ => hfresh
    have htext : ∀ b ∈ (blocks startMarker.text endMarker.text (writeBlocks startMarker endMarker
        (fun _ => body (tiles.map Tile.text)) page)).bodies, b = body (tiles.map Tile.text) := by
      intro b hb
      rw [hblocks] at hb
      simp only [Parts.bodies, Parts.fill, List.map_map, List.mem_map, Function.comp_apply] at hb
      obtain ⟨_, _, rfl⟩ := hb
      rfl
    have hcount' : blockCount startMarker endMarker (writeBlocks startMarker endMarker
        (fun _ => body (tiles.map Tile.text)) page) ≠ 0 := by
      rw [blockCount_eq] at hcount ⊢
      rw [hblocks]
      simpa [Parts.fill, Parts.map] using hcount
    refine ⟨_, write_inert hinert hcount, ⟨?_, htext, ?_,
      (outside_writeBlocks fun _ _ => hfresh).2 hcr⟩, ?_⟩
    · rw [blockCount_eq] at hcount'
      exact fun h => hcount' (List.length_eq_zero_iff.2 h)
    · intro b hb
      rw [htext b hb, hread]
      exact congrArg some (pageNodes_map.2 fun t ht => (hkept t ht).2)
    · rw [write_inert hinert hcount', writeBlocks_writeBlocks hfresh]

end

/-- The step writes the tiles of the bookmarks. -/
theorem step27_eq {upper : Char → Str} {config : Option Json} {bs : List Bookmark}
    {tiles : List Tile} (hlisted : listed config = some bs) (hvalid : ∀ b ∈ bs, b.Valid)
    (htiles : bs.mapM (shown upper) = some tiles) (page : Str) :
    step27 upper config page = write (tiles.map Tile.text) page := by
  obtain ⟨values, hvalues, hmap⟩ := listed_eq hlisted
  unfold step27
  rw [hvalues, Option.bind_some, tiles_eq hmap hvalid, htiles]
  rfl

/-- **Step 2.7.**  For every list of bookmarks with titles and addresses and every page with the
markers: the step writes a page that shows the bookmarks, changes nothing outside of the markers,
and changes nothing the second time, exactly when each title has a character for the badge, no
backslash in a title or an address begins an escape of a template, none has a carriage return or a
null character, and the page has no carriage return outside of its markers. -/
theorem step27_exact {upper : Char → Str} (hupper : Uppercase upper) {config : Option Json}
    {bookmarks : List Bookmark} (hlisted : listed config = some bookmarks)
    (hvalid : ∀ b ∈ bookmarks, b.Valid) {page : Str}
    (hcount : blockCount startMarker endMarker page ≠ 0) :
    (∃ tiles result, bookmarks.mapM (shown upper) = some tiles ∧
        step27 upper config page = some result ∧ Faithful tiles page result ∧
        step27 upper config result = some result) ↔
      (∀ b ∈ bookmarks, b.Suits) ∧
        ∀ part ∈ (blocks startMarker.text endMarker.text page).outside, '\r' ∉ part := by
  have hsuits : (∀ b ∈ bookmarks, b.Suits) ↔
      ∃ tiles, bookmarks.mapM (shown upper) = some tiles ∧ ∀ t ∈ tiles, t.Kept := by
    rw [exists_mapM]
    exact forall₂_congr fun b _ => (suits_iff hupper b).symm
  rw [hsuits]
  constructor
  · rintro ⟨tiles, result, htiles, hwrite, hfaithful, hagain⟩
    rw [step27_eq hlisted hvalid htiles] at hwrite hagain
    obtain ⟨hkept, hcr⟩ := (write_exact hcount).1 ⟨result, hwrite, hfaithful, hagain⟩
    exact ⟨⟨tiles, htiles, hkept⟩, hcr⟩
  · rintro ⟨⟨tiles, htiles, hkept⟩, hcr⟩
    obtain ⟨result, hwrite, hfaithful, hagain⟩ := (write_exact hcount).2 ⟨hkept, hcr⟩
    refine ⟨tiles, result, htiles, ?_, hfaithful, ?_⟩
    · rw [step27_eq hlisted hvalid htiles, hwrite]
    · rw [step27_eq hlisted hvalid htiles, hagain]

/-- `str.upper` on one letter. -/
def upperD (c : Char) : Str := if c = 'd' then ['D'] else [c]

theorem uppercase_upperD : Uppercase upperD := by
  intro c
  unfold upperD
  split
  · exact Or.inr fun d hd => Or.inl (by rw [List.mem_singleton.1 hd]; rfl)
  · exact Or.inl rfl

/-- A configuration with one bookmark. -/
def oneBookmark (title : String) : Option Json :=
  some (.dict [(.text "bookmarks".toList, .list [.dict [
    (.text "title".toList, .str (.text title.toList)),
    (.text "url".toList, .str (.text "https://docs.example/".toList))]])])

/-- The part of the page with the markers, as patch 018 adds it. -/
def patchedPage : Str := startMarker.text ++ (body [] ++ (endMarker.text ++ ['\n']))

theorem blockCount_patchedPage : blockCount startMarker endMarker patchedPage ≠ 0 := by
  decide +kernel

theorem step27_exact_docs : ∃ tiles result,
    step27 upperD (oneBookmark "docs") patchedPage = some result ∧
      Faithful tiles patchedPage result := by
  have hlisted : listed (oneBookmark "docs") =
      some [⟨.text "docs".toList, .text "https://docs.example/".toList⟩] := rfl
  have hvalid : ∀ b ∈ [(⟨.text "docs".toList, .text "https://docs.example/".toList⟩ : Bookmark)],
      b.Valid := List.forall_mem_singleton.2 ⟨by decide, fun u hu => by cases hu; decide⟩
  have hsuits : ∀ b ∈ [(⟨.text "docs".toList, .text "https://docs.example/".toList⟩ : Bookmark)],
      b.Suits := List.forall_mem_singleton.2 ⟨_, _, rfl, rfl, ⟨'d', by decide, by decide⟩,
        ⟨by decide, by decide, by decide⟩, ⟨by decide, by decide, by decide⟩⟩
  obtain ⟨tiles, result, _, hstep, hfaithful, _⟩ :=
    (step27_exact uppercase_upperD hlisted hvalid blockCount_patchedPage).2
      ⟨hsuits, by decide +kernel⟩
  exact ⟨tiles, result, hstep, hfaithful⟩

/-- A title with a backslash before a letter ends the build. -/
theorem step27_backslash : ∃ b : Bookmark, listed (oneBookmark "AC\\DC") = some [b] ∧ b.Valid ∧
    blockCount startMarker endMarker patchedPage ≠ 0 ∧
    step27 upperD (oneBookmark "AC\\DC") patchedPage = none := by
  have hlisted : listed (oneBookmark "AC\\DC") =
      some [⟨.text "AC\\DC".toList, .text "https://docs.example/".toList⟩] := rfl
  have hvalid : (⟨.text "AC\\DC".toList, .text "https://docs.example/".toList⟩ :
      Bookmark).Valid := ⟨by decide, fun u hu => by cases hu; decide⟩
  have hparse : PyTemplate.parse (replacement [Tile.text ⟨"https://docs.example/".toList,
      "A".toList, "AC\\DC".toList⟩]) = none := by decide +kernel
  have hshown : [(⟨.text "AC\\DC".toList, .text "https://docs.example/".toList⟩ :
      Bookmark)].mapM (shown upperD) =
      some [⟨"https://docs.example/".toList, "A".toList, "AC\\DC".toList⟩] := by decide +kernel
  refine ⟨_, hlisted, hvalid, blockCount_patchedPage, ?_⟩
  rw [step27_eq hlisted (List.forall_mem_singleton.2 hvalid) hshown, write, List.map_singleton,
    hparse]
  rfl

end DenBrowser.NewTab
