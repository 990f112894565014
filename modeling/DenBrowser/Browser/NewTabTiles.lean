import DenBrowser.Browser.GeneratedBlock
import DenBrowser.Browser.SiteConfig
import DenBrowser.Lib.HtmlFragment
import DenBrowser.Lib.PyTemplate

/-!
# The tiles of the new-tab page

Step 2.7 of `scripts/build.sh` writes a tile for each bookmark of `config/site-config.json` between
the markers of the new-tab page.

* `step27` — the step, from the configuration and the page to the page;
* `Cell` — what stands between the markers, as text and as HTML;
* `nodes_body` — the HTML of the text.
-/

set_option autoImplicit false

namespace DenBrowser.NewTab

open SiteConfig GeneratedBlock Sentinel HtmlFragment
open Lockdown (strip universalNewlines)

/-! ## Tiles -/

/-- A tile, as it is meant to be shown. -/
structure Tile where
  href : Str
  badge : Str
  label : Str
  deriving DecidableEq

def Tile.text (t : Tile) : Str :=
  "<a class=\"den-tile\" target=\"_self\" href=\"".toList ++ (escape t.href ++
    ("\">".toList ++ ("<span class=\"den-badge\">".toList ++ (escape t.badge ++
      ("</span><span class=\"den-label\">".toList ++ (escape t.label ++
        "</span></a>".toList))))))

/-- What a page without bookmarks shows. -/
def noShortcuts : Str := "<p class=\"den-empty\">No shortcuts configured.</p>".toList

/-- The line break before a tile, with the indentation of the page. -/
def indent : Str := "\n        ".toList

/-- The text between the line breaks that come after the first marker and before the second. -/
def inner (tiles : List Str) : Str :=
  if tiles = [] then noShortcuts else indent.intercalate tiles

def startMarker : Marker where
  text := "<!-- DEN_SHORTCUTS_START -->".toList
  ne_nil := by decide
  oneLine := forall_mem_of_all (by decide)

def endMarker : Marker where
  text := "<!-- DEN_SHORTCUTS_END -->".toList
  ne_nil := by decide
  oneLine := forall_mem_of_all (by decide)

/-- The text between the markers. -/
def body (tiles : List Str) : Str := indent ++ (inner tiles ++ indent)

def replacement (tiles : List Str) : Str :=
  startMarker.text ++ (body tiles ++ endMarker.text)

/-! ## The step -/

/-- A character of a pattern under `re.IGNORECASE`; the long s is a lower case of `S`. -/
def ignoreCase (p c : Char) : Bool := c = p || c = p.toUpper || (p = 's' && c = 'ſ')

/-- `re.match(r"^https?://", url, re.IGNORECASE)` -/
def urlRe (url : Str) : Bool :=
  match url with
  | h :: t :: t' :: p :: rest =>
    ignoreCase 'h' h && ignoreCase 't' t && ignoreCase 't' t' && ignoreCase 'p' p &&
      match rest with
      | ':' :: '/' :: '/' :: _ => true
      | s :: ':' :: '/' :: '/' :: _ => ignoreCase 's' s
      | _ => false
  | _ => false

section

variable (upper : Char → Str)

/-- The tile of an element of `bookmarks`; `none` ends the build, as half of a surrogate pair does
when the page is written.  `upper` is `str.upper` on one character, which can give more than one. -/
def tile (b : Json) : Option Str :=
  match b with
  | .dict fields =>
    let title := (lookup fields "title").getD .null
    let url := (lookup fields "url").getD .null
    if !title.truthy || !url.truthy then none
    else
      match url, title with
      | .str (.text u), .str (.text t) =>
        if urlRe u then (strip t).head?.map fun c => Tile.text ⟨u, upper c, t⟩ else none
      | _, _ => none
  | _ => none

/-- What `for b in bookmarks` goes over. -/
def bookmarks (config : Option Json) : Option (List Json) :=
  match config with
  | none => some []
  | some (.dict fields) =>
    match (lookup fields "bookmarks").getD (.list []) with
    | .list items => some items
    | .str (.text s) => some (s.map fun c => .str (.text [c]))
    | .str .surrogate => some [.str .surrogate]
    | .dict fields => some (fields.map fun f => .str f.1)
    | _ => none
  | some _ => none

/-- The page with the tiles between its markers; `none` ends the build. -/
def write (tiles : List Str) (page : Str) : Option Str :=
  (PyTemplate.parse (replacement tiles)).bind fun template =>
    if blockCount startMarker endMarker page = 0 then none
    else some (substitute startMarker.text endMarker.text (PyTemplate.expand template)
      (universalNewlines page))

def step27 (config : Option Json) (page : Str) : Option Str :=
  (bookmarks config).bind fun values =>
    (values.mapM (tile upper)).bind fun tiles => write tiles page

end

/-! ## What stands between the markers -/

/-- A tile, or what is shown when there is none. -/
inductive Cell
  | noShortcuts
  | tile (t : Tile)

def Cell.text : Cell → Str
  | .noShortcuts => NewTab.noShortcuts
  | .tile t => t.text

def cells (tiles : List Tile) : List Cell := if tiles = [] then [.noShortcuts] else tiles.map .tile

theorem intercalate_lines (sep : Str) : ∀ {xs : List Str}, xs ≠ [] →
    sep.intercalate xs ++ sep = xs.flatMap fun x => x ++ sep
  | [], h => absurd rfl h
  | [x], _ => by simp
  | x :: y :: xs, _ => by
    rw [List.intercalate_cons_cons, List.flatMap_cons, List.append_assoc,
      intercalate_lines sep (List.cons_ne_nil y xs), List.append_assoc]

/-- **The text between the markers** has a line for each cell. -/
theorem body_cells (tiles : List Tile) : body (tiles.map Tile.text) =
    indent ++ (cells tiles).flatMap fun c => c.text ++ indent := by
  unfold body inner cells
  by_cases h : tiles = []
  · subst h
    simp [Cell.text]
  · rw [if_neg (by simpa using h), if_neg h, intercalate_lines indent (by simpa using h)]
    simp [List.flatMap_map, Cell.text]

/-! ## As HTML -/

def Tile.node (t : Tile) : Node :=
  .element "a".toList [("class".toList, "den-tile".toList), ("target".toList, "_self".toList),
      ("href".toList, t.href)]
    [.element "span".toList [("class".toList, "den-badge".toList)] (t.badge.map .char),
      .element "span".toList [("class".toList, "den-label".toList)] (t.label.map .char)]

def Cell.node : Cell → Node
  | .noShortcuts =>
    .element "p".toList [("class".toList, "den-empty".toList)]
      ("No shortcuts configured.".toList.map .char)
  | .tile t => t.node

/-- The nodes between the markers: for each tile its element, and the line breaks. -/
def pageNodes (tiles : List Tile) : List Node :=
  indent.map .char ++ (cells tiles).flatMap fun c => c.node :: indent.map .char

/-- A tile as a browser reads it. -/
def Tile.seen (t : Tile) : Tile :=
  ⟨seenValue t.href, HtmlFragment.seen t.badge, HtmlFragment.seen t.label⟩

def Cell.seen : Cell → Cell
  | .noShortcuts => .noShortcuts
  | .tile t => .tile t.seen

def Tile.tokens (t : Tile) : List Token :=
  .start "a".toList [("class".toList, "den-tile".toList), ("target".toList, "_self".toList),
      ("href".toList, t.href)] ::
    .start "span".toList [("class".toList, "den-badge".toList)] ::
    (t.badge.map .char ++ .stop "span".toList ::
      .start "span".toList [("class".toList, "den-label".toList)] ::
      (t.label.map .char ++ [.stop "span".toList, .stop "a".toList]))

def Cell.tokens : Cell → List Token
  | .noShortcuts =>
    .start "p".toList [("class".toList, "den-empty".toList)] ::
      ("No shortcuts configured.".toList.map .char ++ [.stop "p".toList])
  | .tile t => t.tokens

theorem run_tile (t : Tile) : run .data t.text = some (t.seen.tokens, .data) := by
  have hopen : run .data "<a class=\"den-tile\" target=\"_self\" href=\"".toList =
      some ([], .value "a".toList [("class".toList, "den-tile".toList),
        ("target".toList, "_self".toList)] "href".toList []) := by decide +kernel
  have hbadge : run .data "<span class=\"den-badge\">".toList =
      some ([.start "span".toList [("class".toList, "den-badge".toList)]], .data) := by
    decide +kernel
  have hlabel : run .data "</span><span class=\"den-label\">".toList =
      some ([.stop "span".toList, .start "span".toList [("class".toList, "den-label".toList)]],
        .data) := by decide +kernel
  have hclose : run .data "</span></a>".toList =
      some ([.stop "span".toList, .stop "a".toList], .data) := by decide +kernel
  have hvalue := run_value "a".toList [("class".toList, "den-tile".toList),
    ("target".toList, "_self".toList)] "href".toList t.href []
  have hend := run_close "a".toList [("class".toList, "den-tile".toList),
    ("target".toList, "_self".toList)] "href".toList ([] ++ seenValue t.href)
  have hlabels := run_trans hlabel (run_trans (run_escape t.label) hclose)
  have hspans := run_trans hbadge (run_trans (run_escape t.badge) hlabels)
  have hall := run_trans hopen (run_trans hvalue (run_trans hend hspans))
  unfold Tile.text
  rw [hall]
  rfl

theorem run_cell (c : Cell) : run .data c.text = some (c.seen.tokens, .data) := by
  cases c with
  | noShortcuts =>
    show run .data noShortcuts = _
    decide +kernel
  | tile t => exact run_tile t

theorem run_indent : run .data indent = some (indent.map .char, .data) := by decide +kernel

/-- The tokens of the lines. -/
theorem run_cells (cs : List Cell) : run .data (cs.flatMap fun c => c.text ++ indent) =
    some (cs.flatMap fun c => c.seen.tokens ++ indent.map .char, .data) := by
  induction cs with
  | nil => rfl
  | cons c cs ih =>
    rw [List.flatMap_cons, List.flatMap_cons]
    exact run_trans (run_trans (run_cell c) run_indent) ih

theorem build_cell (c : Cell) (ns : List Node) (ts : List Token) :
    build [] ns (c.tokens ++ ts) = build [] (ns ++ [c.node]) ts := by
  cases c with
  | noShortcuts =>
    unfold Cell.tokens Cell.node
    dsimp only
    rw [List.cons_append, build_start (by decide), List.append_assoc, build_chars,
      List.singleton_append, build_stop, List.nil_append]
  | tile t =>
    unfold Cell.tokens Cell.node Tile.tokens Tile.node
    simp only [List.cons_append, List.append_assoc, List.nil_append]
    rw [build_start (by decide), build_start (opens_span _), build_chars, build_stop,
      build_start (opens_span _), build_chars, build_stop, build_stop]
    rfl

theorem build_cells (cs : List Cell) : ∀ (ns : List Node),
    build [] ns (cs.flatMap fun c => c.tokens ++ indent.map .char) =
      some (ns ++ cs.flatMap fun c => c.node :: indent.map .char) := by
  induction cs with
  | nil =>
    intro ns
    show some ns = _
    simp
  | cons c cs ih =>
    intro ns
    rw [List.flatMap_cons, List.append_assoc, build_cell, build_chars, ih, List.flatMap_cons]
    simp

/-- **The HTML of the text** between the markers. -/
theorem nodes_body (tiles : List Tile) :
    nodes (body (tiles.map Tile.text)) = some (pageNodes (tiles.map Tile.seen)) := by
  have hcells : (cells tiles).map Cell.seen = cells (tiles.map Tile.seen) := by
    unfold cells
    by_cases h : tiles = []
    · rw [h]
      rfl
    · rw [if_neg h, if_neg (by simpa using h), List.map_map, List.map_map]
      rfl
  unfold nodes
  rw [body_cells, tokens_eq (run_trans run_indent (run_cells _)), Option.bind_some, build_chars]
  have hflat : ((cells tiles).flatMap fun c => c.seen.tokens ++ indent.map Token.char) =
      (cells (tiles.map Tile.seen)).flatMap fun c => c.tokens ++ indent.map Token.char := by
    rw [← hcells, List.flatMap_map]
  rw [hflat, build_cells, pageNodes, List.nil_append]

end DenBrowser.NewTab
