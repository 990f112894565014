import DenBrowser.Lib.CString

/-!
# The public launch language

The Windows launcher reduces a `den:` link to the URL it wraps, then checks the command line.
Strings are read through pointers, and every function gives `none` when it reads past a
terminator.

* `isAllowedWebUrl_ptr` — which URLs the scanner accepts;
* `unwrapDenLinkArgument_ptr` — what unwrapping leaves in the argument vector;
* `launch_language` — the vectors the two functions accept, and what they leave;
* `launch_bracket` — an authority `[]]` is rejected, though it has a bracket after a character.
-/

set_option autoImplicit false

namespace DenBrowser

open CString

/-- `wchar_t`, on Windows. -/
abbrev WChar := UInt16

abbrev WPtr := Ptr WChar

/-- A NUL-terminated wide string. -/
abbrev WStr := Terminated (0 : WChar)

/-- `L'c'`. -/
def wchar (c : Char) : WChar := UInt16.ofNat c.toNat

/-- The characters of `L"s"`. -/
def wide (s : String) : List WChar := s.toList.map wchar

/-- The change of case of `_wcsicmp`. -/
def wlower (c : WChar) : WChar := if 65 ≤ c ∧ c ≤ 90 then c + 32 else c

/-- `wcscmp(p, q) == 0`. -/
def wcscmp (p q : WPtr) : Option Bool := same 0 id p q

/-- `_wcsicmp(p, q) == 0`. -/
def wcsicmp (p q : WPtr) : Option Bool := same 0 wlower p q

/-- `_wcsnicmp(p, q, n) == 0`. -/
def wcsnicmp (p q : WPtr) (n : Nat) : Option Bool := sameUpTo 0 wlower n p q

def HTTP : WStr := ⟨wide "http://", by decide⟩

def HTTPS : WStr := ⟨wide "https://", by decide⟩

def DEN : WStr := ⟨wide "den:", by decide⟩

def OSINT : WStr := ⟨wide "-osint", by decide⟩

def URL : WStr := ⟨wide "-url", by decide⟩

def CONTENTPROC : WStr := ⟨wide "contentproc", by decide⟩

def CONTENTPROC_FLAG : WStr := ⟨wide "-contentproc", by decide⟩

/-! ## The URL scanner -/

def kMaximumLaunchUrlLength : Nat := 8192

/-- The characters a URL must not contain. -/
def isBlocked (ch : WChar) : Bool :=
  ch ≤ 0x20 || ch == 0x7f || ch == wchar '"' || ch == wchar '<' || ch == wchar '>' ||
    ch == wchar '\\'

/-- The first loop of `IsAllowedWebUrl`: the length reached, or that a character is refused. -/
def lengthLoop : (p : WPtr) → (length : Nat) → Option (Option Nat)
  | [], _ => none
  | ch :: p, length =>
    if ch ≠ 0 ∧ length ≤ kMaximumLaunchUrlLength then
      if isBlocked ch then some none else lengthLoop p (length + 1)
    else some (some length)

/-- The scheme's length, when it is one of the two. -/
def schemeLength (p : WPtr) (length : Nat) : Option (Option Nat) :=
  match both (some (7 ≤ length)) (wcsnicmp p HTTP.ptr 7) with
  | none => none
  | some true => some (some 7)
  | some false =>
    match both (some (8 ≤ length)) (wcsnicmp p HTTPS.ptr 8) with
    | none => none
    | some true => some (some 8)
    | some false => some none

/-- A character the authority ends at. -/
def isDelimiter (c : WChar) : Bool := c == wchar '/' || c == wchar '?' || c == wchar '#'

/-- The second loop: the authority's length, or that it has an `@`. -/
def authorityLoop : (p : WPtr) → (n : Nat) → Option (Option Nat)
  | [], _ => none
  | c :: p, n =>
    if c = 0 ∨ isDelimiter c then some (some n)
    else if c = wchar '@' then some none
    else authorityLoop p (n + 1)

/-- The last loop: how far the closing bracket, or the end of the authority, is.  `left` is the
distance from the pointer to the end. -/
def bracketLoop : (p : WPtr) → (left pos : Nat) → Option Nat
  | _, 0, pos => some pos
  | [], _ + 1, _ => none
  | c :: p, left + 1, pos => if c = wchar ']' then some pos else bracketLoop p left (pos + 1)

/-- The checks on the authority. -/
def isAllowedAuthority (authority : WPtr) : Option Bool :=
  match authorityLoop authority 0 with
  | none => none
  | some none => some false
  | some (some n) =>
    if n = 0 then some false
    else
      match authority[0]? with
      | none => none
      | some c =>
        if c = wchar ':' then some false
        else if c = wchar '[' then
          match bracketLoop (authority.drop 1) (n - 1) 1 with
          | none => none
          | some pos => some (pos ≠ n ∧ pos ≠ 1)
        else some true

/-- `IsAllowedWebUrl`. -/
def isAllowedWebUrl (value : Option WPtr) : Option Bool :=
  match value with
  | none => some false
  | some p =>
    match lengthLoop p 0 with
    | none => none
    | some none => some false
    | some (some length) =>
      if length = 0 ∨ kMaximumLaunchUrlLength < length then some false
      else
        match schemeLength p length with
        | none => none
        | some none => some false
        | some (some n) => isAllowedAuthority (p.drop n)

/-! ## The command line -/

/-- `UnwrapDenLinkUrl`. -/
def unwrapDenLinkUrl (value : Option WPtr) : Option (Option WPtr) :=
  match value with
  | none => some none
  | some p =>
    match wcsnicmp p DEN.ptr 4 with
    | none => none
    | some false => some none
    | some true =>
      let inner := p.drop 4
      match both (inner[0]?.map fun c => c == wchar '/')
          (inner[1]?.map fun c => c == wchar '/') with
      | none => none
      | some true => some (some (inner.drop 2))
      | some false => some (some inner)

/-- `UnwrapDenLinkArgument`; a null pointer is `none`. -/
def unwrapDenLinkArgument (argv : List (Option WPtr)) : Option (List (Option WPtr)) :=
  let argc := argv.length
  if argc < 4 then some argv
  else
    match argv[argc - 3]?.join, argv[argc - 2]?.join with
    | some osint, some url =>
      match both (wcscmp osint OSINT.ptr) (wcscmp url URL.ptr) with
      | none => none
      | some false => some argv
      | some true =>
        match unwrapDenLinkUrl argv[argc - 1]?.join with
        | none => none
        | some none => some argv
        | some (some inner) => some (argv.set (argc - 1) (some inner))
    | _, _ => some argv

/-- `IsAllowedBrowserCommandLine`. -/
def isAllowedBrowserCommandLine (argv : List (Option WPtr)) : Option Bool :=
  match argv with
  | [some _] => some true
  | [some _, some osint, some url, some u] =>
    both (both (wcscmp osint OSINT.ptr) (wcscmp url URL.ptr)) (isAllowedWebUrl (some u))
  | _ => some false

/-- The two functions in turn: what is left in the argument vector, and whether it is allowed. -/
def launch (argv : List (Option WPtr)) : Option (List (Option WPtr) × Bool) :=
  match unwrapDenLinkArgument argv with
  | none => none
  | some argv => (isAllowedBrowserCommandLine argv).map fun ok => (argv, ok)

/-- `IsContentProcessFlag`. -/
def isContentProcessFlag (arg : Option WPtr) : Option Bool :=
  match arg with
  | none => some false
  | some p =>
    match p[0]? with
    | none => none
    | some c =>
      if c = wchar '/' then wcsicmp (p.drop 1) CONTENTPROC.ptr
      else if c = wchar '-' then
        match p[1]? with
        | none => none
        | some d => wcsicmp (p.drop (if d = wchar '-' then 2 else 1)) CONTENTPROC.ptr
      else some false

/-- The loop of `HasContentProcessFlag`. -/
def anyContentProcessFlag : List (Option WPtr) → Option Bool
  | [] => some false
  | arg :: args =>
    match isContentProcessFlag arg with
    | none => none
    | some true => some true
    | some false => anyContentProcessFlag args

/-- `HasContentProcessFlag`. -/
def hasContentProcessFlag (argv : List (Option WPtr)) : Option Bool :=
  anyContentProcessFlag (argv.drop 1)

/-- `IsCanonicalContentProcessCommandLine`. -/
def isCanonicalContentProcessCommandLine (argv : List (Option WPtr)) : Option Bool :=
  if argv.length < 4 then some false
  else
    match argv[1]?.join with
    | none => some false
    | some flag => both (wcscmp flag CONTENTPROC_FLAG.ptr)
        ((anyContentProcessFlag (argv.drop 2)).map fun found => !found)

/-! ## What the scanner accepts -/

/-- The string starts with the other, up to case. -/
abbrev StartsWith (s lit : WStr) : Prop :=
  (s.chars.take lit.chars.length).map wlower = lit.chars.map wlower

/-- The authority at the start of a list of characters. -/
def authorityOf (cs : List WChar) : List WChar := cs.takeWhile fun c => !isDelimiter c

/-- After an opening bracket: a closing bracket after at least one character, and no bracket
before it. -/
def ClosedFirst (cs : List WChar) : Prop :=
  ∃ inner tail, cs = inner ++ wchar ']' :: tail ∧ inner ≠ [] ∧ wchar ']' ∉ inner

/-- The same, of some closing bracket. -/
def ClosedLater (cs : List WChar) : Prop :=
  ∃ inner tail, cs = inner ++ wchar ']' :: tail ∧ inner ≠ []

/-- An authority of the launch language. -/
structure Authority (closed : List WChar → Prop) (a : List WChar) : Prop where
  nonempty : a ≠ []
  noUserinfo : wchar '@' ∉ a
  noColon : a.head? ≠ some (wchar ':')
  bracket : a.head? = some (wchar '[') → closed a.tail

/-- A URL of the launch language. -/
structure WebUrl (closed : List WChar → Prop) (u : List WChar) : Prop where
  length : 1 ≤ u.length ∧ u.length ≤ 8192
  clean : ∀ c ∈ u, isBlocked c = false
  scheme : ∃ scheme rest, u = scheme ++ rest ∧
    (scheme.map wlower = HTTP.chars ∨ scheme.map wlower = HTTPS.chars) ∧
    Authority closed (authorityOf rest)

theorem wlower_zero (c : WChar) (h : wlower c = wlower 0) : c = 0 := by
  have hzero : wlower 0 = 0 := by decide
  rw [hzero] at h
  unfold wlower at h
  split at h
  · rename_i hc
    have h1 := UInt16.le_iff_toNat_le.1 hc.1
    have h2 := UInt16.le_iff_toNat_le.1 hc.2
    have hsum := congrArg UInt16.toNat h
    rw [UInt16.toNat_add] at hsum
    have h32 : (32 : UInt16).toNat = 32 := rfl
    have h65 : (65 : UInt16).toNat = 65 := rfl
    have h90 : (90 : UInt16).toNat = 90 := rfl
    have h0 : (0 : UInt16).toNat = 0 := rfl
    omega
  · exact h

theorem wcsnicmp_ptr (s lit : WStr) :
    Decides (wcsnicmp s.ptr lit.ptr lit.chars.length) (StartsWith s lit) :=
  sameUpTo_ptr wlower_zero s lit

theorem wcsicmp_ptr (s t : WStr) :
    Decides (wcsicmp s.ptr t.ptr) (s.chars.map wlower = t.chars.map wlower) :=
  same_ptr wlower_zero s t

theorem wcscmp_ptr (s t : WStr) : Decides (wcscmp s.ptr t.ptr) (s = t) := by
  have h := same_ptr (f := id) (fun _ h => h) s t
  rw [List.map_id, List.map_id] at h
  exact h.congr ⟨Terminated.ext, congrArg _⟩

/-- What follows a lowercase literal that a string starts with. -/
theorem StartsWith.split {s lit : WStr} (hlit : lit.chars.map wlower = lit.chars)
    (h : StartsWith s lit) : ∃ pre, s.chars = pre ++ s.chars.drop lit.chars.length ∧
      pre.map wlower = lit.chars :=
  ⟨_, (List.take_append_drop lit.chars.length s.chars).symm, h.trans hlit⟩

theorem startsWith_append {s : WStr} (lit : WStr) {pre rest : List WChar}
    (hlit : lit.chars.map wlower = lit.chars) (hs : s.chars = pre ++ rest)
    (hpre : pre.map wlower = lit.chars) :
    StartsWith s lit ∧ s.chars.drop lit.chars.length = rest := by
  have hlen : pre.length = lit.chars.length := by
    rw [← hpre, List.length_map]
  unfold StartsWith
  rw [hs, List.take_left' hlen, List.drop_left' hlen, hlit]
  exact ⟨hpre, rfl⟩

theorem StartsWith.length_le {s lit : WStr} (h : StartsWith s lit) :
    lit.chars.length ≤ s.chars.length := by
  have := congrArg List.length h
  rw [List.length_map, List.length_map, List.length_take] at this
  omega

/-- The length loop reaches the end of a string within the limit exactly when no character is
refused. -/
theorem lengthLoop_ptr : ∀ (cs : List WChar) (n : Nat), 0 ∉ cs → n ≤ kMaximumLaunchUrlLength + 1 →
    ∃ r, lengthLoop (cs ++ [0]) n = some r ∧ ∀ m ≤ kMaximumLaunchUrlLength,
      r = some m ↔ m = n + cs.length ∧ ∀ c ∈ cs, isBlocked c = false := by
  intro cs
  induction cs with
  | nil =>
    intro n _ _
    refine ⟨some n, by simp [lengthLoop], ?_⟩
    intro m _
    simp only [Option.some.injEq, List.length_nil, Nat.add_zero, List.not_mem_nil, false_imp_iff,
      implies_true, and_true]
    exact eq_comm
  | cons c cs ih =>
    intro n hcs hn
    rw [List.mem_cons, not_or] at hcs
    rw [List.cons_append]
    unfold lengthLoop
    by_cases hlim : n ≤ kMaximumLaunchUrlLength
    · rw [if_pos ⟨Ne.symm hcs.1, hlim⟩]
      by_cases hblocked : isBlocked c = true
      · rw [if_pos hblocked]
        refine ⟨none, rfl, fun m _ => ?_⟩
        simp [hblocked]
      · rw [if_neg hblocked]
        obtain ⟨r, hr, hiff⟩ := ih (n + 1) hcs.2 (by omega)
        refine ⟨r, hr, fun m hm => ?_⟩
        rw [hiff m hm, List.length_cons, List.forall_mem_cons]
        have hlen : n + 1 + cs.length = n + (cs.length + 1) := by omega
        rw [hlen]
        simp [hblocked]
    · rw [if_neg fun h => hlim h.2]
      refine ⟨some n, rfl, fun m hm => ?_⟩
      rw [Option.some.injEq, List.length_cons]
      constructor
      · rintro rfl
        exact absurd hm hlim
      · rintro ⟨rfl, _⟩
        omega

theorem authorityLoop_ptr : ∀ (cs : List WChar) (n : Nat), 0 ∉ cs →
    authorityLoop (cs ++ [0]) n =
      some (if wchar '@' ∈ authorityOf cs then none else some (n + (authorityOf cs).length)) := by
  intro cs
  induction cs with
  | nil =>
    intro n _
    simp [authorityLoop, authorityOf]
  | cons c cs ih =>
    intro n hcs
    rw [List.mem_cons, not_or] at hcs
    rw [List.cons_append]
    unfold authorityLoop
    by_cases hdelim : isDelimiter c = true
    · rw [if_pos (Or.inr hdelim)]
      simp [authorityOf, hdelim]
    · have hof : authorityOf (c :: cs) = c :: authorityOf cs := by
        unfold authorityOf
        rw [List.takeWhile_cons_of_pos (by simpa using hdelim)]
      rw [if_neg (by simpa [hdelim] using Ne.symm hcs.1), hof]
      by_cases hat : c = wchar '@'
      · rw [if_pos hat, hat]
        simp
      · have hsum : n + 1 + (authorityOf cs).length = n + ((authorityOf cs).length + 1) := by
          omega
        rw [if_neg hat, ih (n + 1) hcs.2, hsum, List.length_cons]
        simp [Ne.symm hat]

theorem bracketLoop_eq : ∀ (t more : List WChar) (pos : Nat),
    bracketLoop (t ++ more) t.length pos =
      some (pos + (t.takeWhile fun c => c != wchar ']').length) := by
  intro t
  induction t with
  | nil =>
    intro more pos
    simp [bracketLoop]
  | cons c t ih =>
    intro more pos
    rw [List.cons_append, List.length_cons]
    unfold bracketLoop
    by_cases hc : c = wchar ']'
    · simp [hc]
    · rw [if_neg hc, ih more (pos + 1), List.takeWhile_cons_of_pos (by simpa using hc),
        List.length_cons]
      congr 1
      omega

/-- Where the first closing bracket is. -/
theorem closedFirst_iff (t : List WChar) :
    ClosedFirst t ↔ (t.takeWhile fun c => c != wchar ']').length ≠ t.length ∧
      (t.takeWhile fun c => c != wchar ']').length ≠ 0 := by
  constructor
  · rintro ⟨inner, tail, rfl, hne, hfirst⟩
    have hall : ∀ c ∈ inner, (c != wchar ']') = true := by
      intro c hc
      rw [bne_iff_ne]
      rintro rfl
      exact hfirst hc
    rw [List.takeWhile_append_of_pos hall, List.takeWhile_cons_of_neg (by simp), List.append_nil,
      List.length_append, List.length_cons]
    have := List.length_pos_of_ne_nil hne
    omega
  · rintro ⟨hlen, hpos⟩
    have hsplit := List.takeWhile_append_dropWhile (p := fun c => c != wchar ']') (l := t)
    cases hd : t.dropWhile fun c => c != wchar ']' with
    | nil =>
      rw [hd, List.append_nil] at hsplit
      rw [hsplit] at hlen
      exact absurd rfl hlen
    | cons c tail =>
      have hc : c = wchar ']' := by
        have := List.head?_dropWhile_not (fun c => c != wchar ']') t
        rw [hd] at this
        simpa using this
      refine ⟨_, tail, by rw [← hc, ← hd, hsplit], ?_, ?_⟩
      · intro hnil
        rw [hnil] at hpos
        exact hpos rfl
      · intro hmem
        have := List.all_eq_true.1 List.all_takeWhile _ hmem
        simp at this

/-- The checks on the authority, of a string that starts with it. -/
theorem isAllowedAuthority_ptr (s : WStr) :
    Decides (isAllowedAuthority s.ptr) (Authority ClosedFirst (authorityOf s.chars)) := by
  have hloop := authorityLoop_ptr s.chars 0 s.clean
  obtain ⟨rest, hsplit⟩ : ∃ rest, s.chars = authorityOf s.chars ++ rest :=
    ⟨_, List.takeWhile_append_dropWhile.symm⟩
  unfold isAllowedAuthority
  rw [Terminated.ptr, hloop, Nat.zero_add]
  generalize authorityOf s.chars = a at hsplit ⊢
  by_cases hat : wchar '@' ∈ a
  · rw [if_pos hat]
    exact Decides.of_false fun h => h.noUserinfo hat
  rw [if_neg hat, hsplit]
  dsimp only
  cases a with
  | nil => exact Decides.of_false fun h => h.nonempty rfl
  | cons c t =>
    rw [if_neg (by simp), List.cons_append, List.cons_append, List.getElem?_cons_zero]
    dsimp only
    by_cases hcolon : c = wchar ':'
    · rw [if_pos hcolon]
      exact Decides.of_false fun h => h.noColon (by rw [hcolon]; rfl)
    rw [if_neg hcolon]
    have hnoColon : (c :: t).head? ≠ some (wchar ':') := by simpa using hcolon
    by_cases hopen : c = wchar '['
    · rw [if_pos hopen, List.drop_succ_cons, List.drop_zero, List.length_cons,
        Nat.add_sub_cancel, List.append_assoc, bracketLoop_eq]
      refine ⟨_, rfl, ?_⟩
      have hiff := closedFirst_iff t
      rw [decide_eq_true_eq]
      constructor
      · intro h
        refine ⟨by simp, hat, hnoColon, fun _ => hiff.2 ?_⟩
        omega
      · intro h
        have hclosed := hiff.1 (h.bracket (by rw [hopen]; rfl))
        omega
    · rw [if_neg hopen]
      refine Decides.of_true ⟨by simp, hat, hnoColon, fun h => absurd ?_ hopen⟩
      simpa using h

/-- The two schemes exclude each other. -/
theorem not_http_of_https {s : WStr} (h : StartsWith s HTTPS) : ¬StartsWith s HTTP := by
  intro hhttp
  have hcut := congrArg (List.take 7) h
  rw [← List.map_take, List.take_take] at hcut
  have : (HTTP.chars.map wlower) = (HTTPS.chars.map wlower).take 7 := hhttp.symm.trans hcut
  revert this
  decide

/-- The scheme is one of the two, and ends after `n` characters. -/
def SchemeEnds (s : WStr) (n : Nat) : Prop := StartsWith s HTTP ∧ n = 7 ∨ StartsWith s HTTPS ∧ n = 8

theorem schemeLength_ptr (s : WStr) :
    ∃ r, schemeLength s.ptr s.chars.length = some r ∧ ∀ n, r = some n ↔ SchemeEnds s n := by
  have key : ∀ (lit : WStr) (k : Nat), lit.chars.length = k →
      Decides (both (some (decide (k ≤ s.chars.length))) (wcsnicmp s.ptr lit.ptr k))
        (StartsWith s lit) := by
    rintro lit _ rfl
    have hlen : Decides (some (decide (lit.chars.length ≤ s.chars.length)))
        (lit.chars.length ≤ s.chars.length) := ⟨_, rfl, by simp⟩
    exact (hlen.both fun _ => wcsnicmp_ptr s lit).congr
      ⟨And.right, fun h => ⟨h.length_le, h⟩⟩
  obtain ⟨b, hb, hhttp⟩ := key HTTP 7 rfl
  obtain ⟨b', hb', hhttps⟩ := key HTTPS 8 rfl
  unfold schemeLength SchemeEnds
  rw [hb]
  cases b with
  | true =>
    have hs := hhttp.1 rfl
    have hnot : ¬StartsWith s HTTPS := fun h => not_http_of_https h hs
    exact ⟨some 7, rfl, fun n => by simp [hs, hnot, eq_comm]⟩
  | false =>
    have hs : ¬StartsWith s HTTP := fun h => absurd (hhttp.2 h) (by decide)
    dsimp only
    rw [hb']
    cases b' with
    | true => exact ⟨some 8, rfl, fun n => by simp [hs, hhttps.1 rfl, eq_comm]⟩
    | false =>
      have hnot : ¬StartsWith s HTTPS := fun h => absurd (hhttps.2 h) (by decide)
      exact ⟨none, rfl, fun n => by simp [hs, hnot]⟩

theorem SchemeEnds.le {s : WStr} {n : Nat} (h : SchemeEnds s n) : n ≤ s.chars.length := by
  rcases h with ⟨hstart, rfl⟩ | ⟨hstart, rfl⟩
  · exact hstart.length_le
  · exact hstart.length_le

/-- A URL is a scheme and an authority after it, of a clean string within the limit. -/
theorem webUrl_iff {closed : List WChar → Prop} {s : WStr}
    (hlen : 1 ≤ s.chars.length ∧ s.chars.length ≤ 8192)
    (hclean : ∀ c ∈ s.chars, isBlocked c = false) :
    WebUrl closed s.chars ↔
      ∃ n, SchemeEnds s n ∧ Authority closed (authorityOf (s.chars.drop n)) := by
  constructor
  · rintro ⟨_, _, scheme, rest, hs, hfold | hfold, hauth⟩
    · obtain ⟨hstart, rfl⟩ := startsWith_append HTTP (by decide) hs hfold
      exact ⟨7, Or.inl ⟨hstart, rfl⟩, hauth⟩
    · obtain ⟨hstart, rfl⟩ := startsWith_append HTTPS (by decide) hs hfold
      exact ⟨8, Or.inr ⟨hstart, rfl⟩, hauth⟩
  · rintro ⟨n, ⟨hstart, rfl⟩ | ⟨hstart, rfl⟩, hauth⟩
    · obtain ⟨scheme, hs, hfold⟩ := hstart.split (by decide)
      exact ⟨hlen, hclean, scheme, _, hs, Or.inl hfold, hauth⟩
    · obtain ⟨scheme, hs, hfold⟩ := hstart.split (by decide)
      exact ⟨hlen, hclean, scheme, _, hs, Or.inr hfold, hauth⟩

/-- **The scanner accepts the URLs of the launch language.** -/
theorem isAllowedWebUrl_ptr (s : WStr) :
    Decides (isAllowedWebUrl (some s.ptr)) (WebUrl ClosedFirst s.chars) := by
  obtain ⟨r, hr, hlen⟩ := lengthLoop_ptr s.chars 0 s.clean (Nat.zero_le _)
  have hwithin : WebUrl ClosedFirst s.chars →
      r = some s.chars.length ∧ s.chars.length ≠ 0 ∧
        s.chars.length ≤ kMaximumLaunchUrlLength := by
    intro h
    have hmax : s.chars.length ≤ kMaximumLaunchUrlLength := h.length.2
    exact ⟨(hlen _ hmax).2 ⟨(Nat.zero_add _).symm, h.clean⟩,
      Nat.pos_iff_ne_zero.1 h.length.1, hmax⟩
  have hptr : s.chars ++ [0] = s.ptr := rfl
  rw [hptr] at hr
  unfold isAllowedWebUrl
  dsimp only
  rw [hr]
  cases r with
  | none => exact Decides.of_false fun h => absurd (hwithin h).1 (by simp)
  | some m =>
    dsimp only
    by_cases hm : m = 0 ∨ kMaximumLaunchUrlLength < m
    · rw [if_pos hm]
      refine Decides.of_false fun h => ?_
      obtain ⟨hr', hpos, hmax⟩ := hwithin h
      obtain rfl := Option.some.inj hr'
      omega
    · rw [if_neg hm]
      obtain ⟨rfl, hclean⟩ := (hlen m (by omega)).1 rfl
      rw [Nat.zero_add] at hm ⊢
      have hmax : s.chars.length ≤ 8192 := by
        show s.chars.length ≤ kMaximumLaunchUrlLength
        omega
      have hiff : WebUrl ClosedFirst s.chars ↔ _ := webUrl_iff ⟨by omega, hmax⟩ hclean
      obtain ⟨r, hr, hscheme⟩ := schemeLength_ptr s
      rw [hr]
      cases r with
      | none =>
        refine Decides.of_false fun h => ?_
        obtain ⟨n, hn, _⟩ := hiff.1 h
        exact absurd ((hscheme n).2 hn) (by simp)
      | some n =>
        have hn := (hscheme n).1 rfl
        dsimp only
        rw [s.drop_ptr hn.le]
        refine (isAllowedAuthority_ptr (s.drop n)).congr
          ⟨fun hauth => hiff.2 ⟨n, hn, hauth⟩, fun h => ?_⟩
        obtain ⟨n', hn', hauth⟩ := hiff.1 h
        cases (hscheme n').2 hn'
        exact hauth

/-! ## Unwrapping -/

/-- The string is a `den:` link to the other: `den:w` or `den://w`. -/
def DenLink (u w : List WChar) : Prop :=
  ∃ scheme, scheme.map wlower = DEN.chars ∧ (u = scheme ++ w ∨ u = scheme ++ (wide "//" ++ w))

/-- The URL a `den:` link wraps. -/
def innerUrl (s : WStr) : Option WStr :=
  if StartsWith s DEN then
    some (if wide "//" <+: (s.drop 4).chars then (s.drop 4).drop 2 else s.drop 4)
  else none

theorem slashes_iff (cs : List WChar) :
    cs[0]? = some (wchar '/') ∧ cs[1]? = some (wchar '/') ↔ wide "//" <+: cs := by
  have hwide : wide "//" = [wchar '/', wchar '/'] := by decide
  rw [hwide]
  match cs with
  | [] => simp
  | [c] => simp
  | c :: d :: cs => simp [List.cons_prefix_cons, eq_comm]

/-- `UnwrapDenLinkUrl` gives a pointer into the same string. -/
theorem unwrapDenLinkUrl_ptr (s : WStr) :
    unwrapDenLinkUrl (some s.ptr) = some ((innerUrl s).map Terminated.ptr) := by
  obtain ⟨b, hb, hden⟩ := wcsnicmp_ptr s DEN
  have hlit : DEN.chars.length = 4 := rfl
  rw [hlit] at hb
  unfold unwrapDenLinkUrl innerUrl
  dsimp only
  rw [hb]
  cases b with
  | false =>
    rw [if_neg fun h => absurd (hden.2 h) (by decide)]
    rfl
  | true =>
    have hstart := hden.1 rfl
    have hle : 4 ≤ s.chars.length := hstart.length_le
    rw [if_pos hstart, s.drop_ptr hle]
    dsimp only
    obtain ⟨b, hb, hslash⟩ := ((s.drop 4).read_ptr (c := wchar '/') (Nat.zero_le _)
      (by decide)).both fun h => (s.drop 4).read_ptr (c := wchar '/') (i := 1)
        (List.getElem?_eq_some_iff.1 h).1 (by decide)
    rw [hb]
    rw [slashes_iff] at hslash
    cases b with
    | false =>
      rw [if_neg fun h => absurd (hslash.2 h) (by decide)]
      rfl
    | true =>
      have hle : 2 ≤ (s.drop 4).chars.length := (hslash.1 rfl).length_le
      rw [if_pos (hslash.1 rfl)]
      dsimp only
      rw [(s.drop 4).drop_ptr hle]
      rfl

/-- The first character of what starts with a literal. -/
theorem head_of_fold {u pre rest : List WChar} (lit : WStr) {l : WChar} (hu : u = pre ++ rest)
    (hpre : pre.map wlower = lit.chars) (hlit : lit.chars.head? = some l) :
    ∃ c cs, u = c :: cs ∧ wlower c = l := by
  rw [← hpre] at hlit
  cases pre with
  | nil => cases hlit
  | cons c pre => exact ⟨c, pre ++ rest, hu, Option.some.inj hlit⟩

theorem WebUrl.head {closed : List WChar → Prop} {u : List WChar} (h : WebUrl closed u) :
    ∃ c cs, u = c :: cs ∧ wlower c = wchar 'h' := by
  obtain ⟨scheme, rest, hu, hfold | hfold, _⟩ := h.scheme
  · exact head_of_fold HTTP hu hfold (by decide)
  · exact head_of_fold HTTPS hu hfold (by decide)

theorem DenLink.head {u w : List WChar} (h : DenLink u w) :
    ∃ c cs, u = c :: cs ∧ wlower c = wchar 'd' := by
  obtain ⟨scheme, hfold, hu | hu⟩ := h
  · exact head_of_fold DEN hu hfold (by decide)
  · exact head_of_fold DEN hu hfold (by decide)

/-- A URL starts with a letter `h`, so it is no link and follows no slash. -/
theorem WebUrl.not_link {closed : List WChar → Prop} {s : WStr} (h : WebUrl closed s.chars) :
    innerUrl s = none ∧ ¬wide "//" <+: s.chars := by
  obtain ⟨c, cs, hs, hc⟩ := h.head
  constructor
  · unfold innerUrl
    rw [if_neg]
    intro hstart
    have hfirst := congrArg List.head? hstart
    rw [hs] at hfirst
    have : wlower c = wchar 'd' := Option.some.inj hfirst
    rw [hc] at this
    revert this
    decide
  · rintro ⟨rest, hrest⟩
    rw [hs] at hrest
    have : wchar '/' = c := (List.cons.inj hrest).1
    rw [← this] at hc
    revert hc
    decide

theorem innerUrl_some {s w : WStr} (h : innerUrl s = some w) : DenLink s.chars w.chars := by
  unfold innerUrl at h
  split at h
  · rename_i hstart
    obtain ⟨scheme, hs, hfold⟩ := hstart.split (by decide)
    refine ⟨scheme, hfold, ?_⟩
    obtain rfl := Option.some.inj h
    split
    · rename_i hslash
      obtain ⟨rest, hrest⟩ := hslash
      have hdrop : ((s.drop 4).drop 2).chars = rest := by
        show (s.drop 4).chars.drop 2 = rest
        rw [← hrest]
        rfl
      rw [hdrop, hrest]
      exact Or.inr hs
    · exact Or.inl hs
  · cases h

theorem innerUrl_of_denLink {s w : WStr} (h : DenLink s.chars w.chars)
    (hw : ¬wide "//" <+: w.chars) : innerUrl s = some w := by
  obtain ⟨scheme, hfold, hs⟩ := h
  have hafter : ∀ rest, s.chars = scheme ++ rest → StartsWith s DEN ∧ (s.drop 4).chars = rest :=
    fun rest hs => startsWith_append DEN (by decide) hs hfold
  unfold innerUrl
  rcases hs with hs | hs
  · obtain ⟨hstart, hrest⟩ := hafter _ hs
    rw [if_pos hstart, hrest, if_neg hw]
    exact congrArg some (Terminated.ext hrest)
  · obtain ⟨hstart, hrest⟩ := hafter _ hs
    rw [if_pos hstart, hrest, if_pos (List.prefix_append _ _)]
    refine congrArg some (Terminated.ext ?_)
    show (s.drop 4).chars.drop 2 = w.chars
    rw [hrest]
    rfl

/-! ## The command line -/

/-- The pointers of an argument vector. -/
def ptrs (argv : List (Option WStr)) : List (Option WPtr) := argv.map (Option.map Terminated.ptr)

/-- The argument vector with the trailing link of `-osint -url` unwrapped. -/
def unwrapped (argv : List (Option WStr)) : List (Option WStr) :=
  let argc := argv.length
  if 4 ≤ argc ∧ argv[argc - 3]?.join = some OSINT ∧ argv[argc - 2]?.join = some URL then
    match argv[argc - 1]?.join.bind innerUrl with
    | some inner => argv.set (argc - 1) (some inner)
    | none => argv
  else argv

/-- The vector is `[bin]` or `[bin, -osint, -url, u]`, for a URL `u`. -/
def Allowed (closed : List WChar → Prop) (argv : List (Option WStr)) : Prop :=
  (∃ bin, argv = [some bin]) ∨
    ∃ bin u, argv = [some bin, some OSINT, some URL, some u] ∧ WebUrl closed u.chars

/-- The launch language: `[bin]` or `[bin, -osint, -url, u]`, for a URL or a link to one. -/
def LaunchLanguage (closed : List WChar → Prop) (argv : List (Option WStr)) : Prop :=
  (∃ bin, argv = [some bin]) ∨
    ∃ bin u w, argv = [some bin, some OSINT, some URL, some u] ∧ WebUrl closed w.chars ∧
      (u = w ∨ DenLink u.chars w.chars)

/-- The second vector is the first, with the wrapped URL in the place of a link. -/
def LeavesUrl (closed : List WChar → Prop) (argv argv' : List (Option WStr)) : Prop :=
  (∃ bin, argv = [some bin] ∧ argv' = argv) ∨
    ∃ bin u w, argv = [some bin, some OSINT, some URL, some u] ∧
      argv' = [some bin, some OSINT, some URL, some w] ∧ WebUrl closed w.chars ∧
      (u = w ∨ DenLink u.chars w.chars)

theorem join_ptrs (argv : List (Option WStr)) (i : Nat) :
    (ptrs argv)[i]?.join = argv[i]?.join.map Terminated.ptr := by
  unfold ptrs
  rw [List.getElem?_map]
  rcases argv[i]? with _ | _ | s <;> rfl

/-- Unwrapping reads in bounds, and leaves pointers into the same strings. -/
theorem unwrapDenLinkArgument_ptr (argv : List (Option WStr)) :
    unwrapDenLinkArgument (ptrs argv) = some (ptrs (unwrapped argv)) := by
  unfold unwrapDenLinkArgument unwrapped
  have hlen : (ptrs argv).length = argv.length := List.length_map ..
  dsimp only
  rw [hlen, join_ptrs, join_ptrs, join_ptrs]
  by_cases hargc : argv.length < 4
  · rw [if_pos hargc, if_neg fun h => absurd hargc (Nat.not_lt.2 h.1)]
  rw [if_neg hargc]
  have hargc' : 4 ≤ argv.length := Nat.not_lt.1 hargc
  cases hosint : argv[argv.length - 3]?.join with
  | none => simp
  | some osint =>
    cases hurl : argv[argv.length - 2]?.join with
    | none => simp
    | some url =>
      obtain ⟨b, hb, hflags⟩ := (wcscmp_ptr osint OSINT).both fun _ => wcscmp_ptr url URL
      simp only [Option.map_some, hb, Option.some.injEq]
      cases b with
      | false =>
        rw [if_neg fun h => absurd (hflags.2 h.2) (by decide)]
      | true =>
        rw [if_pos ⟨hargc', hflags.1 rfl⟩]
        dsimp only
        cases hlast : argv[argv.length - 1]?.join with
        | none => rfl
        | some u =>
          rw [Option.map_some, unwrapDenLinkUrl_ptr, Option.bind_some]
          cases innerUrl u with
          | none => rfl
          | some w =>
            dsimp only [Option.map_some]
            unfold ptrs
            rw [List.map_set]
            rfl

theorem ptrs_eq_cons {argv : List (Option WStr)} {p : WPtr} {rest : List (Option WPtr)}
    (h : ptrs argv = some p :: rest) :
    ∃ s argv', argv = some s :: argv' ∧ p = s.ptr ∧ ptrs argv' = rest := by
  match argv, h with
  | some s :: argv', h =>
    obtain ⟨hp, hrest⟩ := List.cons.inj h
    exact ⟨s, argv', rfl, (Option.some.inj hp).symm, hrest⟩

theorem ptrs_eq_nil {argv : List (Option WStr)} (h : ptrs argv = []) : argv = [] :=
  List.map_eq_nil_iff.1 h

/-- The command-line check reads in bounds. -/
theorem isAllowedBrowserCommandLine_ptr (argv : List (Option WStr)) :
    Decides (isAllowedBrowserCommandLine (ptrs argv)) (Allowed ClosedFirst argv) := by
  unfold isAllowedBrowserCommandLine
  split
  · rename_i hargv
    obtain ⟨bin, argv', rfl, rfl, hrest⟩ := ptrs_eq_cons hargv
    obtain rfl := ptrs_eq_nil hrest
    exact Decides.of_true (Or.inl ⟨bin, rfl⟩)
  · rename_i hargv
    obtain ⟨bin, argv', rfl, rfl, htail⟩ := ptrs_eq_cons hargv
    obtain ⟨osint, argv', rfl, rfl, htail'⟩ := ptrs_eq_cons htail
    obtain ⟨url, argv', rfl, rfl, hlast⟩ := ptrs_eq_cons htail'
    obtain ⟨u, argv', rfl, rfl, hrest⟩ := ptrs_eq_cons hlast
    obtain rfl := ptrs_eq_nil hrest
    have hflags := (wcscmp_ptr osint OSINT).both fun _ => wcscmp_ptr url URL
    refine (hflags.both fun _ => isAllowedWebUrl_ptr u).congr ⟨?_, ?_⟩
    · rintro ⟨⟨rfl, rfl⟩, hu⟩
      exact Or.inr ⟨bin, u, rfl, hu⟩
    · rintro (⟨bin, h⟩ | ⟨bin', u', h, hu⟩)
      · cases h
      · cases h
        exact ⟨⟨rfl, rfl⟩, hu⟩
  · rename_i hone hfour
    refine Decides.of_false ?_
    rintro (⟨bin, rfl⟩ | ⟨bin, u, rfl, _⟩)
    · exact hone _ rfl
    · exact hfour _ _ _ _ rfl

theorem length_unwrapped (argv : List (Option WStr)) :
    (unwrapped argv).length = argv.length := by
  unfold unwrapped
  dsimp only
  split
  · split
    · exact List.length_set ..
    · rfl
  · rfl

theorem unwrapped_four (bin osint url u : Option WStr) :
    unwrapped [bin, osint, url, u] =
      if osint = some OSINT ∧ url = some URL then
        match u.bind innerUrl with
        | some inner => [bin, osint, url, some inner]
        | none => [bin, osint, url, u]
      else [bin, osint, url, u] := by
  unfold unwrapped
  have hargc : [bin, osint, url, u].length = 4 := rfl
  dsimp only
  rw [hargc]
  simp

/-- What unwrapping does to an allowed vector: nothing. -/
theorem unwrapped_of_allowed {closed : List WChar → Prop} {argv : List (Option WStr)}
    (h : Allowed closed argv) : unwrapped argv = argv := by
  rcases h with ⟨bin, rfl⟩ | ⟨bin, u, rfl, hu⟩
  · rfl
  · rw [unwrapped_four, if_pos ⟨rfl, rfl⟩, Option.bind_some, hu.not_link.1]

/-- What unwrapping leaves of a vector of the launch language. -/
theorem unwrapped_of_language {closed : List WChar → Prop} {argv : List (Option WStr)}
    (h : LaunchLanguage closed argv) : LeavesUrl closed argv (unwrapped argv) := by
  rcases h with ⟨bin, rfl⟩ | ⟨bin, u, w, rfl, hw, hlink⟩
  · exact Or.inl ⟨bin, rfl, rfl⟩
  · refine Or.inr ⟨bin, u, w, rfl, ?_, hw, hlink⟩
    rw [unwrapped_four, if_pos ⟨rfl, rfl⟩, Option.bind_some]
    rcases hlink with rfl | hlink
    · rw [hw.not_link.1]
    · rw [innerUrl_of_denLink hlink hw.not_link.2]

/-- What unwrapping leaves is allowed exactly for the launch language. -/
theorem allowed_unwrapped_iff {closed : List WChar → Prop} {argv : List (Option WStr)} :
    Allowed closed (unwrapped argv) ↔ LaunchLanguage closed argv := by
  constructor
  · intro h
    have hlen := length_unwrapped argv
    rcases h with ⟨bin, h⟩ | ⟨bin, w, h, hw⟩
    · rw [h] at hlen
      have hshort : unwrapped argv = argv := by
        have hone : argv.length = 1 := hlen.symm
        unfold unwrapped
        rw [if_neg fun hc => by rw [hone] at hc; exact absurd hc.1 (by decide)]
      exact Or.inl ⟨bin, hshort ▸ h⟩
    · rw [h] at hlen
      match argv, hlen with
      | [bin', osint, url, u], _ =>
        rw [unwrapped_four] at h
        split at h
        · split at h
          · rename_i inner hinner
            obtain ⟨u', rfl, hu'⟩ := Option.bind_eq_some_iff.1 hinner
            cases h
            exact Or.inr ⟨bin, u', w, rfl, hw, Or.inr (innerUrl_some hu')⟩
          · cases h
            exact Or.inr ⟨bin, w, w, rfl, hw, Or.inl rfl⟩
        · cases h
          exact Or.inr ⟨bin, w, w, rfl, hw, Or.inl rfl⟩
  · intro h
    rcases unwrapped_of_language h with ⟨bin, rfl, hleft⟩ | ⟨bin, u, w, _, hleft, hw, _⟩
    · exact Or.inl ⟨bin, hleft⟩
    · exact Or.inr ⟨bin, w, hleft, hw⟩

/-- The two functions in turn. -/
theorem launch_ptr (argv : List (Option WStr)) :
    ∃ b, launch (ptrs argv) = some (ptrs (unwrapped argv), b) ∧
      (b = true ↔ Allowed ClosedFirst (unwrapped argv)) := by
  obtain ⟨b, hb, hiff⟩ := isAllowedBrowserCommandLine_ptr (unwrapped argv)
  refine ⟨b, ?_, hiff⟩
  unfold launch
  rw [unwrapDenLinkArgument_ptr]
  dsimp only
  rw [hb]
  rfl

/-! ## The content-process flag -/

/-- The name of a flag `/name`, `-name` or `--name`. -/
def flagName : List WChar → Option (List WChar)
  | [] => none
  | c :: cs =>
    if c = wchar '/' then some cs
    else if c = wchar '-' then some (if cs.head? = some (wchar '-') then cs.tail else cs)
    else none

/-- The string is the content-process flag, in one of its spellings. -/
def IsFlag (s : WStr) : Prop :=
  ∃ name, flagName s.chars = some name ∧ name.map wlower = CONTENTPROC.chars.map wlower

theorem isContentProcessFlag_ptr (s : WStr) :
    Decides (isContentProcessFlag (some s.ptr)) (IsFlag s) := by
  have hname : ∀ t : WStr, flagName s.chars = some t.chars →
      Decides (wcsicmp t.ptr CONTENTPROC.ptr) (IsFlag s) := by
    intro t ht
    refine (wcsicmp_ptr t CONTENTPROC).congr ⟨fun h => ⟨_, ht, h⟩, ?_⟩
    rintro ⟨name, hname, h⟩
    cases ht.symm.trans hname
    exact h
  have hnone : flagName s.chars = none → ¬IsFlag s := by
    rintro hs ⟨name, hname, _⟩
    cases hs.symm.trans hname
  obtain ⟨cs, hclean⟩ := s
  unfold isContentProcessFlag Terminated.ptr
  dsimp only at hname hnone ⊢
  cases cs with
  | nil => exact Decides.of_false (hnone rfl)
  | cons c cs =>
    have htail : 0 ∉ cs := fun h => hclean (List.mem_cons_of_mem _ h)
    rw [List.cons_append, List.getElem?_cons_zero]
    dsimp only
    by_cases hslash : c = wchar '/'
    · rw [if_pos hslash]
      exact hname ⟨cs, htail⟩ (by simp [flagName, hslash])
    rw [if_neg hslash]
    by_cases hdash : c = wchar '-'
    · rw [if_pos hdash, List.getElem?_cons_succ]
      have hone : flagName (c :: cs) =
          some (if cs.head? = some (wchar '-') then cs.tail else cs) := by
        unfold flagName
        dsimp only
        rw [if_neg hslash, if_pos hdash]
      cases cs with
      | nil => exact hname ⟨[], htail⟩ hone
      | cons d cs =>
        rw [List.cons_append, List.getElem?_cons_zero]
        dsimp only
        by_cases hd : d = wchar '-'
        · rw [if_pos hd]
          rw [if_pos (by rw [hd]; rfl)] at hone
          exact hname ⟨cs, fun h => htail (List.mem_cons_of_mem _ h)⟩ hone
        · rw [if_neg hd]
          rw [if_neg (by simpa using hd)] at hone
          exact hname ⟨d :: cs, htail⟩ hone
    · rw [if_neg hdash]
      exact Decides.of_false (hnone (by simp [flagName, hslash, hdash]))

theorem anyContentProcessFlag_ptr (argv : List (Option WStr)) :
    Decides (anyContentProcessFlag (ptrs argv)) (∃ s, some s ∈ argv ∧ IsFlag s) := by
  induction argv with
  | nil => exact Decides.of_false (by simp)
  | cons arg argv ih =>
    show Decides (anyContentProcessFlag (arg.map Terminated.ptr :: ptrs argv)) _
    unfold anyContentProcessFlag
    cases arg with
    | none => exact ih.congr (by simp)
    | some s =>
      obtain ⟨b, hb, hflag⟩ := isContentProcessFlag_ptr s
      rw [Option.map_some, hb]
      cases b with
      | true => exact Decides.of_true ⟨s, List.mem_cons_self, hflag.1 rfl⟩
      | false =>
        have hnot : ¬IsFlag s := fun h => absurd (hflag.2 h) (by decide)
        refine ih.congr ⟨?_, ?_⟩
        · rintro ⟨t, ht, hflag⟩
          exact ⟨t, List.mem_cons_of_mem _ ht, hflag⟩
        · rintro ⟨t, ht, hflag⟩
          rcases List.mem_cons.1 ht with h | h
          · cases h
            exact absurd hflag hnot
          · exact ⟨t, h, hflag⟩

theorem hasContentProcessFlag_ptr (argv : List (Option WStr)) :
    Decides (hasContentProcessFlag (ptrs argv)) (∃ s, some s ∈ argv.drop 1 ∧ IsFlag s) := by
  have hdrop : (ptrs argv).drop 1 = ptrs (argv.drop 1) := List.map_drop.symm
  unfold hasContentProcessFlag
  rw [hdrop]
  exact anyContentProcessFlag_ptr _

/-- A canonical content-process command line has the flag in second place, and only there. -/
theorem isCanonicalContentProcessCommandLine_ptr (argv : List (Option WStr)) :
    Decides (isCanonicalContentProcessCommandLine (ptrs argv))
      (4 ≤ argv.length ∧ argv[1]? = some (some CONTENTPROC_FLAG) ∧
        ¬∃ s, some s ∈ argv.drop 2 ∧ IsFlag s) := by
  have hlen : (ptrs argv).length = argv.length := List.length_map ..
  have hdrop : (ptrs argv).drop 2 = ptrs (argv.drop 2) := List.map_drop.symm
  unfold isCanonicalContentProcessCommandLine
  rw [hlen, join_ptrs, hdrop]
  by_cases hargc : argv.length < 4
  · rw [if_pos hargc]
    exact Decides.of_false fun h => absurd hargc (Nat.not_lt.2 h.1)
  rw [if_neg hargc]
  cases hflag : argv[1]? with
  | none => exact Decides.of_false (by simp)
  | some arg =>
    cases arg with
    | none => exact Decides.of_false (by simp)
    | some flag =>
      obtain ⟨b, hb, hany⟩ := anyContentProcessFlag_ptr (argv.drop 2)
      have hnot : Decides ((anyContentProcessFlag (ptrs (argv.drop 2))).map fun found => !found)
          (¬∃ s, some s ∈ argv.drop 2 ∧ IsFlag s) := by
        rw [hb]
        exact ⟨!b, rfl, by rw [← hany]; simp⟩
      refine ((wcscmp_ptr flag CONTENTPROC_FLAG).both fun _ => hnot).congr ?_
      simp [Nat.not_lt.1 hargc]

theorem not_isFlag_of_head {s : WStr} {c l : WChar} {cs : List WChar} (hs : s.chars = c :: cs)
    (hc : wlower c = l) (hslash : wlower (wchar '/') ≠ l) (hdash : wlower (wchar '-') ≠ l) :
    ¬IsFlag s := by
  have hc1 : c ≠ wchar '/' := by
    rintro rfl
    exact hslash hc
  have hc2 : c ≠ wchar '-' := by
    rintro rfl
    exact hdash hc
  rintro ⟨name, hname, _⟩
  rw [hs] at hname
  simp [flagName, hc1, hc2] at hname

/-- A vector of the launch language has no content-process flag. -/
theorem no_flag_of_language {closed : List WChar → Prop} {argv : List (Option WStr)}
    (h : LaunchLanguage closed argv) : ¬∃ s, some s ∈ argv.drop 1 ∧ IsFlag s := by
  have hname : ∀ (lit : WStr) (name : List WChar), flagName lit.chars = some name →
      name.map wlower ≠ CONTENTPROC.chars.map wlower → ¬IsFlag lit := by
    rintro lit name hlit hne ⟨name', hname', h⟩
    cases hlit.symm.trans hname'
    exact hne h
  rintro ⟨s, hs, hflag⟩
  rcases h with ⟨bin, rfl⟩ | ⟨bin, u, w, rfl, hw, hlink⟩
  · cases hs
  · simp only [List.drop_succ_cons, List.drop_zero, List.mem_cons, Option.some.injEq,
      List.not_mem_nil, or_false] at hs
    rcases hs with rfl | rfl | rfl
    · exact hname OSINT (wide "osint") (by decide) (by decide) hflag
    · exact hname URL (wide "url") (by decide) (by decide) hflag
    · rcases hlink with rfl | hlink
      · obtain ⟨c, cs, hs, hc⟩ := hw.head
        exact not_isFlag_of_head hs hc (by decide) (by decide) hflag
      · obtain ⟨c, cs, hs, hc⟩ := hlink.head
        exact not_isFlag_of_head hs hc (by decide) (by decide) hflag

/-! ## The launch language -/

/-- **The launch language.**  For every argument vector the two functions stay within the strings
they are given, and accept exactly `[bin]` and `[bin, -osint, -url, u]` for a URL `u` or a `den:`
link to one.  What they leave in its place is the URL; running them again changes nothing; and an
accepted vector has no content-process flag, before or after. -/
theorem launch_language (argv : List (Option WStr)) :
    ∃ argv' b, launch (ptrs argv) = some (ptrs argv', b) ∧
      (b = true ↔ LaunchLanguage ClosedFirst argv) ∧
      (b = true →
        LeavesUrl ClosedFirst argv argv' ∧
        launch (ptrs argv') = some (ptrs argv', true) ∧
        hasContentProcessFlag (ptrs argv) = some false ∧
        hasContentProcessFlag (ptrs argv') = some false) ∧
      (hasContentProcessFlag (ptrs argv)).isSome = true := by
  obtain ⟨b, hb, hiff⟩ := launch_ptr argv
  have hflag : ∀ {closed : List WChar → Prop} {argv : List (Option WStr)},
      LaunchLanguage closed argv → hasContentProcessFlag (ptrs argv) = some false := by
    intro closed argv h
    obtain ⟨found, hfound, hany⟩ := hasContentProcessFlag_ptr argv
    cases found with
    | false => exact hfound
    | true => exact absurd (hany.1 rfl) (no_flag_of_language h)
  refine ⟨unwrapped argv, b, hb, hiff.trans allowed_unwrapped_iff, fun hacc => ?_, ?_⟩
  · have hallowed := hiff.1 hacc
    have hlang := allowed_unwrapped_iff.1 hallowed
    have hstable := unwrapped_of_allowed hallowed
    have hagain : LaunchLanguage ClosedFirst (unwrapped argv) :=
      allowed_unwrapped_iff.1 (hstable.symm ▸ hallowed)
    refine ⟨unwrapped_of_language hlang, ?_, hflag hlang, hflag hagain⟩
    obtain ⟨b', hb', hiff'⟩ := launch_ptr (unwrapped argv)
    rw [hstable] at hb' hiff'
    rw [hb', hiff'.2 hallowed]
  · obtain ⟨found, hfound, _⟩ := hasContentProcessFlag_ptr argv
    rw [hfound]
    rfl

/-- The vector `[bin, -osint, -url, http://[]]]`. -/
def bracketVector : List (Option WStr) :=
  [some ⟨wide "denbrowser.exe", by decide⟩, some OSINT, some URL,
    some ⟨wide "http://[]]", by decide⟩]

/-- **A bracket after a character is not enough**: the scanner stops at the first one. -/
theorem launch_bracket :
    LaunchLanguage ClosedLater bracketVector ∧
      launch (ptrs bracketVector) = some (ptrs bracketVector, false) := by
  have hclean : ∀ c ∈ wide "http://[]]", isBlocked c = false := by
    have hall : (wide "http://[]]").all (fun c => !isBlocked c) = true := by decide
    simpa using hall
  have hclosed : ClosedLater (wide "]]") := ⟨wide "]", [], by decide, by decide⟩
  refine ⟨Or.inr ⟨_, _, _, rfl, ⟨by decide, hclean, wide "http://", wide "[]]", by decide,
    Or.inl (by decide), ?_⟩, Or.inl rfl⟩, by decide⟩
  exact ⟨by decide, by decide, by decide, fun _ => hclosed⟩

end DenBrowser
