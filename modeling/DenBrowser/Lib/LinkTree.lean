import DenBrowser.Lib.PosixPath

/-!
# Trees with symbolic links

A finite tree of directories, regular files and symbolic links.  A regular file is a number, which
two names can share.  A path is followed as the operating system does it: name after name, into
the target of a link, and up again physically.

* `follow_append` — a path is followed in parts;
* `follow_join` — so is a path that was joined;
* `mem_walk_iff` — the directories that a walk comes to.
-/

set_option autoImplicit false

namespace LinkTree

open PosixPath

inductive Entry
  | file (inode : Nat)
  | dir
  | link (target : Text)
  deriving DecidableEq

/-- What stands at a path, among entries. -/
def nodeIn (entries : List (List Text × Entry)) (p : List Text) : Option Entry :=
  (entries.find? fun e => e.1 == p).map Prod.snd

/-- A tree, by its entries. -/
structure Tree where
  entries : List (List Text × Entry)
  nodup : (entries.map Prod.fst).Nodup
  /-- Whatever is not the root stands in a directory, under a name. -/
  closed : ∀ e ∈ entries, ∀ s ∈ e.1.getLast?, nodeIn entries e.1.dropLast = some .dir ∧ IsName s

namespace Tree

variable (t : Tree)

def node (p : List Text) : Option Entry := nodeIn t.entries p

/-- The names in a directory. -/
def names (p : List Text) : List Text :=
  t.entries.filterMap fun e => if e.1.dropLast = p then e.1.getLast? else none

/-- No path is longer. -/
def depth : Nat := (t.entries.map fun e => e.1.length).foldr max 0

variable {t}

theorem mem_of_node {p : List Text} {e : Entry} (h : t.node p = some e) : (p, e) ∈ t.entries := by
  obtain ⟨⟨q, e'⟩, hfind, rfl⟩ := Option.map_eq_some_iff.1 h
  have hq : q = p := by simpa using List.find?_some hfind
  subst hq
  exact List.mem_of_find?_eq_some hfind

theorem node_ne_none {p : List Text} {e : Entry} (h : (p, e) ∈ t.entries) : t.node p ≠ none := by
  intro hnone
  have hfind := Option.map_eq_none_iff.1 hnone
  have := List.find?_eq_none.1 hfind _ h
  simp at this

theorem mem_names {p : List Text} {s : Text} : s ∈ t.names p ↔ t.node (p ++ [s]) ≠ none := by
  unfold names
  rw [List.mem_filterMap]
  constructor
  · rintro ⟨⟨q, e⟩, he, hs⟩
    split at hs
    · rename_i hq
      have hsplit : q = p ++ [s] := by
        rw [← hq]
        exact (List.dropLast_append_getLast? s hs).symm
      rw [← hsplit]
      exact node_ne_none he
    · cases hs
  · intro h
    obtain ⟨e, he⟩ := Option.ne_none_iff_exists'.1 h
    refine ⟨(p ++ [s], e), mem_of_node he, ?_⟩
    rw [if_pos List.dropLast_concat, List.getLast?_concat]

theorem node_concat {p : List Text} {s : Text} {e : Entry} (h : t.node (p ++ [s]) = some e) :
    t.node p = some .dir ∧ IsName s := by
  have hclosed := t.closed _ (mem_of_node h) s (by simp)
  rw [List.dropLast_concat] at hclosed
  exact hclosed

/-- What stands above something is a directory, and everything has a name. -/
theorem node_append {p q : List Text} {e : Entry} (h : t.node (p ++ q) = some e) :
    (q ≠ [] → t.node p = some .dir) ∧ ∀ s ∈ q, IsName s := by
  induction q using List.reverseRecOn generalizing e with
  | nil => exact ⟨fun hne => absurd rfl hne, by simp⟩
  | append_singleton q s ih =>
    rw [← List.append_assoc] at h
    obtain ⟨hdir, hs⟩ := node_concat h
    obtain ⟨hp, hq⟩ := ih hdir
    refine ⟨fun _ => ?_, ?_⟩
    · by_cases hnil : q = []
      · rwa [hnil, List.append_nil] at hdir
      · exact hp hnil
    · intro x hx
      rcases List.mem_append.1 hx with hx | hx
      · exact hq x hx
      · rw [List.mem_singleton.1 hx]
        exact hs

theorem length_le_depth {p : List Text} {e : Entry} (h : t.node p = some e) :
    p.length ≤ t.depth := by
  have hle : ∀ (l : List Nat) (n : Nat), n ∈ l → n ≤ l.foldr max 0 := by
    intro l
    induction l with
    | nil => exact fun n hn => nomatch hn
    | cons m l ih =>
      intro n hn
      rw [List.foldr_cons]
      rcases List.mem_cons.1 hn with rfl | hn
      · exact Nat.le_max_left _ _
      · exact (ih n hn).trans (Nat.le_max_right _ _)
  exact hle _ _ (List.mem_map_of_mem (f := fun e : List Text × Entry => e.1.length)
    (mem_of_node h))

end Tree

/-! ## Following a path -/

/-- Where following stops: at the end, at a link with what comes after it, or nowhere. -/
inductive Stop
  | done (p : List Text)
  | link (dir : List Text) (target : Text) (rest : List Text)
  | fail

variable {t : Tree}

/-- The components of a path from a directory on, up to the first link. -/
def advance (t : Tree) : List Text → List Text → Stop
  | p, [] => .done p
  | p, c :: cs =>
    if c = [] ∨ c = dot then advance t p cs
    else if c = dotdot then advance t p.dropLast cs
    else
      match t.node (p ++ [c]) with
      | some .dir => advance t (p ++ [c]) cs
      | some (.file _) => if cs = [] then .done (p ++ [c]) else .fail
      | some (.link target) => .link p target cs
      | none => .fail

/-- The object at the end of a path, and how many links may still be followed. -/
def follow (t : Tree) : Nat → List Text → List Text → Option (List Text × Nat)
  | 0, p, comps =>
    match advance t p comps with
    | .done q => some (q, 0)
    | _ => none
  | n + 1, p, comps =>
    match advance t p comps with
    | .done q => some (q, n + 1)
    | .link dir target rest =>
      follow t n (if isabs target then [] else dir) (split target ++ rest)
    | .fail => none

theorem follow_of_done {n : Nat} {p q comps : List Text} (h : advance t p comps = .done q) :
    follow t n p comps = some (q, n) := by
  cases n with
  | zero => rw [follow, h]
  | succ n => rw [follow, h]

/-- Following stops at the same place whatever comes after. -/
theorem advance_append {p q comps : List Text} (h : advance t p comps = .done q)
    (hdir : t.node q = some .dir) (more : List Text) :
    advance t p (comps ++ more) = advance t q more := by
  induction comps generalizing p with
  | nil =>
    cases h
    rfl
  | cons c cs ih =>
    rw [advance] at h
    rw [List.cons_append, advance]
    split
    · rename_i hc
      rw [if_pos hc] at h
      exact ih h
    · rename_i hc
      rw [if_neg hc] at h
      split
      · rename_i hup
        rw [if_pos hup] at h
        exact ih h
      · rename_i hup
        rw [if_neg hup] at h
        split at h
        · exact ih h
        · rename_i i hnode
          split at h
          · cases h
            rw [hnode] at hdir
            cases hdir
          · cases h
        · cases h
        · cases h

theorem advance_append_link {p dir comps rest : List Text} {target : Text}
    (h : advance t p comps = .link dir target rest) (more : List Text) :
    advance t p (comps ++ more) = .link dir target (rest ++ more) := by
  induction comps generalizing p with
  | nil => cases h
  | cons c cs ih =>
    rw [advance] at h
    rw [List.cons_append, advance]
    split
    · rename_i hc
      rw [if_pos hc] at h
      exact ih h
    · rename_i hc
      rw [if_neg hc] at h
      split
      · rename_i hup
        rw [if_pos hup] at h
        exact ih h
      · rename_i hup
        rw [if_neg hup] at h
        split at h
        · exact ih h
        · split at h
          · cases h
          · cases h
        · cases h
          rfl
        · cases h

/-- **A path is followed in parts**, where the first part leads to a directory. -/
theorem follow_append {n m : Nat} {p q comps : List Text} (h : follow t n p comps = some (q, m))
    (hdir : t.node q = some .dir) (more : List Text) :
    follow t n p (comps ++ more) = follow t m q more := by
  induction n generalizing p comps with
  | zero =>
    rw [follow] at h
    split at h
    · rename_i hstop
      cases h
      rw [follow, follow, advance_append hstop hdir]
    · cases h
  | succ n ih =>
    rw [follow] at h
    split at h
    · rename_i hstop
      cases h
      rw [follow, follow, advance_append hstop hdir]
    · rename_i hstop
      rw [follow, advance_append_link hstop]
      dsimp only
      rw [← List.append_assoc]
      exact ih h
    · cases h

/-- A blank component after a path changes only that it has to lead to a directory. -/
theorem advance_blank {p comps : List Text} :
    (∀ q, advance t p (comps ++ [[]]) = .done q → advance t p comps = .done q) ∧
    ∀ dir target rest, advance t p (comps ++ [[]]) = .link dir target rest →
      ∃ rest', rest = rest' ++ [[]] ∧ advance t p comps = .link dir target rest' := by
  induction comps generalizing p with
  | nil =>
    refine ⟨fun q h => h, fun dir target rest h => ?_⟩
    cases h
  | cons c cs ih =>
    rw [List.cons_append, advance, advance]
    by_cases hc : c = [] ∨ c = dot
    · rw [if_pos hc, if_pos hc]
      exact ih
    rw [if_neg hc, if_neg hc]
    by_cases hup : c = dotdot
    · rw [if_pos hup, if_pos hup]
      exact ih
    rw [if_neg hup, if_neg hup]
    cases t.node (p ++ [c]) with
    | none => exact ⟨fun q h => (nomatch h), fun dir target rest h => (nomatch h)⟩
    | some e =>
      cases e with
      | dir => exact ih
      | file i =>
        dsimp only
        rw [if_neg (by simp)]
        exact ⟨fun q h => (nomatch h), fun dir target rest h => (nomatch h)⟩
      | link target =>
        refine ⟨fun q h => (nomatch h), fun dir target rest h => ?_⟩
        cases h
        exact ⟨cs, rfl, rfl⟩

theorem follow_blank {n m : Nat} {p q comps : List Text}
    (h : follow t n p (comps ++ [[]]) = some (q, m)) : follow t n p comps = some (q, m) := by
  induction n generalizing p comps with
  | zero =>
    rw [follow] at h ⊢
    split at h
    · rename_i hstop
      rw [advance_blank.1 _ hstop]
      exact h
    · cases h
  | succ n ih =>
    rw [follow] at h ⊢
    split at h
    · rename_i hstop
      rw [advance_blank.1 _ hstop]
      exact h
    · rename_i dir target rest hstop
      obtain ⟨rest', rfl, hstop'⟩ := advance_blank.2 _ _ _ hstop
      rw [hstop']
      rw [← List.append_assoc] at h
      exact ih h
    · cases h

/-- **A joined path** is followed in parts. -/
theorem follow_join {n m : Nat} {p q : List Text} {a b : Text}
    (h : follow t n p (split a) = some (q, m)) (hdir : t.node q = some .dir)
    (hb : isabs b = false) : follow t n p (split (join a b)) = follow t m q (split b) := by
  have hnil : split [] = [[]] := split_noSlash (by simp)
  unfold join
  rw [if_neg (by simp [hb])]
  split
  · rename_i hlast
    rcases hlast with rfl | hlast
    · rw [hnil] at h
      have hhere := @follow_blank _ _ _ _ _ [] h
      have hq : follow t n p [] = some (p, n) := follow_of_done rfl
      rw [hq] at hhere
      cases hhere
      rfl
    · obtain ⟨a', rfl⟩ : ∃ a', a = a' ++ ['/'] :=
        ⟨a.dropLast, (List.dropLast_append_getLast? '/' hlast).symm⟩
      rw [split_append_slash, hnil] at h
      rw [List.append_assoc, List.singleton_append, split_append_slash]
      exact follow_append (follow_blank h) hdir _
  · rw [split_append_slash]
    exact follow_append h hdir _

/-! ## Following names -/

theorem advance_names {p q : List Text} (h : t.node (p ++ q) = some .dir) :
    advance t p q = .done (p ++ q) := by
  induction q generalizing p with
  | nil =>
    rw [List.append_nil]
    rfl
  | cons s q ih =>
    have hassoc : p ++ s :: q = (p ++ [s]) ++ q := by simp
    rw [hassoc] at h
    obtain ⟨hdir, _⟩ := Tree.node_append h
    have hnode : t.node (p ++ [s]) = some .dir := by
      by_cases hnil : q = []
      · rwa [hnil, List.append_nil] at h
      · exact hdir hnil
    obtain ⟨_, hs⟩ := Tree.node_concat hnode
    rw [advance, if_neg (by simp [hs.ne_nil, hs.ne_dot]), if_neg hs.ne_dotdot, hnode, hassoc]
    exact ih h

/-- A directory is found under its own path. -/
theorem follow_dir {n m : Nat} {p r q : List Text} {top : Text}
    (h : follow t n p (split top) = some (r, m)) (hdir : t.node (r ++ q) = some .dir) :
    follow t n p (split (spell top q)) = some (r ++ q, m) := by
  induction q using List.reverseRecOn with
  | nil =>
    rw [List.append_nil]
    exact h
  | append_singleton q s ih =>
    rw [← List.append_assoc] at hdir
    obtain ⟨hq, hs⟩ := Tree.node_concat hdir
    rw [spell_concat, follow_join (ih hq) hq hs.isabs, split_noSlash hs.noSlash,
      ← List.append_assoc]
    exact follow_of_done (advance_names hdir)

/-- A regular file is found under its own path. -/
theorem follow_file {n m i : Nat} {p r q : List Text} {s top : Text}
    (h : follow t n p (split top) = some (r, m)) (hfile : t.node (r ++ q ++ [s]) = some (.file i)) :
    follow t n p (split (join (spell top q) s)) = some (r ++ q ++ [s], m) := by
  obtain ⟨hq, hs⟩ := Tree.node_concat hfile
  rw [follow_join (follow_dir h hq) hq hs.isabs, split_noSlash hs.noSlash]
  apply follow_of_done
  rw [advance, if_neg (by simp [hs.ne_nil, hs.ne_dot]), if_neg hs.ne_dotdot, hfile]
  rfl

/-! ## Walking -/

/-- The directories below `r`, each by the names that lead to it, each before those in it and not
those in one that is pruned; at most `n` deep. -/
def walk (t : Tree) (r : List Text) (prune : List Text → Bool) : Nat → List Text → List (List Text)
  | 0, _ => []
  | n + 1, p =>
    p :: if prune p then [] else
      ((t.names (r ++ p)).filter fun s => t.node (r ++ p ++ [s]) == some .dir).flatMap fun s =>
        walk t r prune n (p ++ [s])

theorem mem_walk {r : List Text} {prune : List Text → Bool} {q : List Text} :
    ∀ {n : Nat} {p : List Text}, q ∈ walk t r prune n p ↔
      ∃ u, q = p ++ u ∧ u.length < n ∧ (u ≠ [] → t.node (r ++ q) = some .dir) ∧
        ∀ v, v <+: u → v ≠ u → prune (p ++ v) = false := by
  intro n
  induction n with
  | zero =>
    intro p
    simp [walk]
  | succ n ih =>
    intro p
    rw [walk, List.mem_cons]
    constructor
    · rintro (rfl | hq)
      · refine ⟨[], by simp, by simp, by simp, ?_⟩
        intro v hv hne
        exact absurd (List.prefix_nil.1 hv) hne
      · split at hq
        · cases hq
        · rename_i hprune
          obtain ⟨s, hs, hq⟩ := List.mem_flatMap.1 hq
          obtain ⟨u, rfl, hlen, hdir, hnot⟩ := ih.1 hq
          obtain ⟨_, hnode⟩ := List.mem_filter.1 hs
          refine ⟨s :: u, by simp, by simpa using hlen, ?_, ?_⟩
          · intro _
            by_cases hu : u = []
            · subst hu
              simpa [List.append_assoc] using hnode
            · exact hdir hu
          · intro v hv hne
            cases v with
            | nil => simpa using hprune
            | cons x v =>
              obtain ⟨rfl, hv'⟩ := List.cons_prefix_cons.1 hv
              have h := hnot v hv' fun heq => hne (by rw [heq])
              simpa using h
    · rintro ⟨u, rfl, hlen, hdir, hnot⟩
      cases u with
      | nil => exact Or.inl (by simp)
      | cons s u =>
        right
        have hroot := hnot [] List.nil_prefix (by simp)
        rw [List.append_nil] at hroot
        rw [if_neg (by simp [hroot])]
        have hassoc : r ++ (p ++ s :: u) = (r ++ p ++ [s]) ++ u := by simp
        have hnode : t.node (r ++ p ++ [s]) = some .dir := by
          have h := hdir (by simp)
          rw [hassoc] at h
          by_cases hu : u = []
          · rwa [hu, List.append_nil] at h
          · exact (Tree.node_append h).1 hu
        refine List.mem_flatMap.2 ⟨s, List.mem_filter.2 ⟨?_, by rw [hnode]; decide⟩, ?_⟩
        · rw [Tree.mem_names, hnode]
          simp
        · refine ih.2 ⟨u, by simp, by simpa using hlen, ?_, ?_⟩
          · intro _
            simpa using hdir (by simp)
          · intro v hv hne
            have h := hnot (s :: v) (List.cons_prefix_cons.2 ⟨rfl, hv⟩) (by simpa using hne)
            simpa using h

/-- **The directories that a walk comes to** are those below none that is pruned. -/
theorem mem_walk_iff {r : List Text} (hr : t.node r = some .dir) {prune : List Text → Bool}
    {q : List Text} : q ∈ walk t r prune (t.depth + 1) [] ↔
      t.node (r ++ q) = some .dir ∧ ∀ v, v <+: q → v ≠ q → prune v = false := by
  rw [mem_walk]
  constructor
  · rintro ⟨u, rfl, _, hdir, hnot⟩
    refine ⟨?_, fun v hv hne => by simpa using hnot v hv hne⟩
    by_cases hq : q = []
    · rwa [hq, List.append_nil]
    · exact hdir hq
  · rintro ⟨hdir, hnot⟩
    have hlen := Tree.length_le_depth hdir
    rw [List.length_append] at hlen
    exact ⟨q, rfl, by omega, fun _ => hdir, fun v hv hne => by simpa using hnot v hv hne⟩

end LinkTree
