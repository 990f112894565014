import DenBrowser.Text

/-!
# Host matching

The rule every compiled-in domain list of the browser uses: a host matches a pattern when it is
the pattern or a subdomain of it.

* `hostMatch_iff` — the rule, as a decomposition of the host;
* `hostMatch_iff_labels` — the rule, label by label;
* `anyUntilNull_nullTerminated` — the loops over arrays of names read in bounds.
-/

set_option autoImplicit false

namespace DenBrowser

/-- The body shared by `DenClipHostMatch`, `DenClipHostMatchP` and `ProxyHostMatch`. -/
def hostMatch (host pat : Str) : Bool :=
  if host = pat then true
  else if pat.length + 1 < host.length then
    host[host.length - pat.length - 1]? == some '.' &&
      host.drop (host.length - pat.length) == pat
  else false

/-- The host is the pattern, or ends in a dot and the pattern after a nonempty label. -/
theorem hostMatch_iff {host pat : Str} :
    hostMatch host pat = true ↔
      host = pat ∨ ∃ pre, pre ≠ [] ∧ host = pre ++ '.' :: pat := by
  unfold hostMatch
  by_cases heq : host = pat
  · simp [heq]
  rw [if_neg heq]
  constructor
  · intro h
    by_cases hlen : pat.length + 1 < host.length
    · rw [if_pos hlen, Bool.and_eq_true, beq_iff_eq, beq_iff_eq] at h
      obtain ⟨hdot, htail⟩ := h
      refine Or.inr ⟨host.take (host.length - pat.length - 1), ?_, ?_⟩
      · intro hnil
        have hl := congrArg List.length hnil
        rw [List.length_take, List.length_nil] at hl
        omega
      · have hidx : host.length - pat.length - 1 < host.length := by omega
        have hget : host[host.length - pat.length - 1] = '.' := by
          rw [List.getElem?_eq_getElem hidx] at hdot
          exact Option.some.inj hdot
        have hsplit := (List.take_append_drop (host.length - pat.length - 1) host).symm
        rw [List.drop_eq_getElem_cons hidx, hget] at hsplit
        have hsucc : host.length - pat.length - 1 + 1 = host.length - pat.length := by omega
        rw [hsucc, htail] at hsplit
        exact hsplit
    · rw [if_neg hlen] at h
      cases h
  · rintro (h | ⟨pre, hpre, rfl⟩)
    · exact absurd h heq
    · have hpos : 0 < pre.length := List.length_pos_of_ne_nil hpre
      have hlen : (pre ++ '.' :: pat).length = pre.length + pat.length + 1 := by
        rw [List.length_append, List.length_cons]
        omega
      rw [if_pos (by omega), Bool.and_eq_true, beq_iff_eq, beq_iff_eq]
      have h1 : (pre ++ '.' :: pat).length - pat.length - 1 = pre.length := by omega
      have h2 : (pre ++ '.' :: pat).length - pat.length = pre.length + 1 := by omega
      rw [h1, h2]
      refine ⟨by simp, ?_⟩
      rw [List.drop_append, List.drop_of_length_le (by omega), List.nil_append]
      have h3 : pre.length + 1 - pre.length = 1 := by omega
      rw [h3]
      rfl

/-- The labels of a name. -/
def labels (s : Str) : List Str := s.splitOn '.'

theorem labels_ne_nil (s : Str) : labels s ≠ [] := List.splitOn_ne_nil '.' s

theorem labels_append (a b : Str) : labels (a ++ '.' :: b) = labels a ++ labels b :=
  List.splitOn_append_cons_self a b

theorem intercalate_labels (s : Str) : ['.'].intercalate (labels s) = s :=
  List.intercalate_splitOn '.'

theorem intercalate_append {ls ms : List Str} (hl : ls ≠ []) (hm : ms ≠ []) :
    ['.'].intercalate (ls ++ ms) = ['.'].intercalate ls ++ '.' :: ['.'].intercalate ms := by
  induction ls with
  | nil => exact absurd rfl hl
  | cons l ls ih =>
    by_cases hls : ls = []
    · rw [hls, List.singleton_append, List.intercalate_cons_of_ne_nil hm]
      simp
    · have hne : ls ++ ms ≠ [] := by simp [hls]
      rw [List.cons_append, List.intercalate_cons_of_ne_nil hne, ih hls,
        List.intercalate_cons_of_ne_nil hls]
      simp

/-- **The rule, label by label**: the labels of the pattern end those of the host. -/
theorem hostMatch_iff_labels {host pat : Str} (h : [] ∉ labels host) :
    hostMatch host pat = true ↔ labels pat <:+ labels host := by
  rw [hostMatch_iff]
  constructor
  · rintro (rfl | ⟨pre, _, rfl⟩)
    · exact List.suffix_rfl
    · rw [labels_append]
      exact List.suffix_append _ _
  · rintro ⟨front, hfront⟩
    have hhost := intercalate_labels host
    by_cases hnil : front = []
    · rw [← hfront, hnil, List.nil_append, intercalate_labels] at hhost
      exact Or.inl hhost.symm
    · rw [← hfront, intercalate_append hnil (labels_ne_nil pat), intercalate_labels] at hhost
      refine Or.inr ⟨_, ?_, hhost.symm⟩
      cases front with
      | nil => exact absurd rfl hnil
      | cons l front =>
        intro hempty
        have hl : l = [] := by
          by_cases hf : front = []
          · rw [hf, List.intercalate_singleton] at hempty
            exact hempty
          · rw [List.intercalate_cons_of_ne_nil hf] at hempty
            simp at hempty
        apply h
        rw [← hfront, hl]
        simp

/-! ## Hostnames -/

/-- One label of `HOST_RE`. -/
def hostLabel (l : Str) : Bool :=
  let edge := fun c : Char => c.isLower || c.isDigit
  l.head?.any edge && l.getLast?.any edge && l.all fun c => edge c || c == '-'

/-- `HOST_RE`, which `build.sh` checks every domain of the proxy table against. -/
def hostRe (domain : Str) : Bool := (domain.splitOn '.').all hostLabel

example : hostRe "app.example.com".toList = true ∧ hostRe "-a.example.com".toList = false := by
  decide

/-- The characters of a hostname. -/
theorem hostRe_chars {domain : Str} (h : hostRe domain = true) :
    ∀ c ∈ domain, c.isLower = true ∨ c.isDigit = true ∨ c = '-' ∨ c = '.' := by
  intro c hc
  have hjoin : ['.'].intercalate (domain.splitOn '.') = domain := List.intercalate_splitOn '.'
  rw [← hjoin] at hc
  rcases mem_intercalate hc with hdot | ⟨l, hl, hin⟩
  · exact Or.inr (Or.inr (Or.inr (List.mem_singleton.1 hdot)))
  · have hlabel := List.all_eq_true.1 h l hl
    unfold hostLabel at hlabel
    simp only [Bool.and_eq_true, List.all_eq_true] at hlabel
    have hchar := hlabel.2 c hin
    simp only [Bool.or_eq_true, beq_iff_eq] at hchar
    rcases hchar with (h | h) | h
    · exact Or.inl h
    · exact Or.inr (Or.inl h)
    · exact Or.inr (Or.inr (Or.inl h))

/-! ## Arrays of names -/

/-- A list as a C array of strings: its items, then a null pointer. -/
def nullTerminated (items : List Str) : List (Option Str) := items.map some ++ [none]

/-- A loop over such an array; `none` when it is read past its end. -/
def anyUntilNull (p : Str → Bool) : List (Option Str) → Option Bool
  | [] => none
  | none :: _ => some false
  | some item :: rest => if p item then some true else anyUntilNull p rest

/-- The loop reads to the null pointer at most. -/
theorem anyUntilNull_nullTerminated (p : Str → Bool) (items : List Str) :
    anyUntilNull p (nullTerminated items) = some (items.any p) := by
  induction items with
  | nil => rfl
  | cons item items ih =>
    show anyUntilNull p (some item :: nullTerminated items) = _
    unfold anyUntilNull
    by_cases h : p item = true
    · simp [h]
    · rw [if_neg h, ih]
      simp [h]

end DenBrowser
