import DenBrowser.Browser.ProxyTableRows

/-!
# Step 2.5

When the file that is written denotes the entries that were checked.

* `run_none_of_newline` — a newline that a pattern let through breaks the C++;
* `checkEntries_raws` — the entries are what the configuration says;
* `step25_faithful` — the step does what it is for, exactly when no string ends in a newline.
-/

set_option autoImplicit false

namespace DenBrowser.ProxyTableText

open ProxyTable SiteConfig GeneratedBlock CTables Sentinel

/-! ## What the patterns accept -/

theorem ordinary_of_isAlphanum {c : Char} (h : c.isAlphanum = true) : Ordinary c := by
  refine ⟨⟨?_, ?_, ?_, ?_⟩, ?_, ?_⟩ <;>
  · rintro rfl
    revert h
    decide

/-- Ordinary characters, and at most a newline after them. -/
def OrdinaryLine (s : Str) : Prop := ∃ t, (∀ c ∈ t, Ordinary c) ∧ (s = t ∨ s = t ++ ['\n'])

theorem ordinaryLine_of_matchDollar {re : Str → Bool} {s : Str}
    (hre : ∀ t, re t = true → ∀ c ∈ t, Ordinary c) (h : matchDollar re s = true) :
    OrdinaryLine s := by
  unfold matchDollar at h
  rw [Bool.or_eq_true, Bool.and_eq_true, beq_iff_eq] at h
  rcases h with h | ⟨hlast, h⟩
  · exact ⟨s, hre s h, Or.inl rfl⟩
  · refine ⟨s.dropLast, hre _ h, Or.inr ?_⟩
    exact (List.dropLast_append_getLast? '\n' hlast).symm

theorem ordinary_nameRe {name : Str} (h : nameRe name = true) : ∀ c ∈ name, Ordinary c := by
  cases name with
  | nil => cases h
  | cons c cs =>
    unfold nameRe at h
    rw [Bool.and_eq_true, List.all_eq_true] at h
    rw [List.forall_mem_cons]
    refine ⟨ordinary_of_isAlphanum h.1, ?_⟩
    intro d hd
    have hchar := h.2 d hd
    simp only [Bool.or_eq_true, beq_iff_eq] at hchar
    rcases hchar with ((h | rfl) | rfl) | rfl
    · exact ordinary_of_isAlphanum h
    · decide
    · decide
    · decide

theorem ordinary_hostRe {domain : Str} (h : hostRe domain = true) : ∀ c ∈ domain, Ordinary c := by
  intro c hc
  rcases hostRe_chars h c hc with h | h | rfl | rfl
  · apply ordinary_of_isAlphanum
    unfold Char.isAlphanum Char.isAlpha
    rw [h, Bool.or_true, Bool.true_or]
  · apply ordinary_of_isAlphanum
    unfold Char.isAlphanum
    rw [h, Bool.or_true]
  · decide
  · decide

/-- The strings of an entry, as the patterns accept them. -/
structure Printed (e : Entry) : Prop where
  name : OrdinaryLine e.name
  domains : ∀ d ∈ e.domains, OrdinaryLine d

theorem Printed.of_valid {e : Entry} (h : Valid e) : Printed e :=
  ⟨ordinaryLine_of_matchDollar (fun _ => ordinary_nameRe) h.name,
    fun d hd => ordinaryLine_of_matchDollar (fun _ => ordinary_hostRe) (h.hosts d hd).2⟩

/-- No string has a newline. -/
def NoNewline (e : Entry) : Prop := '\n' ∉ e.name ∧ ∀ d ∈ e.domains, '\n' ∉ d

theorem OrdinaryLine.ordinary {s : Str} (h : OrdinaryLine s) (hn : '\n' ∉ s) :
    ∀ c ∈ s, Ordinary c := by
  obtain ⟨t, ht, rfl | rfl⟩ := h
  · exact ht
  · exact absurd (by simp) hn

theorem OrdinaryLine.newline {s : Str} (h : OrdinaryLine s) (hn : '\n' ∈ s) :
    ∃ t, (∀ c ∈ t, Plain c) ∧ s = t ++ ['\n'] := by
  obtain ⟨t, ht, rfl | rfl⟩ := h
  · exact absurd rfl (ht _ hn).1.2.2.1
  · exact ⟨t, fun c hc => (ht c hc).1, rfl⟩

/-! ## Lines that are not C++ -/

/-- A line that is not C++ by itself. -/
def Breaks (line : Str) : Prop := run .code (line ++ ['\n']) = none

theorem breaks_domain {d : Str} (h : OrdinaryLine d) (hn : '\n' ∈ d) :
    Breaks ("    \"".toList ++ (d ++ "\",".toList)) := by
  obtain ⟨t, ht, rfl⟩ := h.newline hn
  unfold Breaks
  have hhead : run .code "    \"".toList = some ([], .literal []) := by decide
  simp only [List.append_assoc, List.singleton_append]
  exact run_none hhead (run_newline ht _)

theorem breaks_row {i : Nat} {e : Entry} (h : OrdinaryLine e.name) (hn : '\n' ∈ e.name) :
    Breaks (rowLine i e) := by
  obtain ⟨t, ht, heq⟩ := h.newline hn
  unfold Breaks rowLine
  rw [heq]
  have hhead : run .code "  \x7b\"".toList = some ([.punct '{'], .literal []) := by decide
  simp only [List.append_assoc, List.singleton_append]
  exact run_none hhead (run_newline ht _)

/-- A line that is C++ of some tokens, or none. -/
def Settled (line : Str) : Prop := (∃ ts, Reads line ts) ∨ Breaks line

/-- **One line that is not C++** is enough. -/
theorem run_lines_none {lines : List Str} (h : ∀ line ∈ lines, Settled line)
    (hbreaks : ∃ line ∈ lines, Breaks line) :
    run .code (lines.flatMap fun line => line ++ ['\n']) = none := by
  induction lines with
  | nil =>
    obtain ⟨line, hline, _⟩ := hbreaks
    cases hline
  | cons line lines ih =>
    obtain ⟨hline, hlines⟩ := List.forall_mem_cons.1 h
    rw [List.flatMap_cons]
    rcases hline with ⟨ts, hts⟩ | hline
    · refine run_none hts (ih hlines ?_)
      obtain ⟨line', hmem, hb⟩ := hbreaks
      rcases List.mem_cons.1 hmem with rfl | hmem
      · unfold Breaks at hb
        rw [hts] at hb
        cases hb
      · exact ⟨line', hmem, hb⟩
    · rw [run_append, hline]
      rfl

theorem settled_entryLines {i : Nat} {e : Entry} (h : Printed e) :
    ∀ line ∈ entryLines i e, Settled line := by
  intro line hline
  have hdomain : ∀ d ∈ e.domains, Settled ("    \"".toList ++ (d ++ "\",".toList)) := by
    intro d hd
    by_cases hn : '\n' ∈ d
    · exact Or.inr (breaks_domain (h.domains d hd) hn)
    · exact Or.inl ⟨_, reads_domain fun c hc => ((h.domains d hd).ordinary hn c hc).1⟩
  have hpin : ∀ pin, ∀ l ∈ [
      "static const uint8_t ".toList ++ (kDenProxyPin i ++ "[32] = \x7b".toList),
      cBytes pin, "\x7d;".toList], Settled l := by
    intro pin l hl
    simp only [List.mem_cons, List.not_mem_nil, or_false] at hl
    rcases hl with rfl | rfl | rfl
    · exact Or.inl ⟨_, reads_pin i⟩
    · exact Or.inl ⟨_, reads_cBytes pin⟩
    · exact Or.inl ⟨_, reads_end⟩
  unfold entryLines at hline
  simp only [List.mem_append, List.mem_cons, List.mem_map, List.not_mem_nil, or_false] at hline
  rcases hline with ((rfl | ⟨d, hd, rfl⟩) | (rfl | rfl | rfl | rfl | rfl)) | hline
  · exact Or.inl ⟨_, reads_domains i⟩
  · exact hdomain d hd
  · exact Or.inl ⟨_, reads_nullptr⟩
  · exact Or.inl ⟨_, reads_end⟩
  · exact Or.inl ⟨_, reads_key i⟩
  · exact Or.inl ⟨_, reads_cBytes e.key⟩
  · exact Or.inl ⟨_, reads_end⟩
  · cases he : e.pin with
    | none =>
      rw [he] at hline
      cases hline
    | some pin =>
      rw [he] at hline
      exact hpin pin line hline

theorem settled_tableLines {entries : List Entry} (h : ∀ e ∈ entries, Printed e) :
    ∀ line ∈ tableLines entries, Settled line := by
  intro line hline
  unfold tableLines at hline
  simp only [List.mem_append, List.mem_cons, List.mem_flatMap, List.mem_map, List.not_mem_nil,
    or_false] at hline
  rcases hline with ((((rfl | rfl) | ⟨e, he, hline⟩) | rfl) | ⟨e, he, rfl⟩) | (rfl | rfl)
  · exact Or.inl ⟨_, reads_generated⟩
  · exact Or.inl ⟨_, reads_doNotEdit⟩
  · exact settled_entryLines (h e.1 (List.fst_mem_of_mem_zipIdx he)) line hline
  · exact Or.inl ⟨_, reads_kDenProxies⟩
  · have hprinted := h e.1 (List.fst_mem_of_mem_zipIdx he)
    by_cases hn : '\n' ∈ e.1.name
    · exact Or.inr (breaks_row hprinted.name hn)
    · exact Or.inl ⟨_, reads_row fun c hc => (hprinted.name.ordinary hn c hc).1⟩
  · exact Or.inl ⟨_, reads_nullRow⟩
  · exact Or.inl ⟨_, reads_end⟩

/-- **A newline** that a pattern let through breaks the C++. -/
theorem run_none_of_newline {entries : List Entry} (h : ∀ e ∈ entries, Printed e)
    (hn : ∃ e ∈ entries, ¬NoNewline e) :
    run .code ((tableLines entries).flatMap fun line => line ++ ['\n']) = none := by
  apply run_lines_none (settled_tableLines h)
  obtain ⟨e, he, hn⟩ := hn
  obtain ⟨i, hi, hget⟩ := List.getElem_of_mem he
  have hmem : (e, i) ∈ entries.zipIdx := by
    rw [List.mem_zipIdx_iff_getElem?, List.getElem?_eq_getElem hi, hget]
  unfold NoNewline at hn
  rw [not_and_or] at hn
  rcases hn with hn | hn
  · refine ⟨rowLine i e, ?_, breaks_row (h e he).name (not_not.1 hn)⟩
    unfold tableLines
    simp only [List.mem_append, List.mem_map]
    exact Or.inl (Or.inr ⟨(e, i), hmem, rfl⟩)
  · push Not at hn
    obtain ⟨d, hd, hn⟩ := hn
    refine ⟨"    \"".toList ++ (d ++ "\",".toList), ?_, breaks_domain ((h e he).domains d hd) hn⟩
    unfold tableLines
    simp only [List.mem_append, List.mem_flatMap]
    refine Or.inl (Or.inl (Or.inl (Or.inr ⟨(e, i), hmem, ?_⟩)))
    unfold entryLines
    simp only [List.mem_append, List.mem_map]
    exact Or.inl (Or.inl (Or.inr ⟨d, hd, rfl⟩))

/-! ## The entries and the configuration -/

/-- The entry is what the configuration says. -/
structure FromRaw (py : PythonStr) (raw : RawEntry) (e : Entry) : Prop where
  name : raw.name = some e.name
  domains : ∃ domains : List Str, raw.domains = some (domains.map some) ∧
    e.domains = domains.map (normalize py)
  key : raw.keyDer = some e.key
  pin : raw.pin = some e.pin

theorem checkEntry_fromRaw {py : PythonStr} {seenNames : List Str} {raw : RawEntry} {e : Entry}
    (h : checkEntry py seenNames raw = some e) : FromRaw py raw e := by
  obtain ⟨⟨hname, _, _⟩, ⟨domains, hraw, _, hdomains⟩, ⟨hkey, _⟩, hpin⟩ := checkEntry_some h
  obtain ⟨⟨texts, rfl, heq⟩, _⟩ := checkDomains_some hdomains
  exact ⟨hname, ⟨texts, hraw, heq⟩, hkey, hpin⟩

/-- **The entries** are what the configuration says, in its order. -/
theorem checkEntries_raws {py : PythonStr} : ∀ {raws : List RawEntry} {seenNames : List Str}
    {entries : List Entry}, checkEntries py seenNames raws = some entries →
    List.Forall₂ (FromRaw py) raws entries := by
  intro raws
  induction raws with
  | nil =>
    intro seenNames entries h
    cases h
    exact List.Forall₂.nil
  | cons raw rest ih =>
    intro seenNames entries h
    unfold checkEntries at h
    cases hentry : checkEntry py seenNames raw with
    | none => rw [hentry] at h; cases h
    | some e =>
      rw [hentry] at h
      obtain ⟨entries', hentries', rfl⟩ := Option.map_eq_some_iff.1 h
      exact List.Forall₂.cons (checkEntry_fromRaw hentry) (ih hentries')

/-- What an entry of the configuration has to be, to be written as it is. -/
structure RawWritable (py : PythonStr) (raw : RawEntry) : Prop where
  name : ∀ name, raw.name = some name → '\n' ∉ name
  domains : ∀ domains, raw.domains = some domains →
    ∀ domain, some domain ∈ domains → '\n' ∉ normalize py domain
  key : ∀ key, raw.keyDer = some key → key.length < 2 ^ 32

theorem FromRaw.writable_iff {py : PythonStr} {raw : RawEntry} {e : Entry} (h : FromRaw py raw e) :
    RawWritable py raw ↔ NoNewline e ∧ e.key.length < 2 ^ 32 := by
  obtain ⟨domains, hraw, heq⟩ := h.domains
  constructor
  · intro hw
    refine ⟨⟨hw.name _ h.name, ?_⟩, hw.key _ h.key⟩
    intro d hd
    rw [heq] at hd
    obtain ⟨domain, hdomain, rfl⟩ := List.mem_map.1 hd
    exact hw.domains _ hraw domain (List.mem_map_of_mem hdomain)
  · rintro ⟨⟨hname, hdomains⟩, hkey⟩
    refine ⟨?_, ?_, ?_⟩
    · intro name hn
      rw [h.name] at hn
      cases hn
      exact hname
    · intro ds hds domain hdomain
      rw [hraw] at hds
      cases hds
      apply hdomains
      rw [heq]
      obtain ⟨domain', hmem, hsome⟩ := List.mem_map.1 hdomain
      cases hsome
      exact List.mem_map_of_mem hmem
    · intro key hk
      rw [h.key] at hk
      cases hk
      exact hkey

theorem forall_writable_iff {py : PythonStr} {raws : List RawEntry} {entries : List Entry}
    (h : List.Forall₂ (FromRaw py) raws entries) :
    (∀ raw ∈ raws, RawWritable py raw) ↔ ∀ e ∈ entries, NoNewline e ∧ e.key.length < 2 ^ 32 := by
  induction h with
  | nil => simp
  | cons hhead _ ih =>
    rw [List.forall_mem_cons, List.forall_mem_cons, hhead.writable_iff, ih]

theorem forall_pin {py : PythonStr} {raws : List RawEntry} {entries : List Entry}
    (h : List.Forall₂ (FromRaw py) raws entries) (hdigests : HasDigests raws) :
    ∀ e ∈ entries, ∀ pin, e.pin = some pin → pin.length = 32 := by
  induction h with
  | nil =>
    intro e he
    cases he
  | cons hhead _ ih =>
    rw [List.forall_mem_cons]
    refine ⟨?_, ih fun raw hraw => hdigests raw (List.mem_cons_of_mem _ hraw)⟩
    intro pin hpin
    apply hdigests _ List.mem_cons_self
    rw [hhead.pin, hpin]

/-! ## The text that is written -/

theorem free_indexed {name : String} (h : '─' ∉ name.toList) (i : Nat) : '─' ∉ indexed name i := by
  unfold indexed
  rw [List.mem_append, not_or]
  refine ⟨h, fun hmem => ?_⟩
  have hdigit : Char.isDigit '─' = true := Nat.isDigit_of_mem_toDigits (by decide) (by decide) hmem
  revert hdigit
  decide

theorem free_cBytes (raw : Bytes) : '─' ∉ cBytes raw := by
  have hword : ∀ b : UInt8, '─' ∉ cByte b := by
    intro b hmem
    have hdigit : ∀ n < 16, Nat.digitChar n ≠ '─' := by decide
    have hlt := b.toNat_lt
    unfold cByte hexWord at hmem
    simp only [List.mem_append, List.mem_cons, List.not_mem_nil, or_false] at hmem
    rcases hmem with (h | h | h | h) | h
    · revert h
      decide
    · revert h
      decide
    · exact hdigit _ (by omega) h.symm
    · exact hdigit _ (by omega) h.symm
    · revert h
      decide
  intro hmem
  unfold cBytes joinLines at hmem
  rcases mem_intercalate hmem with h | ⟨line, hline, h⟩
  · revert h
    decide
  · obtain ⟨slice, _, rfl⟩ := List.mem_map.1 hline
    rcases List.mem_append.1 h with h | h
    · revert h
      decide
    · rcases mem_intercalate h with h | ⟨w, hw, h⟩
      · revert h
        decide
      · obtain ⟨b, _, rfl⟩ := List.mem_map.1 hw
        exact hword b h

theorem OrdinaryLine.free {s : Str} (h : OrdinaryLine s) : '─' ∉ s := by
  have hno : ∀ t : Str, (∀ c ∈ t, Ordinary c) → '─' ∉ t := fun t ht hmem => (ht _ hmem).2.2 rfl
  obtain ⟨t, ht, rfl | rfl⟩ := h
  · exact hno _ ht
  · rw [List.mem_append, not_or]
    exact ⟨hno t ht, by decide⟩

theorem free_entryLines {i : Nat} {e : Entry} (h : Printed e) :
    ∀ line ∈ entryLines i e, '─' ∉ line := by
  have hdomains : '─' ∉ kDenProxyDomains i := free_indexed (by decide) i
  have hkey : '─' ∉ kDenProxyKey i := free_indexed (by decide) i
  have hpin : '─' ∉ kDenProxyPin i := free_indexed (by decide) i
  intro line hline
  unfold entryLines at hline
  simp only [List.mem_append, List.mem_cons, List.mem_map, List.not_mem_nil, or_false] at hline
  rcases hline with ((rfl | ⟨d, hd, rfl⟩) | (rfl | rfl | rfl | rfl | rfl)) | hline
  · simp only [List.mem_append, not_or]
    exact ⟨by decide, hdomains, by decide⟩
  · simp only [List.mem_append, not_or]
    exact ⟨by decide, (h.domains d hd).free, by decide⟩
  · decide
  · decide
  · simp only [List.mem_append, not_or]
    exact ⟨by decide, hkey, by decide⟩
  · exact free_cBytes e.key
  · decide
  · cases hp : e.pin with
    | none =>
      rw [hp] at hline
      cases hline
    | some pin =>
      rw [hp] at hline
      simp only [List.mem_cons, List.not_mem_nil, or_false] at hline
      rcases hline with rfl | rfl | rfl
      · simp only [List.mem_append, not_or]
        exact ⟨by decide, hpin, by decide⟩
      · exact free_cBytes pin
      · decide

theorem free_rowLine {i : Nat} {e : Entry} (h : Printed e) : '─' ∉ rowLine i e := by
  have hdomains : '─' ∉ kDenProxyDomains i := free_indexed (by decide) i
  have hkey : '─' ∉ kDenProxyKey i := free_indexed (by decide) i
  have hpin : '─' ∉ pinRef i e := by
    unfold pinRef
    cases e.pin with
    | none =>
      show '─' ∉ "nullptr".toList
      decide
    | some pin => exact free_indexed (by decide) i
  unfold rowLine
  simp only [List.mem_append, not_or]
  exact ⟨by decide, h.name.free, by decide, hdomains, by decide, hkey, by decide, hkey, by decide,
    hpin, by decide⟩

theorem free_tableLines {entries : List Entry} (h : ∀ e ∈ entries, Printed e) :
    ∀ line ∈ tableLines entries, '─' ∉ line := by
  intro line hline
  unfold tableLines at hline
  simp only [List.mem_append, List.mem_cons, List.mem_flatMap, List.mem_map, List.not_mem_nil,
    or_false] at hline
  rcases hline with ((((rfl | rfl) | ⟨e, he, hline⟩) | rfl) | ⟨e, he, rfl⟩) | (rfl | rfl)
  · decide
  · decide
  · exact free_entryLines (h e.1 (List.fst_mem_of_mem_zipIdx he)) line hline
  · decide
  · exact free_rowLine (h e.1 (List.fst_mem_of_mem_zipIdx he))
  · decide
  · decide

/-- The second sentinel is not written before the end of the block. -/
theorem fresh_body {entries : List Entry} (h : ∀ e ∈ entries, Printed e) :
    Fresh PROXY_STOP.text (body entries) := by
  have hfree : '─' ∉ body entries := by
    unfold body
    rw [List.mem_cons, not_or]
    refine ⟨by decide, fun hmem => ?_⟩
    obtain ⟨line, hline, hmem⟩ := List.mem_flatMap.1 hmem
    rcases List.mem_append.1 hmem with hmem | hmem
    · exact free_tableLines h line hline hmem
    · revert hmem
      decide
  have hself : Words.Apart PROXY_STOP.text PROXY_STOP.text := by decide
  have hdash : '─' ∈ PROXY_STOP.text := by decide
  exact (fresh_iff PROXY_STOP.ne_nil hself).2 fun hin => hfree (hin.subset hdash)

/-! ## The file that is written -/

section

variable {entries : List Entry} {source : Str}

theorem declarations_none (h : ∀ e ∈ entries, Printed e) (hn : ∃ e ∈ entries, ¬NoNewline e) :
    declarations (body entries) = none := by
  have hnewline : run .comment ['\n'] = some ([], .code) := by decide
  have hrun := run_none hnewline (run_none_of_newline h hn)
  have hbody : run .comment (body entries) = none := by
    rw [body, ← List.singleton_append]
    exact hrun
  unfold declarations lex
  rw [hbody]

/-- The file that is written. -/
def written (entries : List Entry) (source : Str) : Str :=
  writeBlocks PROXY_START PROXY_STOP (fun _ => body entries) source

theorem blocks_written (h : ∀ e ∈ entries, Printed e) :
    blocks PROXY_START.text PROXY_STOP.text (written entries source) =
      ((blocks PROXY_START.text PROXY_STOP.text source).map Lockdown.universalNewlines).fill
        fun _ => body entries :=
  blocks_writeBlocks fun _ _ => fresh_body h

theorem blockCount_written (h : ∀ e ∈ entries, Printed e) :
    blockCount PROXY_START PROXY_STOP (written entries source) =
      blockCount PROXY_START PROXY_STOP source := by
  rw [blockCount_eq, blockCount_eq, blocks_written h]
  simp [Parts.fill, Parts.map]

theorem tableOf_written (h : ∀ e ∈ entries, Printed e)
    (hcount : blockCount PROXY_START PROXY_STOP source = 1) :
    tableOf (written entries source) = (declarations (body entries)).bind resolveTable := by
  rw [blockCount_eq] at hcount
  obtain ⟨b, hb⟩ := List.length_eq_one_iff.1 hcount
  unfold tableOf
  rw [blocks_written h]
  simp [Parts.fill, Parts.map, Parts.bodies, hb]

/-- A file that was written denotes the entries when no string has a newline and no key is too
long. -/
theorem tableOf_written_iff (h : ∀ e ∈ entries, Printed e)
    (hpin : ∀ e ∈ entries, ∀ pin, e.pin = some pin → pin.length = 32)
    (hcount : blockCount PROXY_START PROXY_STOP source = 1) :
    tableOf (written entries source) = some (rowsOf entries) ↔
      ∀ e ∈ entries, NoNewline e ∧ e.key.length < 2 ^ 32 := by
  rw [tableOf_written h hcount]
  by_cases hn : ∀ e ∈ entries, NoNewline e
  · have hwrites : ∀ e ∈ entries, Writes e := fun e he =>
      ⟨(h e he).name.ordinary (hn e he).1,
        fun d hd => ((h e he).domains d hd).ordinary ((hn e he).2 d hd), hpin e he⟩
    rw [declarations_body fun e he => (hwrites e he).literal, Option.bind_some]
    show resolveTable (tableDecls entries) = _ ↔ _
    rw [resolveTable_tableDecls hwrites, Option.some.injEq, writtenRows, rowsOf,
      List.map_inj_left]
    constructor
    · intro hall e he
      have hmem : (⟨some e.name, nullTerminated e.domains, e.key, e.pin⟩ : DenProxyEntry) ∈
          emit entries := List.mem_append_left _ (List.mem_map_of_mem he)
      have hlen := (Row.mk.inj (hall _ hmem)).2
      refine ⟨hn e he, ?_⟩
      rw [← hlen]
      exact Nat.mod_lt _ (Nat.two_pow_pos 32)
    · intro hall row hrow
      have hlt : row.attestKey.length < 2 ^ 32 := by
        rcases List.mem_append.1 hrow with hrow | hrow
        · obtain ⟨e, he, rfl⟩ := List.mem_map.1 hrow
          exact (hall e he).2
        · rw [List.mem_singleton.1 hrow]
          exact Nat.two_pow_pos 32
      rw [Nat.mod_eq_of_lt hlt]
  · push Not at hn
    rw [declarations_none h hn]
    constructor
    · intro hnone
      cases hnone
    · intro hall
      obtain ⟨e, he, hnot⟩ := hn
      exact absurd (hall e he).1 hnot

end

/-! ## The step -/

/-- The entries that the step accepts. -/
def validated (t : Tools) (py : PythonStr) (proxies : Option Json) : Option (List Entry) :=
  match proxies.getD (.list []) with
  | .list values => checked t py values
  | _ => none

section

variable {t : Tools} {py : PythonStr} {proxies : Option Json} {source result : Str}

theorem step25_written {v : Json} {vs : List Json} {entries : List Entry}
    (hlist : proxies.getD (.list []) = .list (v :: vs))
    (hchecked : checked t py (v :: vs) = some entries)
    (hcount : blockCount PROXY_START PROXY_STOP source = 1) :
    step25 t py proxies source = some (written entries source) := by
  unfold step25
  rw [hlist]
  dsimp only
  rw [hchecked]
  dsimp only
  rw [if_pos hcount]
  rfl

/-- What the step does when the build goes on. -/
theorem step25_some (h : step25 t py proxies source = some result) :
    (proxies.getD (.list []) = .list [] ∧ result = source) ∨
    ∃ v vs entries, proxies.getD (.list []) = .list (v :: vs) ∧
      checked t py (v :: vs) = some entries ∧
      blockCount PROXY_START PROXY_STOP source = 1 ∧ result = written entries source := by
  unfold step25 at h
  split at h
  · rename_i hnil
    cases h
    exact Or.inl ⟨hnil, rfl⟩
  · rename_i values hne hlist
    cases values with
    | nil => exact absurd rfl hne
    | cons v vs =>
      cases hchecked : checked t py (v :: vs) with
      | none =>
        rw [hchecked] at h
        cases h
      | some entries =>
        rw [hchecked] at h
        dsimp only at h
        split at h
        · rename_i hcount
          cases h
          exact Or.inr ⟨v, vs, entries, hlist, hchecked, hcount, rfl⟩
        · cases h
  · cases h

end

/-- The file after the step is as it was but for the block, whose C++ is the table of the entries,
and the step again changes nothing. -/
structure Faithful (t : Tools) (py : PythonStr) (proxies : Option Json) (entries : List Entry)
    (source result : Str) : Prop where
  outside : (blocks PROXY_START.text PROXY_STOP.text result).outside =
    (blocks PROXY_START.text PROXY_STOP.text source).outside
  table : tableOf result = some (rowsOf entries)
  again : step25 t py proxies result = some result

/-- The configuration can be written into the file: no name and no domain has a newline, no key is
longer than a `uint32_t` says, and no carriage return is lost.  Without a proxy the file stays, and
has to have the table without entries already. -/
def Writable (t : Tools) (py : PythonStr) (proxies : Option Json) (source : Str) : Prop :=
  match proxies.getD (.list []) with
  | .list [] => tableOf source = some (rowsOf [])
  | .list values =>
    (∀ raws, rawEntries t values = some raws → ∀ raw ∈ raws, RawWritable py raw) ∧
      ∀ part ∈ (blocks PROXY_START.text PROXY_STOP.text source).outside, '\r' ∉ part
  | _ => True

/-- The entries that were checked are printed as the patterns accept them, with digests for pins. -/
theorem checked_some {t : Tools} {py : PythonStr} {values : List Json} {entries : List Entry}
    (h : checked t py values = some entries) :
    ∃ raws, rawEntries t values = some raws ∧ List.Forall₂ (FromRaw py) raws entries ∧
      (∀ e ∈ entries, Printed e) ∧ ∀ e ∈ entries, ∀ pin, e.pin = some pin → pin.length = 32 := by
  obtain ⟨raws, hraws, hentries⟩ := Option.bind_eq_some_iff.1 h
  have hfrom := checkEntries_raws hentries
  exact ⟨raws, hraws, hfrom,
    fun e he => Printed.of_valid ((checkEntries_valid hentries).1 e he).1,
    forall_pin hfrom (rawEntries_digests hraws)⟩

/-- **Step 2.5.**  For every configuration that is accepted and every file with one block: what is
outside of the block stays, the block denotes the entries that were checked, and the step again
changes nothing, exactly when the configuration can be written into the file. -/
theorem step25_faithful (t : Tools) (py : PythonStr) {proxies : Option Json} {source result : Str}
    (hcount : blockCount PROXY_START PROXY_STOP source = 1)
    (hstep : step25 t py proxies source = some result) :
    ∃ entries, validated t py proxies = some entries ∧
      (Faithful t py proxies entries source result ↔ Writable t py proxies source) := by
  unfold validated Writable
  rcases step25_some hstep with ⟨hnil, rfl⟩ | ⟨v, vs, entries, hlist, hchecked, _, rfl⟩
  · rw [hnil]
    refine ⟨[], rfl, fun h => h.table, fun h => ⟨rfl, h, hstep⟩⟩
  · obtain ⟨raws, hraws, hfrom, hprinted, hpin⟩ := checked_some hchecked
    have htable := tableOf_written_iff hprinted hpin hcount
    have houtside : (blocks PROXY_START.text PROXY_STOP.text (written entries source)).outside =
        (blocks PROXY_START.text PROXY_STOP.text source).outside ↔
        ∀ part ∈ (blocks PROXY_START.text PROXY_STOP.text source).outside, '\r' ∉ part :=
      outside_writeBlocks fun _ _ => fresh_body hprinted
    have hagain : step25 t py proxies (written entries source) =
        some (written entries source) := by
      rw [step25_written hlist hchecked (by rw [blockCount_written hprinted, hcount])]
      exact congrArg some (writeBlocks_writeBlocks (fresh_body hprinted) source)
    rw [hlist]
    refine ⟨entries, hchecked, ?_, ?_⟩
    · intro h
      refine ⟨?_, houtside.1 h.outside⟩
      intro raws' hraws'
      rw [hraws] at hraws'
      cases hraws'
      exact (forall_writable_iff hfrom).2 (htable.1 h.table)
    · rintro ⟨hwritable, hcr⟩
      exact ⟨houtside.2 hcr, htable.2 ((forall_writable_iff hfrom).1 (hwritable raws hraws)),
        hagain⟩

/-- A checkout with one key file. -/
def oneKey : Tools where
  rootDir := "/den".toList
  file path := if path = "/den/build/app-public.der".toList then some [0x30, 0x59] else none
  spkiSha256 _ := none
  b64decode _ := none

def asciiStr : PythonStr := ⟨Lockdown.strip, fun s => s.map Char.toLower⟩

/-- One proxy. -/
def oneProxy (name : String) : Option Json :=
  some (.list [.dict [(.text "name".toList, .str (.text name.toList)),
    (.text "domains".toList, .list [.str (.text " App.example.com.".toList)]),
    (.text "attest_key".toList, .str (.text "app-public.der".toList))]])

/-- The block that patch 006 adds. -/
def patchedSource : Str :=
  PROXY_START.text ++ ("\nstatic const DenProxyEntry kDenProxies[] = \x7b\n".toList ++
    ("  \x7bnullptr, nullptr, nullptr, 0, nullptr\x7d,\n\x7d;\n".toList ++ PROXY_STOP.text))

theorem blockCount_patchedSource : blockCount PROXY_START PROXY_STOP patchedSource = 1 := by
  decide +kernel

theorem step25_faithful_oneProxy : ∃ entries result,
    step25 oneKey asciiStr (oneProxy "app") patchedSource = some result ∧
      Faithful oneKey asciiStr (oneProxy "app") entries patchedSource result := by
  have hchecked : checked oneKey asciiStr [.dict [(.text "name".toList, .str (.text "app".toList)),
      (.text "domains".toList, .list [.str (.text " App.example.com.".toList)]),
      (.text "attest_key".toList, .str (.text "app-public.der".toList))]] =
      some [⟨"app".toList, ["app.example.com".toList], [0x30, 0x59], none⟩] := by decide +kernel
  have hstep : step25 oneKey asciiStr (oneProxy "app") patchedSource =
      some (written [⟨"app".toList, ["app.example.com".toList], [0x30, 0x59], none⟩]
        patchedSource) := step25_written rfl hchecked blockCount_patchedSource
  obtain ⟨entries, _, hiff⟩ := step25_faithful oneKey asciiStr blockCount_patchedSource hstep
  refine ⟨entries, _, hstep, hiff.2 ⟨?_, by decide +kernel⟩⟩
  intro raws hraws
  obtain ⟨raws', hraws', hfrom, _, _⟩ := checked_some hchecked
  rw [hraws] at hraws'
  cases hraws'
  exact (forall_writable_iff hfrom).2
    (List.forall_mem_singleton.2 ⟨⟨by decide, by decide⟩, by decide⟩)

/-- A name that ends in a newline passes the pattern, and the file is not C++ any more. -/
theorem step25_newline : ∃ entries result,
    blockCount PROXY_START PROXY_STOP patchedSource = 1 ∧
    step25 oneKey asciiStr (oneProxy "app\n") patchedSource = some result ∧
    validated oneKey asciiStr (oneProxy "app\n") = some entries ∧
    tableOf result = none ∧
    ¬Faithful oneKey asciiStr (oneProxy "app\n") entries patchedSource result := by
  have hchecked : checked oneKey asciiStr
      [.dict [(.text "name".toList, .str (.text "app\n".toList)),
        (.text "domains".toList, .list [.str (.text " App.example.com.".toList)]),
        (.text "attest_key".toList, .str (.text "app-public.der".toList))]] =
      some [⟨"app\n".toList, ["app.example.com".toList], [0x30, 0x59], none⟩] := by
    decide +kernel
  have hstep : step25 oneKey asciiStr (oneProxy "app\n") patchedSource =
      some (written [⟨"app\n".toList, ["app.example.com".toList], [0x30, 0x59], none⟩]
        patchedSource) := step25_written rfl hchecked blockCount_patchedSource
  obtain ⟨_, _, _, hprinted, _⟩ := checked_some hchecked
  have hnewline : ∃ e ∈ [(⟨"app\n".toList, ["app.example.com".toList], [0x30, 0x59], none⟩ :
      Entry)], ¬NoNewline e := ⟨_, List.mem_singleton_self _, fun h => h.1 (by decide)⟩
  have htable : tableOf (written [⟨"app\n".toList, ["app.example.com".toList], [0x30, 0x59],
      none⟩] patchedSource) = none := by
    rw [tableOf_written hprinted blockCount_patchedSource, declarations_none hprinted hnewline]
    rfl
  refine ⟨_, _, blockCount_patchedSource, hstep, hchecked, htable, ?_⟩
  intro h
  have hsome := h.table
  rw [htable] at hsome
  cases hsome

end DenBrowser.ProxyTableText
