import DenBrowser.Browser.LaunchPolicy
import DenBrowser.Lib.Unicode
import Mathlib.Data.List.Forall2

/-!
# Command lines sent to a running browser

A second instance hands its command line to the running browser in a message.  The receiver
frames the message into arguments, converts them and holds them to the launch language.

* `field_eq_some_iff` — a field of a message ends at its first NUL;
* `isAllowedDenBrowserRemoteArguments_spec` — the arguments that are allowed;
* `parse_spec` — the messages that leave a command line, and the command line they leave;
* `remote_language` — the same, and that what the launcher accepts gets through.
-/

set_option autoImplicit false

namespace DenBrowser.RemoteMessage

open CString

abbrev Bytes := List UInt8

/-- `WinRemoteMessageVersion`, of a message's `dwData`. -/
inductive Version where
  | commandLineAndWorkingDirInUtf16
  | nullSeparatedArguments
  | other (n : Nat)
  deriving DecidableEq

/-- `COPYDATASTRUCT`. -/
structure CopyData where
  version : Version
  buffer : Bytes

/-- What `nsCommandLine::Init` is given; it is given `STATE_REMOTE_AUTO`. -/
structure CommandLine where
  argv : List Bytes
  workingDir : Option Bytes

structure Receiver where
  mCommandLine : Option CommandLine

inductive NsResult where
  | ok
  | failure
  deriving DecidableEq

/-- An argument as it stands in a message. -/
def terminated (arg : Bytes) : Bytes := arg ++ [0]

/-- The loop that reads the arguments behind the working directory, which the patch does not
show: every argument it reads ends at a NUL, the arguments stand one after the other from the
start, and a list of terminated arguments is read whole. -/
structure Framing where
  read : Bytes → Option (List Bytes)
  clean : ∀ {rest args}, read rest = some args → ∀ arg ∈ args, 0 ∉ arg
  sound : ∀ {rest args}, read rest = some args →
    ∃ left, rest = args.flatMap terminated ++ left ∧ 0 ∉ left
  complete : ∀ {args : List Bytes}, args ≠ [] → (∀ arg ∈ args, 0 ∉ arg) →
    read (args.flatMap terminated) = some args

/-- `MOZ_MAGIC_COPYDATA_PREFIX`. -/
def magic : Bytes := Unicode.utf8 [Char.ofNat 0x1F525, Char.ofNat 0x1F98A]

/-- The bytes up to the first NUL, and those behind it. -/
def field : Bytes → Option (Bytes × Bytes)
  | [] => none
  | b :: buffer => if b = 0 then some ([], buffer) else (field buffer).map fun p => (b :: p.1, p.2)

/-- The conversion loop: `none` when an argument is not valid UTF-8. -/
def wideArguments : List Bytes → Option (List (List WChar))
  | [] => some []
  | arg :: argv =>
    match Unicode.utf8Decode arg with
    | none => none
    | some cs => (wideArguments argv).map fun wide => Unicode.utf16 cs :: wide

def isAllowedDenBrowserRemoteArguments (argv : List Bytes) : Option Bool :=
  if 4 < argv.length then some false
  else
    match wideArguments argv with
    | none => some false
    | some wideArgs => isAllowedBrowserCommandLine (wideArgs.map fun arg => some (arg ++ [0]))

def parseV3 (framing : Framing) (buffer : Bytes) (r : Receiver) : Option (NsResult × Receiver) :=
  match field buffer with
  | none => some (.failure, r)
  | some (start, buffer) =>
    if start ≠ magic then some (.failure, r)
    else
      match field buffer with
      | none => some (.failure, r)
      -- the sender's working directory is skipped
      | some (_, buffer) =>
        match framing.read buffer with
        | none => some (.failure, r)
        | some argv =>
          match isAllowedDenBrowserRemoteArguments argv with
          | none => none
          | some false => some (.failure, r)
          | some true => some (.ok, ⟨some ⟨argv, none⟩⟩)

/-- `Parse`; `none` when a string is read out of bounds. -/
def parse (framing : Framing) (message : CopyData) (r : Receiver) : Option (NsResult × Receiver) :=
  match message.version with
  | .commandLineAndWorkingDirInUtf16 => some (.failure, r)
  | .nullSeparatedArguments => parseV3 framing message.buffer r
  | .other _ => some (.failure, r)

/-! ## Frames -/

/-- A v3 message, of terminated arguments. -/
def frame (workingDir : Bytes) (args : List Bytes) : Bytes :=
  terminated magic ++ terminated workingDir ++ args.flatMap terminated

/-- The message is v3, and is framed into these arguments. -/
def Framed (framing : Framing) (message : CopyData) (args : List Bytes) : Prop :=
  message.version = .nullSeparatedArguments ∧ ∃ workingDir rest, 0 ∉ workingDir ∧
    message.buffer = terminated magic ++ terminated workingDir ++ rest ∧
    framing.read rest = some args

theorem zero_not_mem_magic : (0 : UInt8) ∉ magic := by
  intro h
  have := Unicode.zero_mem_utf8 h
  revert this
  decide

/-- **A field ends at its first NUL.** -/
theorem field_eq_some_iff : ∀ (buffer f rest : Bytes),
    field buffer = some (f, rest) ↔ 0 ∉ f ∧ buffer = terminated f ++ rest := by
  intro buffer
  induction buffer with
  | nil =>
    intro f rest
    simp [field, terminated]
  | cons b buffer ih =>
    intro f rest
    unfold field
    by_cases hb : b = 0
    · rw [if_pos hb, hb]
      cases f with
      | nil => simp [terminated]
      | cons c f =>
        simp only [terminated, List.cons_append, Option.some.injEq, Prod.mk.injEq,
          List.cons.injEq, List.mem_cons, not_or]
        constructor
        · rintro ⟨h, _⟩
          cases h
        · rintro ⟨⟨hc, _⟩, h, _⟩
          exact absurd h hc
    · rw [if_neg hb, Option.map_eq_some_iff]
      constructor
      · rintro ⟨⟨f', rest'⟩, h, heq⟩
        cases heq
        obtain ⟨hf, hbuffer⟩ := (ih _ _).1 h
        refine ⟨?_, by rw [hbuffer]; rfl⟩
        rw [List.mem_cons, not_or]
        exact ⟨Ne.symm hb, hf⟩
      · rintro ⟨hf, h⟩
        cases f with
        | nil => simp [terminated, hb] at h
        | cons c f =>
          rw [List.mem_cons, not_or] at hf
          simp only [terminated, List.cons_append, List.cons.injEq] at h
          obtain ⟨rfl, h⟩ := h
          exact ⟨(f, rest), (ih f rest).2 ⟨hf.2, h⟩, rfl⟩

/-! ## The arguments that are allowed -/

/-- The wide string is the UTF-16 of the text whose UTF-8 the argument is. -/
def Converts (arg : Bytes) (w : WStr) : Prop :=
  ∃ cs, arg = Unicode.utf8 cs ∧ w.chars = Unicode.utf16 cs

/-- The arguments are valid UTF-8, and their conversions pass the launcher's check. -/
def Accepted (argv : List Bytes) (wide : List WStr) : Prop :=
  List.Forall₂ Converts argv wide ∧ Allowed ClosedFirst (wide.map some)

theorem chars_injective {v w : List WStr} (h : v.map Terminated.chars = w.map Terminated.chars) :
    v = w :=
  List.map_injective_iff.2 (fun _ _ h => Terminated.ext h) h

/-- The conversion loop succeeds exactly on valid UTF-8. -/
theorem wideArguments_eq_some_iff : ∀ (argv : List Bytes) (ws : List (List WChar)),
    (∀ arg ∈ argv, 0 ∉ arg) →
    (wideArguments argv = some ws ↔
      ∃ wide : List WStr, ws = wide.map Terminated.chars ∧ List.Forall₂ Converts argv wide) := by
  intro argv
  induction argv with
  | nil =>
    intro ws _
    constructor
    · intro h
      cases h
      exact ⟨[], rfl, .nil⟩
    · rintro ⟨wide, rfl, h⟩
      cases h
      rfl
  | cons arg argv ih =>
    intro ws hclean
    have harg : 0 ∉ arg := hclean arg List.mem_cons_self
    have hargv : ∀ a ∈ argv, 0 ∉ a := fun a ha => hclean a (List.mem_cons_of_mem _ ha)
    unfold wideArguments
    cases hdec : Unicode.utf8Decode arg with
    | none =>
      simp only [reduceCtorEq, false_iff]
      rintro ⟨wide, _, h⟩
      cases h with
      | cons hw _ =>
        obtain ⟨cs, hcs, _⟩ := hw
        rw [Unicode.utf8Decode_eq_some_iff.2 hcs] at hdec
        cases hdec
    | some cs =>
      have hutf8 := Unicode.utf8Decode_eq_some_iff.1 hdec
      simp only [Option.map_eq_some_iff]
      constructor
      · rintro ⟨rest, hrest, rfl⟩
        obtain ⟨wide, rfl, hwide⟩ := (ih rest hargv).1 hrest
        have hzero : 0 ∉ Unicode.utf16 cs := by
          intro h
          have hnul := Unicode.zero_mem_utf16 h
          apply harg
          rw [hutf8]
          refine List.mem_flatMap.2 ⟨_, hnul, ?_⟩
          decide
        exact ⟨⟨Unicode.utf16 cs, hzero⟩ :: wide, rfl, .cons ⟨cs, hutf8, rfl⟩ hwide⟩
      · rintro ⟨wide, rfl, h⟩
        cases h with
        | @cons _ w _ wide hw hwide =>
          obtain ⟨ds, hds, hw⟩ := hw
          obtain rfl : cs = ds := Unicode.utf8_injective (hutf8.symm.trans hds)
          exact ⟨_, (ih _ hargv).2 ⟨wide, rfl, hwide⟩, by rw [List.map_cons, hw]⟩

theorem length_le_of_allowed {closed : List WChar → Prop} {argv : List (Option WStr)}
    (h : Allowed closed argv) : argv.length ≤ 4 := by
  rcases h with ⟨bin, rfl⟩ | ⟨bin, u, rfl, _⟩
  · simp
  · simp

/-- **The arguments that are allowed.** -/
theorem isAllowedDenBrowserRemoteArguments_spec (argv : List Bytes)
    (hclean : ∀ arg ∈ argv, 0 ∉ arg) :
    Decides (isAllowedDenBrowserRemoteArguments argv) (∃ wide, Accepted argv wide) := by
  unfold isAllowedDenBrowserRemoteArguments
  by_cases hlen : 4 < argv.length
  · rw [if_pos hlen]
    apply Decides.of_false
    rintro ⟨wide, hwide, hallowed⟩
    have := length_le_of_allowed hallowed
    have := hwide.length_eq
    simp only [List.length_map] at *
    omega
  rw [if_neg hlen]
  cases hargs : wideArguments argv with
  | none =>
    apply Decides.of_false
    rintro ⟨wide, hwide, _⟩
    have := (wideArguments_eq_some_iff argv _ hclean).2 ⟨wide, rfl, hwide⟩
    rw [hargs] at this
    cases this
  | some ws =>
    obtain ⟨wide, rfl, hwide⟩ := (wideArguments_eq_some_iff argv ws hclean).1 hargs
    have hptrs : ((wide.map Terminated.chars).map fun arg => some (arg ++ [0])) =
        ptrs (wide.map some) := by
      simp [ptrs, Terminated.ptr]
    dsimp only
    rw [hptrs]
    refine (isAllowedBrowserCommandLine_ptr (wide.map some)).congr ⟨fun h => ⟨wide, hwide, h⟩, ?_⟩
    rintro ⟨wide', hwide', h⟩
    have hsame := (wideArguments_eq_some_iff argv _ hclean).2 ⟨wide', rfl, hwide'⟩
    rw [hargs] at hsame
    rw [chars_injective (Option.some.inj hsame)]
    exact h

/-! ## The messages that leave a command line -/

/-- A receiver without a command line. -/
def fresh : Receiver := ⟨none⟩

/-- What is done with a message that is framed. -/
theorem parse_of_framed {framing : Framing} {message : CopyData} {argv : List Bytes}
    (h : Framed framing message argv) (r : Receiver) :
    parse framing message r =
      match isAllowedDenBrowserRemoteArguments argv with
      | none => none
      | some false => some (.failure, r)
      | some true => some (.ok, ⟨some ⟨argv, none⟩⟩) := by
  obtain ⟨hversion, workingDir, rest, hdir, hbuffer, hread⟩ := h
  have hmagic : field message.buffer = some (magic, terminated workingDir ++ rest) :=
    (field_eq_some_iff _ _ _).2 ⟨zero_not_mem_magic, by rw [hbuffer, List.append_assoc]⟩
  have hskipped : field (terminated workingDir ++ rest) = some (workingDir, rest) :=
    (field_eq_some_iff _ _ _).2 ⟨hdir, rfl⟩
  unfold parse parseV3
  rw [hversion, hmagic]
  dsimp only
  rw [if_neg (by simp), hskipped]
  dsimp only
  rw [hread]

/-- A message that is not framed is refused. -/
theorem parse_of_not_framed {framing : Framing} {message : CopyData}
    (h : ¬∃ argv, Framed framing message argv) (r : Receiver) :
    parse framing message r = some (.failure, r) := by
  unfold parse
  cases hversion : message.version with
  | commandLineAndWorkingDirInUtf16 => rfl
  | other n => rfl
  | nullSeparatedArguments =>
    show parseV3 framing message.buffer r = _
    unfold parseV3
    cases hstart : field message.buffer with
    | none => rfl
    | some p =>
      obtain ⟨start, buffer⟩ := p
      dsimp only
      by_cases hmagic : start = magic
      · rw [if_neg (by simpa using hmagic)]
        cases hdir : field buffer with
        | none => rfl
        | some p =>
          obtain ⟨workingDir, rest⟩ := p
          dsimp only
          cases hread : framing.read rest with
          | none => rfl
          | some argv =>
            have h₁ := (field_eq_some_iff _ _ _).1 hstart
            have h₂ := (field_eq_some_iff _ _ _).1 hdir
            refine absurd ⟨argv, hversion, workingDir, rest, h₂.1, ?_, hread⟩ h
            rw [h₁.2, h₂.2, hmagic, List.append_assoc]
      · rw [if_pos hmagic]

/-- A message is framed in one way. -/
theorem framed_unique {framing : Framing} {message : CopyData} {argv argv' : List Bytes}
    (h : Framed framing message argv) (h' : Framed framing message argv') : argv = argv' := by
  obtain ⟨_, workingDir, rest, hdir, hbuffer, hread⟩ := h
  obtain ⟨_, workingDir', rest', hdir', hbuffer', hread'⟩ := h'
  rw [hbuffer, List.append_assoc, List.append_assoc] at hbuffer'
  have htail := List.append_cancel_left hbuffer'
  have h₁ := (field_eq_some_iff (terminated workingDir ++ rest) workingDir rest).2 ⟨hdir, rfl⟩
  have h₂ := (field_eq_some_iff (terminated workingDir ++ rest) workingDir' rest').2 ⟨hdir', htail⟩
  rw [h₁] at h₂
  cases h₂
  rw [hread] at hread'
  exact Option.some.inj hread'

/-- **The messages that leave a command line**: those that are framed into arguments that are
allowed.  It has the arguments, and no working directory. -/
theorem parse_spec (framing : Framing) (message : CopyData) :
    (parse framing message fresh = some (.failure, fresh) ∧
        ¬∃ argv wide, Framed framing message argv ∧ Accepted argv wide) ∨
      ∃ argv wide, parse framing message fresh = some (.ok, ⟨some ⟨argv, none⟩⟩) ∧
        Framed framing message argv ∧ Accepted argv wide := by
  by_cases hframed : ∃ argv, Framed framing message argv
  · obtain ⟨argv, hframed⟩ := hframed
    have hclean : ∀ arg ∈ argv, 0 ∉ arg := by
      obtain ⟨_, _, _, _, _, hread⟩ := hframed
      exact framing.clean hread
    obtain ⟨b, hb, hallowed⟩ := isAllowedDenBrowserRemoteArguments_spec argv hclean
    rw [parse_of_framed hframed, hb]
    cases b with
    | true =>
      obtain ⟨wide, hwide⟩ := hallowed.1 rfl
      exact Or.inr ⟨argv, wide, rfl, hframed, hwide⟩
    | false =>
      refine Or.inl ⟨rfl, ?_⟩
      rintro ⟨argv', wide, hframed', hwide⟩
      rw [← framed_unique hframed hframed'] at hwide
      exact absurd (hallowed.2 ⟨wide, hwide⟩) (by decide)
  · refine Or.inl ⟨parse_of_not_framed hframed fresh, ?_⟩
    rintro ⟨argv, _, h, _⟩
    exact hframed ⟨argv, h⟩

/-! ## The launcher's language gets through -/

/-- The string is well-formed UTF-16. -/
def WellFormed (s : WStr) : Prop := ∃ cs, s.chars = Unicode.utf16 cs

/-- The UTF-8 of a string, an argument of a message. -/
def toArgument (s : WStr) : Bytes := Unicode.utf8 ((Unicode.utf16Decode s.chars).getD [])

theorem toArgument_converts {s : WStr} (h : WellFormed s) : Converts (toArgument s) s := by
  obtain ⟨cs, hcs⟩ := h
  refine ⟨cs, ?_, hcs⟩
  unfold toArgument
  rw [Unicode.utf16Decode_eq_some_iff.2 hcs, Option.getD_some]

/-- What follows plain units decodes by itself. -/
theorem wellFormed_of_append : ∀ (pre : List WChar) {us : List WChar} {cs : List Char},
    (∀ u ∈ pre, u.toNat < 0xD800) → pre ++ us = Unicode.utf16 cs →
    ∃ ds, us = Unicode.utf16 ds := by
  intro pre us cs hpre h
  have hdec : ∃ ds, Unicode.utf16Decode (pre ++ us) = some ds :=
    ⟨cs, Unicode.utf16Decode_eq_some_iff.2 h⟩
  clear h
  induction pre with
  | nil =>
    obtain ⟨ds, hds⟩ := hdec
    exact ⟨ds, Unicode.utf16Decode_eq_some_iff.1 hds⟩
  | cons u pre ih =>
    have hu := hpre u List.mem_cons_self
    have hlow : Unicode.isLow u = false := by
      simp only [Unicode.isLow, Bool.and_eq_false_iff, decide_eq_false_iff_not]
      omega
    have hhigh : Unicode.isHigh u = false := by
      simp only [Unicode.isHigh, Bool.and_eq_false_iff, decide_eq_false_iff_not]
      omega
    rw [List.cons_append, Unicode.utf16Decode_cons hlow hhigh] at hdec
    obtain ⟨_, hds⟩ := hdec
    obtain ⟨ds, hds, _⟩ := Option.map_eq_some_iff.1 hds
    exact ih (fun v hv => hpre v (List.mem_cons_of_mem _ hv)) ⟨ds, hds⟩

/-- A unit that folds to a plain one is plain. -/
theorem lt_of_wlower {c : WChar} (h : (wlower c).toNat < 128) : c.toNat < 0xD800 := by
  unfold wlower at h
  split at h
  · rename_i hc
    have := UInt16.le_iff_toNat_le.1 hc.2
    simp at this
    omega
  · omega

/-- The URL in a well-formed link is well-formed. -/
theorem wellFormed_of_denLink {u w : WStr} (hu : WellFormed u) (h : DenLink u.chars w.chars) :
    WellFormed w := by
  obtain ⟨cs, hcs⟩ := hu
  obtain ⟨scheme, hscheme, hlink⟩ := h
  have hplain : ∀ c ∈ scheme, c.toNat < 0xD800 := by
    intro c hc
    have hmem : wlower c ∈ DEN.chars := hscheme ▸ List.mem_map_of_mem hc
    have hall : DEN.chars.all (fun d => d.toNat < 128) = true := by decide
    exact lt_of_wlower (by simpa using List.all_eq_true.1 hall _ hmem)
  rcases hlink with hlink | hlink
  · exact wellFormed_of_append scheme hplain (hlink ▸ hcs)
  · rw [← List.append_assoc] at hlink
    refine wellFormed_of_append (scheme ++ wide "//") ?_ (hlink ▸ hcs)
    intro c hc
    rcases List.mem_append.1 hc with hc | hc
    · exact hplain c hc
    · have hall : (wide "//").all (fun d => d.toNat < 0xD800) = true := by decide
      simpa using List.all_eq_true.1 hall _ hc

theorem ptrs_injective {argv argv' : List (Option WStr)} (h : ptrs argv = ptrs argv') :
    argv = argv' := by
  refine List.map_injective_iff.2 (Option.map_injective ?_) h
  intro s t hst
  exact Terminated.ext (List.append_cancel_right hst)

/-- What the launcher leaves of a well-formed vector is well-formed. -/
theorem wellFormed_of_leavesUrl {argv argv' : List (Option WStr)}
    (hargv : ∀ s, some s ∈ argv → WellFormed s) (h : LeavesUrl ClosedFirst argv argv') :
    ∃ wide : List WStr, argv' = wide.map some ∧ ∀ s ∈ wide, WellFormed s := by
  rcases h with ⟨bin, rfl, rfl⟩ | ⟨bin, u, w, rfl, rfl, _, hlink⟩
  · refine ⟨[bin], rfl, ?_⟩
    intro s hs
    rw [List.mem_singleton.1 hs]
    exact hargv bin (by simp)
  · refine ⟨[bin, OSINT, URL, w], rfl, ?_⟩
    intro s hs
    simp only [List.mem_cons, List.not_mem_nil, or_false] at hs
    rcases hs with rfl | rfl | rfl | rfl
    · exact hargv _ (by simp)
    · exact hargv _ (by simp)
    · exact hargv _ (by simp)
    · rcases hlink with rfl | hlink
      · exact hargv _ (by simp)
      · exact wellFormed_of_denLink (hargv u (by simp)) hlink

theorem forall₂_toArgument {wide : List WStr} (h : ∀ s ∈ wide, WellFormed s) :
    List.Forall₂ Converts (wide.map toArgument) wide := by
  induction wide with
  | nil => exact .nil
  | cons s wide ih =>
    exact .cons (toArgument_converts (h s List.mem_cons_self))
      (ih fun t ht => h t (List.mem_cons_of_mem _ ht))

theorem zero_not_mem_toArgument {s : WStr} (h : WellFormed s) : 0 ∉ toArgument s := by
  obtain ⟨cs, harg, hcs⟩ := toArgument_converts h
  rw [harg]
  intro hzero
  have hnul := Unicode.zero_mem_utf8 hzero
  apply s.clean
  rw [hcs]
  refine List.mem_flatMap.2 ⟨_, hnul, ?_⟩
  decide

/-- **What the launcher accepts gets through.** -/
theorem parse_frame (framing : Framing) {argv argv' : List (Option WStr)} {workingDir : Bytes}
    (hlaunch : launch (ptrs argv) = some (ptrs argv', true))
    (hargv : ∀ s, some s ∈ argv → WellFormed s) (hdir : 0 ∉ workingDir) :
    ∃ wide : List WStr, argv' = wide.map some ∧
      List.Forall₂ Converts (wide.map toArgument) wide ∧
      parse framing ⟨.nullSeparatedArguments, frame workingDir (wide.map toArgument)⟩ fresh =
        some (.ok, ⟨some ⟨wide.map toArgument, none⟩⟩) := by
  obtain ⟨b, hb, hallowed⟩ := launch_ptr argv
  rw [hlaunch] at hb
  simp only [Option.some.injEq, Prod.mk.injEq] at hb
  obtain ⟨hvector, rfl⟩ := hb
  obtain rfl := ptrs_injective hvector
  have hleft := unwrapped_of_language (allowed_unwrapped_iff.1 (hallowed.1 rfl))
  obtain ⟨wide, hwide, hwell⟩ := wellFormed_of_leavesUrl hargv hleft
  have hconverts := forall₂_toArgument hwell
  refine ⟨wide, hwide, hconverts, ?_⟩
  have haccepted : Allowed ClosedFirst (wide.map some) := hwide ▸ hallowed.1 rfl
  have hclean : ∀ arg ∈ wide.map toArgument, 0 ∉ arg := by
    intro arg harg
    obtain ⟨s, hs, rfl⟩ := List.mem_map.1 harg
    exact zero_not_mem_toArgument (hwell s hs)
  have hne : wide.map toArgument ≠ [] := by
    rcases haccepted with ⟨bin, h⟩ | ⟨bin, u, h, _⟩
    · intro hnil
      rw [List.map_eq_nil_iff.1 hnil] at h
      cases h
    · intro hnil
      rw [List.map_eq_nil_iff.1 hnil] at h
      cases h
  have hframed : Framed framing ⟨.nullSeparatedArguments, frame workingDir (wide.map toArgument)⟩
      (wide.map toArgument) := ⟨rfl, workingDir, _, hdir, rfl, framing.complete hne hclean⟩
  obtain ⟨b, hb, hiff⟩ := isAllowedDenBrowserRemoteArguments_spec _ hclean
  rw [parse_of_framed hframed, hb, hiff.2 ⟨wide, hconverts, haccepted⟩]

/-- The terminated arguments at the start of the bytes, after what has been read of the first. -/
def terminatedArguments : (buffer arg : Bytes) → List Bytes
  | [], _ => []
  | b :: buffer, arg =>
    if b = 0 then arg :: terminatedArguments buffer []
    else terminatedArguments buffer (arg ++ [b])

theorem terminatedArguments_append : ∀ (more arg buffer : Bytes), 0 ∉ more →
    terminatedArguments (terminated more ++ buffer) arg =
      (arg ++ more) :: terminatedArguments buffer [] := by
  intro more
  induction more with
  | nil =>
    intro arg buffer _
    simp [terminated, terminatedArguments]
  | cons b more ih =>
    intro arg buffer h
    rw [List.mem_cons, not_or] at h
    have hrest := ih (arg ++ [b]) buffer h.2
    simp only [terminated, List.cons_append, terminatedArguments, if_neg (Ne.symm h.1)] at hrest ⊢
    rw [hrest]
    simp

theorem terminatedArguments_sound : ∀ (buffer arg : Bytes), 0 ∉ arg →
    (∀ a ∈ terminatedArguments buffer arg, 0 ∉ a) ∧
      ∃ left, arg ++ buffer = (terminatedArguments buffer arg).flatMap terminated ++ left ∧
        0 ∉ left := by
  intro buffer
  induction buffer with
  | nil =>
    intro arg harg
    exact ⟨fun a ha => (nomatch ha), arg, by simp [terminatedArguments], harg⟩
  | cons b buffer ih =>
    intro arg harg
    unfold terminatedArguments
    by_cases hb : b = 0
    · rw [if_pos hb, hb]
      obtain ⟨hclean, left, heq, hleft⟩ := ih [] (by simp)
      refine ⟨?_, left, ?_, hleft⟩
      · intro a ha
        rcases List.mem_cons.1 ha with rfl | ha
        · exact harg
        · exact hclean a ha
      · rw [List.nil_append] at heq
        rw [List.flatMap_cons, List.append_assoc, ← heq]
        simp [terminated]
    · rw [if_neg hb]
      have hmore : 0 ∉ arg ++ [b] := by simp [harg, Ne.symm hb]
      obtain ⟨hclean, left, heq, hleft⟩ := ih _ hmore
      exact ⟨hclean, left, by rw [← heq]; simp, hleft⟩

/-- The loop that takes arguments as long as there is a NUL. -/
def nulFraming : Framing where
  read rest := if terminatedArguments rest [] = [] then none else some (terminatedArguments rest [])
  clean := by
    intro rest args h
    split at h
    · cases h
    · cases h
      exact (terminatedArguments_sound rest [] (by simp)).1
  sound := by
    intro rest args h
    split at h
    · cases h
    · cases h
      simpa using (terminatedArguments_sound rest [] (by simp)).2
  complete := by
    intro args hne hclean
    have hread : terminatedArguments (args.flatMap terminated) [] = args := by
      clear hne
      induction args with
      | nil => rfl
      | cons arg args ih =>
        rw [List.flatMap_cons, terminatedArguments_append _ _ _ (hclean arg List.mem_cons_self),
          ih fun a ha => hclean a (List.mem_cons_of_mem _ ha), List.nil_append]
    rw [hread, if_neg hne]

/-- **The remote language.**  Parsing a message reads in bounds, and leaves a command line exactly
for a v3 message framed into arguments that are valid UTF-8 and whose UTF-16 the launcher allows;
the command line has these arguments and no working directory, and any other message fails and
leaves none.  Conversely a vector of well-formed UTF-16 that the launcher accepts, sent argument by
argument as the launcher leaves it, is accepted, and its arguments convert back to that vector. -/
theorem remote_language (framing : Framing) :
    (∀ message, ∃ result r, parse framing message fresh = some (result, r) ∧
      (result = .ok ↔ ∃ argv wide, Framed framing message argv ∧ Accepted argv wide) ∧
      (result = .ok → ∃ argv, r = ⟨some ⟨argv, none⟩⟩ ∧ Framed framing message argv) ∧
      (result ≠ .ok → r = fresh)) ∧
    ∀ argv argv' workingDir, launch (ptrs argv) = some (ptrs argv', true) →
      (∀ s, some s ∈ argv → WellFormed s) → 0 ∉ workingDir →
      ∃ wide : List WStr, argv' = wide.map some ∧
        List.Forall₂ Converts (wide.map toArgument) wide ∧
        parse framing ⟨.nullSeparatedArguments, frame workingDir (wide.map toArgument)⟩ fresh =
          some (.ok, ⟨some ⟨wide.map toArgument, none⟩⟩) := by
  constructor
  · intro message
    rcases parse_spec framing message with ⟨hparse, hnot⟩ | ⟨argv, wide, hparse, hframed, hwide⟩
    · refine ⟨_, _, hparse, ⟨fun h => (nomatch h), fun h => absurd h hnot⟩, fun h => (nomatch h),
        fun _ => rfl⟩
    · exact ⟨_, _, hparse, ⟨fun _ => ⟨argv, wide, hframed, hwide⟩, fun _ => rfl⟩,
        fun _ => ⟨argv, rfl, hframed⟩, fun h => absurd rfl h⟩
  · intro argv argv' workingDir hlaunch hargv hdir
    exact parse_frame framing hlaunch hargv hdir

/-- A start without arguments gets through. -/
theorem remote_language_start :
    let bin : WStr := ⟨wide "denbrowser.exe", by decide⟩
    ∃ wide : List WStr, [some bin] = wide.map some ∧
      List.Forall₂ Converts (wide.map toArgument) wide ∧
      parse nulFraming ⟨.nullSeparatedArguments, frame [67] (wide.map toArgument)⟩ fresh =
        some (.ok, ⟨some ⟨wide.map toArgument, none⟩⟩) := by
  intro bin
  refine (remote_language nulFraming).2 [some bin] [some bin] [67] (by decide) ?_ (by decide)
  intro s hs
  have hbin : s = bin := by simpa using hs
  exact ⟨"denbrowser.exe".toList, by rw [hbin]; decide⟩

end DenBrowser.RemoteMessage
