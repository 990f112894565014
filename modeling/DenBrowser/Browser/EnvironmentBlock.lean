import DenBrowser.Browser.Launcher
import DenBrowser.Lib.WriteBuffer
import Mathlib.Algebra.GroupWithZero.Nat

/-!
# The environment block

`DenBrowserSerializeEnvironment` measures the entries in one pass and writes them in a second,
through a pointer into a buffer of the length it measured.  Here the subtraction and the writes
are checked: a difference that would be negative, and a write outside the buffer, give `none`.

* `lengthLoop_eq` — the first pass never subtracts below zero, and refuses what does not fit;
* `writeLoop_filled` — the second pass stays inside the buffer of that length, and fills it;
* `decodeBlock_environmentBlock` — the block is read back;
* `serialize_exact` — these together;
* `serialize_launcher` — the launcher passes on what is in the buffer.
-/

set_option autoImplicit false

namespace DenBrowser.Launcher

open CString WriteBuffer

/-! ## The two passes -/

/-- `a - b` on `size_t`. -/
def checkedSub (a b : Nat) : Option Nat := if b ≤ a then some (a - b) else none

/-- The first loop: `some none` when it returns `nullptr`.  The lengths of two strings that are in
memory at once do not overflow `size_t`. -/
def lengthLoop : Environment → (totalLength : Nat) → Option (Option Nat)
  | [], totalLength => some (some totalLength)
  | (name, value) :: environment, totalLength =>
    if name = [] ∨ wchar '=' ∈ name then some none
    else
      let entryLength := name.length + 1 + value.length + 1
      if 32767 < entryLength then some none
      else
        match checkedSub 32767 entryLength with
        | none => none
        | some room =>
          if room < totalLength then some none
          else lengthLoop environment (totalLength + entryLength)

/-- The second loop. -/
def writeLoop : Environment → Buffer WChar → Option (Buffer WChar)
  | [], block => some block
  | (name, value) :: environment, block => do
    let block ← copy name block
    let block ← put (wchar '=') block
    let block ← copy value block
    let block ← put 0 block
    writeLoop environment block

/-- `DenBrowserSerializeEnvironment`; `makeUnique` says whether an allocation of this size gives
a buffer. -/
def serialize (makeUnique : Nat → Bool) (environment : Environment) :
    Option (Option (Buffer WChar)) :=
  match lengthLoop environment 1 with
  | none => none
  | some none => some none
  | some (some totalLength) =>
    if makeUnique totalLength = false then some none
    else do
      let block ← writeLoop environment (allocate totalLength)
      let block ← store 0 block
      pure (some block)

/-! ## What they are to do -/

/-- One terminator, and for each entry its name, `=`, its value and a terminator. -/
def encodedLength (environment : Environment) : Nat :=
  1 + (environment.map fun e => e.1.length + 1 + e.2.length + 1).sum

/-- A name that cannot be told from its value. -/
def BadName (name : WString) : Prop := name = [] ∨ wchar '=' ∈ name

/-- The name before the first `=`, and the value after it. -/
def splitEquals (entry : WString) : WString × WString :=
  (entry.takeWhile (· != wchar '='), (entry.dropWhile (· != wchar '=')).drop 1)

/-- The entries of a block: what stands between the terminators, up to the last one. -/
def decodeBlock (block : WString) : Environment :=
  (block.dropLast.splitOn 0).dropLast.map splitEquals

/-- Names and values as the C strings they are. -/
def environmentOf (entries : List (WStr × WStr)) : Environment :=
  entries.map fun e => (e.1.chars, e.2.chars)

/-! ## The first pass -/

theorem encodedLength_cons (e : WString × WString) (environment : Environment) :
    encodedLength (e :: environment) =
      e.1.length + 1 + e.2.length + 1 + encodedLength environment := by
  simp only [encodedLength, List.map_cons, List.sum_cons]
  omega

theorem one_le_encodedLength (environment : Environment) : 1 ≤ encodedLength environment := by
  unfold encodedLength
  omega

/-- **The first pass**: it refuses exactly a bad name or a total over the limit. -/
theorem lengthLoop_eq : ∀ (environment : Environment) (total : Nat), total ≤ 32767 →
    ∃ r, lengthLoop environment total = some r ∧
      (r = none ↔ (∃ e ∈ environment, BadName e.1) ∨
        32767 < total + (encodedLength environment - 1)) ∧
      ∀ n, r = some n → n = total + (encodedLength environment - 1) := by
  intro environment
  induction environment with
  | nil =>
    intro total htotal
    refine ⟨some total, rfl, ?_, ?_⟩
    · simp [encodedLength]
      omega
    · intro n hn
      cases hn
      simp [encodedLength]
  | cons e environment ih =>
    obtain ⟨name, value⟩ := e
    intro total htotal
    have hcons := encodedLength_cons (name, value) environment
    have hone := one_le_encodedLength environment
    dsimp only at hcons
    unfold lengthLoop
    by_cases hbad : name = [] ∨ wchar '=' ∈ name
    · rw [if_pos hbad]
      refine ⟨none, rfl, ?_, fun n hn => nomatch hn⟩
      simp [BadName, hbad]
    rw [if_neg hbad]
    dsimp only
    have hgood : ¬BadName name := hbad
    by_cases hentry : 32767 < name.length + 1 + value.length + 1
    · rw [if_pos hentry]
      exact ⟨none, rfl, ⟨fun _ => Or.inr (by omega), fun _ => rfl⟩, fun n hn => nomatch hn⟩
    rw [if_neg hentry]
    -- the guard before has made the difference nonnegative
    have hsub : checkedSub 32767 (name.length + 1 + value.length + 1) =
        some (32767 - (name.length + 1 + value.length + 1)) := if_pos (by omega)
    rw [hsub]
    dsimp only
    by_cases hroom : 32767 - (name.length + 1 + value.length + 1) < total
    · rw [if_pos hroom]
      exact ⟨none, rfl, ⟨fun _ => Or.inr (by omega), fun _ => rfl⟩, fun n hn => nomatch hn⟩
    rw [if_neg hroom]
    obtain ⟨r, hr, hnone, hsome⟩ := ih (total + (name.length + 1 + value.length + 1)) (by omega)
    have hsum : total + (name.length + 1 + value.length + 1) + (encodedLength environment - 1) =
        total + (encodedLength ((name, value) :: environment) - 1) := by omega
    rw [hsum] at hnone hsome
    refine ⟨r, hr, ?_, hsome⟩
    rw [hnone]
    simp [hgood]

/-! ## The second pass -/

/-- The text of the entries, without the last terminator. -/
def entriesText (environment : Environment) : WString :=
  environment.flatMap fun e => e.1 ++ wchar '=' :: e.2 ++ [0]

theorem length_entriesText (environment : Environment) :
    (entriesText environment).length + 1 = encodedLength environment := by
  induction environment with
  | nil => rfl
  | cons e environment ih =>
    rw [encodedLength_cons, ← ih]
    simp [entriesText]
    omega

/-- **The second pass stays inside a buffer that has room for the entries.** -/
theorem writeLoop_filled : ∀ (environment : Environment) (block : Buffer WChar)
    (written : WString) (room : Nat),
    Filled block written ((entriesText environment).length + room) →
    ∃ block', writeLoop environment block = some block' ∧
      Filled block' (written ++ entriesText environment) room := by
  intro environment
  induction environment with
  | nil =>
    intro block written room h
    refine ⟨block, rfl, ?_⟩
    simpa [entriesText] using h
  | cons e environment ih =>
    obtain ⟨name, value⟩ := e
    intro block written room h
    have htext : entriesText ((name, value) :: environment) =
        name ++ [wchar '='] ++ value ++ [0] ++ entriesText environment := by
      simp [entriesText]
    have hsplit : (entriesText ((name, value) :: environment)).length + room =
        name.length + (value.length + ((entriesText environment).length + room + 1) + 1) := by
      rw [htext]
      simp only [List.length_append, List.length_cons, List.length_nil]
      omega
    rw [hsplit] at h
    obtain ⟨b₁, h₁, hf₁⟩ := filled_copy h
    obtain ⟨b₂, h₂, hf₂⟩ := filled_put hf₁ (wchar '=')
    obtain ⟨b₃, h₃, hf₃⟩ := filled_copy hf₂
    obtain ⟨b₄, h₄, hf₄⟩ := filled_put hf₃ 0
    obtain ⟨b₅, h₅, hf₅⟩ := ih b₄ _ room hf₄
    refine ⟨b₅, ?_, ?_⟩
    · simp only [writeLoop, h₁, h₂, h₃, h₄, h₅, Option.bind_eq_bind, Option.bind_some]
    · rw [htext]
      simpa using hf₅

/-! ## Reading the block back -/

theorem environmentBlock_eq (environment : Environment) :
    environmentBlock environment = entriesText environment ++ [0] := rfl

theorem splitEquals_entry {name : WString} (h : ¬BadName name) (value : WString) :
    splitEquals (name ++ wchar '=' :: value) = (name, value) := by
  have hname : ∀ c ∈ name, (c != wchar '=') = true := by
    intro c hc
    rw [bne_iff_ne]
    rintro rfl
    exact h (Or.inr hc)
  unfold splitEquals
  rw [List.takeWhile_append_of_pos hname, List.dropWhile_append_of_pos hname]
  simp

theorem splitOn_entriesText : ∀ entries : List (WStr × WStr),
    (entriesText (environmentOf entries)).splitOn 0 =
      (environmentOf entries).map (fun e => e.1 ++ wchar '=' :: e.2) ++ [[]] := by
  intro entries
  induction entries with
  | nil => rfl
  | cons e entries ih =>
    have hclean : (0 : WChar) ∉ e.1.chars ++ wchar '=' :: e.2.chars := by
      rw [List.mem_append, List.mem_cons, not_or, not_or]
      exact ⟨e.1.clean, by decide, e.2.clean⟩
    have htext : entriesText (environmentOf (e :: entries)) =
        (e.1.chars ++ wchar '=' :: e.2.chars) ++ 0 :: entriesText (environmentOf entries) := by
      simp [entriesText, environmentOf]
    rw [htext, List.splitOn_append_cons_self, List.splitOn_eq_singleton hclean, ih]
    rfl

/-- **The block is read back**, entry by entry and in order. -/
theorem decodeBlock_environmentBlock {entries : List (WStr × WStr)}
    (h : ∀ e ∈ environmentOf entries, ¬BadName e.1) :
    decodeBlock (environmentBlock (environmentOf entries)) = environmentOf entries := by
  unfold decodeBlock
  rw [environmentBlock_eq, List.dropLast_concat, splitOn_entriesText, List.dropLast_concat,
    List.map_map]
  have hid : ∀ e ∈ environmentOf entries,
      (splitEquals ∘ fun e => e.1 ++ wchar '=' :: e.2) e = id e :=
    fun e he => splitEquals_entry (h e he) e.2
  rw [List.map_congr_left hid, List.map_id]

/-! ## The function -/

/-- What the function does where allocation gives a buffer. -/
theorem serialize_cases {makeUnique : Nat → Bool} (hmake : ∀ n, makeUnique n = true)
    (environment : Environment) :
    (serialize makeUnique environment = some none ∧
      ((∃ e ∈ environment, BadName e.1) ∨ 32767 < encodedLength environment)) ∨
    (serialize makeUnique environment =
        some (some ⟨(environmentBlock environment).map some, encodedLength environment - 1⟩) ∧
      ¬((∃ e ∈ environment, BadName e.1) ∨ 32767 < encodedLength environment)) := by
  have hone := one_le_encodedLength environment
  have htotal : 1 + (encodedLength environment - 1) = encodedLength environment := by omega
  obtain ⟨r, hr, hnone, hsome⟩ := lengthLoop_eq environment 1 (by omega)
  rw [htotal] at hnone hsome
  unfold serialize
  rw [hr]
  cases r with
  | none => exact Or.inl ⟨rfl, hnone.1 rfl⟩
  | some n =>
    refine Or.inr ⟨?_, fun hbad => nomatch hnone.2 hbad⟩
    have hlen := length_entriesText environment
    obtain rfl := hsome n rfl
    dsimp only
    rw [hmake, if_neg (by simp), ← hlen]
    obtain ⟨block, hblock, hfilled⟩ := writeLoop_filled environment _ [] 1
      (filled_allocate ((entriesText environment).length + 1))
    simp only [hblock, filled_last hfilled 0, Option.bind_eq_bind, Option.bind_some]
    rfl

/-- **The environment block.**  The function returns null exactly for a bad name or a block over
the limit; otherwise it stays inside its buffer, writes each cell of it, and the block reads back
as the list it was given. -/
theorem serialize_exact {makeUnique : Nat → Bool} (hmake : ∀ n, makeUnique n = true)
    (entries : List (WStr × WStr)) :
    ∃ result, serialize makeUnique (environmentOf entries) = some result ∧
      (result = none ↔ (∃ e ∈ environmentOf entries, e.1 = [] ∨ wchar '=' ∈ e.1) ∨
        32767 < encodedLength (environmentOf entries)) ∧
      ∀ buffer, result = some buffer →
        ∃ block : WString, buffer.cells = block.map some ∧
          buffer.cursor + 1 = encodedLength (environmentOf entries) ∧
          block.length = encodedLength (environmentOf entries) ∧
          decodeBlock block = environmentOf entries := by
  have hone := one_le_encodedLength (environmentOf entries)
  rcases serialize_cases hmake (environmentOf entries) with ⟨hnull, hbad⟩ | ⟨hblock, hgood⟩
  · exact ⟨none, hnull, ⟨fun _ => hbad, fun _ => rfl⟩, fun buffer h => nomatch h⟩
  · refine ⟨_, hblock, ⟨fun h => (nomatch h), fun h => absurd h hgood⟩, ?_⟩
    intro buffer hbuffer
    cases hbuffer
    refine ⟨_, rfl, ?_, ?_, decodeBlock_environmentBlock fun e he hbad => ?_⟩
    · dsimp only
      omega
    · rw [environmentBlock_eq, List.length_append, ← length_entriesText]
      rfl
    · exact hgood (Or.inl ⟨e, he, hbad⟩)

/-- Two variables, one of them with an empty value and one with a `=` in it. -/
def twoVariables : List (WStr × WStr) :=
  [(⟨wide "A", by decide⟩, ⟨[], by decide⟩), (⟨wide "B", by decide⟩, ⟨wide "x=y", by decide⟩)]

/-- Two variables make a block of ten characters that reads back. -/
theorem serialize_exact_two :
    ∃ buffer : Buffer WChar,
      serialize (fun _ => true) (environmentOf twoVariables) = some (some buffer) ∧
      buffer.cells.length = 10 := by
  obtain ⟨result, hrun, hnull, hblock⟩ := serialize_exact (fun _ => rfl) twoVariables
  cases result with
  | none => exact absurd (hnull.1 rfl) (by decide)
  | some buffer =>
    obtain ⟨block, hcells, _, hlength, _⟩ := hblock buffer rfl
    refine ⟨buffer, hrun, ?_⟩
    rw [hcells, List.length_map, hlength]
    decide

/-! ## In the launcher -/

theorem lengthLoop_serializedLength : ∀ (environment : Environment) (total : Nat),
    lengthLoop environment total = some (serializedLength environment total) := by
  intro environment
  induction environment with
  | nil => intro total; rfl
  | cons e environment ih =>
    obtain ⟨name, value⟩ := e
    intro total
    unfold lengthLoop serializedLength
    by_cases hbad : name = [] ∨ wchar '=' ∈ name
    · rw [if_pos hbad, if_pos hbad]
    rw [if_neg hbad, if_neg hbad]
    dsimp only
    by_cases hentry : 32767 < name.length + 1 + value.length + 1
    · rw [if_pos hentry, if_pos (Or.inl hentry)]
    rw [if_neg hentry, checkedSub, if_pos (by omega)]
    dsimp only
    by_cases hroom : 32767 - (name.length + 1 + value.length + 1) < total
    · rw [if_pos hroom, if_pos (Or.inr hroom)]
    · rw [if_neg hroom, if_neg (by omega), ih]

/-- What the launcher passes on is the block in the buffer. -/
theorem serialize_launcher {makeUnique : Nat → Bool} (hmake : ∀ n, makeUnique n = true)
    (environment : Environment) :
    serialize makeUnique environment = some ((serializedLength environment 1).map fun n =>
      ⟨(environmentBlock environment).map some, n - 1⟩) := by
  obtain ⟨r, hr, hnone, hsome⟩ := lengthLoop_eq environment 1 (by omega)
  have hone := one_le_encodedLength environment
  have htotal : 1 + (encodedLength environment - 1) = encodedLength environment := by omega
  rw [htotal] at hnone hsome
  rw [lengthLoop_serializedLength] at hr
  rcases serialize_cases hmake environment with ⟨hnull, hbad⟩ | ⟨hblock, hgood⟩
  · rw [hnull, Option.some.inj hr, hnone.2 hbad]
    rfl
  · cases r with
    | none => exact absurd (hnone.1 rfl) hgood
    | some n =>
      rw [hblock, Option.some.inj hr, hsome n rfl]
      rfl

end DenBrowser.Launcher
