import DenBrowser.Text
import Mathlib.Data.Nat.Init

/-!
# References in configuration strings

A string of the configuration file may refer to environment variables.  `expandStr` is the scanner
of the proxy; `Reads` is the grammar of the references, which knows of no environment, and
`meaning` puts the values of the variables in.

* `reads_total` — every string is read in some way;
* `expandStr_reads` — the scanner computes the meaning of what it reads;
* `errorOf_expandStr` — environments that agree on the class of each variable fail alike;
* `expandStr_secret` — in a secret setting the error tells the kind of failure and no more.
-/

set_option autoImplicit false

namespace DenBrowser.Env

/-! ## The scanner -/

/-- `std::env::VarError`. -/
inductive VarError where
  | notPresent
  | notUnicode (value : Bytes)
  deriving DecidableEq

/-- Resolves a variable name to its value. -/
abbrev Lookup := Str → Except VarError Str

def isPadding (c : Char) : Bool :=
  isWhitespace c || [0xFEFF, 0x200B, 0x200C, 0x200D, 0x2060, 0x180E].contains c.toNat

def isValidName (name : Str) : Bool :=
  match name with
  | [] => false
  | c :: cs => (c.isAlpha || c == '_') && cs.all fun d => d.isAlphanum || d == '_'

/-- `value.starts_with(is_padding) || value.ends_with(is_padding)`. -/
def padded (value : Str) : Bool :=
  value.head?.any isPadding || value.getLast?.any isPadding

/-- The closure `var`: how an error speaks of a variable. -/
def var (secret : Bool) (name : Str) : Str :=
  if secret then "a referenced environment variable".toList
  else "environment variable `".toList ++ name ++ "`".toList

def unterminatedText : Str :=
  "unterminated `$\x7b` (write `$$\x7b` for a literal `$\x7b`)".toList

def invalidText : Str :=
  ("invalid `$\x7b...\x7d` reference: a variable name is ASCII letters, digits and `_`, " ++
    "not starting with a digit, and `$\x7bNAME:-default\x7d` forms are not supported " ++
    "(write `$$\x7b` for a literal `$\x7b`)").toList

def blankText : Str := " is empty or only whitespace or invisible characters".toList

def paddedText : Str :=
  (" begins or ends with whitespace or an invisible character, such as " ++
    "the trailing newline or byte-order mark of a file it was read from").toList

def notSetText : Str := " is not set".toList

def notUnicodeText : Str := " is not valid Unicode".toList

/-- `rest[..start]`, where `start` is the first `$`. -/
def beforeDollar (rest : Str) : Str := rest.takeWhile (· != '$')

/-- `run`: how many `$` stand there. -/
def dollarRun (rest : Str) : Nat := ((rest.dropWhile (· != '$')).takeWhile (· == '$')).length

/-- `after`: what follows them. -/
def afterDollars (rest : Str) : Str := (rest.dropWhile (· != '$')).dropWhile (· == '$')

theorem afterDollars_length {rest : Str} (h : '$' ∈ rest) :
    (afterDollars rest).length < rest.length := by
  induction rest with
  | nil => simp at h
  | cons c rest ih =>
    by_cases hc : c = '$'
    · subst hc
      have := (List.dropWhile_suffix (· == '$') (l := rest)).length_le
      simp only [afterDollars, List.dropWhile_cons, bne_self_eq_false, Bool.false_eq_true,
        if_false, beq_self_eq_true, if_true, List.length_cons]
      omega
    · have hmem : '$' ∈ rest := by simpa [Ne.symm hc] using h
      have := ih hmem
      simp only [afterDollars, List.dropWhile_cons, bne_iff_ne, ne_eq, hc, not_false_eq_true,
        if_true, List.length_cons] at this ⊢
      omega

/-- The loop of `expand_str`. -/
def expandLoop (lookup : Lookup) (secret : Bool) (rest out : Str) : Except Str Str :=
  if h : '$' ∈ rest then
    let out := out ++ beforeDollar rest
    let run := dollarRun rest
    match afterDollars rest, afterDollars_length h with
    | '{' :: body, _hlt =>
      -- pairs are escaped dollars; after an even run the brace is ordinary text
      let out := out ++ List.replicate (run / 2) '$'
      if run % 2 = 0 then expandLoop lookup secret ('{' :: body) out
      else if '}' ∈ body then
        let name := body.takeWhile (· != '}')
        if isValidName name = false then .error invalidText
        else
          match lookup name with
          | .ok value =>
            if value.all isPadding then .error (var secret name ++ blankText)
            else if padded value then .error (var secret name ++ paddedText)
            else expandLoop lookup secret (body.drop (name.length + 1)) (out ++ value)
          | .error .notPresent => .error (var secret name ++ notSetText)
          | .error (.notUnicode _) => .error (var secret name ++ notUnicodeText)
      else .error unterminatedText
    | after, _hlt => expandLoop lookup secret after (out ++ List.replicate run '$')
  else .ok (out ++ rest)
termination_by rest.length
decreasing_by
  · exact _hlt
  · simp only [List.length_cons, List.length_drop] at _hlt ⊢
    omega
  · exact _hlt

/-- Expand the references in one string. -/
def expandStr (s : Str) (lookup : Lookup) (secret : Bool) : Except Str Str :=
  expandLoop lookup secret s []

/-! ## The grammar of references -/

/-- A part of a string: text, or a reference to a variable. -/
inductive Piece where
  | text (t : Str)
  | reference (name : Str)
  deriving DecidableEq

/-- How the reading of a string ends. -/
inductive Ending where
  | whole
  | unterminated
  | invalid
  deriving DecidableEq

/-- Neither a `$` nor a `{` comes first. -/
def Plain (rest : Str) : Prop := ∀ c ∈ rest.head?, c ≠ '$' ∧ c ≠ '{'

/-- The string has these parts.  In a run of `$` before a `{`, each pair is one `$`, and an odd
one left over opens a reference; every other `$` is literal. -/
inductive Reads : Str → List Piece → Ending → Prop
  | done : Reads [] [] .whole
  | char {c : Char} {rest : Str} {ps : List Piece} {e : Ending} (hc : c ≠ '$')
      (h : Reads rest ps e) : Reads (c :: rest) (.text [c] :: ps) e
  | dollars {n : Nat} {rest : Str} {ps : List Piece} {e : Ending} (hr : Plain rest)
      (h : Reads rest ps e) :
      Reads (List.replicate (n + 1) '$' ++ rest) (.text (List.replicate (n + 1) '$') :: ps) e
  | escaped {n : Nat} {rest : Str} {ps : List Piece} {e : Ending}
      (h : Reads ('{' :: rest) ps e) :
      Reads (List.replicate (2 * (n + 1)) '$' ++ '{' :: rest)
        (.text (List.replicate (n + 1) '$') :: ps) e
  | reference {n : Nat} {name rest : Str} {ps : List Piece} {e : Ending}
      (hn : isValidName name = true) (h : Reads rest ps e) :
      Reads (List.replicate (2 * n + 1) '$' ++ '{' :: (name ++ '}' :: rest))
        (.text (List.replicate n '$') :: .reference name :: ps) e
  | invalid {n : Nat} {name rest : Str} (hn : isValidName name = false) (hb : '}' ∉ name) :
      Reads (List.replicate (2 * n + 1) '$' ++ '{' :: (name ++ '}' :: rest)) [] .invalid
  | unterminated {n : Nat} {body : Str} (hb : '}' ∉ body) :
      Reads (List.replicate (2 * n + 1) '$' ++ '{' :: body) [] .unterminated

/-! ## The meaning of references -/

/-- What is wrong with a variable. -/
inductive Fault where
  | unset
  | notUnicode
  | blank
  | padded
  deriving DecidableEq

/-- A variable's value, unless something is wrong with it. -/
def check : Except VarError Str → Except Fault Str
  | .ok value =>
    if value.all isPadding then .error .blank
    else if padded value then .error .padded
    else .ok value
  | .error .notPresent => .error .unset
  | .error (.notUnicode _) => .error .notUnicode

/-- The error, or `none` where there is a value. -/
def errorOf {ε α : Type} : Except ε α → Option ε
  | .ok _ => none
  | .error e => some e

/-- Both environments put every variable into the same class: usable, or one of the faults. -/
def SameClasses (lookup lookup' : Lookup) : Prop :=
  ∀ name, errorOf (check (lookup name)) = errorOf (check (lookup' name))

/-- Why a string cannot be expanded. -/
inductive Failure where
  | unterminated
  | invalid
  | variable (fault : Fault) (name : Str)
  deriving DecidableEq

/-- The way a string fails, without the name. -/
inductive Kind where
  | unterminated
  | invalid
  | variable (fault : Fault)
  deriving DecidableEq

def Failure.kind : Failure → Kind
  | .unterminated => .unterminated
  | .invalid => .invalid
  | .variable fault _ => .variable fault

def Fault.text : Fault → Str
  | .unset => notSetText
  | .notUnicode => notUnicodeText
  | .blank => blankText
  | .padded => paddedText

/-- The error text of a failure. -/
def Failure.text (secret : Bool) : Failure → Str
  | .unterminated => unterminatedText
  | .invalid => invalidText
  | .variable fault name => var secret name ++ fault.text

/-- The parts put together, with each variable's value in its place. -/
def meaning (lookup : Lookup) : List Piece → Ending → Except Failure Str
  | [], .whole => .ok []
  | [], .unterminated => .error .unterminated
  | [], .invalid => .error .invalid
  | .text t :: ps, e => (meaning lookup ps e).map (t ++ ·)
  | .reference name :: ps, e =>
    match check (lookup name) with
    | .ok value => (meaning lookup ps e).map (value ++ ·)
    | .error fault => .error (.variable fault name)

/-! ## What one pass of the loop does -/

theorem expandLoop_plain {lookup : Lookup} {secret : Bool} {rest : Str} (out : Str)
    (h : '$' ∉ rest) : expandLoop lookup secret rest out = .ok (out ++ rest) := by
  rw [expandLoop, dif_neg h]

theorem expandLoop_other {lookup : Lookup} {secret : Bool} {rest : Str} (out : Str)
    (h : '$' ∈ rest) (ha : ∀ body, afterDollars rest ≠ '{' :: body) :
    expandLoop lookup secret rest out =
      expandLoop lookup secret (afterDollars rest)
        (out ++ beforeDollar rest ++ List.replicate (dollarRun rest) '$') := by
  rw [expandLoop, dif_pos h]
  dsimp only
  split
  · rename_i body _ heq _
    exact absurd heq (ha body)
  · rfl

theorem expandLoop_brace {lookup : Lookup} {secret : Bool} {rest body : Str} (out : Str)
    (h : '$' ∈ rest) (ha : afterDollars rest = '{' :: body) :
    expandLoop lookup secret rest out =
      if dollarRun rest % 2 = 0 then
        expandLoop lookup secret ('{' :: body)
          (out ++ beforeDollar rest ++ List.replicate (dollarRun rest / 2) '$')
      else if '}' ∈ body then
        if isValidName (body.takeWhile (· != '}')) = false then .error invalidText
        else
          match check (lookup (body.takeWhile (· != '}'))) with
          | .ok value =>
            expandLoop lookup secret (body.drop ((body.takeWhile (· != '}')).length + 1))
              (out ++ beforeDollar rest ++ List.replicate (dollarRun rest / 2) '$' ++ value)
          | .error fault =>
            .error ((Failure.variable fault (body.takeWhile (· != '}'))).text secret)
      else .error unterminatedText := by
  rw [expandLoop, dif_pos h]
  dsimp only
  split
  · rename_i body' _ heq _
    obtain rfl : body' = body := by simpa [heq] using ha
    split
    · rfl
    split
    · split
      · rfl
      cases hl : lookup (body'.takeWhile (· != '}')) with
      | ok value =>
        dsimp only [check]
        split
        · rfl
        split <;> rfl
      | error err => cases err <;> rfl
    · rfl
  · rename_i heq
    exact (heq body (ha ▸ afterDollars_length h) ha (proof_irrel_heq _ _)).elim

/-! ## The scanner and the grammar -/

@[simp] theorem beforeDollar_cons {c : Char} (hc : c ≠ '$') (rest : Str) :
    beforeDollar (c :: rest) = c :: beforeDollar rest := by
  simp [beforeDollar, hc]

@[simp] theorem dollarRun_cons {c : Char} (hc : c ≠ '$') (rest : Str) :
    dollarRun (c :: rest) = dollarRun rest := by
  simp [dollarRun, hc]

@[simp] theorem afterDollars_cons {c : Char} (hc : c ≠ '$') (rest : Str) :
    afterDollars (c :: rest) = afterDollars rest := by
  simp [afterDollars, hc]

/-- An ordinary character is copied. -/
theorem expandLoop_char {lookup : Lookup} {secret : Bool} {c : Char} (hc : c ≠ '$')
    (rest out : Str) :
    expandLoop lookup secret (c :: rest) out = expandLoop lookup secret rest (out ++ [c]) := by
  by_cases h : '$' ∈ rest
  · have h' : '$' ∈ c :: rest := List.mem_cons_of_mem c h
    have hout : out ++ beforeDollar (c :: rest) = out ++ [c] ++ beforeDollar rest := by
      simp [hc]
    cases ha : afterDollars rest with
    | nil =>
      rw [expandLoop_other out h' (by simp [hc, ha]), expandLoop_other _ h (by simp [ha]), hout]
      simp [hc]
    | cons d body =>
      by_cases hd : d = '{'
      · subst hd
        rw [expandLoop_brace out h' (by simpa [hc] using ha), expandLoop_brace _ h ha, hout]
        simp [hc]
      · rw [expandLoop_other out h' (by simp [hc, ha, hd]),
          expandLoop_other _ h (by simp [ha, hd]), hout]
        simp [hc]
  · have h' : '$' ∉ c :: rest := by simp [Ne.symm hc, h]
    rw [expandLoop_plain out h', expandLoop_plain _ h]
    simp

/-- Where a run of `$` ends. -/
def EndsRun (rest : Str) : Prop := rest.head? ≠ some '$'

theorem Plain.endsRun {rest : Str} (h : Plain rest) : EndsRun rest := by
  intro heq
  exact (h '$' (by simp [heq])).1 rfl

theorem beforeDollar_run (n : Nat) (rest : Str) :
    beforeDollar (List.replicate (n + 1) '$' ++ rest) = [] := by
  simp [beforeDollar, List.replicate_succ]

theorem dropWhile_run (n : Nat) (rest : Str) :
    (List.replicate (n + 1) '$' ++ rest).dropWhile (· != '$') =
      List.replicate (n + 1) '$' ++ rest := by
  simp [List.replicate_succ]

theorem dollarRun_run (n : Nat) {rest : Str} (h : EndsRun rest) :
    dollarRun (List.replicate (n + 1) '$' ++ rest) = n + 1 := by
  have hrest : rest.takeWhile (· == '$') = [] := by
    cases rest with
    | nil => rfl
    | cons c rest =>
      have hc : c ≠ '$' := by simpa [EndsRun] using h
      simp [hc]
  rw [dollarRun, dropWhile_run, List.takeWhile_append_of_pos (by simp), hrest]
  simp

theorem afterDollars_run (n : Nat) {rest : Str} (h : EndsRun rest) :
    afterDollars (List.replicate (n + 1) '$' ++ rest) = rest := by
  have hrest : rest.dropWhile (· == '$') = rest := by
    cases rest with
    | nil => rfl
    | cons c rest =>
      have hc : c ≠ '$' := by simpa [EndsRun] using h
      simp [hc]
  rw [afterDollars, dropWhile_run, List.dropWhile_append_of_pos (by simp), hrest]

theorem mem_run (n : Nat) (rest : Str) : '$' ∈ List.replicate (n + 1) '$' ++ rest := by
  simp

theorem takeWhile_name {name : Str} (h : '}' ∉ name) (rest : Str) :
    (name ++ '}' :: rest).takeWhile (· != '}') = name := by
  rw [List.takeWhile_append_of_pos]
  · simp
  · intro c hc
    simp only [bne_iff_ne]
    rintro rfl
    exact h hc

theorem not_mem_of_isValidName {name : Str} (h : isValidName name = true) : '}' ∉ name := by
  cases name with
  | nil => simp
  | cons c cs =>
    simp only [isValidName, Bool.and_eq_true, List.all_eq_true] at h
    intro hmem
    rcases List.mem_cons.1 hmem with rfl | hmem
    · exact absurd h.1 (by decide)
    · exact absurd (h.2 _ hmem) (by decide)

theorem map_append_map {ε : Type} (r : Except ε Str) (out t : Str) :
    (r.map (t ++ ·)).map (out ++ ·) = r.map (out ++ t ++ ·) := by
  cases r <;> simp [Except.map]

/-- The loop yields the meaning of what is read, after what it had already copied. -/
theorem expandLoop_reads (lookup : Lookup) (secret : Bool) {s : Str} {ps : List Piece}
    {e : Ending} (h : Reads s ps e) : ∀ out,
    expandLoop lookup secret s out =
      ((meaning lookup ps e).map (out ++ ·)).mapError (Failure.text secret) := by
  induction h with
  | done =>
    intro out
    rw [expandLoop_plain out (by simp)]
    rfl
  | char hc _ ih =>
    intro out
    rw [expandLoop_char hc, ih]
    rw [meaning, map_append_map]
  | @dollars n rest ps e hr _ ih =>
    intro out
    have ha := afterDollars_run n hr.endsRun
    rw [expandLoop_other out (mem_run n rest), ha, ih, beforeDollar_run,
      dollarRun_run n hr.endsRun]
    · rw [meaning, map_append_map, List.append_nil]
    · rw [ha]
      rintro body rfl
      exact (hr '{' rfl).2 rfl
  | @escaped n rest ps e _ ih =>
    intro out
    have hrun : EndsRun ('{' :: rest) := by simp [EndsRun]
    have hlen : 2 * (n + 1) = 2 * n + 1 + 1 := by omega
    rw [hlen, expandLoop_brace out (mem_run _ _) (afterDollars_run _ hrun),
      dollarRun_run _ hrun, if_pos (by omega), ih, beforeDollar_run]
    have hhalf : (2 * n + 1 + 1) / 2 = n + 1 := by omega
    rw [meaning, map_append_map, List.append_nil, hhalf]
  | @reference n name rest ps e hn _ ih =>
    intro out
    have hrun : EndsRun ('{' :: (name ++ '}' :: rest)) := by simp [EndsRun]
    have htake := takeWhile_name (not_mem_of_isValidName hn) rest
    have hhalf : (2 * n + 1) / 2 = n := by omega
    rw [expandLoop_brace out (mem_run _ _) (afterDollars_run _ hrun), dollarRun_run _ hrun,
      if_neg (by omega), if_pos (by simp), htake, if_neg (by simp [hn]), beforeDollar_run, hhalf]
    cases hv : check (lookup name) with
    | ok value =>
      have hdrop : (name ++ '}' :: rest).drop (name.length + 1) = rest := by simp
      dsimp only
      rw [hdrop, ih, List.append_nil, meaning, meaning, hv, map_append_map, map_append_map]
    | error fault => simp [meaning, hv, Except.map, Except.mapError]
  | @invalid n name rest hn hb =>
    intro out
    have hrun : EndsRun ('{' :: (name ++ '}' :: rest)) := by simp [EndsRun]
    rw [expandLoop_brace out (mem_run _ _) (afterDollars_run _ hrun), dollarRun_run _ hrun,
      if_neg (by omega), if_pos (by simp), takeWhile_name hb rest, if_pos hn]
    rfl
  | @unterminated n body hb =>
    intro out
    have hrun : EndsRun ('{' :: body) := by simp [EndsRun]
    rw [expandLoop_brace out (mem_run _ _) (afterDollars_run _ hrun), dollarRun_run _ hrun,
      if_neg (by omega), if_neg hb]
    rfl

/-- What starts with a `$` starts with a run of them. -/
theorem exists_run (rest : Str) :
    ∃ n after, '$' :: rest = List.replicate (n + 1) '$' ++ after ∧ EndsRun after := by
  induction rest with
  | nil => exact ⟨0, [], rfl, by simp [EndsRun]⟩
  | cons c rest ih =>
    by_cases hc : c = '$'
    · subst hc
      obtain ⟨n, after, h, hafter⟩ := ih
      exact ⟨n + 1, after, by rw [h, List.replicate_succ (n := n + 1)]; rfl, hafter⟩
    · exact ⟨0, c :: rest, rfl, by simp [EndsRun, hc]⟩

/-- A run before a brace, when everything shorter is read. -/
theorem reads_brace (n : Nat) (body : Str)
    (ih : ∀ t : Str, t.length ≤ body.length + 1 → ∃ ps e, Reads t ps e) :
    ∃ ps e, Reads (List.replicate (n + 1) '$' ++ '{' :: body) ps e := by
  obtain ⟨m, hm | hm⟩ : ∃ m, n + 1 = 2 * m ∨ n + 1 = 2 * m + 1 := ⟨(n + 1) / 2, by omega⟩
  · obtain ⟨k, rfl⟩ : ∃ k, m = k + 1 := ⟨m - 1, by omega⟩
    obtain ⟨ps, e, h⟩ := ih ('{' :: body) (by simp)
    rw [hm]
    exact ⟨_, _, .escaped h⟩
  · rw [hm]
    by_cases hb : '}' ∈ body
    · -- the first `}` ends the name
      obtain ⟨name, rest, rfl, hname⟩ := List.eq_append_cons_of_mem hb
      cases hv : isValidName name with
      | true =>
        obtain ⟨ps, e, h⟩ := ih rest (by simp; omega)
        exact ⟨_, _, .reference hv h⟩
      | false => exact ⟨_, _, .invalid hv hname⟩
    · exact ⟨_, _, .unterminated hb⟩

/-- Every string is read in some way. -/
theorem reads_total (s : Str) : ∃ ps e, Reads s ps e := by
  induction hk : s.length using Nat.strongRecOn generalizing s with
  | ind k ih =>
    subst hk
    cases s with
    | nil => exact ⟨[], .whole, .done⟩
    | cons c rest =>
      by_cases hc : c = '$'
      · subst hc
        obtain ⟨n, after, hs, hafter⟩ := exists_run rest
        have hlen : after.length ≤ rest.length := by
          have := congrArg List.length hs
          simp only [List.length_cons, List.length_append, List.length_replicate] at this
          omega
        rw [hs]
        cases after with
        | nil => exact ⟨_, _, .dollars (by simp [Plain]) .done⟩
        | cons d body =>
          have hd : d ≠ '$' := by simpa [EndsRun] using hafter
          by_cases hb : d = '{'
          · subst hb
            exact reads_brace n body fun t ht =>
              ih t.length (by simp only [List.length_cons] at hlen ht ⊢; omega) t rfl
          · have hlt : (d :: body).length < ('$' :: rest).length := by
              rw [List.length_cons (a := '$')]
              omega
            obtain ⟨ps, e, h⟩ := ih _ hlt (d :: body) rfl
            exact ⟨_, _, .dollars (by simp [Plain, hd, hb]) h⟩
      · obtain ⟨ps, e, h⟩ := ih rest.length (by simp) rest rfl
        exact ⟨_, _, .char hc h⟩

/-- The scanner computes the meaning of what it reads. -/
theorem expandStr_reads (lookup : Lookup) (secret : Bool) {s : Str} {ps : List Piece}
    {e : Ending} (h : Reads s ps e) :
    expandStr s lookup secret = (meaning lookup ps e).mapError (Failure.text secret) := by
  rw [expandStr, expandLoop_reads lookup secret h]
  cases meaning lookup ps e <;> simp [Except.map, Except.mapError]

/-! ## Two runs -/

/-- The string fails in this way. -/
def FailsAs (lookup : Lookup) (s : Str) (f : Failure) : Prop :=
  ∃ ps e, Reads s ps e ∧ meaning lookup ps e = .error f

/-- The scanner fails where the string does, with the failure's text. -/
theorem errorOf_expandStr_eq_some_iff (lookup : Lookup) (secret : Bool) (s t : Str) :
    errorOf (expandStr s lookup secret) = some t ↔
      ∃ f, FailsAs lookup s f ∧ t = f.text secret := by
  obtain ⟨ps, e, h⟩ := reads_total s
  constructor
  · intro ht
    rw [expandStr_reads lookup secret h] at ht
    cases hm : meaning lookup ps e with
    | ok v => simp [hm, Except.mapError, errorOf] at ht
    | error f =>
      simp only [hm, Except.mapError, errorOf, Option.some.injEq] at ht
      exact ⟨f, ⟨ps, e, h, hm⟩, ht.symm⟩
  · rintro ⟨f, ⟨ps', e', h', hm⟩, rfl⟩
    rw [expandStr_reads lookup secret h', hm]
    rfl

/-- A failure of the parts is the same in environments of the same classes. -/
theorem errorOf_meaning {lookup lookup' : Lookup} (hl : SameClasses lookup lookup')
    (ps : List Piece) (e : Ending) :
    errorOf (meaning lookup ps e) = errorOf (meaning lookup' ps e) := by
  induction ps with
  | nil => cases e <;> rfl
  | cons p ps ih =>
    have hmap : ∀ (r : Except Failure Str) (t : Str), errorOf (r.map (t ++ ·)) = errorOf r := by
      intro r t
      cases r <;> rfl
    cases p with
    | text t => simp only [meaning, hmap, ih]
    | reference name =>
      have hname := hl name
      cases hc : check (lookup name) <;> cases hc' : check (lookup' name) <;>
        simp_all [meaning, errorOf]

/-- Environments that agree on the class of each variable fail alike. -/
theorem errorOf_expandStr {lookup lookup' : Lookup} (hl : SameClasses lookup lookup')
    (s : Str) (secret : Bool) :
    errorOf (expandStr s lookup secret) = errorOf (expandStr s lookup' secret) := by
  obtain ⟨ps, e, h⟩ := reads_total s
  have hm := errorOf_meaning hl ps e
  rw [expandStr_reads lookup secret h, expandStr_reads lookup' secret h]
  cases hr : meaning lookup ps e <;> cases hr' : meaning lookup' ps e <;>
    simp_all [errorOf, Except.mapError]

/-- In a secret setting, failures of one kind have one text. -/
theorem text_secret {f f' : Failure} (h : f.kind = f'.kind) : f.text true = f'.text true := by
  cases f <;> cases f' <;> simp_all [Failure.kind, Failure.text, var]

/-- In a secret setting the error tells the kind of failure and no more. -/
theorem expandStr_secret {lookup lookup' : Lookup} {s s' : Str} {f f' : Failure}
    (hf : FailsAs lookup s f) (hf' : FailsAs lookup' s' f') (hk : f.kind = f'.kind) :
    expandStr s lookup true = expandStr s' lookup' true := by
  obtain ⟨ps, e, h, hm⟩ := hf
  obtain ⟨ps', e', h', hm'⟩ := hf'
  rw [expandStr_reads lookup true h, expandStr_reads lookup' true h', hm, hm']
  simp only [Except.mapError, text_secret hk]

end DenBrowser.Env
