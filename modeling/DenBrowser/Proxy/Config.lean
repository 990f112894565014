import DenBrowser.Lib.KeyedTree
import DenBrowser.Proxy.Env

/-!
# The configuration file

The proxy reads its configuration twice: once as it stands in the file, to check it, and once
after the references in its strings were replaced.

* `expand_eq` — the walk over the tree replaces each string and reports each failure, in order;
* `expand_leaks_nothing` — its error depends on no value of a variable, and in a secret setting
  on no text;
* `expand_complete` — it changes nothing but strings and reports every string that fails, so the
  second reading succeeds where the first did.
-/

set_option autoImplicit false

namespace DenBrowser.Config

open Env

/-! ## TOML values -/

structure Date where
  year : UInt16
  month : UInt8
  day : UInt8
  deriving DecidableEq

structure Time where
  hour : UInt8
  minute : UInt8
  second : UInt8
  nanosecond : UInt32
  deriving DecidableEq

/-- A date, a time or both, with an offset in minutes; `some none` is `Z`. -/
structure Datetime where
  date : Option Date
  time : Option Time
  offset : Option (Option Int16)
  deriving DecidableEq

/-- The values that hold no others; a float is given by its bits. -/
inductive Scalar where
  | string (s : Str)
  | integer (n : Int64)
  | float (bits : UInt64)
  | boolean (b : Bool)
  | datetime (d : Datetime)
  deriving DecidableEq

abbrev Value := KeyedTree Str Scalar

abbrev Address := List (KeyedTree.Step Str)

/-- `toml::Table`: the entries in the order of its iterator, no key twice at any level. -/
structure Table where
  entries : List (Str × Value)
  distinct : KeyedTree.Distinct (KeyedTree.table entries)

def Table.value (t : Table) : Value := .table t.entries

/-! ## The walk -/

mutual

def expandValue (lookup : Lookup) (secrets : List Str) (path : Str) :
    Value → (errors : List Str) → Value × List Str
  | .leaf (.string s), errors =>
    match expandStr s lookup (secrets.contains path) with
    | .ok expanded => (.leaf (.string expanded), errors)
    | .error e => (.leaf (.string s), errors ++ [path ++ ": ".toList ++ e])
  | .array items, errors =>
    let (items, errors) := expandItems lookup secrets path 0 items errors
    (.array items, errors)
  | .table entries, errors =>
    let (entries, errors) := expandEntries lookup secrets path entries errors
    (.table entries, errors)
  | .leaf value, errors => (.leaf value, errors)

/-- The loop over an array. -/
def expandItems (lookup : Lookup) (secrets : List Str) (path : Str) :
    (i : Nat) → List Value → (errors : List Str) → List Value × List Str
  | _, [], errors => ([], errors)
  | i, item :: items, errors =>
    let (item, errors) := expandValue lookup secrets
      (path ++ "[".toList ++ (toString i).toList ++ "]".toList) item errors
    let (items, errors) := expandItems lookup secrets path (i + 1) items errors
    (item :: items, errors)

/-- The loop over a table. -/
def expandEntries (lookup : Lookup) (secrets : List Str) (path : Str) :
    List (Str × Value) → (errors : List Str) → List (Str × Value) × List Str
  | [], errors => ([], errors)
  | (key, item) :: entries, errors =>
    let (item, errors) := expandValue lookup secrets (path ++ ".".toList ++ key) item errors
    let (entries, errors) := expandEntries lookup secrets path entries errors
    ((key, item) :: entries, errors)

end

/-- The loop of `expand`. -/
def expandSections (lookup : Lookup) (secrets : List Str) :
    List (Str × Value) → (errors : List Str) → List (Str × Value) × List Str
  | [], errors => ([], errors)
  | (key, value) :: table, errors =>
    let (value, errors) := expandValue lookup secrets
      ("[".toList ++ key ++ "]".toList) value errors
    let (table, errors) := expandSections lookup secrets table errors
    ((key, value) :: table, errors)

/-! ## Settings and their paths -/

/-- A step as a path shows it. -/
def stepText : KeyedTree.Step Str → Str
  | .index i => "[".toList ++ (toString i).toList ++ "]".toList
  | .key k => ".".toList ++ k

/-- The path of a setting, as errors print it: `[proxy].tls_cert`. -/
def pathText : Address → Str
  | [] => []
  | .index i :: steps => stepText (.index i) ++ steps.flatMap stepText
  | .key k :: steps => "[".toList ++ k ++ "]".toList ++ steps.flatMap stepText

theorem pathText_append {a : Address} (h : a ≠ []) (step : KeyedTree.Step Str) :
    pathText (a ++ [step]) = pathText a ++ stepText step := by
  cases a with
  | nil => exact absurd rfl h
  | cons s steps => cases s <;> simp [pathText]

/-- The expansion of the string at an address. -/
def expansion (lookup : Lookup) (secrets : List Str) (a : Address) (s : Str) : Except Str Str :=
  expandStr s lookup (secrets.contains (pathText a))

/-- What becomes of the string at an address: one that fails stays. -/
def replaced (lookup : Lookup) (secrets : List Str) (a : Address) (s : Str) : Str :=
  match expansion lookup secrets a s with
  | .ok expanded => expanded
  | .error _ => s

/-- The error of the string at an address. -/
def report (lookup : Lookup) (secrets : List Str) (a : Address) (s : Str) : Option Str :=
  (errorOf (expansion lookup secrets a s)).map fun e => pathText a ++ ": ".toList ++ e

def replacedScalar (lookup : Lookup) (secrets : List Str) (a : Address) : Scalar → Scalar
  | .string s => .string (replaced lookup secrets a s)
  | value => value

def reportScalar (lookup : Lookup) (secrets : List Str) : Address × Scalar → Option Str
  | (a, .string s) => report lookup secrets a s
  | _ => none

theorem expandValue_leaf (lookup : Lookup) (secrets : List Str) (a : Address) (x : Scalar)
    (errors : List Str) :
    expandValue lookup secrets (pathText a) (.leaf x) errors =
      (.leaf (replacedScalar lookup secrets a x),
        errors ++ (reportScalar lookup secrets (a, x)).toList) := by
  cases x with
  | string s =>
    simp only [expandValue, replacedScalar, reportScalar, replaced, report, expansion]
    cases expandStr s lookup (secrets.contains (pathText a)) <;> simp [errorOf]
  | integer n => simp [expandValue, replacedScalar, reportScalar]
  | float bits => simp [expandValue, replacedScalar, reportScalar]
  | boolean b => simp [expandValue, replacedScalar, reportScalar]
  | datetime d => simp [expandValue, replacedScalar, reportScalar]

/-! ## The walk is a mapping with a list of reports -/

/-- The errors of the leaves that fail. -/
def reports (lookup : Lookup) (secrets : List Str) (leaves : List (Address × Scalar)) : List Str :=
  leaves.filterMap (reportScalar lookup secrets)

mutual

theorem expandValue_eq (lookup : Lookup) (secrets : List Str) {a : Address} (h : a ≠ []) :
    ∀ (v : Value) (errors : List Str),
      expandValue lookup secrets (pathText a) v errors =
        (v.mapLeaves (replacedScalar lookup secrets) a,
          errors ++ reports lookup secrets (v.leaves a))
  | .leaf x, errors => by
    rw [expandValue_leaf]
    cases hr : reportScalar lookup secrets (a, x) <;>
      simp [KeyedTree.mapLeaves, KeyedTree.leaves, reports, hr]
  | .array items, errors => by
    simp only [expandValue, KeyedTree.mapLeaves, KeyedTree.leaves]
    rw [expandItems_eq lookup secrets h 0 items errors]
  | .table entries, errors => by
    simp only [expandValue, KeyedTree.mapLeaves, KeyedTree.leaves]
    rw [expandEntries_eq lookup secrets h entries errors]

theorem expandItems_eq (lookup : Lookup) (secrets : List Str) {a : Address} (h : a ≠ []) :
    ∀ (i : Nat) (items : List Value) (errors : List Str),
      expandItems lookup secrets (pathText a) i items errors =
        (KeyedTree.mapItems (replacedScalar lookup secrets) a i items,
          errors ++ reports lookup secrets (KeyedTree.leavesItems a i items))
  | _, [], errors => by
    simp [expandItems, KeyedTree.mapItems, KeyedTree.leavesItems, reports]
  | i, item :: items, errors => by
    have hpath : pathText a ++ "[".toList ++ (toString i).toList ++ "]".toList =
        pathText (a ++ [.index i]) := by
      rw [pathText_append h]
      simp [stepText]
    simp only [expandItems, KeyedTree.mapItems, KeyedTree.leavesItems]
    rw [hpath, expandValue_eq lookup secrets (by simp) item errors]
    dsimp only
    rw [expandItems_eq lookup secrets h (i + 1) items]
    simp [reports]

theorem expandEntries_eq (lookup : Lookup) (secrets : List Str) {a : Address} (h : a ≠ []) :
    ∀ (entries : List (Str × Value)) (errors : List Str),
      expandEntries lookup secrets (pathText a) entries errors =
        (KeyedTree.mapEntries (replacedScalar lookup secrets) a entries,
          errors ++ reports lookup secrets (KeyedTree.leavesEntries a entries))
  | [], errors => by
    simp [expandEntries, KeyedTree.mapEntries, KeyedTree.leavesEntries, reports]
  | (key, item) :: entries, errors => by
    have hpath : pathText a ++ ".".toList ++ key = pathText (a ++ [.key key]) := by
      rw [pathText_append h]
      simp [stepText]
    simp only [expandEntries, KeyedTree.mapEntries, KeyedTree.leavesEntries]
    rw [hpath, expandValue_eq lookup secrets (by simp) item errors]
    dsimp only
    rw [expandEntries_eq lookup secrets h entries]
    simp [reports]

end

theorem expandSections_eq (lookup : Lookup) (secrets : List Str) (table : List (Str × Value)) :
    ∀ errors, expandSections lookup secrets table errors =
      (KeyedTree.mapEntries (replacedScalar lookup secrets) [] table,
        errors ++ reports lookup secrets (KeyedTree.leavesEntries [] table)) := by
  induction table with
  | nil =>
    intro errors
    simp [expandSections, KeyedTree.mapEntries, KeyedTree.leavesEntries, reports]
  | cons entry table ih =>
    intro errors
    obtain ⟨key, value⟩ := entry
    have hpath : "[".toList ++ key ++ "]".toList = pathText [.key key] := by simp [pathText]
    simp only [expandSections, KeyedTree.mapEntries, KeyedTree.leavesEntries, List.nil_append]
    rw [hpath, expandValue_eq lookup secrets (by simp) value errors]
    dsimp only
    rw [ih]
    simp [reports]

theorem mapEntries_distinct (f : Address → Scalar → Scalar) (t : Table) :
    KeyedTree.Distinct (KeyedTree.table (KeyedTree.mapEntries f [] t.entries)) := by
  have h := KeyedTree.distinct_mapLeaves f [] _ t.distinct
  rwa [KeyedTree.mapLeaves] at h

/-- The walk keeps the keys distinct. -/
theorem expandSections_distinct (lookup : Lookup) (secrets : List Str) (t : Table) :
    KeyedTree.Distinct (KeyedTree.table (expandSections lookup secrets t.entries []).1) := by
  rw [expandSections_eq]
  exact mapEntries_distinct _ t

/-- Expand every string value in the table: the table afterwards, and the result. -/
def expand (table : Table) (lookup : Lookup) (secrets : List Str) : Table × Except Str Unit :=
  let errors := (expandSections lookup secrets table.entries []).2
  (⟨(expandSections lookup secrets table.entries []).1,
      expandSections_distinct lookup secrets table⟩,
    if errors = [] then .ok () else .error ("; ".toList.intercalate errors))

/-! ## Settings -/

/-- The string settings of a table, each with its address. -/
def settings (t : Table) : List (Address × Str) :=
  (t.value.leaves []).filterMap fun x =>
    match x.2 with
    | .string s => some (x.1, s)
    | _ => none

def eraseString : Scalar → Scalar
  | .string _ => .string []
  | value => value

/-- A table with the text of its strings left out. -/
def Table.skeleton (t : Table) : Value := t.value.mapLeaves (fun _ x => eraseString x) []

/-- The errors of the settings that fail. -/
def failures (lookup : Lookup) (secrets : List Str) (t : Table) : List Str :=
  (settings t).filterMap fun x => report lookup secrets x.1 x.2

theorem reports_eq_failures (lookup : Lookup) (secrets : List Str) (t : Table) :
    reports lookup secrets (t.value.leaves []) = failures lookup secrets t := by
  rw [reports, failures, settings, List.filterMap_filterMap]
  congr 1
  funext x
  obtain ⟨a, x⟩ := x
  cases x <;> rfl

theorem Table.leaves_value (t : Table) :
    t.value.leaves [] = KeyedTree.leavesEntries [] t.entries := by
  simp [Table.value, KeyedTree.leaves]

theorem expand_table (lookup : Lookup) (secrets : List Str) (t : Table) :
    (expand t lookup secrets).1.value = t.value.mapLeaves (replacedScalar lookup secrets) [] := by
  simp only [expand, Table.value, expandSections_eq, KeyedTree.mapLeaves]

theorem expand_result (lookup : Lookup) (secrets : List Str) (t : Table) :
    (expand t lookup secrets).2 =
      if failures lookup secrets t = [] then .ok ()
      else .error ("; ".toList.intercalate (failures lookup secrets t)) := by
  simp only [expand, expandSections_eq, ← t.leaves_value, reports_eq_failures, List.nil_append]

theorem skeleton_expand (lookup : Lookup) (secrets : List Str) (t : Table) :
    (expand t lookup secrets).1.skeleton = t.skeleton := by
  rw [Table.skeleton, expand_table, KeyedTree.mapLeaves_mapLeaves, Table.skeleton]
  congr 1
  funext a x
  cases x <;> rfl

theorem settings_expand (lookup : Lookup) (secrets : List Str) (t : Table) :
    settings (expand t lookup secrets).1 =
      (settings t).map fun x => (x.1, replaced lookup secrets x.1 x.2) := by
  rw [settings, expand_table, KeyedTree.leaves_mapLeaves, settings, List.filterMap_map,
    List.map_filterMap]
  congr 1
  funext x
  obtain ⟨a, x⟩ := x
  cases x <;> rfl

theorem nodup_settings (t : Table) : ((settings t).map Prod.fst).Nodup := by
  have h := KeyedTree.nodup_addresses [] t.value t.distinct
  refine List.Nodup.sublist ?_ h
  rw [settings, List.map_filterMap]
  generalize t.value.leaves [] = leaves
  induction leaves with
  | nil => simp
  | cons x leaves ih =>
    obtain ⟨a, x⟩ := x
    cases x with
    | string s => simpa using ih
    | integer n => simpa using ih.cons a
    | float bits => simpa using ih.cons a
    | boolean b => simpa using ih.cons a
    | datetime d => simpa using ih.cons a

/-! ## Errors that leak nothing -/

/-- Both strings fail and in the same way, or neither fails. -/
def SameWay (lookup : Lookup) (s : Str) (lookup' : Lookup) (s' : Str) : Prop :=
  (∃ f f', FailsAs lookup s f ∧ FailsAs lookup' s' f' ∧ f.kind = f'.kind) ∨
    ((∀ f, ¬FailsAs lookup s f) ∧ ∀ f', ¬FailsAs lookup' s' f')

/-- Two settings that only a secret tells apart. -/
def SameToOutside (lookup lookup' : Lookup) (secrets : List Str) (x x' : Address × Str) : Prop :=
  x.1 = x'.1 ∧ (x.2 = x'.2 ∨ pathText x.1 ∈ secrets ∧ SameWay lookup x.2 lookup' x'.2)

theorem errorOf_of_never {lookup : Lookup} {s : Str} (secret : Bool)
    (h : ∀ f, ¬FailsAs lookup s f) : errorOf (expandStr s lookup secret) = none := by
  cases he : errorOf (expandStr s lookup secret) with
  | none => rfl
  | some t =>
    obtain ⟨f, hf, -⟩ := (errorOf_expandStr_eq_some_iff lookup secret s t).1 he
    exact absurd hf (h f)

theorem errorOf_of_sameWay {lookup lookup' : Lookup} {s s' : Str}
    (h : SameWay lookup s lookup' s') :
    errorOf (expandStr s lookup true) = errorOf (expandStr s' lookup' true) := by
  rcases h with ⟨f, f', hf, hf', hk⟩ | ⟨hn, hn'⟩
  · rw [expandStr_secret hf hf' hk]
  · rw [errorOf_of_never true hn, errorOf_of_never true hn']

theorem report_eq {lookup lookup' : Lookup} (hl : SameClasses lookup lookup')
    {secrets : List Str} {x x' : Address × Str} (h : SameToOutside lookup lookup' secrets x x') :
    report lookup secrets x.1 x.2 = report lookup' secrets x'.1 x'.2 := by
  obtain ⟨a, s⟩ := x
  obtain ⟨a', s'⟩ := x'
  obtain ⟨rfl, h⟩ := h
  simp only [report, expansion]
  rcases h with rfl | ⟨hmem, hway⟩
  · rw [errorOf_expandStr hl]
  · have hsecret : secrets.contains (pathText a) = true := by simpa using hmem
    rw [hsecret, errorOf_of_sameWay hway]

theorem failures_eq {lookup lookup' : Lookup} (hl : SameClasses lookup lookup')
    {secrets : List Str} {t t' : Table}
    (h : List.Forall₂ (SameToOutside lookup lookup' secrets) (settings t) (settings t')) :
    failures lookup secrets t = failures lookup' secrets t' := by
  rw [failures, failures]
  generalize settings t = xs at h ⊢
  generalize settings t' = xs' at h ⊢
  induction h with
  | nil => rfl
  | cons hx _ ih => simp only [List.filterMap_cons, report_eq hl hx, ih]

theorem sameToOutside_refl (lookup lookup' : Lookup) (secrets : List Str)
    (xs : List (Address × Str)) : List.Forall₂ (SameToOutside lookup lookup' secrets) xs xs := by
  induction xs with
  | nil => exact .nil
  | cons x xs ih => exact .cons ⟨rfl, Or.inl rfl⟩ ih

/-- **Errors that leak nothing**: environments that put every variable into the same class give
the same result, also when secret settings differ that fail in the same way; and the error of a
secret setting is that of every other secret string that fails in that way. -/
theorem expand_leaks_nothing {lookup lookup' : Lookup} (hl : SameClasses lookup lookup')
    (secrets : List Str) (t : Table) :
    (expand t lookup secrets).2 = (expand t lookup' secrets).2 ∧
      (∀ t', List.Forall₂ (SameToOutside lookup lookup' secrets) (settings t) (settings t') →
        (expand t lookup secrets).2 = (expand t' lookup' secrets).2) ∧
      ∀ path ∈ secrets, ∀ (env env' : Lookup) (s s' : Str) (f f' : Failure),
        FailsAs env s f → FailsAs env' s' f' → f.kind = f'.kind → ∀ errors,
        (expandValue env secrets path (.leaf (.string s)) errors).2 =
          (expandValue env' secrets path (.leaf (.string s')) errors).2 := by
  have hresult : ∀ t', List.Forall₂ (SameToOutside lookup lookup' secrets) (settings t)
      (settings t') → (expand t lookup secrets).2 = (expand t' lookup' secrets).2 := by
    intro t' h
    rw [expand_result, expand_result, failures_eq hl h]
  refine ⟨hresult t (sameToOutside_refl lookup lookup' secrets _), hresult, ?_⟩
  intro path hpath env env' s s' f f' hf hf' hk errors
  have hsecret : secrets.contains path = true := by simpa using hpath
  have heq := expandStr_secret hf hf' hk
  simp only [expandValue, hsecret, heq]
  cases expandStr s' env' true <;> rfl

/-- A table with one section that has one string. -/
def oneSetting (sec key s : Str) : Table :=
  ⟨[(sec, .table [(key, .leaf (.string s))])], by
    simp [KeyedTree.Distinct, KeyedTree.DistinctEntries]⟩

def nameOnly (value : Str) : Lookup :=
  fun name => if name = "NAME".toList then .ok value else .error .notPresent

theorem expand_leaks_nothing_blank :
    (expand (oneSetting "proxy".toList "tls_key_passphrase".toList "$\x7bNAME\x7d".toList)
        (nameOnly " ".toList) ["[proxy].tls_key_passphrase".toList]).2 =
      (expand (oneSetting "proxy".toList "tls_key_passphrase".toList "$\x7bNAME\x7d".toList)
        (nameOnly "\n".toList) ["[proxy].tls_key_passphrase".toList]).2 := by
  refine (expand_leaks_nothing ?_ _ _).1
  intro name
  by_cases h : name = "NAME".toList
  · simp only [nameOnly, if_pos h]
    decide
  · simp only [nameOnly, if_neg h]

/-! ## The two readings -/

/-- `SECRET_SETTINGS`. -/
def secretSettings : List Str := ["[proxy].tls_key_passphrase".toList]

/-- What the configuration types and the TOML library do: `toml::from_str` into the configuration
and into a table, and `Value::try_into`. -/
structure Toml (C : Type) where
  fromStr : Str → Except Str C
  fromStrTable : Str → Except Str Table
  tryInto : Table → Except Str C

def afterText : Str :=
  ("the config parsed before environment variables were expanded but " ++
    "not after; this is a bug in the proxy").toList

/-- `Config::parse`. -/
def parse {C : Type} (toml : Toml C) (text : Str) (lookup : Lookup) : Except Str C :=
  match toml.fromStr text with
  | .error e => .error e
  | .ok _ =>
    match toml.fromStrTable text with
    | .error e => .error e
    | .ok table =>
      match expand table lookup secretSettings with
      | (_, .error e) => .error e
      | (table, .ok ()) => (toml.tryInto table).mapError fun _ => afterText

/-- Whether a conversion succeeds is a matter of the keys and the values other than strings. -/
def Toml.LooksAtTypes {C : Type} (toml : Toml C) : Prop :=
  ∀ t t' : Table, t.skeleton = t'.skeleton →
    ((∃ c, toml.tryInto t = .ok c) ↔ ∃ c, toml.tryInto t' = .ok c)

/-- What is read as a configuration is read as a table, and that one converts. -/
def Toml.Stricter {C : Type} (toml : Toml C) : Prop :=
  ∀ text c, toml.fromStr text = .ok c →
    ∃ t, toml.fromStrTable text = .ok t ∧ ∃ c, toml.tryInto t = .ok c

theorem expand_ok_iff (lookup : Lookup) (secrets : List Str) (t : Table) :
    (expand t lookup secrets).2 = .ok () ↔
      ∀ x ∈ settings t, ∃ v, expansion lookup secrets x.1 x.2 = .ok v := by
  rw [expand_result]
  have hok : ∀ x : Address × Str, report lookup secrets x.1 x.2 = none ↔
      ∃ v, expansion lookup secrets x.1 x.2 = .ok v := by
    intro x
    simp only [report, Option.map_eq_none_iff]
    cases expansion lookup secrets x.1 x.2 <;> simp [errorOf]
  have hnil : failures lookup secrets t = [] ↔
      ∀ x ∈ settings t, report lookup secrets x.1 x.2 = none := by
    simp only [failures, List.filterMap_eq_nil_iff]
  simp only [← hok, ← hnil]
  split <;> simp_all

/-- **Expansion is complete**: it keeps all but the text of the strings, puts each string's own
expansion in its place, reports one error for each setting that fails, under its path, and fails
exactly when one does; so the second reading of the file succeeds where the first did. -/
theorem expand_complete {C : Type} {toml : Toml C} (htypes : toml.LooksAtTypes)
    (hstrict : toml.Stricter) (lookup : Lookup) (secrets : List Str) (t : Table) :
    (expand t lookup secrets).1.skeleton = t.skeleton ∧
      settings (expand t lookup secrets).1 =
        (settings t).map (fun x => (x.1, replaced lookup secrets x.1 x.2)) ∧
      ((settings t).map Prod.fst).Nodup ∧
      (expand t lookup secrets).2 =
        (if failures lookup secrets t = [] then .ok ()
        else .error ("; ".toList.intercalate (failures lookup secrets t))) ∧
      ((expand t lookup secrets).2 = .ok () ↔
        ∀ x ∈ settings t, ∃ v, expansion lookup secrets x.1 x.2 = .ok v) ∧
      ∀ text c, toml.fromStr text = .ok c → ∃ table, toml.fromStrTable text = .ok table ∧
        ((expand table lookup secretSettings).2 = .ok () →
          ∃ c', parse toml text lookup = .ok c') := by
  refine ⟨skeleton_expand lookup secrets t, settings_expand lookup secrets t, nodup_settings t,
    expand_result lookup secrets t, expand_ok_iff lookup secrets t, ?_⟩
  intro text c hc
  obtain ⟨table, htable, hinto⟩ := hstrict text c hc
  refine ⟨table, htable, fun hok => ?_⟩
  obtain ⟨c', hc'⟩ := (htypes _ _ (skeleton_expand lookup secretSettings table)).2 hinto
  refine ⟨c', ?_⟩
  rw [parse, hc, htable]
  dsimp only
  cases hx : expand table lookup secretSettings with
  | mk expanded result =>
    rw [hx] at hok hc'
    dsimp only at hok hc'
    subst hok
    show (toml.tryInto expanded).mapError _ = _
    rw [hc']
    rfl

def listenFile : Str := "[proxy]\nlisten = \"$\x7bNAME\x7d\"\n".toList

def reference : Str := "$\x7bNAME\x7d".toList

/-- A configuration of one string, `listen`, and one file that is read. -/
def listenOnly : Toml Str where
  fromStr text := if text = listenFile then .ok reference else .error "expected a table".toList
  fromStrTable text :=
    if text = listenFile then .ok (oneSetting "proxy".toList "listen".toList reference)
    else .error "expected a table".toList
  tryInto t :=
    match t.entries with
    | [(sec, .table [(key, .leaf (.string s))])] =>
      if sec = "proxy".toList ∧ key = "listen".toList then .ok s else .error "unknown field".toList
    | _ => .error "invalid type".toList

theorem tryInto_listenOnly (t : Table) : (∃ c, listenOnly.tryInto t = .ok c) ↔
    t.skeleton = .table [("proxy".toList, .table [("listen".toList, .leaf (.string []))])] := by
  obtain ⟨entries, hd⟩ := t
  simp only [listenOnly, Table.skeleton, Table.value, KeyedTree.mapLeaves, KeyedTree.table.injEq]
  constructor
  · rintro ⟨c, h⟩
    split at h
    · split at h
      · rename_i hk
        simp [KeyedTree.mapEntries, KeyedTree.mapLeaves, eraseString, hk.1, hk.2]
      · cases h
    · cases h
  · intro h
    match entries with
    | [] => cases h
    | (sec, .leaf x) :: rest => simp [KeyedTree.mapEntries, KeyedTree.mapLeaves] at h
    | (sec, .array items) :: rest => simp [KeyedTree.mapEntries, KeyedTree.mapLeaves] at h
    | (sec, .table []) :: rest => simp [KeyedTree.mapEntries, KeyedTree.mapLeaves] at h
    | (sec, .table ((key, .array items) :: rest')) :: rest =>
      simp [KeyedTree.mapEntries, KeyedTree.mapLeaves] at h
    | (sec, .table ((key, .table es) :: rest')) :: rest =>
      simp [KeyedTree.mapEntries, KeyedTree.mapLeaves] at h
    | (sec, .table ((key, .leaf x) :: e :: rest')) :: rest =>
      simp [KeyedTree.mapEntries, KeyedTree.mapLeaves] at h
    | (sec, .table [(key, .leaf x)]) :: e :: rest =>
      simp [KeyedTree.mapEntries, KeyedTree.mapLeaves] at h
    | [(sec, .table [(key, .leaf x)])] =>
      simp only [KeyedTree.mapEntries, KeyedTree.mapLeaves, List.cons.injEq, Prod.mk.injEq,
        KeyedTree.table.injEq, KeyedTree.leaf.injEq, and_true] at h
      obtain ⟨hsec, hkey, hx⟩ := h
      cases x with
      | string s => exact ⟨s, if_pos ⟨hsec, hkey⟩⟩
      | integer n => cases hx
      | float bits => cases hx
      | boolean b => cases hx
      | datetime d => cases hx

theorem expand_complete_listen :
    ∃ table, listenOnly.fromStrTable listenFile = .ok table ∧
      ((expand table (nameOnly "localhost".toList) secretSettings).2 = .ok () →
        ∃ c, parse listenOnly listenFile (nameOnly "localhost".toList) = .ok c) := by
  have htypes : listenOnly.LooksAtTypes := by
    intro t t' h
    rw [tryInto_listenOnly, tryInto_listenOnly, h]
  have hinto : listenOnly.tryInto (oneSetting "proxy".toList "listen".toList reference) =
      .ok reference := by
    show (if "proxy".toList = "proxy".toList ∧ "listen".toList = "listen".toList then _
      else Except.error "unknown field".toList) = _
    exact if_pos ⟨rfl, rfl⟩
  have hstrict : listenOnly.Stricter := by
    intro text c h
    by_cases ht : text = listenFile
    · exact ⟨_, if_pos ht, reference, hinto⟩
    · cases (if_neg ht).symm.trans h
  have hfile : listenOnly.fromStr listenFile = .ok reference := by
    show (if listenFile = listenFile then _ else Except.error "expected a table".toList) = _
    exact if_pos rfl
  exact (expand_complete htypes hstrict (nameOnly "localhost".toList) []
    (oneSetting [] [] [])).2.2.2.2.2
    listenFile reference hfile

end DenBrowser.Config
