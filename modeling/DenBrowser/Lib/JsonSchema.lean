import DenBrowser.Lib.Json
import Mathlib.Data.List.Forall2

/-!
# JSON Schema

The keywords of JSON Schema that constrain a value without references to other documents, and
what it is for a value to satisfy them.  A schema object with several keywords is the `allOf` of
them; an annotation (`description`, `format`) constrains nothing.

* `valid_record` — an object with the members a closed schema lists, each of them valid, is
  valid;
* `valid_oneOf_pair` — exactly one of two schemas;
* `not_valid_of_extra` — a member that a closed schema does not list.
-/

set_option autoImplicit false

namespace JsonValue

/-- Equality is decided on the texts. -/
instance : DecidableEq JsonValue := fun v w =>
  decidable_of_iff (text v = text w) ⟨text_injective, fun h => by rw [h]⟩

end JsonValue

namespace JsonSchema

/-- One character of an anchored pattern. -/
inductive Atom where
  | char (c : Char)
  | digit
  deriving DecidableEq

def Atom.test : Atom → Char → Bool
  | .char c, d => c = d
  | .digit, d => d.isDigit

/-- A text matches a pattern that is anchored at both ends. -/
def matchAll : List Atom → List Char → Bool
  | [], [] => true
  | a :: p, c :: cs => a.test c && matchAll p cs
  | _, _ => false

inductive JsonType where
  | null | boolean | integer | string | object
  deriving DecidableEq

/-- Whether a value is of a type. -/
def JsonType.test : JsonType → JsonValue → Bool
  | .null, .null => true
  | .boolean, .bool _ => true
  | .integer, .int _ => true
  | .string, .str _ => true
  | .object, .obj _ => true
  | _, _ => false

end JsonSchema

open JsonSchema

/-- A schema.  `properties` is with `additionalProperties`, which is about the same object. -/
inductive JsonSchema where
  | type (types : List JsonType)
  | const (v : JsonValue)
  | enum (vs : List JsonValue)
  | pattern (p : List Atom)
  | required (keys : List (List Char))
  | properties (props : List (List Char × JsonSchema)) (additional : Bool)
  | minimum (n : Int)
  | maximum (n : Int)
  | allOf (ss : List JsonSchema)
  | anyOf (ss : List JsonSchema)
  | oneOf (ss : List JsonSchema)
  | not (s : JsonSchema)
  | ifThenElse (test yes no : JsonSchema)

namespace JsonSchema

/-- A keyword about texts says nothing of other values. -/
def onStr (test : List Char → Bool) : JsonValue → Bool
  | .str s => test s
  | _ => true

def onInt (test : Int → Bool) : JsonValue → Bool
  | .int i => test i
  | _ => true

def onObj (test : List (List Char × JsonValue) → Bool) : JsonValue → Bool
  | .obj members => test members
  | _ => true

mutual

/-- Whether a value satisfies a schema. -/
def valid : JsonSchema → JsonValue → Bool
  | .type types, v => types.any fun t => t.test v
  | .const w, v => decide (v = w)
  | .enum ws, v => ws.any fun w => decide (v = w)
  | .pattern p, v => onStr (matchAll p) v
  | .required keys, v => onObj (fun members => keys.all fun k => members.any fun m => m.1 == k) v
  | .properties props additional, v =>
    validProps props v &&
      (additional || onObj (fun members => members.all fun m => props.any fun p => p.1 == m.1) v)
  | .minimum n, v => onInt (fun i => decide (n ≤ i)) v
  | .maximum n, v => onInt (fun i => decide (i ≤ n)) v
  | .allOf ss, v => validAll ss v
  | .anyOf ss, v => countValid ss v != 0
  | .oneOf ss, v => countValid ss v == 1
  | .not s, v => !valid s v
  | .ifThenElse test yes no, v => if valid test v then valid yes v else valid no v

/-- Every listed property that the object has satisfies its schema. -/
def validProps : List (List Char × JsonSchema) → JsonValue → Bool
  | [], _ => true
  | (k, s) :: props, v =>
    (match v.get? k with
      | some w => valid s w
      | none => true) && validProps props v

def validAll : List JsonSchema → JsonValue → Bool
  | [], _ => true
  | s :: ss, v => valid s v && validAll ss v

/-- How many of the schemas a value satisfies. -/
def countValid : List JsonSchema → JsonValue → Nat
  | [], _ => 0
  | s :: ss, v => (if valid s v then 1 else 0) + countValid ss v

end

attribute [local simp] valid validProps validAll countValid

/-! ## Combinations -/

theorem valid_allOf (ss : List JsonSchema) (v : JsonValue) :
    valid (.allOf ss) v = true ↔ ∀ s ∈ ss, valid s v = true := by
  rw [valid]
  induction ss with
  | nil => simp [validAll]
  | cons s ss ih => simp [validAll, ih]

theorem countValid_ne_zero (ss : List JsonSchema) (v : JsonValue) :
    countValid ss v ≠ 0 ↔ ∃ s ∈ ss, valid s v = true := by
  induction ss with
  | nil => simp [countValid]
  | cons s ss ih =>
    rw [countValid]
    by_cases hs : valid s v = true
    · simp [hs]
    · have hskip : (if valid s v then 1 else 0) + countValid ss v = countValid ss v := by
        simp [hs]
      rw [hskip, ih]
      simp [hs]

theorem valid_anyOf (ss : List JsonSchema) (v : JsonValue) :
    valid (.anyOf ss) v = true ↔ ∃ s ∈ ss, valid s v = true := by
  rw [valid, ← countValid_ne_zero, bne_iff_ne]

/-- Either of two schemas that exclude each other. -/
theorem valid_oneOf_pair {s t : JsonSchema} {v : JsonValue} :
    valid (.oneOf [s, t]) v = true ↔ (valid s v = true ↔ ¬valid t v = true) := by
  rw [valid, countValid, countValid, countValid]
  cases valid s v <;> cases valid t v <;> simp

/-- One of several constants that differ. -/
theorem valid_oneOf_const {ws : List JsonValue} (hd : ws.Nodup) {v : JsonValue} :
    valid (.oneOf (ws.map .const)) v = true ↔ v ∈ ws := by
  have hcount : ∀ us : List JsonValue, us.Nodup →
      countValid (us.map .const) v = if v ∈ us then 1 else 0 := by
    intro us hus
    induction us with
    | nil => rfl
    | cons u us ih =>
      obtain ⟨hu, hus⟩ := List.nodup_cons.1 hus
      rw [List.map_cons, countValid, ih hus]
      by_cases hv : v = u
      · subst hv
        simp [valid, hu]
      · simp [valid, hv]
  rw [valid, hcount ws hd]
  by_cases hv : v ∈ ws <;> simp [hv]

theorem valid_enum {ws : List JsonValue} {v : JsonValue} : valid (.enum ws) v = true ↔ v ∈ ws := by
  rw [valid, List.any_eq_true]
  simp

theorem valid_const {w v : JsonValue} : valid (.const w) v = true ↔ v = w := by
  rw [valid, decide_eq_true_iff]

theorem valid_type {types : List JsonType} {v : JsonValue} :
    valid (.type types) v = true ↔ ∃ t ∈ types, t.test v = true := by
  rw [valid, List.any_eq_true]

theorem valid_pattern {p : List Atom} {s : List Char} :
    valid (.pattern p) (.str s) = true ↔ matchAll p s = true := by
  rw [valid, onStr]

/-- A bound says nothing of what is not a number. -/
theorem valid_minimum {n : Int} {v : JsonValue} :
    valid (.minimum n) v = true ↔ ∀ i, v = .int i → n ≤ i := by
  rw [valid]
  cases v <;> simp [onInt]

theorem valid_maximum {n : Int} {v : JsonValue} :
    valid (.maximum n) v = true ↔ ∀ i, v = .int i → i ≤ n := by
  rw [valid]
  cases v <;> simp [onInt]

theorem valid_if {test yes no : JsonSchema} {v : JsonValue} :
    valid (.ifThenElse test yes no) v = true ↔
      (valid test v = true → valid yes v = true) ∧ (¬valid test v = true → valid no v = true) := by
  rw [valid]
  cases valid test v <;> simp

/-! ## Objects -/

section Objects

variable {props : List (List Char × JsonSchema)} {members : List (List Char × JsonValue)}

theorem validProps_iff (v : JsonValue) :
    validProps props v = true ↔
      ∀ p ∈ props, ∀ w, v.get? p.1 = some w → valid p.2 w = true := by
  induction props with
  | nil => simp [validProps]
  | cons p props ih =>
    obtain ⟨k, s⟩ := p
    rw [validProps, Bool.and_eq_true, ih]
    cases hk : v.get? k <;> simp [hk]

/-- What `properties` says of an object. -/
theorem valid_properties {additional : Bool} :
    valid (.properties props additional) (.obj members) = true ↔
      (∀ p ∈ props, ∀ w, (JsonValue.obj members).get? p.1 = some w → valid p.2 w = true) ∧
      (additional = false → ∀ m ∈ members, m.1 ∈ props.map Prod.fst) := by
  rw [valid, onObj, Bool.and_eq_true, validProps_iff]
  refine and_congr_right fun _ => ?_
  cases additional with
  | true => simp
  | false => simp

theorem valid_required {keys : List (List Char)} :
    valid (.required keys) (.obj members) = true ↔ ∀ k ∈ keys, k ∈ members.map Prod.fst := by
  rw [valid, onObj, List.all_eq_true]
  simp

theorem get?_of_mem {k : List Char} {v : JsonValue} (hd : (members.map Prod.fst).Nodup)
    (h : (k, v) ∈ members) : (JsonValue.obj members).get? k = some v := by
  induction members with
  | nil => cases h
  | cons m members ih =>
    obtain ⟨hm, hd⟩ := List.nodup_cons.1 hd
    rcases List.mem_cons.1 h with rfl | h
    · simp [JsonValue.get?]
    · have hne : m.1 ≠ k := by
        rintro rfl
        exact hm (List.mem_map.2 ⟨_, h, rfl⟩)
      have hskip : (JsonValue.obj (m :: members)).get? k = (JsonValue.obj members).get? k := by
        simp [JsonValue.get?, hne]
      rw [hskip, ih hd h]

theorem mem_of_get? {k : List Char} {v : JsonValue} (h : (JsonValue.obj members).get? k = some v) :
    (k, v) ∈ members := by
  obtain ⟨m, hfind, rfl⟩ := Option.map_eq_some_iff.1 h
  have hkey : m.1 = k := by simpa using List.find?_some hfind
  subst hkey
  exact List.mem_of_find?_eq_some hfind

/-- Where the keys differ, a member is valid by the property of its key. -/
theorem valid_of_member (h : List.Forall₂ (fun p m => valid p.2 m.2 = true) props members)
    (hkeys : members.map Prod.fst = props.map Prod.fst) (hd : (props.map Prod.fst).Nodup)
    {p : List Char × JsonSchema} (hp : p ∈ props) {w : JsonValue} (hw : (p.1, w) ∈ members) :
    valid p.2 w = true := by
  induction h with
  | nil => cases hp
  | @cons q m qs ms hpm _ ih =>
    obtain ⟨hhead, htail⟩ := List.cons.inj hkeys
    change ms.map Prod.fst = qs.map Prod.fst at htail
    obtain ⟨hq, hqs⟩ := List.nodup_cons.1 hd
    have hfar : ∀ r ∈ qs, r.1 ≠ q.1 := by
      rintro r hr heq
      exact hq (heq ▸ List.mem_map_of_mem hr)
    rcases List.mem_cons.1 hp with rfl | hp
    · rcases List.mem_cons.1 hw with hw | hw
      · rw [← hw] at hpm
        exact hpm
      · have hkey : p.1 ∈ qs.map Prod.fst := by
          rw [← htail]
          exact List.mem_map_of_mem (f := Prod.fst) hw
        exact absurd hkey hq
    · rcases List.mem_cons.1 hw with hw | hw
      · rw [← hw] at hhead
        exact absurd hhead (hfar p hp)
      · exact ih htail hqs hp hw

/-- **A record satisfies the schema of its members**: the listed keys, each with a valid value,
and no other. -/
theorem valid_record (hkeys : members.map Prod.fst = props.map Prod.fst)
    (hd : (props.map Prod.fst).Nodup)
    (h : List.Forall₂ (fun p m => valid p.2 m.2 = true) props members) :
    valid (.type [.object]) (.obj members) = true ∧
      valid (.required (props.map Prod.fst)) (.obj members) = true ∧
      valid (.properties props false) (.obj members) = true := by
  refine ⟨rfl, ?_, ?_⟩
  · rw [valid_required, hkeys]
    exact fun k hk => hk
  · rw [valid_properties]
    refine ⟨fun p hp w hw => valid_of_member h hkeys hd hp (mem_of_get? hw), fun _ m hm => ?_⟩
    rw [← hkeys]
    exact List.mem_map_of_mem hm

/-- A schema may list properties that an object does not have. -/
theorem valid_properties_append {more : List (List Char × JsonSchema)} {additional : Bool}
    (h : valid (.properties props additional) (.obj members) = true)
    (hmore : ∀ q ∈ more, q.1 ∉ members.map Prod.fst) :
    valid (.properties (props ++ more) additional) (.obj members) = true := by
  rw [valid_properties] at h ⊢
  refine ⟨fun q hq w hw => ?_, fun hclosed m hm => ?_⟩
  · rcases List.mem_append.1 hq with hq | hq
    · exact h.1 q hq w hw
    · exact absurd (List.mem_map_of_mem (f := Prod.fst) (mem_of_get? hw)) (hmore q hq)
  · rw [List.map_append]
    exact List.mem_append_left _ (h.2 hclosed m hm)

/-- A member that a closed schema does not list. -/
theorem not_valid_of_extra {ss : List JsonSchema} {m : List Char × JsonValue}
    (hs : .properties props false ∈ ss) (hm : m ∈ members) (hk : m.1 ∉ props.map Prod.fst) :
    ¬valid (.allOf ss) (.obj members) = true := by
  intro h
  have hprops := (valid_allOf ss _).1 h _ hs
  exact hk ((valid_properties.1 hprops).2 rfl m hm)

end Objects

end JsonSchema
