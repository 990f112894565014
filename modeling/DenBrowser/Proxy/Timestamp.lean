import DenBrowser.Lib.Calendar
import DenBrowser.Lib.FixedWidth
import DenBrowser.Lib.JsonSchema
import DenBrowser.Proxy.Audit

/-!
# Timestamps

`audit::timestamp`: the time a record was written, in RFC 3339 with milliseconds.  The log keeps
the promise that the strings are of one width and sort in time order.

* `civil_succ` — the dates of successive days follow the calendar;
* `formatUtcAt_lt_iff` — two instants compare as their texts do;
* `timestamp_order` — the width, the order and the pattern of every timestamp.
-/

set_option autoImplicit false

namespace DenBrowser

open Calendar FixedWidth JsonSchema

/-! ## Dates -/

/-- The date `civil` computes. -/
def dateOf (days : Nat) : Date := ⟨(civil days).1, (civil days).2.1, (civil days).2.2⟩

/-- **`civil` is the arithmetic of years from March.** -/
theorem dateOf_eq {m : March} {k days : Nat} (hk : k < m.length)
    (h : days + 719468 = m.start + k) : dateOf days = ofMarch m.year k := by
  unfold dateOf civil ofMarch monthDay March.year
  dsimp only
  generalize days + 719468 = z at h ⊢
  have hyear := yearOfEra_eq m hk
  rw [← h] at hyear
  have hcent := m.century_lt
  have hquad := m.quad_lt
  have hrest := m.rest_lt
  have hday : 36524 * m.century + 1461 * m.quad + 365 * m.rest + k < 146097 := by
    rcases m.length_cases with hl | ⟨hl, hlong⟩
    · omega
    · have hlast : m.quad < 24 ∨ m.century = 3 := hlong.2
      omega
  have hsum : z =
      146097 * m.era + (36524 * m.century + 1461 * m.quad + 365 * m.rest + k) := by
    rw [h]
    unfold March.start
    omega
  have hera : z / 146097 = m.era := by omega
  have hmod : z % 146097 =
      36524 * m.century + 1461 * m.quad + 365 * m.rest + k := by omega
  have hfour : (100 * m.century + 4 * m.quad + m.rest) / 4 = 25 * m.century + m.quad := by omega
  have hhundred : (100 * m.century + 4 * m.quad + m.rest) / 100 = m.century := by omega
  have hdoy : z % 146097 -
      (365 * (100 * m.century + 4 * m.quad + m.rest) +
        (100 * m.century + 4 * m.quad + m.rest) / 4 -
        (100 * m.century + 4 * m.quad + m.rest) / 100) = k := by
    rw [hmod, hfour, hhundred]
    omega
  unfold yearOfEra at hyear
  rw [hyear, hdoy, hera]
  have hsame : 100 * m.century + 4 * m.quad + m.rest + m.era * 400 =
      400 * m.era + 100 * m.century + 4 * m.quad + m.rest := by omega
  rw [hsame]

/-- **The dates of successive days follow the calendar.** -/
theorem civil_succ (days : Nat) : dateOf (days + 1) = (dateOf days).next := by
  obtain ⟨m, k, hk, h⟩ := exists_march (days + 719468)
  by_cases hlast : k + 1 < m.length
  · rw [dateOf_eq hk h, dateOf_eq (m := m) (k := k + 1) hlast (by omega)]
    exact ofMarch_next m hlast
  · obtain ⟨m', hyear, hstart⟩ := m.exists_next
    have hfirst : 0 < m'.length := by
      rcases m'.length_cases with hl | ⟨hl, _⟩ <;> omega
    have hend : k = m.length - 1 := by omega
    rw [dateOf_eq hk h, dateOf_eq (m := m') (k := 0) hfirst (by omega), hyear, hend]
    exact ofMarch_last m

theorem strictMono_dateOf : StrictMono fun days => (dateOf days).fields :=
  strictMono_of_next civil_succ

theorem monthDay_le : ∀ k < 366, (monthDay k).1 ≤ 12 ∧ (monthDay k).2 ≤ 31 := by
  decide +kernel

theorem dateOf_le (days : Nat) : (dateOf days).month ≤ 12 ∧ (dateOf days).day ≤ 31 := by
  obtain ⟨m, k, hk, h⟩ := exists_march (days + 719468)
  have hlen : k < 366 := by
    rcases m.length_cases with hl | ⟨hl, _⟩ <;> omega
  rw [dateOf_eq hk h]
  exact monthDay_le k hlen

/-! ## Texts -/

/-- `format_utc` of a number of milliseconds since the epoch. -/
def formatUtcAt (millis : Nat) : Str :=
  let secs := millis / 1000
  let date := civil (secs / 86400)
  let time := secs % 86400
  padded 4 date.1 ++ "-".toList ++ padded 2 date.2.1 ++ "-".toList ++ padded 2 date.2.2 ++
    "T".toList ++ padded 2 (time / 3600) ++ ":".toList ++ padded 2 (time / 60 % 60) ++
    ":".toList ++ padded 2 (time % 60) ++ ".".toList ++ padded 3 (millis % 1000) ++ "Z".toList

/-- `timestamp`.  Before 1970 and after 9999 the year is not one of four digits, or there is no
`OffsetDateTime`. -/
def timestamp (t : SystemTime) : Option Str :=
  if 0 ≤ t.nanos ∧ t.nanos / NANOS ≤ MAX_ISO_UNIX_SECS then
    some (formatUtcAt (t.nanos.toNat / 1000000))
  else none

example : formatUtcAt 1791983045007 = "2026-10-14T13:04:05.007Z".toList := by decide

/-- A client's timestamp is in whole seconds. -/
theorem formatUtcAt_secs (secs : Nat) : formatUtcAt (secs * 1000) = formatUtc secs := by
  have hdiv : secs * 1000 / 1000 = secs := by omega
  have hmod : secs * 1000 % 1000 = 0 := by omega
  have hzero : ".".toList ++ padded 3 0 ++ "Z".toList = ".000Z".toList := by decide
  unfold formatUtcAt formatUtc
  rw [hdiv, hmod]
  simp only [List.append_assoc]
  rw [← List.append_assoc ".".toList, hzero]

/-- What a timestamp holds. -/
def timeFields (millis : Nat) : List Nat :=
  (dateOf (millis / 86400000)).fields ++
    [millis / 3600000 % 24, millis / 60000 % 60, millis / 1000 % 60, millis % 1000]

def TIME_LAYOUT : List (Nat × Str) :=
  [(4, "-".toList), (2, "-".toList), (2, "T".toList), (2, ":".toList), (2, ":".toList),
    (2, ".".toList), (3, "Z".toList)]

/-- The first millisecond after the year 9999. -/
def END_MILLIS : Nat := 253402300800000

theorem dateOf_end : (dateOf (END_MILLIS / 86400000 - 1)).year = 9999 := by decide

theorem year_le {millis : Nat} (h : millis < END_MILLIS) :
    (dateOf (millis / 86400000)).year ≤ 9999 := by
  have hday : millis / 86400000 ≤ END_MILLIS / 86400000 - 1 := by
    unfold END_MILLIS at h ⊢
    omega
  have hle := strictMono_dateOf.monotone hday
  rw [← dateOf_end]
  by_contra hlt
  have hhead : (dateOf (END_MILLIS / 86400000 - 1)).fields <
      (dateOf (millis / 86400000)).fields := by
    unfold Date.fields
    rw [List.cons_lt_cons_iff]
    exact Or.inl (Nat.lt_of_not_le hlt)
  exact absurd hle (not_le_of_gt hhead)

theorem fits_timeFields {millis : Nat} (h : millis < END_MILLIS) :
    Fits TIME_LAYOUT (timeFields millis) := by
  have hyear := year_le h
  obtain ⟨hmonth, hday⟩ := dateOf_le (millis / 86400000)
  refine ⟨?_, ?_, ?_, ?_, ?_, ?_, ?_, trivial⟩ <;> omega

theorem padded_eq {k n : Nat} (hk : 0 < k) (hn : n < 10 ^ k) : padded k n = decimals k n :=
  (decimals_eq_toDigits hk hn).symm

/-- **A timestamp is a text of one layout.** -/
theorem formatUtcAt_eq {millis : Nat} (h : millis < END_MILLIS) :
    formatUtcAt millis = render TIME_LAYOUT (timeFields millis) := by
  have hyear := year_le h
  obtain ⟨hmonth, hday⟩ := dateOf_le (millis / 86400000)
  have hdays : millis / 1000 / 86400 = millis / 86400000 := Nat.div_div_eq_div_mul _ _ _
  have hhour : millis / 1000 % 86400 / 3600 = millis / 3600000 % 24 := by omega
  have hminute : millis / 1000 % 86400 / 60 % 60 = millis / 60000 % 60 := by omega
  have hsecond : millis / 1000 % 86400 % 60 = millis / 1000 % 60 := by omega
  unfold formatUtcAt
  dsimp only
  rw [hdays, hhour, hminute, hsecond]
  have hy : padded 4 (civil (millis / 86400000)).1 = decimals 4 (civil (millis / 86400000)).1 :=
    padded_eq (by decide) (Nat.lt_of_le_of_lt hyear (by decide))
  have hmo : padded 2 (civil (millis / 86400000)).2.1 =
      decimals 2 (civil (millis / 86400000)).2.1 :=
    padded_eq (by decide) (Nat.lt_of_le_of_lt hmonth (by decide))
  have hd : padded 2 (civil (millis / 86400000)).2.2 =
      decimals 2 (civil (millis / 86400000)).2.2 :=
    padded_eq (by decide) (Nat.lt_of_le_of_lt hday (by decide))
  rw [hy, hmo, hd, padded_eq (k := 2) (n := millis / 3600000 % 24) (by decide) (by omega),
    padded_eq (k := 2) (n := millis / 60000 % 60) (by decide) (by omega),
    padded_eq (k := 2) (n := millis / 1000 % 60) (by decide) (by omega),
    padded_eq (k := 3) (n := millis % 1000) (by decide) (by omega)]
  simp [render, TIME_LAYOUT, timeFields, Date.fields, dateOf]

theorem lt_iff_div_mod {k : Nat} (hk : 0 < k) (m n : Nat) :
    m < n ↔ m / k < n / k ∨ m / k = n / k ∧ m % k < n % k := by
  have hm := Nat.div_add_mod m k
  have hn := Nat.div_add_mod n k
  have hremm := Nat.mod_lt m hk
  have hremn := Nat.mod_lt n hk
  constructor
  · intro hlt
    rcases Nat.lt_or_ge (m / k) (n / k) with h | h
    · exact Or.inl h
    · have heq : m / k = n / k := Nat.le_antisymm (Nat.div_le_div_right (Nat.le_of_lt hlt)) h
      rw [heq] at hm
      exact Or.inr ⟨heq, by omega⟩
  · rintro (h | ⟨heq, h⟩)
    · exact Nat.lt_of_not_le fun hle => absurd (Nat.div_le_div_right hle) (Nat.not_le_of_lt h)
    · rw [heq] at hm
      omega

theorem eq_iff_div_mod (k m n : Nat) : m = n ↔ m / k = n / k ∧ m % k = n % k := by
  constructor
  · rintro rfl
    exact ⟨rfl, rfl⟩
  · rintro ⟨hdiv, hmod⟩
    rw [← Nat.div_add_mod m k, hdiv, hmod, Nat.div_add_mod]

/-- The fields of an instant are in the order of time. -/
theorem timeFields_lt_iff (m n : Nat) : timeFields m < timeFields n ↔ m < n := by
  have hlen : (dateOf (m / 86400000)).fields.length = (dateOf (n / 86400000)).fields.length := by
    simp [Date.fields]
  have hdate : (dateOf (m / 86400000)).fields < (dateOf (n / 86400000)).fields ↔
      m / 86400000 < n / 86400000 := strictMono_dateOf.lt_iff_lt
  have hsame : (dateOf (m / 86400000)).fields = (dateOf (n / 86400000)).fields ↔
      m / 86400000 = n / 86400000 := strictMono_dateOf.injective.eq_iff
  unfold timeFields
  rw [append_lt_append_iff hlen, hdate, hsame]
  simp only [List.cons_lt_cons_iff, List.not_lt_nil]
  -- milliseconds in a second, seconds in a minute, minutes in an hour, hours in a day
  have hminute : ∀ i : Nat, i / 1000 / 60 = i / 60000 := fun i => Nat.div_div_eq_div_mul i 1000 60
  have hhour : ∀ i : Nat, i / 60000 / 60 = i / 3600000 := fun i =>
    Nat.div_div_eq_div_mul i 60000 60
  have hday : ∀ i : Nat, i / 3600000 / 24 = i / 86400000 := fun i =>
    Nat.div_div_eq_div_mul i 3600000 24
  have hms := lt_iff_div_mod (k := 1000) (by decide) m n
  have hs := lt_iff_div_mod (k := 60) (by decide) (m / 1000) (n / 1000)
  have hs' := eq_iff_div_mod 60 (m / 1000) (n / 1000)
  have hmin := lt_iff_div_mod (k := 60) (by decide) (m / 60000) (n / 60000)
  have hmin' := eq_iff_div_mod 60 (m / 60000) (n / 60000)
  have hh := lt_iff_div_mod (k := 24) (by decide) (m / 3600000) (n / 3600000)
  have hh' := eq_iff_div_mod 24 (m / 3600000) (n / 3600000)
  simp only [hminute, hhour, hday] at hs hs' hmin hmin' hh hh'
  rw [hms, hs, hs', hmin, hmin', hh, hh']
  simp only [and_or_left, or_assoc, and_assoc, and_false, or_false]

/-- **Two instants compare as their texts do.** -/
theorem formatUtcAt_lt_iff {m n : Nat} (hm : m < END_MILLIS) (hn : n < END_MILLIS) :
    formatUtcAt m < formatUtcAt n ↔ m < n := by
  rw [formatUtcAt_eq hm, formatUtcAt_eq hn,
    render_lt_iff (fits_timeFields hm) (fits_timeFields hn), timeFields_lt_iff]

theorem length_formatUtcAt {millis : Nat} (h : millis < END_MILLIS) :
    (formatUtcAt millis).length = 24 := by
  rw [formatUtcAt_eq h, length_render (fits_timeFields h)]
  rfl

/-! ## The promise of the log -/

/-- The pattern of the texts of a layout. -/
def layoutPattern : List (Nat × Str) → List Atom
  | [] => []
  | (k, sep) :: layout => List.replicate k .digit ++ sep.map .char ++ layoutPattern layout

theorem matchAll_append {p q : List Atom} {a b : Str} (hp : matchAll p a = true)
    (hq : matchAll q b = true) : matchAll (p ++ q) (a ++ b) = true := by
  induction p generalizing a with
  | nil =>
    match a, hp with
    | [], _ => exact hq
  | cons x p ih =>
    match a, hp with
    | c :: a, hp =>
      rw [matchAll, Bool.and_eq_true] at hp
      rw [List.cons_append, List.cons_append, matchAll, hp.1, ih hp.2]
      rfl

theorem matchAll_chars (s : Str) : matchAll (s.map .char) s = true := by
  induction s with
  | nil => rfl
  | cons c s ih => simp [matchAll, Atom.test, ih]

theorem matchAll_decimals (k n : Nat) :
    matchAll (List.replicate k .digit) (decimals k n) = true := by
  induction k with
  | zero => rfl
  | succ k ih =>
    have hdigit : (Nat.digitChar (n / 10 ^ k % 10)).isDigit = true :=
      JsonValue.isDigit_digitChar _ (Nat.mod_lt _ (by decide))
    rw [List.replicate_succ, decimals, matchAll, ih, Bool.and_true]
    exact hdigit

theorem matchAll_render {layout : List (Nat × Str)} {ns : List Nat} (h : Fits layout ns) :
    matchAll (layoutPattern layout) (render layout ns) = true := by
  induction layout generalizing ns with
  | nil =>
    match ns, h with
    | [], _ => rfl
  | cons field layout ih =>
    obtain ⟨k, sep⟩ := field
    match ns, h with
    | n :: ns, h =>
      rw [layoutPattern, render]
      exact matchAll_append (matchAll_append (matchAll_decimals k n) (matchAll_chars sep)) (ih h.2)

/-- The `timestamp` pattern of the schema:
`^[0-9]{4}-[0-9]{2}-[0-9]{2}T[0-9]{2}:[0-9]{2}:[0-9]{2}\.[0-9]{3}Z$`. -/
def TIMESTAMP_PATTERN : List Atom :=
  [.digit, .digit, .digit, .digit, .char '-', .digit, .digit, .char '-', .digit, .digit,
    .char 'T', .digit, .digit, .char ':', .digit, .digit, .char ':', .digit, .digit, .char '.',
    .digit, .digit, .digit, .char 'Z']

theorem matchAll_formatUtcAt {millis : Nat} (h : millis < END_MILLIS) :
    matchAll TIMESTAMP_PATTERN (formatUtcAt millis) = true := by
  have hpattern : TIMESTAMP_PATTERN = layoutPattern TIME_LAYOUT := by decide
  rw [formatUtcAt_eq h, hpattern]
  exact matchAll_render (fits_timeFields h)

theorem timestamp_eq_some {t : SystemTime} {a : Str} (h : timestamp t = some a) :
    0 ≤ t.nanos ∧ t.nanos.toNat / 1000000 < END_MILLIS ∧
      a = formatUtcAt (t.nanos.toNat / 1000000) := by
  unfold timestamp at h
  split_ifs at h with hrange
  obtain ⟨hpos, hmax⟩ := hrange
  refine ⟨hpos, ?_, (Option.some.inj h).symm⟩
  have hlt : t.nanos < (MAX_ISO_UNIX_SECS + 1) * (NANOS : Nat) := by
    have hpos' : (0 : Int) < (NANOS : Nat) := by decide
    exact Int.lt_mul_of_ediv_lt hpos' (by omega)
  have hbound : (MAX_ISO_UNIX_SECS + 1) * ((NANOS : Nat) : Int) = 253402300800 * 1000000000 := by
    decide
  rw [hbound] at hlt
  unfold END_MILLIS
  omega

theorem unixTimestamp_eq_some {ts : Int} {a : Str} (h : unixTimestamp ts = some a) :
    0 ≤ ts ∧ ts.toNat * 1000 < END_MILLIS ∧ a = formatUtcAt (ts.toNat * 1000) := by
  unfold unixTimestamp at h
  split_ifs at h with hrange
  obtain ⟨hpos, hmax⟩ := hrange
  refine ⟨hpos, ?_, ?_⟩
  · unfold MAX_ISO_UNIX_SECS at hmax
    unfold END_MILLIS
    omega
  · rw [formatUtcAt_secs]
    exact (Option.some.inj h).symm

/-- A text that the log writes for an instant, and the instant in milliseconds: when a record
was written, or what a client sent as its time. -/
inductive Written8601 : Str → Nat → Prop where
  | record {t : SystemTime} {a : Str} :
      timestamp t = some a → Written8601 a (t.nanos.toNat / 1000000)
  | client {ts : Int} {a : Str} : unixTimestamp ts = some a → Written8601 a (ts.toNat * 1000)

theorem Written8601.eq {a : Str} {m : Nat} (h : Written8601 a m) :
    m < END_MILLIS ∧ a = formatUtcAt m := by
  cases h with
  | record h => exact (timestamp_eq_some h).2
  | client h => exact (unixTimestamp_eq_some h).2

/-- **The timestamps of the log are of one width and of the schema's pattern, and the strings
sort in time order**, those of the proxy and those of its clients together. -/
theorem timestamp_order {a b : Str} {m n : Nat} (ha : Written8601 a m) (hb : Written8601 b n) :
    a.length = 24 ∧ matchAll TIMESTAMP_PATTERN a = true ∧ (a < b ↔ m < n) ∧ (a = b ↔ m = n) := by
  obtain ⟨hm, hta⟩ := ha.eq
  obtain ⟨hn, htb⟩ := hb.eq
  rw [hta, htb]
  refine ⟨length_formatUtcAt hm, matchAll_formatUtcAt hm, formatUtcAt_lt_iff hm hn, ?_⟩
  constructor
  · intro heq
    rcases Nat.lt_trichotomy m n with hlt | hsame | hlt
    · have h := (formatUtcAt_lt_iff hm hn).2 hlt
      rw [heq] at h
      exact absurd h (List.lt_irrefl _)
    · exact hsame
    · have h := (formatUtcAt_lt_iff hn hm).2 hlt
      rw [heq] at h
      exact absurd h (List.lt_irrefl _)
  · rintro rfl
    rfl

theorem timestamp_order_first_last :
    ("1970-01-01T00:00:00.000Z".toList : Str) < "9999-12-31T23:59:59.000Z".toList :=
  have hfirst : Written8601 "1970-01-01T00:00:00.000Z".toList 0 :=
    .client (by decide : unixTimestamp 0 = some "1970-01-01T00:00:00.000Z".toList)
  have hlast : Written8601 "9999-12-31T23:59:59.000Z".toList 253402300799000 :=
    .client (by decide : unixTimestamp 253402300799 = some "9999-12-31T23:59:59.000Z".toList)
  (timestamp_order hfirst hlast).2.2.1.2 (by decide)

end DenBrowser
