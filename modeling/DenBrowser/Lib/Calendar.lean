import Mathlib.Data.List.Lex
import Mathlib.Order.Lattice
import Mathlib.Order.Monotone.Basic
import Mathlib.Tactic.Common

/-!
# The Gregorian calendar

Dates, the day after a date, and the dates counted from the first of March of the year 0: a year
that begins in March has its leap day at the end, so that a day's number within it gives the
month and the day by arithmetic.

* `exists_march` — every day number is in one such year;
* `ofMarch_next` — the arithmetic follows the calendar from one day to the next;
* `strictMono_of_next` — dates that follow one another are in order.
-/

set_option autoImplicit false

namespace Calendar

structure Date where
  year : Nat
  month : Nat
  day : Nat
  deriving DecidableEq

def leap (year : Nat) : Prop := year % 4 = 0 ∧ (year % 100 ≠ 0 ∨ year % 400 = 0)

instance (year : Nat) : Decidable (leap year) :=
  inferInstanceAs (Decidable (year % 4 = 0 ∧ (year % 100 ≠ 0 ∨ year % 400 = 0)))

/-- The days of a month, February apart. -/
def monthLength (month : Nat) : Nat :=
  if month = 4 ∨ month = 6 ∨ month = 9 ∨ month = 11 then 30 else 31

def daysIn (year month : Nat) : Nat :=
  if month = 2 then (if leap year then 29 else 28) else monthLength month

/-- The day after. -/
def Date.next (d : Date) : Date :=
  if d.day < daysIn d.year d.month then ⟨d.year, d.month, d.day + 1⟩
  else if d.month < 12 then ⟨d.year, d.month + 1, 1⟩
  else ⟨d.year + 1, 1, 1⟩

/-- Year, month and day: dates are in the order of these lists. -/
def Date.fields (d : Date) : List Nat := [d.year, d.month, d.day]

theorem fields_lt_next (d : Date) : d.fields < d.next.fields := by
  unfold Date.next Date.fields
  split_ifs with hday hmonth
  · simp [List.cons_lt_cons_iff]
  · simp [List.cons_lt_cons_iff]
  · simp [List.cons_lt_cons_iff]

/-- **Dates that follow one another are in order.** -/
theorem strictMono_of_next {f : Nat → Date} (h : ∀ n, f (n + 1) = (f n).next) :
    StrictMono fun n => (f n).fields := by
  apply strictMono_nat_of_lt_succ
  intro n
  rw [h n]
  exact fields_lt_next _

/-! ## Years from March -/

/-- A year from March to February: the 400 years, the century, the four years and the year it
is in. -/
structure March where
  era : Nat
  century : Nat
  quad : Nat
  rest : Nat
  century_lt : century < 4
  quad_lt : quad < 25
  rest_lt : rest < 4

namespace March

/-- The year it begins in. -/
def year (m : March) : Nat := 400 * m.era + 100 * m.century + 4 * m.quad + m.rest

/-- The days before it, from the first of March of the year 0. -/
def start (m : March) : Nat := 146097 * m.era + 36524 * m.century + 1461 * m.quad + 365 * m.rest

/-- It ends on a leap day. -/
def long (m : March) : Prop := m.rest = 3 ∧ (m.quad < 24 ∨ m.century = 3)

instance (m : March) : Decidable m.long :=
  inferInstanceAs (Decidable (m.rest = 3 ∧ (m.quad < 24 ∨ m.century = 3)))

def length (m : March) : Nat := if m.long then 366 else 365

theorem long_iff (m : March) : m.long ↔ leap (m.year + 1) := by
  obtain ⟨era, century, quad, rest, hc, hq, hr⟩ := m
  unfold long leap year
  dsimp only
  omega

theorem length_of_long {m : March} (h : m.long) : m.length = 366 := if_pos h

theorem length_of_not_long {m : March} (h : ¬m.long) : m.length = 365 := if_neg h

theorem length_cases (m : March) : m.length = 365 ∨ m.length = 366 ∧ m.long := by
  by_cases h : m.long
  · exact Or.inr ⟨length_of_long h, h⟩
  · exact Or.inl (length_of_not_long h)

theorem exists_next (m : March) :
    ∃ m' : March, m'.year = m.year + 1 ∧ m'.start = m.start + m.length := by
  have hc := m.century_lt
  have hq := m.quad_lt
  have hr := m.rest_lt
  by_cases hrest : m.rest < 3
  · have hlen : m.length = 365 := length_of_not_long fun h => by have := h.1; omega
    refine ⟨⟨m.era, m.century, m.quad, m.rest + 1, hc, hq, by omega⟩, ?_, ?_⟩
    · dsimp only [year]
      omega
    · rw [hlen]
      dsimp only [start]
      omega
  · by_cases hquad : m.quad < 24
    · have hlen : m.length = 366 := length_of_long ⟨by omega, Or.inl hquad⟩
      refine ⟨⟨m.era, m.century, m.quad + 1, 0, hc, by omega, by omega⟩, ?_, ?_⟩
      · dsimp only [year]
        omega
      · rw [hlen]
        dsimp only [start]
        omega
    · by_cases hcentury : m.century < 3
      · have hlen : m.length = 365 := length_of_not_long fun h => by have := h.2; omega
        refine ⟨⟨m.era, m.century + 1, 0, 0, by omega, by omega, by omega⟩, ?_, ?_⟩
        · dsimp only [year]
          omega
        · rw [hlen]
          dsimp only [start]
          omega
      · have hlen : m.length = 366 := length_of_long ⟨by omega, Or.inr (by omega)⟩
        refine ⟨⟨m.era + 1, 0, 0, 0, by omega, by omega, by omega⟩, ?_, ?_⟩
        · dsimp only [year]
          omega
        · rw [hlen]
          dsimp only [start]
          omega

end March

/-- **Every day number is in one year.** -/
theorem exists_march (n : Nat) : ∃ (m : March) (k : Nat), k < m.length ∧ n = m.start + k := by
  induction n with
  | zero => exact ⟨⟨0, 0, 0, 0, by omega, by omega, by omega⟩, 0, by decide, rfl⟩
  | succ n ih =>
    obtain ⟨m, k, hk, hn⟩ := ih
    by_cases hlast : k + 1 < m.length
    · exact ⟨m, k + 1, hlast, by omega⟩
    · obtain ⟨m', _, hstart⟩ := m.exists_next
      refine ⟨m', 0, ?_, by omega⟩
      rcases m'.length_cases with h | h <;> omega

/-- The year within 400 that a day number is in. -/
def yearOfEra (day : Nat) : Nat := (day - day / 1460 + day / 36524 - day / 146096) / 365

/-- The arithmetic finds the year. -/
theorem yearOfEra_eq (m : March) {k : Nat} (hk : k < m.length) :
    yearOfEra ((m.start + k) % 146097) = 100 * m.century + 4 * m.quad + m.rest := by
  have hlong : k < 365 ∨ (k = 365 ∧ m.rest = 3 ∧ (m.quad < 24 ∨ m.century = 3)) := by
    rcases m.length_cases with h | ⟨h, hl⟩
    · exact Or.inl (by omega)
    · rcases Nat.lt_or_ge k 365 with hlt | hge
      · exact Or.inl hlt
      · exact Or.inr ⟨by omega, hl⟩
  clear hk
  obtain ⟨era, c, q, r, hc, hq, hr⟩ := m
  dsimp only [March.start] at hlong ⊢
  have hday : (146097 * era + 36524 * c + 1461 * q + 365 * r + k) % 146097 =
      36524 * c + 1461 * q + 365 * r + k := by omega
  rw [hday]
  generalize hd : 36524 * c + 1461 * q + 365 * r + k = d
  have hcent : d / 36524 = c + d / 146096 := by
    rcases Nat.lt_or_ge (1461 * q + 365 * r + k) 36524 with h | h
    · have hzero : d / 146096 = 0 := by omega
      omega
    · have hone : d = 146096 ∧ c = 3 := by omega
      omega
  -- four years have one day more than 1460, and a century has 24 of them
  obtain ⟨e, hquad, he⟩ : ∃ e, d / 1460 = 25 * c + q + e ∧
      (e = 0 ∧ 24 * c + q + 365 * r + k < 1460 ∨ e = 1 ∧ 1460 ≤ 24 * c + q + 365 * r + k) := by
    rcases Nat.lt_or_ge (24 * c + q + 365 * r + k) 1460 with h | h
    · exact ⟨0, by omega, Or.inl ⟨rfl, h⟩⟩
    · exact ⟨1, by omega, Or.inr ⟨rfl, h⟩⟩
  unfold yearOfEra
  rw [hcent, hquad]
  have hnum : d - (25 * c + q + e) + (c + d / 146096) - d / 146096 =
      365 * (100 * c + 4 * q + r) + (k - e) := by omega
  rw [hnum]
  omega

/-- The month and the day of a day within a year from March. -/
def monthDay (k : Nat) : Nat × Nat :=
  let month := (5 * k + 2) / 153
  (if month < 10 then month + 3 else month - 9, k - (153 * month + 2) / 5 + 1)

/-- The date of a day within the year that begins in March of `year`. -/
def ofMarch (year k : Nat) : Date :=
  let d := monthDay k
  ⟨year + (if d.1 ≤ 2 then 1 else 0), d.1, d.2⟩

/-- From one day to the next, up to the end of February. -/
theorem monthDay_succ : ∀ k < 364, (monthDay k).1 ≤ 12 ∧
    ((monthDay k).1 = 2 → (monthDay k).2 < 28) ∧
    monthDay (k + 1) =
      if (monthDay k).2 < monthLength (monthDay k).1 ∨ (monthDay k).1 = 2 then
        ((monthDay k).1, (monthDay k).2 + 1)
      else if (monthDay k).1 < 12 then ((monthDay k).1 + 1, 1) else (1, 1) := by
  decide +kernel

theorem next_of_lt {year k : Nat} (hk : k < 364) :
    ofMarch year (k + 1) = (ofMarch year k).next := by
  obtain ⟨hmonth, hfeb, hsucc⟩ := monthDay_succ k hk
  unfold ofMarch
  dsimp only
  rw [hsucc]
  generalize monthDay k = d at hmonth hfeb
  obtain ⟨month, day⟩ := d
  unfold Date.next daysIn
  dsimp only at hmonth hfeb ⊢
  by_cases hstay : day < monthLength month ∨ month = 2
  · have hlt : day < if month = 2 then
        (if leap (year + if month ≤ 2 then 1 else 0) then 29 else 28)
        else monthLength month := by
      by_cases htwo : month = 2
      · have hday := hfeb htwo
        rw [if_pos htwo]
        split_ifs <;> omega
      · rw [if_neg htwo]
        exact hstay.resolve_right htwo
    rw [if_pos hstay, if_pos hlt]
  · obtain ⟨hfull, htwo⟩ := not_or.1 hstay
    have hend : ¬day < if month = 2 then
        (if leap (year + if month ≤ 2 then 1 else 0) then 29 else 28)
        else monthLength month := by
      rw [if_neg htwo]
      exact hfull
    rw [if_neg hstay, if_neg hend]
    by_cases htwelve : month < 12
    · have hsame : month + 1 ≤ 2 ↔ month ≤ 2 := by omega
      rw [if_pos htwelve, if_pos htwelve]
      simp only [hsame]
    · rw [if_neg htwelve, if_neg htwelve]
      have hlate : ¬month ≤ 2 := by omega
      simp [hlate]

/-- **The arithmetic follows the calendar** within a year from March. -/
theorem ofMarch_next (m : March) {k : Nat} (hk : k + 1 < m.length) :
    ofMarch m.year (k + 1) = (ofMarch m.year k).next := by
  rcases m.length_cases with hlen | ⟨hlen, hlong⟩
  · exact next_of_lt (by omega)
  · rcases Nat.lt_or_ge k 364 with hlt | hge
    · exact next_of_lt hlt
    · have hlast : k = 364 := by omega
      have hleap : leap (m.year + 1) := m.long_iff.1 hlong
      subst hlast
      show (⟨m.year + 1, 2, 29⟩ : Date) = Date.next ⟨m.year + 1, 2, 28⟩
      unfold Date.next daysIn
      simp [hleap]

/-- The day after the end of February is the first of March. -/
theorem ofMarch_last (m : March) : ofMarch (m.year + 1) 0 = (ofMarch m.year (m.length - 1)).next := by
  rcases m.length_cases with hlen | ⟨hlen, hlong⟩
  · by_cases hleap : leap (m.year + 1)
    · have hlen' := March.length_of_long (m.long_iff.2 hleap)
      omega
    · rw [hlen]
      show (⟨m.year + 1, 3, 1⟩ : Date) = Date.next ⟨m.year + 1, 2, 28⟩
      unfold Date.next daysIn
      simp [hleap]
  · have hleap : leap (m.year + 1) := m.long_iff.1 hlong
    rw [hlen]
    show (⟨m.year + 1, 3, 1⟩ : Date) = Date.next ⟨m.year + 1, 2, 29⟩
    unfold Date.next daysIn
    simp [hleap]

end Calendar
