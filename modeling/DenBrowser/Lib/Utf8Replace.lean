import Mathlib.Data.List.Infix
import Mathlib.Tactic.Common

/-!
# UTF-8 decoding with replacement

Every maximal ill-formed part of the input becomes one replacement character.  The decoder reads
a byte at a time and remembers the sequence it is in, so that a byte that cannot continue the
sequence starts the next one.

* `decode_ascii` — an ASCII byte cuts a text, and its decoding, in two;
* `mem_of_lt` — a character below 64 is decoded from its own byte only;
* `decode_infix` — what a part of a text decodes to.
-/

set_option autoImplicit false

namespace Utf8Replace

def replacement : Char := Char.ofNat 0xFFFD

/-- A sequence that has begun: the bits so far, how many bytes follow the next one, and the range
of the next one. -/
structure Pending where
  bits : Nat
  more : Nat
  lo : Nat
  hi : Nat
  lo_le : 0x80 ≤ lo
  hi_le : hi ≤ 0xBF
  pos : 0 < bits ∨ 0x80 < lo ∧ 0 < more

/-- The first byte of a sequence. -/
def start (b : UInt8) : List Char × Option Pending :=
  let n := b.toNat
  if n < 0x80 then ([Char.ofNat n], none)
  else if h : 0xC2 ≤ n ∧ n ≤ 0xDF then
    ([], some ⟨n - 0xC0, 0, 0x80, 0xBF, by omega, by omega, by omega⟩)
  else if n = 0xE0 then ([], some ⟨0, 1, 0xA0, 0xBF, by omega, by omega, by omega⟩)
  else if n = 0xED then ([], some ⟨13, 1, 0x80, 0x9F, by omega, by omega, by omega⟩)
  else if h : 0xE1 ≤ n ∧ n ≤ 0xEF then
    ([], some ⟨n - 0xE0, 1, 0x80, 0xBF, by omega, by omega, by omega⟩)
  else if n = 0xF0 then ([], some ⟨0, 2, 0x90, 0xBF, by omega, by omega, by omega⟩)
  else if h : 0xF1 ≤ n ∧ n ≤ 0xF3 then
    ([], some ⟨n - 0xF0, 2, 0x80, 0xBF, by omega, by omega, by omega⟩)
  else if n = 0xF4 then ([], some ⟨4, 2, 0x80, 0x8F, by omega, by omega, by omega⟩)
  else ([replacement], none)

/-- A byte that continues a sequence. -/
def Pending.next (p : Pending) (b : UInt8) (h : p.lo ≤ b.toNat) : List Char × Option Pending :=
  match hm : p.more with
  | 0 => ([Char.ofNat (p.bits * 64 + (b.toNat - 0x80))], none)
  | m + 1 =>
    ([], some ⟨p.bits * 64 + (b.toNat - 0x80), m, 0x80, 0xBF, by omega, by omega, by
      have := p.pos
      omega⟩)

/-- One byte: the characters it completes, and the sequence it leaves open. -/
def feed (p : Option Pending) (b : UInt8) : List Char × Option Pending :=
  match p with
  | none => start b
  | some p =>
    if h : p.lo ≤ b.toNat ∧ b.toNat ≤ p.hi then p.next b h.1
    else (replacement :: (start b).1, (start b).2)

def decodeFrom (p : Option Pending) : List UInt8 → List Char
  | [] => if p.isSome then [replacement] else []
  | b :: bs => (feed p b).1 ++ decodeFrom (feed p b).2 bs

def decode (bytes : List UInt8) : List Char := decodeFrom none bytes

example : decode [0xE2, 0x80, 0xA8, 0xE2, 0x80, 0x41, 0xC0, 0xC2, 0x85] =
    [Char.ofNat 0x2028, replacement, 'A', replacement, Char.ofNat 0x85] := by decide

/-! ## Where sequences begin -/

/-- A byte that continues no sequence. -/
def Leads (b : UInt8) : Prop := b.toNat < 0x80 ∨ 0xC0 ≤ b.toNat

theorem feed_of_leads (p : Pending) {b : UInt8} (h : Leads b) :
    feed (some p) b = (replacement :: (start b).1, (start b).2) := by
  have hlo := p.lo_le
  have hhi := p.hi_le
  have hout : ¬(p.lo ≤ b.toNat ∧ b.toNat ≤ p.hi) := by
    rintro ⟨h1, h2⟩
    rcases h with h | h
    · omega
    · omega
  exact dif_neg hout

theorem start_ascii {b : UInt8} (h : b.toNat < 0x80) : start b = ([Char.ofNat b.toNat], none) := by
  unfold start
  dsimp only
  rw [if_pos h]

theorem start_continuation {b : UInt8} (h : ¬Leads b) : start b = ([replacement], none) := by
  unfold Leads at h
  unfold start
  dsimp only
  rw [if_neg (by omega), dif_neg (by omega), if_neg (by omega), if_neg (by omega),
    dif_neg (by omega), if_neg (by omega), dif_neg (by omega), if_neg (by omega)]

/-- **An ASCII byte cuts the text in two.** -/
theorem decodeFrom_ascii {x : UInt8} (hx : x.toNat < 0x80) (b : List UInt8) :
    ∀ (a : List UInt8) (p : Option Pending),
      decodeFrom p (a ++ x :: b) = decodeFrom p a ++ Char.ofNat x.toNat :: decode b := by
  intro a
  induction a with
  | nil =>
    intro p
    show (feed p x).1 ++ decodeFrom (feed p x).2 b = decodeFrom p [] ++ _
    cases p with
    | none =>
      unfold feed
      dsimp only
      rw [start_ascii hx]
      rfl
    | some p =>
      rw [feed_of_leads p (Or.inl hx), start_ascii hx]
      rfl
  | cons c a ih =>
    intro p
    show (feed p c).1 ++ decodeFrom (feed p c).2 (a ++ x :: b) =
      (feed p c).1 ++ decodeFrom (feed p c).2 a ++ _
    rw [ih, List.append_assoc]

theorem decode_ascii {x : UInt8} (hx : x.toNat < 0x80) (a b : List UInt8) :
    decode (a ++ x :: b) = decode a ++ Char.ofNat x.toNat :: decode b :=
  decodeFrom_ascii hx b a none

theorem decode_cons_ascii {x : UInt8} (hx : x.toNat < 0x80) (b : List UInt8) :
    decode (x :: b) = Char.ofNat x.toNat :: decode b := decode_ascii hx [] b

/-! ## Characters below 64 -/

theorem ofNat_lt {n m : Nat} (h : (Char.ofNat n).toNat = m) (hm : 0 < m) : n = m := by
  by_cases hvalid : n.isValidChar
  · rw [Char.ofNat, dif_pos hvalid] at h
    exact h
  · rw [Char.ofNat, dif_neg hvalid] at h
    have hzero : m = 0 := h.symm
    omega

theorem start_emits {b : UInt8} {c : Char} (h : c ∈ (start b).1) (hc : c ≠ replacement) :
    b.toNat < 0x80 ∧ c = Char.ofNat b.toNat := by
  by_cases hb : b.toNat < 0x80
  · rw [start_ascii hb] at h
    exact ⟨hb, List.mem_singleton.1 h⟩
  · unfold start at h
    dsimp only at h
    rw [if_neg hb] at h
    repeat' split at h
    all_goals first
      | exact absurd h List.not_mem_nil
      | exact absurd (List.mem_singleton.1 h) hc

theorem next_emits {p : Pending} {b : UInt8} (hb : p.lo ≤ b.toNat) {c : Char}
    (h : c ∈ (p.next b hb).1) : c.toNat = 0 ∨ 64 ≤ c.toNat := by
  have hpos := p.pos
  unfold Pending.next at h
  split at h
  · rw [List.mem_singleton.1 h]
    by_cases hz : (Char.ofNat (p.bits * 64 + (b.toNat - 0x80))).toNat = 0
    · exact Or.inl hz
    · have heq := ofNat_lt rfl (Nat.pos_of_ne_zero hz)
      omega
  · exact absurd h List.not_mem_nil

/-- **A control character comes from its own byte.** -/
theorem mem_of_lt {c : Char} (hlt : c.toNat < 64) (hpos : 0 < c.toNat) :
    ∀ {bs : List UInt8} {p : Option Pending}, c ∈ decodeFrom p bs →
      UInt8.ofNat c.toNat ∈ bs := by
  have hc : c ≠ replacement := by
    rintro rfl
    exact absurd hlt (by decide)
  have hself : ∀ {b : UInt8}, c ∈ (start b).1 → UInt8.ofNat c.toNat = b := by
    intro b hb
    obtain ⟨hlt', heq⟩ := start_emits hb hc
    have hn := ofNat_lt (n := b.toNat) (by rw [← heq]) hpos
    rw [← hn]
    exact UInt8.ofNat_toNat
  intro bs
  induction bs with
  | nil =>
    intro p h
    unfold decodeFrom at h
    split at h
    · exact absurd (List.mem_singleton.1 h) hc
    · exact absurd h List.not_mem_nil
  | cons b bs ih =>
    intro p h
    rcases List.mem_append.1 h with h | h
    · cases p with
      | none =>
        rw [hself h]
        exact List.mem_cons_self
      | some p =>
        unfold feed at h
        dsimp only at h
        split at h
        · rename_i hb
          have := next_emits hb.1 h
          omega
        · rcases List.mem_cons.1 h with h | h
          · exact absurd h hc
          · rw [hself h]
            exact List.mem_cons_self
    · exact List.mem_cons_of_mem _ (ih h)

/-! ## Parts of a text -/

/-- An open sequence is completed or replaced. -/
theorem decodeFrom_pending : ∀ (bs : List UInt8) (p : Pending), decodeFrom (some p) bs ≠ [] := by
  intro bs
  induction bs with
  | nil =>
    intro p
    exact List.cons_ne_nil replacement []
  | cons b bs ih =>
    intro p
    unfold decodeFrom feed
    dsimp only
    split
    · rename_i hb
      unfold Pending.next
      split
      · simp
      · exact ih _
    · simp

theorem start_ne_nil (b : UInt8) (bs : List UInt8) :
    (start b).1 ++ decodeFrom (start b).2 bs ≠ [] := by
  unfold start
  dsimp only
  repeat' split
  all_goals first
    | exact decodeFrom_pending bs _
    | exact List.cons_ne_nil _ _

theorem decode_eq_nil {bs : List UInt8} : decode bs = [] ↔ bs = [] := by
  cases bs with
  | nil => simp [decode, decodeFrom]
  | cons b bs =>
    have hne : decode (b :: bs) ≠ [] := start_ne_nil b bs
    simp [hne]

/-- A text cut short: its decoding is cut too, with a replacement for an open sequence. -/
theorem decodeFrom_prefix (v : List UInt8) : ∀ (h : List UInt8) (p : Option Pending),
    ∃ part rest tail, decodeFrom p h = part ++ tail ∧ decodeFrom p (h ++ v) = part ++ rest ∧
      (tail = [] ∨ tail = [replacement] ∧ rest ≠ []) := by
  intro h
  induction h with
  | nil =>
    intro p
    cases p with
    | none => exact ⟨[], decodeFrom none v, [], rfl, rfl, Or.inl rfl⟩
    | some p =>
      exact ⟨[], decodeFrom (some p) v, [replacement], rfl, rfl,
        Or.inr ⟨rfl, decodeFrom_pending v p⟩⟩
  | cons b h ih =>
    intro p
    obtain ⟨part, rest, tail, h1, h2, h3⟩ := ih (feed p b).2
    refine ⟨(feed p b).1 ++ part, rest, tail, ?_, ?_, h3⟩
    · show (feed p b).1 ++ decodeFrom (feed p b).2 h = _
      rw [h1, List.append_assoc]
    · show (feed p b).1 ++ decodeFrom (feed p b).2 (h ++ v) = _
      rw [h2, List.append_assoc]

/-- From the next byte that leads on, the decoding does not depend on what came before. -/
theorem decodeFrom_resync {b : UInt8} (hb : Leads b) (t : List UInt8) :
    ∀ (conts : List UInt8) (p : Option Pending),
      ∃ w, decodeFrom p (conts ++ b :: t) = w ++ decode (b :: t) := by
  intro conts
  induction conts with
  | nil =>
    intro p
    cases p with
    | none => exact ⟨[], rfl⟩
    | some p =>
      refine ⟨[replacement], ?_⟩
      show (feed (some p) b).1 ++ decodeFrom (feed (some p) b).2 t = _
      rw [feed_of_leads p hb]
      rfl
  | cons c conts ih =>
    intro p
    obtain ⟨w, hw⟩ := ih (feed p c).2
    refine ⟨(feed p c).1 ++ w, ?_⟩
    show (feed p c).1 ++ decodeFrom (feed p c).2 (conts ++ b :: t) = _
    rw [hw, List.append_assoc]

theorem decode_continuations {conts : List UInt8} (h : ∀ b ∈ conts, ¬Leads b)
    (t : List UInt8) :
    decode (conts ++ t) = List.replicate conts.length replacement ++ decode t := by
  induction conts with
  | nil => rfl
  | cons b conts ih =>
    have hb : feed none b = ([replacement], none) :=
      start_continuation (h b List.mem_cons_self)
    show (feed none b).1 ++ decodeFrom (feed none b).2 (conts ++ t) = _
    rw [hb]
    show replacement :: decode (conts ++ t) = _
    rw [ih fun b hb => h b (List.mem_cons_of_mem _ hb)]
    rfl

theorem split_leads (h : List UInt8) : ∃ conts t, h = conts ++ t ∧ (∀ b ∈ conts, ¬Leads b) ∧
    (t = [] ∨ ∃ b t', t = b :: t' ∧ Leads b) := by
  induction h with
  | nil => exact ⟨[], [], rfl, by simp, Or.inl rfl⟩
  | cons b h ih =>
    by_cases hb : Leads b
    · exact ⟨[], b :: h, rfl, by simp, Or.inr ⟨b, h, rfl, hb⟩⟩
    · obtain ⟨conts, t, rfl, hconts, ht⟩ := ih
      refine ⟨b :: conts, t, rfl, ?_, ht⟩
      intro c hc
      rcases List.mem_cons.1 hc with rfl | hc
      · exact hb
      · exact hconts c hc

/-- **A part of a text** decodes to a part of its decoding, but for replacements at both ends. -/
theorem decode_infix {h l : List UInt8} (hl : h <:+: l) :
    ∃ n before part rest tail, decode h = List.replicate n replacement ++ part ++ tail ∧
      decode l = before ++ part ++ rest ∧
      (tail = [] ∨ tail = [replacement] ∧ rest ≠ []) := by
  obtain ⟨u, v, rfl⟩ := hl
  obtain ⟨conts, t, rfl, hconts, ht⟩ := split_leads h
  rcases ht with rfl | ⟨b, t, rfl, hb⟩
  · refine ⟨conts.length, [], [], decode (u ++ (conts ++ []) ++ v), [], ?_, rfl, Or.inl rfl⟩
    rw [decode_continuations hconts []]
    simp [decode, decodeFrom]
  · obtain ⟨part, rest, tail, h1, h2, h3⟩ := decodeFrom_prefix v (b :: t) none
    obtain ⟨w, hw⟩ := decodeFrom_resync hb (t ++ v) (u ++ conts) none
    refine ⟨conts.length, w, part, rest, tail, ?_, ?_, h3⟩
    · rw [decode_continuations hconts]
      show _ ++ decodeFrom none (b :: t) = _
      rw [h1, List.append_assoc]
    · have hassoc : u ++ (conts ++ b :: t) ++ v = u ++ conts ++ b :: (t ++ v) := by simp
      rw [hassoc]
      show decodeFrom none _ = _
      rw [hw]
      show w ++ decodeFrom none (b :: t ++ v) = _
      rw [h2, List.append_assoc]

end Utf8Replace
