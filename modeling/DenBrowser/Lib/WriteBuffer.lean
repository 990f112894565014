import Mathlib.Data.List.Basic
import Mathlib.Tactic.Common

/-!
# Buffers written through a cursor

A buffer of a fixed size is filled by a pointer that moves forward.  A write outside the buffer
gives `none`; a cell that nothing was written to holds `none`.

* `Filled` — the cells before the cursor hold what was written, those after it nothing;
* `filled_put`, `filled_copy` — writes that find room succeed and append;
* `filled_last` — the write that uses the last cell.
-/

set_option autoImplicit false

namespace WriteBuffer

variable {α : Type}

structure Buffer (α : Type) where
  cells : List (Option α)
  cursor : Nat
  deriving DecidableEq

/-- A fresh buffer, with the cursor at its start. -/
def allocate (size : Nat) : Buffer α := ⟨List.replicate size none, 0⟩

/-- `*cursor = a`. -/
def store (a : α) (b : Buffer α) : Option (Buffer α) :=
  if b.cursor < b.cells.length then some { b with cells := b.cells.set b.cursor (some a) }
  else none

/-- `*cursor++ = a`. -/
def put (a : α) (b : Buffer α) : Option (Buffer α) :=
  (store a b).map fun b => { b with cursor := b.cursor + 1 }

/-- `memcpy(cursor, source, n); cursor += n`, for the `n` elements of `source`. -/
def copy (source : List α) (b : Buffer α) : Option (Buffer α) :=
  if b.cursor + source.length ≤ b.cells.length then
    some ⟨b.cells.take b.cursor ++ source.map some ++ b.cells.drop (b.cursor + source.length),
      b.cursor + source.length⟩
  else none

/-- The cells before the cursor hold `written`; `room` cells after it hold nothing. -/
structure Filled (b : Buffer α) (written : List α) (room : Nat) : Prop where
  cells : b.cells = written.map some ++ List.replicate room none
  cursor : b.cursor = written.length

theorem filled_allocate (size : Nat) : Filled (allocate size : Buffer α) [] size := ⟨rfl, rfl⟩

theorem Filled.length {b : Buffer α} {written : List α} {room : Nat} (h : Filled b written room) :
    b.cells.length = written.length + room := by
  rw [h.cells]
  simp

theorem Filled.store {b : Buffer α} {written : List α} {room : Nat}
    (h : Filled b written (room + 1)) (a : α) :
    store a b = some ⟨(written ++ [a]).map some ++ List.replicate room none, written.length⟩ := by
  have hlen := h.length
  unfold WriteBuffer.store
  rw [if_pos (by rw [h.cursor]; omega), h.cells, h.cursor]
  simp [List.set_append_right, List.replicate_succ]

theorem filled_put {b : Buffer α} {written : List α} {room : Nat}
    (h : Filled b written (room + 1)) (a : α) :
    ∃ b', put a b = some b' ∧ Filled b' (written ++ [a]) room := by
  refine ⟨_, by rw [put, h.store a]; rfl, rfl, by simp⟩

theorem filled_copy {b : Buffer α} {written : List α} {room : Nat} {source : List α}
    (h : Filled b written (source.length + room)) :
    ∃ b', copy source b = some b' ∧ Filled b' (written ++ source) room := by
  have hlen := h.length
  have hfits : b.cursor + source.length ≤ b.cells.length := by
    rw [h.cursor]
    omega
  refine ⟨_, if_pos hfits, ?_, ?_⟩
  · have htake : (written.map some ++ List.replicate (source.length + room) none).take
        written.length = written.map (some : α → Option α) := by simp
    have hdrop : (written.map some ++ List.replicate (source.length + room) none).drop
        (written.length + source.length) = List.replicate room (none : Option α) := by
      simp [List.drop_append]
    dsimp only
    rw [h.cells, h.cursor, htake, hdrop, List.map_append]
  · dsimp only
    rw [h.cursor, List.length_append]

/-- The write that uses the last cell leaves the buffer full. -/
theorem filled_last {b : Buffer α} {written : List α} (h : Filled b written 1) (a : α) :
    store a b = some ⟨(written ++ [a]).map some, written.length⟩ := by
  rw [h.store a]
  simp

end WriteBuffer
