import Mathlib.Data.List.Basic
import Mathlib.Data.Nat.ModEq
import Mathlib.Logic.Function.Basic

/-!
# Ring buffers

The entries of a ring buffer are a window of its slots, which begins at the tail and may
wrap around. Storing an entry behind the window and giving up its first slot are the two
ends of a queue.
-/

namespace FlashBench

universe u

variable {Entry : Type u} {slots : ℕ → Entry} {tail count size : ℕ}

/-- The slots `tail`, `tail + 1` and so on, modulo the size. -/
def ringWindow (slots : ℕ → Entry) (tail count size : ℕ) : List Entry :=
  (List.range count).map fun i => slots ((tail + i) % size)

@[simp]
theorem length_ringWindow : (ringWindow slots tail count size).length = count := by
  simp [ringWindow]

theorem ring_next {index : ℕ} (inside : index < size) :
    (if index + 1 = size then 0 else index + 1) = (index + 1) % size := by
  split_ifs with last
  · rw [last, Nat.mod_self]
  · exact (Nat.mod_eq_of_lt (by omega)).symm

theorem ring_slot_ne {first second : ℕ} (order : first < second) (inside : second < size) :
    (tail + first) % size ≠ (tail + second) % size := by
  intro same
  have offsets : first ≡ second [MOD size] := Nat.ModEq.add_left_cancel' tail same
  have equal := Nat.ModEq.eq_of_lt_of_lt offsets (by omega) inside
  omega

theorem ringWindow_store (room : count < size) (entry : Entry) :
    ringWindow (Function.update slots ((tail + count) % size) entry) tail (count + 1) size =
      ringWindow slots tail count size ++ [entry] := by
  unfold ringWindow
  rw [List.range_succ, List.map_append, List.map_singleton, Function.update_self]
  congr 1
  refine List.map_congr_left fun i mem => ?_
  exact Function.update_of_ne (ring_slot_ne (List.mem_range.mp mem) room) _ _

theorem ringWindow_succ (inside : tail < size) :
    ringWindow slots tail (count + 1) size =
      slots tail :: ringWindow slots ((tail + 1) % size) count size := by
  unfold ringWindow
  rw [List.range_succ_eq_map, List.map_cons, Nat.add_zero, Nat.mod_eq_of_lt inside, List.map_map]
  congr 1
  refine List.map_congr_left fun i _ => ?_
  simp only [Function.comp_apply, Nat.mod_add_mod]
  congr 2
  omega

end FlashBench
