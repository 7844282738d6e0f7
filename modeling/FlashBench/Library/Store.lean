import Mathlib.Data.List.Nodup
import Mathlib.Logic.Function.Basic

/-!
# Partial stores

A storage device is for its user a partial map from keys to values, which writes
extend and discards cut back. A cache in front of a slower store is an overlay.
-/

namespace FlashBench

universe u v

/-- What a storage device holds. -/
abbrev Store (Key : Type u) (Value : Type v) := Key → Option Value

namespace Store

variable {Key : Type u} {Value : Type v} [DecidableEq Key]

/-- Write pairs one after the other. -/
def write (store : Store Key Value) (pairs : List (Key × Value)) : Store Key Value :=
  pairs.foldl (fun store pair => Function.update store pair.1 (some pair.2)) store

/-- Forget the values of some keys. -/
def discard (store : Store Key Value) (keys : List Key) : Store Key Value :=
  keys.foldl (fun store key => Function.update store key none) store

/-- Look a key up in the upper store first. -/
def overlay (upper lower : Store Key Value) : Store Key Value :=
  fun key => (upper key).or (lower key)

variable {store upper lower : Store Key Value} {pairs : List (Key × Value)} {keys : List Key}
  {key : Key} {value : Value}

@[simp]
theorem write_nil : write store [] = store := rfl

theorem write_cons (pair : Key × Value) :
    write store (pair :: pairs) = write (Function.update store pair.1 (some pair.2)) pairs := rfl

theorem write_append (more : List (Key × Value)) :
    write store (pairs ++ more) = write (write store pairs) more :=
  List.foldl_append

theorem write_of_not_mem (absent : ∀ pair ∈ pairs, pair.1 ≠ key) :
    write store pairs key = store key := by
  induction pairs generalizing store with
  | nil => rfl
  | cons pair pairs ih =>
      rw [write_cons, ih fun other mem => absent other (by simp [mem])]
      exact Function.update_of_ne (absent pair (by simp)).symm _ _

theorem write_of_present (present : ∀ pair ∈ pairs, store pair.1 = some pair.2) :
    write store pairs = store := by
  induction pairs with
  | nil => rfl
  | cons pair pairs ih =>
      rw [write_cons, ← present pair (by simp), Function.update_eq_self]
      exact ih fun other mem => present other (by simp [mem])

/-- Among pairs with distinct keys, each one is what the store holds afterwards. -/
theorem write_of_mem (distinct : (pairs.map Prod.fst).Nodup) (mem : (key, value) ∈ pairs) :
    write store pairs key = some value := by
  induction pairs generalizing store with
  | nil => simp at mem
  | cons pair pairs ih =>
      rw [List.map_cons, List.nodup_cons] at distinct
      rw [write_cons]
      rcases List.mem_cons.mp mem with rfl | mem
      · rw [write_of_not_mem, Function.update_self]
        exact fun other otherMem same => distinct.1 (List.mem_map.mpr ⟨other, otherMem, same⟩)
      · exact ih distinct.2 mem

theorem discard_apply (key : Key) :
    discard store keys key = if key ∈ keys then none else store key := by
  induction keys generalizing store with
  | nil => simp [discard]
  | cons first rest ih =>
      change discard (Function.update store first none) rest key = _
      rw [ih]
      by_cases inRest : key ∈ rest
      · simp [inRest]
      · by_cases same : key = first
        · simp [same]
        · simp [inRest, same]

theorem discard_cons (key : Key) :
    discard store (key :: keys) = discard (Function.update store key none) keys := rfl

/-- Moving pairs from the upper store to the lower one does not show. -/
theorem overlay_flush (distinct : (pairs.map Prod.fst).Nodup)
    (present : ∀ pair ∈ pairs, upper pair.1 = some pair.2) :
    overlay (discard upper (pairs.map Prod.fst)) (write lower pairs) = overlay upper lower := by
  funext key
  unfold overlay
  rw [discard_apply]
  by_cases moved : key ∈ pairs.map Prod.fst
  · rcases List.mem_map.mp moved with ⟨⟨_, value⟩, mem, rfl⟩
    rw [if_pos moved, write_of_mem distinct mem, present _ mem]
    rfl
  · rw [if_neg moved, write_of_not_mem]
    exact fun pair mem same => moved (List.mem_map.mpr ⟨pair, mem, same⟩)

/-- What is written below a key of the upper store does not show. -/
theorem overlay_write (present : ∀ pair ∈ pairs, upper pair.1 = some pair.2) :
    overlay upper (write lower pairs) = overlay upper lower := by
  funext key
  unfold overlay
  rcases held : upper key with _ | value
  · have absent : ∀ pair ∈ pairs, pair.1 ≠ key := by
      rintro pair mem rfl
      simp [present pair mem] at held
    rw [write_of_not_mem absent]
  · rfl

theorem overlay_update_some (key : Key) (value : Value) :
    overlay (Function.update upper key (some value)) lower =
      Function.update (overlay upper lower) key (some value) := by
  funext other
  by_cases same : other = key
  · subst other
    simp [overlay]
  · simp [overlay, same]

theorem overlay_discard (keys : List Key) :
    overlay (discard upper keys) (discard lower keys) = discard (overlay upper lower) keys := by
  funext key
  simp only [overlay, discard_apply]
  split_ifs <;> rfl

/-- What is written over does not matter. -/
theorem write_congr {other : Store Key Value}
    (agree : ∀ key, (∀ pair ∈ pairs, pair.1 ≠ key) → other key = store key) :
    write other pairs = write store pairs := by
  induction pairs generalizing store other with
  | nil => exact funext fun key => agree key (by simp)
  | cons pair pairs ih =>
      rw [write_cons, write_cons]
      refine ih fun key absent => ?_
      by_cases same : key = pair.1
      · simp [same]
      · rw [Function.update_of_ne same, Function.update_of_ne same]
        refine agree key fun other mem => ?_
        rcases List.mem_cons.mp mem with rfl | mem
        · exact Ne.symm same
        · exact absent other mem

end Store

end FlashBench
