import Mathlib.Data.List.Nodup
import FlashBench.Library.Store

/-!
# Bounded FIFO maps

A write-back cache is a map of bounded size that remembers the order in which its keys
were put. The oldest pairs are handed out for writing and stay in the map until they are
retired; putting or removing such a key in between calls the retirement off.

`Life` follows one key through a history of operations and their results.
-/

namespace FlashBench

universe u v

/-- The pairs in the order in which they were put, and those handed out for writing. -/
@[ext]
structure FifoMap (Key : Type u) (Value : Type v) where
  waiting : List (Key × Value)
  leaving : List (Key × Value)

namespace FifoMap

variable {Key : Type u} {Value : Type v}

/-- The operations. -/
inductive Op (Key : Type u) (Value : Type v) where
  | put (key : Key) (value : Value)
  | get (key : Key)
  | take (n : ℕ)
  | retire
  | remove (key : Key)

/-- What the operations return. -/
inductive Result (Key : Type u) (Value : Type v) where
  | stored (ok : Bool)
  | found (value : Option Value)
  | taken (pairs : Option (List (Key × Value)))
  | unit

/-- The map without any key. -/
def empty : FifoMap Key Value := ⟨[], []⟩

/-- All pairs. -/
def pairs (map : FifoMap Key Value) : List (Key × Value) := map.leaving ++ map.waiting

/-- No key occurs twice. -/
def Distinct (map : FifoMap Key Value) : Prop := (map.pairs.map Prod.fst).Nodup

section Operations

variable [DecidableEq Key]

/-- The value of a key. -/
def lookup (map : FifoMap Key Value) : Store Key Value :=
  Store.write (fun _ => none) map.pairs

/-- The map without a key. -/
def remove (key : Key) (map : FifoMap Key Value) : FifoMap Key Value where
  waiting := map.waiting.filter fun pair => pair.1 ≠ key
  leaving := map.leaving.filter fun pair => pair.1 ≠ key

/-- Put a value at the end of those that wait; an older value of the key is gone. -/
def put (key : Key) (value : Value) (map : FifoMap Key Value) : FifoMap Key Value :=
  { map.remove key with waiting := (map.remove key).waiting ++ [(key, value)] }

/-- The first values begin to leave. -/
def take (n : ℕ) (map : FifoMap Key Value) : FifoMap Key Value where
  waiting := map.waiting.drop n
  leaving := map.leaving ++ map.waiting.take n

/-- The values that leave are gone. -/
def retire (map : FifoMap Key Value) : FifoMap Key Value := { map with leaving := [] }

/-- Carry out an operation on a map that has room for `capacity` pairs. -/
def exec (capacity : ℕ) (map : FifoMap Key Value) :
    Op Key Value → Result Key Value × FifoMap Key Value
  | .put key value =>
      if key ∉ map.pairs.map Prod.fst ∧ capacity ≤ map.pairs.length then (.stored false, map)
      else (.stored true, map.put key value)
  | .get key => (.found (map.lookup key), map)
  | .take n =>
      if n ≤ map.waiting.length then (.taken (some (map.waiting.take n)), map.take n)
      else (.taken none, map)
  | .retire => (.unit, map.retire)
  | .remove key => (.unit, map.remove key)

end Operations

/-- Carry out operations one after the other; each one comes with its result. -/
def run [DecidableEq Key] (capacity : ℕ) :
    FifoMap Key Value → List (Op Key Value) → List (Op Key Value × Result Key Value) × FifoMap Key Value
  | map, [] => ([], map)
  | map, op :: ops =>
      let rest := run capacity (map.exec capacity op).2 ops
      ((op, (map.exec capacity op).1) :: rest.1, rest.2)

/-! ### The life of a key -/

/-- Where the last value of a key is. -/
inductive Life (Value : Type v) where
  | absent
  | waiting (value : Value)
  | leaving (value : Value)

/-- The value, if the key is in the map. -/
def Life.value : Life Value → Option Value
  | absent => none
  | waiting value => some value
  | leaving value => some value

/-- What an operation with its result means for a key. -/
def Life.step [DecidableEq Key] (key : Key) (life : Life Value) :
    Op Key Value × Result Key Value → Life Value
  | (.put other value, .stored true) => if other = key then .waiting value else life
  | (.take _, .taken (some pairs)) =>
      match life with
      | .waiting value => if key ∈ pairs.map Prod.fst then .leaving value else life
      | _ => life
  | (.retire, _) =>
      match life with
      | .leaving _ => .absent
      | _ => life
  | (.remove other, _) => if other = key then .absent else life
  | _ => life

/-- The map agrees with the life of a key. -/
def Lives (map : FifoMap Key Value) (key : Key) : Life Value → Prop
  | .absent => key ∉ map.pairs.map Prod.fst
  | .waiting value => (key, value) ∈ map.waiting
  | .leaving value => (key, value) ∈ map.leaving

section Pairs

variable {map : FifoMap Key Value} {key : Key}

theorem pairs_take (n : ℕ) (map : FifoMap Key Value) :
    (FifoMap.mk (map.waiting.drop n) (map.leaving ++ map.waiting.take n)).pairs = map.pairs := by
  simp [pairs]

theorem distinct_empty : (empty : FifoMap Key Value).Distinct := List.nodup_nil

theorem Distinct.take (distinct : map.Distinct) (n : ℕ) : (map.take n).Distinct := by
  unfold Distinct FifoMap.take
  rw [pairs_take]
  exact distinct

theorem Distinct.retire (distinct : map.Distinct) : map.retire.Distinct := by
  refine distinct.sublist (List.Sublist.map _ ?_)
  exact List.sublist_append_right _ _

theorem Distinct.not_both (distinct : map.Distinct) {first second : Value}
    (leaving : (key, first) ∈ map.leaving) (waiting : (key, second) ∈ map.waiting) : False := by
  unfold Distinct pairs at distinct
  rw [List.map_append, List.nodup_append] at distinct
  exact distinct.2.2 key (List.mem_map_of_mem leaving) key (List.mem_map_of_mem waiting) rfl

end Pairs

section Facts

variable [DecidableEq Key] {map : FifoMap Key Value} {key other : Key} {value : Value} {n capacity : ℕ}

theorem pairs_remove (key : Key) (map : FifoMap Key Value) :
    (map.remove key).pairs = map.pairs.filter fun pair => pair.1 ≠ key := by
  simp [pairs, remove]

theorem not_mem_remove (key : Key) (map : FifoMap Key Value) :
    key ∉ (map.remove key).pairs.map Prod.fst := by
  simp [pairs_remove]

/-! #### Keys stay distinct -/

theorem Distinct.remove (distinct : map.Distinct) (key : Key) : (map.remove key).Distinct := by
  unfold Distinct
  rw [pairs_remove]
  exact distinct.sublist (List.filter_sublist.map _)

theorem Distinct.put (distinct : map.Distinct) (key : Key) (value : Value) :
    (map.put key value).Distinct := by
  have all : (map.put key value).pairs = (map.remove key).pairs ++ [(key, value)] := by
    simp [pairs, FifoMap.put]
  unfold Distinct
  rw [all, List.map_append, List.nodup_append]
  refine ⟨distinct.remove key, by simp, fun left leftMem right rightMem same => ?_⟩
  rw [List.map_singleton, List.mem_singleton] at rightMem
  rw [same, rightMem] at leftMem
  exact not_mem_remove key map leftMem

theorem Distinct.exec (distinct : map.Distinct) (capacity : ℕ) (op : Op Key Value) :
    (map.exec capacity op).2.Distinct := by
  cases op with
  | put key value =>
      simp only [FifoMap.exec]
      split_ifs
      · exact distinct
      · exact distinct.put key value
  | get key => exact distinct
  | take n =>
      simp only [FifoMap.exec]
      split_ifs
      · exact distinct.take n
      · exact distinct
  | retire => exact distinct.retire
  | remove key => exact distinct.remove key

/-! #### Lookup -/

theorem Lives.lookup_eq {life : Life Value} (lives : map.Lives key life)
    (distinct : map.Distinct) : map.lookup key = life.value := by
  cases life with
  | absent =>
      refine Store.write_of_not_mem fun pair mem same => lives ?_
      exact same ▸ List.mem_map_of_mem mem
  | waiting value =>
      exact Store.write_of_mem distinct (List.mem_append_right _ lives)
  | leaving value =>
      exact Store.write_of_mem distinct (List.mem_append_left _ lives)

theorem Distinct.value_unique (distinct : map.Distinct) {first second : Value}
    (firstMem : (key, first) ∈ map.pairs) (secondMem : (key, second) ∈ map.pairs) :
    first = second := by
  have left : map.lookup key = some first := Store.write_of_mem distinct firstMem
  have right : map.lookup key = some second := Store.write_of_mem distinct secondMem
  simpa [left] using right

/-! #### Steps -/

theorem Lives.remove {life : Life Value} (lives : map.Lives key life) (different : other ≠ key) :
    (map.remove other).Lives key life := by
  cases life with
  | absent =>
      intro mem
      rw [pairs_remove] at mem
      exact lives ((List.filter_sublist.map _).subset mem)
  | waiting value => exact List.mem_filter.mpr ⟨lives, by simpa using different.symm⟩
  | leaving value => exact List.mem_filter.mpr ⟨lives, by simpa using different.symm⟩

theorem Lives.put {life : Life Value} (lives : map.Lives key life) (different : other ≠ key)
    (value : Value) : (map.put other value).Lives key life := by
  have removed := lives.remove different
  cases life with
  | absent =>
      intro mem
      have all : (map.put other value).pairs = (map.remove other).pairs ++ [(other, value)] := by
        simp [pairs, FifoMap.put]
      rw [all, List.map_append, List.mem_append] at mem
      rcases mem with before | new
      · exact removed before
      · exact different (List.mem_singleton.mp new).symm
  | waiting value => exact List.mem_append_left _ removed
  | leaving value => exact removed

theorem Lives.take {life : Life Value} (lives : map.Lives key life) (distinct : map.Distinct)
    (n : ℕ) : (map.take n).Lives key
      (life.step key (.take n, .taken (some (map.waiting.take n)))) := by
  cases life with
  | absent =>
      change key ∉ (map.take n).pairs.map Prod.fst
      rw [FifoMap.take, pairs_take]
      exact lives
  | leaving value => exact List.mem_append_left _ lives
  | waiting value =>
      simp only [Life.step]
      split_ifs with picked
      · rcases List.mem_map.mp picked with ⟨⟨_, taken⟩, mem, rfl⟩
        have same : value = taken := distinct.value_unique (List.mem_append_right _ lives)
          (List.mem_append_right _ (List.mem_of_mem_take mem))
        rw [same]
        exact List.mem_append_right _ mem
      · have split : (key, value) ∈ map.waiting.take n ++ map.waiting.drop n := by
          rw [List.take_append_drop]
          exact lives
        rcases List.mem_append.mp split with early | late
        · exact absurd (List.mem_map_of_mem early) picked
        · exact late

theorem Lives.retire {life : Life Value} (lives : map.Lives key life) (distinct : map.Distinct) :
    map.retire.Lives key (life.step key (.retire, .unit)) := by
  cases life with
  | absent =>
      intro mem
      exact lives (by simpa [pairs, FifoMap.retire] using Or.inr (by simpa [pairs, FifoMap.retire]
        using mem))
  | waiting value => exact lives
  | leaving value =>
      intro mem
      rcases List.mem_map.mp mem with ⟨⟨_, other⟩, pairMem, rfl⟩
      exact distinct.not_both lives (by simpa [pairs, FifoMap.retire] using pairMem)

theorem Lives.exec {life : Life Value} (lives : map.Lives key life) (distinct : map.Distinct)
    (capacity : ℕ) (op : Op Key Value) :
    (map.exec capacity op).2.Lives key (life.step key (op, (map.exec capacity op).1)) := by
  cases op with
  | put other value =>
      simp only [FifoMap.exec]
      split_ifs
      · exact lives
      · simp only [Life.step]
        split_ifs with same
        · subst same
          exact List.mem_append_right _ (List.mem_singleton_self _)
        · exact lives.put same value
  | get other => exact lives
  | take n =>
      simp only [FifoMap.exec]
      split_ifs
      · exact lives.take distinct n
      · exact lives
  | retire => exact lives.retire distinct
  | remove other =>
      simp only [FifoMap.exec, Life.step]
      split_ifs with same
      · subst same
        exact not_mem_remove other map
      · exact lives.remove same

/-- A history of operations and results tells the life of every key. -/
theorem Lives.run {life : Life Value} (lives : map.Lives key life) (distinct : map.Distinct)
    (capacity : ℕ) (ops : List (Op Key Value)) :
    (map.run capacity ops).2.Distinct ∧
      (map.run capacity ops).2.Lives key ((map.run capacity ops).1.foldl (Life.step key) life) := by
  induction ops generalizing map life with
  | nil => exact ⟨distinct, lives⟩
  | cons op ops ih => exact ih (lives.exec distinct capacity op) (distinct.exec capacity op)

end Facts

end FifoMap

end FlashBench
