import FlashBench.Library.Store
import Mathlib.Data.List.Induction

/-!
# Write-back caches

A cache takes every value that is put and passes it on to a slower store later, all at
once. In between the slower store lags behind: it is where it was after an earlier
operation, but a key may have lost its value there when a new value for it is in the
cache, or is about to be.
-/

namespace FlashBench

universe u v

/-- An operation on a store. -/
inductive StoreOp (Key : Type u) (Value : Type v) where
  | put (key : Key) (value : Value)
  | trim (key : Key)

namespace StoreOp

variable {Key : Type u} {Value : Type v}

/-- The key of an operation. -/
def key : StoreOp Key Value → Key
  | put key _ => key
  | trim key => key

/-- What the key of the operation has afterwards. -/
def value : StoreOp Key Value → Option Value
  | put _ value => some value
  | trim _ => none

theorem touched_of_concat {ops : List (StoreOp Key Value)} {op : StoreOp Key Value} {key : Key}
    (touched : ∃ other ∈ ops ++ [op], other.key = key) (different : op.key ≠ key) :
    ∃ other ∈ ops, other.key = key := by
  rcases touched with ⟨other, mem, isKey⟩
  rcases List.mem_append.mp mem with earlier | last
  · exact ⟨other, earlier, isKey⟩
  · rw [List.mem_singleton] at last
    exact absurd (last ▸ isKey) different

variable [DecidableEq Key]

/-- The store after some operations on an empty one. -/
def storeAfter (ops : List (StoreOp Key Value)) : Store Key Value :=
  ops.foldl (fun store op => Function.update store op.key op.value) fun _ => none

variable {ops before after : List (StoreOp Key Value)} {pairs : List (Key × Value)}
  {keys : List Key} {key : Key}

@[simp]
theorem storeAfter_nil : storeAfter ([] : List (StoreOp Key Value)) = fun _ => none := rfl

theorem storeAfter_concat (op : StoreOp Key Value) :
    storeAfter (ops ++ [op]) = Function.update (storeAfter ops) op.key op.value := by
  simp [storeAfter]

theorem storeAfter_puts (ops : List (StoreOp Key Value)) (pairs : List (Key × Value)) :
    storeAfter (ops ++ pairs.map fun pair => put pair.1 pair.2) = (storeAfter ops).write pairs := by
  unfold storeAfter Store.write
  rw [List.foldl_append, List.foldl_map]
  rfl

theorem storeAfter_trims (ops : List (StoreOp Key Value)) (keys : List Key) :
    storeAfter (ops ++ keys.map trim) = (storeAfter ops).discard keys := by
  unfold storeAfter Store.discard
  rw [List.foldl_append, List.foldl_map]
  rfl

/-- Operations on other keys do not count. -/
theorem storeAfter_append_of_untouched (untouched : ∀ op ∈ after, op.key ≠ key) :
    storeAfter (before ++ after) key = storeAfter before key := by
  induction after using List.reverseRecOn with
  | nil => rw [List.append_nil]
  | append_singleton after op ih =>
      rw [← List.append_assoc, storeAfter_concat, Function.update_of_ne]
      · exact ih fun other mem => untouched other (by simp [mem])
      · exact (untouched op (by simp)).symm

/-- What came before the last operation on a key does not count. -/
theorem storeAfter_append_of_touched (touched : ∃ op ∈ after, op.key = key) :
    storeAfter (before ++ after) key = storeAfter after key := by
  induction after using List.reverseRecOn with
  | nil => simp at touched
  | append_singleton after op ih =>
      rw [← List.append_assoc, storeAfter_concat, storeAfter_concat]
      by_cases same : op.key = key
      · subst same
        rw [Function.update_self, Function.update_self]
      · rw [Function.update_of_ne (Ne.symm same), Function.update_of_ne (Ne.symm same)]
        exact ih (touched_of_concat touched same)

theorem storeAfter_eq_none_of_untouched (untouched : ∀ op ∈ ops, op.key ≠ key) :
    storeAfter ops key = none := by
  have same : storeAfter ([] ++ ops) key = storeAfter [] key :=
    storeAfter_append_of_untouched untouched
  exact same

/-- A key that has lost its value was trimmed. -/
theorem trim_mem_of_absent (touched : ∃ op ∈ ops, op.key = key) (absent : storeAfter ops key = none) :
    trim key ∈ ops := by
  induction ops using List.reverseRecOn with
  | nil => simp at touched
  | append_singleton ops op ih =>
      rw [storeAfter_concat] at absent
      by_cases same : op.key = key
      · subst same
        rw [Function.update_self] at absent
        rcases op with ⟨key, data⟩ | key
        · simp [StoreOp.value] at absent
        · simp [StoreOp.key]
      · rw [Function.update_of_ne (Ne.symm same)] at absent
        apply List.mem_append_left
        exact ih (touched_of_concat touched same) absent

end StoreOp

open StoreOp

section Lagging

variable {Key : Type u} {Value : Type v} [DecidableEq Key]

/-- The operations so far are `done ++ later`, of which the slower store has seen `done` and
the cache `later`. The keys of `pending` are about to be put. -/
structure Lagging (pending : List Key) (done later : List (StoreOp Key Value))
    (cache slow : Store Key Value) : Prop where
  cache_eq : cache = storeAfter later
  slow_or : ∀ key, slow key = none ∨ slow key = storeAfter done key
  slow_eq : ∀ key, (∀ op ∈ later, op.key ≠ key) → key ∉ pending → slow key = storeAfter done key
  trimmed : ∀ key, .trim key ∈ later → slow key = none

namespace Lagging

variable {pending : List Key} {done later : List (StoreOp Key Value)} {cache slow : Store Key Value}
  {key : Key}

theorem touched_or (later : List (StoreOp Key Value)) (key : Key) :
    (∃ op ∈ later, op.key = key) ∨ ∀ op ∈ later, op.key ≠ key := by
  by_cases touched : ∃ op ∈ later, op.key = key
  · exact Or.inl touched
  · right
    intro op mem same
    exact touched ⟨op, mem, same⟩

theorem start : Lagging [] [] [] (fun _ => none : Store Key Value) fun _ => none where
  cache_eq := rfl
  slow_or _ := Or.inl rfl
  slow_eq _ _ _ := rfl
  trimmed _ _ := rfl

/-- The slower store gives up the old values of keys that are about to be put. -/
theorem giveUp (lagging : Lagging [] done later cache slow) (keys : List Key) :
    Lagging keys done later cache (slow.discard keys) where
  cache_eq := lagging.cache_eq
  slow_or key := by
    rw [Store.discard_apply]
    split_ifs
    · exact Or.inl rfl
    · exact lagging.slow_or key
  slow_eq key untouched notPending := by
    rw [Store.discard_apply, if_neg notPending]
    exact lagging.slow_eq key untouched List.not_mem_nil
  trimmed key isTrimmed := by
    rw [Store.discard_apply]
    split_ifs
    · rfl
    · exact lagging.trimmed key isTrimmed

theorem put (lagging : Lagging (key :: pending) done later cache slow) (value : Value) :
    Lagging pending done (later ++ [.put key value]) (Function.update cache key (some value))
      slow where
  cache_eq := by
    rw [storeAfter_concat, lagging.cache_eq]
    rfl
  slow_or := lagging.slow_or
  slow_eq other untouched notPending := by
    apply lagging.slow_eq other
    · exact fun op mem => untouched op (by simp [mem])
    · intro isPending
      rcases List.mem_cons.mp isPending with same | mem
      · exact untouched (.put key value) (by simp) same.symm
      · exact notPending mem
  trimmed other isTrimmed := by
    rcases List.mem_append.mp isTrimmed with earlier | last
    · exact lagging.trimmed other earlier
    · simp at last

theorem trim (lagging : Lagging pending done later cache slow) (key : Key) :
    Lagging pending done (later ++ [.trim key]) (Function.update cache key none)
      (Function.update slow key none) where
  cache_eq := by
    rw [storeAfter_concat, lagging.cache_eq]
    rfl
  slow_or other := by
    by_cases same : other = key
    · simp [same]
    · rw [Function.update_of_ne same]
      exact lagging.slow_or other
  slow_eq other untouched notPending := by
    have different : other ≠ key := fun same => untouched (.trim key) (by simp) same.symm
    rw [Function.update_of_ne different]
    exact lagging.slow_eq other (fun op mem => untouched op (by simp [mem])) notPending
  trimmed other isTrimmed := by
    by_cases same : other = key
    · simp [same]
    · rw [Function.update_of_ne same]
      rcases List.mem_append.mp isTrimmed with earlier | last
      · exact lagging.trimmed other earlier
      · simp only [List.mem_singleton, StoreOp.trim.injEq] at last
        exact absurd last same

theorem trims (lagging : Lagging pending done later cache slow) (keys : List Key) :
    Lagging pending done (later ++ keys.map .trim) (cache.discard keys) (slow.discard keys) := by
  induction keys generalizing later cache slow with
  | nil => simpa [Store.discard] using lagging
  | cons key keys ih =>
      have next := ih (lagging.trim key)
      rw [List.append_assoc] at next
      exact next

/-- The whole cache is passed on. -/
theorem flush (lagging : Lagging pending done later cache slow) :
    Lagging pending (done ++ later) [] (fun _ => none) (Store.overlay cache slow) := by
  have lookup (key : Key) : (Store.overlay cache slow) key = (cache key).or (slow key) := rfl
  have touchedCase {key : Key} (touched : ∃ op ∈ later, op.key = key) :
      Store.overlay cache slow key = storeAfter (done ++ later) key := by
    rw [storeAfter_append_of_touched touched, ← lagging.cache_eq, lookup]
    rcases cached : cache key with _ | value
    · rw [lagging.cache_eq] at cached
      rw [lagging.trimmed key (trim_mem_of_absent touched cached)]
      rfl
    · rfl
  have untouchedCase {key : Key} (untouched : ∀ op ∈ later, op.key ≠ key) :
      Store.overlay cache slow key = slow key ∧
        storeAfter (done ++ later) key = storeAfter done key := by
    rw [lookup, lagging.cache_eq, storeAfter_eq_none_of_untouched untouched,
      storeAfter_append_of_untouched untouched]
    exact ⟨rfl, rfl⟩
  constructor
  · rfl
  · intro key
    rcases touched_or later key with touched | untouched
    · exact Or.inr (touchedCase touched)
    · rw [(untouchedCase untouched).1, (untouchedCase untouched).2]
      exact lagging.slow_or key
  · intro key _ notPending
    rcases touched_or later key with touched | untouched
    · exact touchedCase touched
    · rw [(untouchedCase untouched).1, (untouchedCase untouched).2]
      exact lagging.slow_eq key untouched notPending
  · simp

/-- Cache and slower store together hold what all operations have left. -/
theorem overlay_eq (lagging : Lagging [] done later cache slow) :
    Store.overlay cache slow = storeAfter (done ++ later) := by
  funext key
  exact lagging.flush.slow_eq key (by simp) List.not_mem_nil

/-- Where the slower store is behind, the cache has the value. -/
theorem cached_of_behind (lagging : Lagging [] done later cache slow)
    (behind : slow key ≠ storeAfter (done ++ later) key) : cache key ≠ none := by
  intro absent
  apply behind
  rw [← lagging.overlay_eq, Store.overlay, absent]
  rfl

end Lagging

end Lagging

end FlashBench
