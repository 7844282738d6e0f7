import Mathlib.Data.Finset.Card
import Mathlib.Data.Finset.Prod
import Mathlib.Data.Fintype.Basic
import Mathlib.Algebra.BigOperators.Group.Finset.Basic
import Mathlib.Algebra.BigOperators.Group.Finset.Piecewise
import Mathlib.Algebra.BigOperators.Group.Finset.Sigma

/-!
# Counting under a change at one point

A counter kept next to an array of states is correct when it equals the number of
indices in each state. The lemmas of this file follow that number through a
change of one entry.
-/

namespace FlashBench

universe u v

section Counting

variable {Index : Type u} {Label : Type v} [DecidableEq Label]

/-- The number of indices of a finite set that carry a label. -/
def labelCount (indices : Finset Index) (labels : Index → Label) (label : Label) : ℕ :=
  (indices.filter fun index => labels index = label).card

variable {indices : Finset Index} {before after : Index → Label} {changed : Index}

theorem labelCount_congr (agree : ∀ index ∈ indices, after index = before index)
    (label : Label) : labelCount indices after label = labelCount indices before label := by
  unfold labelCount
  congr 1
  apply Finset.filter_congr
  intro index member
  rw [agree index member]

theorem labelCount_eq_zero_iff {labels : Index → Label} {label : Label} :
    labelCount indices labels label = 0 ↔ ∀ index ∈ indices, labels index ≠ label := by
  simp [labelCount, Finset.card_eq_zero, Finset.filter_eq_empty_iff]

theorem labelCount_pos {labels : Index → Label} {label : Label} (index : Index)
    (member : index ∈ indices) (present : labels index = label) :
    0 < labelCount indices labels label :=
  Finset.card_pos.mpr ⟨index, Finset.mem_filter.mpr ⟨member, present⟩⟩

theorem labelCount_le_card (indices : Finset Index) (labels : Index → Label) (label : Label) :
    labelCount indices labels label ≤ indices.card :=
  Finset.card_filter_le _ _

theorem labelCount_eq_card_iff (indices : Finset Index) (labels : Index → Label) (label : Label) :
    labelCount indices labels label = indices.card ↔ ∀ index ∈ indices, labels index = label :=
  Finset.card_filter_eq_iff

theorem labelCount_add_eq_card (indices : Finset Index) (labels : Index → Label) {left right : Label}
    (different : left ≠ right)
    (either : ∀ index ∈ indices, labels index = left ∨ labels index = right) :
    labelCount indices labels left + labelCount indices labels right = indices.card := by
  have complement : indices.filter (fun index => labels index = right) =
      indices.filter fun index => ¬labels index = left := by
    refine Finset.filter_congr fun index member => ?_
    rcases either index member with isLeft | isRight
    · simp [isLeft, different]
    · simp [isRight, different.symm]
  unfold labelCount
  rw [complement, Finset.card_filter_add_card_filter_not]

theorem labelCount_product {Column : Type*} (rows : Finset Index) (columns : Finset Column)
    (labels : Index × Column → Label) (label : Label) :
    labelCount (rows ×ˢ columns) labels label =
      ∑ row ∈ rows, labelCount columns (fun column => labels (row, column)) label := by
  unfold labelCount
  simp only [Finset.card_filter, Finset.sum_product]

variable [DecidableEq Index]

theorem labelCount_change (member : changed ∈ indices)
    (agree : ∀ index ∈ indices, index ≠ changed → after index = before index) (label : Label) :
    labelCount indices after label + (if before changed = label then 1 else 0) =
      labelCount indices before label + (if after changed = label then 1 else 0) := by
  have rest : labelCount (indices.erase changed) after label =
      labelCount (indices.erase changed) before label :=
    labelCount_congr (fun index indexMem =>
      agree index (Finset.mem_of_mem_erase indexMem) (Finset.ne_of_mem_erase indexMem)) label
  have split (labels : Index → Label) : labelCount indices labels label =
      labelCount (indices.erase changed) labels label +
        (if labels changed = label then 1 else 0) := by
    unfold labelCount
    conv_lhs => rw [← Finset.insert_erase member, Finset.filter_insert]
    split_ifs with present
    · rw [Finset.card_insert_of_notMem (by simp)]
    · rfl
  rw [split after, split before, rest]
  omega

theorem labelCount_gain {label : Label} (changed : Index) (member : changed ∈ indices)
    (agree : ∀ index ∈ indices, index ≠ changed → after index = before index)
    (old : before changed ≠ label) (new : after changed = label) :
    labelCount indices after label = labelCount indices before label + 1 := by
  have change := labelCount_change member agree label
  simpa [old, new] using change

theorem labelCount_loss {label : Label} (changed : Index) (member : changed ∈ indices)
    (agree : ∀ index ∈ indices, index ≠ changed → after index = before index)
    (old : before changed = label) (new : after changed ≠ label) :
    labelCount indices before label = labelCount indices after label + 1 := by
  have change := labelCount_change member agree label
  simpa [old, new, eq_comm] using change

theorem labelCount_same {label : Label} (changed : Index) (member : changed ∈ indices)
    (agree : ∀ index ∈ indices, index ≠ changed → after index = before index)
    (old : before changed ≠ label) (new : after changed ≠ label) :
    labelCount indices after label = labelCount indices before label := by
  have change := labelCount_change member agree label
  simpa [old, new] using change

end Counting

section Lists

variable {Item : Type u} [DecidableEq Item] {item : Item} {items : List Item}

theorem count_erase_add (other : Item) (mem : item ∈ items) :
    (items.erase item).count other + [item].count other = items.count other := by
  rw [List.count_erase, List.count_singleton]
  by_cases same : item = other
  · subst other
    have := List.count_pos_iff.mpr mem
    simp only [beq_self_eq_true, if_true]
    omega
  · simp [same]

omit [DecidableEq Item] in
theorem mem_of_head?_eq (head : items.head? = some item) : item ∈ items :=
  List.mem_of_mem_head? head

end Lists

end FlashBench
