import Mathlib.Algebra.BigOperators.Ring.Finset
import Mathlib.Algebra.Order.BigOperators.Group.Finset
import Mathlib.Tactic.SplitIfs

/-!
# Logs of programs and erases

A block is programmed page by page until it is full, and an erase makes all its pages
available again. A log whose erases all hit a full block wastes no page, so what a block
was erased and what it was programmed determine each other.
-/

namespace FlashBench

namespace EraseLog

/-- A command to a device whose blocks are programmed page by page and erased at once. -/
inductive DeviceCommand (Block : Type*) where
  | program (block : Block) (page : ℕ)
  | erase (block : Block)

variable {Block : Type*} [DecidableEq Block] {capacity : ℕ} {granted : Block → Prop}
  [DecidablePred granted] {log : List (DeviceCommand Block)}

/-- The pages of a block that a log, newest first, programs after its last erase. -/
def pagesSince (block : Block) : List (DeviceCommand Block) → List ℕ
  | [] => []
  | .program other page :: earlier =>
      if other = block then page :: pagesSince block earlier else pagesSince block earlier
  | .erase other :: earlier => if other = block then [] else pagesSince block earlier

/-- How often a page of the block is programmed. -/
def programs (block : Block) : List (DeviceCommand Block) → ℕ
  | [] => 0
  | .program other _ :: earlier => programs block earlier + if other = block then 1 else 0
  | .erase _ :: earlier => programs block earlier

/-- How often the block is erased. -/
def erases (block : Block) : List (DeviceCommand Block) → ℕ
  | [] => 0
  | .program _ _ :: earlier => erases block earlier
  | .erase other :: earlier => erases block earlier + if other = block then 1 else 0

/-- What an erase has to find: a full block, or, where the first erase of the block is granted, a
block never programmed. -/
def Paid (capacity : ℕ) (granted : Block → Prop) [DecidablePred granted] (block : Block)
    (earlier : List (DeviceCommand Block)) : Prop :=
  if granted block ∧ erases block earlier = 0 then programs block earlier = 0
  else (pagesSince block earlier).length = capacity

/-- Every erase of the log is paid. -/
def AllPaid (capacity : ℕ) (granted : Block → Prop) [DecidablePred granted] :
    List (DeviceCommand Block) → Prop
  | [] => True
  | .program _ _ :: earlier => AllPaid capacity granted earlier
  | .erase block :: earlier =>
      Paid capacity granted block earlier ∧ AllPaid capacity granted earlier

/-- The pages that a granted erase makes available without a program. -/
def headStart (capacity : ℕ) (granted : Block → Prop) [DecidablePred granted]
    (log : List (DeviceCommand Block)) (block : Block) : ℕ :=
  if granted block ∧ erases block log ≠ 0 then capacity else 0

/-- Every paid erase stands for as many programs as a block has pages; the pages programmed
since the last one are what remains. -/
theorem AllPaid.balance (paid : AllPaid capacity granted log) (block : Block) :
    programs block log + headStart capacity granted log block =
      capacity * erases block log + (pagesSince block log).length := by
  induction log with
  | nil => simp [programs, headStart, erases, pagesSince]
  | cons command earlier ih =>
      cases command with
      | program other page =>
          have before := ih paid
          have sameStart : headStart capacity granted (.program other page :: earlier) block =
            headStart capacity granted earlier block := rfl
          rw [sameStart]
          by_cases same : other = block
          · simp only [programs, erases, pagesSince, if_pos same, List.length_cons]
            omega
          · simpa only [programs, erases, pagesSince, if_neg same, Nat.add_zero] using before
      | erase other =>
          have before := ih paid.2
          by_cases same : other = block
          · subst other
            have pays := paid.1
            unfold Paid at pays
            simp only [programs, erases, pagesSince, if_true, List.length_nil, Nat.mul_add,
              Nat.mul_one]
            unfold headStart at before ⊢
            simp only [erases, if_true]
            by_cases isGranted : granted block
            · by_cases never : erases block earlier = 0
              · rw [if_pos ⟨isGranted, never⟩] at pays
                simp [isGranted, never, pays]
              · rw [if_neg (fun both => never both.2)] at pays
                rw [if_pos ⟨isGranted, never⟩] at before
                rw [if_pos ⟨isGranted, by omega⟩]
                omega
            · rw [if_neg (fun both => isGranted both.1)] at pays before
              rw [if_neg (fun both => isGranted both.1)]
              omega
          · have sameStart : headStart capacity granted (.erase other :: earlier) block =
                headStart capacity granted earlier block := by
              simp only [headStart, erases, if_neg same, Nat.add_zero]
            rw [sameStart]
            simpa only [programs, erases, pagesSince, if_neg same, Nat.add_zero] using before

/-- Some blocks together cannot be erased more often than their programs pay for. -/
theorem AllPaid.sum_erases_le (paid : AllPaid capacity granted log) (blocks : Finset Block) :
    capacity * ∑ block ∈ blocks, erases block log ≤
      ∑ block ∈ blocks, programs block log + capacity * (blocks.filter granted).card := by
  have started (block : Block) : headStart capacity granted log block ≤
      capacity * if granted block then 1 else 0 := by
    unfold headStart
    split_ifs with both isGranted
    · omega
    · exact absurd both.1 isGranted
    · omega
    · omega
  calc capacity * ∑ block ∈ blocks, erases block log
      = ∑ block ∈ blocks, capacity * erases block log := Finset.mul_sum _ _ _
    _ ≤ ∑ block ∈ blocks, (programs block log + headStart capacity granted log block) :=
        Finset.sum_le_sum fun block _ => by rw [paid.balance block]; omega
    _ ≤ ∑ block ∈ blocks, (programs block log + capacity * if granted block then 1 else 0) :=
        Finset.sum_le_sum fun block _ => Nat.add_le_add_left (started block) _
    _ = ∑ block ∈ blocks, programs block log + capacity * (blocks.filter granted).card := by
        rw [Finset.sum_add_distrib, ← Finset.mul_sum, Finset.card_filter]

end EraseLog

end FlashBench
