import Mathlib.Data.List.Basic
import FlashBench.Library.Counting
import FlashBench.GcPageMapping

/-!
# Ownership of blocks

A block of a chip is in one of the three lists of the chip, in its active slot or
in its GC slot. `Partition` says so by counting occurrences, so that moving a
block from one place to another is an equation between counts.
-/

namespace FlashBench

/-- The places of a chip that own blocks. -/
inductive Place where
  | free
  | used
  | dirt
  | active
  | gc
  deriving DecidableEq, Repr

namespace FlashChip

/-- The blocks in a place of the chip, given its active and its GC slot. -/
def holds (chip : FlashChip) (act gc : Option BlockId) : Place → List BlockId
  | .free => chip.freeBlks
  | .used => chip.usedBlks
  | .dirt => chip.dirtBlks
  | .active => act.toList
  | .gc => gc.toList

/-- How often a block occurs in the places of the chip. -/
def ownerCount (chip : FlashChip) (act gc : Option BlockId) (b : BlockId) : ℕ :=
  chip.freeBlks.count b + chip.usedBlks.count b + chip.dirtBlks.count b +
    act.toList.count b + gc.toList.count b

theorem count_holds_le (chip : FlashChip) (act gc : Option BlockId) (b : BlockId)
    (place : Place) : (chip.holds act gc place).count b ≤ chip.ownerCount act gc b := by
  unfold ownerCount
  cases place <;> simp only [holds] <;> omega

theorem count_holds_add_le (chip : FlashChip) (act gc : Option BlockId) (b : BlockId)
    {place other : Place} (different : place ≠ other) :
    (chip.holds act gc place).count b + (chip.holds act gc other).count b ≤
      chip.ownerCount act gc b := by
  unfold ownerCount
  cases place <;> cases other <;> simp only [holds] <;> first | omega | exact absurd rfl different

end FlashChip

/-- The places of a chip hold each of its blocks exactly once and no other block, and the
list counters are the lengths of the lists. -/
structure Partition (G : Geometry) (c : ChipId) (chip : FlashChip) (act gc : Option BlockId) :
    Prop where
  ownerCount_eq : ∀ b, chip.ownerCount act gc b =
    if b.chip = c ∧ b.noBlock < G.numBlocksPerChip then 1 else 0
  nrFreeBlocks_eq : chip.nrFreeBlocks = chip.freeBlks.length
  nrUsedBlks_eq : chip.nrUsedBlks = chip.usedBlks.length
  nrDirtBlks_eq : chip.nrDirtBlks = chip.dirtBlks.length

theorem dec32_length_erase {b : BlockId} {blocks : List BlockId} (mem : b ∈ blocks) :
    dec32 blocks.length = (blocks.erase b).length := by
  rw [List.length_erase_of_mem mem, dec32_of_pos (List.length_pos_of_mem mem)]

namespace Partition

variable {G : Geometry} {c : ChipId} {chip : FlashChip} {act gc : Option BlockId} {b : BlockId}

section Consequences

variable (partition : Partition G c chip act gc)
include partition

theorem ownerCount_le_one (b : BlockId) : chip.ownerCount act gc b ≤ 1 := by
  rw [partition.ownerCount_eq]
  split_ifs <;> omega

theorem of_mem (place : Place) (mem : b ∈ chip.holds act gc place) :
    b.chip = c ∧ b.noBlock < G.numBlocksPerChip := by
  by_contra foreign
  have count := partition.ownerCount_eq b
  rw [if_neg foreign] at count
  have := chip.count_holds_le act gc b place
  have := List.count_pos_iff.mpr mem
  omega

theorem unique {place : Place} (mem : b ∈ chip.holds act gc place) (other : Place)
    (otherMem : b ∈ chip.holds act gc other) : place = other := by
  by_contra different
  have := chip.count_holds_add_le act gc b different
  have := partition.ownerCount_le_one b
  have := List.count_pos_iff.mpr mem
  have := List.count_pos_iff.mpr otherMem
  omega

theorem nodup (place : Place) : (chip.holds act gc place).Nodup := by
  refine List.nodup_iff_count_le_one.mpr fun b => ?_
  exact (chip.count_holds_le act gc b place).trans (partition.ownerCount_le_one b)

theorem exists_place (own : b.chip = c) (b_lt : b.noBlock < G.numBlocksPerChip) :
    ∃ place, b ∈ chip.holds act gc place := by
  have count := partition.ownerCount_eq b
  rw [if_pos ⟨own, b_lt⟩] at count
  by_contra nowhere
  push Not at nowhere
  have absent (place : Place) : (chip.holds act gc place).count b = 0 :=
    List.count_eq_zero.mpr (nowhere place)
  have := absent .free
  have := absent .used
  have := absent .dirt
  have := absent .active
  have := absent .gc
  simp only [FlashChip.holds] at *
  unfold FlashChip.ownerCount at count
  omega

theorem of_active {blki : BlockId} (active : act = some blki) :
    blki.chip = c ∧ blki.noBlock < G.numBlocksPerChip :=
  partition.of_mem .active (by simp [FlashChip.holds, active])

theorem of_gc {blki : BlockId} (reserved : gc = some blki) :
    blki.chip = c ∧ blki.noBlock < G.numBlocksPerChip :=
  partition.of_mem .gc (by simp [FlashChip.holds, reserved])

/-- The blocks of the lists and slots add up to the blocks of the chip. -/
theorem length_eq :
    chip.freeBlks.length + chip.usedBlks.length + chip.dirtBlks.length + act.toList.length +
      gc.toList.length = G.numBlocksPerChip := by
  have perm : (chip.freeBlks ++ chip.usedBlks ++ chip.dirtBlks ++ act.toList ++ gc.toList).Perm
      ((List.range G.numBlocksPerChip).map (BlockId.mk c)) := by
    refine List.perm_iff_count.mpr fun b => ?_
    have count := partition.ownerCount_eq b
    unfold FlashChip.ownerCount at count
    simp only [List.count_append, count]
    have nodup : ((List.range G.numBlocksPerChip).map (BlockId.mk c)).Nodup :=
      List.nodup_range.map fun _ _ same => by simpa using same
    rw [nodup.count]
    refine if_congr ?_ rfl rfl
    rcases b with ⟨chip, noBlock⟩
    simp [eq_comm, and_comm]
  have same := perm.length_eq
  simp only [List.length_append, List.length_map, List.length_range] at same
  exact same

end Consequences

/-! ### Moves -/

theorem move {newChip : FlashChip} {newAct newGc : Option BlockId}
    (partition : Partition G c chip act gc)
    (counts : ∀ b, newChip.ownerCount newAct newGc b = chip.ownerCount act gc b)
    (nrFreeBlocks : newChip.nrFreeBlocks = newChip.freeBlks.length)
    (nrUsedBlks : newChip.nrUsedBlks = newChip.usedBlks.length)
    (nrDirtBlks : newChip.nrDirtBlks = newChip.dirtBlks.length) :
    Partition G c newChip newAct newGc where
  ownerCount_eq b := (counts b).trans (partition.ownerCount_eq b)
  nrFreeBlocks_eq := nrFreeBlocks
  nrUsedBlks_eq := nrUsedBlks
  nrDirtBlks_eq := nrDirtBlks

theorem freeToActive (partition : Partition G c chip none gc) (mem : b ∈ chip.freeBlks) :
    Partition G c (chip.resetFreeBlk b) (some b) gc := by
  refine partition.move (fun other => ?_) ?_ partition.nrUsedBlks_eq partition.nrDirtBlks_eq
  · have := count_erase_add other mem
    simp only [FlashChip.ownerCount, FlashChip.resetFreeBlk, Option.toList_some,
      Option.toList_none, List.count_nil]
    omega
  · change dec32 chip.nrFreeBlocks = _
    rw [partition.nrFreeBlocks_eq, dec32_length_erase mem]
    rfl

theorem freeToGc (partition : Partition G c chip act none) (mem : b ∈ chip.freeBlks) :
    Partition G c (chip.resetFreeBlk b) act (some b) := by
  refine partition.move (fun other => ?_) ?_ partition.nrUsedBlks_eq partition.nrDirtBlks_eq
  · have := count_erase_add other mem
    simp only [FlashChip.ownerCount, FlashChip.resetFreeBlk, Option.toList_some,
      Option.toList_none, List.count_nil]
    omega
  · change dec32 chip.nrFreeBlocks = _
    rw [partition.nrFreeBlocks_eq, dec32_length_erase mem]
    rfl

theorem activeToUsed (partition : Partition G c chip (some b) gc) :
    Partition G c (chip.setUsedBlk b) none gc := by
  refine partition.move (fun other => ?_) partition.nrFreeBlocks_eq ?_ partition.nrDirtBlks_eq
  · simp only [FlashChip.ownerCount, FlashChip.setUsedBlk, Option.toList_some,
      Option.toList_none, List.count_nil, List.count_append]
    omega
  · simp [FlashChip.setUsedBlk, partition.nrUsedBlks_eq]

theorem usedToGc (partition : Partition G c chip act none) (mem : b ∈ chip.usedBlks) :
    Partition G c (chip.resetUsedBlk b) act (some b) := by
  refine partition.move (fun other => ?_) partition.nrFreeBlocks_eq ?_ partition.nrDirtBlks_eq
  · have := count_erase_add other mem
    simp only [FlashChip.ownerCount, FlashChip.resetUsedBlk, Option.toList_some,
      Option.toList_none, List.count_nil]
    omega
  · change dec32 chip.nrUsedBlks = _
    rw [partition.nrUsedBlks_eq, dec32_length_erase mem]
    rfl

theorem usedToDirt (partition : Partition G c chip act gc) (mem : b ∈ chip.usedBlks) :
    Partition G c ((chip.resetUsedBlk b).setDirtBlk b) act gc := by
  refine partition.move (fun other => ?_) partition.nrFreeBlocks_eq ?_ ?_
  · have := count_erase_add other mem
    simp only [FlashChip.ownerCount, FlashChip.resetUsedBlk, FlashChip.setDirtBlk,
      List.count_append]
    omega
  · change dec32 chip.nrUsedBlks = _
    rw [partition.nrUsedBlks_eq, dec32_length_erase mem]
    rfl
  · simp [FlashChip.resetUsedBlk, FlashChip.setDirtBlk, partition.nrDirtBlks_eq]

theorem gcToActive (partition : Partition G c chip none (some b)) :
    Partition G c chip (some b) none := by
  refine partition.move (fun other => ?_) partition.nrFreeBlocks_eq partition.nrUsedBlks_eq
    partition.nrDirtBlks_eq
  simp only [FlashChip.ownerCount, Option.toList_some, Option.toList_none, List.count_nil]
  omega

theorem gcToFree (partition : Partition G c chip act (some b)) :
    Partition G c (chip.setFreeBlk b) act none := by
  refine partition.move (fun other => ?_) ?_ partition.nrUsedBlks_eq partition.nrDirtBlks_eq
  · simp only [FlashChip.ownerCount, FlashChip.setFreeBlk, Option.toList_some,
      Option.toList_none, List.count_nil, List.count_append]
    omega
  · simp [FlashChip.setFreeBlk, partition.nrFreeBlocks_eq]

theorem dirtToGc (partition : Partition G c chip act none) (mem : b ∈ chip.dirtBlks) :
    Partition G c (chip.resetDirtBlk b) act (some b) := by
  refine partition.move (fun other => ?_) partition.nrFreeBlocks_eq partition.nrUsedBlks_eq ?_
  · have := count_erase_add other mem
    simp only [FlashChip.ownerCount, FlashChip.resetDirtBlk, Option.toList_some,
      Option.toList_none, List.count_nil]
    omega
  · change dec32 chip.nrDirtBlks = _
    rw [partition.nrDirtBlks_eq, dec32_length_erase mem]
    rfl

end Partition

end FlashBench
