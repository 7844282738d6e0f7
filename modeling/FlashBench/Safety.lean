import FlashBench.Reachable

/-!
# Safety of the flash translation layer

What the invariant says about every state of every run: the L2P table and the
reverse map are inverse to each other, every block has exactly one owner, and
the flash commands follow the rules of NAND memory.
-/

namespace FlashBench

open PgStatus

/-! ### The two maps -/

/-- The L2P table and the reverse map of the pages are inverse to each other. -/
structure TablesInverse (G : Geometry) (fb : Fb) : Prop where
  /-- A mapped LPA decodes to an existing VALID sub-page that carries it. -/
  of_mapped : ∀ lpa < G.numLogPages, fb.mappings lpa ≠ pageUnmapped →
    G.HasLocation (locate (fb.mappings lpa)) ∧
      (fb.ssdi.pages (locate (fb.mappings lpa)).block
        (locate (fb.mappings lpa)).page).pageStatus (locate (fb.mappings lpa)).slot = valid ∧
      (fb.ssdi.pages (locate (fb.mappings lpa)).block
        (locate (fb.mappings lpa)).page).noLogicalPageAddr (locate (fb.mappings lpa)).slot = lpa
  /-- A VALID sub-page carries an LPA of the table that is mapped to its address. -/
  of_valid : ∀ l, G.HasLocation l →
    (fb.ssdi.pages l.block l.page).pageStatus l.slot = valid →
      (fb.ssdi.pages l.block l.page).noLogicalPageAddr l.slot < G.numLogPages ∧
        fb.mappings ((fb.ssdi.pages l.block l.page).noLogicalPageAddr l.slot) = physicalAddress l
  /-- No two LPAs share a sub-page. -/
  mappings_injective : ∀ lpa < G.numLogPages, ∀ other < G.numLogPages,
    fb.mappings lpa ≠ pageUnmapped → fb.mappings lpa = fb.mappings other → lpa = other
  /-- No LPA has two VALID copies. -/
  valid_unique : ∀ l other, G.HasLocation l → G.HasLocation other →
    (fb.ssdi.pages l.block l.page).pageStatus l.slot = valid →
      (fb.ssdi.pages other.block other.page).pageStatus other.slot = valid →
        (fb.ssdi.pages l.block l.page).noLogicalPageAddr l.slot =
          (fb.ssdi.pages other.block other.page).noLogicalPageAddr other.slot → l = other

theorem MapOk.tablesInverse {G : Geometry} {fb : Fb} (ok : MapOk G fb.mappings fb.ssdi.pages) :
    TablesInverse G fb where
  of_mapped lpa inside isMapped := by
    rcases ok.mapped inside isMapped with ⟨l, hasLocation, address, _, isValid, carries⟩
    rw [address, locate_physicalAddress hasLocation]
    exact ⟨hasLocation, isValid, carries⟩
  of_valid _ _ isValid := ok.of_valid isValid
  mappings_injective lpa inside other otherInside isMapped same := by
    rcases ok.mapped inside isMapped with ⟨l, _, address, forward, _⟩
    rcases ok.mapped otherInside (same ▸ isMapped) with ⟨l', hasLocation', address', forward', _⟩
    have sameLocation : l = l' := physicalAddress_injective ‹_› hasLocation'
      (by rw [← address, ← address', same])
    exact ok.inverse.forward_injective forward (sameLocation ▸ forward')
  valid_unique l other hasLocation otherLocation isValid otherValid same := by
    refine physicalAddress_injective hasLocation otherLocation ?_
    rw [← (ok.of_valid isValid).2, ← (ok.of_valid otherValid).2, same]

/-- In every state of every run, the L2P table and the reverse map are inverse bijections. -/
theorem tablesInverse_of_reachable {G : Geometry} {garbage : Garbage} {fb : Fb}
    (reachable : Reachable G garbage fb) : TablesInverse G fb :=
  reachable.inv.mapOk.tablesInverse

/-- The tables after a collection: LPA 2 has moved. -/
theorem tablesInverse_collectedFb :
    l2p .threeBlocks collectedFb.mappings 2 = some ⟨⟨⟨0, 0⟩, 1⟩, 0, 0⟩ ∧
    TablesInverse .threeBlocks collectedFb :=
  ⟨by decide +kernel, tablesInverse_of_reachable collectedFb_reachable⟩

/-! ### The owners of the blocks -/

/-- Every block has exactly one owner, and the records of the chips and blocks say which. -/
structure BlocksPartitioned (G : Geometry) (fb : Fb) : Prop where
  /-- A block of a chip is in exactly one place of that chip, exactly once. -/
  one_place : ∀ b, G.HasBlock b → ∃ place,
    ((fb.ssdi.chips b.chip).holds (fb.abm.actBlks b.chip) (fb.gcm.gcBlks b.chip) place).count b = 1 ∧
      ∀ other ≠ place,
        b ∉ (fb.ssdi.chips b.chip).holds (fb.abm.actBlks b.chip) (fb.gcm.gcBlks b.chip) other
  /-- The places of a chip hold blocks of that chip only. -/
  own : ∀ c, G.HasChip c → ∀ place,
    ∀ b ∈ (fb.ssdi.chips c).holds (fb.abm.actBlks c) (fb.gcm.gcBlks c) place,
      b.chip = c ∧ G.HasBlock b
  nrFreeBlocks_eq : ∀ c, G.HasChip c →
    (fb.ssdi.chips c).nrFreeBlocks = (fb.ssdi.chips c).freeBlks.length
  nrUsedBlks_eq : ∀ c, G.HasChip c →
    (fb.ssdi.chips c).nrUsedBlks = (fb.ssdi.chips c).usedBlks.length
  nrDirtBlks_eq : ∀ c, G.HasChip c →
    (fb.ssdi.chips c).nrDirtBlks = (fb.ssdi.chips c).dirtBlks.length
  isActiveBlock_iff : ∀ b, G.HasBlock b →
    ((fb.ssdi.blocks b).isActiveBlock = true ↔ fb.abm.actBlks b.chip = some b)
  isReservedBlock_iff : ∀ b, G.HasBlock b →
    ((fb.ssdi.blocks b).isReservedBlock = true ↔ fb.gcm.gcBlks b.chip = some b)
  /-- Every block removed from a list so far was in that list. -/
  removals : ∀ event ∈ fb.history, ∀ b,
    (event.op = .resetFree b → b ∈ (event.ssdi.chips b.chip).freeBlks) ∧
      (event.op = .resetUsed b → b ∈ (event.ssdi.chips b.chip).usedBlks) ∧
        (event.op = .resetDirt b → b ∈ (event.ssdi.chips b.chip).dirtBlks)

theorem Inv.blocksPartitioned {G : Geometry} {fb : Fb} (inv : Inv G .rest fb) :
    BlocksPartitioned G fb where
  one_place b hasBlock := by
    have partition := (inv.chipOk b.chip hasBlock.1).partition
    rcases partition.exists_place rfl hasBlock.2 with ⟨place, mem⟩
    refine ⟨place, List.count_eq_one_of_mem (partition.nodup place) mem, ?_⟩
    exact fun other different otherMem => different (partition.unique otherMem place mem)
  own c hasChip place b mem := inv.hasBlock_of_mem hasChip place mem
  nrFreeBlocks_eq c hasChip := (inv.chipOk c hasChip).partition.nrFreeBlocks_eq
  nrUsedBlks_eq c hasChip := (inv.chipOk c hasChip).partition.nrUsedBlks_eq
  nrDirtBlks_eq c hasChip := (inv.chipOk c hasChip).partition.nrDirtBlks_eq
  isActiveBlock_iff b hasBlock := (inv.chipOk b.chip hasBlock.1).activeFlag b rfl hasBlock.2
  isReservedBlock_iff b hasBlock := (inv.chipOk b.chip hasBlock.1).reservedFlag b rfl hasBlock.2
  removals event mem b := by
    rcases List.append_of_mem mem with ⟨later, earlier, split⟩
    have ok := inv.historyOk
    rw [split] at ok
    have eventOk := ok.eventOk
    unfold EventOk at eventOk
    refine ⟨fun removed => ?_, fun removed => ?_, fun removed => ?_⟩ <;>
      simpa [removed] using eventOk

/-- In every state of every run, block ownership is a partition. -/
theorem blocksPartitioned_of_reachable {G : Geometry} {garbage : Garbage} {fb : Fb}
    (reachable : Reachable G garbage fb) : BlocksPartitioned G fb :=
  reachable.inv.blocksPartitioned

/-- The owners after a collection: the first block has become the GC block of its chip. -/
theorem blocksPartitioned_collectedFb :
    collectedFb.gcm.gcBlks ⟨0, 0⟩ = some ⟨⟨0, 0⟩, 0⟩ ∧
    BlocksPartitioned .threeBlocks collectedFb :=
  ⟨by decide +kernel, blocksPartitioned_of_reachable collectedFb_reachable⟩

/-! ### The flash commands -/

/-- Every program and erase command given so far followed the rules of NAND memory. `earlier`
are the operations before the command. -/
structure NandDiscipline (G : Geometry) (fb : Fb) : Prop where
  /-- A program command finds all sub-pages FREE, and the pages programmed since the last
  erase of the block are exactly the ones in front of it, in order. -/
  write : ∀ later earlier event b pg, fb.history = later ++ event :: earlier →
    event.op = .write b pg →
      G.HasBlock b ∧ pg < G.numPagesPerBlock ∧
        (∀ lp, (event.ssdi.pages b pg).pageStatus lp = free) ∧
          pg ∉ programmed b earlier ∧ programmed b earlier = pagesBelow pg
  /-- An erase command finds no VALID sub-page and no L2P entry in the block. -/
  erase : ∀ later earlier event b, fb.history = later ++ event :: earlier →
    event.op = .erase b →
      G.HasBlock b ∧
        (∀ pg < G.numPagesPerBlock, ∀ lp, (event.ssdi.pages b pg).pageStatus lp ≠ valid) ∧
          ∀ lpa < G.numLogPages, event.mappings lpa ≠ pageUnmapped →
            (locate (event.mappings lpa)).block ≠ b

theorem not_mem_pagesBelow (pg : ℕ) : pg ∉ pagesBelow pg := by simp [pagesBelow]

theorem HistoryOk.nandDiscipline {G : Geometry} {fb : Fb} (ok : HistoryOk G fb.history) :
    NandDiscipline G fb where
  write later earlier event b pg split isWrite := by
    rw [split] at ok
    have eventOk := ok.eventOk
    simp only [EventOk, isWrite] at eventOk
    rcases eventOk with ⟨hasBlock, pg_lt, inOrder, isFree⟩
    exact ⟨hasBlock, pg_lt, isFree, inOrder ▸ not_mem_pagesBelow pg, inOrder⟩
  erase later earlier event b split isErase := by
    rw [split] at ok
    have eventOk := ok.eventOk
    simp only [EventOk, isErase] at eventOk
    rcases eventOk with ⟨hasBlock, noValid, noMapping⟩
    exact ⟨hasBlock, noValid, fun lpa inside isMapped =>
      noMapping lpa _ (by simp [l2p, inside, isMapped])⟩

/-- In every run, program and erase commands follow the NAND discipline. -/
theorem nandDiscipline_of_reachable {G : Geometry} {garbage : Garbage} {fb : Fb}
    (reachable : Reachable G garbage fb) : NandDiscipline G fb :=
  reachable.inv.historyOk.nandDiscipline

/-- The commands of a run with a collection: a GC block is erased and then programmed. -/
theorem nandDiscipline_collectedFb :
    .erase ⟨⟨0, 0⟩, 1⟩ ∈ collectedFb.history.map Event.op ∧
    .write ⟨⟨0, 0⟩, 1⟩ 0 ∈ collectedFb.history.map Event.op ∧
    NandDiscipline .threeBlocks collectedFb :=
  ⟨by decide +kernel, by decide +kernel, nandDiscipline_of_reachable collectedFb_reachable⟩

end FlashBench
