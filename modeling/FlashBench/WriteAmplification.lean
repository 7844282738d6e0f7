import Mathlib
import FlashBench.Library.LogCleaning
import FlashBench.WriteSupply

/-!
# How much garbage collection writes

The greedy choice takes the used block with the most INVALID sub-pages, so the victim of
a chip holds no more VALID ones than its used blocks do on average. When no chip has a
page left, all blocks of a chip but its GC block are used or dirt, and the VALID sub-pages
of the device are no more than the LPAs that the host has in use. That bounds the copies
of each collection, whatever the host has written and in whichever order.
-/

namespace FlashBench

open LogCleaning

/-- The pages that a collection makes available when no chip has a page left. -/
def Geometry.openedPages (G : Geometry) : ℕ := G.numChips * G.numPagesPerBlock

/-- The VALID sub-pages of the victims when so many LPAs are mapped and spread evenly. -/
def Geometry.evenLoad (G : Geometry) (inUse : ℕ) : ℕ := inUse / (G.numBlocksPerChip - 1)

/-- The pages that such a load fills. -/
def Geometry.copyMax (G : Geometry) (inUse : ℕ) : ℕ :=
  (G.evenLoad inUse + (nrLpInPp - 1)) / nrLpInPp

/-- All chips of the device. -/
def Geometry.chips (G : Geometry) : Finset ChipId := G.chipsByBus.toFinset

theorem Geometry.mem_chips {G : Geometry} {c : ChipId} : c ∈ G.chips ↔ G.HasChip c := by
  rw [Geometry.chips, List.mem_toFinset, G.mem_chipsByBus]

theorem Geometry.card_chips (G : Geometry) : G.chips.card = G.numChips := by
  rw [Geometry.chips, List.toFinset_card_of_nodup G.nodup_chipsByBus]
  simp [Geometry.chipsByBus, Geometry.numChips]

/-- The INVALID sub-pages of a victim. -/
def Fb.invalidOf (fb : Fb) : Option BlockId → ℕ
  | none => 0
  | some b => (fb.ssdi.blocks b).nrInvalidLogPages

/-- The VALID sub-pages of the used blocks of a chip. -/
def Fb.usedValid (fb : Fb) (c : ChipId) : ℕ :=
  ∑ b ∈ (fb.ssdi.chips c).usedBlks.toFinset, (fb.ssdi.blocks b).nrValidLogPages

/-! ### The greedy choice -/

section Greedy

variable {G : Geometry} {fb : Fb} {b : BlockId} {c : ChipId}

theorem le_invalidOf_mostInvalidBlk (fb : Fb) (blks : List BlockId) (best : Option BlockId) :
    fb.invalidOf best ≤ fb.invalidOf (fb.mostInvalidBlk blks best (fb.invalidOf best)) ∧
      ∀ b ∈ blks, (fb.ssdi.blocks b).nrInvalidLogPages ≤
        fb.invalidOf (fb.mostInvalidBlk blks best (fb.invalidOf best)) := by
  induction blks generalizing best with
  | nil => simp [Fb.mostInvalidBlk]
  | cons blki rest ih =>
      simp only [Fb.mostInvalidBlk, List.forall_mem_cons]
      split_ifs with more
      · rcases ih (some blki) with ⟨start, others⟩
        simp only [Fb.invalidOf] at start others ⊢
        exact ⟨more.le.trans start, start, others⟩
      · rcases ih best with ⟨start, others⟩
        exact ⟨start, (Nat.le_of_not_lt more).trans start, others⟩

/-- Every sub-page of a full block is VALID or INVALID. -/
theorem BlockOk.valid_add_invalid {block : FlashBlock} {pages : ℕ → FlashPage}
    (ok : BlockOk G 0 block pages) (full : block.nrFreePages = 0) :
    block.nrValidLogPages + block.nrInvalidLogPages = (subPages G).card := by
  rw [ok.nrValidLogPages_eq, ok.nrInvalidLogPages_eq]
  refine labelCount_add_eq_card _ _ (by simp) fun ⟨pg, lp⟩ mem => ?_
  have pg_lt := mem_subPages.mp mem
  have notFree : (pages pg).pageStatus lp ≠ .free := ok.status_ne_free (by omega)
  unfold statusAt
  cases status : (pages pg).pageStatus lp with
  | free => exact absurd status notFree
  | valid => exact Or.inl rfl
  | invalid => exact Or.inr rfl

/-- No used block of the chip holds fewer VALID sub-pages than the victim of the greedy choice. -/
theorem greedySize_le (inv : Inv G .rest fb) (hasChip : G.HasChip c)
    (used : b ∈ (fb.ssdi.chips c).usedBlks) :
    fb.greedySize c ≤ (fb.ssdi.blocks b).nrValidLogPages := by
  have sizes (block : BlockId) (mem : block ∈ (fb.ssdi.chips c).usedBlks) :
      (fb.ssdi.blocks block).nrValidLogPages + (fb.ssdi.blocks block).nrInvalidLogPages =
        (subPages G).card := by
    have hasBlock := (inv.hasBlock_of_mem hasChip .used mem).2
    exact (inv.blockOk block hasBlock).valid_add_invalid
      ((inv.chipOk c hasChip).placeOk .used block mem)
  unfold Fb.greedySize Fb.selectVicBlkGreedy
  rcases head : fb.getDirtBlock c with _ | dirt
  · have most := (le_invalidOf_mostInvalidBlk fb (fb.ssdi.chips c).usedBlks none).2 b used
    simp only
    rcases found : fb.mostInvalidBlk (fb.ssdi.chips c).usedBlks none 0 with _ | victim
    · exact Nat.zero_le _
    · have victimUsed : victim ∈ (fb.ssdi.chips c).usedBlks := by
        simpa using mem_of_mostInvalidBlk found
      rw [Fb.invalidOf, found, Fb.invalidOf] at most
      have own := sizes b used
      have others := sizes victim victimUsed
      simp only
      omega
  · have isDirt := (inv.chipOk c hasChip).placeOk .dirt dirt (mem_of_head?_eq head)
    simp only [isDirt.2]
    exact Nat.zero_le _

theorem length_mul_greedySize_le (inv : Inv G .rest fb) (hasChip : G.HasChip c) :
    (fb.ssdi.chips c).usedBlks.length * fb.greedySize c ≤ fb.usedValid c := by
  have nodup : (fb.ssdi.chips c).usedBlks.Nodup := (inv.chipOk c hasChip).partition.nodup .used
  rw [← List.toFinset_card_of_nodup nodup]
  refine Finset.card_nsmul_le_sum _ _ _ fun b used => ?_
  exact greedySize_le inv hasChip (List.mem_toFinset.mp used)

/-- The greedy choice has a victim as long as a used block of the chip holds an INVALID sub-page. -/
theorem nothingInvalid_of_noVictim (noVictim : fb.selectVicBlkGreedy c = none) :
    (fb.ssdi.chips c).dirtBlks = [] ∧
      ∀ b ∈ (fb.ssdi.chips c).usedBlks, (fb.ssdi.blocks b).nrInvalidLogPages = 0 := by
  unfold Fb.selectVicBlkGreedy Fb.getDirtBlock at noVictim
  rcases dirt : (fb.ssdi.chips c).dirtBlks with _ | ⟨b, rest⟩
  · simp only [dirt, List.head?_nil] at noVictim
    refine ⟨rfl, fun b used => ?_⟩
    have most := (le_invalidOf_mostInvalidBlk fb (fb.ssdi.chips c).usedBlks none).2 b used
    rw [Fb.invalidOf, noVictim, Fb.invalidOf] at most
    exact Nat.le_zero.mp most
  · simp [dirt] at noVictim

/-- On a chip without a page left all blocks but the GC block are used or dirt, and with a dirt
block the victim is empty. -/
theorem Supplied.greedySize_le_average (supplied : Supplied G fb) (inv : Inv G .rest fb)
    (life : Life G fb) (hasChip : G.HasChip c) (empty : fb.pagesLeft G c = 0) :
    (G.numBlocksPerChip - 1) * fb.greedySize c ≤ fb.usedValid c := by
  have noActive : fb.abm.actBlks c = none := by
    have := mt (life.pagesLeft_pos_iff inv hasChip).mpr (by omega)
    simpa using this
  rcases Option.isSome_iff_exists.mp (supplied c hasChip) with ⟨gcBlk, reserved⟩
  have total := (inv.chipOk c hasChip).partition.length_eq
  rw [noActive, reserved] at total
  simp only [Option.toList_none, Option.toList_some, List.length_nil, List.length_singleton]
    at total
  have noFree : (fb.ssdi.chips c).freeBlks.length = 0 := by
    rw [pagesLeft_of_idle noActive] at empty
    have := G.numPagesPerBlock_pos
    rcases Nat.mul_eq_zero.mp empty with zero | zero
    · omega
    · exact zero
  rcases dirt : (fb.ssdi.chips c).dirtBlks with _ | ⟨b, rest⟩
  · rw [dirt, List.length_nil] at total
    have count : (fb.ssdi.chips c).usedBlks.length = G.numBlocksPerChip - 1 := by omega
    rw [← count]
    exact length_mul_greedySize_le inv hasChip
  · have isDirt := (inv.chipOk c hasChip).placeOk .dirt b
      (by simp [FlashChip.holds, dirt])
    have none_ : fb.greedySize c = 0 := by
      simp [Fb.greedySize, Fb.selectVicBlkGreedy, Fb.getDirtBlock, dirt, isDirt.2]
    rw [none_, Nat.mul_zero]
    exact Nat.zero_le _

end Greedy

/-! ### The load of a collection -/

section Load

variable {G : Geometry} {fb : Fb} {lpas : Finset ℕ}

/-- No other LPA is mapped. -/
def MapsOnly (G : Geometry) (lpas : Finset ℕ) (fb : Fb) : Prop :=
  ∀ lpa, fb.flashData G lpa ≠ none → lpa ∈ lpas

/-- Each VALID sub-page is that of a mapped LPA. -/
theorem sum_nrValidLogPages_le (inv : Inv G .rest fb) (maps : MapsOnly G lpas fb)
    {blocks : Finset BlockId} (exist : ∀ b ∈ blocks, G.HasBlock b) :
    ∑ b ∈ blocks, (fb.ssdi.blocks b).nrValidLogPages ≤ lpas.card := by
  have count (b : BlockId) (mem : b ∈ blocks) : (fb.ssdi.blocks b).nrValidLogPages =
      ((subPages G).filter fun at_ => statusAt (fb.ssdi.pages b) at_ = .valid).card :=
    (inv.blockOk b (exist b mem)).nrValidLogPages_eq
  rw [Finset.sum_congr rfl count, ← Finset.card_sigma]
  have entry (at_ : (_ : BlockId) × (ℕ × Slot)) (mem : at_ ∈ blocks.sigma fun b =>
      (subPages G).filter fun at_ => statusAt (fb.ssdi.pages b) at_ = .valid) :
      p2l G fb.ssdi.pages ⟨at_.1, at_.2.1, at_.2.2⟩ =
        some ((fb.ssdi.pages at_.1 at_.2.1).noLogicalPageAddr at_.2.2) := by
    simp only [Finset.mem_sigma, Finset.mem_filter] at mem
    exact p2l_eq_some.mpr ⟨⟨exist _ mem.1, mem_subPages.mp mem.2.1⟩, mem.2.2, rfl⟩
  refine Finset.card_le_card_of_injOn
    (fun at_ => (fb.ssdi.pages at_.1 at_.2.1).noLogicalPageAddr at_.2.2) (fun at_ mem => ?_)
    fun left leftMem right rightMem same => ?_
  · have mapped := (inv.mapOk.inverse _ _).mpr (entry at_ mem)
    apply maps
    simp [Fb.flashData, mapped]
  · have locations := inv.mapOk.inverse.backward_injective
      ((entry left leftMem).trans (congrArg some same)) (entry right rightMem)
    rcases left with ⟨block, pg, lp⟩
    rcases right with ⟨block', pg', lp'⟩
    simp only [Location.mk.injEq] at locations
    rcases locations with ⟨rfl, rfl, rfl⟩
    rfl

theorem sum_usedValid_le (inv : Inv G .rest fb) (maps : MapsOnly G lpas fb) :
    ∑ c ∈ G.chips, fb.usedValid c ≤ lpas.card := by
  have onChip (c : ChipId) (mem : c ∈ G.chips) (b : BlockId)
      (used : b ∈ (fb.ssdi.chips c).usedBlks.toFinset) : b.chip = c ∧ G.HasBlock b :=
    inv.hasBlock_of_mem (Geometry.mem_chips.mp mem) .used (List.mem_toFinset.mp used)
  have disjoint : Set.PairwiseDisjoint (↑G.chips)
      fun c => (fb.ssdi.chips c).usedBlks.toFinset := by
    intro c mem c' mem' different
    refine Finset.disjoint_left.mpr fun b used used' => different ?_
    exact (onChip c mem b used).1.symm.trans (onChip c' mem' b used').1
  unfold Fb.usedValid
  rw [← Finset.sum_biUnion disjoint]
  refine sum_nrValidLogPages_le inv maps fun b mem => ?_
  rcases Finset.mem_biUnion.mp mem with ⟨c, mem, used⟩
  exact (onChip c mem b used).2

/-- A collection that comes when no chip has a page left copies at most the even load. -/
theorem Supplied.fgcLoad_le (supplied : Supplied G fb) (inv : Inv G .rest fb) (life : Life G fb)
    (maps : MapsOnly G lpas fb) (exhausted : Exhausted G fb) :
    (G.numBlocksPerChip - 1) * fb.fgcLoad G ≤ lpas.card := by
  calc (G.numBlocksPerChip - 1) * fb.fgcLoad G
      = ∑ c ∈ G.chips, (G.numBlocksPerChip - 1) * fb.greedySize c := by
        rw [Fb.fgcLoad, ← List.sum_toFinset _ G.nodup_chipsByBus, Finset.mul_sum]
        rfl
    _ ≤ ∑ c ∈ G.chips, fb.usedValid c := by
        refine Finset.sum_le_sum fun c mem => ?_
        have hasChip := Geometry.mem_chips.mp mem
        exact supplied.greedySize_le_average inv life hasChip (exhausted c hasChip)
    _ ≤ lpas.card := sum_usedValid_le inv maps

end Load

/-! ### The device as a log -/

section Log

variable {G : Geometry} {garbage : Garbage} {fb other : Fb} {written : ℕ} {use : LogUse}
  {keys : Finset ℕ} {lpas : Slot → ℕ} {src : Slot → PageData}

/-- The runs of host writes and invalidations that return 0, for a host that has some entries of
the L2P table in use, with the number of host writes. -/
inductive WrittenRun (G : Geometry) (garbage : Garbage) (keys : Finset ℕ) : ℕ → Fb → Prop where
  | create {fb : Fb} (created : Fb.create G garbage = some fb) : WrittenRun G garbage keys 0 fb
  | write {written : ℕ} {fb : Fb} (run : WrittenRun G garbage keys written fb) {lpas : Slot → ℕ}
      (inUse : ∀ lp, lpas lp ∈ keys) (inRange : ∀ lp, lpas lp < G.numLogPages)
      (src : Slot → PageData) (ok : (fb.makeWriteRequest G lpas src).1 = .ok) :
      WrittenRun G garbage keys (written + 1) (fb.makeWriteRequest G lpas src).2
  | invalidate {written : ℕ} {fb : Fb} (run : WrittenRun G garbage keys written fb)
      {reqLpas : List ℕ} (inRange : ∀ lpa ∈ reqLpas, lpa < G.numLogPages) :
      WrittenRun G garbage keys written (fb.delInvalidatePgs G reqLpas)

theorem WrittenRun.run (run : WrittenRun G garbage keys written fb) :
    Run G garbage (HostOk G) fb := by
  induction run with
  | create created => exact .create created
  | write _ _ inRange src ok before =>
      exact before.exec (.write _ src) inRange ⟨by simp, by simp, ok⟩
  | invalidate _ inRange before =>
      exact before.exec (.invalidate _) inRange ⟨by simp, by simp, rfl⟩

/-- Nothing but what the host has in use is ever mapped. -/
theorem WrittenRun.mapsOnly (run : WrittenRun G garbage keys written fb) : MapsOnly G keys fb := by
  induction run with
  | create created =>
      intro lpa mapped
      simp [Fb.flashData, l2p, (Created.of_create created).mappings] at mapped
  | @write _ _ run lpas inUse inRange src ok before =>
      intro lpa mapped
      have lpasOk (lp : Slot) : LpaOk G (lpas lp) := Or.inr (inRange lp)
      rw [(writeOutcome_makeWriteRequest src run.run.reachable.inv lpasOk).flashData_eq,
        if_pos ok] at mapped
      by_contra notInUse
      refine mapped ?_
      rw [Store.write_of_not_mem]
      · by_contra present
        exact notInUse (before lpa present)
      · intro pair mem same
        rcases mem_pagePairs.mp mem with ⟨lp, _, _, rfl⟩
        exact notInUse (same ▸ inUse lp)
  | invalidate _ inRange before =>
      intro lpa mapped
      rw [flashData_delInvalidatePgs _ inRange, Store.discard_apply] at mapped
      split_ifs at mapped
      · exact absurd rfl mapped
      · exact before lpa mapped

/-- The pages left on all chips. -/
def Fb.totalLeft (G : Geometry) (fb : Fb) : ℕ := ∑ c ∈ G.chips, fb.pagesLeft G c

/-- The state of the device as a log: host writes, and all other programs as copies. -/
structure LogView (G : Geometry) (written : ℕ) (fb : Fb) (use : LogUse) : Prop where
  left : use.left = fb.totalLeft G
  written : use.written = written
  programmed : use.programmed = fb.programs.length

theorem Fb.totalLeft_of_created (created : Fb.create G garbage = some fb) :
    fb.totalLeft G = G.numChips * (G.numPagesPerBlock * (G.numBlocksPerChip - 1)) := by
  have each (c : ChipId) (mem : c ∈ G.chips) :
      fb.pagesLeft G c = G.numPagesPerBlock * (G.numBlocksPerChip - 1) :=
    pagesLeft_of_created created (Geometry.mem_chips.mp mem)
  rw [Fb.totalLeft, Finset.sum_congr rfl each, Finset.sum_const, nsmul_eq_mul, Nat.cast_id,
    G.card_chips]

/-- A host write with a page left is a write of the log. -/
theorem LogView.writesPage (view : LogView G written fb use) (inv : Inv G .rest fb)
    {result : Ret × Fb} (writes : WritesPage G fb lpas src result)
    (inRange : ∀ lp, lpas lp < G.numLogPages) :
    ∃ next, LogStep G.openedPages (G.copyMax keys.card) use next ∧
      LogView G (written + 1) result.2 next := by
  rcases writes with ⟨blk, active, rfl⟩
  have hasChip := hasChip_getNextBusChip inv.mruOk
  have open_ := inv.active_nrFreePages_pos hasChip active (by simp)
  have room : 0 < fb.pagesLeft G (fb.getNextBusChip G) := by
    rw [pagesLeft_of_active active]
    omega
  have lpasOk (lp : Slot) : LpaOk G (lpas lp) := Or.inr (inRange lp)
  have taken : fb.totalLeft G = (fb.programPage G (fb.getNextBusChip G) blk
      (G.numPagesPerBlock - (fb.ssdi.blocks ⟨fb.getNextBusChip G, blk⟩).nrFreePages) lpas
      src).totalLeft G + 1 := by
    have ones : ∑ c ∈ G.chips, (if c = fb.getNextBusChip G then 1 else 0) = 1 := by
      rw [Finset.sum_ite_eq', if_pos (Geometry.mem_chips.mpr hasChip)]
    unfold Fb.totalLeft
    rw [← ones, ← Finset.sum_add_distrib]
    refine Finset.sum_congr rfl fun c mem => ?_
    rw [programPage_pagesLeft inv hasChip active rfl lpasOk src (Geometry.mem_chips.mp mem)]
    split_ifs with same
    · subst c
      omega
    · rfl
  have programs := (programPage_progress G fb (fb.getNextBusChip G) blk
    (G.numPagesPerBlock - (fb.ssdi.blocks ⟨fb.getNextBusChip G, blk⟩).nrFreePages) lpas src).1
  have programmed := view.programmed
  rcases use with ⟨left, _, copied⟩
  obtain rfl := view.written
  obtain rfl := view.left.trans taken
  refine ⟨_, .write _ _ _, rfl, rfl, ?_⟩
  rw [programs, List.length_append, List.length_singleton, ← programmed]
  simp only [LogUse.programmed]
  omega

/-- A collection of a device without a page left is a cleaning of the log. -/
theorem FgcReadDone.cleans {read : Fb} (done : FgcReadDone G fb read)
    (supplied : Supplied G fb) (inv : Inv G .rest fb) (life : Life G fb) (maps : MapsOnly G keys fb)
    (exhausted : Exhausted G fb) (blocks : 0 < G.numBlocksPerChip - 1)
    (view : LogView G written fb use) (ok : (fb.triggerGcPageMapping G).1 = .ok) :
    ∃ next, LogStep G.openedPages (G.copyMax keys.card) use next ∧
      LogView G written (fb.triggerGcPageMapping G).2 next := by
  rcases done.collected ok with ⟨pagesLeft, programs, _⟩
  have turns : ∑ c ∈ G.chips,
      (G.chipsAfter fb.getPrevBusChip read.nrPgsToProg).count c =
        (G.chipsAfter fb.getPrevBusChip read.nrPgsToProg).length := by
    simp only [← Multiset.coe_count, ← Multiset.coe_card]
    exact Multiset.sum_count_eq_card fun c mem =>
      Geometry.mem_chips.mpr (G.hasChip_of_mem_chipsAfter inv.mruOk mem)
  have length : (G.chipsAfter fb.getPrevBusChip read.nrPgsToProg).length = read.nrPgsToProg :=
    List.length_iterate _ _ _
  rw [length] at turns
  have opened : (fb.triggerGcPageMapping G).2.totalLeft G + read.nrPgsToProg = G.openedPages := by
    rw [Fb.totalLeft, ← turns, ← Finset.sum_add_distrib,
      Finset.sum_congr rfl fun c mem => pagesLeft c (Geometry.mem_chips.mp mem)]
    simp [G.card_chips, Geometry.openedPages]
  have few : read.nrPgsToProg ≤ G.copyMax keys.card := by
    refine Nat.div_le_div_right (Nat.add_le_add_right ?_ _)
    rw [done.nrPgsToCopy, Geometry.evenLoad, Nat.le_div_iff_mul_le blocks, Nat.mul_comm]
    exact supplied.fgcLoad_le inv life maps exhausted
  have none_ : fb.totalLeft G = 0 :=
    Finset.sum_eq_zero fun c mem => exhausted c (Geometry.mem_chips.mp mem)
  have programmed := view.programmed
  rcases use with ⟨left, _, copied⟩
  obtain rfl := view.written
  obtain rfl := view.left.trans none_
  refine ⟨_, .clean _ _ few opened, rfl, rfl, ?_⟩
  rw [programs, List.length_append, ← programmed, length]
  simp only [LogUse.programmed]
  omega

theorem numBlocksPerChip_of_created (created : Fb.create G garbage = some fb) :
    2 ≤ G.numBlocksPerChip := by
  have start := Created.of_create created
  have hasChip := hasChip_getNextBusChip start.inv.mruOk
  rcases Option.isSome_iff_exists.mp (start.active _ hasChip) with ⟨b, active⟩
  rcases Option.isSome_iff_exists.mp (start.reserved _ hasChip) with ⟨gcBlk, reserved⟩
  have total := start.length_freeBlks hasChip
  rw [active, reserved] at total
  simp only [Option.toList_some, List.length_singleton] at total
  omega

/-- Invalidations are no event of the log. -/
theorem LogView.delInvalidatePgs (view : LogView G written fb use) (reqLpas : List ℕ) :
    LogView G written (fb.delInvalidatePgs G reqLpas) use :=
  foldl_preserves (fun other => LogView G written other use)
    (fun lpa _ other kept =>
      { left := kept.left.trans
          (Finset.sum_congr rfl fun c _ => (invalidateLpg_pagesLeft other lpa c).symm)
        written := kept.written
        programmed := by
          rw [kept.programmed, (SameProgress.invalidateLpg G other lpa).programs] }) view

/-- Every run of host writes is a run of a log that a collection cleans. -/
theorem WrittenRun.logSteps (run : WrittenRun G garbage keys written fb) :
    2 ≤ G.numBlocksPerChip ∧ ∃ use, LogSteps G.openedPages (G.copyMax keys.card)
      ⟨G.numChips * (G.numPagesPerBlock * (G.numBlocksPerChip - 1)), 0, 0⟩ use ∧
        LogView G written fb use := by
  induction run with
  | create created =>
      refine ⟨numBlocksPerChip_of_created created, _, .refl, ?_, rfl, ?_⟩
      · exact (Fb.totalLeft_of_created created).symm
      · rw [programs_of_create created]
        rfl
  | @write written fb earlier lpas inUse inRange src ok before =>
      rcases before with ⟨blocks, use, steps, view⟩
      have run := earlier.run
      have inv := run.reachable.inv
      have supplied := run.supplied_of_hostOk
      have life := run.life_of_hostOk
      refine ⟨blocks, ?_⟩
      rcases supplied.makeWriteRequest_cases inv life run.striped_of_hostOk run.level lpas src with
        ⟨_, writes⟩ | ⟨exhausted, collects, collected, _, writes⟩ | ⟨_, _, failed⟩
      · rcases view.writesPage inv writes inRange with ⟨next, step, after⟩
        exact ⟨next, steps.tail step, after⟩
      · rcases supplied.fgcRead inv life exhausted with ⟨⟨c, hasChip, lacks⟩, _⟩ | ⟨_, read, done⟩
        · have some_ := collects.victim c hasChip
          rw [lacks] at some_
          simp at some_
        · rcases done.cleans supplied inv life earlier.mapsOnly exhausted (by omega) view
            collected with ⟨cleaned, cleans, between⟩
          rcases between.writesPage inv.triggerGcPageMapping writes inRange with
            ⟨next, step, after⟩
          exact ⟨next, (steps.tail cleans).tail step, after⟩
      · rw [ok] at failed
        simp at failed
  | invalidate _ _ before =>
      rcases before with ⟨blocks, use, steps, view⟩
      exact ⟨blocks, use, steps, view.delInvalidatePgs _⟩

/-- No block of the chip that has been filled holds an INVALID sub-page. -/
structure NothingToCollect (G : Geometry) (fb : Fb) (c : ChipId) : Prop where
  hasChip : G.HasChip c
  dirtBlks : (fb.ssdi.chips c).dirtBlks = []
  nrInvalidLogPages : ∀ b ∈ (fb.ssdi.chips c).usedBlks, (fb.ssdi.blocks b).nrInvalidLogPages = 0

/-- What garbage collection costs in a run with some number of host writes, when the host has so
many LPAs in use. -/
structure CostBounded (G : Geometry) (inUse written : ℕ) (fb : Fb) : Prop where
  /-- A collection that the next host write triggers copies at most the even load. -/
  load : Exhausted G fb → fb.fgcLoad G ≤ G.evenLoad inUse
  /-- Of the pages that a collection opens, all but `copyMax` are for the host. -/
  programs : (G.openedPages - G.copyMax inUse) * fb.programs.length ≤ G.openedPages * written
  /-- If that is any page, only a chip without a victim makes a host write fail. -/
  fails : G.copyMax inUse < G.openedPages → ∀ (lpas : Slot → ℕ) (src : Slot → PageData),
    (fb.makeWriteRequest G lpas src).1 ≠ .ok → Exhausted G fb ∧ ∃ c, NothingToCollect G fb c

/-- In every run of host writes and invalidations that succeed, the pages programmed are at most
`openedPages / (openedPages - copyMax)` times those that the host writes, where `copyMax` depends
on the number of LPAs in use and has to be less than `openedPages`. -/
theorem writeAmplification_bounded (run : WrittenRun G garbage keys written fb) :
    CostBounded G keys.card written fb := by
  rcases run.logSteps with ⟨blocks, use, steps, view⟩
  have inv := run.run.reachable.inv
  have supplied := run.run.supplied_of_hostOk
  have life := run.run.life_of_hostOk
  have load (exhausted : Exhausted G fb) : fb.fgcLoad G ≤ G.evenLoad keys.card := by
    rw [Geometry.evenLoad, Nat.le_div_iff_mul_le (by omega), Nat.mul_comm]
    exact supplied.fgcLoad_le inv life run.mapsOnly exhausted
  constructor
  · exact load
  · have enough : G.openedPages ≤ G.numChips * (G.numPagesPerBlock * (G.numBlocksPerChip - 1)) :=
      Nat.mul_le_mul_left _ (Nat.le_mul_of_pos_right _ (by omega))
    have bound := programmed_le_of_steps enough steps
    rwa [view.programmed, view.written] at bound
  · intro leaves lpas src notOk
    rcases supplied.makeWriteRequest_cases inv life run.run.striped_of_hostOk run.run.level lpas
      src with ⟨_, _, _, writes⟩ | ⟨_, _, _, _, _, _, writes⟩ | ⟨exhausted, stuck, _⟩
    · exact absurd (congrArg Prod.fst writes) notOk
    · exact absurd (congrArg Prod.fst writes) notOk
    · refine ⟨exhausted, ?_⟩
      by_contra collectable
      have room : fb.fgcLoad G + nrLpInPp ≤ nrLpInPp * (G.numChips * G.numPagesPerBlock) := by
        have few := load exhausted
        simp only [Geometry.copyMax, Geometry.openedPages, nrLpInPp] at leaves ⊢
        omega
      refine stuck ⟨fun c hasChip => ?_, room⟩
      by_contra noVictim
      rw [Option.not_isSome_iff_eq_none] at noVictim
      rcases nothingInvalid_of_noVictim noVictim with ⟨dirtBlks, noInvalid⟩
      exact collectable ⟨c, hasChip, dirtBlks, noInvalid⟩

/-- As configured, a collection leaves 36 of 384 pages for a host that has all LPAs in use. -/
example : Geometry.configured.openedPages = 384 ∧
    Geometry.configured.copyMax Geometry.configured.numLogPages = 348 := by decide

/-- Some host writes of the same data; `none` when one of them fails. -/
def Fb.writeAll (G : Geometry) (src : Slot → PageData) (fb : Fb) : List (Slot → ℕ) → Option Fb
  | [] => some fb
  | lpas :: rest =>
      match fb.makeWriteRequest G lpas src with
      | (.ok, fb) => fb.writeAll G src rest
      | _ => none

theorem WrittenRun.writeAll (run : WrittenRun G garbage keys written fb)
    (requests : List (Slot → ℕ))
    (inUse : ∀ lpas ∈ requests, ∀ lp, lpas lp ∈ keys ∧ lpas lp < G.numLogPages)
    (done : fb.writeAll G src requests = some other) :
    WrittenRun G garbage keys (written + requests.length) other := by
  induction requests generalizing fb written with
  | nil =>
      simp only [Fb.writeAll, Option.some.injEq] at done
      exact done ▸ run
  | cons lpas rest ih =>
      have first := inUse lpas (by simp)
      have next := run.write (fun lp => (first lp).1) (fun lp => (first lp).2) src
      unfold Fb.writeAll at done
      rcases result : fb.makeWriteRequest G lpas src with ⟨_ | _ | _, after⟩ <;>
        simp only [result, reduceCtorEq] at done
      rw [result] at next
      have all := ih (next rfl) (fun other mem => inUse other (by simp [mem])) done
      rwa [Nat.add_assoc, Nat.add_comm 1] at all

/-- The host has LPAs 0 to 8 in use, and its fifth write comes when no page is left. -/
def rewrites : List (Slot → ℕ) :=
  [![0, 1, 2, 3], ![4, 5, 6, 7], ![0, 1, 2, 8], ![4, 5, 6, 0], ![1, 2, 3, 4]]

theorem rewrites_written :
    (threeBlocksFb.writeAll .threeBlocks (fun _ => filledPage 0) rewrites).isSome := by
  decide +kernel

/-- The device with three blocks on each chip after these writes. -/
@[irreducible]
def rewrittenFb : Fb :=
  (threeBlocksFb.writeAll .threeBlocks (fun _ => filledPage 0) rewrites).get rewrites_written

/-- With nine LPAs in use a collection copies one page of two at most: six programs for five
host writes. -/
theorem writeAmplification_bounded_rewrittenFb :
    Geometry.threeBlocks.copyMax 9 < Geometry.threeBlocks.openedPages ∧
    rewrittenFb.programs.length = 6 ∧ CostBounded .threeBlocks 9 5 rewrittenFb := by
  have run : WrittenRun .threeBlocks .zeroed (Finset.range 9) 5 rewrittenFb := by
    apply (WrittenRun.create threeBlocksFb_created).writeAll rewrites
    · decide
    · unfold rewrittenFb
      exact (Option.some_get _).symm
  have bounded := writeAmplification_bounded run
  rw [Finset.card_range] at bounded
  exact ⟨by decide, by decide +kernel, bounded⟩

end Log

end FlashBench
