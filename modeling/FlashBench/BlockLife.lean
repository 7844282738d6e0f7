import FlashBench.ForegroundGc
import FlashBench.Reachable

/-!
# The life of a block without lost pages

`Life` is what the counters of a block are kept for: every page that dies is
counted, so that a used block whose last page dies leaves the used list, and a chip
without an active block has no free block either. Every operation keeps it as long
as the first sub-page of a programmed page carries an LPA. Garbage collection that
programs a page of padding alone breaks it.
-/

namespace FlashBench

open PgStatus

/-- Dead pages are counted, used blocks are alive, and free blocks do not lie idle. -/
structure Life (G : Geometry) (fb : Fb) : Prop where
  exact_ : ∀ b, G.HasBlock b → BlockExact G (fb.ssdi.blocks b) (fb.ssdi.pages b)
  usedAlive : ∀ c, G.HasChip c → ∀ b ∈ (fb.ssdi.chips c).usedBlks,
    (fb.ssdi.blocks b).nrInvalidPages < G.numPagesPerBlock
  idle : ∀ c, G.HasChip c → fb.abm.actBlks c = none → (fb.ssdi.chips c).freeBlks = []

namespace Life

variable {G : Geometry} {fb other : Fb} {c : ChipId} {b : BlockId} {lpa pg blk : ℕ} {lp : Slot}

theorem congr (life : Life G fb) (ssdi : other.ssdi = fb.ssdi)
    (actBlks : other.abm.actBlks = fb.abm.actBlks) : Life G other where
  exact_ := by rw [ssdi]; exact life.exact_
  usedAlive := by rw [ssdi]; exact life.usedAlive
  idle := by rw [ssdi, actBlks]; exact life.idle

theorem scratchOnly (life : Life G fb) (same : ScratchOnly fb other) : Life G other :=
  life.congr same.ssdi (by rw [same.abm])

theorem move (life : Life G fb) (moves : Moves c fb other)
    (used : ∀ b ∈ (other.ssdi.chips c).usedBlks, b ∈ (fb.ssdi.chips c).usedBlks ∨
      (fb.ssdi.blocks b).nrInvalidPages < G.numPagesPerBlock)
    (idle : other.abm.actBlks c = none → (other.ssdi.chips c).freeBlks = []) : Life G other where
  exact_ b hasBlock := by
    rw [moves.pages]
    exact ((moves.counters b).nrInvalidPages).trans (life.exact_ b hasBlock)
  usedAlive c' hasChip b mem := by
    rw [(moves.counters b).nrInvalidPages]
    by_cases same : c' = c
    · subst c'
      rcases used b mem with before | alive
      · exact life.usedAlive c hasChip b before
      · exact alive
    · rw [(moves.otherChips c' same).1] at mem
      exact life.usedAlive c' hasChip b mem
  idle c' hasChip isIdle := by
    by_cases same : c' = c
    · subst c'
      exact idle isIdle
    · rcases moves.otherChips c' same with ⟨chips, actBlks, _⟩
      rw [actBlks] at isIdle
      rw [chips]
      exact life.idle c' hasChip isIdle

theorem allocNewPage_of_some (life : Life G fb) (hasChip : G.HasChip c)
    (alloc : fb.allocNewPage G c = (some (blk, pg), other)) : other = fb := by
  unfold Fb.allocNewPage Fb.getCurrActiveBlock at alloc
  rcases active : fb.abm.actBlks c with _ | b
  · simp [active, Fb.getFreeBlock, life.idle c hasChip active] at alloc
  · simp only [active, Prod.mk.injEq] at alloc
    exact alloc.2.symm

/-- A used block has a page that is alive. -/
theorem exists_alive (life : Life G fb) (hasChip : G.HasChip c) (hasBlock : G.HasBlock b)
    (used : b ∈ (fb.ssdi.chips c).usedBlks) :
    ∃ pg < G.numPagesPerBlock, ¬(fb.ssdi.pages b pg).Dead := by
  by_contra allDead
  push Not at allDead
  have few := life.usedAlive c hasChip b used
  rw [life.exact_ b hasBlock, nrDeadPages, (labelCount_eq_card_iff _ _ _).mpr] at few
  · simp at few
  · intro pg mem
    simpa using allDead pg (Finset.mem_range.mp mem)

/-- A block without a live sub-page is the GC block or a dirt block of its chip. -/
theorem reclaimed (life : Life G fb) (inv : Inv G .rest fb) (hasBlock : G.HasBlock b)
    (dead : ∀ pg < G.numPagesPerBlock, (fb.ssdi.pages b pg).Dead) :
    fb.gcm.gcBlks b.chip = some b ∨ b ∈ (fb.ssdi.chips b.chip).dirtBlks := by
  have ok := inv.blockOk b hasBlock
  have chipOk := inv.chipOk b.chip hasBlock.1
  have full : (fb.ssdi.blocks b).nrFreePages = 0 := by
    have last := G.numPagesPerBlock_pos
    have before := ok.lt_of_dead (by simp) (by omega) (dead (G.numPagesPerBlock - 1) (by omega))
    omega
  rcases chipOk.partition.exists_place rfl hasBlock.2 with ⟨place, mem⟩
  have placeOk := chipOk.placeOk place b mem
  cases place with
  | free =>
      have last := G.numPagesPerBlock_pos
      simp only [PlaceOk] at placeOk
      omega
  | used =>
      rcases life.exists_alive hasBlock.1 hasBlock mem with ⟨pg, pg_lt, alive⟩
      exact absurd (dead pg pg_lt) alive
  | dirt => exact Or.inr mem
  | active =>
      have open_ := placeOk (by simp)
      omega
  | gc => exact Or.inl (by simpa [FlashChip.holds, eq_comm] using mem)

/-! ### Invalidation -/

theorem moves_reclaimInvalidBlk (fb : Fb) (b : BlockId) :
    Moves b.chip fb (fb.reclaimInvalidBlk b) := by
  rcases slot : fb.gcm.gcBlks b.chip with _ | gcBlk
  · rw [Fb.reclaimInvalidBlk_of_none slot]
    exact (Moves.resetUsedBlk fb b).trans (.setCurrGcBlock_some _ b)
  · rw [Fb.reclaimInvalidBlk_of_some slot]
    exact (Moves.resetUsedBlk fb b).trans (.setDirtBlk _ b)

theorem usedBlks_reclaimInvalidBlk (fb : Fb) (b : BlockId) :
    ((fb.reclaimInvalidBlk b).ssdi.chips b.chip).usedBlks =
      (fb.ssdi.chips b.chip).usedBlks.erase b := by
  rcases slot : fb.gcm.gcBlks b.chip with _ | gcBlk
  · rw [Fb.reclaimInvalidBlk_of_none slot]
    simp [Fb.setCurrGcBlock, Fb.updBlock, SsdInfo.updBlock, Fb.resetUsedBlk, Fb.record, Fb.updChip,
      SsdInfo.updChip, FlashChip.resetUsedBlk]
  · rw [Fb.reclaimInvalidBlk_of_some slot]
    simp [Fb.setDirtBlk, Fb.resetUsedBlk, Fb.record, Fb.updChip, SsdInfo.updChip,
      FlashChip.resetUsedBlk, FlashChip.setDirtBlk]

theorem exact_markInvalid {phase : Phase} {l : Location} (life : Life G fb) (inv : Inv G phase fb)
    (hasLocation : G.HasLocation l)
    (isValid : (fb.ssdi.pages l.block l.page).pageStatus l.slot = valid) (hasBlock : G.HasBlock b) :
    BlockExact G ((fb.markInvalid l).ssdi.blocks b) ((fb.markInvalid l).ssdi.pages b) := by
  have ok := inv.blockOk l.block hasLocation.1
  have dies_eq : decide (((fb.ssdi.pages l.block l.page).afterInvalidate l.slot).nrInvalidLogPages =
      nrLpInPp) = decide ((fb.ssdi.pages l.block l.page).afterInvalidate l.slot).Dead :=
    decide_eq_decide.mpr (ok.pageDies_iff hasLocation.2 isValid)
  by_cases same : b = l.block
  · subst b
    have marked := (life.exact_ l.block hasBlock).invalidate hasLocation.2 isValid dies_eq
    simpa [Fb.markInvalid] using marked
  · simpa [Fb.markInvalid, same] using life.exact_ b hasBlock

/-- A used block that has lost its last page is the one to be reclaimed. -/
theorem usedAlive_markInvalid {l : Location} (life : Life G fb) (hasChip : G.HasChip c)
    (used : b ∈ (fb.ssdi.chips c).usedBlks)
    (kept : b = l.block →
      ¬(((fb.ssdi.pages l.block l.page).afterInvalidate l.slot).nrInvalidLogPages = nrLpInPp ∧
        ((fb.markInvalid l).ssdi.blocks l.block).nrInvalidPages = G.numPagesPerBlock)) :
    ((fb.markInvalid l).ssdi.blocks b).nrInvalidPages < G.numPagesPerBlock := by
  have before := life.usedAlive c hasChip b used
  by_cases same : b = l.block
  · subst b
    have alive := kept rfl
    simp only [Fb.markInvalid, Function.update_self, FlashBlock.afterInvalidate] at alive ⊢
    split_ifs with dies
    · simp only [decide_eq_true_eq] at dies
      rw [if_pos (by simpa using dies)] at alive
      change (fb.ssdi.blocks l.block).nrInvalidPages + 1 < _
      have : (fb.ssdi.blocks l.block).nrInvalidPages + 1 ≠ G.numPagesPerBlock := fun whole =>
        alive ⟨dies, whole⟩
      omega
    · exact before
  · simpa [Fb.markInvalid, same] using before

/-- `invalidate_lpg` takes a block whose last page dies out of the used list. -/
theorem invalidateLpg {phase : Phase} (life : Life G fb) (inv : Inv G phase fb)
    (inside : lpa < G.numLogPages) : Life G (fb.invalidateLpg G lpa).2 := by
  have frame := MappingFrame.invalidateLpg G fb lpa
  have idle : ∀ c, G.HasChip c → (fb.invalidateLpg G lpa).2.abm.actBlks c = none →
      ((fb.invalidateLpg G lpa).2.ssdi.chips c).freeBlks = [] := by
    intro c hasChip isIdle
    rw [frame.abm] at isIdle
    rw [frame.freeBlks]
    exact life.idle c hasChip isIdle
  by_cases isMapped : fb.mappings lpa = pageUnmapped
  · rw [Fb.invalidateLpg_of_unmapped G isMapped]
    exact life
  rcases inv.mapOk.mapped inside isMapped with ⟨l, hasLocation, address, _, isValid, _⟩
  rw [Fb.invalidateLpg_of_mapped G isMapped, address, locate_physicalAddress hasLocation,
    Fb.invalidateSubPage_eq] at idle ⊢
  have marked (b : BlockId) (hasBlock : G.HasBlock b) :=
    life.exact_markInvalid inv hasLocation isValid hasBlock
  split_ifs at idle ⊢ with reclaimed
  · have moves := moves_reclaimInvalidBlk (fb.markInvalid l) l.block
    refine ⟨fun b hasBlock => ?_, fun c hasChip b used => ?_, idle⟩
    · change BlockExact G (((fb.markInvalid l).reclaimInvalidBlk l.block).ssdi.blocks b)
        (((fb.markInvalid l).reclaimInvalidBlk l.block).ssdi.pages b)
      rw [moves.pages]
      exact ((moves.counters b).nrInvalidPages).trans (marked b hasBlock)
    · change (((fb.markInvalid l).reclaimInvalidBlk l.block).ssdi.blocks b).nrInvalidPages < _
      change b ∈ (((fb.markInvalid l).reclaimInvalidBlk l.block).ssdi.chips c).usedBlks at used
      rw [(moves.counters b).nrInvalidPages]
      by_cases same : c = l.block.chip
      · subst c
        have nodup : (fb.ssdi.chips l.block.chip).usedBlks.Nodup :=
          (inv.chipOk l.block.chip hasChip).partition.nodup .used
        rw [usedBlks_reclaimInvalidBlk] at used
        rcases nodup.mem_erase_iff.mp used with ⟨different, before⟩
        exact life.usedAlive_markInvalid hasChip before fun isL => absurd isL different
      · rw [(moves.otherChips c same).1] at used
        refine life.usedAlive_markInvalid hasChip used fun isL => absurd ?_ same
        rw [← isL]
        exact ((inv.hasBlock_of_mem hasChip .used used).1).symm
  · exact ⟨marked, fun c hasChip b used => life.usedAlive_markInvalid hasChip used
      fun _ => reclaimed, idle⟩

theorem delInvalidatePgs (life : Life G fb) (inv : Inv G .rest fb) {reqLpas : List ℕ}
    (inside : ∀ lpa ∈ reqLpas, lpa < G.numLogPages) : Life G (fb.delInvalidatePgs G reqLpas) :=
  (foldl_preserves (fun fb => Inv G .rest fb ∧ Life G fb) (fun lpa mem _ kept =>
    ⟨kept.1.invalidateLpgAtRest (inside lpa mem), kept.2.invalidateLpg kept.1 (inside lpa mem)⟩)
    ⟨inv, life⟩).2

/-! ### Programming a page -/

/-- The page that is being filled has a VALID sub-page. -/
def PageAlive (fb : Fb) (b : BlockId) (pg : ℕ) : Prop :=
  ∃ lp, (fb.ssdi.pages b pg).pageStatus lp = valid

theorem fillSubPage (life : Life G fb) (inv : Inv G (.filling b lp) fb)
    (pg_eq : pg = G.numPagesPerBlock - (fb.ssdi.blocks b).nrFreePages)
    (alive : PageAlive fb b pg ∨ lpa ≠ pageUnmapped) :
    Life G (fb.fillSubPage b pg lp lpa) ∧ PageAlive (fb.fillSubPage b pg lp lpa) b pg := by
  rcases inv.phaseOk b rfl with ⟨hasBlock, active⟩
  have ok := inv.blockOk b hasBlock
  rw [Phase.ofs_filling_self] at ok
  have open_ := inv.active_nrFreePages_pos hasBlock.1 active (by simp)
  have pg_lt : pg < G.numPagesPerBlock := by
    have := ok.nrFreePages_le
    omega
  have isFree : (fb.ssdi.pages b pg).pageStatus lp = free :=
    (ok.status_free pg pg_lt lp).mpr (by omega)
  have aliveAfter : ∃ slot, ((fb.ssdi.pages b pg).afterFill lp lpa).pageStatus slot = valid := by
    rw [FlashPage.afterFill_pageStatus]
    by_cases padding : lpa = pageUnmapped
    · rcases alive with ⟨slot, isValid⟩ | real
      · have different : slot ≠ lp := by
          rintro rfl
          rw [isFree] at isValid
          simp at isValid
        exact ⟨slot, by rw [Function.update_of_ne different]; exact isValid⟩
      · exact absurd padding real
    · exact ⟨lp, by simp [fillStatus, padding]⟩
  have counters : ((fb.ssdi.blocks b).afterFill lpa).nrInvalidPages =
      (fb.ssdi.blocks b).nrInvalidPages := by
    unfold FlashBlock.afterFill
    split_ifs <;> rfl
  refine ⟨⟨fun member hasMember => ?_, fun c hasChip member used => ?_, life.idle⟩, ?_⟩
  · change BlockExact G (Function.update fb.ssdi.blocks b _ member)
      (Function.update fb.ssdi.pages b _ member)
    by_cases same : member = b
    · subst member
      rcases aliveAfter with ⟨slot, isValid⟩
      rw [Function.update_self, Function.update_self, BlockExact, counters,
        nrDeadPages_update_of_alive pg_lt (not_dead_of_status lp (by simp [isFree]))
          (not_dead_of_status slot (by simp [isValid]))]
      exact life.exact_ b hasMember
    · rw [Function.update_of_ne same, Function.update_of_ne same]
      exact life.exact_ member hasMember
  · change (Function.update fb.ssdi.blocks b _ member).nrInvalidPages < _
    by_cases same : member = b
    · subst member
      rw [Function.update_self, counters]
      exact life.usedAlive c hasChip b used
    · rw [Function.update_of_ne same]
      exact life.usedAlive c hasChip member used
  · simpa [PageAlive, Fb.fillSubPage] using aliveAfter

theorem mapLpa (life : Life G fb) (inv : Inv G (.filling b lp) fb)
    (pg_eq : pg = G.numPagesPerBlock - (fb.ssdi.blocks b).nrFreePages) (lpaOk : LpaOk G lpa)
    (alive : PageAlive fb b pg ∨ lpa ≠ pageUnmapped) :
    Life G (fb.mapLpa G lpa b pg lp) ∧ PageAlive (fb.mapLpa G lpa b pg lp) b pg := by
  have := slot_lt lp
  have closed {fb : Fb} (both : Life G fb ∧ PageAlive fb b pg) :
      Life G (fb.updBlock b (·.afterClose)) ∧ PageAlive (fb.updBlock b (·.afterClose)) b pg := by
    have counters (member : BlockId) :
        ((fb.updBlock b (·.afterClose)).ssdi.blocks member).nrInvalidPages =
          (fb.ssdi.blocks member).nrInvalidPages := by
      by_cases same : member = b
      · subst member
        simp [Fb.updBlock, SsdInfo.updBlock, FlashBlock.afterClose, FlashBlock.incNrValidPgs,
          FlashBlock.decNrFreePgs]
      · simp [Fb.updBlock, SsdInfo.updBlock, same]
    exact ⟨⟨fun member hasMember => (counters member).trans (both.1.exact_ member hasMember),
      fun c hasChip member used => (counters member).trans_lt
        (both.1.usedAlive c hasChip member used), both.1.idle⟩, both.2⟩
  have filled : Life G ((if lpa ≠ pageUnmapped then (fb.invalidateLpg G lpa).2 else fb).fillSubPage
      b pg lp lpa) ∧ PageAlive ((if lpa ≠ pageUnmapped then (fb.invalidateLpg G lpa).2
        else fb).fillSubPage b pg lp lpa) b pg := by
    split_ifs with real
    · have inside := lpaOk.resolve_left real
      have cleared : Inv G (.filling b lp) (fb.invalidateLpg G lpa).2 := by
        refine inv.invalidateLpg (fun member => ?_) (by simp) inside
        simp only [Phase.ofs]
        split_ifs <;> omega
      exact (life.invalidateLpg inv inside).fillSubPage cleared
        (by rw [Fb.invalidateLpg_nrFreePages]; exact pg_eq) (Or.inr real)
    · exact life.fillSubPage inv pg_eq alive
  rw [Fb.mapLpa_eq]
  by_cases last : (lp : ℕ) = 3
  · rw [if_pos last]
    exact closed filled
  · rw [if_neg last]
    exact filled

/-- A page whose first sub-page carries an LPA is alive when it is complete. -/
theorem mapLogicalToPhysical (life : Life G fb) (inv : Inv G (.filling b 0) fb)
    (pg_eq : pg = G.numPagesPerBlock - (fb.ssdi.blocks b).nrFreePages) {lpas : Slot → ℕ}
    (lpasOk : ∀ lp, LpaOk G (lpas lp)) (first : lpas 0 ≠ pageUnmapped) :
    Life G (fb.mapLogicalToPhysical G lpas b pg) ∧
      PageAlive (fb.mapLogicalToPhysical G lpas b pg) b pg := by
  have step {fb : Fb} (lp : Slot) (notLast : (lp : ℕ) ≠ 3) (life : Life G fb)
      (inv : Inv G (.filling b lp) fb)
      (pg_eq : pg = G.numPagesPerBlock - (fb.ssdi.blocks b).nrFreePages)
      (alive : PageAlive fb b pg ∨ lpas lp ≠ pageUnmapped) :
      (Life G (fb.mapLpa G (lpas lp) b pg lp) ∧ PageAlive (fb.mapLpa G (lpas lp) b pg lp) b pg) ∧
        Inv G (.filling b (lp + 1)) (fb.mapLpa G (lpas lp) b pg lp) ∧ pg = G.numPagesPerBlock -
          ((fb.mapLpa G (lpas lp) b pg lp).ssdi.blocks b).nrFreePages := by
    refine ⟨life.mapLpa inv pg_eq (lpasOk lp) alive, ?_, ?_⟩
    · have mapped := inv.mapLpa pg_eq (lpasOk lp)
      rwa [Phase.afterSlot, if_neg notLast] at mapped
    · rw [Fb.mapLpa_nrFreePages, if_neg (by simp [notLast])]
      exact pg_eq
  rcases step 0 (by decide) life inv pg_eq (Or.inr first) with ⟨⟨life1, alive1⟩, inv1, pg_eq1⟩
  rcases step 1 (by decide) life1 inv1 pg_eq1 (Or.inl alive1) with
    ⟨⟨life2, alive2⟩, inv2, pg_eq2⟩
  rcases step 2 (by decide) life2 inv2 pg_eq2 (Or.inl alive2) with
    ⟨⟨life3, alive3⟩, inv3, pg_eq3⟩
  have inv3 : Inv G (.filling b (3 : Slot)) _ := inv3
  exact life3.mapLpa inv3 pg_eq3 (lpasOk 3) (Or.inl alive3)

/-- `update_act_blk` puts a block into the used list that has a page alive. -/
theorem updateActBlk (life : Life G fb) (inv : Inv G (.filled b) fb)
    (alive : PageAlive fb b pg) (pg_lt : pg < G.numPagesPerBlock) :
    Life G (fb.updateActBlk b.chip) := by
  rcases inv.phaseOk b rfl with ⟨hasBlock, active⟩
  have few : (fb.ssdi.blocks b).nrInvalidPages < G.numPagesPerBlock := by
    rcases alive with ⟨lp, isValid⟩
    have some_ := not_dead_of_status lp (show (fb.ssdi.pages b pg).pageStatus lp ≠ invalid by
      simp [isValid])
    have atMost := labelCount_le_card (Finset.range G.numPagesPerBlock)
      (fun pg => decide (fb.ssdi.pages b pg).Dead) true
    rw [Finset.card_range] at atMost
    rw [life.exact_ b hasBlock, nrDeadPages]
    refine lt_of_le_of_ne atMost fun whole => some_ ?_
    have all := (labelCount_eq_card_iff (Finset.range G.numPagesPerBlock) _ _).mp
      (whole.trans (Finset.card_range _).symm)
    simpa using all pg (Finset.mem_range.mpr pg_lt)
  have usedNow {other : Fb} (list : (other.ssdi.chips b.chip).usedBlks =
      (fb.ssdi.chips b.chip).usedBlks ++ [b]) :
      ∀ member ∈ (other.ssdi.chips b.chip).usedBlks, member ∈ (fb.ssdi.chips b.chip).usedBlks ∨
        (fb.ssdi.blocks member).nrInvalidPages < G.numPagesPerBlock := by
    intro member mem
    rw [list, List.mem_append, List.mem_singleton] at mem
    rcases mem with before | rfl
    · exact Or.inl before
    · exact Or.inr few
  have retired := (Moves.setActBlkFlag fb b false).trans (.setUsedBlk _ b)
  unfold Fb.updateActBlk Fb.getCurrActiveBlock
  simp only [active]
  split_ifs with full
  · rcases head : ((fb.updBlock b (·.setActBlkFlag false)).setUsedBlk b).getFreeBlock b.chip with
      _ | next
    · refine life.move (retired.trans (.setCurrActiveBlock_none _ b.chip)) (usedNow ?_) fun _ => ?_
      · simp [Fb.setCurrActiveBlock, Fb.setUsedBlk, Fb.updChip, SsdInfo.updChip, Fb.updBlock,
          SsdInfo.updBlock, FlashChip.setUsedBlk]
      · exact List.head?_eq_none_iff.mp head
    · have own : next.chip = b.chip := by
        have mem : next ∈ (fb.ssdi.chips b.chip).freeBlks := by
          have listed := mem_of_head?_eq head
          simpa [Fb.setUsedBlk, Fb.updChip, SsdInfo.updChip, Fb.updBlock, SsdInfo.updBlock,
            FlashChip.setUsedBlk] using listed
        exact (inv.hasBlock_of_mem hasBlock.1 .free mem).1
      have opened := ((Moves.resetFreeBlk ((fb.updBlock b (·.setActBlkFlag false)).setUsedBlk b)
        next).trans (.setCurrActiveBlock_some _ next))
      rw [own] at opened
      refine life.move (retired.trans opened) (usedNow ?_) fun isIdle => ?_
      · simp [Fb.setCurrActiveBlock, Fb.resetFreeBlk, Fb.record, Fb.setUsedBlk, Fb.updChip,
          SsdInfo.updChip, Fb.updBlock, SsdInfo.updBlock, FlashChip.setUsedBlk, own,
          FlashChip.resetFreeBlk]
      · simp [Fb.setCurrActiveBlock, Fb.updBlock] at isIdle
  · exact life

theorem programPage (life : Life G fb) (inv : Inv G .rest fb) (hasChip : G.HasChip c)
    (active : fb.abm.actBlks c = some ⟨c, blk⟩)
    (pg_eq : pg = G.numPagesPerBlock - (fb.ssdi.blocks ⟨c, blk⟩).nrFreePages) {lpas : Slot → ℕ}
    (lpasOk : ∀ lp, LpaOk G (lpas lp)) (first : lpas 0 ≠ pageUnmapped) (src : Slot → PageData) :
    Life G (fb.programPage G c blk pg lpas src) := by
  have pg_lt := (inv.nextPage hasChip active pg_eq).2.2.1
  have written := inv.vdeviceWrite hasChip active pg_eq src
  have lifeWritten : Life G (fb.vdeviceWrite ⟨c, blk⟩ pg src) := life.congr rfl rfl
  have mapped := written.mapLogicalToPhysical pg_eq lpasOk
  rcases lifeWritten.mapLogicalToPhysical written pg_eq lpasOk first with ⟨lifeMapped, alive⟩
  have placed : Life G (((fb.vdeviceWrite ⟨c, blk⟩ pg src).mapLogicalToPhysical G lpas ⟨c, blk⟩
      pg).setPrevBusChip c) := lifeMapped.congr rfl rfl
  exact placed.updateActBlk (b := ⟨c, blk⟩) (mapped.setPrevBusChip hasChip) alive pg_lt

/-! ### Garbage collection -/

theorem erase (life : Life G fb) (inv : Inv G .rest fb) (hasChip : G.HasChip b.chip)
    (reserved : fb.gcm.gcBlks b.chip = some b) (moves : Moves b.chip (fb.eraseBlk G b.chip b) other)
    (used : (other.ssdi.chips b.chip).usedBlks = (fb.ssdi.chips b.chip).usedBlks)
    (idle : other.abm.actBlks b.chip = none → (other.ssdi.chips b.chip).freeBlks = []) :
    Life G other := by
  have pages : other.ssdi.pages = Function.update fb.ssdi.pages b fun pg =>
      if pg < G.numPagesPerBlock then FlashPage.initial else fb.ssdi.pages b pg := moves.pages
  have counters (member : BlockId) := moves.counters member
  simp only [fb.eraseBlk_blocks] at counters
  have elsewhere {member : BlockId} (different : member ≠ b) :
      (other.ssdi.blocks member).nrInvalidPages = (fb.ssdi.blocks member).nrInvalidPages := by
    have same := (counters member).nrInvalidPages
    rwa [Function.update_of_ne different] at same
  refine ⟨fun member hasMember => ?_, fun c hasC member mem => ?_, fun c hasC isIdle => ?_⟩
  · rw [pages]
    by_cases same : member = b
    · subst member
      have fresh := (counters b).nrInvalidPages
      rw [Function.update_self] at fresh
      rw [Function.update_self]
      exact .erased (fun pg pg_lt => if_pos pg_lt) fresh
    · rw [Function.update_of_ne same]
      exact (elsewhere same).trans (life.exact_ member hasMember)
  · have before : member ∈ (fb.ssdi.chips c).usedBlks := by
      by_cases same : c = b.chip
      · subst c
        rwa [used] at mem
      · rwa [(moves.otherChips c same).1] at mem
    have different : member ≠ b := by
      rintro rfl
      have own := (inv.hasBlock_of_mem hasC .used before).1
      subst c
      have place : Place.used = .gc :=
        (inv.chipOk member.chip hasC).partition.unique before .gc
          (by simp [FlashChip.holds, reserved])
      simp at place
    rw [elsewhere different]
    exact life.usedAlive c hasC member before
  · by_cases same : c = b.chip
    · subst c
      exact idle isIdle
    · rcases moves.otherChips c same with ⟨chips, actBlks, _⟩
      rw [actBlks] at isIdle
      rw [chips]
      exact life.idle c hasC isIdle

theorem prepareActBlk (life : Life G fb) (inv : Inv G .rest fb) (hasChip : G.HasChip c) :
    Life G (fb.prepareActBlk G c).2 := by
  unfold Fb.prepareActBlk Fb.getCurrActiveBlock Fb.getCurrGcBlock
  rcases isIdle : fb.abm.actBlks c with _ | _
  · rcases reserved : fb.gcm.gcBlks c with _ | b
    · exact life
    · rcases inv.of_gc hasChip reserved with ⟨rfl, _⟩
      refine life.erase inv hasChip reserved ((Moves.setCurrActiveBlock_some _ b).trans
        (.setCurrGcBlock_none _ b.chip)) rfl fun nowIdle => ?_
      simp [Fb.setCurrGcBlock, Fb.setCurrActiveBlock, Fb.updBlock] at nowIdle
  · exact life

theorem prepareActBlks (life : Life G fb) (inv : Inv G .rest fb) :
    Life G (fb.prepareActBlks G).2 :=
  (forEach_preserves (fun fb => Inv G .rest fb ∧ Life G fb) (fun _ mem _ kept =>
    ⟨kept.1.prepareActBlk (G.mem_chipsByChip.mp mem),
      kept.2.prepareActBlk kept.1 (G.mem_chipsByChip.mp mem)⟩) ⟨inv, life⟩).2

theorem sameFlash (life : Life G fb) (same : SameFlash fb other)
    (actBlks : other.abm.actBlks = fb.abm.actBlks) : Life G other :=
  life.congr same.ssdi actBlks

/-- Copies carry LPAs, so the first sub-page of a copied page does. -/
theorem progPage {start : Fb} {ptr : ℕ} (life : Life G fb) (copying : Copying G start fb)
    (inside : ptr < fb.gcm.nrPgsToCopy) : Life G (fb.progPage G ptr).2 := by
  have inv := copying.inv
  have hasChip := hasChip_getNextBusChip inv.mruOk
  rcases alloc : fb.allocNewPage G (fb.getNextBusChip G) with ⟨_ | ⟨blk, pg⟩, other⟩
  · rw [Fb.progPage_of_none alloc, (Inv.allocNewPage_of_none alloc).1]
    exact life
  rcases inv.allocNewPage_of_some hasChip alloc with ⟨_, active, pg_eq⟩
  have same := life.allocNewPage_of_some hasChip alloc
  subst other
  have padded := inv.padLpasToCopy ptr (fb.gcm.nrPgsToCopy - ptr)
  have lifePadded := life.scratchOnly (.padLpasToCopy fb ptr (fb.gcm.nrPgsToCopy - ptr))
  rw [Fb.progPage_of_some alloc]
  refine lifePadded.programPage padded hasChip (by simpa using active) (by simpa using pg_eq)
    (fun lp => padded.lpasOk (ptr + lp)) ?_ _
  have mapped := copying.copiesMatch ptr inside
  rw [← padLpasToCopy_of_lt inside inside] at mapped
  intro unmapped
  rw [Fin.val_zero, Nat.add_zero] at unmapped
  have outside : ¬pageUnmapped < G.numLogPages := G.numLogPages_lt.le.not_gt
  rw [unmapped] at mapped
  simp [Fb.flashData, l2p, outside] at mapped

theorem progValidPgsToGcBlks (life : Life G fb) (inv : Inv G .rest fb)
    (copies : CopiesMatch G fb) : Life G (fb.progValidPgsToGcBlks G).2 := by
  refine (forEach_preserves (fun other => Copying G fb other ∧ Life G other)
    (fun ptr mem other kept => ?_) ⟨⟨inv, rfl, copies, rfl⟩, life⟩).2
  simp only [List.mem_map, List.mem_range, nrLpInPp] at mem
  rcases mem with ⟨k, k_lt, rfl⟩
  have inside : 4 * k < other.gcm.nrPgsToCopy := by
    rw [kept.1.nrPgsToCopy]
    omega
  exact ⟨kept.1.progPage inside, kept.2.progPage kept.1 inside⟩

theorem updateGcBlk (life : Life G fb) (inv : Inv G .rest fb) (hasChip : G.HasChip c) :
    Life G (fb.updateGcBlk c).2 := by
  unfold Fb.updateGcBlk Fb.getCurrGcBlock
  rcases isIdle : fb.gcm.gcBlks c with _ | _
  · rcases head : fb.getDirtBlock c with _ | b
    · simp only
      split_ifs <;> exact life
    · rcases inv.hasBlock_of_mem hasChip .dirt (mem_of_head?_eq head) with ⟨rfl, _⟩
      refine life.move ((Moves.resetDirtBlk fb b).trans (.setCurrGcBlock_some _ b))
        (fun member used => Or.inl ?_) fun nowIdle => ?_
      · simpa [Fb.setCurrGcBlock, Fb.updBlock, SsdInfo.updBlock, Fb.resetDirtBlk, Fb.record,
          Fb.updChip, SsdInfo.updChip, FlashChip.resetDirtBlk] using used
      · have none_ := life.idle b.chip hasChip nowIdle
        simpa [Fb.setCurrGcBlock, Fb.updBlock, SsdInfo.updBlock, Fb.resetDirtBlk, Fb.record,
          Fb.updChip, SsdInfo.updChip, FlashChip.resetDirtBlk] using none_
  · exact life

theorem updateGcBlks (life : Life G fb) (inv : Inv G .rest fb) : Life G (fb.updateGcBlks G).2 :=
  (forEach_preserves (fun fb => Inv G .rest fb ∧ Life G fb) (fun _ mem _ kept =>
    ⟨kept.1.updateGcBlk (G.mem_chipsByBus.mp mem),
      kept.2.updateGcBlk kept.1 (G.mem_chipsByBus.mp mem)⟩) ⟨inv, life⟩).2

/-- `trigger_gc_page_mapping` loses no page, whether it succeeds or fails. -/
theorem triggerGcPageMapping (life : Life G fb) (inv : Inv G .rest fb) :
    Life G (fb.triggerGcPageMapping G).2 := by
  have zero : (fb.initGcm.prepareActBlks G).2.gcm.nrPgsToCopy = 0 := prepareActBlks_nrPgsToCopy _
  have prepared := (life.scratchOnly (.initGcm fb)).prepareActBlks inv.initGcm
  have preparedInv := inv.initGcm.prepareActBlks
  unfold Fb.triggerGcPageMapping
  refine andThen_rule (fun result => Life G result.2) (fun _ => prepared) fun _ => ?_
  generalize (fb.initGcm.prepareActBlks G).2 = fb at prepared preparedInv zero ⊢
  have picked := prepared.scratchOnly (.setVicBlks (G := G) fb)
  refine andThen_rule (fun result => Life G result.2) (fun _ => picked) fun ok => ?_
  have victims := setVicBlks_ok preparedInv zero ok
  have pickedInv := preparedInv.setVicBlks
  generalize (fb.setVicBlks G).2 = fb at picked pickedInv victims ⊢
  rcases getValidPgsInVicBlks_spec pickedInv victims.victimsUsed victims.nrPgsToCopy with
    ⟨readOk, read⟩
  have readInv := pickedInv.getValidPgsInVicBlks
  have readLife := picked.scratchOnly (.getValidPgsInVicBlks (G := G) fb)
  have copies := read.copiesMatch fun pair mem => flashData_of_mem_victimContent pickedInv mem
  rw [andThen_of_ok readOk]
  generalize (fb.getValidPgsInVicBlks G).2 = fb at readInv readLife copies ⊢
  have copied := readLife.progValidPgsToGcBlks readInv copies
  exact andThen_rule (fun result => Life G result.2) (fun _ => copied)
    fun _ => copied.updateGcBlks readInv.progValidPgsToGcBlks

/-! ### Host writes -/

section HostWrites

variable {lpas : Slot → ℕ} {src : Slot → PageData}

theorem programAllocated (life : Life G fb) (inv : Inv G .rest fb)
    (alloc : fb.allocNewPage G (fb.getNextBusChip G) = (some (blk, pg), other))
    (inRange : ∀ lp, lpas lp < G.numLogPages) :
    Life G (other.programPage G (fb.getNextBusChip G) blk pg lpas src) := by
  have hasChip := hasChip_getNextBusChip inv.mruOk
  rcases inv.allocNewPage_of_some hasChip alloc with ⟨next, active, pg_eq⟩
  have same := life.allocNewPage_of_some hasChip alloc
  subst other
  exact life.programPage next hasChip active pg_eq (fun lp => Or.inr (inRange lp))
    ((inRange 0).trans G.numLogPages_lt).ne src

theorem allocOrFail (life : Life G fb) (inv : Inv G .rest fb)
    (inRange : ∀ lp, lpas lp < G.numLogPages) : Life G (fb.allocOrFail G lpas src).2 := by
  rcases alloc : fb.allocNewPage G (fb.getNextBusChip G) with ⟨_ | ⟨blk, pg⟩, other⟩
  · simpa [Fb.allocOrFail, alloc, (Inv.allocNewPage_of_none alloc).1] using life
  · simpa [Fb.allocOrFail, alloc] using life.programAllocated inv alloc inRange

theorem allocAndProgram (life : Life G fb) (inv : Inv G .rest fb)
    (inRange : ∀ lp, lpas lp < G.numLogPages) : Life G (fb.allocAndProgram G lpas src).2 := by
  rcases alloc : fb.allocNewPage G (fb.getNextBusChip G) with ⟨_ | ⟨blk, pg⟩, other⟩
  · have collected : Life G (andThen (fb.triggerGcPageMapping G) fun fb =>
        fb.allocOrFail G lpas src).2 :=
      andThen_rule (fun result => Life G result.2) (fun _ => life.triggerGcPageMapping inv)
        fun _ => (life.triggerGcPageMapping inv).allocOrFail inv.triggerGcPageMapping inRange
    simpa [Fb.allocAndProgram, alloc, (Inv.allocNewPage_of_none alloc).1] using collected
  · simpa [Fb.allocAndProgram, alloc] using life.programAllocated inv alloc inRange

/-- `make_write_request_page_mapping` loses no page, whether it succeeds or fails. -/
theorem makeWriteRequest (life : Life G fb) (inv : Inv G .rest fb)
    (inRange : ∀ lp, lpas lp < G.numLogPages) : Life G (fb.makeWriteRequest G lpas src).2 := by
  unfold Fb.makeWriteRequest
  split_ifs
  · exact andThen_rule (fun result => Life G result.2) (fun _ => life.triggerGcPageMapping inv)
      fun _ => (life.triggerGcPageMapping inv).allocAndProgram inv.triggerGcPageMapping inRange
  · exact life.allocAndProgram inv inRange

end HostWrites

/-- Creation gives every chip an active block. -/
theorem of_created {garbage : Garbage} (created : Created G garbage fb) : Life G fb where
  exact_ b hasBlock := by
    have counters := created.counters b
    rw [created.pages]
    exact .erased (fun _ _ => rfl) counters.nrInvalidPages
  usedAlive c hasChip b mem := by
    rw [created.usedBlks c] at mem
    simp at mem
  idle c hasChip isIdle := by
    have active := created.active c hasChip
    rw [isIdle] at active
    simp at active

end Life

end FlashBench
