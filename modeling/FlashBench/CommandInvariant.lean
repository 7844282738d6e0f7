import FlashBench.PageFilling
import FlashBench.PageMapping
import FlashBench.RoundRobin

/-!
# The functions of the flash translation layer keep the invariant

Host writes, invalidation, foreground GC and background GC take a state at rest to
a state at rest, whatever they return.
-/

namespace FlashBench

open PgStatus

section NextChip

variable {G : Geometry} {fb : Fb}

theorem hasChip_getNextBusChip (hasChip : G.HasChip fb.getPrevBusChip) :
    G.HasChip (fb.getNextBusChip G) :=
  G.hasChip_nextChip hasChip

end NextChip

theorem Fb.eraseBlk_blocks (G : Geometry) (fb : Fb) (c : ChipId) (b : BlockId) :
    (fb.eraseBlk G c b).ssdi.blocks =
      Function.update fb.ssdi.blocks b ((fb.ssdi.blocks b).initBlkInf G).incBersCnt := by
  simp [eraseBlk, Fb.updBlock, SsdInfo.updBlock, Fb.initBlkInf, SsdInfo.initBlkInf, vdeviceErase,
    record]

namespace Inv

variable {G : Geometry} {phase : Phase} {fb other : Fb} {c : ChipId} {b : BlockId} {blk pg : ℕ}

/-! ### Host writes -/

theorem allocNewPage_of_some (inv : Inv G .rest fb) (hasChip : G.HasChip c)
    (alloc : fb.allocNewPage G c = (some (blk, pg), other)) :
    Inv G .rest other ∧ other.abm.actBlks c = some ⟨c, blk⟩ ∧
      pg = G.numPagesPerBlock - (other.ssdi.blocks ⟨c, blk⟩).nrFreePages := by
  unfold Fb.allocNewPage Fb.getCurrActiveBlock at alloc
  rcases active : fb.abm.actBlks c with _ | b
  · rcases head : fb.getFreeBlock c with _ | b
    · simp [active, head] at alloc
    · simp only [active, head, Prod.mk.injEq, Option.some.injEq] at alloc
      rcases alloc with ⟨⟨rfl, rfl⟩, rfl⟩
      have opened := inv.openFree hasChip active head
      have isActive : ((fb.resetFreeBlk b).setCurrActiveBlock c (some b)).abm.actBlks c = some b :=
        Function.update_self _ _ _
      rcases opened.of_active hasChip isActive with ⟨rfl, _⟩
      exact ⟨opened, isActive, rfl⟩
  · simp only [active, Prod.mk.injEq, Option.some.injEq] at alloc
    rcases alloc with ⟨⟨rfl, rfl⟩, rfl⟩
    rcases inv.of_active hasChip active with ⟨rfl, _⟩
    exact ⟨inv, active, rfl⟩

theorem allocNewPage_of_none (alloc : fb.allocNewPage G c = (none, other)) :
    other = fb ∧ fb.abm.actBlks c = none ∧ fb.getFreeBlock c = none := by
  unfold Fb.allocNewPage Fb.getCurrActiveBlock at alloc
  rcases active : fb.abm.actBlks c with _ | b
  · rcases head : fb.getFreeBlock c with _ | b
    · simp only [active, head, Prod.mk.injEq, true_and] at alloc
      exact ⟨alloc.symm, rfl, rfl⟩
    · simp [active, head] at alloc
  · simp [active] at alloc

theorem programPage (inv : Inv G .rest fb) (hasChip : G.HasChip c)
    (active : fb.abm.actBlks c = some ⟨c, blk⟩)
    (pg_eq : pg = G.numPagesPerBlock - (fb.ssdi.blocks ⟨c, blk⟩).nrFreePages) {lpas : Slot → ℕ}
    (lpasOk : ∀ lp, LpaOk G (lpas lp)) (src : Slot → PageData) :
    Inv G .rest (fb.programPage G c blk pg lpas src) := by
  have written := inv.vdeviceWrite hasChip active pg_eq src
  have mapped := written.mapLogicalToPhysical pg_eq lpasOk
  exact (mapped.setPrevBusChip hasChip).updateActBlk

/-! ### Garbage collection -/

theorem padLpasToCopy (inv : Inv G .rest fb) (ptr nrPgsToProg : ℕ) :
    Inv G .rest (fb.padLpasToCopy ptr nrPgsToProg) := by
  unfold Fb.padLpasToCopy
  split_ifs with partialPage
  · exact inv.withGcm _ rfl (storeAt_forall (LpaOk G) inv.lpasOk
      fun entry stored => Or.inl (List.eq_of_mem_replicate stored))
  · exact inv

/-- One page of `prog_valid_pgs_to_gc_blks`. -/
theorem progPage (inv : Inv G .rest fb) (ptr : ℕ) : Inv G .rest (fb.progPage G ptr).2 := by
  have hasChip := hasChip_getNextBusChip inv.mruOk
  rcases alloc : fb.allocNewPage G (fb.getNextBusChip G) with ⟨_ | ⟨blk, pg⟩, other⟩
  · rw [Fb.progPage_of_none alloc, (allocNewPage_of_none alloc).1]
    exact inv
  · rcases inv.allocNewPage_of_some hasChip alloc with ⟨next, active, pg_eq⟩
    have padded := next.padLpasToCopy ptr (fb.gcm.nrPgsToCopy - ptr)
    rw [Fb.progPage_of_some alloc]
    exact padded.programPage hasChip (by simpa using active) (by simpa using pg_eq)
      (fun lp => padded.lpasOk (ptr + lp)) _

theorem progValidPgsToGcBlks (inv : Inv G .rest fb) :
    Inv G .rest (fb.progValidPgsToGcBlks G).2 :=
  forEach_preserves _ (fun ptr _ _ inv => inv.progPage ptr) inv

theorem erase (inv : Inv G .rest fb) (hasChip : G.HasChip b.chip)
    (reserved : fb.gcm.gcBlks b.chip = some b) (moves : Moves b.chip (fb.eraseBlk G b.chip b) other)
    (chipOk : ChipOk G .rest b.chip other.ssdi.blocks (other.ssdi.chips b.chip)
      (other.abm.actBlks b.chip) (other.gcm.gcBlks b.chip))
    (history : other.history = (fb.vdeviceErase G b).history) : Inv G .rest other := by
  rcases inv.of_gc hasChip reserved with ⟨_, hasBlock⟩
  have noValid := inv.gc_no_valid hasChip reserved
  have pages : other.ssdi.pages = Function.update fb.ssdi.pages b fun pg =>
      if pg < G.numPagesPerBlock then FlashPage.initial else fb.ssdi.pages b pg := moves.pages
  have counters (member : BlockId) := moves.counters member
  simp only [fb.eraseBlk_blocks] at counters
  have fresh := counters b
  rw [Function.update_self] at fresh
  have elsewhere {member : BlockId} (different : member ≠ b) :
      SameCounters (fb.ssdi.blocks member) (other.ssdi.blocks member) := by
    have same := counters member
    rwa [Function.update_of_ne different] at same
  refine
    { blockOk := ?_
      mapOk := ?_
      chipOk := ?_
      historyOk := ?_
      programmed_eq := ?_
      lpasOk := by rw [moves.lpasToCopy]; exact inv.lpasOk
      mruOk := by rw [moves.mru]; exact inv.mruOk
      phaseOk := fun _ isCurrent => by simp [Phase.current] at isCurrent }
  · intro member memberOk
    rw [pages]
    by_cases same : member = b
    · subst member
      rw [Function.update_self]
      exact .erased (fun pg pg_lt => if_pos pg_lt) fresh.nrFreePages fresh.nrValidPages
        fresh.nrInvalidPages fresh.nrValidLogPages fresh.nrInvalidLogPages
    · rw [Function.update_of_ne same]
      exact (inv.blockOk member memberOk).sameCounters (elsewhere same)
  · rw [moves.mappings, pages]
    refine inv.mapOk.replace noValid fun pg lp => ?_
    split_ifs with pg_lt
    · simp [FlashPage.initial]
    · exact fun isValid => pg_lt (inv.mapOk.hasLocation ⟨b, pg, lp⟩ isValid).2
  · intro c hasChip
    by_cases same : c = b.chip
    · subst c
      exact chipOk
    · rcases moves.otherChips c same with ⟨chips, actBlks, gcBlks⟩
      rw [chips, actBlks, gcBlks]
      refine (inv.chipOk c hasChip).congr _ fun member own => ?_
      rw [moves.otherBlocks member (own ▸ same), fb.eraseBlk_blocks, Function.update_of_ne]
      exact fun isB => same (by rw [← own, isB])
  · rw [history]
    exact ⟨⟨hasBlock, noValid, fun lpa l forward => inv.mapOk.not_mapped_into noValid forward⟩,
      inv.historyOk⟩
  · intro member memberOk
    rw [moves.programmed_eq]
    change (if b = member then [] else programmed member fb.history) = _
    split_ifs with same
    · subst member
      rw [fresh.nrFreePages]
      simp [FlashBlock.incBersCnt, FlashBlock.initBlkInf, FlashBlock.initial, pagesBelow]
    · rw [inv.programmed_eq member memberOk, (elsewhere (Ne.symm same)).nrFreePages]

theorem eraseToActive (inv : Inv G .rest fb) (hasChip : G.HasChip b.chip)
    (idle : fb.abm.actBlks b.chip = none) (reserved : fb.gcm.gcBlks b.chip = some b) :
    Inv G .rest (((fb.eraseBlk G b.chip b).setCurrActiveBlock b.chip (some b)).setCurrGcBlock
      b.chip none) := by
  refine inv.erase hasChip reserved ((Moves.setCurrActiveBlock_some _ b).trans
    (.setCurrGcBlock_none _ b.chip)) ?_ rfl
  have ok := inv.chipOk b.chip hasChip
  rw [idle, reserved] at ok
  change ChipOk G .rest b.chip (Function.update (fb.eraseBlk G b.chip b).ssdi.blocks b
      (FlashBlock.setActBlkFlag ((fb.eraseBlk G b.chip b).ssdi.blocks b) true)) _
    (Function.update fb.abm.actBlks b.chip _ b.chip) (Function.update fb.gcm.gcBlks b.chip _ b.chip)
  rw [fb.eraseBlk_blocks]
  simp only [Function.update_idem, Function.update_self]
  exact ok.gcToActive rfl rfl rfl

theorem eraseToFree (inv : Inv G .rest fb) (hasChip : G.HasChip b.chip)
    (reserved : fb.gcm.gcBlks b.chip = some b) :
    Inv G .rest (((fb.eraseBlk G b.chip b).setFreeBlk b).setCurrGcBlock b.chip none) := by
  refine inv.erase hasChip reserved ((Moves.setFreeBlk _ b).trans
    (.setCurrGcBlock_none _ b.chip)) ?_ rfl
  have ok := inv.chipOk b.chip hasChip
  rw [reserved] at ok
  change ChipOk G .rest b.chip (fb.eraseBlk G b.chip b).ssdi.blocks
    (Function.update fb.ssdi.chips b.chip _ b.chip) _ (Function.update fb.gcm.gcBlks b.chip _ b.chip)
  rw [fb.eraseBlk_blocks]
  simp only [Function.update_self]
  exact ok.gcToFree rfl rfl rfl

theorem prepareActBlk (inv : Inv G .rest fb) (hasChip : G.HasChip c) :
    Inv G .rest (fb.prepareActBlk G c).2 := by
  unfold Fb.prepareActBlk Fb.getCurrActiveBlock Fb.getCurrGcBlock
  rcases idle : fb.abm.actBlks c with _ | _
  · rcases reserved : fb.gcm.gcBlks c with _ | b
    · exact inv
    · rcases inv.of_gc hasChip reserved with ⟨rfl, _⟩
      exact inv.eraseToActive hasChip idle reserved
  · exact inv

theorem prepareActBlks (inv : Inv G .rest fb) : Inv G .rest (fb.prepareActBlks G).2 :=
  forEach_preserves _ (fun _ mem _ inv => inv.prepareActBlk (G.mem_chipsByChip.mp mem)) inv

theorem setVicBlkOf (inv : Inv G .rest fb) : Inv G .rest (fb.setVicBlkOf G c).2 := by
  unfold Fb.setVicBlkOf
  split_ifs
  · exact inv.setVicBlk none
  · rcases fb.selectVicBlkGreedy c with _ | b
    · exact inv
    · simp only
      split_ifs
      · exact inv.setVicBlk none
      · exact ((inv.withGcm { fb.gcm with
          nrPgsToCopy := fb.gcm.nrPgsToCopy + (fb.ssdi.blocks b).nrValidLogPages }
          rfl inv.lpasOk).setFirstValidPg _).setVicBlk _

theorem setVicBlks (inv : Inv G .rest fb) : Inv G .rest (fb.setVicBlks G).2 :=
  forEach_preserves _ (fun _ _ _ inv => inv.setVicBlkOf) inv

theorem readVicPage {sweep : Fb.Sweep} (inv : Inv G .rest sweep.fb) (blki devBlk : BlockId)
    (pg : ℕ) : Inv G .rest (Fb.readVicPage blki devBlk pg sweep).fb := by
  refine inv.withGcm _ rfl (storeAt_forall (LpaOk G) inv.lpasOk fun lpa stored => ?_)
  simp only [List.mem_map, FlashPage.validSlots, List.mem_filter, decide_eq_true_eq] at stored
  rcases stored with ⟨lp, ⟨_, isValid⟩, rfl⟩
  exact Or.inr (inv.mapOk.of_valid (l := ⟨blki, pg, lp⟩) isValid).1

theorem sweepPage {sweep : Fb.Sweep} (inv : Inv G .rest sweep.fb) :
    Inv G .rest (Fb.sweepPage pg sweep c).fb := by
  unfold Fb.sweepPage
  rcases sweep.fb.getVicBlk c with _ | b
  · exact inv
  · simp only
    split_ifs
    · exact inv.readVicPage _ _ _
    · exact inv

theorem sweepOnce {sweep : Fb.Sweep} (inv : Inv G .rest sweep.fb) :
    Inv G .rest (Fb.sweepOnce G sweep).fb := by
  refine foldl_preserves (fun sweep : Fb.Sweep => Inv G .rest sweep.fb)
    (fun pg _ sweep inv => ?_) inv
  exact foldl_preserves (fun sweep : Fb.Sweep => Inv G .rest sweep.fb)
    (fun _ _ sweep inv => inv.sweepPage) inv

theorem sweepLoop {sweep : Fb.Sweep} (inv : Inv G .rest sweep.fb) (passes : ℕ) :
    Inv G .rest (Fb.sweepLoop G passes sweep).2.fb := by
  induction passes generalizing sweep with
  | zero =>
      unfold Fb.sweepLoop
      split_ifs <;> exact inv
  | succ passes ih =>
      unfold Fb.sweepLoop
      split_ifs
      · exact ih inv.sweepOnce
      · exact inv

theorem getValidPgsInVicBlks (inv : Inv G .rest fb) :
    Inv G .rest (fb.getValidPgsInVicBlks G).2 :=
  Inv.sweepLoop inv _

theorem updateGcBlk (inv : Inv G .rest fb) (hasChip : G.HasChip c) :
    Inv G .rest (fb.updateGcBlk c).2 := by
  unfold Fb.updateGcBlk Fb.getCurrGcBlock
  rcases idle : fb.gcm.gcBlks c with _ | _
  · rcases head : fb.getDirtBlock c with _ | b
    · simp only
      split_ifs <;> exact inv
    · exact inv.dirtToGc hasChip idle head
  · exact inv

theorem updateGcBlks (inv : Inv G .rest fb) : Inv G .rest (fb.updateGcBlks G).2 :=
  forEach_preserves _ (fun _ mem _ inv => inv.updateGcBlk (G.mem_chipsByBus.mp mem)) inv

/-- `trigger_gc_page_mapping` keeps the invariant, whether it succeeds or fails. -/
theorem triggerGcPageMapping (inv : Inv G .rest fb) :
    Inv G .rest (fb.triggerGcPageMapping G).2 := by
  refine andThen_preserves _ inv.initGcm.prepareActBlks fun fb inv => ?_
  refine andThen_preserves _ inv.setVicBlks fun fb inv => ?_
  refine andThen_preserves _ inv.getValidPgsInVicBlks fun fb inv => ?_
  exact andThen_preserves _ inv.progValidPgsToGcBlks fun fb inv => inv.updateGcBlks

/-! ### Background GC -/

theorem bgcPrepareActBlk (inv : Inv G .rest fb) : Inv G .rest (fb.bgcPrepareActBlk G).2 := by
  have hasChip := hasChip_getNextBusChip inv.mruOk
  unfold Fb.bgcPrepareActBlk Fb.bgcPrepareActBlkOf Fb.getCurrGcBlock
  simp only
  generalize fb.getNextBusChip G = c at hasChip ⊢
  rcases reserved : fb.gcm.gcBlks c with _ | b
  · exact inv
  rcases inv.of_gc hasChip reserved with ⟨rfl, _⟩
  -- the recycled block first leaves the GC slot, which a dirt block may enter then
  have recycled : Inv G .rest
      ((if ((fb.eraseBlk G b.chip b).getCurrActiveBlock b.chip).isNone then
          (fb.eraseBlk G b.chip b).setCurrActiveBlock b.chip (some b)
        else (fb.eraseBlk G b.chip b).setFreeBlk b).setCurrGcBlock b.chip none) := by
    split_ifs with idle
    · exact inv.eraseToActive hasChip (Option.isNone_iff_eq_none.mp idle) reserved
    · exact inv.eraseToFree hasChip reserved
  refine Inv.setPrevBusChip ?_ hasChip
  generalize (if ((fb.eraseBlk G b.chip b).getCurrActiveBlock b.chip).isNone then
    (fb.eraseBlk G b.chip b).setCurrActiveBlock b.chip (some b)
    else (fb.eraseBlk G b.chip b).setFreeBlk b) = moved at recycled ⊢
  rcases head : moved.getDirtBlock b.chip with _ | dirt
  · simpa [head] using recycled
  · have entered := recycled.dirtToGc hasChip (Function.update_self _ _ _) head
    rw [Fb.setCurrGcBlock_overwrite] at entered
    simpa [head] using entered

theorem bgcPrepareActBlks (inv : Inv G .rest fb) : Inv G .rest (fb.bgcPrepareActBlks G).2 :=
  forEach_preserves _ (fun _ _ _ inv => inv.bgcPrepareActBlk) inv

theorem bgcFindNewVicBlk (inv : Inv G .rest fb) : Inv G .rest (fb.bgcFindNewVicBlk G c).2 := by
  unfold Fb.bgcFindNewVicBlk
  rcases fb.selectVicBlkFromUsed c with _ | b
  · exact inv
  · exact (inv.setVicBlk _).setFirstValidPg _

theorem bgcSetVicBlk (inv : Inv G .rest fb) : Inv G .rest (fb.bgcSetVicBlk G c).2 := by
  unfold Fb.bgcSetVicBlk
  simp only
  split_ifs
  · rcases fb.getVicBlk c with _ | b
    · exact inv.bgcFindNewVicBlk
    · simp only
      split_ifs
      · exact ((inv.setFirstValidPg _).setVicBlk none).bgcFindNewVicBlk
      · exact inv.setFirstValidPg _
  · exact (inv.setVicBlk none).setFirstValidPg 0

theorem bgcSetVicBlks (inv : Inv G .rest fb) : Inv G .rest (fb.bgcSetVicBlks G).2 :=
  forEach_preserves _ (fun _ _ _ inv => inv.bgcSetVicBlk) inv

theorem bgcReadValidPg {sweep : Fb.Sweep} (inv : Inv G .rest sweep.fb) :
    Inv G .rest (Fb.bgcReadValidPg G sweep).2.fb := by
  have hasChip := hasChip_getNextBusChip inv.mruOk
  unfold Fb.bgcReadValidPg Fb.bgcReadValidPgOf
  simp only
  rcases sweep.fb.getVicBlk (sweep.fb.getNextBusChip G) with _ | b
  · exact inv.setPrevBusChip hasChip
  · simp only
    split_ifs
    · exact inv
    · refine Inv.setPrevBusChip ?_ hasChip
      refine Inv.readVicPage ?_ _ _ _
      exact inv.withGcm _ rfl inv.lpasOk

theorem bgcReadValidPgs (inv : Inv G .rest fb) : Inv G .rest (fb.bgcReadValidPgs G).2 :=
  forEach_preserves (fun sweep : Fb.Sweep => Inv G .rest sweep.fb)
    (fun _ _ _ inv => inv.bgcReadValidPg) inv

/-- `trigger_bg_gc` keeps the invariant, whether it succeeds or fails. -/
theorem triggerBgGc (inv : Inv G .rest fb) : Inv G .rest (fb.triggerBgGc G).2 := by
  unfold Fb.triggerBgGc
  split_ifs
  · exact inv.bgcPrepareActBlks
  refine andThen_preserves _ inv.initGcm.bgcSetVicBlks fun fb inv => ?_
  refine andThen_preserves _ inv.bgcReadValidPgs fun fb inv => ?_
  split_ifs
  · exact inv
  · exact andThen_preserves _ inv.progValidPgsToGcBlks fun fb inv => inv.updateGcBlks

/-! ### Host requests -/

theorem allocOrFail (inv : Inv G .rest fb) {lpas : Slot → ℕ} (lpasOk : ∀ lp, LpaOk G (lpas lp))
    (src : Slot → PageData) : Inv G .rest (fb.allocOrFail G lpas src).2 := by
  have hasChip := hasChip_getNextBusChip inv.mruOk
  unfold Fb.allocOrFail
  rcases alloc : fb.allocNewPage G (fb.getNextBusChip G) with ⟨_ | ⟨blk, pg⟩, other⟩
  · simpa [alloc, (allocNewPage_of_none alloc).1] using inv
  · rcases inv.allocNewPage_of_some hasChip alloc with ⟨next, active, pg_eq⟩
    simpa [alloc] using next.programPage hasChip active pg_eq lpasOk src

theorem allocAndProgram (inv : Inv G .rest fb) {lpas : Slot → ℕ}
    (lpasOk : ∀ lp, LpaOk G (lpas lp)) (src : Slot → PageData) :
    Inv G .rest (fb.allocAndProgram G lpas src).2 := by
  have hasChip := hasChip_getNextBusChip inv.mruOk
  unfold Fb.allocAndProgram
  rcases alloc : fb.allocNewPage G (fb.getNextBusChip G) with ⟨_ | ⟨blk, pg⟩, other⟩
  · have collected : Inv G .rest (andThen (fb.triggerGcPageMapping G) fun fb =>
        fb.allocOrFail G lpas src).2 :=
      andThen_preserves _ inv.triggerGcPageMapping fun fb inv => inv.allocOrFail lpasOk src
    simpa [alloc, (allocNewPage_of_none alloc).1] using collected
  · rcases inv.allocNewPage_of_some hasChip alloc with ⟨next, active, pg_eq⟩
    simpa [alloc] using next.programPage hasChip active pg_eq lpasOk src

/-- `make_write_request_page_mapping` keeps the invariant, whether it succeeds or fails. -/
theorem makeWriteRequest (inv : Inv G .rest fb) {lpas : Slot → ℕ}
    (lpasOk : ∀ lp, LpaOk G (lpas lp)) (src : Slot → PageData) :
    Inv G .rest (fb.makeWriteRequest G lpas src).2 := by
  unfold Fb.makeWriteRequest
  split_ifs
  · exact andThen_preserves _ inv.triggerGcPageMapping fun fb inv => inv.allocAndProgram lpasOk src
  · exact inv.allocAndProgram lpasOk src

theorem invalidateLpgAtRest (inv : Inv G .rest fb) {lpa : ℕ} (inside : lpa < G.numLogPages) :
    Inv G .rest (fb.invalidateLpg G lpa).2 :=
  inv.invalidateLpg (by simp) (by simp) inside

theorem delInvalidatePgs (inv : Inv G .rest fb) {reqLpas : List ℕ}
    (inside : ∀ lpa ∈ reqLpas, lpa < G.numLogPages) :
    Inv G .rest (fb.delInvalidatePgs G reqLpas) :=
  foldl_preserves _ (fun lpa mem _ inv => inv.invalidateLpgAtRest (inside lpa mem)) inv

end Inv

end FlashBench
