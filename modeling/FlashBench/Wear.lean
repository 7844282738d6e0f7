import FlashBench.BackgroundGc
import FlashBench.Library.EraseLog
import FlashBench.Striping

/-!
# The wear of the blocks

`nr_erase_cnt` is what a wear levelling policy would look at. It counts the calls of
`vdevice_erase` as an `u32`, and no call is wasted: apart from the block that
`create_gc_mngr` reserves for a chip, which is erased once without having been
programmed, a block is erased only when all its pages were programmed since the erase
before.
-/

namespace FlashBench

open EraseLog

/-- The command to the virtual device, for the operations that are one. -/
def FlashOp.command : FlashOp → Option (DeviceCommand BlockId)
  | .write block page => some (.program block page)
  | .erase block => some (.erase block)
  | _ => none

/-- The commands to the virtual device since creation, newest first. -/
def Fb.flashLog (fb : Fb) : List (DeviceCommand BlockId) :=
  fb.history.filterMap fun event => event.op.command

theorem programmed_eq_pagesSince (b : BlockId) (fb : Fb) :
    programmed b fb.history = pagesSince b fb.flashLog := by
  unfold Fb.flashLog
  induction fb.history with
  | nil => rfl
  | cons event earlier ih =>
      rcases event with ⟨op, ssdi, mappings⟩
      cases op with
      | write block page => simp [programmed, FlashOp.command, pagesSince, ih]
      | erase block => simp [programmed, FlashOp.command, pagesSince, ih]
      | resetFree block => simpa [programmed, FlashOp.command] using ih
      | resetUsed block => simpa [programmed, FlashOp.command] using ih
      | resetDirt block => simpa [programmed, FlashOp.command] using ih

/-! ### Operations that give no command -/

/-- The operation gives no command and leaves the erase counts and the filled GC slots alone; a
block that it puts into a GC slot is full. -/
structure SameWear (G : Geometry) (fb other : Fb) : Prop where
  flashLog : other.flashLog = fb.flashLog
  nrEraseCnt : ∀ b, (other.ssdi.blocks b).nrEraseCnt = (fb.ssdi.blocks b).nrEraseCnt
  kept : ∀ c b, fb.gcm.gcBlks c = some b → other.gcm.gcBlks c = some b
  full : ∀ c b, G.HasChip c → other.gcm.gcBlks c = some b →
    fb.gcm.gcBlks c = some b ∨ G.numPagesPerBlock ≤ (pagesSince b fb.flashLog).length

namespace SameWear

variable {G : Geometry} {phase : Phase} {fb other third : Fb} {c : ChipId} {b : BlockId}
  {lpa pg : ℕ} {lp : Slot}

theorem of_gcBlks (flashLog : other.flashLog = fb.flashLog)
    (nrEraseCnt : ∀ b, (other.ssdi.blocks b).nrEraseCnt = (fb.ssdi.blocks b).nrEraseCnt)
    (gcBlks : other.gcm.gcBlks = fb.gcm.gcBlks) : SameWear G fb other where
  flashLog := flashLog
  nrEraseCnt := nrEraseCnt
  kept c b reserved := by rw [gcBlks]; exact reserved
  full c b _ reserved := by rw [gcBlks] at reserved; exact Or.inl reserved

theorem refl (fb : Fb) : SameWear G fb fb := of_gcBlks rfl (fun _ => rfl) rfl

theorem trans (first : SameWear G fb other) (second : SameWear G other third) :
    SameWear G fb third where
  flashLog := second.flashLog.trans first.flashLog
  nrEraseCnt b := (second.nrEraseCnt b).trans (first.nrEraseCnt b)
  kept c b reserved := second.kept c b (first.kept c b reserved)
  full c b hasChip reserved := by
    rcases second.full c b hasChip reserved with before | isFull
    · exact first.full c b hasChip before
    · rw [first.flashLog] at isFull
      exact Or.inr isFull

theorem of_scratchOnly (same : ScratchOnly fb other) : SameWear G fb other := by
  refine of_gcBlks ?_ (fun b => by rw [same.ssdi]) same.gcBlks
  rw [same.rest]
  rfl

theorem updBlock (fb : Fb) (b : BlockId) (f : FlashBlock → FlashBlock)
    (same : ∀ block, (f block).nrEraseCnt = block.nrEraseCnt) :
    SameWear G fb (fb.updBlock b f) := by
  refine of_gcBlks rfl (fun other => ?_) rfl
  by_cases isB : other = b
  · subst other
    simp [Fb.updBlock, SsdInfo.updBlock, same]
  · simp [Fb.updBlock, SsdInfo.updBlock, isB]

theorem setCurrActiveBlock (fb : Fb) (c : ChipId) (blki : Option BlockId) :
    SameWear G fb (fb.setCurrActiveBlock c blki) := by
  rcases blki with _ | b
  · exact of_gcBlks rfl (fun _ => rfl) rfl
  · have flagged : SameWear G { fb with abm.actBlks := Function.update fb.abm.actBlks c (some b) }
        (fb.setCurrActiveBlock c (some b)) := updBlock _ b (·.setActBlkFlag true) fun _ => rfl
    exact of_gcBlks rfl flagged.nrEraseCnt rfl

/-- A full block gets into the empty GC slot of a chip. -/
theorem setCurrGcBlock (idle : fb.gcm.gcBlks c = none)
    (isFull : G.numPagesPerBlock ≤ (pagesSince b fb.flashLog).length) :
    SameWear G fb (fb.setCurrGcBlock c (some b)) := by
  have flagged : SameWear G { fb with gcm.gcBlks := Function.update fb.gcm.gcBlks c (some b) }
      (fb.setCurrGcBlock c (some b)) := updBlock _ b (·.setRsvBlkFlag true) fun _ => rfl
  refine ⟨rfl, flagged.nrEraseCnt, fun c' b' reserved => ?_, fun c' b' _ reserved => ?_⟩
  · change Function.update fb.gcm.gcBlks c (some b) c' = some b'
    have different : c' ≠ c := by
      rintro rfl
      rw [idle] at reserved
      simp at reserved
    rw [Function.update_of_ne different]
    exact reserved
  · change Function.update fb.gcm.gcBlks c (some b) c' = some b' at reserved
    by_cases same : c' = c
    · subst c'
      rw [Function.update_self, Option.some.injEq] at reserved
      subst b'
      exact Or.inr isFull
    · rw [Function.update_of_ne same] at reserved
      exact Or.inl reserved

theorem allocNewPage (fb : Fb) (c : ChipId) : SameWear G fb (fb.allocNewPage G c).2 := by
  unfold Fb.allocNewPage
  rcases fb.getCurrActiveBlock c with _ | b
  · rcases fb.getFreeBlock c with _ | b
    · exact refl fb
    · have removed : SameWear G fb (fb.resetFreeBlk b) := of_gcBlks rfl (fun _ => rfl) rfl
      exact removed.trans (setCurrActiveBlock _ c (some b))
  · exact refl fb

theorem markInvalid (fb : Fb) (l : Location) : SameWear G fb (fb.markInvalid l) := by
  refine of_gcBlks rfl (fun b => ?_) rfl
  by_cases same : b = l.block
  · subst b
    simp only [Fb.markInvalid, Function.update_self, FlashBlock.afterInvalidate]
    split_ifs <;> rfl
  · simp [Fb.markInvalid, same]

theorem fillSubPage (fb : Fb) (b : BlockId) (pg : ℕ) (lp : Slot) (lpa : ℕ) :
    SameWear G fb (fb.fillSubPage b pg lp lpa) := by
  refine of_gcBlks rfl (fun other => ?_) rfl
  by_cases same : other = b
  · subst other
    simp only [Fb.fillSubPage, Function.update_self, FlashBlock.afterFill]
    split_ifs <;> rfl
  · simp [Fb.fillSubPage, same]

/-- A block without a free page is full. -/
theorem full_of_nrFreePages (inv : Inv G phase fb) (hasBlock : G.HasBlock b)
    (noFree : (fb.ssdi.blocks b).nrFreePages = 0) :
    G.numPagesPerBlock ≤ (pagesSince b fb.flashLog).length := by
  rw [← programmed_eq_pagesSince, inv.programmed_eq b hasBlock, noFree]
  simp [pagesBelow]

/-- A block that `invalidate_lpg` reclaims has no free page left. -/
theorem invalidateLpg (inv : Inv G phase fb) (ofs_lt : ∀ b, phase.ofs b < 4)
    (inside : lpa < G.numLogPages) : SameWear G fb (fb.invalidateLpg G lpa).2 := by
  by_cases isMapped : fb.mappings lpa = pageUnmapped
  · rw [Fb.invalidateLpg_of_unmapped G isMapped]
    exact refl fb
  rcases inv.mapOk.mapped inside isMapped with ⟨l, hasLocation, address, forward, isValid, _⟩
  have marked := inv.markInvalid ofs_lt inside hasLocation forward isValid
  have unmapped (fb : Fb) : SameWear G fb (fb.setMappedPpa lpa pageUnmapped) :=
    of_gcBlks rfl (fun _ => rfl) rfl
  rw [Fb.invalidateLpg_of_mapped G isMapped, address, locate_physicalAddress hasLocation,
    Fb.invalidateSubPage_eq]
  refine SameWear.trans ?_ (unmapped _)
  split_ifs with reclaimed
  · refine (markInvalid fb l).trans ?_
    have removed : SameWear G (fb.markInvalid l) ((fb.markInvalid l).resetUsedBlk l.block) :=
      of_gcBlks rfl (fun _ => rfl) rfl
    rcases slot : (fb.markInvalid l).gcm.gcBlks l.block.chip with _ | gcBlk
    · rw [Fb.reclaimInvalidBlk_of_none slot]
      have ok : BlockOk G _ ((fb.markInvalid l).ssdi.blocks l.block)
        ((fb.markInvalid l).ssdi.pages l.block) := marked.blockOk l.block hasLocation.1
      have isFull := full_of_nrFreePages marked hasLocation.1 (ok.nrFreePages_eq_zero reclaimed.2)
      exact removed.trans (setCurrGcBlock slot isFull)
    · rw [Fb.reclaimInvalidBlk_of_some slot]
      exact removed.trans (of_gcBlks rfl (fun _ => rfl) rfl)
  · exact markInvalid fb l

theorem mapLpa (inv : Inv G (.filling b lp) fb) (lpaOk : LpaOk G lpa) :
    SameWear G fb (fb.mapLpa G lpa b pg lp) := by
  have cleared : SameWear G fb
      (if lpa ≠ pageUnmapped then (fb.invalidateLpg G lpa).2 else fb) := by
    split_ifs with real
    · refine invalidateLpg inv (fun other => ?_) (lpaOk.resolve_left real)
      have := slot_lt lp
      simp only [Phase.ofs]
      split_ifs <;> omega
    · exact refl fb
  rw [Fb.mapLpa_eq]
  refine cleared.trans ?_
  simp only
  split_ifs
  all_goals first
    | exact (fillSubPage _ b pg lp lpa).trans (updBlock _ b _ fun _ => rfl)
    | exact fillSubPage _ b pg lp lpa

/-- What mapping one sub-page keeps while its page is filled, mapping all of them keeps. -/
theorem mapLogicalToPhysical_rule (kept : Fb → Prop) {lpas : Slot → ℕ}
    (step : ∀ (fb : Fb) (lp : Slot), Inv G (.filling b lp) fb → kept fb →
      kept (fb.mapLpa G (lpas lp) b pg lp))
    (inv : Inv G (.filling b 0) fb)
    (pg_eq : pg = G.numPagesPerBlock - (fb.ssdi.blocks b).nrFreePages)
    (lpasOk : ∀ lp, LpaOk G (lpas lp)) (start : kept fb) :
    kept (fb.mapLogicalToPhysical G lpas b pg) := by
  have next {fb : Fb} (lp : Slot) (notLast : (lp : ℕ) ≠ 3) (inv : Inv G (.filling b lp) fb)
      (pg_eq : pg = G.numPagesPerBlock - (fb.ssdi.blocks b).nrFreePages) :
      Inv G (.filling b (lp + 1)) (fb.mapLpa G (lpas lp) b pg lp) ∧ pg = G.numPagesPerBlock -
        ((fb.mapLpa G (lpas lp) b pg lp).ssdi.blocks b).nrFreePages := by
    have mapped := inv.mapLpa pg_eq (lpasOk lp)
    rw [Phase.afterSlot, if_neg notLast] at mapped
    exact ⟨mapped, by rw [Fb.mapLpa_nrFreePages, if_neg (by simp [notLast])]; exact pg_eq⟩
  rcases next 0 (by decide) inv pg_eq with ⟨inv1, pg_eq1⟩
  rcases next 1 (by decide) inv1 pg_eq1 with ⟨inv2, pg_eq2⟩
  rcases next 2 (by decide) inv2 pg_eq2 with ⟨inv3, _⟩
  exact step _ 3 inv3 (step _ 2 inv2 (step _ 1 inv1 (step _ 0 inv start)))

theorem mapLogicalToPhysical (inv : Inv G (.filling b 0) fb)
    (pg_eq : pg = G.numPagesPerBlock - (fb.ssdi.blocks b).nrFreePages) {lpas : Slot → ℕ}
    (lpasOk : ∀ lp, LpaOk G (lpas lp)) :
    SameWear G fb (fb.mapLogicalToPhysical G lpas b pg) :=
  mapLogicalToPhysical_rule (SameWear G fb)
    (fun _ lp inv same => same.trans (mapLpa inv (lpasOk lp))) inv pg_eq lpasOk (refl fb)

theorem updateActBlk (fb : Fb) (c : ChipId) : SameWear G fb (fb.updateActBlk c) := by
  unfold Fb.updateActBlk
  rcases fb.getCurrActiveBlock c with _ | b
  · exact refl fb
  · simp only
    split_ifs
    · have retired : SameWear G fb ((fb.updBlock b (·.setActBlkFlag false)).setUsedBlk b) :=
        (updBlock fb b (·.setActBlkFlag false) fun _ => rfl).trans
          (of_gcBlks rfl (fun _ => rfl) rfl)
      refine retired.trans ?_
      split
      · exact setCurrActiveBlock _ c none
      · next next _ =>
        have removed : SameWear G ((fb.updBlock b (·.setActBlkFlag false)).setUsedBlk b)
          (((fb.updBlock b (·.setActBlkFlag false)).setUsedBlk b).resetFreeBlk next) :=
          of_gcBlks rfl (fun _ => rfl) rfl
        exact removed.trans (setCurrActiveBlock _ c (some next))
    · exact refl fb

theorem updateGcBlk (inv : Inv G .rest fb) (hasChip : G.HasChip c) :
    SameWear G fb (fb.updateGcBlk c).2 := by
  unfold Fb.updateGcBlk
  rcases slot : fb.getCurrGcBlock c with _ | b
  · rcases head : fb.getDirtBlock c with _ | b
    · simp only
      split_ifs <;> exact refl fb
    · have mem : b ∈ (fb.ssdi.chips c).dirtBlks := mem_of_head?_eq head
      have noFree := ((inv.chipOk c hasChip).placeOk .dirt b mem).1
      have isFull := full_of_nrFreePages inv (inv.hasBlock_of_mem hasChip .dirt mem).2 noFree
      have removed : SameWear G fb (fb.resetDirtBlk b) := of_gcBlks rfl (fun _ => rfl) rfl
      exact removed.trans (setCurrGcBlock slot isFull)
  · exact refl fb

theorem updateGcBlks (inv : Inv G .rest fb) : SameWear G fb (fb.updateGcBlks G).2 :=
  (forEach_preserves (fun other => Inv G .rest other ∧ SameWear G fb other)
    (fun _ mem _ kept => ⟨kept.1.updateGcBlk (G.mem_chipsByBus.mp mem),
      kept.2.trans (updateGcBlk kept.1 (G.mem_chipsByBus.mp mem))⟩) ⟨inv, refl fb⟩).2

theorem delInvalidatePgs (inv : Inv G .rest fb) {reqLpas : List ℕ}
    (inside : ∀ lpa ∈ reqLpas, lpa < G.numLogPages) :
    SameWear G fb (fb.delInvalidatePgs G reqLpas) :=
  (foldl_preserves (fun other => Inv G .rest other ∧ SameWear G fb other)
    (fun lpa mem _ kept => ⟨kept.1.invalidateLpgAtRest (inside lpa mem),
      kept.2.trans (invalidateLpg kept.1 (by simp) (inside lpa mem))⟩) ⟨inv, refl fb⟩).2

theorem bgcReadValidPgs (fb : Fb) : SameWear G fb (fb.bgcReadValidPgs G).2 := by
  refine forEach_preserves (fun sweep : Fb.Sweep => SameWear G fb sweep.fb)
    (fun _ _ sweep same => same.trans ?_) (refl fb)
  unfold Fb.bgcReadValidPg Fb.bgcReadValidPgOf
  rcases victim : sweep.fb.getVicBlk (sweep.fb.getNextBusChip G) with _ | b
  · simp only [victim]
    exact of_gcBlks rfl (fun _ => rfl) rfl
  · simp only [victim]
    split_ifs <;> exact of_gcBlks rfl (fun _ => rfl) rfl

end SameWear

/-! ### Operations that give commands -/

/-- The GC block of a chip is erased, and the erase is counted. -/
structure Recycles (G : Geometry) (b : BlockId) (fb other : Fb) : Prop where
  hasBlock : G.HasBlock b
  reserved : fb.gcm.gcBlks b.chip = some b
  elsewhere : ∀ c, G.HasChip c → fb.gcm.gcBlks c = some b → c = b.chip
  fits : (pagesSince b fb.flashLog).length ≤ G.numPagesPerBlock
  flashLog : other.flashLog = .erase b :: fb.flashLog
  nrEraseCnt : ∀ block, (other.ssdi.blocks block).nrEraseCnt =
    if b = block then ((fb.ssdi.blocks block).nrEraseCnt + 1) % 2 ^ 32
    else (fb.ssdi.blocks block).nrEraseCnt
  gcBlks : other.gcm.gcBlks = Function.update fb.gcm.gcBlks b.chip none

/-- All that the flash translation layer does to the virtual device. -/
inductive FlashStep (G : Geometry) : Fb → Fb → Prop where
  | quiet {fb other : Fb} (same : SameWear G fb other) : FlashStep G fb other
  | program {fb : Fb} {b : BlockId} {pg : ℕ} (hasBlock : G.HasBlock b)
      (notReserved : ∀ c, G.HasChip c → fb.gcm.gcBlks c ≠ some b) (src : Slot → PageData) :
      FlashStep G fb (fb.vdeviceWrite b pg src)
  | recycle {fb other : Fb} {b : BlockId} (recycles : Recycles G b fb other) : FlashStep G fb other

/-- The steps of one or several functions. -/
abbrev FlashSteps (G : Geometry) : Fb → Fb → Prop := Relation.ReflTransGen (FlashStep G)

namespace FlashSteps

variable {G : Geometry} {fb other : Fb} {c : ChipId} {b : BlockId} {blk pg : ℕ} {lpas : Slot → ℕ}
  {src : Slot → PageData}

theorem quiet (same : SameWear G fb other) : FlashSteps G fb other := .single (.quiet same)

theorem scratchOnly (same : ScratchOnly fb other) : FlashSteps G fb other :=
  quiet (.of_scratchOnly same)

/-! ### Programming a page -/

/-- The active block of a chip is not its GC block. -/
theorem active_notReserved (inv : Inv G .rest fb) (hasChip : G.HasChip c)
    (active : fb.abm.actBlks c = some b) (c' : ChipId) (hasOther : G.HasChip c') :
    fb.gcm.gcBlks c' ≠ some b := by
  intro reserved
  have same : c' = c :=
    (inv.of_gc hasOther reserved).1.symm.trans (inv.of_active hasChip active).1
  subst c'
  have place : Place.active = .gc := (inv.chipOk c hasChip).partition.unique
    (b := b) (by simp [FlashChip.holds, active]) .gc (by simp [FlashChip.holds, reserved])
  simp at place

theorem programPage (inv : Inv G .rest fb) (hasChip : G.HasChip c)
    (active : fb.abm.actBlks c = some ⟨c, blk⟩)
    (pg_eq : pg = G.numPagesPerBlock - (fb.ssdi.blocks ⟨c, blk⟩).nrFreePages)
    (lpasOk : ∀ lp, LpaOk G (lpas lp)) (src : Slot → PageData) :
    FlashSteps G fb (fb.programPage G c blk pg lpas src) := by
  have written := inv.vdeviceWrite hasChip active pg_eq src
  have mapped := SameWear.mapLogicalToPhysical written pg_eq lpasOk
  have moved : SameWear G ((fb.vdeviceWrite ⟨c, blk⟩ pg src).mapLogicalToPhysical G lpas ⟨c, blk⟩ pg)
      (((fb.vdeviceWrite ⟨c, blk⟩ pg src).mapLogicalToPhysical G lpas ⟨c, blk⟩ pg).setPrevBusChip c) :=
    .of_gcBlks rfl (fun _ => rfl) rfl
  have programmed : FlashSteps G fb (fb.vdeviceWrite ⟨c, blk⟩ pg src) :=
    .single (.program (inv.of_active hasChip active).2 (active_notReserved inv hasChip active) src)
  exact programmed.trans (quiet ((mapped.trans moved).trans (.updateActBlk _ c)))

theorem programAllocated (inv : Inv G .rest fb)
    (alloc : fb.allocNewPage G (fb.getNextBusChip G) = (some (blk, pg), other))
    (lpasOk : ∀ lp, LpaOk G (lpas lp)) (src : Slot → PageData) :
    FlashSteps G fb (other.programPage G (fb.getNextBusChip G) blk pg lpas src) := by
  have hasChip := hasChip_getNextBusChip inv.mruOk
  rcases inv.allocNewPage_of_some hasChip alloc with ⟨next, active, pg_eq⟩
  have opened := SameWear.allocNewPage (G := G) fb (fb.getNextBusChip G)
  rw [alloc] at opened
  exact (quiet opened).trans (programPage next hasChip active pg_eq lpasOk src)

theorem progPage (inv : Inv G .rest fb) (ptr : ℕ) : FlashSteps G fb (fb.progPage G ptr).2 := by
  have hasChip := hasChip_getNextBusChip inv.mruOk
  rcases alloc : fb.allocNewPage G (fb.getNextBusChip G) with ⟨_ | ⟨blk, pg⟩, other⟩
  · rw [Fb.progPage_of_none alloc, (Inv.allocNewPage_of_none alloc).1]
  · rcases inv.allocNewPage_of_some hasChip alloc with ⟨next, active, pg_eq⟩
    have opened := SameWear.allocNewPage (G := G) fb (fb.getNextBusChip G)
    rw [alloc] at opened
    have padded := next.padLpasToCopy ptr (fb.gcm.nrPgsToCopy - ptr)
    rw [Fb.progPage_of_some alloc]
    refine (quiet (opened.trans (.of_scratchOnly
      (.padLpasToCopy other ptr (fb.gcm.nrPgsToCopy - ptr))))).trans ?_
    exact programPage padded hasChip (by simpa using active) (by simpa using pg_eq)
      (fun lp => padded.lpasOk (ptr + lp)) _

/-! ### Recycling the GC block of a chip -/

theorem eraseBlk_nrEraseCnt (fb : Fb) (c : ChipId) (b block : BlockId) :
    ((fb.eraseBlk G c b).ssdi.blocks block).nrEraseCnt =
      if b = block then ((fb.ssdi.blocks block).nrEraseCnt + 1) % 2 ^ 32
      else (fb.ssdi.blocks block).nrEraseCnt := by
  rw [fb.eraseBlk_blocks]
  by_cases same : block = b
  · subst block
    simp [FlashBlock.incBersCnt, FlashBlock.initBlkInf]
  · simp [same, Ne.symm same]

/-- The erased block leaves the GC slot, and becomes the active block or a free block before. -/
theorem recycle (inv : Inv G .rest fb) (hasChip : G.HasChip b.chip)
    (reserved : fb.gcm.gcBlks b.chip = some b)
    (same : SameWear G (fb.eraseBlk G b.chip b) other)
    (gcBlks : other.gcm.gcBlks = (fb.eraseBlk G b.chip b).gcm.gcBlks) :
    FlashSteps G fb (other.setCurrGcBlock b.chip none) := by
  have hasBlock := (inv.of_gc hasChip reserved).2
  refine .single (.recycle
    { hasBlock := hasBlock
      reserved := reserved
      elsewhere := fun c hasOther same => (inv.of_gc hasOther same).1.symm
      fits := ?_
      flashLog := same.flashLog
      nrEraseCnt := fun block => ?_
      gcBlks := ?_ })
  · rw [← programmed_eq_pagesSince, inv.programmed_eq b hasBlock]
    simp [pagesBelow]
  · exact (same.nrEraseCnt block).trans (eraseBlk_nrEraseCnt fb b.chip b block)
  · change Function.update other.gcm.gcBlks b.chip none = _
    rw [gcBlks]
    rfl

theorem prepareActBlk (inv : Inv G .rest fb) (hasChip : G.HasChip c) :
    FlashSteps G fb (fb.prepareActBlk G c).2 := by
  unfold Fb.prepareActBlk
  rcases fb.getCurrActiveBlock c with _ | _
  · rcases reserved : fb.getCurrGcBlock c with _ | b
    · exact .refl
    · rcases inv.of_gc hasChip reserved with ⟨rfl, _⟩
      exact recycle inv hasChip reserved (.setCurrActiveBlock _ b.chip (some b)) rfl
  · exact .refl

theorem recycleGcBlk (inv : Inv G .rest fb) (hasChip : G.HasChip b.chip)
    (reserved : fb.gcm.gcBlks b.chip = some b) : FlashSteps G fb (fb.recycleGcBlk G b) := by
  unfold Fb.recycleGcBlk
  simp only
  split_ifs
  · exact recycle inv hasChip reserved (.setCurrActiveBlock _ b.chip (some b)) rfl
  · exact recycle inv hasChip reserved (.of_gcBlks rfl (fun _ => rfl) rfl) rfl

theorem bgcPrepareActBlk (inv : Inv G .rest fb) : FlashSteps G fb (fb.bgcPrepareActBlk G).2 := by
  have hasChip := hasChip_getNextBusChip inv.mruOk
  unfold Fb.bgcPrepareActBlk
  generalize fb.getNextBusChip G = c at hasChip ⊢
  rcases reserved : fb.gcm.gcBlks c with _ | b
  · simpa [Fb.bgcPrepareActBlkOf, Fb.getCurrGcBlock, reserved] using .refl
  rcases inv.of_gc hasChip reserved with ⟨rfl, _⟩
  rw [bgcPrepareActBlkOf_eq reserved]
  have replaced := SameWear.updateGcBlk (inv.recycleGcBlk hasChip reserved) hasChip
  have moved : SameWear G ((fb.recycleGcBlk G b).updateGcBlk b.chip).2
    (((fb.recycleGcBlk G b).updateGcBlk b.chip).2.setPrevBusChip b.chip) :=
    .of_gcBlks rfl (fun _ => rfl) rfl
  exact (recycleGcBlk inv hasChip reserved).trans (quiet (replaced.trans moved))

/-! ### Whole functions -/

/-- What a loop over functions does, given what one iteration does. -/
theorem forEach {Item : Type} {f : Item → Fb → Ret × Fb} {items : List Item}
    (inv : Inv G .rest fb)
    (kept : ∀ item ∈ items, ∀ fb, Inv G .rest fb → Inv G .rest (f item fb).2)
    (steps : ∀ item ∈ items, ∀ fb, Inv G .rest fb → FlashSteps G fb (f item fb).2) :
    FlashSteps G fb (FlashBench.forEach f items fb).2 :=
  (forEach_preserves (fun other => Inv G .rest other ∧ FlashSteps G fb other)
    (fun item mem other both => ⟨kept item mem other both.1,
      both.2.trans (steps item mem other both.1)⟩) ⟨inv, .refl⟩).2

/-- A function and what is done when it succeeds. -/
theorem andThen {result : Ret × Fb} {next : Fb → Ret × Fb} (inv : Inv G .rest result.2)
    (steps : FlashSteps G fb result.2)
    (more : ∀ fb, Inv G .rest fb → FlashSteps G fb (next fb).2) :
    FlashSteps G fb (FlashBench.andThen result next).2 :=
  andThen_rule (fun result => FlashSteps G fb result.2) (fun _ => steps)
    fun _ => steps.trans (more _ inv)

theorem progValidPgsToGcBlks (inv : Inv G .rest fb) :
    FlashSteps G fb (fb.progValidPgsToGcBlks G).2 :=
  forEach inv (fun ptr _ _ inv => inv.progPage ptr) fun ptr _ _ inv => progPage inv ptr

theorem triggerGcPageMapping (inv : Inv G .rest fb) :
    FlashSteps G fb (fb.triggerGcPageMapping G).2 := by
  have prepared : FlashSteps G fb.initGcm (fb.initGcm.prepareActBlks G).2 :=
    forEach inv.initGcm (fun _ mem _ inv => inv.prepareActBlk (G.mem_chipsByChip.mp mem))
      fun _ mem _ inv => prepareActBlk inv (G.mem_chipsByChip.mp mem)
  refine andThen inv.initGcm.prepareActBlks ((scratchOnly (.initGcm fb)).trans prepared)
    fun fb inv => ?_
  refine andThen inv.setVicBlks (scratchOnly (.setVicBlks fb)) fun fb inv => ?_
  refine andThen inv.getValidPgsInVicBlks (scratchOnly (.getValidPgsInVicBlks fb))
    fun fb inv => ?_
  exact andThen inv.progValidPgsToGcBlks (progValidPgsToGcBlks inv)
    fun fb inv => quiet (.updateGcBlks inv)

theorem triggerBgGc (inv : Inv G .rest fb) : FlashSteps G fb (fb.triggerBgGc G).2 := by
  unfold Fb.triggerBgGc
  split_ifs
  · exact forEach inv (fun _ _ _ inv => inv.bgcPrepareActBlk)
      fun _ _ _ inv => bgcPrepareActBlk inv
  refine andThen inv.initGcm.bgcSetVicBlks
    (scratchOnly ((ScratchOnly.initGcm fb).trans (.bgcSetVicBlks _))) fun fb inv => ?_
  refine andThen inv.bgcReadValidPgs (quiet (.bgcReadValidPgs fb)) fun fb inv => ?_
  split_ifs
  · exact .refl
  · exact andThen inv.progValidPgsToGcBlks (progValidPgsToGcBlks inv)
      fun fb inv => quiet (.updateGcBlks inv)

theorem allocOrFail (inv : Inv G .rest fb) (lpasOk : ∀ lp, LpaOk G (lpas lp)) :
    FlashSteps G fb (fb.allocOrFail G lpas src).2 := by
  rcases alloc : fb.allocNewPage G (fb.getNextBusChip G) with ⟨_ | ⟨blk, pg⟩, other⟩
  · simpa [Fb.allocOrFail, alloc, (Inv.allocNewPage_of_none alloc).1] using .refl
  · simpa [Fb.allocOrFail, alloc] using programAllocated inv alloc lpasOk src

theorem allocAndProgram (inv : Inv G .rest fb) (lpasOk : ∀ lp, LpaOk G (lpas lp)) :
    FlashSteps G fb (fb.allocAndProgram G lpas src).2 := by
  rcases alloc : fb.allocNewPage G (fb.getNextBusChip G) with ⟨_ | ⟨blk, pg⟩, other⟩
  · have collected : FlashSteps G fb (FlashBench.andThen (fb.triggerGcPageMapping G) fun fb =>
        fb.allocOrFail G lpas src).2 :=
      andThen inv.triggerGcPageMapping (triggerGcPageMapping inv)
        fun _ inv => allocOrFail inv lpasOk
    simpa [Fb.allocAndProgram, alloc, (Inv.allocNewPage_of_none alloc).1] using collected
  · simpa [Fb.allocAndProgram, alloc] using programAllocated inv alloc lpasOk src

/-- Whatever a command does, it does in steps of the virtual device. -/
theorem exec (inv : Inv G .rest fb) (command : Command) (inRange : command.InRange G) :
    FlashSteps G fb (command.exec G fb).2 := by
  cases command with
  | write lpas src =>
      have lpasOk (lp : Slot) : LpaOk G (lpas lp) := Or.inr (inRange lp)
      change FlashSteps G fb (fb.makeWriteRequest G lpas src).2
      unfold Fb.makeWriteRequest
      split_ifs
      · exact andThen inv.triggerGcPageMapping (triggerGcPageMapping inv)
          fun _ inv => allocAndProgram inv lpasOk
      · exact allocAndProgram inv lpasOk
  | invalidate lpas => exact quiet (.delInvalidatePgs inv inRange)
  | foregroundGc => exact triggerGcPageMapping inv
  | backgroundGc => exact triggerBgGc inv

end FlashSteps

/-! ### Wear over whole runs -/

/-- The block that `create_gc_mngr` reserves for a chip. -/
def firstGcBlk (G : Geometry) (garbage : Garbage) (c : ChipId) : Option BlockId :=
  (Fb.create G garbage).bind fun fb => fb.gcm.gcBlks c

/-- The block is the one that `create_gc_mngr` reserves for its chip. -/
def FirstReserved (G : Geometry) (garbage : Garbage) (b : BlockId) : Prop :=
  firstGcBlk G garbage b.chip = some b

instance (G : Geometry) (garbage : Garbage) : DecidablePred (FirstReserved G garbage) :=
  fun b => inferInstanceAs (Decidable (firstGcBlk G garbage b.chip = some b))

/-- Erases are counted and paid, GC blocks are full, and a block that `create_gc_mngr` reserved
waits in the GC slot for its first erase. -/
structure Wear (G : Geometry) (garbage : Garbage) (fb : Fb) : Prop where
  counted : ∀ b, (fb.ssdi.blocks b).nrEraseCnt = erases b fb.flashLog % 2 ^ 32
  paid : AllPaid G.numPagesPerBlock (FirstReserved G garbage) fb.flashLog
  waits : ∀ b, FirstReserved G garbage b → erases b fb.flashLog = 0 →
    fb.gcm.gcBlks b.chip = some b ∧ programs b fb.flashLog = 0
  full : ∀ c b, G.HasChip c → fb.gcm.gcBlks c = some b →
    G.numPagesPerBlock ≤ (pagesSince b fb.flashLog).length ∨
      FirstReserved G garbage b ∧ erases b fb.flashLog = 0

namespace Wear

variable {G : Geometry} {garbage : Garbage} {fb other : Fb} {b : BlockId} {pg : ℕ}

theorem quiet (wear : Wear G garbage fb) (same : SameWear G fb other) : Wear G garbage other where
  counted b := by rw [same.nrEraseCnt, same.flashLog]; exact wear.counted b
  paid := by rw [same.flashLog]; exact wear.paid
  waits b first never := by
    rw [same.flashLog] at never ⊢
    rcases wear.waits b first never with ⟨reserved, unused⟩
    exact ⟨same.kept _ b reserved, unused⟩
  full c b hasChip reserved := by
    rw [same.flashLog]
    rcases same.full c b hasChip reserved with before | isFull
    · exact wear.full c b hasChip before
    · exact Or.inl isFull

theorem program (wear : Wear G garbage fb) (hasBlock : G.HasBlock b)
    (notReserved : ∀ c, G.HasChip c → fb.gcm.gcBlks c ≠ some b) (src : Slot → PageData) :
    Wear G garbage (fb.vdeviceWrite b pg src) where
  counted := wear.counted
  paid := wear.paid
  waits block first never := by
    rcases wear.waits block first never with ⟨reserved, unused⟩
    have different : b ≠ block := by
      rintro rfl
      exact notReserved b.chip hasBlock.1 reserved
    refine ⟨reserved, ?_⟩
    change programs block (.program b pg :: fb.flashLog) = 0
    simp [programs, unused, different]
  full c block hasChip reserved := by
    have different : b ≠ block := by
      rintro rfl
      exact notReserved c hasChip reserved
    change _ ≤ (pagesSince block (.program b pg :: fb.flashLog)).length ∨ _
    rw [pagesSince, if_neg different]
    exact wear.full c block hasChip reserved

theorem recycle (wear : Wear G garbage fb) (hasChip : G.HasChip b.chip)
    (recycles : Recycles G b fb other) : Wear G garbage other where
  counted block := by
    rw [recycles.nrEraseCnt, recycles.flashLog, wear.counted, erases]
    split_ifs
    · exact Nat.mod_add_mod _ _ _
    · rfl
  paid := by
    rw [recycles.flashLog]
    refine ⟨?_, wear.paid⟩
    unfold Paid
    split_ifs with granted
    · exact (wear.waits b granted.1 granted.2).2
    · rcases wear.full b.chip b hasChip recycles.reserved with isFull | waiting
      · exact le_antisymm recycles.fits isFull
      · exact absurd waiting granted
  waits block first never := by
    rw [recycles.flashLog] at never ⊢
    have different : b ≠ block := by
      rintro rfl
      simp [erases] at never
    simp only [erases, if_neg different, Nat.add_zero] at never
    rcases wear.waits block first never with ⟨reserved, unused⟩
    have otherChip : block.chip ≠ b.chip := by
      intro same
      rw [same, recycles.reserved, Option.some.injEq] at reserved
      exact different reserved
    rw [recycles.gcBlks, Function.update_of_ne otherChip]
    exact ⟨reserved, unused⟩
  full c block hasChip reserved := by
    rw [recycles.gcBlks] at reserved
    have otherChip : c ≠ b.chip := by
      rintro rfl
      simp at reserved
    rw [Function.update_of_ne otherChip] at reserved
    have different : b ≠ block := by
      rintro rfl
      exact otherChip (recycles.elsewhere c hasChip reserved)
    rw [recycles.flashLog, pagesSince, if_neg different, erases, if_neg different]
    exact wear.full c block hasChip reserved

theorem flashSteps (wear : Wear G garbage fb) (steps : FlashSteps G fb other) :
    Wear G garbage other := by
  induction steps with
  | refl => exact wear
  | tail _ step ih =>
      cases step with
      | quiet same => exact ih.quiet same
      | program hasBlock notReserved src => exact ih.program hasBlock notReserved src
      | recycle recycles => exact ih.recycle recycles.hasBlock.1 recycles

/-- Creation neither programs nor erases. -/
theorem untouched_of_create (created : Fb.create G garbage = some fb) :
    fb.flashLog = [] ∧ ∀ b, (fb.ssdi.blocks b).nrEraseCnt = 0 := by
  have taken {fb other : Fb} (untouched : fb.flashLog = [] ∧ ∀ b, (fb.ssdi.blocks b).nrEraseCnt = 0)
      (same : SameWear G fb other) :
      other.flashLog = [] ∧ ∀ b, (other.ssdi.blocks b).nrEraseCnt = 0 :=
    ⟨same.flashLog.trans untouched.1, fun b => (same.nrEraseCnt b).trans (untouched.2 b)⟩
  have kept : (andThen (forEach Fb.createActBlk G.chipsByBus (Fb.blank G garbage)) fun fb =>
      forEach Fb.createGcBlk G.chipsByBus fb).2.flashLog = [] ∧
      ∀ b, ((andThen (forEach Fb.createActBlk G.chipsByBus (Fb.blank G garbage)) fun fb =>
        forEach Fb.createGcBlk G.chipsByBus fb).2.ssdi.blocks b).nrEraseCnt = 0 := by
    refine andThen_preserves
      (fun fb : Fb => fb.flashLog = [] ∧ ∀ b, (fb.ssdi.blocks b).nrEraseCnt = 0) ?_
      fun fb untouched => ?_
    · refine forEach_preserves
        (fun fb : Fb => fb.flashLog = [] ∧ ∀ b, (fb.ssdi.blocks b).nrEraseCnt = 0)
        (fun c _ fb untouched => ?_) ⟨rfl, fun b => ?_⟩
      · unfold Fb.createActBlk
        rcases fb.getFreeBlock c with _ | b
        · exact untouched
        · have removed : SameWear G fb (fb.resetFreeBlk b) := .of_gcBlks rfl (fun _ => rfl) rfl
          have flagged := removed.trans (.updBlock _ b (·.setActBlkFlag true) fun _ => rfl)
          exact taken untouched (flagged.trans (.of_gcBlks rfl (fun _ => rfl) rfl))
      · change ((SsdInfo.create G).blocks b).nrEraseCnt = 0
        rw [create_blocks]
        rfl
    · refine forEach_preserves
        (fun fb : Fb => fb.flashLog = [] ∧ ∀ b, (fb.ssdi.blocks b).nrEraseCnt = 0)
        (fun c _ fb untouched => ?_) untouched
      unfold Fb.createGcBlk
      rcases fb.getFreeBlock c with _ | b
      · exact untouched
      · have removed : SameWear G fb (fb.resetFreeBlk b) := .of_gcBlks rfl (fun _ => rfl) rfl
        have flagged := removed.trans (.updBlock _ b (·.setRsvBlkFlag true) fun _ => rfl)
        have stillUntouched := taken untouched flagged
        exact stillUntouched
  unfold Fb.create at created
  split at created
  · next fb' result =>
    rw [result] at kept
    simp only [Option.some.injEq] at created
    rwa [← created]
  · simp at created

theorem of_created (created : Fb.create G garbage = some fb) : Wear G garbage fb := by
  rcases untouched_of_create created with ⟨noCommand, noErase⟩
  refine ⟨fun b => ?_, ?_, fun b first _ => ?_, fun c b hasChip reserved => ?_⟩
  · rw [noErase, noCommand]
    rfl
  · rw [noCommand]
    trivial
  · rw [FirstReserved, firstGcBlk, created] at first
    exact ⟨first, by rw [noCommand]; rfl⟩
  · have own := ((Created.of_create created).inv.of_gc hasChip reserved).1
    rw [noCommand, FirstReserved, firstGcBlk, created, own]
    exact Or.inr ⟨reserved, rfl⟩

end Wear

theorem Reachable.wear {G : Geometry} {garbage : Garbage} {fb : Fb}
    (reachable : Reachable G garbage fb) : Wear G garbage fb := by
  induction reachable with
  | create created => exact .of_created created
  | exec reachable command inRange ih =>
      exact ih.flashSteps (.exec reachable.inv command inRange)

/-- In every run, `nr_erase_cnt` counts the erases of a block modulo 2^32, and apart from the first
erase of the block that `create_gc_mngr` reserves for a chip each of them follows a program of
every page of the block. So the page programs of a block give its erases and the number of its
pages in use, and some blocks together cannot wear out faster than they are programmed. -/
theorem erases_paid {G : Geometry} {garbage : Garbage} {fb : Fb}
    (reachable : Reachable G garbage fb) :
    AllPaid G.numPagesPerBlock (FirstReserved G garbage) fb.flashLog ∧
    (∀ b, G.HasBlock b →
      (fb.ssdi.blocks b).nrEraseCnt = erases b fb.flashLog % 2 ^ 32 ∧
      programs b fb.flashLog +
          headStart G.numPagesPerBlock (FirstReserved G garbage) fb.flashLog b =
        G.numPagesPerBlock * erases b fb.flashLog +
          (G.numPagesPerBlock - (fb.ssdi.blocks b).nrFreePages) ∧
      programs b fb.flashLog +
          headStart G.numPagesPerBlock (FirstReserved G garbage) fb.flashLog b ≡
        G.numPagesPerBlock * (fb.ssdi.blocks b).nrEraseCnt +
          (G.numPagesPerBlock - (fb.ssdi.blocks b).nrFreePages)
        [MOD G.numPagesPerBlock * 2 ^ 32]) ∧
    ∀ blocks : Finset BlockId,
      G.numPagesPerBlock * ∑ b ∈ blocks, erases b fb.flashLog ≤
        ∑ b ∈ blocks, programs b fb.flashLog +
          G.numPagesPerBlock * (blocks.filter (FirstReserved G garbage)).card := by
  have wear := reachable.wear
  refine ⟨wear.paid, fun b hasBlock => ?_, wear.paid.sum_erases_le⟩
  have inUse : (pagesSince b fb.flashLog).length =
      G.numPagesPerBlock - (fb.ssdi.blocks b).nrFreePages := by
    rw [← programmed_eq_pagesSince, reachable.inv.programmed_eq b hasBlock]
    simp [pagesBelow]
  have balance := wear.paid.balance b
  rw [inUse] at balance
  refine ⟨wear.counted b, balance, ?_⟩
  rw [balance, wear.counted b]
  apply Nat.ModEq.add_right
  apply Nat.ModEq.mul_left'
  exact (Nat.mod_modEq _ _).symm

/-- After the collection background GC makes the GC block of each chip its active block. -/
@[irreducible]
def recycledFb : Fb := Command.execAll .threeBlocks threeBlocksFb (collectBlocks ++ [.backgroundGc])

/-- Block 0 of chip 0 was filled before its erase. Block 1 is the one that `create_gc_mngr`
reserved, and was filled after its erase. -/
theorem erases_paid_recycledFb :
    (erases ⟨⟨0, 0⟩, 0⟩ recycledFb.flashLog = 1 ∧ erases ⟨⟨0, 0⟩, 1⟩ recycledFb.flashLog = 1) ∧
    AllPaid Geometry.threeBlocks.numPagesPerBlock (FirstReserved .threeBlocks .zeroed)
      recycledFb.flashLog ∧
    programs ⟨⟨0, 0⟩, 0⟩ recycledFb.flashLog +
        headStart Geometry.threeBlocks.numPagesPerBlock (FirstReserved .threeBlocks .zeroed)
          recycledFb.flashLog ⟨⟨0, 0⟩, 0⟩ =
      Geometry.threeBlocks.numPagesPerBlock * erases ⟨⟨0, 0⟩, 0⟩ recycledFb.flashLog +
        (Geometry.threeBlocks.numPagesPerBlock -
          (recycledFb.ssdi.blocks ⟨⟨0, 0⟩, 0⟩).nrFreePages) := by
  have reachable : Reachable .threeBlocks .zeroed recycledFb := by
    unfold recycledFb
    apply (Reachable.create threeBlocksFb_created).execAll
    decide
  have paid := erases_paid reachable
  exact ⟨⟨by decide +kernel, by decide +kernel⟩, paid.1, (paid.2.1 ⟨⟨0, 0⟩, 0⟩ (by decide)).2.1⟩

end FlashBench
