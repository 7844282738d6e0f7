import FlashBench.InvariantSteps

/-!
# Allocation, mapping and invalidation keep the invariant

`fillSubPage` and `markInvalid` are the two halves of
`__map_logical_to_physical`: the latter is all of `invalidate_lpg` but the move of
a block whose pages have all become invalid.
-/

namespace FlashBench

open PgStatus

/-! ### The two halves of a mapping step -/

namespace Fb

variable (G : Geometry) (fb : Fb)

/-- The sub-page becomes INVALID and is counted. -/
def markInvalid (l : Location) : Fb :=
  let page := (fb.ssdi.pages l.block l.page).afterInvalidate l.slot
  { fb with
    ssdi.blocks := Function.update fb.ssdi.blocks l.block
      ((fb.ssdi.blocks l.block).afterInvalidate (page.nrInvalidLogPages = nrLpInPp))
    ssdi.pages := Function.update fb.ssdi.pages l.block
      (Function.update (fb.ssdi.pages l.block) l.page page) }

/-- The sub-page gets its status and its LPA, and the L2P table its address. -/
def fillSubPage (b : BlockId) (pg : ℕ) (lp : Slot) (lpa : ℕ) : Fb :=
  { fb with
    ssdi.blocks := Function.update fb.ssdi.blocks b ((fb.ssdi.blocks b).afterFill lpa)
    ssdi.pages := Function.update fb.ssdi.pages b
      (Function.update (fb.ssdi.pages b) pg ((fb.ssdi.pages b pg).afterFill lp lpa))
    mappings :=
      if lpa ≠ pageUnmapped then Function.update fb.mappings lpa (physicalAddress ⟨b, pg, lp⟩)
      else fb.mappings }

theorem invalidateSubPage_eq (l : Location) :
    fb.invalidateSubPage G l =
      if ((fb.ssdi.pages l.block l.page).afterInvalidate l.slot).nrInvalidLogPages = nrLpInPp ∧
          ((fb.markInvalid l).ssdi.blocks l.block).nrInvalidPages = G.numPagesPerBlock then
        (fb.markInvalid l).reclaimInvalidBlk l.block
      else fb.markInvalid l := by
  by_cases dies :
      ((fb.ssdi.pages l.block l.page).afterInvalidate l.slot).nrInvalidLogPages = nrLpInPp
  · have counted : (fb.ssdi.pages l.block l.page).nrInvalidLogPages + 1 = nrLpInPp := dies
    simp [invalidateSubPage, markInvalid, updPage, updBlock, SsdInfo.updPage, SsdInfo.updBlock,
      FlashBlock.afterInvalidate, FlashPage.afterInvalidate, FlashPage.incNrInvalidLps,
      FlashPage.setPgStatus, counted]
  · have counted : ¬(fb.ssdi.pages l.block l.page).nrInvalidLogPages + 1 = nrLpInPp := dies
    simp [invalidateSubPage, markInvalid, updPage, updBlock, SsdInfo.updPage, SsdInfo.updBlock,
      FlashBlock.afterInvalidate, FlashPage.afterInvalidate, FlashPage.incNrInvalidLps,
      FlashPage.setPgStatus, counted]

variable {fb} in
theorem reclaimInvalidBlk_of_none {b : BlockId} (idle : fb.gcm.gcBlks b.chip = none) :
    fb.reclaimInvalidBlk b = (fb.resetUsedBlk b).setCurrGcBlock b.chip (some b) := by
  have same : (fb.resetUsedBlk b).getCurrGcBlock b.chip = none := idle
  simp [reclaimInvalidBlk, same]

variable {fb} in
theorem reclaimInvalidBlk_of_some {b gcBlk : BlockId} (reserved : fb.gcm.gcBlks b.chip = some gcBlk) :
    fb.reclaimInvalidBlk b = (fb.resetUsedBlk b).setDirtBlk b := by
  have same : (fb.resetUsedBlk b).getCurrGcBlock b.chip = some gcBlk := reserved
  simp [reclaimInvalidBlk, same]

variable {fb} in
theorem invalidateLpg_of_unmapped {lpa : ℕ} (unmapped : fb.mappings lpa = pageUnmapped) :
    (fb.invalidateLpg G lpa).2 = fb := by
  simp [invalidateLpg, getMappedPpa, unmapped]

variable {fb} in
theorem invalidateLpg_of_mapped {lpa : ℕ} (isMapped : fb.mappings lpa ≠ pageUnmapped) :
    (fb.invalidateLpg G lpa).2 =
      (fb.invalidateSubPage G (locate (fb.mappings lpa))).setMappedPpa lpa pageUnmapped := by
  simp [invalidateLpg, getMappedPpa, isMapped]

theorem invalidateLpg_unmaps (lpa : ℕ) :
    (fb.invalidateLpg G lpa).2.mappings lpa = pageUnmapped := by
  by_cases isMapped : fb.mappings lpa = pageUnmapped
  · rw [invalidateLpg_of_unmapped G isMapped]
    exact isMapped
  · rw [invalidateLpg_of_mapped G isMapped]
    exact Function.update_self _ _ _

/-- Everything `invalidate_lpg` can do. -/
theorem invalidateLpg_cases (lpa : ℕ) :
    (fb.mappings lpa = pageUnmapped ∧ (fb.invalidateLpg G lpa).2 = fb) ∨
      ∃ l, fb.mappings lpa ≠ pageUnmapped ∧ l = locate (fb.mappings lpa) ∧
        ((fb.invalidateLpg G lpa).2 = (fb.markInvalid l).setMappedPpa lpa pageUnmapped ∨
          (fb.gcm.gcBlks l.block.chip = none ∧ (fb.invalidateLpg G lpa).2 =
            (((fb.markInvalid l).resetUsedBlk l.block).setCurrGcBlock l.block.chip
              (some l.block)).setMappedPpa lpa pageUnmapped) ∨
          (fb.invalidateLpg G lpa).2 =
            (((fb.markInvalid l).resetUsedBlk l.block).setDirtBlk l.block).setMappedPpa lpa
              pageUnmapped) := by
  by_cases isMapped : fb.mappings lpa = pageUnmapped
  · exact Or.inl ⟨isMapped, invalidateLpg_of_unmapped G isMapped⟩
  refine Or.inr ⟨locate (fb.mappings lpa), isMapped, rfl, ?_⟩
  rw [invalidateLpg_of_mapped G isMapped, invalidateSubPage_eq]
  split_ifs with reclaimed
  · rcases slot : (fb.markInvalid (locate (fb.mappings lpa))).gcm.gcBlks
      (locate (fb.mappings lpa)).block.chip with _ | gcBlk
    · exact Or.inr (Or.inl ⟨slot, by rw [reclaimInvalidBlk_of_none slot]⟩)
    · exact Or.inr (Or.inr (by rw [reclaimInvalidBlk_of_some slot]))
  · exact Or.inl rfl

theorem mapLpa_eq (lpa : ℕ) (b : BlockId) (pg : ℕ) (lp : Slot) :
    fb.mapLpa G lpa b pg lp =
      let cleared := if lpa ≠ pageUnmapped then (fb.invalidateLpg G lpa).2 else fb
      if (lp : ℕ) = 3 then
        (cleared.fillSubPage b pg lp lpa).updBlock b (·.afterClose)
      else cleared.fillSubPage b pg lp lpa := by
  by_cases padding : lpa = pageUnmapped
  · simp [mapLpa, fillSubPage, updPage, updBlock, SsdInfo.updPage, SsdInfo.updBlock, padding,
      FlashBlock.afterFill, FlashPage.afterFill, FlashBlock.afterClose]
  · simp [mapLpa, fillSubPage, updPage, updBlock, SsdInfo.updPage, SsdInfo.updBlock, padding,
      FlashBlock.afterFill, FlashPage.afterFill, FlashBlock.afterClose, setMappedPpa]

end Fb

namespace Inv

variable {G : Geometry} {phase : Phase} {fb : Fb} {c : ChipId} {b : BlockId} {l : Location}
  {lpa pg : ℕ} {lp : Slot}

/-! ### Invalidation -/

/-- A full block with a VALID sub-page is in the used list. -/
theorem mem_used (inv : Inv G phase fb) (hasBlock : G.HasBlock b) (notFilled : phase ≠ .filled b)
    (full : (fb.ssdi.blocks b).nrFreePages = 0) (valid : 0 < (fb.ssdi.blocks b).nrValidLogPages) :
    b ∈ (fb.ssdi.chips b.chip).usedBlks := by
  have ok := inv.chipOk b.chip hasBlock.1
  rcases ok.partition.exists_place rfl hasBlock.2 with ⟨place, mem⟩
  have placeOk := ok.placeOk place b mem
  have := G.numPagesPerBlock_pos
  cases place with
  | used => exact mem
  | free => simp only [PlaceOk] at placeOk; omega
  | dirt => simp only [PlaceOk] at placeOk; omega
  | active => have := placeOk notFilled; omega
  | gc => simp only [PlaceOk] at placeOk; omega

theorem nrValidLogPages_pos (inv : Inv G phase fb) (hasLocation : G.HasLocation l)
    (isValid : (fb.ssdi.pages l.block l.page).pageStatus l.slot = valid) :
    0 < (fb.ssdi.blocks l.block).nrValidLogPages := by
  rw [(inv.blockOk l.block hasLocation.1).nrValidLogPages_eq]
  exact labelCount_pos (l.page, l.slot) (mem_subPages.mpr hasLocation.2) isValid

theorem markInvalid (inv : Inv G phase fb) (ofs_lt : ∀ b, phase.ofs b < 4)
    (inside : lpa < G.numLogPages) (hasLocation : G.HasLocation l)
    (forward : l2p G fb.mappings lpa = some l)
    (isValid : (fb.ssdi.pages l.block l.page).pageStatus l.slot = valid) :
    Inv G phase ((fb.markInvalid l).setMappedPpa lpa pageUnmapped) := by
  have ok := inv.blockOk l.block hasLocation.1
  have dies_eq : decide (((fb.ssdi.pages l.block l.page).afterInvalidate l.slot).nrInvalidLogPages =
      nrLpInPp) = decide ((fb.ssdi.pages l.block l.page).afterInvalidate l.slot).Dead :=
    decide_eq_decide.mpr (ok.pageDies_iff hasLocation.2 isValid)
  have positive := inv.nrValidLogPages_pos hasLocation isValid
  have counters : ∀ dies, ((fb.ssdi.blocks l.block).afterInvalidate dies).nrFreePages =
      (fb.ssdi.blocks l.block).nrFreePages ∧
      ((fb.ssdi.blocks l.block).afterInvalidate dies).isActiveBlock =
        (fb.ssdi.blocks l.block).isActiveBlock ∧
      ((fb.ssdi.blocks l.block).afterInvalidate dies).isReservedBlock =
        (fb.ssdi.blocks l.block).isReservedBlock := by
    intro dies
    cases dies <;> exact ⟨rfl, rfl, rfl⟩
  refine
    { blockOk := ?_
      mapOk := inv.mapOk.invalidate inside hasLocation forward
      chipOk := ?_
      historyOk := inv.historyOk
      programmed_eq := ?_
      lpasOk := inv.lpasOk
      mruOk := inv.mruOk
      phaseOk := inv.phaseOk }
  · intro b hasBlock
    change BlockOk G (phase.ofs b) (Function.update fb.ssdi.blocks l.block _ b)
      (Function.update fb.ssdi.pages l.block _ b)
    by_cases same : b = l.block
    · subst b
      rw [Function.update_self, Function.update_self]
      exact ok.invalidate (ofs_lt _) hasLocation.2 isValid dies_eq
    · rw [Function.update_of_ne same, Function.update_of_ne same]
      exact inv.blockOk b hasBlock
  · intro c hasChip
    refine (inv.chipOk c hasChip).recount _ (counters _).2.1 (counters _).2.2
      (fun _ _ same => same) ?_
    intro place mem
    have placeOk := (inv.chipOk c hasChip).placeOk place l.block mem
    cases place with
    | free => exact (counters _).1.trans placeOk
    | used => exact (counters _).1.trans placeOk
    | active => exact fun notFilled => (counters _).1 ▸ placeOk notFilled
    | dirt => simp only [PlaceOk] at placeOk; omega
    | gc => simp only [PlaceOk] at placeOk; omega
  · intro b hasBlock
    change programmed b fb.history = pagesBelow
      (G.numPagesPerBlock - (Function.update fb.ssdi.blocks l.block _ b).nrFreePages + _)
    rw [inv.programmed_eq b hasBlock]
    by_cases same : b = l.block
    · subst b
      rw [Function.update_self, (counters _).1]
    · rw [Function.update_of_ne same]

/-- `invalidate_lpg` keeps the invariant and leaves the LPA unmapped. -/
theorem invalidateLpg (inv : Inv G phase fb) (ofs_lt : ∀ b, phase.ofs b < 4)
    (notFilled : ∀ b, phase ≠ .filled b) (inside : lpa < G.numLogPages) :
    Inv G phase (fb.invalidateLpg G lpa).2 := by
  by_cases isMapped : fb.mappings lpa = pageUnmapped
  · rw [Fb.invalidateLpg_of_unmapped G isMapped]
    exact inv
  rcases inv.mapOk.mapped inside isMapped with ⟨l, hasLocation, address, forward, isValid, _⟩
  have marked := inv.markInvalid ofs_lt inside hasLocation forward isValid
  rw [Fb.invalidateLpg_of_mapped G isMapped, address, locate_physicalAddress hasLocation,
    Fb.invalidateSubPage_eq]
  split_ifs with reclaimed
  · -- the block has become all INVALID and leaves the used list
    rcases reclaimed with ⟨_, allInvalid⟩
    have ok : BlockOk G _ ((fb.markInvalid l).ssdi.blocks l.block)
      ((fb.markInvalid l).ssdi.pages l.block) := marked.blockOk l.block hasLocation.1
    have full := ok.nrFreePages_eq_zero allInvalid
    have noValid := ok.nrValidLogPages_eq_zero_of_all_dead (ok.all_dead allInvalid)
    have stillFull : (fb.ssdi.blocks l.block).nrFreePages = 0 := by
      rw [← full]
      simp only [Fb.markInvalid, Function.update_self, FlashBlock.afterInvalidate]
      split_ifs <;> rfl
    have mem : l.block ∈ (fb.ssdi.chips l.block.chip).usedBlks :=
      inv.mem_used hasLocation.1 (notFilled _) stillFull (inv.nrValidLogPages_pos hasLocation isValid)
    have chipOk := marked.chipOk l.block.chip hasLocation.1.1
    rcases slot : (fb.markInvalid l).gcm.gcBlks l.block.chip with _ | gcBlk
    · rw [Fb.reclaimInvalidBlk_of_none slot]
      refine marked.move (((Moves.resetUsedBlk _ l.block).trans
        (.setCurrGcBlock_some _ l.block)).setMappedPpa lpa pageUnmapped)
        (fun _ => rfl) (fun _ => rfl) (fun _ _ _ _ _ _ ok => ok) ?_ ⟨mem, inv.historyOk⟩
        inv.phaseOk
      change ChipOk G phase l.block.chip _ _ _ ((fb.markInvalid l).gcm.gcBlks l.block.chip) at chipOk
      rw [slot] at chipOk
      change ChipOk G phase l.block.chip (Function.update (fb.markInvalid l).ssdi.blocks l.block _)
        (Function.update fb.ssdi.chips l.block.chip _ l.block.chip) _
        (Function.update fb.gcm.gcBlks l.block.chip _ l.block.chip)
      rw [Function.update_self, Function.update_self]
      exact chipOk.usedToGc mem noValid
    · rw [Fb.reclaimInvalidBlk_of_some slot]
      refine marked.move (((Moves.resetUsedBlk _ l.block).trans
        (.setDirtBlk _ l.block)).setMappedPpa lpa pageUnmapped)
        (fun _ => rfl) (fun _ => rfl) (fun _ _ _ _ _ _ ok => ok) ?_ ⟨mem, inv.historyOk⟩
        inv.phaseOk
      change ChipOk G phase l.block.chip (fb.markInvalid l).ssdi.blocks
        (Function.update (Function.update fb.ssdi.chips l.block.chip _) l.block.chip
          (FlashChip.setDirtBlk (Function.update fb.ssdi.chips l.block.chip _ l.block.chip) _)
          l.block.chip) _ _
      rw [Function.update_self, Function.update_self]
      exact chipOk.usedToDirt mem noValid
  · exact marked

/-! ### Programming a page -/

/-- The page to program next in an active block, and what is known about it. -/
theorem nextPage (inv : Inv G .rest fb) (hasChip : G.HasChip c)
    (active : fb.abm.actBlks c = some b)
    (pg_eq : pg = G.numPagesPerBlock - (fb.ssdi.blocks b).nrFreePages) :
    b.chip = c ∧ G.HasBlock b ∧ pg < G.numPagesPerBlock ∧
      ∀ lp, (fb.ssdi.pages b pg).pageStatus lp = free := by
  rcases inv.of_active hasChip active with ⟨own, hasBlock⟩
  have open_ := inv.active_nrFreePages_pos hasChip active (by simp)
  have ok := inv.blockOk b hasBlock
  have := ok.nrFreePages_le
  refine ⟨own, hasBlock, by omega, fun lp => ?_⟩
  refine (ok.status_free pg (by omega) lp).mpr ?_
  simp only [Phase.ofs_rest]
  omega

theorem vdeviceWrite (inv : Inv G .rest fb) (hasChip : G.HasChip c)
    (active : fb.abm.actBlks c = some b)
    (pg_eq : pg = G.numPagesPerBlock - (fb.ssdi.blocks b).nrFreePages) (src : Slot → PageData) :
    Inv G (.filling b 0) (fb.vdeviceWrite b pg src) := by
  rcases inv.nextPage hasChip active pg_eq with ⟨own, hasBlock, pg_lt, isFree⟩
  subst c
  have noOfs (b' : BlockId) : (Phase.filling b 0).ofs b' = 0 := by
    simp only [Phase.ofs]
    split_ifs <;> rfl
  have untilNow : programmed b fb.history = pagesBelow pg := by
    rw [inv.programmed_eq b hasBlock, pg_eq]
    rfl
  exact
    { blockOk := fun b' hasBlock' => by rw [noOfs]; exact inv.blockOk b' hasBlock'
      mapOk := inv.mapOk
      chipOk := fun c hasChip =>
        { inv.chipOk c hasChip with
          placeOk := fun place member mem => by
            have placeOk := (inv.chipOk c hasChip).placeOk place member mem
            cases place with
            | active => exact fun _ => placeOk (by simp)
            | free => exact placeOk
            | used => exact placeOk
            | dirt => exact placeOk
            | gc => exact placeOk }
      historyOk := ⟨⟨hasBlock, pg_lt, untilNow, isFree⟩, inv.historyOk⟩
      programmed_eq := fun b' hasBlock' => by
        change (if b = b' then pg :: programmed b' fb.history else programmed b' fb.history) =
          pagesBelow (G.numPagesPerBlock - (fb.ssdi.blocks b').nrFreePages + if b = b' then 1 else 0)
        split_ifs with same
        · subst b'
          rw [untilNow, ← pg_eq, pagesBelow_succ]
        · exact inv.programmed_eq b' hasBlock'
      lpasOk := inv.lpasOk
      mruOk := inv.mruOk
      phaseOk := fun b' isCurrent => by
        simp only [Phase.current, Option.some.injEq] at isCurrent
        subst b'
        exact ⟨hasBlock, active⟩ }

theorem fillSubPage (inv : Inv G (.filling b lp) fb)
    (pg_eq : pg = G.numPagesPerBlock - (fb.ssdi.blocks b).nrFreePages)
    (lpaOk : lpa ≠ pageUnmapped → lpa < G.numLogPages ∧ fb.mappings lpa = pageUnmapped) :
    Inv G (.filling b (lp + 1)) (fb.fillSubPage b pg lp lpa) := by
  rcases inv.phaseOk b rfl with ⟨hasBlock, active⟩
  have ok := inv.blockOk b hasBlock
  rw [Phase.ofs_filling_self] at ok
  have open_ := inv.active_nrFreePages_pos hasBlock.1 active (by simp)
  have nrFree_le := ok.nrFreePages_le
  have pg_lt : pg < G.numPagesPerBlock := by omega
  have hasLocation : G.HasLocation ⟨b, pg, lp⟩ := ⟨hasBlock, pg_lt⟩
  have isFree : (fb.ssdi.pages b pg).pageStatus lp = free :=
    (ok.status_free pg pg_lt lp).mpr (by omega)
  have counters : ((fb.ssdi.blocks b).afterFill lpa).nrFreePages =
      (fb.ssdi.blocks b).nrFreePages ∧
      ((fb.ssdi.blocks b).afterFill lpa).isActiveBlock = (fb.ssdi.blocks b).isActiveBlock ∧
      ((fb.ssdi.blocks b).afterFill lpa).isReservedBlock =
        (fb.ssdi.blocks b).isReservedBlock := by
    unfold FlashBlock.afterFill
    split_ifs <;> exact ⟨rfl, rfl, rfl⟩
  refine
    { blockOk := ?_
      mapOk := ?_
      chipOk := ?_
      historyOk := inv.historyOk
      programmed_eq := ?_
      lpasOk := inv.lpasOk
      mruOk := inv.mruOk
      phaseOk := inv.phaseOk }
  · intro b' hasBlock'
    change BlockOk G _ (Function.update fb.ssdi.blocks b _ b') (Function.update fb.ssdi.pages b _ b')
    by_cases same : b' = b
    · subst b'
      rw [Function.update_self, Function.update_self, Phase.ofs_filling_self]
      exact ok.fill open_ pg_eq lpa
    · rw [Function.update_of_ne same, Function.update_of_ne same, Phase.ofs_filling_of_ne same]
      have other := inv.blockOk b' hasBlock'
      rwa [Phase.ofs_filling_of_ne same] at other
  · have freeSubPage : (fb.ssdi.pages b pg).pageStatus lp ≠ valid := by simp [isFree]
    by_cases padding : lpa = pageUnmapped
    · subst lpa
      have padded := inv.mapOk.pad hasLocation freeSubPage
      simpa [Fb.fillSubPage] using padded
    · rcases lpaOk padding with ⟨inside, freeLpa⟩
      have assigned := inv.mapOk.assign inside freeLpa hasLocation freeSubPage
      simpa [Fb.fillSubPage, padding] using assigned
  · intro c hasChip
    refine (inv.chipOk c hasChip).recount _ (counters.2.1) (counters.2.2)
      (fun _ _ same => by simp at same) ?_
    intro place mem
    have inActive : place = .active := by
      have own := (inv.chipOk c hasChip).partition.of_mem place mem
      refine (inv.chipOk c hasChip).partition.unique mem _ ?_
      simp [FlashChip.holds, ← own.1, active]
    subst place
    intro _
    rw [counters.1]
    exact open_
  · intro b' hasBlock'
    change programmed b' fb.history = pagesBelow
      (G.numPagesPerBlock - (Function.update fb.ssdi.blocks b _ b').nrFreePages + _)
    rw [inv.programmed_eq b' hasBlock']
    by_cases same : b' = b
    · subst b'
      rw [Function.update_self, counters.1]
      rfl
    · rw [Function.update_of_ne same]
      rfl

/-- The last sub-page of a page is mapped and the page counts as programmed. -/
theorem closePage (inv : Inv G (.filling b 4) fb) :
    Inv G (.filled b) (fb.updBlock b (·.afterClose)) := by
  rcases inv.phaseOk b rfl with ⟨hasBlock, active⟩
  have ok := inv.blockOk b hasBlock
  rw [Phase.ofs_filling_self] at ok
  have open_ := inv.active_nrFreePages_pos hasBlock.1 active (by simp)
  have nrFree_le := ok.nrFreePages_le
  have freePages : (fb.ssdi.blocks b).afterClose.nrFreePages =
      (fb.ssdi.blocks b).nrFreePages - 1 := dec32_of_pos open_
  refine
    { blockOk := ?_
      mapOk := inv.mapOk
      chipOk := ?_
      historyOk := inv.historyOk
      programmed_eq := ?_
      lpasOk := inv.lpasOk
      mruOk := inv.mruOk
      phaseOk := inv.phaseOk }
  · intro b' hasBlock'
    change BlockOk G _ (Function.update fb.ssdi.blocks b _ b') (fb.ssdi.pages b')
    by_cases same : b' = b
    · subst b'
      rw [Function.update_self]
      exact ok.close open_
    · rw [Function.update_of_ne same]
      have other := inv.blockOk b' hasBlock'
      rwa [Phase.ofs_filling_of_ne same] at other
  · intro c hasChip
    refine (inv.chipOk c hasChip).recount (fb.ssdi.blocks b).afterClose rfl rfl
      (fun _ _ same => by simp at same) ?_
    intro place mem
    have inActive : place = .active := by
      have own := (inv.chipOk c hasChip).partition.of_mem place mem
      refine (inv.chipOk c hasChip).partition.unique mem _ ?_
      simp [FlashChip.holds, ← own.1, active]
    subst place
    exact fun notFilled => absurd rfl notFilled
  · intro b' hasBlock'
    change programmed b' fb.history = pagesBelow
      (G.numPagesPerBlock - (Function.update fb.ssdi.blocks b _ b').nrFreePages + 0)
    rw [inv.programmed_eq b' hasBlock']
    by_cases same : b' = b
    · subst b'
      rw [Function.update_self, freePages, Phase.written_filling_self]
      congr 1
      omega
    · rw [Function.update_of_ne same, Phase.written_filling_of_ne same]

end Inv

/-! ### What stays as it is -/

/-- The scratch memory of the GC manager is the same. -/
structure SameScratch (fb other : Fb) : Prop where
  vicBlks : other.gcm.vicBlks = fb.gcm.vicBlks
  firstValidPg : other.gcm.firstValidPg = fb.gcm.firstValidPg
  lpasToCopy : other.gcm.lpasToCopy = fb.gcm.lpasToCopy
  dataToCopy : other.gcm.dataToCopy = fb.gcm.dataToCopy
  nrPgsToCopy : other.gcm.nrPgsToCopy = fb.gcm.nrPgsToCopy

/-- What mapping and invalidating an LPA leave alone. -/
structure MappingFrame (fb other : Fb) : Prop where
  scratch : SameScratch fb other
  vdev : other.vdev = fb.vdev
  abm : other.abm = fb.abm
  freeBlks : ∀ c, (other.ssdi.chips c).freeBlks = (fb.ssdi.chips c).freeBlks

theorem SameScratch.refl (fb : Fb) : SameScratch fb fb := ⟨rfl, rfl, rfl, rfl, rfl⟩

theorem SameScratch.trans {fb other third : Fb} (first : SameScratch fb other)
    (second : SameScratch other third) : SameScratch fb third where
  vicBlks := second.vicBlks.trans first.vicBlks
  firstValidPg := second.firstValidPg.trans first.firstValidPg
  lpasToCopy := second.lpasToCopy.trans first.lpasToCopy
  dataToCopy := second.dataToCopy.trans first.dataToCopy
  nrPgsToCopy := second.nrPgsToCopy.trans first.nrPgsToCopy

namespace MappingFrame

variable {fb other third : Fb}

theorem refl (fb : Fb) : MappingFrame fb fb := ⟨⟨rfl, rfl, rfl, rfl, rfl⟩, rfl, rfl, fun _ => rfl⟩

theorem trans (first : MappingFrame fb other) (second : MappingFrame other third) :
    MappingFrame fb third where
  scratch := first.scratch.trans second.scratch
  vdev := second.vdev.trans first.vdev
  abm := second.abm.trans first.abm
  freeBlks c := (second.freeBlks c).trans (first.freeBlks c)

theorem resetUsedBlk (fb : Fb) (b : BlockId) : MappingFrame fb (fb.resetUsedBlk b) where
  scratch := ⟨rfl, rfl, rfl, rfl, rfl⟩
  vdev := rfl
  abm := rfl
  freeBlks c := by
    by_cases same : c = b.chip
    · subst c
      simp [Fb.resetUsedBlk, Fb.record, Fb.updChip, SsdInfo.updChip, FlashChip.resetUsedBlk]
    · simp [Fb.resetUsedBlk, Fb.record, Fb.updChip, SsdInfo.updChip, same]

theorem setDirtBlk (fb : Fb) (b : BlockId) : MappingFrame fb (fb.setDirtBlk b) where
  scratch := ⟨rfl, rfl, rfl, rfl, rfl⟩
  vdev := rfl
  abm := rfl
  freeBlks c := by
    by_cases same : c = b.chip
    · subst c
      simp [Fb.setDirtBlk, Fb.updChip, SsdInfo.updChip, FlashChip.setDirtBlk]
    · simp [Fb.setDirtBlk, Fb.updChip, SsdInfo.updChip, same]

theorem setCurrGcBlock (fb : Fb) (c : ChipId) (b : BlockId) :
    MappingFrame fb (fb.setCurrGcBlock c (some b)) :=
  ⟨⟨rfl, rfl, rfl, rfl, rfl⟩, rfl, rfl, fun _ => rfl⟩

theorem setMappedPpa (fb : Fb) (lpa ppa : ℕ) : MappingFrame fb (fb.setMappedPpa lpa ppa) :=
  ⟨⟨rfl, rfl, rfl, rfl, rfl⟩, rfl, rfl, fun _ => rfl⟩

theorem markInvalid (fb : Fb) (l : Location) : MappingFrame fb (fb.markInvalid l) :=
  ⟨⟨rfl, rfl, rfl, rfl, rfl⟩, rfl, rfl, fun _ => rfl⟩

theorem invalidateLpg (G : Geometry) (fb : Fb) (lpa : ℕ) :
    MappingFrame fb (fb.invalidateLpg G lpa).2 := by
  rcases fb.invalidateLpg_cases G lpa with ⟨_, same⟩ | ⟨l, _, _, same | ⟨_, same⟩ | same⟩
  · rw [same]
    exact refl fb
  · rw [same]
    exact (markInvalid fb l).trans (setMappedPpa _ _ _)
  · rw [same]
    exact (((markInvalid fb l).trans (resetUsedBlk _ _)).trans (setCurrGcBlock _ _ _)).trans
      (setMappedPpa _ _ _)
  · rw [same]
    exact (((markInvalid fb l).trans (resetUsedBlk _ _)).trans (setDirtBlk _ _)).trans
      (setMappedPpa _ _ _)

theorem mapLpa (G : Geometry) (fb : Fb) (lpa : ℕ) (b : BlockId) (pg : ℕ) (lp : Slot) :
    MappingFrame fb (fb.mapLpa G lpa b pg lp) := by
  have cleared : MappingFrame fb (if lpa ≠ pageUnmapped then (fb.invalidateLpg G lpa).2 else fb) := by
    split_ifs
    · exact invalidateLpg G fb lpa
    · exact refl fb
  rw [Fb.mapLpa_eq]
  refine cleared.trans ?_
  simp only
  split_ifs <;> exact ⟨⟨rfl, rfl, rfl, rfl, rfl⟩, rfl, rfl, fun _ => rfl⟩

theorem mapLogicalToPhysical (G : Geometry) (fb : Fb) (lpas : Slot → ℕ) (b : BlockId) (pg : ℕ) :
    MappingFrame fb (fb.mapLogicalToPhysical G lpas b pg) :=
  foldl_preserves _ (fun lp _ other frame => frame.trans (mapLpa G other (lpas lp) b pg lp)) (refl fb)

end MappingFrame

namespace Fb

variable (G : Geometry) (fb : Fb)

theorem markInvalid_nrFreePages (l : Location) (b : BlockId) :
    ((fb.markInvalid l).ssdi.blocks b).nrFreePages = (fb.ssdi.blocks b).nrFreePages := by
  by_cases same : b = l.block
  · subst b
    simp only [markInvalid, Function.update_self, FlashBlock.afterInvalidate]
    split_ifs <;> rfl
  · simp [markInvalid, same]

/-- `invalidate_lpg` does not touch the number of free pages of a block. -/
theorem invalidateLpg_nrFreePages (lpa : ℕ) (b : BlockId) :
    (((fb.invalidateLpg G lpa).2).ssdi.blocks b).nrFreePages = (fb.ssdi.blocks b).nrFreePages := by
  rcases fb.invalidateLpg_cases G lpa with ⟨_, same⟩ | ⟨l, _, _, same | ⟨_, same⟩ | same⟩
  · rw [same]
  · rw [same]
    exact fb.markInvalid_nrFreePages l b
  · rw [same]
    have moves := (Moves.resetUsedBlk (fb.markInvalid l) l.block).trans
      (.setCurrGcBlock_some _ l.block)
    exact (moves.counters b).nrFreePages.trans (fb.markInvalid_nrFreePages l b)
  · rw [same]
    have moves := (Moves.resetUsedBlk (fb.markInvalid l) l.block).trans (.setDirtBlk _ l.block)
    exact (moves.counters b).nrFreePages.trans (fb.markInvalid_nrFreePages l b)

theorem fillSubPage_nrFreePages (b : BlockId) (pg : ℕ) (lp : Slot) (lpa : ℕ) (other : BlockId) :
    ((fb.fillSubPage b pg lp lpa).ssdi.blocks other).nrFreePages =
      (fb.ssdi.blocks other).nrFreePages := by
  by_cases same : other = b
  · subst other
    simp only [fillSubPage, Function.update_self, FlashBlock.afterFill]
    split_ifs <;> rfl
  · simp [fillSubPage, same]

/-- Mapping a sub-page changes the number of free pages of its block after the last one. -/
theorem mapLpa_nrFreePages (lpa : ℕ) (b : BlockId) (pg : ℕ) (lp : Slot) (other : BlockId) :
    ((fb.mapLpa G lpa b pg lp).ssdi.blocks other).nrFreePages =
      if (lp : ℕ) = 3 ∧ other = b then dec32 (fb.ssdi.blocks other).nrFreePages
      else (fb.ssdi.blocks other).nrFreePages := by
  have cleared : ((if lpa ≠ pageUnmapped then (fb.invalidateLpg G lpa).2 else fb).ssdi.blocks
      other).nrFreePages = (fb.ssdi.blocks other).nrFreePages := by
    split_ifs
    · exact fb.invalidateLpg_nrFreePages G lpa other
    · rfl
  rw [mapLpa_eq]
  simp only
  generalize (if lpa ≠ pageUnmapped then (fb.invalidateLpg G lpa).2 else fb) = base at cleared ⊢
  have filled := base.fillSubPage_nrFreePages b pg lp lpa other
  rw [cleared] at filled
  by_cases last : (lp : ℕ) = 3
  · rw [if_pos last]
    by_cases same : other = b
    · subst other
      rw [if_pos ⟨last, rfl⟩, ← filled]
      simp [updBlock, SsdInfo.updBlock, FlashBlock.afterClose, FlashBlock.incNrValidPgs,
        FlashBlock.decNrFreePgs]
    · rw [if_neg (fun both => same both.2), ← filled]
      simp [updBlock, SsdInfo.updBlock, same]
  · rw [if_neg last, if_neg (fun both => last both.1), filled]

end Fb

namespace Phase

/-- The phase after the sub-page `lp` of a page was mapped. -/
def afterSlot (b : BlockId) (lp : Slot) : Phase :=
  if (lp : ℕ) = 3 then filled b else filling b (lp + 1)

end Phase

namespace Inv

variable {G : Geometry} {phase : Phase} {fb : Fb} {c : ChipId} {b : BlockId} {lpa pg : ℕ}
  {lp : Slot}

theorem mapLpa (inv : Inv G (.filling b lp) fb)
    (pg_eq : pg = G.numPagesPerBlock - (fb.ssdi.blocks b).nrFreePages)
    (lpaOk : LpaOk G lpa) :
    Inv G (.afterSlot b lp) (fb.mapLpa G lpa b pg lp) := by
  have := slot_lt lp
  have cleared : Inv G (.filling b lp)
      (if lpa ≠ pageUnmapped then (fb.invalidateLpg G lpa).2 else fb) := by
    split_ifs with padding
    · refine inv.invalidateLpg (fun b' => ?_) (by simp) (lpaOk.resolve_left padding)
      simp only [Phase.ofs]
      split_ifs <;> omega
    · exact inv
  have filled : Inv G (.filling b (lp + 1))
      ((if lpa ≠ pageUnmapped then (fb.invalidateLpg G lpa).2 else fb).fillSubPage b pg lp lpa) := by
    refine cleared.fillSubPage ?_ fun real => ⟨lpaOk.resolve_left real, ?_⟩
    · rw [pg_eq]
      split_ifs
      · rw [Fb.invalidateLpg_nrFreePages]
      · rfl
    · rw [if_pos real]
      exact fb.invalidateLpg_unmaps G lpa
  rw [Fb.mapLpa_eq]
  simp only [Phase.afterSlot]
  by_cases last : (lp : ℕ) = 3
  · rw [if_pos last, if_pos last]
    rw [last] at filled
    exact filled.closePage
  · rw [if_neg last, if_neg last]
    exact filled

theorem mapLogicalToPhysical (inv : Inv G (.filling b 0) fb)
    (pg_eq : pg = G.numPagesPerBlock - (fb.ssdi.blocks b).nrFreePages) {lpas : Slot → ℕ}
    (lpasOk : ∀ lp, LpaOk G (lpas lp)) :
    Inv G (.filled b) (fb.mapLogicalToPhysical G lpas b pg) := by
  have step {fb : Fb} (lp : Slot) (notLast : (lp : ℕ) ≠ 3) (inv : Inv G (.filling b lp) fb)
      (pg_eq : pg = G.numPagesPerBlock - (fb.ssdi.blocks b).nrFreePages) :
      Inv G (.filling b (lp + 1)) (fb.mapLpa G (lpas lp) b pg lp) ∧ pg = G.numPagesPerBlock -
        ((fb.mapLpa G (lpas lp) b pg lp).ssdi.blocks b).nrFreePages := by
    refine ⟨?_, by rw [Fb.mapLpa_nrFreePages, if_neg (by simp [notLast])]; exact pg_eq⟩
    have mapped := inv.mapLpa pg_eq (lpasOk lp)
    rwa [Phase.afterSlot, if_neg notLast] at mapped
  rcases step 0 (by decide) inv pg_eq with ⟨inv1, pg_eq1⟩
  rcases step 1 (by decide) inv1 pg_eq1 with ⟨inv2, pg_eq2⟩
  rcases step 2 (by decide) inv2 pg_eq2 with ⟨inv3, pg_eq3⟩
  have inv3 : Inv G (.filling b (3 : Slot)) _ := inv3
  exact inv3.mapLpa pg_eq3 (lpasOk 3)

end Inv

end FlashBench
