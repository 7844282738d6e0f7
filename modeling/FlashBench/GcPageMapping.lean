import FlashBench.Library.Loop
import FlashBench.PageMappingFunction

/-!
# Foreground and background garbage collection

The functions of `gc_page_mapping.rs` and `trigger_bg_gc` of `gc_page_mapping.c`.
Messages and performance counters are left out.

The source tests a GC result against `0` or `-1`. Here a result is a `Ret`; the
third value `hang` is that of the read sweep of the foreground GC, the only loop
of this file without a bound of its own.
-/

namespace FlashBench

namespace Fb

variable (G : Geometry)

/-! ### The GC manager -/

/-- `init_gcm`: victims and pages found first stay as they were. -/
def initGcm (fb : Fb) : Fb := { fb with gcm.nrPgsToCopy := 0 }

/-- `get_vic_blk` -/
def getVicBlk (fb : Fb) (c : ChipId) : Option BlockId := fb.gcm.vicBlks c

/-- `set_vic_blk` -/
def setVicBlk (fb : Fb) (c : ChipId) (blki : Option BlockId) : Fb :=
  { fb with gcm.vicBlks := Function.update fb.gcm.vicBlks c blki }

/-- `get_first_valid_pg` -/
def getFirstValidPg (fb : Fb) (c : ChipId) : ℕ := fb.gcm.firstValidPg c

/-- `set_first_valid_pg` -/
def setFirstValidPg (fb : Fb) (c : ChipId) (pg : ℕ) : Fb :=
  { fb with gcm.firstValidPg := Function.update fb.gcm.firstValidPg c pg }

/-- `find_first_valid_pg`: the first page from `startPg` on that is not all invalid. A
start at or past the end of the block is returned as it is. -/
def findFirstValidPg (fb : Fb) (blki : BlockId) (startPg : ℕ) : ℕ :=
  ((List.range' startPg (G.numPagesPerBlock - startPg)).find? fun pg =>
    (fb.ssdi.pages blki pg).nrInvalidLogPages < nrLpInPp).getD (max startPg G.numPagesPerBlock)

/-- The search loop shared by the two victim selections: the first used block with
the most invalid sub-pages, if that number is not zero. -/
def mostInvalidBlk (fb : Fb) : List BlockId → Option BlockId → ℕ → Option BlockId
  | [], vicBlki, _ => vicBlki
  | blki :: rest, vicBlki, nrMaxInvalidLpgs =>
      let nrInvalidLpgs := (fb.ssdi.blocks blki).nrInvalidLogPages
      if nrMaxInvalidLpgs < nrInvalidLpgs then
        mostInvalidBlk fb rest (some blki) nrInvalidLpgs
      else mostInvalidBlk fb rest vicBlki nrMaxInvalidLpgs

/-- `select_vic_blk_from_used` -/
def selectVicBlkFromUsed (fb : Fb) (c : ChipId) : Option BlockId :=
  fb.mostInvalidBlk (fb.ssdi.chips c).usedBlks none 0

/-- `select_vic_blk_greedy`: the first dirty block, if there is one. -/
def selectVicBlkGreedy (fb : Fb) (c : ChipId) : Option BlockId :=
  match fb.getDirtBlock c with
  | some vicBlki => some vicBlki
  | none => fb.mostInvalidBlk (fb.ssdi.chips c).usedBlks none 0

/-! ### Foreground GC -/

/-- One iteration of `set_vic_blks`. -/
def setVicBlkOf (c : ChipId) (fb : Fb) : Ret × Fb :=
  if (fb.getCurrGcBlock c).isSome ∧ (fb.getCurrActiveBlock c).isSome then
    (.ok, fb.setVicBlk c none)
  else
    match fb.selectVicBlkGreedy c with
    | none => (.fail, fb)
    | some blki =>
        let nrValid := (fb.ssdi.blocks blki).nrValidLogPages
        if nrValid = 0 then (.ok, fb.setVicBlk c none)
        else
          let fb := { fb with gcm.nrPgsToCopy := fb.gcm.nrPgsToCopy + nrValid }
          let fb := fb.setFirstValidPg c (fb.findFirstValidPg G blki 0)
          (.ok, fb.setVicBlk c (some blki))

/-- `set_vic_blks`: a victim for each chip that lacks a block, or none if nothing in it is valid. -/
def setVicBlks (fb : Fb) : Ret × Fb := forEach (setVicBlkOf G) G.chipsByBus fb

/-- The local variables of a read sweep: the number of sub-pages read and the next
entries of `lpas_to_copy` and `data_to_copy`. -/
structure Sweep where
  fb : Fb
  nrReadPgs : ℕ
  ptrLpa : ℕ
  ptrData : ℕ

/-- Read the sub-pages of one victim page: the LPAs and the data of its VALID sub-pages
are appended, while `ptr_data` advances by the number of sub-pages that are not INVALID. -/
def readVicPage (blki : BlockId) (devBlk : BlockId) (pg : ℕ) (sweep : Sweep) : Sweep :=
  let fb := sweep.fb
  let pgi := fb.ssdi.pages blki pg
  let nrPgsToRead := nrLpInPp - pgi.nrInvalidLogPages
  let lpas := pgi.validSlots.map pgi.noLogicalPageAddr
  let data := fb.vdeviceRead devBlk pg fun lp => pgi.pageStatus lp = .valid
  { fb := { fb with
      gcm.lpasToCopy := storeAt fb.gcm.lpasToCopy sweep.ptrLpa lpas
      gcm.dataToCopy := storeAt fb.gcm.dataToCopy sweep.ptrData data }
    nrReadPgs := sweep.nrReadPgs + nrPgsToRead
    ptrLpa := sweep.ptrLpa + lpas.length
    ptrData := sweep.ptrData + nrPgsToRead }

/-- The body of the innermost loop of `get_valid_pgs_in_vic_blks`. -/
def sweepPage (pg : ℕ) (sweep : Sweep) (c : ChipId) : Sweep :=
  match sweep.fb.getVicBlk c with
  | none => sweep
  | some blki =>
      if 0 < nrLpInPp - (sweep.fb.ssdi.pages blki pg).nrInvalidLogPages then
        readVicPage blki ⟨c, blki.noBlock⟩ pg sweep
      else sweep

/-- One pass over all pages of all victim blocks. -/
def sweepOnce (sweep : Sweep) : Sweep :=
  (List.range G.numPagesPerBlock).foldl
    (fun sweep pg => G.chipsByChip.foldl (sweepPage pg) sweep) sweep

/-- The outer loop of `get_valid_pgs_in_vic_blks`. A pass never changes the victims, so
every pass reads as much as the first one, and a run that needs more passes than there are
sub-pages to copy reads nothing and never ends. -/
def sweepLoop : ℕ → Sweep → Ret × Sweep
  | 0, sweep => if sweep.nrReadPgs < sweep.fb.gcm.nrPgsToCopy then (.hang, sweep) else (.ok, sweep)
  | passes + 1, sweep =>
      if sweep.nrReadPgs < sweep.fb.gcm.nrPgsToCopy then sweepLoop passes (sweepOnce G sweep)
      else (.ok, sweep)

/-- `get_valid_pgs_in_vic_blks`: copy the valid sub-pages of all victims. -/
def getValidPgsInVicBlks (fb : Fb) : Ret × Fb :=
  let result := sweepLoop G fb.gcm.nrPgsToCopy ⟨fb, 0, 0, 0⟩
  (result.1, result.2.fb)

/-- The innermost loop of `prog_valid_pgs_to_gc_blks`: the unused sub-pages of the last page
are padded. -/
def padLpasToCopy (fb : Fb) (ptr nrPgsToProg : ℕ) : Fb :=
  if nrPgsToProg < nrLpInPp then
    { fb with
      gcm.lpasToCopy := storeAt fb.gcm.lpasToCopy (ptr + nrPgsToProg)
        (List.replicate (nrLpInPp - nrPgsToProg) pageUnmapped) }
  else fb

/-- One iteration of `prog_valid_pgs_to_gc_blks`; `ptr` is the offset of `ptr_lpa` and
`ptr_data`, so `nr_pgs_to_prog` is `nr_pgs_to_copy - ptr`. -/
def progPage (ptr : ℕ) (fb : Fb) : Ret × Fb :=
  let nrPgsToProg := fb.gcm.nrPgsToCopy - ptr
  let c := fb.getNextBusChip G
  match fb.allocNewPage G c with
  | (none, fb) => (.fail, fb)
  | (some (blk, pg), fb) =>
      let fb := fb.padLpasToCopy ptr nrPgsToProg
      (.ok, fb.programPage G c blk pg (fun lp => fb.gcm.lpasToCopy (ptr + lp))
        fun lp => fb.gcm.dataToCopy (ptr + lp))

section ProgPage

variable {G} {fb other : Fb} {ptr : ℕ}

theorem progPage_of_none (alloc : fb.allocNewPage G (fb.getNextBusChip G) = (none, other)) :
    fb.progPage G ptr = (.fail, other) := by
  simp [progPage, alloc]

theorem progPage_of_some {blk pg : ℕ}
    (alloc : fb.allocNewPage G (fb.getNextBusChip G) = (some (blk, pg), other)) :
    fb.progPage G ptr =
      let padded := other.padLpasToCopy ptr (fb.gcm.nrPgsToCopy - ptr)
      (.ok, padded.programPage G (fb.getNextBusChip G) blk pg
        (fun lp => padded.gcm.lpasToCopy (ptr + lp)) fun lp => padded.gcm.dataToCopy (ptr + lp)) := by
  simp [progPage, alloc]

end ProgPage

@[simp]
theorem padLpasToCopy_ssdi (fb : Fb) (ptr nrPgsToProg : ℕ) :
    (fb.padLpasToCopy ptr nrPgsToProg).ssdi = fb.ssdi := by
  unfold padLpasToCopy
  split_ifs <;> rfl

@[simp]
theorem padLpasToCopy_abm (fb : Fb) (ptr nrPgsToProg : ℕ) :
    (fb.padLpasToCopy ptr nrPgsToProg).abm = fb.abm := by
  unfold padLpasToCopy
  split_ifs <;> rfl

/-- `prog_valid_pgs_to_gc_blks`: program what was copied, page after page. -/
def progValidPgsToGcBlks (fb : Fb) : Ret × Fb :=
  forEach (progPage G)
    ((List.range ((fb.gcm.nrPgsToCopy + (nrLpInPp - 1)) / nrLpInPp)).map (nrLpInPp * ·)) fb

/-- The calls `vdevice_erase`, `init_blk_inf` and `inc_bers_cnt` with which both garbage
collectors recycle the GC block of a chip. -/
def eraseBlk (fb : Fb) (c : ChipId) (blki : BlockId) : Fb :=
  ((fb.vdeviceErase G ⟨c, blki.noBlock⟩).initBlkInf G blki).updBlock blki (·.incBersCnt)

/-- One iteration of `prepare_act_blks`. -/
def prepareActBlk (c : ChipId) (fb : Fb) : Ret × Fb :=
  match fb.getCurrActiveBlock c with
  | some _ => (.ok, fb)
  | none =>
      match fb.getCurrGcBlock c with
      | none => (.fail, fb)
      | some blki =>
          let fb := (fb.eraseBlk G c blki).setCurrActiveBlock c (some blki)
          (.ok, fb.setCurrGcBlock c none)

/-- `prepare_act_blks`: a chip without an active block gets its GC block, erased. -/
def prepareActBlks (fb : Fb) : Ret × Fb := forEach (prepareActBlk G) G.chipsByChip fb

/-- One iteration of `update_gc_blks`. -/
def updateGcBlk (c : ChipId) (fb : Fb) : Ret × Fb :=
  match fb.getCurrGcBlock c with
  | some _ => (.ok, fb)
  | none =>
      match fb.getDirtBlock c with
      | none => if (fb.getCurrActiveBlock c).isNone then (.fail, fb) else (.ok, fb)
      | some gcBlki => (.ok, (fb.resetDirtBlk gcBlki).setCurrGcBlock c (some gcBlki))

/-- `update_gc_blks`: a chip without a GC block gets its first dirty block. -/
def updateGcBlks (fb : Fb) : Ret × Fb := forEach updateGcBlk G.chipsByBus fb

/-- `trigger_gc_page_mapping`, which returns at the first part that fails. -/
def triggerGcPageMapping (fb : Fb) : Ret × Fb :=
  andThen ((fb.initGcm).prepareActBlks G) fun fb =>
  andThen (fb.setVicBlks G) fun fb =>
  andThen (fb.getValidPgsInVicBlks G) fun fb =>
  andThen (fb.progValidPgsToGcBlks G) fun fb => fb.updateGcBlks G

/-! ### Background GC -/

/-- The body of the loop of `fb_bgc_prepare_act_blks` for the chip it is at. -/
def bgcPrepareActBlkOf (c : ChipId) (fb : Fb) : Ret × Fb :=
  match fb.getCurrGcBlock c with
  | none => (.fail, fb)
  | some blki =>
      let fb := fb.eraseBlk G c blki
      let fb :=
        if (fb.getCurrActiveBlock c).isNone then fb.setCurrActiveBlock c (some blki)
        else fb.setFreeBlk blki
      let fb :=
        match fb.getDirtBlock c with
        | none => fb.setCurrGcBlock c none
        | some dirt => (fb.resetDirtBlk dirt).setCurrGcBlock c (some dirt)
      (.ok, fb.setPrevBusChip c)

/-- One iteration of `fb_bgc_prepare_act_blks`. -/
def bgcPrepareActBlk (fb : Fb) : Ret × Fb := fb.bgcPrepareActBlkOf G (fb.getNextBusChip G)

/-- `fb_bgc_prepare_act_blks` -/
def bgcPrepareActBlks (fb : Fb) : Ret × Fb :=
  forEach (fun _ => bgcPrepareActBlk G) (List.range G.numChips) fb

/-- The branch of `fb_bgc_set_vic_blks` that looks for a new victim. -/
def bgcFindNewVicBlk (c : ChipId) (fb : Fb) : Ret × Fb :=
  match fb.selectVicBlkFromUsed c with
  | none => (.fail, fb)
  | some blki =>
      let fb := fb.setVicBlk c (some blki)
      (.ok, fb.setFirstValidPg c (fb.findFirstValidPg G blki 0))

/-- One iteration of `fb_bgc_set_vic_blks`. -/
def bgcSetVicBlk (c : ChipId) (fb : Fb) : Ret × Fb :=
  let chipi := fb.ssdi.chips c
  if chipi.nrDirtBlks + chipi.nrFreeBlocks < bgcThNrBlks then
    match fb.getVicBlk c with
    | some blki =>
        let fb := fb.setFirstValidPg c (fb.findFirstValidPg G blki (fb.getFirstValidPg c))
        if fb.getFirstValidPg c = G.numPagesPerBlock then
          bgcFindNewVicBlk G c (fb.setVicBlk c none)
        else (.ok, fb)
    | none => bgcFindNewVicBlk G c fb
  else (.ok, (fb.setVicBlk c none).setFirstValidPg c 0)

/-- `fb_bgc_set_vic_blks` -/
def bgcSetVicBlks (fb : Fb) : Ret × Fb := forEach (bgcSetVicBlk G) G.chipsByBus fb

/-- The body of the loop of `fb_bgc_read_valid_pgs` for the chip it is at. The count of
sub-pages read goes to `nr_pgs_to_copy`. -/
def bgcReadValidPgOf (c : ChipId) (sweep : Sweep) : Ret × Sweep :=
  let fb := sweep.fb
  match fb.getVicBlk c with
  | none => (.ok, { sweep with fb := fb.setPrevBusChip c })
  | some vicBlki =>
      let pg := fb.getFirstValidPg c
      let nrPgsToRead := nrLpInPp - (fb.ssdi.pages vicBlki pg).nrInvalidLogPages
      if nrPgsToRead = 0 then (.fail, sweep)
      else
        let fb := { fb with gcm.nrPgsToCopy := fb.gcm.nrPgsToCopy + nrPgsToRead }
        let sweep := readVicPage vicBlki ⟨c, vicBlki.noBlock⟩ pg { sweep with fb := fb }
        (.ok, { sweep with fb := sweep.fb.setPrevBusChip c })

/-- One iteration of `fb_bgc_read_valid_pgs`. -/
def bgcReadValidPg (sweep : Sweep) : Ret × Sweep :=
  bgcReadValidPgOf (sweep.fb.getNextBusChip G) sweep

/-- `fb_bgc_read_valid_pgs` -/
def bgcReadValidPgs (fb : Fb) : Ret × Fb :=
  let result := forEach (fun _ => bgcReadValidPg G) (List.range G.numChips) ⟨fb, 0, 0, 0⟩
  (result.1, result.2.fb)

/-- The part of `trigger_bg_gc` that runs when the chip programmed last has an active block. -/
def bgcCopy (fb : Fb) : Ret × Fb :=
  andThen ((fb.initGcm).bgcSetVicBlks G) fun fb =>
  andThen (fb.bgcReadValidPgs G) fun fb =>
  if fb.gcm.nrPgsToCopy = 0 then (.ok, fb)
  else andThen (fb.progValidPgsToGcBlks G) fun fb => fb.updateGcBlks G

/-- `trigger_bg_gc`, between taking and giving back the mapping lock. -/
def triggerBgGc (fb : Fb) : Ret × Fb :=
  if (fb.getCurrActiveBlock fb.getPrevBusChip).isNone then fb.bgcPrepareActBlks G
  else fb.bgcCopy G

end Fb

end FlashBench
