import FlashBench.Context

/-!
# Allocation, mapping and invalidation

The functions of `page_mapping_function.rs`, and those of `page_mapping_function.c`
that are not plain field accesses.
-/

namespace FlashBench

namespace Fb

variable (G : Geometry)

/-- `alloc_new_page`: block number and page to program next on the chip, if there is one. -/
def allocNewPage (fb : Fb) (c : ChipId) : Option (ℕ × ℕ) × Fb :=
  match fb.getCurrActiveBlock c with
  | some blki =>
      (some (blki.noBlock, G.numPagesPerBlock - (fb.ssdi.blocks blki).nrFreePages), fb)
  | none =>
      match fb.getFreeBlock c with
      | none => (none, fb)
      | some blki =>
          let fb := (fb.resetFreeBlk blki).setCurrActiveBlock c (some blki)
          (some (blki.noBlock, G.numPagesPerBlock - (fb.ssdi.blocks blki).nrFreePages), fb)

/-- The part of `invalidate_lpg` that runs when every page of the block has become
invalid: the block leaves the used list for the GC slot or the dirt list. -/
def reclaimInvalidBlk (fb : Fb) (blki : BlockId) : Fb :=
  let fb := fb.resetUsedBlk blki
  match fb.getCurrGcBlock blki.chip with
  | none => fb.setCurrGcBlock blki.chip (some blki)
  | some _ => fb.setDirtBlk blki

/-- The part of `invalidate_lpg` that works on the sub-page the LPA was mapped to. -/
def invalidateSubPage (fb : Fb) (l : Location) : Fb :=
  let fb := fb.updPage l.block l.page (·.setPgStatus l.slot .invalid)
  let fb := fb.updBlock l.block (·.incNrInvalidLps)
  let fb := fb.updBlock l.block (·.decNrValidLps)
  let fb := fb.updPage l.block l.page (·.incNrInvalidLps)
  if (fb.ssdi.pages l.block l.page).nrInvalidLogPages = nrLpInPp then
    let fb := fb.updBlock l.block (·.decNrValidPgs)
    let fb := fb.updBlock l.block (·.incNrInvalidPgs)
    if (fb.ssdi.blocks l.block).nrInvalidPages = G.numPagesPerBlock then
      fb.reclaimInvalidBlk l.block
    else fb
  else fb

/-- `invalidate_lpg`, which returns the old address of the LPA. -/
def invalidateLpg (fb : Fb) (lpa : ℕ) : ℕ × Fb :=
  let ppa := fb.getMappedPpa lpa
  if ppa ≠ pageUnmapped then
    (ppa, (fb.invalidateSubPage G (locate ppa)).setMappedPpa lpa pageUnmapped)
  else (ppa, fb)

/-- `__map_logical_to_physical`. -/
def mapLpa (fb : Fb) (lpa : ℕ) (blki : BlockId) (pg : ℕ) (lpOfs : Slot) : Fb :=
  let fb :=
    if lpa ≠ pageUnmapped then
      let fb := (fb.invalidateLpg G lpa).2
      let fb := fb.updBlock blki (·.incNrValidLps)
      let fb := fb.updPage blki pg (·.setPgStatus lpOfs .valid)
      fb.setMappedPpa lpa (physicalAddress ⟨blki, pg, lpOfs⟩)
    else
      let fb := fb.updBlock blki (·.incNrInvalidLps)
      let fb := fb.updPage blki pg (·.incNrInvalidLps)
      fb.updPage blki pg (·.setPgStatus lpOfs .invalid)
  let fb := fb.updPage blki pg (·.setMappedLpa lpOfs lpa)
  if (lpOfs : ℕ) = nrLpInPp - 1 then
    let fb := fb.updBlock blki (·.incNrValidPgs)
    fb.updBlock blki (·.decNrFreePgs)
  else fb

/-- `map_logical_to_physical`. The call of `__map_logical_to_physical` always
returns 0, so the loop has no early exit and the function returns 0. -/
def mapLogicalToPhysical (fb : Fb) (lpas : Slot → ℕ) (blki : BlockId) (pg : ℕ) : Fb :=
  (List.finRange nrLpInPp).foldl (fun fb lp => fb.mapLpa G (lpas lp) blki pg lp) fb

/-- `update_act_blk`. The chip has an active block whenever it is called. -/
def updateActBlk (fb : Fb) (c : ChipId) : Fb :=
  match fb.getCurrActiveBlock c with
  | none => fb
  | some blki =>
      if (fb.ssdi.blocks blki).nrFreePages = 0 then
        let fb := fb.updBlock blki (·.setActBlkFlag false)
        let fb := fb.setUsedBlk blki
        match fb.getFreeBlock c with
        | none => fb.setCurrActiveBlock c none
        | some next => (fb.resetFreeBlk next).setCurrActiveBlock c (some next)
      else fb

/-- The four calls `vdevice_write`, `map_logical_to_physical`, `set_prev_bus_chip` and
`update_act_blk` with which host writes and both garbage collectors fill an allocated page. -/
def programPage (fb : Fb) (c : ChipId) (blk pg : ℕ) (lpas : Slot → ℕ) (src : Slot → PageData) :
    Fb :=
  let fb := fb.vdeviceWrite ⟨c, blk⟩ pg src
  let fb := fb.mapLogicalToPhysical G lpas ⟨c, blk⟩ pg
  let fb := fb.setPrevBusChip c
  fb.updateActBlk c

/-- `get_mapped_physical_address`, decoded. -/
def getMappedPhysicalAddress (fb : Fb) (lpa : ℕ) : Option Location :=
  if lpa < G.numLogPages then
    let ppa := fb.mappings lpa
    if ppa = pageUnmapped then none else some (locate ppa)
  else none

end Fb

end FlashBench
