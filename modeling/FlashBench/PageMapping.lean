import FlashBench.GcPageMapping
import FlashBench.WriteBuffer

/-!
# The page-mapping FTL

The functions of `ftl_algorithm_page_mapping.c`: creation, host reads, host
writes, and discards. Taking and giving back the mapping lock is left out, since
every function here runs between the two.
-/

namespace FlashBench

/-- `NR_MAX_LPAS_DISCARD`. -/
abbrev nrMaxLpasDiscard : ℕ := 2048

namespace Fb

variable (G : Geometry)

/-! ### Creation -/

/-- One iteration of `create_act_blk_mngr`. -/
def createActBlk (c : ChipId) (fb : Fb) : Ret × Fb :=
  match fb.getFreeBlock c with
  | none => (.fail, fb)
  | some blki =>
      let fb := (fb.resetFreeBlk blki).updBlock blki (·.setActBlkFlag true)
      (.ok, { fb with abm.actBlks := Function.update fb.abm.actBlks c (some blki) })

/-- One iteration of `create_gc_mngr`. -/
def createGcBlk (c : ChipId) (fb : Fb) : Ret × Fb :=
  match fb.getFreeBlock c with
  | none => (.fail, fb)
  | some blki =>
      let fb := (fb.resetFreeBlk blki).updBlock blki (·.setRsvBlkFlag true)
      (.ok, { fb with gcm.gcBlks := Function.update fb.gcm.gcBlks c (some blki) })

/-- The state before `create_pg_ftl` picks the first blocks. -/
def blank (garbage : Garbage) : Fb where
  ssdi := SsdInfo.create G
  mappings := fun _ => pageUnmapped
  abm :=
    { actBlks := fun _ => none
      mruBus := G.numBuses - 1
      mruChip := G.numChipsPerBus - 1 }
  gcm :=
    { gcBlks := fun _ => none
      vicBlks := garbage.vicBlks
      firstValidPg := garbage.firstValidPg
      lpasToCopy := fun _ => pageUnmapped
      dataToCopy := garbage.dataToCopy
      nrPgsToCopy := 0 }
  vdev := garbage.vdisk
  history := []

/-- `create_ssd_info` and `create_pg_ftl`: `none` when a chip has no block to start with. -/
def create (garbage : Garbage) : Option Fb :=
  match andThen (forEach createActBlk G.chipsByBus (blank G garbage)) fun fb =>
      forEach createGcBlk G.chipsByBus fb with
  | (.ok, fb) => some fb
  | _ => none

/-! ### Reads and writes -/

/-- `make_read_request_page_mapping`: the result and the page buffer afterwards. -/
def makeReadRequest (fb : Fb) (lpa : ℕ) (pageBuffer : PageData) : Ret × PageData :=
  match fb.getMappedPhysicalAddress G lpa with
  | none => (.fail, pageBuffer)
  | some l =>
      -- the bitmap selects one logical page, so the read copies one
      (.ok, (fb.vdeviceRead l.block l.page fun lp => lp = l.slot).headD pageBuffer)

/-- `is_fgc_needed`. The loops run over the chips from the given one on, and the test in
their body is about the given one. -/
def isFgcNeeded (fb : Fb) (c : ChipId) : Bool :=
  (List.range' c.chip (G.numChipsPerBus - c.chip)).any fun _ =>
    (List.range' c.bus (G.numBuses - c.bus)).any fun _ =>
      (fb.getCurrGcBlock c).isNone && (fb.getFreeBlock c).isNone

/-- The last part of `make_write_request_page_mapping`: the second allocation attempt. -/
def allocOrFail (fb : Fb) (lpas : Slot → ℕ) (src : Slot → PageData) : Ret × Fb :=
  let c := fb.getNextBusChip G
  match fb.allocNewPage G c with
  | (some (blk, pg), fb) => (.ok, fb.programPage G c blk pg lpas src)
  | (none, fb) => (.fail, fb)

/-- `make_write_request_page_mapping` from the first allocation attempt on. -/
def allocAndProgram (fb : Fb) (lpas : Slot → ℕ) (src : Slot → PageData) : Ret × Fb :=
  let c := fb.getNextBusChip G
  match fb.allocNewPage G c with
  | (some (blk, pg), fb) => (.ok, fb.programPage G c blk pg lpas src)
  | (none, fb) => andThen (fb.triggerGcPageMapping G) fun fb => fb.allocOrFail G lpas src

/-- `make_write_request_page_mapping`. -/
def makeWriteRequest (fb : Fb) (lpas : Slot → ℕ) (src : Slot → PageData) : Ret × Fb :=
  if fb.isFgcNeeded G (fb.getNextBusChip G) then
    andThen (fb.triggerGcPageMapping G) fun fb => fb.allocAndProgram G lpas src
  else fb.allocAndProgram G lpas src

/-- `_fb_del_invalidate_pgs`; `fb_del_invalid_data` calls it with the LPAs of a bio. -/
def delInvalidatePgs (fb : Fb) (reqLpas : List ℕ) : Fb :=
  reqLpas.foldl (fun fb lpa => (fb.invalidateLpg G lpa).2) fb

/-! ### Discards -/

/-- `x & (~(7))` on a 64-bit value. -/
def maskSectors (x : ℕ) : ℕ := x % 2 ^ 64 &&& 0xfffffffffffffff8

/-- `lpa_start` of `make_discard_request_page_mapping`. -/
def discardStart (biSector : ℕ) : ℕ := maskSectors (biSector + 7) >>> 3

/-- `nr_lpgs` of `make_discard_request_page_mapping`. -/
def discardCount (biSector biSize : ℕ) : ℕ :=
  let secStart := maskSectors (biSector + 7)
  let secEnd := maskSectors (biSector + biSize >>> 9)
  if secStart < secEnd then (secEnd - secStart) >>> 3 else 0

/-- The LPAs of a discard, converted to `u32`. -/
def discardLpas (biSector biSize : ℕ) : List ℕ :=
  (List.range (discardCount biSector biSize)).map fun lpLoop =>
    (discardStart biSector + lpLoop) % 2 ^ 32

/-- One iteration of the batching loop: `lpas_to_discard` is passed on when it is full. -/
def discardStep (state : List ℕ × Fb) (lpa : ℕ) : List ℕ × Fb :=
  let lpasToDiscard := state.1 ++ [lpa]
  if state.1.length = nrMaxLpasDiscard - 1 then
    ([], state.2.delInvalidatePgs G lpasToDiscard)
  else (lpasToDiscard, state.2)

/-- The flash side of `make_discard_request_page_mapping`. -/
def discardMapped (fb : Fb) (lpas : List ℕ) : Fb :=
  let state := lpas.foldl (discardStep G) ([], fb)
  if state.1 = [] then state.2 else state.2.delInvalidatePgs G state.1

end Fb

end FlashBench
