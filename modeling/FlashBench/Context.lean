import FlashBench.SsdInfo

/-!
# The flash side of `fb_context_t`

`Fb` holds what the flash translation layer works on: the block information, the
L2P table, the active block manager, the GC manager and the contents of the
virtual device. The write buffer and the error flag join it in `FlashBench.Main`.

`history` is a ghost: no function of the model reads it. It records the program
and erase commands given to the virtual device and the removals from the block
lists, each with the block information and the L2P table at that moment, so that
statements about the order of these commands are statements about a state.

`vmalloc` does not clear memory. What `vic_blks`, `first_valid_pg` and
`data_to_copy` hold before their first write is therefore a parameter of the
initial state; an `lpas_to_copy` slot never written holds `PAGE_UNMAPPED`.
-/

namespace FlashBench

/-- Commands and list removals that the history records. -/
inductive FlashOp where
  | write (block : BlockId) (page : ℕ)
  | erase (block : BlockId)
  | resetFree (block : BlockId)
  | resetUsed (block : BlockId)
  | resetDirt (block : BlockId)
  deriving DecidableEq, Repr

/-- One entry of the history: the operation and the state it was applied in. -/
structure Event where
  op : FlashOp
  ssdi : SsdInfo
  mappings : ℕ → ℕ

/-- `fb_act_blk_mngr_t`. -/
structure ActBlkMngr where
  actBlks : ChipId → Option BlockId
  mruBus : ℕ
  mruChip : ℕ

/-- `fb_gc_mngr_t`. -/
structure GcMngr where
  gcBlks : ChipId → Option BlockId
  vicBlks : ChipId → Option BlockId
  firstValidPg : ChipId → ℕ
  lpasToCopy : ℕ → ℕ
  /-- In units of `LOGICAL_PAGE_SIZE`. -/
  dataToCopy : ℕ → PageData
  nrPgsToCopy : ℕ

/-- The flash side of `fb_context_t`. -/
structure Fb where
  ssdi : SsdInfo
  /-- The L2P table, with an entry for each of the `NUM_LOG_PAGES` logical pages. The code
  allocates that many only below 2^31 bytes, see `DeviceSizes`. -/
  mappings : ℕ → ℕ
  abm : ActBlkMngr
  gcm : GcMngr
  vdev : BlockId → ℕ → Slot → PageData
  history : List Event

/-- Contents of freshly allocated memory that the module reads before it writes it. -/
structure Garbage where
  /-- `fb->err`, which `fb_init` does not set -/
  err : Bool
  vicBlks : ChipId → Option BlockId
  firstValidPg : ChipId → ℕ
  dataToCopy : ℕ → PageData
  vdisk : BlockId → ℕ → Slot → PageData

/-- A logical page filled with one byte. -/
def filledPage (byte : UInt8) : PageData := fun _ => byte

/-- The logical page `0xff 0xff ...` of an erased block. -/
def erasedPage : PageData := filledPage 0xff

/-- Write consecutive entries of an array from an index on. -/
def storeAt {Entry : Type} (array : ℕ → Entry) (start : ℕ) (entries : List Entry) :
    ℕ → Entry :=
  fun i => if start ≤ i then (entries[i - start]?).getD (array i) else array i

section StoreAt

variable {Entry : Type} {array : ℕ → Entry} {start : ℕ} {entries : List Entry}

theorem storeAt_of_lt {i : ℕ} (before : i < start) :
    storeAt array start entries i = array i := by
  simp [storeAt, show ¬start ≤ i by omega]

theorem storeAt_getElem {k : ℕ} (inside : k < entries.length) :
    storeAt array start entries (start + k) = entries[k] := by
  simp [storeAt, inside]

theorem storeAt_of_ge {i : ℕ} (after : start + entries.length ≤ i) :
    storeAt array start entries i = array i := by
  have outside : entries[i - start]? = none := List.getElem?_eq_none (by omega)
  simp [storeAt, outside]

/-- A property of all entries survives a store of entries that have it. -/
theorem storeAt_forall (property : Entry → Prop) (old : ∀ i, property (array i))
    (new : ∀ entry ∈ entries, property entry) (i : ℕ) :
    property (storeAt array start entries i) := by
  rcases Nat.lt_or_ge i start with before | from_
  · rw [storeAt_of_lt before]
    exact old i
  · rcases Nat.lt_or_ge i (start + entries.length) with inside | after
    · obtain ⟨k, rfl⟩ := Nat.exists_eq_add_of_le from_
      rw [storeAt_getElem (by omega)]
      exact new _ (List.getElem_mem _)
    · rw [storeAt_of_ge after]
      exact old i

/-- The array begins with the entries. -/
def BeginsWith (array : ℕ → Entry) (entries : List Entry) : Prop :=
  ∀ i, (inside : i < entries.length) → array i = entries[i]

theorem beginsWith_nil (array : ℕ → Entry) : BeginsWith array [] := by
  intro i inside
  simp at inside

theorem BeginsWith.append (begins : BeginsWith array entries) (more : List Entry) :
    BeginsWith (storeAt array entries.length more) (entries ++ more) := by
  intro i inside
  rcases Nat.lt_or_ge i entries.length with before | after
  · rw [storeAt_of_lt before, begins i before, List.getElem_append_left before]
  · obtain ⟨k, rfl⟩ := Nat.exists_eq_add_of_le after
    rw [List.length_append] at inside
    rw [storeAt_getElem (by omega), List.getElem_append_right (by omega)]
    simp

end StoreAt

namespace Fb

variable (fb : Fb)

/-- Add an operation to the history. -/
def record (op : FlashOp) : Fb := { fb with history := ⟨op, fb.ssdi, fb.mappings⟩ :: fb.history }

/-- Change the record of a chip. -/
def updChip (c : ChipId) (f : FlashChip → FlashChip) : Fb :=
  { fb with ssdi := fb.ssdi.updChip c f }

/-- Change the record of a block. -/
def updBlock (b : BlockId) (f : FlashBlock → FlashBlock) : Fb :=
  { fb with ssdi := fb.ssdi.updBlock b f }

/-- Change the record of a page. -/
def updPage (b : BlockId) (pg : ℕ) (f : FlashPage → FlashPage) : Fb :=
  { fb with ssdi := fb.ssdi.updPage b pg f }

/-! ### Block lists -/

/-- `set_free_blk`: at the end of the free list of its chip. -/
def setFreeBlk (bi : BlockId) : Fb := fb.updChip bi.chip (·.setFreeBlk bi)

/-- `reset_free_blk`, noted in the history. -/
def resetFreeBlk (bi : BlockId) : Fb :=
  (fb.record (.resetFree bi)).updChip bi.chip (·.resetFreeBlk bi)

/-- `set_used_blk`: at the end of the used list of its chip. -/
def setUsedBlk (bi : BlockId) : Fb := fb.updChip bi.chip (·.setUsedBlk bi)

/-- `reset_used_blk`, noted in the history. -/
def resetUsedBlk (bi : BlockId) : Fb :=
  (fb.record (.resetUsed bi)).updChip bi.chip (·.resetUsedBlk bi)

/-- `set_dirt_blk`: at the end of the dirty list of its chip. -/
def setDirtBlk (bi : BlockId) : Fb := fb.updChip bi.chip (·.setDirtBlk bi)

/-- `reset_dirt_blk`, noted in the history. -/
def resetDirtBlk (bi : BlockId) : Fb :=
  (fb.record (.resetDirt bi)).updChip bi.chip (·.resetDirtBlk bi)

/-- `get_free_block`: the head of the free list. -/
def getFreeBlock (c : ChipId) : Option BlockId := (fb.ssdi.chips c).freeBlks.head?

/-- `get_dirt_block`: the head of the dirt list. -/
def getDirtBlock (c : ChipId) : Option BlockId := (fb.ssdi.chips c).dirtBlks.head?

/-! ### The L2P table -/

/-- `get_mapped_ppa` -/
def getMappedPpa (lpa : ℕ) : ℕ := fb.mappings lpa

/-- `set_mapped_ppa` -/
def setMappedPpa (lpa ppa : ℕ) : Fb :=
  { fb with mappings := Function.update fb.mappings lpa ppa }

/-! ### Active and GC block slots -/

/-- `get_curr_active_block` -/
def getCurrActiveBlock (c : ChipId) : Option BlockId := fb.abm.actBlks c

/-- `get_curr_gc_block` -/
def getCurrGcBlock (c : ChipId) : Option BlockId := fb.gcm.gcBlks c

/-- `set_curr_active_block`, which flags the block where there is one. -/
def setCurrActiveBlock (c : ChipId) (blki : Option BlockId) : Fb :=
  let fb := { fb with abm.actBlks := Function.update fb.abm.actBlks c blki }
  match blki with
  | some b => fb.updBlock b (·.setActBlkFlag true)
  | none => fb

/-- `set_curr_gc_block`, which flags the block where there is one. -/
def setCurrGcBlock (c : ChipId) (blki : Option BlockId) : Fb :=
  let fb := { fb with gcm.gcBlks := Function.update fb.gcm.gcBlks c blki }
  match blki with
  | some b => fb.updBlock b (·.setRsvBlkFlag true)
  | none => fb

/-! ### Round-robin position -/

/-- `set_prev_bus_chip` -/
def setPrevBusChip (c : ChipId) : Fb := { fb with abm.mruBus := c.bus, abm.mruChip := c.chip }

/-- `get_prev_bus_chip` -/
def getPrevBusChip : ChipId := ⟨fb.abm.mruBus, fb.abm.mruChip⟩

/-- `get_next_bus_chip`: buses first, then chips. -/
def getNextBusChip (G : Geometry) : ChipId :=
  if fb.abm.mruBus = G.numBuses - 1 then
    ⟨0, if fb.abm.mruChip = G.numChipsPerBus - 1 then 0 else fb.abm.mruChip + 1⟩
  else ⟨fb.abm.mruBus + 1, fb.abm.mruChip⟩

/-! ### The virtual device -/

/-- `vdevice_read`: the logical pages selected by the bitmap, packed in order. -/
def vdeviceRead (b : BlockId) (pg : ℕ) (bitmap : Slot → Bool) : List PageData :=
  ((List.finRange nrLpInPp).filter bitmap).map (fb.vdev b pg)

/-- `vdevice_write`: all logical pages of a page. -/
def vdeviceWrite (b : BlockId) (pg : ℕ) (src : Slot → PageData) : Fb :=
  let fb := fb.record (.write b pg)
  { fb with vdev := Function.update fb.vdev b (Function.update (fb.vdev b) pg src) }

/-- `vdevice_erase`: all pages of a block. -/
def vdeviceErase (G : Geometry) (b : BlockId) : Fb :=
  let fb := fb.record (.erase b)
  { fb with
    vdev := Function.update fb.vdev b fun pg =>
      if pg < G.numPagesPerBlock then fun _ => erasedPage else fb.vdev b pg }

/-- `init_blk_inf` -/
def initBlkInf (G : Geometry) (b : BlockId) : Fb := { fb with ssdi := fb.ssdi.initBlkInf G b }

end Fb

end FlashBench
