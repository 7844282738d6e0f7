import FlashBench.Capacity
import FlashBench.Context
import FlashBench.Library.Loop
import FlashBench.Library.Memory

/-!
# The virtual device

`vdevice.rs` at the level of bytes. Each bus has one buffer, and `create_vdevice` points the
pages of the bus into it. Writes, erasures and reads are `memcpy` and `memset` at these
pointers; putting the operation into the queue of its chip is the subject of
`FlashBench.BusController`. The buffers of the callers are allocations of their own, so the
bytes at `ptr_src` and `ptr_dest` are memories next to that of the device.

`CAPATICY_PER_BUS` is a constant, so a device for which the products overflow `usize` does not
compile.
-/

namespace FlashBench

/-- A physical page, named by its block and its number there. -/
abbrev PageId := BlockId × ℕ

namespace Memory

/-- The logical page at an address. -/
def logicalPage (memory : Memory) (address : ℕ) : PageData := fun byte => memory (address + byte)

/-- The logical pages of the physical page at an address. -/
def physicalPage (memory : Memory) (address : ℕ) : Slot → PageData := fun lp =>
  memory.logicalPage (address + lp * logicalPageSize)

end Memory

namespace DeviceSizes

variable (S : DeviceSizes)

/-- The block is one of the device. -/
def HasBlock (b : BlockId) : Prop :=
  (b.chip.bus < S.numBuses ∧ b.chip.chip < S.numChipsPerBus) ∧ b.noBlock < S.numBlocksPerChip

/-- The page is one of the device. -/
def HasPage (p : PageId) : Prop := S.HasBlock p.1 ∧ p.2 < S.numPagesPerBlock

/-- The pages in the order of the loops of `create_vdevice`. -/
def pages : List PageId :=
  (List.range S.numBuses).flatMap fun bus =>
    (List.range S.numChipsPerBus).flatMap fun chip =>
      (List.range S.numBlocksPerChip).flatMap fun block =>
        (List.range S.numPagesPerBlock).map fun page => (⟨⟨bus, chip⟩, block⟩, page)

/-- The offset of a page in the buffer of its bus. -/
def pageOffset (p : PageId) : ℕ :=
  (p.1.chip.chip * S.numBlocksPerChip * S.numPagesPerBlock + p.1.noBlock * S.numPagesPerBlock +
    p.2) * physicalPageSize

/-- The buffers that `vmalloc` returned for the buses do not overlap. -/
def BuffersApart (vmalloc : ℕ → ℕ) : Prop :=
  ∀ bus < S.numBuses, ∀ other < S.numBuses, bus ≠ other →
    Disjoint (byteRange (vmalloc bus) S.capacityPerBus) (byteRange (vmalloc other) S.capacityPerBus)

theorem mem_pages {p : PageId} : p ∈ S.pages ↔ S.HasPage p := by
  rcases p with ⟨⟨⟨bus, chip⟩, block⟩, page⟩
  simp [pages, HasPage, HasBlock, and_assoc]

/-- The buffer of a bus as a sequence of blocks. -/
theorem capacityPerBus_eq : S.capacityPerBus =
    S.numChipsPerBus * S.numBlocksPerChip * (S.numPagesPerBlock * physicalPageSize) :=
  Nat.mul_assoc _ _ _

end DeviceSizes

/-- `struct vdevice_t`, without the bus controllers; `ptrData` stands for the nested arrays. -/
structure Vdevice where
  deviceCapacity : ℕ
  logicalCapacity : ℕ
  ptrVdisk : ℕ → ℕ
  ptrData : PageId → ℕ

namespace Vdevice

/-- `create_vdevice`. The allocation of the structure and `fb_bus_controller_init` may fail, and
`vmalloc` returns an address for each bus, or 0. The pointers of the pages are stale before. -/
def create (S : DeviceSizes) (allocated : Bool) (vmalloc : ℕ → ℕ) (initialized : Bool)
    (stale : PageId → ℕ) : Option Vdevice :=
  if allocated = false then none
  else if (List.range S.numBuses).any fun bus => vmalloc bus = 0 then none
  else
    let ptrData := S.pages.foldl (fun ptrData p =>
      Function.update ptrData p (vmalloc p.1.chip.bus + S.pageOffset p)) stale
    if initialized = false then none
    else some ⟨S.deviceCapacity, S.logicalCapacity, vmalloc, ptrData⟩

/-- `vdevice_write`. -/
def write (dev : Vdevice) (memory : Memory) (p : PageId) (source : Memory) (ptrSrc : ℕ) : Memory :=
  memory.copy (dev.ptrData p) source ptrSrc physicalPageSize

/-- `vdevice_erase`: the pages of a block are filled from the first one on. -/
def erase (dev : Vdevice) (S : DeviceSizes) (memory : Memory) (b : BlockId) : Memory :=
  memory.fill (dev.ptrData (b, 0)) 0xff (S.numPagesPerBlock * physicalPageSize)

/-- The local variables of `vdevice_read` and the memory that it writes to. -/
structure ReadState where
  dest : Memory
  ptrCurr : ℕ
  ptrSrc : ℕ

/-- One iteration of `vdevice_read`. -/
def readSlot (memory : Memory) (pageBitmap : Slot → UInt8) (state : ReadState) (lp : Slot) :
    ReadState :=
  let state :=
    if pageBitmap lp = 1 then
      { state with
        dest := state.dest.copy state.ptrCurr memory state.ptrSrc logicalPageSize
        ptrCurr := state.ptrCurr + logicalPageSize }
    else state
  { state with ptrSrc := state.ptrSrc + logicalPageSize }

/-- `vdevice_read`: the memory of the caller afterwards. -/
def read (dev : Vdevice) (memory : Memory) (p : PageId) (pageBitmap : Slot → UInt8)
    (dest : Memory) (ptrDest : ℕ) : Memory :=
  ((List.finRange nrLpInPp).foldl (readSlot memory pageBitmap)
    ⟨dest, ptrDest, dev.ptrData p⟩).dest

/-- The bytes of a page. -/
def pageRange (dev : Vdevice) (p : PageId) : Set ℕ := byteRange (dev.ptrData p) physicalPageSize

end Vdevice

/-! ### Where the pages are -/

/-- The pages of a device lie where `create_vdevice` puts them. -/
structure Vdevice.LaidOut (S : DeviceSizes) (dev : Vdevice) : Prop where
  ptrData_eq : ∀ p, S.HasPage p → dev.ptrData p = dev.ptrVdisk p.1.chip.bus + S.pageOffset p
  apart : S.BuffersApart dev.ptrVdisk

/-- The pages of a bus. -/
def DeviceSizes.pagesOfBus (S : DeviceSizes) (bus : ℕ) : Set PageId :=
  {p | S.HasPage p ∧ p.1.chip.bus = bus}

/-- The bytes of the pages of a block. -/
def Vdevice.blockRange (dev : Vdevice) (S : DeviceSizes) (b : BlockId) : Set ℕ :=
  byteRange (dev.ptrVdisk b.chip.bus +
    (b.chip.chip * S.numBlocksPerChip + b.noBlock) * (S.numPagesPerBlock * physicalPageSize))
    (S.numPagesPerBlock * physicalPageSize)

section Create

variable {S : DeviceSizes} {allocated initialized : Bool} {vmalloc : ℕ → ℕ}
  {stale : PageId → ℕ} {dev : Vdevice}

/-- What `create_vdevice` puts into the device when nothing fails. -/
theorem Vdevice.of_create (created : create S allocated vmalloc initialized stale = some dev) :
    dev.logicalCapacity = S.logicalCapacity ∧ dev.ptrVdisk = vmalloc ∧
      ∀ p, S.HasPage p → dev.ptrData p = vmalloc p.1.chip.bus + S.pageOffset p := by
  unfold create at created
  split_ifs at created with _ _ _
  rw [Option.some.injEq] at created
  subst created
  refine ⟨rfl, rfl, fun p hasPage => ?_⟩
  exact foldl_update_of_mem (fun p => vmalloc p.1.chip.bus + S.pageOffset p)
    (S.mem_pages.mpr hasPage) stale

theorem Vdevice.LaidOut.of_create
    (created : create S allocated vmalloc initialized stale = some dev)
    (apart : S.BuffersApart vmalloc) : LaidOut S dev := by
  rcases Vdevice.of_create created with ⟨_, ptrVdisk_eq, ptrData_eq⟩
  constructor
  · rwa [ptrVdisk_eq]
  · rwa [ptrVdisk_eq]

/-- Below 2 GiB the L2P table has an entry for each logical page that the device advertises. -/
theorem Vdevice.lt_nrEntries_of_create
    (created : create S allocated vmalloc initialized stale = some dev)
    (small : S.numPages < 2 ^ 17) {lpa : ℕ}
    (advertised : lpa < dev.logicalCapacity / logicalPageSize) : lpa < S.nrEntries := by
  rw [(Vdevice.of_create created).1] at advertised
  rw [DeviceSizes.nrEntries_of_small small]
  exact advertised.trans_le DeviceSizes.logicalCapacity_div_le

end Create

namespace Vdevice.LaidOut

variable {S : DeviceSizes} {dev : Vdevice}

theorem ptrData_block (laidOut : LaidOut S dev) {p : PageId} (hasPage : S.HasPage p) :
    dev.ptrData p = dev.ptrVdisk p.1.chip.bus +
      (p.1.chip.chip * S.numBlocksPerChip + p.1.noBlock) *
        (S.numPagesPerBlock * physicalPageSize) + p.2 * physicalPageSize := by
  rw [laidOut.ptrData_eq p hasPage, DeviceSizes.pageOffset]
  ring

theorem pageRange_subset (laidOut : LaidOut S dev) {p : PageId} (hasPage : S.HasPage p) :
    dev.pageRange p ⊆ dev.blockRange S p.1 := by
  unfold pageRange
  rw [laidOut.ptrData_block hasPage]
  exact record_subset hasPage.2

theorem blockRange_subset {b : BlockId} (hasBlock : S.HasBlock b) :
    dev.blockRange S b ⊆ byteRange (dev.ptrVdisk b.chip.bus) S.capacityPerBus := by
  have index_lt : b.chip.chip * S.numBlocksPerChip + b.noBlock <
      S.numChipsPerBus * S.numBlocksPerChip := by
    calc
      b.chip.chip * S.numBlocksPerChip + b.noBlock
          < b.chip.chip * S.numBlocksPerChip + S.numBlocksPerChip :=
        Nat.add_lt_add_left hasBlock.2 _
      _ = (b.chip.chip + 1) * S.numBlocksPerChip := (Nat.succ_mul _ _).symm
      _ ≤ S.numChipsPerBus * S.numBlocksPerChip := Nat.mul_le_mul_right _ hasBlock.1.2
  rw [S.capacityPerBus_eq]
  exact record_subset index_lt

theorem blockRange_disjoint (laidOut : LaidOut S dev) {b other : BlockId}
    (hasBlock : S.HasBlock b) (otherBlock : S.HasBlock other) (different : b ≠ other) :
    Disjoint (dev.blockRange S b) (dev.blockRange S other) := by
  by_cases sameBus : b.chip.bus = other.chip.bus
  · unfold blockRange
    rw [sameBus]
    apply record_disjoint
    intro same
    rcases digits_injective hasBlock.2 otherBlock.2 same with ⟨sameChip, sameBlock⟩
    apply different
    rcases b with ⟨⟨bus, chip⟩, block⟩
    rcases other with ⟨⟨otherBus, otherChip⟩, otherBlock⟩
    simp only at sameBus sameChip sameBlock
    rw [sameBus, sameChip, sameBlock]
  · exact (laidOut.apart _ hasBlock.1.1 _ otherBlock.1.1 sameBus).mono (blockRange_subset hasBlock)
      (blockRange_subset otherBlock)

theorem pageRange_disjoint (laidOut : LaidOut S dev) {p other : PageId} (hasPage : S.HasPage p)
    (otherPage : S.HasPage other) (different : p ≠ other) :
    Disjoint (dev.pageRange p) (dev.pageRange other) := by
  by_cases sameBlock : p.1 = other.1
  · unfold pageRange
    rw [laidOut.ptrData_block hasPage, laidOut.ptrData_block otherPage, sameBlock]
    apply record_disjoint
    intro samePage
    exact different (Prod.ext sameBlock samePage)
  · exact (laidOut.blockRange_disjoint hasPage.1 otherPage.1 sameBlock).mono
      (laidOut.pageRange_subset hasPage) (laidOut.pageRange_subset otherPage)

/-- The pages of a bus tile its buffer. -/
theorem iUnion_pageRange (laidOut : LaidOut S dev) {bus : ℕ} (bus_lt : bus < S.numBuses) :
    (⋃ p ∈ S.pagesOfBus bus, dev.pageRange p) =
      byteRange (dev.ptrVdisk bus) S.capacityPerBus := by
  apply Set.Subset.antisymm
  · apply Set.iUnion₂_subset
    rintro p ⟨hasPage, rfl⟩
    exact (laidOut.pageRange_subset hasPage).trans (blockRange_subset hasPage.1)
  · intro a inside
    -- the block of the address, and then its page
    rw [S.capacityPerBus_eq, ← iUnion_record, Set.mem_iUnion₂] at inside
    rcases inside with ⟨index, index_lt, inBlock⟩
    rw [← iUnion_record, Set.mem_iUnion₂] at inBlock
    rcases inBlock with ⟨page, page_lt, inPage⟩
    have blocks_pos : 0 < S.numBlocksPerChip := by
      apply Nat.pos_of_ne_zero
      intro none_
      simp [none_] at index_lt
    have split : index / S.numBlocksPerChip * S.numBlocksPerChip + index % S.numBlocksPerChip =
        index := Nat.div_add_mod' _ _
    have hasPage : S.HasPage
        (⟨⟨bus, index / S.numBlocksPerChip⟩, index % S.numBlocksPerChip⟩, page) :=
      ⟨⟨⟨bus_lt, Nat.div_lt_of_lt_mul (by rwa [Nat.mul_comm])⟩, Nat.mod_lt _ blocks_pos⟩, page_lt⟩
    rw [Set.mem_iUnion₂]
    refine ⟨_, ⟨hasPage, rfl⟩, ?_⟩
    unfold pageRange
    rw [laidOut.ptrData_block hasPage]
    simp only [split]
    exact inPage

end Vdevice.LaidOut

/-! ### What the pages hold -/

/-- Writes and erasures, as the flash translation layer orders them. -/
inductive VdevOp where
  /-- `vdevice_write` -/
  | write (p : PageId) (source : Memory) (ptrSrc : ℕ)
  /-- `vdevice_erase` -/
  | erase (b : BlockId)

namespace VdevOp

/-- The page or the block exists. -/
def InRange (S : DeviceSizes) : VdevOp → Prop
  | write p _ _ => S.HasPage p
  | erase b => S.HasBlock b

/-- What the operation leaves in a page, if it is about this page. -/
def content : VdevOp → PageId → Option (Slot → PageData)
  | write target source ptrSrc, p =>
      if p = target then some (source.physicalPage ptrSrc) else none
  | erase b, p => if p.1 = b then some fun _ => erasedPage else none

/-- The pages after the operation. -/
def apply (contents : PageId → Slot → PageData) (op : VdevOp) : PageId → Slot → PageData :=
  fun p => (op.content p).getD (contents p)

/-- What the last operation about a page left in it. -/
def lastContent (ops : List VdevOp) (p : PageId) : Option (Slot → PageData) :=
  ops.reverse.findSome? fun op => op.content p

theorem foldl_apply (ops : List VdevOp) (contents : PageId → Slot → PageData) (p : PageId) :
    ops.foldl apply contents p = (lastContent ops p).getD (contents p) := by
  induction ops using List.reverseRecOn with
  | nil => rfl
  | append_singleton ops op ih =>
      have last : lastContent (ops ++ [op]) p = (op.content p).or (lastContent ops p) := by
        rw [lastContent, List.reverse_append, List.reverse_singleton, List.singleton_append,
          List.findSome?_cons]
        cases op.content p with
        | none => rfl
        | some content => rfl
      rw [List.foldl_append, List.foldl_cons, List.foldl_nil, apply, ih, last]
      cases op.content p with
      | none => rfl
      | some content => rfl

end VdevOp

namespace Vdevice

/-- Carry out an operation. -/
def exec (dev : Vdevice) (S : DeviceSizes) (memory : Memory) : VdevOp → Memory
  | .write p source ptrSrc => dev.write memory p source ptrSrc
  | .erase b => dev.erase S memory b

/-- Carry out operations one after another. -/
def run (dev : Vdevice) (S : DeviceSizes) (memory : Memory) (ops : List VdevOp) : Memory :=
  ops.foldl (dev.exec S) memory

/-- The bytes of the pages are their contents. -/
def Holds (dev : Vdevice) (S : DeviceSizes) (memory : Memory)
    (contents : PageId → Slot → PageData) : Prop :=
  ∀ p, S.HasPage p → memory.physicalPage (dev.ptrData p) = contents p

end Vdevice

section Contents

variable {S : DeviceSizes} {dev : Vdevice} {memory other source : Memory}
  {contents : PageId → Slot → PageData} {p : PageId} {b : BlockId} {ptrSrc : ℕ}

theorem slot_inside (lp : Slot) (byte : Fin logicalPageSize) :
    lp * logicalPageSize + byte < physicalPageSize := by
  have := slot_lt lp
  have := byte.isLt
  simp only [physicalPageSize, logicalPageSize, nrLpInPp] at *
  omega

/-- The content of a page depends on its bytes only. -/
theorem physicalPage_congr {address : ℕ}
    (same : ∀ a ∈ byteRange address physicalPageSize, other a = memory a) :
    other.physicalPage address = memory.physicalPage address := by
  funext lp byte
  have inside := slot_inside lp byte
  apply same
  rw [mem_byteRange]
  omega

namespace Vdevice

theorem Holds.write (holds : dev.Holds S memory contents) (laidOut : LaidOut S dev)
    (hasPage : S.HasPage p) (source : Memory) (ptrSrc : ℕ) :
    dev.Holds S (dev.write memory p source ptrSrc)
      (Function.update contents p (source.physicalPage ptrSrc)) := by
  intro target targetPage
  by_cases same : target = p
  · subst target
    rw [Function.update_self]
    funext lp byte
    have inside := slot_inside lp byte
    have copied : dev.write memory p source ptrSrc (dev.ptrData p + (lp * logicalPageSize + byte)) =
        source (ptrSrc + (lp * logicalPageSize + byte)) := Memory.copy_add inside
    simpa only [Memory.physicalPage, Memory.logicalPage, Nat.add_assoc] using copied
  · rw [Function.update_of_ne same, ← holds target targetPage]
    apply physicalPage_congr
    intro a inside
    apply Memory.copy_of_notMem
    exact Set.disjoint_left.mp (laidOut.pageRange_disjoint targetPage hasPage same) inside

theorem Holds.erase (holds : dev.Holds S memory contents) (laidOut : LaidOut S dev)
    (hasBlock : S.HasBlock b) :
    dev.Holds S (dev.erase S memory b)
      (fun p => if p.1 = b then fun _ => erasedPage else contents p) := by
  intro target targetPage
  have pages_pos : 0 < S.numPagesPerBlock := Nat.zero_lt_of_lt targetPage.2
  have start : dev.ptrData (b, 0) = dev.ptrVdisk b.chip.bus +
      (b.chip.chip * S.numBlocksPerChip + b.noBlock) *
        (S.numPagesPerBlock * physicalPageSize) := by
    have first : S.HasPage (b, 0) := ⟨hasBlock, pages_pos⟩
    rw [laidOut.ptrData_block first]
    simp
  by_cases same : target.1 = b
  · simp only [if_pos same]
    funext lp byte
    have inside : dev.ptrData target + lp * logicalPageSize + byte ∈ dev.pageRange target := by
      have := slot_inside lp byte
      unfold pageRange
      rw [mem_byteRange]
      omega
    apply Memory.fill_of_mem
    rw [start]
    have inBlock := laidOut.pageRange_subset targetPage inside
    rwa [same] at inBlock
  · simp only [if_neg same]
    rw [← holds target targetPage]
    apply physicalPage_congr
    intro a inside
    apply Memory.fill_of_notMem
    rw [start]
    exact Set.disjoint_left.mp (laidOut.blockRange_disjoint targetPage.1 hasBlock same)
      (laidOut.pageRange_subset targetPage inside)

theorem Holds.exec (holds : dev.Holds S memory contents) (laidOut : LaidOut S dev) {op : VdevOp}
    (inRange : op.InRange S) :
    dev.Holds S (dev.exec S memory op) (VdevOp.apply contents op) := by
  cases op with
  | write p source ptrSrc =>
      have after := holds.write laidOut inRange source ptrSrc
      intro target targetPage
      have result := after target targetPage
      rw [Vdevice.exec, result, VdevOp.apply, VdevOp.content]
      split_ifs with same
      · rw [same, Function.update_self, Option.getD_some]
      · rw [Function.update_of_ne same, Option.getD_none]
  | erase b =>
      have after := holds.erase laidOut inRange
      intro target targetPage
      have result := after target targetPage
      simp only at result
      rw [Vdevice.exec, result, VdevOp.apply, VdevOp.content]
      split_ifs with same
      · rw [Option.getD_some]
      · rw [Option.getD_none]

/-- The bytes follow the contents through every run. -/
theorem Holds.run (holds : dev.Holds S memory contents) (laidOut : LaidOut S dev)
    {ops : List VdevOp} (inRange : ∀ op ∈ ops, op.InRange S) :
    dev.Holds S (dev.run S memory ops) (ops.foldl VdevOp.apply contents) := by
  induction ops generalizing memory contents with
  | nil => exact holds
  | cons op ops ih =>
      apply ih (holds.exec laidOut (inRange op (by simp)))
      intro other mem
      exact inRange other (by simp [mem])

end Vdevice

end Contents

/-! ### The loop of `vdevice_read` -/

/-- The slots that the bitmap selects. -/
def selected (pageBitmap : Slot → UInt8) (slots : List Slot) : List Slot :=
  slots.filter fun lp => pageBitmap lp = 1

/-- Logical pages have been put one after another at an address. -/
structure Packed (before after : Memory) (ptr : ℕ) (pages : List PageData) : Prop where
  page : ∀ i, (inside : i < pages.length) →
    after.logicalPage (ptr + i * logicalPageSize) = pages[i]
  outside : ∀ a ∉ byteRange ptr (pages.length * logicalPageSize), after a = before a

/-- What the loop has done when it has passed some slots. -/
structure ReadProgress (memory : Memory) (ptrData : ℕ) (pageBitmap : Slot → UInt8)
    (dest : Memory) (ptrDest : ℕ) (passed : List Slot) (state : Vdevice.ReadState) : Prop where
  ptrSrc_eq : state.ptrSrc = ptrData + passed.length * logicalPageSize
  ptrCurr_eq : state.ptrCurr = ptrDest + (selected pageBitmap passed).length * logicalPageSize
  packed : Packed dest state.dest ptrDest
    ((selected pageBitmap passed).map (memory.physicalPage ptrData))

section Read

variable {memory other dest before after : Memory} {ptr ptrData ptrDest src : ℕ}
  {pageBitmap : Slot → UInt8} {pages : List PageData} {passed slots : List Slot} {lp : Slot}
  {state : Vdevice.ReadState}

/-- Packed pages determine the memory. -/
theorem Packed.unique (first : Packed before after ptr pages)
    (second : Packed before other ptr pages) : other = after := by
  funext a
  by_cases inside : a ∈ byteRange ptr (pages.length * logicalPageSize)
  · rw [← iUnion_record, Set.mem_iUnion₂] at inside
    rcases inside with ⟨i, i_lt, inRecord⟩
    rw [mem_byteRange] at inRecord
    have same := (second.page i i_lt).trans (first.page i i_lt).symm
    have here := congrFun same ⟨a - (ptr + i * logicalPageSize), by omega⟩
    simpa only [Memory.logicalPage, Nat.add_sub_cancel' inRecord.1] using here
  · rw [first.outside a inside, second.outside a inside]

theorem Packed.append (packed : Packed before after ptr pages) (memory : Memory) (src : ℕ) :
    Packed before
      (after.copy (ptr + pages.length * logicalPageSize) memory src logicalPageSize) ptr
      (pages ++ [memory.logicalPage src]) := by
  have length : (pages ++ [memory.logicalPage src]).length = pages.length + 1 := by simp
  constructor
  · intro i inside
    rw [length] at inside
    funext byte
    by_cases last : i = pages.length
    · subst last
      rw [List.getElem_concat_length]
      · exact Memory.copy_add byte.isLt
      · rfl
    · have earlier : i < pages.length := by omega
      rw [List.getElem_append_left earlier, ← packed.page i earlier]
      apply Memory.copy_of_notMem
      have apart : Disjoint (byteRange (ptr + i * logicalPageSize) logicalPageSize)
          (byteRange (ptr + pages.length * logicalPageSize) logicalPageSize) :=
        record_disjoint last
      apply Set.disjoint_left.mp apart
      have := byte.isLt
      rw [mem_byteRange]
      omega
  · intro a outside
    rw [length, Nat.add_mul, Nat.one_mul] at outside
    have notLast : a ∉ byteRange (ptr + pages.length * logicalPageSize) logicalPageSize := by
      rw [mem_byteRange] at outside ⊢
      omega
    rw [Memory.copy_of_notMem notLast]
    apply packed.outside
    intro inside
    apply outside
    exact byteRange_subset (Nat.le_refl _)
      (Nat.add_le_add_left (Nat.le_add_right _ _) _) inside

theorem ReadProgress.readSlot
    (progress : ReadProgress memory ptrData pageBitmap dest ptrDest passed state)
    (position : (lp : ℕ) = passed.length) :
    ReadProgress memory ptrData pageBitmap dest ptrDest (passed ++ [lp])
      (Vdevice.readSlot memory pageBitmap state lp) := by
  have length : (passed ++ [lp]).length = passed.length + 1 := by simp
  by_cases chosen : pageBitmap lp = 1
  · have next : selected pageBitmap (passed ++ [lp]) = selected pageBitmap passed ++ [lp] := by
      simp [selected, chosen]
    have source : memory.physicalPage ptrData lp = memory.logicalPage state.ptrSrc := by
      rw [Memory.physicalPage, progress.ptrSrc_eq, position]
    rw [Vdevice.readSlot, if_pos chosen]
    constructor
    · rw [length, Nat.add_mul, Nat.one_mul, progress.ptrSrc_eq, Nat.add_assoc]
    · rw [next, List.length_append, List.length_singleton, Nat.add_mul, Nat.one_mul,
        progress.ptrCurr_eq, Nat.add_assoc]
    · have copied := progress.packed.append memory state.ptrSrc
      rw [List.length_map, ← progress.ptrCurr_eq] at copied
      rw [next, List.map_append, List.map_singleton, source]
      exact copied
  · have next : selected pageBitmap (passed ++ [lp]) = selected pageBitmap passed := by
      simp [selected, chosen]
    rw [Vdevice.readSlot, if_neg chosen]
    constructor
    · rw [length, Nat.add_mul, Nat.one_mul, progress.ptrSrc_eq, Nat.add_assoc]
    · rw [next, progress.ptrCurr_eq]
    · rw [next]
      exact progress.packed

theorem ReadProgress.foldl
    (progress : ReadProgress memory ptrData pageBitmap dest ptrDest passed state)
    (split : passed ++ slots = List.finRange nrLpInPp) :
    ReadProgress memory ptrData pageBitmap dest ptrDest (List.finRange nrLpInPp)
      (slots.foldl (Vdevice.readSlot memory pageBitmap) state) := by
  induction slots generalizing passed state with
  | nil =>
      rw [List.append_nil] at split
      rwa [← split]
  | cons lp slots ih =>
      have position : (lp : ℕ) = passed.length := by
        have here : (passed ++ lp :: slots)[passed.length]? = some lp := by simp
        rw [split] at here
        rcases List.getElem?_eq_some_iff.mp here with ⟨inside, isLp⟩
        rw [← isLp]
        simp
      apply ih (progress.readSlot position)
      rw [List.append_assoc, List.singleton_append, split]

/-- `vdevice_read` packs the logical pages that the bitmap selects. -/
theorem Vdevice.read_packed (dev : Vdevice) (memory : Memory) (p : PageId)
    (pageBitmap : Slot → UInt8) (dest : Memory) (ptrDest : ℕ) :
    Packed dest (dev.read memory p pageBitmap dest ptrDest) ptrDest
      ((selected pageBitmap (List.finRange nrLpInPp)).map
        (memory.physicalPage (dev.ptrData p))) := by
  have start : ReadProgress memory (dev.ptrData p) pageBitmap dest ptrDest []
      ⟨dest, ptrDest, dev.ptrData p⟩ := by
    constructor
    · simp
    · simp [selected]
    · constructor
      · intro i inside
        simp [selected] at inside
      · intro a _
        rfl
  exact (start.foldl (List.nil_append _)).packed

end Read

/-! ### The device as a store of pages -/

/-- The pages of each bus tile its buffer, and a read returns what the last operation on its page
left there. -/
structure VdeviceExact (S : DeviceSizes) (vmalloc : ℕ → ℕ) (dev : Vdevice) : Prop where
  disjoint : ∀ bus < S.numBuses, (S.pagesOfBus bus).PairwiseDisjoint dev.pageRange
  tile : ∀ bus < S.numBuses, (⋃ p ∈ S.pagesOfBus bus, dev.pageRange p) =
    byteRange (vmalloc bus)
      (S.numChipsPerBus * S.numBlocksPerChip * S.numPagesPerBlock * physicalPageSize)
  read_last : ∀ memory ops, (∀ op ∈ ops, op.InRange S) → ∀ p, S.HasPage p →
    ∀ content, VdevOp.lastContent ops p = some content → ∀ pageBitmap dest ptrDest,
      Packed dest (dev.read (dev.run S memory ops) p pageBitmap dest ptrDest) ptrDest
        ((selected pageBitmap (List.finRange nrLpInPp)).map content)
  read_frame : ∀ memory ops, (∀ op ∈ ops, op.InRange S) → ∀ p, S.HasPage p →
    VdevOp.lastContent ops p = none → ∀ pageBitmap dest ptrDest,
      dev.read (dev.run S memory ops) p pageBitmap dest ptrDest =
        dev.read memory p pageBitmap dest ptrDest

section Exact

variable {S : DeviceSizes} {dev : Vdevice} {memory other source : Memory}
  {p : PageId} {ops : List VdevOp}

theorem Vdevice.physicalPage_run (laidOut : LaidOut S dev) (memory : Memory)
    (inRange : ∀ op ∈ ops, op.InRange S) (hasPage : S.HasPage p) :
    (dev.run S memory ops).physicalPage (dev.ptrData p) =
      (VdevOp.lastContent ops p).getD (memory.physicalPage (dev.ptrData p)) := by
  have start : dev.Holds S memory fun p => memory.physicalPage (dev.ptrData p) := fun _ _ => rfl
  rw [start.run laidOut inRange p hasPage, VdevOp.foldl_apply]

/-- A read depends on the content of its page only. -/
theorem Vdevice.read_congr
    (same : other.physicalPage (dev.ptrData p) = memory.physicalPage (dev.ptrData p))
    (pageBitmap : Slot → UInt8) (dest : Memory) (ptrDest : ℕ) :
    dev.read other p pageBitmap dest ptrDest = dev.read memory p pageBitmap dest ptrDest := by
  have before := dev.read_packed memory p pageBitmap dest ptrDest
  have after := dev.read_packed other p pageBitmap dest ptrDest
  rw [same] at after
  exact before.unique after

/-- The device that `create_vdevice` returns is a store of pages. -/
theorem vdeviceExact_of_create {allocated initialized : Bool} {vmalloc : ℕ → ℕ}
    {stale : PageId → ℕ}
    (created : Vdevice.create S allocated vmalloc initialized stale = some dev)
    (apart : S.BuffersApart vmalloc) : VdeviceExact S vmalloc dev := by
  have laidOut := Vdevice.LaidOut.of_create created apart
  constructor
  · intro bus _ p inBus other otherInBus different
    exact laidOut.pageRange_disjoint inBus.1 otherInBus.1 different
  · intro bus bus_lt
    rw [laidOut.iUnion_pageRange bus_lt, (Vdevice.of_create created).2.1]
    rfl
  · intro memory ops inRange p hasPage content last pageBitmap dest ptrDest
    have packed := dev.read_packed (dev.run S memory ops) p pageBitmap dest ptrDest
    rwa [Vdevice.physicalPage_run laidOut memory inRange hasPage, last, Option.getD_some] at packed
  · intro memory ops inRange p hasPage last pageBitmap dest ptrDest
    apply Vdevice.read_congr
    rw [Vdevice.physicalPage_run laidOut memory inRange hasPage, last, Option.getD_none]

/-- Two buses of 24 pages, one buffer after the other. -/
theorem exists_vdeviceExact : ∃ dev,
    Vdevice.create ⟨2, 2, 3, 4⟩ true (fun bus => (bus + 1) * 393216) true (fun _ => 0) = some dev ∧
      VdeviceExact ⟨2, 2, 3, 4⟩ (fun bus => (bus + 1) * 393216) dev := by
  refine ⟨_, rfl, @vdeviceExact_of_create _ _ true true _ (fun _ => 0) rfl ?_⟩
  intro bus _ other _ different
  have apart : Disjoint (byteRange (0 + (bus + 1) * 393216) 393216)
      (byteRange (0 + (other + 1) * 393216) 393216) := record_disjoint (by omega)
  rwa [Nat.zero_add, Nat.zero_add] at apart

end Exact

/-! ### The pages of the context

`Fb` keeps the contents of the pages. Its writes, erasures and reads are those of the bytes.
-/

/-- The contents of the pages of the device. -/
def Fb.contents (fb : Fb) : PageId → Slot → PageData := fun p => fb.vdev p.1 p.2

namespace Vdevice

variable {G : Geometry} {dev : Vdevice} {memory : Memory} {fb : Fb} {b : BlockId} {pg : ℕ}

theorem Holds.vdeviceWrite (holds : dev.Holds G.sizes memory fb.contents)
    (laidOut : LaidOut G.sizes dev) (hasBlock : G.HasBlock b) (pg_lt : pg < G.numPagesPerBlock)
    (source : Memory) (ptrSrc : ℕ) :
    dev.Holds G.sizes (dev.write memory (b, pg) source ptrSrc)
      (fb.vdeviceWrite b pg (source.physicalPage ptrSrc)).contents := by
  have hasPage : G.sizes.HasPage (b, pg) := ⟨hasBlock, pg_lt⟩
  have after : (fb.vdeviceWrite b pg (source.physicalPage ptrSrc)).contents =
      Function.update fb.contents (b, pg) (source.physicalPage ptrSrc) := by
    funext p
    rcases p with ⟨other, page⟩
    simp only [Fb.contents, Fb.vdeviceWrite, Function.update_apply, Prod.mk.injEq]
    by_cases sameBlock : other = b
    · subst other
      simp [Function.update_apply, Fb.record]
    · simp [sameBlock, Fb.record]
  rw [after]
  exact holds.write laidOut hasPage source ptrSrc

theorem Holds.vdeviceErase (holds : dev.Holds G.sizes memory fb.contents)
    (laidOut : LaidOut G.sizes dev) (hasBlock : G.HasBlock b) :
    dev.Holds G.sizes (dev.erase G.sizes memory b) (fb.vdeviceErase G b).contents := by
  intro p hasPage
  rw [holds.erase laidOut hasBlock p hasPage]
  rcases p with ⟨other, page⟩
  have page_lt : page < G.numPagesPerBlock := hasPage.2
  simp only [Fb.contents, Fb.vdeviceErase, Function.update_apply]
  by_cases sameBlock : other = b
  · simp [sameBlock, page_lt]
  · simp [sameBlock, Fb.record]

theorem Holds.packed_vdeviceRead (holds : dev.Holds G.sizes memory fb.contents)
    (hasBlock : G.HasBlock b) (pg_lt : pg < G.numPagesPerBlock) (pageBitmap : Slot → UInt8)
    (dest : Memory) (ptrDest : ℕ) :
    Packed dest (dev.read memory (b, pg) pageBitmap dest ptrDest) ptrDest
      (fb.vdeviceRead b pg fun lp => pageBitmap lp = 1) := by
  have hasPage : G.sizes.HasPage (b, pg) := ⟨hasBlock, pg_lt⟩
  have packed := dev.read_packed memory (b, pg) pageBitmap dest ptrDest
  rw [holds _ hasPage] at packed
  exact packed

end Vdevice

end FlashBench
