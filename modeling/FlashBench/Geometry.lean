import Mathlib.Data.Nat.Bitwise
import Mathlib.Data.Fintype.Basic
import Mathlib.Data.List.Nodup
import Mathlib.Data.List.FinRange
import Mathlib.Tactic.Ring

/-!
# Geometry of the virtual device and its address format

The hardware configuration is a parameter of the development: a `Geometry`
carries the numbers of buses, chips, blocks and pages together with the
documented maxima of the 32-bit physical address. `Geometry.configured` is the
one the module is built with.

A physical address packs bus, chip, block and the sub-page number inside the
block into 4 + 4 + 12 + 12 bits. The value `PAGE_UNMAPPED` shares that space. It
would be the address of the very last sub-page of the largest geometry of all,
which `Geometry.subPages_lt` therefore leaves out.
-/

namespace FlashBench

/-- `NR_LP_IN_PP`: logical pages in one physical page. -/
abbrev nrLpInPp : ℕ := 4

/-- `LP_PAGE_MASK` selects the sub-page offset of a packed page number. -/
abbrev lpPageMask : ℕ := 3

/-- `LP_PAGE_SHIFT` drops the sub-page offset of a packed page number. -/
abbrev lpPageShift : ℕ := 2

/-- `(u32)PAGE_UNMAPPED`. -/
abbrev pageUnmapped : ℕ := 4294967295

/-- `CFACTOR_PERCENT`: the advertised share of the physical space. -/
abbrev cfactorPercent : ℕ := 90

/-- `BGC_TH_NR_BLKS`: background GC looks for victims below this many reclaimable blocks. -/
abbrev bgcThNrBlks : ℕ := 14

/-- `LOGICAL_PAGE_SIZE` in bytes. -/
abbrev logicalPageSize : ℕ := 4096

/-- Offset of a logical page in its physical page. -/
abbrev Slot := Fin nrLpInPp

/-- The bytes of one logical page. -/
abbrev PageData := Fin logicalPageSize → UInt8

/-- A hardware configuration that fits the physical address format. -/
structure Geometry where
  numBuses : ℕ
  numChipsPerBus : ℕ
  numBlocksPerChip : ℕ
  numPagesPerBlock : ℕ
  numBuses_pos : 0 < numBuses
  numBuses_le : numBuses ≤ 16
  numChipsPerBus_pos : 0 < numChipsPerBus
  numChipsPerBus_le : numChipsPerBus ≤ 16
  numBlocksPerChip_le : numBlocksPerChip ≤ 4096
  numPagesPerBlock_pos : 0 < numPagesPerBlock
  numPagesPerBlock_le : numPagesPerBlock * nrLpInPp ≤ 4096
  /-- No sub-page has the address `PAGE_UNMAPPED`. -/
  subPages_lt :
    numBuses * numChipsPerBus * numBlocksPerChip * (numPagesPerBlock * nrLpInPp) < 2 ^ 32

/-- A chip, named by its bus and its position on that bus. -/
structure ChipId where
  bus : ℕ
  chip : ℕ
  deriving DecidableEq, Repr

/-- A `flash_block` pointer, represented by the fields `no_bus`, `no_chip` and
`no_block` that `create_ssd_info` sets once to the position of the block. -/
structure BlockId where
  chip : ChipId
  noBlock : ℕ
  deriving DecidableEq, Repr

/-- One sub-page of the device. -/
structure Location where
  block : BlockId
  page : ℕ
  slot : Slot
  deriving DecidableEq, Repr

namespace Geometry

/-- The configuration the module is built with. -/
def configured : Geometry where
  numBuses := 1
  numChipsPerBus := 2
  numBlocksPerChip := 171
  numPagesPerBlock := 16 * 4 * 3
  numBuses_pos := by decide
  numBuses_le := by decide
  numChipsPerBus_pos := by decide
  numChipsPerBus_le := by decide
  numBlocksPerChip_le := by decide
  numPagesPerBlock_pos := by decide
  numPagesPerBlock_le := by decide
  subPages_lt := by decide

/-- The sizes of a device fit the physical address format. -/
def Fits (numBuses numChipsPerBus numBlocksPerChip numPagesPerBlock : ℕ) : Prop :=
  (0 < numBuses ∧ numBuses ≤ 16) ∧ (0 < numChipsPerBus ∧ numChipsPerBus ≤ 16) ∧
    numBlocksPerChip ≤ 4096 ∧ (0 < numPagesPerBlock ∧ numPagesPerBlock * nrLpInPp ≤ 4096) ∧
    numBuses * numChipsPerBus * numBlocksPerChip * (numPagesPerBlock * nrLpInPp) < 2 ^ 32

instance (numBuses numChipsPerBus numBlocksPerChip numPagesPerBlock : ℕ) :
    Decidable (Fits numBuses numChipsPerBus numBlocksPerChip numPagesPerBlock) :=
  inferInstanceAs (Decidable (_ ∧ _))

/-- A device of the given sizes. -/
def ofSizes (numBuses numChipsPerBus numBlocksPerChip numPagesPerBlock : ℕ)
    (fits : Fits numBuses numChipsPerBus numBlocksPerChip numPagesPerBlock) : Geometry where
  numBuses := numBuses
  numChipsPerBus := numChipsPerBus
  numBlocksPerChip := numBlocksPerChip
  numPagesPerBlock := numPagesPerBlock
  numBuses_pos := fits.1.1
  numBuses_le := fits.1.2
  numChipsPerBus_pos := fits.2.1.1
  numChipsPerBus_le := fits.2.1.2
  numBlocksPerChip_le := fits.2.2.1
  numPagesPerBlock_pos := fits.2.2.2.1.1
  numPagesPerBlock_le := fits.2.2.2.1.2
  subPages_lt := fits.2.2.2.2

variable (G : Geometry)

/-- `NUM_CHIPS`. -/
def numChips : ℕ := G.numBuses * G.numChipsPerBus

/-- `NUM_PAGES`: physical pages of the device. -/
def numPages : ℕ := G.numChips * G.numBlocksPerChip * G.numPagesPerBlock

/-- `NUM_LOG_PAGES`, which is also the number of entries of the L2P table below 2 GiB. -/
def numLogPages : ℕ := G.numPages * nrLpInPp * cfactorPercent / 100

/-- LPAs below the capacity that `create_vdevice` advertises. -/
def capacityInPages : ℕ := G.numPages * cfactorPercent / 100 * nrLpInPp

theorem numPagesPerBlock_le_1024 : G.numPagesPerBlock ≤ 1024 := by
  have := G.numPagesPerBlock_le
  simp only [nrLpInPp] at this
  omega

/-- The chip exists. -/
def HasChip (c : ChipId) : Prop := c.bus < G.numBuses ∧ c.chip < G.numChipsPerBus

/-- The block exists. -/
def HasBlock (b : BlockId) : Prop := G.HasChip b.chip ∧ b.noBlock < G.numBlocksPerChip

/-- The sub-page exists. -/
def HasLocation (l : Location) : Prop := G.HasBlock l.block ∧ l.page < G.numPagesPerBlock

instance (c : ChipId) : Decidable (G.HasChip c) := inferInstanceAs (Decidable (_ ∧ _))

instance (b : BlockId) : Decidable (G.HasBlock b) := inferInstanceAs (Decidable (_ ∧ _))

instance (l : Location) : Decidable (G.HasLocation l) := inferInstanceAs (Decidable (_ ∧ _))

/-- The order of `for (bus ...) for (chip ...)`. -/
def chipsByBus : List ChipId :=
  (List.range G.numBuses).flatMap fun bus =>
    (List.range G.numChipsPerBus).map fun chip => ⟨bus, chip⟩

/-- The order of `for (chip ...) for (bus ...)`. -/
def chipsByChip : List ChipId :=
  (List.range G.numChipsPerBus).flatMap fun chip =>
    (List.range G.numBuses).map fun bus => ⟨bus, chip⟩

@[simp]
theorem mem_chipsByBus {c : ChipId} : c ∈ G.chipsByBus ↔ G.HasChip c := by
  rcases c with ⟨bus, chip⟩
  simp [chipsByBus, HasChip]

@[simp]
theorem mem_chipsByChip {c : ChipId} : c ∈ G.chipsByChip ↔ G.HasChip c := by
  rcases c with ⟨bus, chip⟩
  simp [chipsByChip, HasChip, and_comm]

theorem nodup_chipsByBus : G.chipsByBus.Nodup := by
  refine List.nodup_flatMap.mpr ⟨?_, ?_⟩
  · intro bus _
    exact List.nodup_range.map (fun _ _ same => by simpa using same)
  · refine List.nodup_range.imp ?_
    intro left right different chip leftMem rightMem
    simp only [List.mem_map] at leftMem rightMem
    rcases leftMem with ⟨_, _, rfl⟩
    rcases rightMem with ⟨_, _, same⟩
    simp only [ChipId.mk.injEq] at same
    exact different same.1.symm

theorem nodup_chipsByChip : G.chipsByChip.Nodup := by
  refine List.nodup_flatMap.mpr ⟨?_, ?_⟩
  · intro chip _
    exact List.nodup_range.map (fun _ _ same => by simpa using same)
  · refine List.nodup_range.imp ?_
    intro left right different bus leftMem rightMem
    simp only [List.mem_map] at leftMem rightMem
    rcases leftMem with ⟨_, _, rfl⟩
    rcases rightMem with ⟨_, _, same⟩
    simp only [ChipId.mk.injEq] at same
    exact different same.2.symm

end Geometry

/-- `convert_to_physical_address` -/
def convertToPhysicalAddress (bus chip block page : ℕ) : ℕ :=
  (bus <<< 28 ||| chip <<< 24 ||| block <<< 12 ||| page) % 2 ^ 32

/-- The four fields `convert_to_ssd_layout` writes through its pointers. -/
structure SsdLayout where
  bus : ℕ
  chip : ℕ
  block : ℕ
  page : ℕ
  deriving DecidableEq, Repr

/-- `convert_to_ssd_layout` -/
def convertToSsdLayout (address : ℕ) : SsdLayout where
  bus := 0xf &&& address >>> 28
  chip := 0xf &&& address >>> 24
  block := 0xfff &&& address >>> 12
  page := 0xfff &&& address

/-- `(u8)(page & LP_PAGE_MASK)` as an index of the sub-page arrays. -/
def slotOfPage (page : ℕ) : Slot :=
  ⟨page &&& lpPageMask, Nat.and_lt_two_pow (n := 2) _ (by decide)⟩

namespace SsdLayout

/-- The block whose information `get_block_info` returns for a decoded address. -/
def blockId (layout : SsdLayout) : BlockId := ⟨⟨layout.bus, layout.chip⟩, layout.block⟩

/-- The sub-page a decoded address stands for: the page number is shifted and masked. -/
def location (layout : SsdLayout) : Location where
  block := layout.blockId
  page := layout.page >>> lpPageShift
  slot := slotOfPage layout.page

end SsdLayout

/-- The sub-page a word of the L2P table decodes to. -/
def locate (address : ℕ) : Location := (convertToSsdLayout address).location

/-- The word `__map_logical_to_physical` stores for a sub-page. -/
def physicalAddress (location : Location) : ℕ :=
  convertToPhysicalAddress location.block.chip.bus location.block.chip.chip
    location.block.noBlock (location.page <<< lpPageShift ||| location.slot)

theorem shiftLeft_or_eq (high width : ℕ) {low : ℕ} (fits : low < 2 ^ width) :
    high <<< width ||| low = high * 2 ^ width + low := by
  rw [← Nat.shiftLeft_add_eq_or_of_lt fits, Nat.shiftLeft_eq]

/-- Inside the documented field widths the packed address is a mixed-radix number. -/
theorem convertToPhysicalAddress_eq {bus chip block page : ℕ} (bus_lt : bus < 16)
    (chip_lt : chip < 16) (block_lt : block < 4096) (page_lt : page < 4096) :
    convertToPhysicalAddress bus chip block page =
      bus * 2 ^ 28 + chip * 2 ^ 24 + block * 2 ^ 12 + page := by
  have packed : bus <<< 28 ||| chip <<< 24 ||| block <<< 12 ||| page =
      bus * 2 ^ 28 + (chip * 2 ^ 24 + (block * 2 ^ 12 + page)) := by
    rw [Nat.or_assoc, Nat.or_assoc,
      shiftLeft_or_eq block 12 (by omega),
      shiftLeft_or_eq chip 24 (by omega),
      shiftLeft_or_eq bus 28 (by omega)]
  rw [convertToPhysicalAddress, packed, Nat.mod_eq_of_lt (by omega)]
  omega

theorem convertToSsdLayout_eq (address : ℕ) :
    convertToSsdLayout address =
      ⟨address / 2 ^ 28 % 16, address / 2 ^ 24 % 16, address / 2 ^ 12 % 4096,
        address % 4096⟩ := by
  have mask4 (n : ℕ) : 0xf &&& n = n % 16 := by
    rw [Nat.and_comm]; exact Nat.and_two_pow_sub_one_eq_mod n 4
  have mask12 (n : ℕ) : 0xfff &&& n = n % 4096 := by
    rw [Nat.and_comm]; exact Nat.and_two_pow_sub_one_eq_mod n 12
  simp only [convertToSsdLayout, mask4, mask12, Nat.shiftRight_eq_div_pow]

theorem slotOfPage_val (page : ℕ) : (slotOfPage page : ℕ) = page % 4 :=
  Nat.and_two_pow_sub_one_eq_mod page 2

theorem slot_lt (slot : Slot) : (slot : ℕ) < 4 := slot.isLt

theorem packedPage_eq (page : ℕ) (slot : Slot) :
    page <<< lpPageShift ||| (slot : ℕ) = page * 4 + slot :=
  shiftLeft_or_eq page 2 slot.isLt

/-- The sub-page is within the documented maxima of the address format. -/
structure Location.InFormat (location : Location) : Prop where
  bus_lt : location.block.chip.bus < 16
  chip_lt : location.block.chip.chip < 16
  block_lt : location.block.noBlock < 4096
  page_lt : location.page <<< lpPageShift ||| (location.slot : ℕ) < 4096

/-- The last sub-page of the address format. -/
def lastSubPage : Location := ⟨⟨⟨15, 15⟩, 4095⟩, 1023, 3⟩

section Addresses

variable {G : Geometry} {location : Location}

namespace Location.InFormat

theorem physicalAddress_eq (inFormat : location.InFormat) :
    physicalAddress location =
      location.block.chip.bus * 2 ^ 28 + location.block.chip.chip * 2 ^ 24 +
        location.block.noBlock * 2 ^ 12 + (location.page * 4 + location.slot) := by
  rw [physicalAddress, convertToPhysicalAddress_eq inFormat.bus_lt inFormat.chip_lt
    inFormat.block_lt inFormat.page_lt, packedPage_eq]

theorem locate_physicalAddress (inFormat : location.InFormat) :
    locate (physicalAddress location) = location := by
  have packed := inFormat.physicalAddress_eq
  rcases inFormat with ⟨bus_lt, chip_lt, block_lt, page_lt⟩
  rw [packedPage_eq] at page_lt
  have := slot_lt location.slot
  have pageField : physicalAddress location % 4096 = location.page * 4 + location.slot := by
    omega
  rw [locate, convertToSsdLayout_eq]
  rcases location with ⟨⟨⟨bus, chip⟩, block⟩, page, slot⟩
  simp only [SsdLayout.location, SsdLayout.blockId, Location.mk.injEq, BlockId.mk.injEq,
    ChipId.mk.injEq] at *
  refine ⟨⟨⟨by omega, by omega⟩, by omega⟩, ?_, ?_⟩
  · rw [pageField, Nat.shiftRight_eq_div_pow]
    simp only [lpPageShift]
    omega
  · apply Fin.ext
    rw [slotOfPage_val, pageField]
    omega

/-- The last sub-page is the only one that has the address of an unmapped LPA. -/
theorem physicalAddress_eq_pageUnmapped_iff (inFormat : location.InFormat) :
    physicalAddress location = pageUnmapped ↔ location = lastSubPage := by
  constructor
  · intro collision
    rw [inFormat.physicalAddress_eq] at collision
    rcases inFormat with ⟨bus_lt, chip_lt, block_lt, page_lt⟩
    rw [packedPage_eq] at page_lt
    have := slot_lt location.slot
    rcases location with ⟨⟨⟨bus, chip⟩, block⟩, page, slot⟩
    simp only [pageUnmapped, lastSubPage, Location.mk.injEq, BlockId.mk.injEq, ChipId.mk.injEq] at *
    refine ⟨⟨⟨by omega, by omega⟩, by omega⟩, by omega, ?_⟩
    apply Fin.ext
    change (slot : ℕ) = 3
    omega
  · rintro rfl
    decide

end Location.InFormat

theorem Geometry.HasLocation.inFormat (exists_ : G.HasLocation location) : location.InFormat := by
  rcases exists_ with ⟨⟨⟨bus_lt, chip_lt⟩, block_lt⟩, page_lt⟩
  have pages_le := G.numPagesPerBlock_le_1024
  have := slot_lt location.slot
  refine ⟨bus_lt.trans_le G.numBuses_le, chip_lt.trans_le G.numChipsPerBus_le,
    block_lt.trans_le G.numBlocksPerChip_le, ?_⟩
  rw [packedPage_eq]
  omega

theorem locate_physicalAddress (exists_ : G.HasLocation location) :
    locate (physicalAddress location) = location :=
  exists_.inFormat.locate_physicalAddress

/-- No existing sub-page has the address that marks an unmapped LPA. -/
theorem physicalAddress_ne_pageUnmapped (exists_ : G.HasLocation location) :
    physicalAddress location ≠ pageUnmapped := by
  intro collision
  have last := exists_.inFormat.physicalAddress_eq_pageUnmapped_iff.mp collision
  subst last
  rcases exists_ with ⟨⟨⟨bus_lt, chip_lt⟩, block_lt⟩, page_lt⟩
  have buses_le := G.numBuses_le
  have chips_le := G.numChipsPerBus_le
  have blocks_le := G.numBlocksPerChip_le
  have pages_le := G.numPagesPerBlock_le
  simp only [lastSubPage, nrLpInPp] at *
  have buses : G.numBuses = 16 := by omega
  have chips : G.numChipsPerBus = 16 := by omega
  have blocks : G.numBlocksPerChip = 4096 := by omega
  have pages : G.numPagesPerBlock * 4 = 4096 := by omega
  have total := G.subPages_lt
  simp [buses, chips, blocks, pages] at total

theorem physicalAddress_injective {other : Location} (exists_ : G.HasLocation location)
    (otherExists : G.HasLocation other)
    (same : physicalAddress location = physicalAddress other) : location = other := by
  rw [← locate_physicalAddress exists_, same, locate_physicalAddress otherExists]

end Addresses

theorem Geometry.numLogPages_lt (G : Geometry) : G.numLogPages < pageUnmapped := by
  have total := G.subPages_lt
  have same : G.numPages * nrLpInPp =
      G.numBuses * G.numChipsPerBus * G.numBlocksPerChip * (G.numPagesPerBlock * nrLpInPp) := by
    simp only [Geometry.numPages, Geometry.numChips]
    ring
  simp only [Geometry.numLogPages, same, pageUnmapped, cfactorPercent]
  omega

theorem Geometry.capacityInPages_le (G : Geometry) : G.capacityInPages ≤ G.numLogPages := by
  simp only [Geometry.capacityInPages, Geometry.numLogPages, nrLpInPp, cfactorPercent]
  omega

end FlashBench
