import Mathlib.Logic.Function.Basic
import FlashBench.Geometry

/-!
# Page, block and chip information

The records of `ssd_info.c`. The blocks and the pages of all chips are kept in
two maps keyed by the identity of the block, which stand for the arrays behind
`list_blocks` and `list_pages`; the chip record holds the counters and the three
block lists. Fields that no function reads (`del_flag`, `is_bad_block`,
`chip_status`, ...) are left out.
-/

namespace FlashBench

/-- `fb_pg_status_t`, without the value `PAGE_STATUS_DEL` that is never stored. -/
inductive PgStatus where
  | free
  | valid
  | invalid
  deriving DecidableEq, Repr

/-- `struct flash_page`. -/
structure FlashPage where
  pageStatus : Slot → PgStatus
  noLogicalPageAddr : Slot → ℕ
  nrInvalidLogPages : ℕ

/-- `struct flash_block`, without the identity, the list links and the pages. -/
structure FlashBlock where
  nrValidPages : ℕ
  nrInvalidPages : ℕ
  nrFreePages : ℕ
  nrValidLogPages : ℕ
  nrInvalidLogPages : ℕ
  nrEraseCnt : ℕ
  isReservedBlock : Bool
  isActiveBlock : Bool

/-- `struct flash_chip`: the counters and the utlist lists of a chip. -/
structure FlashChip where
  nrFreeBlocks : ℕ
  nrUsedBlks : ℕ
  nrDirtBlks : ℕ
  freeBlks : List BlockId
  usedBlks : List BlockId
  dirtBlks : List BlockId

/-- `struct ssd_info`. -/
structure SsdInfo where
  chips : ChipId → FlashChip
  blocks : BlockId → FlashBlock
  pages : BlockId → ℕ → FlashPage

/-- `--x` on a `u32`. -/
def dec32 (n : ℕ) : ℕ := if n = 0 then 2 ^ 32 - 1 else n - 1

@[simp]
theorem dec32_succ (n : ℕ) : dec32 (n + 1) = n := by simp [dec32]

theorem dec32_of_pos {n : ℕ} (pos : 0 < n) : dec32 n = n - 1 := by
  simp [dec32, show n ≠ 0 by omega]

namespace FlashPage

/-- A page as `create_ssd_info` and `init_blk_inf` leave it. -/
def initial : FlashPage where
  pageStatus := fun _ => .free
  noLogicalPageAddr := fun _ => pageUnmapped
  nrInvalidLogPages := 0

/-- `set_mapped_lpa` -/
def setMappedLpa (page : FlashPage) (ofs : Slot) (lpa : ℕ) : FlashPage :=
  { page with noLogicalPageAddr := Function.update page.noLogicalPageAddr ofs lpa }

/-- `set_pg_status` -/
def setPgStatus (page : FlashPage) (ofs : Slot) (status : PgStatus) : FlashPage :=
  { page with pageStatus := Function.update page.pageStatus ofs status }

/-- `inc_nr_invalid_lps` -/
def incNrInvalidLps (page : FlashPage) : FlashPage :=
  { page with nrInvalidLogPages := page.nrInvalidLogPages + 1 }

/-- The sub-pages whose status is `PAGE_STATUS_VALID`, in order. -/
def validSlots (page : FlashPage) : List Slot :=
  (List.finRange nrLpInPp).filter fun lp => page.pageStatus lp = .valid

end FlashPage

namespace FlashBlock

variable (G : Geometry) (block : FlashBlock)

/-- A block as `create_ssd_info` leaves it. -/
def initial : FlashBlock where
  nrValidPages := 0
  nrInvalidPages := 0
  nrFreePages := G.numPagesPerBlock
  nrValidLogPages := 0
  nrInvalidLogPages := 0
  nrEraseCnt := 0
  isReservedBlock := false
  isActiveBlock := false

/-- The block record after `init_blk_inf`; the erase count stays. -/
def initBlkInf : FlashBlock := { initial G with nrEraseCnt := block.nrEraseCnt }

/-- `inc_bers_cnt`; the count is an `u32`. -/
def incBersCnt : FlashBlock := { block with nrEraseCnt := (block.nrEraseCnt + 1) % 2 ^ 32 }

/-- `inc_nr_valid_pgs` -/
def incNrValidPgs : FlashBlock := { block with nrValidPages := block.nrValidPages + 1 }

/-- `inc_nr_invalid_pgs` -/
def incNrInvalidPgs : FlashBlock := { block with nrInvalidPages := block.nrInvalidPages + 1 }

/-- `dec_nr_valid_pgs` -/
def decNrValidPgs : FlashBlock := { block with nrValidPages := dec32 block.nrValidPages }

/-- `dec_nr_free_pgs` -/
def decNrFreePgs : FlashBlock := { block with nrFreePages := dec32 block.nrFreePages }

/-- `inc_nr_valid_lps_in_blk` -/
def incNrValidLps : FlashBlock := { block with nrValidLogPages := block.nrValidLogPages + 1 }

/-- `inc_nr_invalid_lps_in_blk` -/
def incNrInvalidLps : FlashBlock :=
  { block with nrInvalidLogPages := block.nrInvalidLogPages + 1 }

/-- `dec_nr_valid_lps_in_blk` -/
def decNrValidLps : FlashBlock := { block with nrValidLogPages := dec32 block.nrValidLogPages }

/-- `set_rsv_blk_flag` -/
def setRsvBlkFlag (flag : Bool) : FlashBlock := { block with isReservedBlock := flag }

/-- `set_act_blk_flag` -/
def setActBlkFlag (flag : Bool) : FlashBlock := { block with isActiveBlock := flag }

end FlashBlock

namespace FlashChip

variable (chip : FlashChip) (bi : BlockId)

/-- A chip before `create_ssd_info` adds its blocks. -/
def empty : FlashChip where
  nrFreeBlocks := 0
  nrUsedBlks := 0
  nrDirtBlks := 0
  freeBlks := []
  usedBlks := []
  dirtBlks := []

/-- `DL_APPEND` to the free list. -/
def setFreeBlk : FlashChip :=
  { chip with freeBlks := chip.freeBlks ++ [bi], nrFreeBlocks := chip.nrFreeBlocks + 1 }

/-- `DL_DELETE` from the free list. -/
def resetFreeBlk : FlashChip :=
  { chip with freeBlks := chip.freeBlks.erase bi, nrFreeBlocks := dec32 chip.nrFreeBlocks }

/-- `DL_APPEND` to the used list. -/
def setUsedBlk : FlashChip :=
  { chip with usedBlks := chip.usedBlks ++ [bi], nrUsedBlks := chip.nrUsedBlks + 1 }

/-- `DL_DELETE` from the used list. -/
def resetUsedBlk : FlashChip :=
  { chip with usedBlks := chip.usedBlks.erase bi, nrUsedBlks := dec32 chip.nrUsedBlks }

/-- `DL_APPEND` to the dirty list. -/
def setDirtBlk : FlashChip :=
  { chip with dirtBlks := chip.dirtBlks ++ [bi], nrDirtBlks := chip.nrDirtBlks + 1 }

/-- `DL_DELETE` from the dirty list. -/
def resetDirtBlk : FlashChip :=
  { chip with dirtBlks := chip.dirtBlks.erase bi, nrDirtBlks := dec32 chip.nrDirtBlks }

end FlashChip

namespace SsdInfo

variable (ssdi : SsdInfo)

/-- Change the record of a chip. -/
def updChip (c : ChipId) (f : FlashChip → FlashChip) : SsdInfo :=
  { ssdi with chips := Function.update ssdi.chips c (f (ssdi.chips c)) }

/-- Change the record of a block. -/
def updBlock (b : BlockId) (f : FlashBlock → FlashBlock) : SsdInfo :=
  { ssdi with blocks := Function.update ssdi.blocks b (f (ssdi.blocks b)) }

/-- Change the record of a page. -/
def updPage (b : BlockId) (pg : ℕ) (f : FlashPage → FlashPage) : SsdInfo :=
  { ssdi with
    pages := Function.update ssdi.pages b
      (Function.update (ssdi.pages b) pg (f (ssdi.pages b pg))) }

/-- `init_blk_inf`: the record of a block and those of all its pages. -/
def initBlkInf (G : Geometry) (b : BlockId) : SsdInfo :=
  { ssdi.updBlock b (·.initBlkInf G) with
    pages := Function.update ssdi.pages b fun pg =>
      if pg < G.numPagesPerBlock then .initial else ssdi.pages b pg }

/-- `create_ssd_info`: every block is put on the free list of its chip, in order. -/
def create (G : Geometry) : SsdInfo :=
  G.chipsByBus.foldl
    (fun ssdi c =>
      (List.range G.numBlocksPerChip).foldl
        (fun ssdi blk => ssdi.updChip c (·.setFreeBlk ⟨c, blk⟩)) ssdi)
    { chips := fun _ => .empty
      blocks := fun _ => .initial G
      pages := fun _ _ => .initial }

end SsdInfo

end FlashBench
