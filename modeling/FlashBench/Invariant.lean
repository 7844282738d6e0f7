import FlashBench.Discipline
import FlashBench.Ownership

/-!
# The invariant of the flash translation layer

`Inv` joins the counters of the blocks, the two maps, the ownership of the blocks
and the discipline of the commands. Its parameter is the phase of the page that
is being filled, so that the same invariant holds inside
`map_logical_to_physical`.
-/

namespace FlashBench

/-- Progress of the page that is being filled. -/
inductive Phase where
  /-- No page is being filled. -/
  | rest
  /-- The next page of the block is programmed and `ofs` of its sub-pages are mapped. -/
  | filling (b : BlockId) (ofs : ℕ)
  /-- The page is complete, but the block has not been looked at by `update_act_blk`. -/
  | filled (b : BlockId)

namespace Phase

/-- The mapped sub-pages of the page that is being filled in a block. -/
def ofs (phase : Phase) (b : BlockId) : ℕ :=
  match phase with
  | filling block ofs => if block = b then ofs else 0
  | _ => 0

/-- The pages of a block that are programmed but not yet counted as such. -/
def written (phase : Phase) (b : BlockId) : ℕ :=
  match phase with
  | filling block _ => if block = b then 1 else 0
  | _ => 0

/-- The block of the page that is being filled. -/
def current : Phase → Option BlockId
  | rest => none
  | filling b _ => some b
  | filled b => some b

@[simp] theorem ofs_rest (b : BlockId) : rest.ofs b = 0 := rfl
@[simp] theorem ofs_filled (b other : BlockId) : (filled b).ofs other = 0 := rfl
@[simp] theorem ofs_filling_self (b : BlockId) (n : ℕ) : (filling b n).ofs b = n := by simp [ofs]
@[simp] theorem written_rest (b : BlockId) : rest.written b = 0 := rfl
@[simp] theorem written_filled (b other : BlockId) : (filled b).written other = 0 := rfl
@[simp] theorem written_filling_self (b : BlockId) (n : ℕ) : (filling b n).written b = 1 := by
  simp [written]

theorem ofs_filling_of_ne {b other : BlockId} (different : other ≠ b) (n : ℕ) :
    (filling b n).ofs other = 0 := by
  simp [ofs, different.symm]

theorem written_filling_of_ne {b other : BlockId} (different : other ≠ b) (n : ℕ) :
    (filling b n).written other = 0 := by
  simp [written, different.symm]

end Phase

/-- What the counters of a block say about the place it is in. -/
def PlaceOk (G : Geometry) (phase : Phase) (b : BlockId) (block : FlashBlock) : Place → Prop
  | .free => block.nrFreePages = G.numPagesPerBlock
  | .used => block.nrFreePages = 0
  | .dirt => block.nrFreePages = 0 ∧ block.nrValidLogPages = 0
  | .active => phase ≠ .filled b → 0 < block.nrFreePages
  | .gc => block.nrValidLogPages = 0

/-- An entry of an LPA list: an LPA of the L2P table or padding. -/
def LpaOk (G : Geometry) (lpa : ℕ) : Prop := lpa = pageUnmapped ∨ lpa < G.numLogPages

/-- The blocks of one chip: their places, their counters and their flags agree. -/
structure ChipOk (G : Geometry) (phase : Phase) (c : ChipId) (blocks : BlockId → FlashBlock)
    (chip : FlashChip) (act gc : Option BlockId) : Prop where
  partition : Partition G c chip act gc
  placeOk : ∀ place, ∀ b ∈ chip.holds act gc place, PlaceOk G phase b (blocks b) place
  activeFlag : ∀ b, b.chip = c → b.noBlock < G.numBlocksPerChip →
    ((blocks b).isActiveBlock = true ↔ act = some b)
  reservedFlag : ∀ b, b.chip = c → b.noBlock < G.numBlocksPerChip →
    ((blocks b).isReservedBlock = true ↔ gc = some b)

/-- The invariant of the flash side of the context. -/
structure Inv (G : Geometry) (phase : Phase) (fb : Fb) : Prop where
  blockOk : ∀ b, G.HasBlock b →
    BlockOk G (phase.ofs b) (fb.ssdi.blocks b) (fb.ssdi.pages b)
  mapOk : MapOk G fb.mappings fb.ssdi.pages
  chipOk : ∀ c, G.HasChip c →
    ChipOk G phase c fb.ssdi.blocks (fb.ssdi.chips c) (fb.abm.actBlks c) (fb.gcm.gcBlks c)
  historyOk : HistoryOk G fb.history
  programmed_eq : ∀ b, G.HasBlock b → programmed b fb.history =
    pagesBelow (G.numPagesPerBlock - (fb.ssdi.blocks b).nrFreePages + phase.written b)
  lpasOk : ∀ i, LpaOk G (fb.gcm.lpasToCopy i)
  mruOk : G.HasChip fb.getPrevBusChip
  phaseOk : ∀ b, phase.current = some b → G.HasBlock b ∧ fb.abm.actBlks b.chip = some b

/-- The two records differ in their flags and erase counts only. -/
structure SameCounters (block other : FlashBlock) : Prop where
  nrFreePages : other.nrFreePages = block.nrFreePages
  nrValidPages : other.nrValidPages = block.nrValidPages
  nrInvalidPages : other.nrInvalidPages = block.nrInvalidPages
  nrValidLogPages : other.nrValidLogPages = block.nrValidLogPages
  nrInvalidLogPages : other.nrInvalidLogPages = block.nrInvalidLogPages

theorem SameCounters.rfl {block : FlashBlock} : SameCounters block block :=
  ⟨by rfl, by rfl, by rfl, by rfl, by rfl⟩

theorem SameCounters.trans {block other third : FlashBlock} (first : SameCounters block other)
    (second : SameCounters other third) : SameCounters block third where
  nrFreePages := second.nrFreePages.trans first.nrFreePages
  nrValidPages := second.nrValidPages.trans first.nrValidPages
  nrInvalidPages := second.nrInvalidPages.trans first.nrInvalidPages
  nrValidLogPages := second.nrValidLogPages.trans first.nrValidLogPages
  nrInvalidLogPages := second.nrInvalidLogPages.trans first.nrInvalidLogPages

theorem BlockOk.sameCounters {G : Geometry} {ofs : ℕ} {block other : FlashBlock}
    {pages : ℕ → FlashPage} (ok : BlockOk G ofs block pages) (same : SameCounters block other) :
    BlockOk G ofs other pages :=
  ok.congr same.nrFreePages same.nrValidLogPages same.nrInvalidLogPages same.nrValidPages
    same.nrInvalidPages

theorem PlaceOk.congr {G : Geometry} {phase : Phase} {b : BlockId} {block other : FlashBlock}
    {place : Place} (ok : PlaceOk G phase b block place)
    (nrFreePages : other.nrFreePages = block.nrFreePages)
    (nrValidLogPages : other.nrValidLogPages = block.nrValidLogPages) :
    PlaceOk G phase b other place := by
  cases place <;> simp only [PlaceOk, nrFreePages, nrValidLogPages] at ok ⊢ <;> exact ok

namespace ChipOk

variable {G : Geometry} {phase : Phase} {c : ChipId} {b : BlockId} {blocks : BlockId → FlashBlock}
  {chip : FlashChip} {act gc : Option BlockId}

theorem congr (ok : ChipOk G phase c blocks chip act gc) (newBlocks : BlockId → FlashBlock)
    (same : ∀ b, b.chip = c → newBlocks b = blocks b) :
    ChipOk G phase c newBlocks chip act gc where
  partition := ok.partition
  placeOk place b mem := by
    rw [same b (ok.partition.of_mem place mem).1]
    exact ok.placeOk place b mem
  activeFlag b own b_lt := by rw [same b own]; exact ok.activeFlag b own b_lt
  reservedFlag b own b_lt := by rw [same b own]; exact ok.reservedFlag b own b_lt

theorem of_active (ok : ChipOk G phase c blocks chip (some b) gc) :
    PlaceOk G phase b (blocks b) .active :=
  ok.placeOk .active b (by simp [FlashChip.holds])

theorem of_gc (ok : ChipOk G phase c blocks chip act (some b)) :
    PlaceOk G phase b (blocks b) .gc :=
  ok.placeOk .gc b (by simp [FlashChip.holds])

end ChipOk

namespace Inv

variable {G : Geometry} {phase : Phase} {fb : Fb} {c : ChipId} {b : BlockId}

theorem hasBlock_of_mem (inv : Inv G phase fb) (hasChip : G.HasChip c) (place : Place)
    (mem : b ∈ (fb.ssdi.chips c).holds (fb.abm.actBlks c) (fb.gcm.gcBlks c) place) :
    b.chip = c ∧ G.HasBlock b := by
  rcases (inv.chipOk c hasChip).partition.of_mem place mem with ⟨rfl, b_lt⟩
  exact ⟨rfl, hasChip, b_lt⟩

theorem of_active (inv : Inv G phase fb) (hasChip : G.HasChip c)
    (active : fb.abm.actBlks c = some b) : b.chip = c ∧ G.HasBlock b :=
  inv.hasBlock_of_mem hasChip .active (by simp [FlashChip.holds, active])

theorem of_gc (inv : Inv G phase fb) (hasChip : G.HasChip c)
    (reserved : fb.gcm.gcBlks c = some b) : b.chip = c ∧ G.HasBlock b :=
  inv.hasBlock_of_mem hasChip .gc (by simp [FlashChip.holds, reserved])

theorem active_nrFreePages_pos (inv : Inv G phase fb) (hasChip : G.HasChip c)
    (active : fb.abm.actBlks c = some b) (notFilled : phase ≠ .filled b) :
    0 < (fb.ssdi.blocks b).nrFreePages :=
  (inv.chipOk c hasChip).placeOk .active b (by simp [FlashChip.holds, active]) notFilled

/-- The GC block of a chip holds no VALID sub-page. -/
theorem gc_no_valid (inv : Inv G phase fb) (hasChip : G.HasChip c)
    (reserved : fb.gcm.gcBlks c = some b) :
    ∀ pg < G.numPagesPerBlock, ∀ lp, (fb.ssdi.pages b pg).pageStatus lp ≠ .valid := by
  have noValid := (inv.chipOk c hasChip).placeOk .gc b (by simp [FlashChip.holds, reserved])
  intro pg pg_lt lp
  exact (inv.blockOk b (inv.of_gc hasChip reserved).2).no_valid noValid pg_lt lp

end Inv

end FlashBench
