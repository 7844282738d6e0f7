import FlashBench.BlockMoves

/-!
# Moves of blocks keep the invariant

`Moves` relates two states that differ in the places and the flags of the blocks
of one chip only. Every change of a list or a slot is such a step, so what remains
to be shown for a move is `ChipOk` of that chip.
-/

namespace FlashBench

/-- Only the ownership of the blocks of a chip differs. -/
structure Moves (c : ChipId) (fb other : Fb) : Prop where
  pages : other.ssdi.pages = fb.ssdi.pages
  mappings : other.mappings = fb.mappings
  lpasToCopy : other.gcm.lpasToCopy = fb.gcm.lpasToCopy
  mru : other.getPrevBusChip = fb.getPrevBusChip
  vdev : other.vdev = fb.vdev
  counters : ∀ b, SameCounters (fb.ssdi.blocks b) (other.ssdi.blocks b)
  programmed_eq : ∀ b, programmed b other.history = programmed b fb.history
  otherBlocks : ∀ b, b.chip ≠ c → other.ssdi.blocks b = fb.ssdi.blocks b
  otherChips : ∀ c' ≠ c, other.ssdi.chips c' = fb.ssdi.chips c' ∧
    other.abm.actBlks c' = fb.abm.actBlks c' ∧ other.gcm.gcBlks c' = fb.gcm.gcBlks c'

namespace Moves

variable {G : Geometry} {phase : Phase} {fb other third : Fb} {c : ChipId} {b : BlockId}

theorem trans (first : Moves c fb other) (second : Moves c other third) : Moves c fb third where
  pages := second.pages.trans first.pages
  mappings := second.mappings.trans first.mappings
  lpasToCopy := second.lpasToCopy.trans first.lpasToCopy
  mru := second.mru.trans first.mru
  vdev := second.vdev.trans first.vdev
  counters b := (first.counters b).trans (second.counters b)
  programmed_eq b := (second.programmed_eq b).trans (first.programmed_eq b)
  otherBlocks b elsewhere := (second.otherBlocks b elsewhere).trans (first.otherBlocks b elsewhere)
  otherChips c' different := by
    rcases first.otherChips c' different with ⟨chips, actBlks, gcBlks⟩
    rcases second.otherChips c' different with ⟨chips', actBlks', gcBlks'⟩
    exact ⟨chips'.trans chips, actBlks'.trans actBlks, gcBlks'.trans gcBlks⟩

theorem updChip (fb : Fb) (c : ChipId) (f : FlashChip → FlashChip) :
    Moves c fb (fb.updChip c f) where
  pages := rfl
  mappings := rfl
  lpasToCopy := rfl
  mru := rfl
  vdev := rfl
  counters _ := .rfl
  programmed_eq _ := rfl
  otherBlocks _ _ := rfl
  otherChips _ different := ⟨Function.update_of_ne different _ _, rfl, rfl⟩

theorem record (fb : Fb) (c : ChipId) (op : FlashOp)
    (removal : ∀ b earlier, programmed b (⟨op, fb.ssdi, fb.mappings⟩ :: earlier) =
      programmed b earlier) : Moves c fb (fb.record op) where
  pages := rfl
  mappings := rfl
  lpasToCopy := rfl
  mru := rfl
  vdev := rfl
  counters _ := .rfl
  programmed_eq b := removal b fb.history
  otherBlocks _ _ := rfl
  otherChips _ _ := ⟨rfl, rfl, rfl⟩

theorem updBlock (fb : Fb) (b : BlockId) (f : FlashBlock → FlashBlock)
    (counters : ∀ block, SameCounters block (f block)) : Moves b.chip fb (fb.updBlock b f) where
  pages := rfl
  mappings := rfl
  lpasToCopy := rfl
  mru := rfl
  vdev := rfl
  counters other := by
    by_cases same : other = b
    · subst other
      simpa [Fb.updBlock, SsdInfo.updBlock] using counters (fb.ssdi.blocks b)
    · simpa [Fb.updBlock, SsdInfo.updBlock, same] using SameCounters.rfl
  programmed_eq _ := rfl
  otherBlocks other elsewhere := Function.update_of_ne (fun same => elsewhere (by rw [same])) _ _
  otherChips _ _ := ⟨rfl, rfl, rfl⟩

theorem setMappedPpa (moves : Moves c fb other) (lpa ppa : ℕ) :
    Moves c (fb.setMappedPpa lpa ppa) (other.setMappedPpa lpa ppa) :=
  { moves with
    mappings := congrArg (fun mappings : ℕ → ℕ => Function.update mappings lpa ppa) moves.mappings }

theorem setFreeBlk (fb : Fb) (b : BlockId) : Moves b.chip fb (fb.setFreeBlk b) :=
  updChip fb b.chip _

theorem setUsedBlk (fb : Fb) (b : BlockId) : Moves b.chip fb (fb.setUsedBlk b) :=
  updChip fb b.chip _

theorem setDirtBlk (fb : Fb) (b : BlockId) : Moves b.chip fb (fb.setDirtBlk b) :=
  updChip fb b.chip _

theorem resetFreeBlk (fb : Fb) (b : BlockId) : Moves b.chip fb (fb.resetFreeBlk b) :=
  (record fb b.chip (.resetFree b) fun _ _ => rfl).trans (updChip _ b.chip _)

theorem resetUsedBlk (fb : Fb) (b : BlockId) : Moves b.chip fb (fb.resetUsedBlk b) :=
  (record fb b.chip (.resetUsed b) fun _ _ => rfl).trans (updChip _ b.chip _)

theorem resetDirtBlk (fb : Fb) (b : BlockId) : Moves b.chip fb (fb.resetDirtBlk b) :=
  (record fb b.chip (.resetDirt b) fun _ _ => rfl).trans (updChip _ b.chip _)

theorem setActBlkFlag (fb : Fb) (b : BlockId) (flag : Bool) :
    Moves b.chip fb (fb.updBlock b (·.setActBlkFlag flag)) :=
  updBlock fb b _ fun _ => ⟨rfl, rfl, rfl, rfl, rfl⟩

theorem setRsvBlkFlag (fb : Fb) (b : BlockId) (flag : Bool) :
    Moves b.chip fb (fb.updBlock b (·.setRsvBlkFlag flag)) :=
  updBlock fb b _ fun _ => ⟨rfl, rfl, rfl, rfl, rfl⟩

theorem actBlks (fb : Fb) (c : ChipId) (blki : Option BlockId) :
    Moves c fb { fb with abm.actBlks := Function.update fb.abm.actBlks c blki } where
  pages := rfl
  mappings := rfl
  lpasToCopy := rfl
  mru := rfl
  vdev := rfl
  counters _ := .rfl
  programmed_eq _ := rfl
  otherBlocks _ _ := rfl
  otherChips _ different := ⟨rfl, Function.update_of_ne different _ _, rfl⟩

theorem gcBlks (fb : Fb) (c : ChipId) (blki : Option BlockId) :
    Moves c fb { fb with gcm.gcBlks := Function.update fb.gcm.gcBlks c blki } where
  pages := rfl
  mappings := rfl
  lpasToCopy := rfl
  mru := rfl
  vdev := rfl
  counters _ := .rfl
  programmed_eq _ := rfl
  otherBlocks _ _ := rfl
  otherChips _ different := ⟨rfl, rfl, Function.update_of_ne different _ _⟩

theorem setCurrActiveBlock_some (fb : Fb) (b : BlockId) :
    Moves b.chip fb (fb.setCurrActiveBlock b.chip (some b)) :=
  (actBlks fb b.chip (some b)).trans (setActBlkFlag _ b true)

theorem setCurrActiveBlock_none (fb : Fb) (c : ChipId) :
    Moves c fb (fb.setCurrActiveBlock c none) :=
  actBlks fb c none

theorem setCurrGcBlock_some (fb : Fb) (b : BlockId) :
    Moves b.chip fb (fb.setCurrGcBlock b.chip (some b)) :=
  (gcBlks fb b.chip (some b)).trans (setRsvBlkFlag _ b true)

theorem setCurrGcBlock_none (fb : Fb) (c : ChipId) : Moves c fb (fb.setCurrGcBlock c none) :=
  gcBlks fb c none

end Moves

theorem Fb.setCurrActiveBlock_overwrite (fb : Fb) (c : ChipId) (b : BlockId) :
    ((fb.setCurrActiveBlock c none).resetFreeBlk b).setCurrActiveBlock c (some b) =
      (fb.resetFreeBlk b).setCurrActiveBlock c (some b) := by
  simp [setCurrActiveBlock, resetFreeBlk, record, Fb.updChip, Fb.updBlock]

theorem Fb.setCurrGcBlock_overwrite (fb : Fb) (c : ChipId) (b : BlockId) :
    ((fb.setCurrGcBlock c none).resetDirtBlk b).setCurrGcBlock c (some b) =
      (fb.resetDirtBlk b).setCurrGcBlock c (some b) := by
  simp [setCurrGcBlock, resetDirtBlk, record, Fb.updChip, Fb.updBlock]

namespace Inv

variable {G : Geometry} {phase newPhase : Phase} {fb other : Fb} {c : ChipId} {b : BlockId}

/-! ### Fields that the invariant does not look at -/

theorem setPrevBusChip (inv : Inv G phase fb) (hasChip : G.HasChip c) :
    Inv G phase (fb.setPrevBusChip c) :=
  { inv with mruOk := hasChip }

/-- Everything of the GC manager but the GC slots is scratch memory. -/
theorem withGcm (inv : Inv G phase fb) (gcm : GcMngr) (gcBlks : gcm.gcBlks = fb.gcm.gcBlks)
    (lpasOk : ∀ i, LpaOk G (gcm.lpasToCopy i)) :
    Inv G phase { fb with gcm := gcm } := by
  rcases gcm with ⟨gcBlks', vicBlks, firstValidPg, lpasToCopy, dataToCopy, nrPgsToCopy⟩
  simp only at gcBlks
  subst gcBlks
  exact { inv with lpasOk := lpasOk }

theorem setVicBlk (inv : Inv G phase fb) (blki : Option BlockId) :
    Inv G phase (fb.setVicBlk c blki) :=
  inv.withGcm _ rfl inv.lpasOk

theorem setFirstValidPg (inv : Inv G phase fb) (pg : ℕ) :
    Inv G phase (fb.setFirstValidPg c pg) :=
  inv.withGcm _ rfl inv.lpasOk

theorem initGcm (inv : Inv G phase fb) : Inv G phase fb.initGcm := inv.withGcm _ rfl inv.lpasOk

/-! ### Moves -/

/-- A move within a chip keeps the invariant when it keeps the part of that chip. -/
theorem move (inv : Inv G phase fb) (moves : Moves c fb other)
    (ofs : ∀ b, newPhase.ofs b = phase.ofs b) (written : ∀ b, newPhase.written b = phase.written b)
    (placeOk : ∀ c' ≠ c, ∀ b, b.chip = c' → ∀ block place, PlaceOk G phase b block place →
      PlaceOk G newPhase b block place)
    (chipOk : ChipOk G newPhase c other.ssdi.blocks (other.ssdi.chips c) (other.abm.actBlks c)
      (other.gcm.gcBlks c))
    (historyOk : HistoryOk G other.history)
    (phaseOk : ∀ b, newPhase.current = some b → G.HasBlock b ∧ other.abm.actBlks b.chip = some b) :
    Inv G newPhase other where
  blockOk b hasBlock := by
    rw [ofs, moves.pages]
    exact (inv.blockOk b hasBlock).sameCounters (moves.counters b)
  mapOk := by rw [moves.mappings, moves.pages]; exact inv.mapOk
  chipOk c' hasChip' := by
    by_cases same : c' = c
    · subst c'
      exact chipOk
    · rcases moves.otherChips c' same with ⟨chips, actBlks, gcBlks⟩
      rw [chips, actBlks, gcBlks]
      have ok := (inv.chipOk c' hasChip').congr other.ssdi.blocks
        fun b own => moves.otherBlocks b (own ▸ same)
      exact { ok with placeOk := fun place b mem =>
                placeOk c' same b (ok.partition.of_mem place mem).1 _ place (ok.placeOk place b mem) }
  historyOk := historyOk
  programmed_eq b hasBlock := by
    rw [moves.programmed_eq, inv.programmed_eq b hasBlock, (moves.counters b).nrFreePages, written]
  lpasOk := by rw [moves.lpasToCopy]; exact inv.lpasOk
  mruOk := by rw [moves.mru]; exact inv.mruOk
  phaseOk := phaseOk

theorem moveAtRest (inv : Inv G .rest fb) (moves : Moves c fb other)
    (chipOk : ChipOk G .rest c other.ssdi.blocks (other.ssdi.chips c) (other.abm.actBlks c)
      (other.gcm.gcBlks c))
    (historyOk : HistoryOk G other.history) : Inv G .rest other :=
  inv.move moves (fun _ => rfl) (fun _ => rfl) (fun _ _ _ _ _ _ ok => ok) chipOk historyOk
    (fun _ isCurrent => by simp [Phase.current] at isCurrent)

theorem openFree (inv : Inv G .rest fb) (hasChip : G.HasChip c)
    (idle : fb.abm.actBlks c = none) (head : fb.getFreeBlock c = some b) :
    Inv G .rest ((fb.resetFreeBlk b).setCurrActiveBlock c (some b)) := by
  have mem : b ∈ (fb.ssdi.chips c).freeBlks := mem_of_head?_eq head
  rcases inv.hasBlock_of_mem hasChip .free mem with ⟨rfl, _⟩
  refine inv.moveAtRest ((Moves.resetFreeBlk fb b).trans (.setCurrActiveBlock_some _ b)) ?_
    ⟨mem, inv.historyOk⟩
  have ok := inv.chipOk b.chip hasChip
  rw [idle] at ok
  change ChipOk G .rest b.chip (Function.update fb.ssdi.blocks b _)
    (Function.update fb.ssdi.chips b.chip _ b.chip)
    (Function.update fb.abm.actBlks b.chip _ b.chip) _
  rw [Function.update_self, Function.update_self]
  exact ok.freeToActive mem

theorem reserveFree (inv : Inv G .rest fb) (hasChip : G.HasChip c)
    (idle : fb.gcm.gcBlks c = none) (head : fb.getFreeBlock c = some b)
    (noValid : (fb.ssdi.blocks b).nrValidLogPages = 0) :
    Inv G .rest ((fb.resetFreeBlk b).setCurrGcBlock c (some b)) := by
  have mem : b ∈ (fb.ssdi.chips c).freeBlks := mem_of_head?_eq head
  rcases inv.hasBlock_of_mem hasChip .free mem with ⟨rfl, _⟩
  refine inv.moveAtRest ((Moves.resetFreeBlk fb b).trans (.setCurrGcBlock_some _ b)) ?_
    ⟨mem, inv.historyOk⟩
  have ok := inv.chipOk b.chip hasChip
  rw [idle] at ok
  change ChipOk G .rest b.chip (Function.update fb.ssdi.blocks b _)
    (Function.update fb.ssdi.chips b.chip _ b.chip) _
    (Function.update fb.gcm.gcBlks b.chip _ b.chip)
  rw [Function.update_self, Function.update_self]
  exact ok.freeToGc mem noValid

theorem dirtToGc (inv : Inv G .rest fb) (hasChip : G.HasChip c)
    (idle : fb.gcm.gcBlks c = none) (head : fb.getDirtBlock c = some b) :
    Inv G .rest ((fb.resetDirtBlk b).setCurrGcBlock c (some b)) := by
  have mem : b ∈ (fb.ssdi.chips c).dirtBlks := mem_of_head?_eq head
  rcases inv.hasBlock_of_mem hasChip .dirt mem with ⟨rfl, _⟩
  refine inv.moveAtRest ((Moves.resetDirtBlk fb b).trans (.setCurrGcBlock_some _ b)) ?_
    ⟨mem, inv.historyOk⟩
  have ok := inv.chipOk b.chip hasChip
  rw [idle] at ok
  change ChipOk G .rest b.chip (Function.update fb.ssdi.blocks b _)
    (Function.update fb.ssdi.chips b.chip _ b.chip) _
    (Function.update fb.gcm.gcBlks b.chip _ b.chip)
  rw [Function.update_self, Function.update_self]
  exact ok.dirtToGc mem

theorem retire (inv : Inv G (.filled b) fb) (full : (fb.ssdi.blocks b).nrFreePages = 0) :
    Inv G .rest (((fb.updBlock b (·.setActBlkFlag false)).setUsedBlk b).setCurrActiveBlock
      b.chip none) := by
  rcases inv.phaseOk b rfl with ⟨hasBlock, active⟩
  refine inv.move (((Moves.setActBlkFlag fb b false).trans (.setUsedBlk _ b)).trans
    (.setCurrActiveBlock_none _ b.chip)) (fun _ => rfl) (fun _ => rfl) ?_ ?_ inv.historyOk
    (fun _ isCurrent => by simp [Phase.current] at isCurrent)
  · intro c different other own block place ok
    cases place with
    | active =>
        refine fun _ => ok fun same => different ?_
        have : b = other := by simpa using same
        rw [← own, ← this]
    | free => exact ok
    | used => exact ok
    | dirt => exact ok
    | gc => exact ok
  · have ok := inv.chipOk b.chip hasBlock.1
    rw [active] at ok
    change ChipOk G .rest b.chip (Function.update fb.ssdi.blocks b _)
      (Function.update fb.ssdi.chips b.chip _ b.chip)
      (Function.update fb.abm.actBlks b.chip _ b.chip) _
    rw [Function.update_self, Function.update_self]
    exact ok.activeToUsed full

theorem settle (inv : Inv G (.filled b) fb) (open_ : 0 < (fb.ssdi.blocks b).nrFreePages) :
    Inv G .rest fb :=
  { inv with
    chipOk := fun c hasChip => (inv.chipOk c hasChip).settle open_
    phaseOk := fun _ isCurrent => by simp [Phase.current] at isCurrent }

theorem updateActBlk (inv : Inv G (.filled b) fb) : Inv G .rest (fb.updateActBlk b.chip) := by
  rcases inv.phaseOk b rfl with ⟨hasBlock, active⟩
  unfold Fb.updateActBlk Fb.getCurrActiveBlock
  simp only [active]
  split_ifs with full
  · have retired := inv.retire full
    split
    · exact retired
    · next head =>
      have opened := retired.openFree hasBlock.1 (Function.update_self _ _ _) head
      rwa [Fb.setCurrActiveBlock_overwrite] at opened
  · exact inv.settle (by omega)

end Inv

end FlashBench
