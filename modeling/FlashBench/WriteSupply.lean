import FlashBench.Supply

/-!
# When a host write runs out of space

Host writes and the copies of foreground garbage collection take the chips in turn, so
all chips run out of pages together. The collection that is then triggered opens one
block on every chip. It fails when a chip has no victim, and the host write fails when
the VALID sub-pages of the victims fill all the blocks that were opened.
-/

namespace FlashBench

/-- Every chip has been given the same number of pages: those programmed and those left. -/
def Level (G : Geometry) (fb : Fb) : Prop :=
  ∃ given, ∀ c, G.HasChip c → fb.pagesLeft G c + fb.programs.count c = given

/-- No page can be programmed without an erase. -/
def Exhausted (G : Geometry) (fb : Fb) : Prop := ∀ c, G.HasChip c → fb.pagesLeft G c = 0

instance (G : Geometry) (fb : Fb) : Decidable (Exhausted G fb) :=
  decidable_of_iff (∀ c ∈ G.chipsByBus, fb.pagesLeft G c = 0)
    (forall_congr' fun _ => by rw [G.mem_chipsByBus])

/-- The VALID sub-pages of the victim that foreground GC would choose on the chip. -/
def Fb.greedySize (fb : Fb) (c : ChipId) : ℕ :=
  match fb.selectVicBlkGreedy c with
  | none => 0
  | some b => (fb.ssdi.blocks b).nrValidLogPages

/-- The VALID sub-pages of the victims of all chips. -/
def Fb.fgcLoad (G : Geometry) (fb : Fb) : ℕ := (G.chipsByBus.map fb.greedySize).sum

/-- With one block of every chip erased, foreground GC has a victim on every chip, and the
copies leave a page for the host. -/
structure CanCollect (G : Geometry) (fb : Fb) : Prop where
  victim : ∀ c, G.HasChip c → (fb.selectVicBlkGreedy c).isSome
  room : fb.fgcLoad G + nrLpInPp ≤ nrLpInPp * (G.numChips * G.numPagesPerBlock)

/-! ### All chips run out of pages together -/

section Levels

variable {G : Geometry} {garbage : Garbage} {fb other : Fb} {c : ChipId} {blk pg : ℕ}

theorem Striped.count_next_le (striped : Striped G fb) (hasNext : G.HasChip (fb.getNextBusChip G))
    (hasChip : G.HasChip c) : fb.programs.count (fb.getNextBusChip G) ≤ fb.programs.count c := by
  rw [striped.count_eq hasNext, striped.count_eq hasChip, Nat.count_modEq_card _ G.numChips_pos,
    Nat.count_modEq_card _ G.numChips_pos, striped.next, Nat.mod_mod, if_neg (lt_irrefl _)]
  exact Nat.le_add_right _ _

/-- When the next chip has no page left, no chip has. -/
theorem Level.exhausted (level : Level G fb) (striped : Striped G fb) (inv : Inv G .rest fb)
    (empty : fb.pagesLeft G (fb.getNextBusChip G) = 0) : Exhausted G fb := by
  rcases level with ⟨given, level⟩
  have hasNext := hasChip_getNextBusChip inv.mruOk
  intro c hasChip
  have next := level _ hasNext
  have own := level c hasChip
  have fewest := striped.count_next_le hasNext hasChip
  omega

theorem Level.congr (level : Level G fb) (programs : other.programs = fb.programs)
    (pagesLeft : ∀ c, G.HasChip c → other.pagesLeft G c = fb.pagesLeft G c) : Level G other := by
  rcases level with ⟨given, level⟩
  refine ⟨given, fun c hasChip => ?_⟩
  rw [pagesLeft c hasChip, programs]
  exact level c hasChip

/-- After creation all blocks of a chip but its GC block can be filled. -/
theorem pagesLeft_of_created (created : Fb.create G garbage = some fb) (hasChip : G.HasChip c) :
    fb.pagesLeft G c = G.numPagesPerBlock * (G.numBlocksPerChip - 1) := by
  have start := Created.of_create created
  rcases Option.isSome_iff_exists.mp (start.active c hasChip) with ⟨b, active⟩
  rcases Option.isSome_iff_exists.mp (start.reserved c hasChip) with ⟨gcBlk, reserved⟩
  have total := start.length_freeBlks hasChip
  rw [active, reserved] at total
  simp only [Option.toList_some, List.length_singleton] at total
  have fresh : (fb.ssdi.blocks b).nrFreePages = G.numPagesPerBlock :=
    (start.counters b).nrFreePages
  have rest : G.numBlocksPerChip - 1 = (fb.ssdi.chips c).freeBlks.length + 1 := by omega
  rw [pagesLeft_of_active active, fresh, rest, Nat.mul_succ]

theorem Level.of_created (created : Fb.create G garbage = some fb) : Level G fb := by
  refine ⟨G.numPagesPerBlock * (G.numBlocksPerChip - 1), fun c hasChip => ?_⟩
  rw [pagesLeft_of_created created hasChip, programs_of_create created, List.count_nil, Nat.add_zero]

/-- A page program moves one page of its chip from those left to those programmed. -/
theorem Level.programPage (level : Level G fb) (inv : Inv G .rest fb) (hasChip : G.HasChip c)
    (active : fb.abm.actBlks c = some ⟨c, blk⟩)
    (pg_eq : pg = G.numPagesPerBlock - (fb.ssdi.blocks ⟨c, blk⟩).nrFreePages) {lpas : Slot → ℕ}
    (lpasOk : ∀ lp, LpaOk G (lpas lp)) (src : Slot → PageData) :
    Level G (fb.programPage G c blk pg lpas src) := by
  rcases level with ⟨given, level⟩
  have open_ := inv.active_nrFreePages_pos hasChip active (by simp)
  refine ⟨given, fun other hasOther => ?_⟩
  have before := level other hasOther
  rw [programPage_pagesLeft inv hasChip active pg_eq lpasOk src hasOther,
    (programPage_progress G fb c blk pg lpas src).1, List.count_append]
  by_cases same : other = c
  · subst other
    rw [pagesLeft_of_active active] at before
    rw [if_pos rfl, List.count_singleton_self, pagesLeft_of_active active]
    omega
  · rw [if_neg same, List.count_singleton, if_neg (by simpa using Ne.symm same)]
    exact before

/-- Invalidating an LPA takes no page and gives none back. -/
theorem invalidateLpg_pagesLeft (fb : Fb) (lpa : ℕ) (c : ChipId) :
    (fb.invalidateLpg G lpa).2.pagesLeft G c = fb.pagesLeft G c := by
  have frame := MappingFrame.invalidateLpg G fb lpa
  apply pagesLeft_congr
  · rw [frame.abm]
  · exact frame.freeBlks c
  · exact fun b _ => fb.invalidateLpg_nrFreePages G lpa b

theorem Level.delInvalidatePgs (level : Level G fb) (reqLpas : List ℕ) :
    Level G (fb.delInvalidatePgs G reqLpas) :=
  foldl_preserves (Level G) (fun lpa _ other kept => kept.congr
    (SameProgress.invalidateLpg G other lpa).programs
    fun c _ => invalidateLpg_pagesLeft other lpa c) level

/-- `alloc_new_page` returns the next page of the active block as long as the chip has a page
left. -/
theorem Life.allocNewPage_of_room (life : Life G fb) (inv : Inv G .rest fb) (hasChip : G.HasChip c)
    (room : 0 < fb.pagesLeft G c) : ∃ blk, fb.abm.actBlks c = some ⟨c, blk⟩ ∧
      fb.allocNewPage G c =
        (some (blk, G.numPagesPerBlock - (fb.ssdi.blocks ⟨c, blk⟩).nrFreePages), fb) := by
  rcases Option.isSome_iff_exists.mp ((life.pagesLeft_pos_iff inv hasChip).mp room) with ⟨b, active⟩
  rcases inv.of_active hasChip active with ⟨rfl, _⟩
  exact ⟨b.noBlock, active, by simp [Fb.allocNewPage, Fb.getCurrActiveBlock, active]⟩

theorem Life.allocNewPage_of_empty (life : Life G fb) (inv : Inv G .rest fb)
    (hasChip : G.HasChip c) (empty : fb.pagesLeft G c = 0) :
    fb.allocNewPage G c = (none, fb) := by
  have fails := mt (life.allocNewPage_isSome_iff inv hasChip).mp (by omega)
  rcases alloc : fb.allocNewPage G c with ⟨_ | page, other⟩
  · rw [(Inv.allocNewPage_of_none alloc).1]
  · simp [alloc] at fails

end Levels

/-! ### The GC blocks are opened -/

section Opening

variable {G : Geometry} {fb other : Fb} {c : ChipId} {b : BlockId} {rest : List ChipId}

theorem mem_of_selectVicBlkGreedy (found : fb.selectVicBlkGreedy c = some b) :
    b ∈ (fb.ssdi.chips c).usedBlks ∨ b ∈ (fb.ssdi.chips c).dirtBlks := by
  unfold Fb.selectVicBlkGreedy at found
  rcases head : fb.getDirtBlock c with _ | dirt
  · rw [head] at found
    exact Or.inl (by simpa using mem_of_mostInvalidBlk found)
  · rw [head] at found
    simp only [Option.some.injEq] at found
    exact Or.inr (found ▸ mem_of_head?_eq head)

/-- The choice of a victim looks at the used and the dirt blocks of the chip. -/
theorem greedy_congr (chips : other.ssdi.chips c = fb.ssdi.chips c)
    (blocks : ∀ b, b ∈ (fb.ssdi.chips c).usedBlks ∨ b ∈ (fb.ssdi.chips c).dirtBlks →
      other.ssdi.blocks b = fb.ssdi.blocks b) :
    other.selectVicBlkGreedy c = fb.selectVicBlkGreedy c ∧ other.greedySize c = fb.greedySize c := by
  have same : other.selectVicBlkGreedy c = fb.selectVicBlkGreedy c := by
    unfold Fb.selectVicBlkGreedy Fb.getDirtBlock
    rw [chips, mostInvalidBlk_congr fun b used => blocks b (Or.inl used)]
  refine ⟨same, ?_⟩
  unfold Fb.greedySize
  rw [same]
  rcases found : fb.selectVicBlkGreedy c with _ | b
  · rfl
  · simp only
    rw [blocks b (mem_of_selectVicBlkGreedy found)]

/-- `prepare_act_blks` has opened the GC blocks of chips without a page left, but not yet those
of the chips of the list. -/
structure GcBlksOpened (G : Geometry) (fb other : Fb) (rest : List ChipId) : Prop where
  inv : Inv G .rest other
  chips : other.ssdi.chips = fb.ssdi.chips
  blocks : ∀ c, G.HasChip c → ∀ b, b ∈ (fb.ssdi.chips c).usedBlks ∨
    b ∈ (fb.ssdi.chips c).dirtBlks → other.ssdi.blocks b = fb.ssdi.blocks b
  waiting : ∀ c ∈ rest, G.HasChip c ∧ other.abm.actBlks c = none ∧ (other.gcm.gcBlks c).isSome
  opened : ∀ c, G.HasChip c → c ∉ rest → other.gcm.gcBlks c = none ∧
    ∃ b, other.abm.actBlks c = some b ∧ (other.ssdi.blocks b).nrFreePages = G.numPagesPerBlock

theorem GcBlksOpened.next (done : GcBlksOpened G fb other (c :: rest)) (new : c ∉ rest) :
    (other.prepareActBlk G c).1 = .ok ∧ GcBlksOpened G fb (other.prepareActBlk G c).2 rest := by
  rcases done.waiting c (by simp) with ⟨hasChip, idle, some_⟩
  rcases Option.isSome_iff_exists.mp some_ with ⟨b, reserved⟩
  rcases done.inv.of_gc hasChip reserved with ⟨own, hasBlock⟩
  have inv : Inv G .rest (other.prepareActBlk G c).2 := done.inv.prepareActBlk hasChip
  have result : other.prepareActBlk G c =
      (.ok, ((other.eraseBlk G c b).setCurrActiveBlock c (some b)).setCurrGcBlock c none) := by
    simp [Fb.prepareActBlk, Fb.getCurrActiveBlock, Fb.getCurrGcBlock, idle, reserved]
  rw [result] at inv ⊢
  have blocks (member : BlockId) (different : member ≠ b) :
      ((((other.eraseBlk G c b).setCurrActiveBlock c (some b)).setCurrGcBlock c
        none).ssdi.blocks member) = other.ssdi.blocks member := by
    simp [Fb.setCurrGcBlock, Fb.setCurrActiveBlock, Fb.updBlock, SsdInfo.updBlock,
      Fb.eraseBlk_blocks, different]
  have fresh : ((((other.eraseBlk G c b).setCurrActiveBlock c (some b)).setCurrGcBlock c
      none).ssdi.blocks b).nrFreePages = G.numPagesPerBlock := by
    simp [Fb.setCurrGcBlock, Fb.setCurrActiveBlock, Fb.updBlock, SsdInfo.updBlock,
      Fb.eraseBlk_blocks, FlashBlock.setActBlkFlag, FlashBlock.initBlkInf, FlashBlock.incBersCnt,
      FlashBlock.initial]
  have actBlks : (((other.eraseBlk G c b).setCurrActiveBlock c (some b)).setCurrGcBlock c
      none).abm.actBlks = Function.update other.abm.actBlks c (some b) := rfl
  have gcBlks : (((other.eraseBlk G c b).setCurrActiveBlock c (some b)).setCurrGcBlock c
      none).gcm.gcBlks = Function.update other.gcm.gcBlks c none := rfl
  have chips : (((other.eraseBlk G c b).setCurrActiveBlock c (some b)).setCurrGcBlock c
      none).ssdi.chips = other.ssdi.chips := rfl
  generalize ((other.eraseBlk G c b).setCurrActiveBlock c (some b)).setCurrGcBlock c none = opened
    at inv blocks fresh actBlks gcBlks chips ⊢
  simp only [true_and] at inv ⊢
  refine ⟨inv, chips.trans done.chips, fun c' hasChip' member mem => ?_, fun c' mem => ?_,
    fun c' hasChip' passed => ?_⟩
  · -- the GC block is in no list, so its erase does not touch the blocks of the lists
    rw [← done.blocks c' hasChip' member mem]
    apply blocks
    rintro rfl
    rw [← done.chips] at mem
    have elsewhere (place : Place) (inPlace : member ∈ (other.ssdi.chips c').holds
        (other.abm.actBlks c') (other.gcm.gcBlks c') place) : place = .gc := by
      rcases done.inv.hasBlock_of_mem hasChip' place inPlace with ⟨own', _⟩
      rw [← own', own] at inPlace
      exact (done.inv.chipOk c hasChip).partition.unique inPlace .gc
        (by simp [FlashChip.holds, reserved])
    rcases mem with used | dirt
    · exact absurd (elsewhere .used used) (by simp)
    · exact absurd (elsewhere .dirt dirt) (by simp)
  · rcases done.waiting c' (by simp [mem]) with ⟨hasChip', idle', reserved'⟩
    have different : c' ≠ c := by
      rintro rfl
      exact new mem
    rw [actBlks, gcBlks, Function.update_of_ne different, Function.update_of_ne different]
    exact ⟨hasChip', idle', reserved'⟩
  · by_cases same : c' = c
    · subst c'
      rw [actBlks, gcBlks, Function.update_self, Function.update_self]
      exact ⟨rfl, b, rfl, fresh⟩
    · rcases done.opened c' hasChip' (by simp [same, passed]) with ⟨noGc, active, isActive, free⟩
      rw [actBlks, gcBlks, Function.update_of_ne same, Function.update_of_ne same]
      refine ⟨noGc, active, isActive, ?_⟩
      rw [blocks, free]
      rintro rfl
      rcases done.inv.of_active hasChip' isActive with ⟨own', _⟩
      exact same (own'.symm.trans own)

/-- When no chip has a page left, `prepare_act_blks` opens the GC block of every chip. -/
theorem Supplied.gcBlksOpened (supplied : Supplied G fb) (inv : Inv G .rest fb) (life : Life G fb)
    (exhausted : Exhausted G fb) :
    (fb.prepareActBlks G).1 = .ok ∧ GcBlksOpened G fb (fb.prepareActBlks G).2 [] := by
  have loop := @forEach_succeeds ChipId Fb (Fb.prepareActBlk G)
    (fun rest other => rest.Nodup ∧ GcBlksOpened G fb other rest) (fun c rest other => ?_)
    G.chipsByChip fb ⟨G.nodup_chipsByChip, inv, rfl, fun _ _ _ _ => rfl, fun c mem => ?_,
      fun c hasChip passed => absurd (G.mem_chipsByChip.mpr hasChip) passed⟩
  · exact ⟨loop.1, loop.2.2⟩
  · rintro ⟨nodup, done⟩
    rw [List.nodup_cons] at nodup
    rcases done.next nodup.1 with ⟨ok, next⟩
    exact ⟨ok, nodup.2, next⟩
  · have hasChip := G.mem_chipsByChip.mp mem
    refine ⟨hasChip, ?_, supplied c hasChip⟩
    have noneLeft := mt (life.pagesLeft_pos_iff inv hasChip).mpr (by simp [exhausted c hasChip])
    simpa using noneLeft

theorem GcBlksOpened.pagesLeft (done : GcBlksOpened G fb other []) (exhausted : Exhausted G fb)
    (hasChip : G.HasChip c) : other.pagesLeft G c = G.numPagesPerBlock := by
  rcases done.opened c hasChip (by simp) with ⟨_, b, active, fresh⟩
  have noFree : G.numPagesPerBlock * (fb.ssdi.chips c).freeBlks.length = 0 := by
    have none_ := exhausted c hasChip
    unfold Fb.pagesLeft at none_
    omega
  rw [pagesLeft_of_active active, done.chips, noFree, fresh, Nat.zero_add]

end Opening

/-! ### The victims are chosen -/

section Choosing

variable {G : Geometry} {fb other : Fb} {c : ChipId}

/-- On a chip without a GC block `set_vic_blks` fails exactly when there is no victim. -/
theorem setVicBlkOf_of_noGc (noGc : fb.gcm.gcBlks c = none) :
    ((fb.setVicBlkOf G c).1 = .ok ↔ (fb.selectVicBlkGreedy c).isSome) ∧
      (fb.setVicBlkOf G c).2.gcm.nrPgsToCopy = fb.gcm.nrPgsToCopy + fb.greedySize c := by
  unfold Fb.setVicBlkOf Fb.greedySize
  rw [if_neg (by simp [Fb.getCurrGcBlock, noGc])]
  rcases fb.selectVicBlkGreedy c with _ | b
  · simp
  · simp only
    split_ifs with empty
    · simp [Fb.setVicBlk, empty]
    · simp [Fb.setVicBlk, Fb.setFirstValidPg]

/-- Where no chip has a GC block, `set_vic_blks` fails exactly when a chip has no victim; otherwise
it counts the VALID sub-pages of the victims. -/
theorem setVicBlks_of_noGc (noGc : ∀ c, G.HasChip c → fb.gcm.gcBlks c = none)
    (zero : fb.gcm.nrPgsToCopy = 0) :
    ((fb.setVicBlks G).1 = .ok → (∀ c, G.HasChip c → (fb.selectVicBlkGreedy c).isSome) ∧
      (fb.setVicBlks G).2.gcm.nrPgsToCopy = fb.fgcLoad G) ∧
    ((fb.setVicBlks G).1 ≠ .ok → ∃ c, G.HasChip c ∧ fb.selectVicBlkGreedy c = none) := by
  refine forEach_rule
    (fun rest other => ScratchOnly fb other ∧ ∃ passed, passed ++ rest = G.chipsByBus ∧
      (∀ c ∈ passed, (fb.selectVicBlkGreedy c).isSome) ∧
      other.gcm.nrPgsToCopy = (passed.map fb.greedySize).sum)
    (fun result => (result.1 = .ok → (∀ c, G.HasChip c → (fb.selectVicBlkGreedy c).isSome) ∧
        result.2.gcm.nrPgsToCopy = fb.fgcLoad G) ∧
      (result.1 ≠ .ok → ∃ c, G.HasChip c ∧ fb.selectVicBlkGreedy c = none))
    (fun c rest other => ?_) (fun other => ?_) ⟨.refl fb, [], rfl, by simp, by simp [zero]⟩
  · rintro ⟨scratch, passed, all, found, count⟩
    have hasChip : G.HasChip c := G.mem_chipsByBus.mp (by simp [← all])
    have noneNow : other.gcm.gcBlks c = none := by
      rw [scratch.gcBlks]
      exact noGc c hasChip
    have turn := setVicBlkOf_of_noGc (G := G) noneNow
    rcases greedy_congr (c := c) (congrFun (congrArg SsdInfo.chips scratch.ssdi) c)
      (fun b _ => congrFun (congrArg SsdInfo.blocks scratch.ssdi) b) with ⟨sameVictim, sameSize⟩
    rw [sameVictim, sameSize] at turn
    refine ⟨fun ok => ⟨scratch.trans (.setVicBlkOf other c), passed ++ [c], by simp [all], ?_, ?_⟩,
      fun notOk => ⟨fun ok => absurd ok notOk, fun _ => ⟨c, hasChip, ?_⟩⟩⟩
    · intro c' mem
      rcases List.mem_append.mp mem with before | last
      · exact found c' before
      · rw [List.mem_singleton.mp last]
        exact turn.1.mp ok
    · rw [turn.2, count, List.map_append, List.sum_append]
      simp
    · simpa using mt turn.1.mpr notOk
  · rintro ⟨_, passed, all, found, count⟩
    rw [List.append_nil] at all
    refine ⟨fun _ => ⟨fun c hasChip => ?_, ?_⟩, fun notOk => absurd rfl notOk⟩
    · exact found c (by rw [all]; exact G.mem_chipsByBus.mpr hasChip)
    · rw [count, all, Fb.fgcLoad]

end Choosing

/-! ### The copies are placed -/

section Placing

variable {G : Geometry} {fb read : Fb} {c : ChipId}

/-- Foreground GC that was triggered when no chip had a page left has opened the GC blocks, has
chosen the victims and has read them. -/
structure FgcReadDone (G : Geometry) (fb read : Fb) : Prop where
  inv : Inv G .rest read
  life : Life G read
  copies : CopiesMatch G read
  progress : SameProgress fb read
  nrPgsToCopy : read.gcm.nrPgsToCopy = fb.fgcLoad G
  pagesLeft : ∀ c, G.HasChip c → read.pagesLeft G c = G.numPagesPerBlock
  reached : ∃ picked, VictimsSet G fb picked ∧ picked.getValidPgsInVicBlks G = (.ok, read)

theorem ScratchOnly.pagesLeft {other : Fb} (same : ScratchOnly fb other) (c : ChipId) :
    other.pagesLeft G c = fb.pagesLeft G c := by
  rw [same.rest]
  rfl

/-- Foreground GC that finds no page left on any chip gives up for want of a victim, or it comes
to the copying. -/
theorem Supplied.fgcRead (supplied : Supplied G fb) (inv : Inv G .rest fb) (life : Life G fb)
    (exhausted : Exhausted G fb) :
    ((∃ c, G.HasChip c ∧ fb.selectVicBlkGreedy c = none) ∧
        (fb.triggerGcPageMapping G).1 = .fail) ∨
      (∀ c, G.HasChip c → (fb.selectVicBlkGreedy c).isSome) ∧ ∃ read, FgcReadDone G fb read := by
  have begun : Supplied G fb.initGcm := supplied
  have beginLife := life.scratchOnly (.initGcm fb)
  have empty : Exhausted G fb.initGcm := exhausted
  rcases begun.gcBlksOpened inv.initGcm beginLife empty with ⟨preparedOk, opened⟩
  have preparedLife := beginLife.prepareActBlks inv.initGcm
  have zero := prepareActBlks_nrPgsToCopy (G := G) fb.initGcm
  have prepareProgress := SameProgress.prepareActBlks (G := G) fb.initGcm
  rcases preparing : fb.initGcm.prepareActBlks G with ⟨result, prepared⟩
  rw [preparing] at preparedOk opened preparedLife zero prepareProgress
  simp only at preparedOk opened preparedLife zero prepareProgress
  subst result
  have victims (c : ChipId) (hasChip : G.HasChip c) :
      prepared.selectVicBlkGreedy c = fb.selectVicBlkGreedy c ∧
        prepared.greedySize c = fb.greedySize c :=
    greedy_congr (congrFun opened.chips c) (opened.blocks c hasChip)
  have chosen := setVicBlks_of_noGc (fun c hasChip => (opened.opened c hasChip (by simp)).1) zero
  rcases picking : prepared.setVicBlks G with ⟨result, picked⟩
  rw [picking] at chosen
  simp only at chosen
  by_cases pickedOk : result = .ok
  · subst result
    right
    rcases chosen.1 rfl with ⟨found, load⟩
    have pickedVictims := setVicBlks_ok opened.inv zero (by rw [picking])
    have pickedInv := opened.inv.setVicBlks
    have scratch := ScratchOnly.setVicBlks (G := G) prepared
    rw [picking] at pickedVictims pickedInv scratch
    simp only at pickedVictims pickedInv scratch
    rcases getValidPgsInVicBlks_spec pickedInv pickedVictims.victimsUsed
      pickedVictims.nrPgsToCopy with ⟨readOk, swept⟩
    have readInv := pickedInv.getValidPgsInVicBlks
    have readScratch := scratch.trans (.getValidPgsInVicBlks (G := G) picked)
    rcases reading : picked.getValidPgsInVicBlks G with ⟨result, read⟩
    rw [reading] at readOk swept readInv readScratch
    simp only at readOk swept readInv readScratch
    subst result
    refine ⟨fun c hasChip => ?_, read, readInv, preparedLife.scratchOnly readScratch, ?_, ?_, ?_,
      fun c hasChip => ?_, picked, ⟨prepared, preparing, picking⟩, reading⟩
    · rw [← (victims c hasChip).1]
      exact found c hasChip
    · exact swept.copiesMatch fun pair mem => flashData_of_mem_victimContent pickedInv mem
    · exact (SameProgress.of_scratchOnly (.initGcm fb)).trans
        (prepareProgress.trans (.of_scratchOnly readScratch))
    · have sizes : G.chipsByBus.map prepared.greedySize = G.chipsByBus.map fb.greedySize :=
        List.map_congr_left fun c mem => (victims c (G.mem_chipsByBus.mp mem)).2
      rw [swept.nrPgsToCopy, length_victimContent pickedInv pickedVictims.victimsUsed,
        ← pickedVictims.nrPgsToCopy, load, Fb.fgcLoad, sizes, Fb.fgcLoad]
    · rw [readScratch.pagesLeft]
      exact opened.pagesLeft empty hasChip
  · left
    rcases chosen.2 pickedOk with ⟨c, hasChip, lacks⟩
    refine ⟨⟨c, hasChip, ?_⟩, ?_⟩
    · rw [← (victims c hasChip).1]
      exact lacks
    · have stops := setVicBlks_ne_hang (G := G) prepared
      rw [picking] at stops
      simp only [Fb.triggerGcPageMapping, preparing, andThen, picking]
      rcases result with _ | _ | _
      · exact absurd rfl pickedOk
      · rfl
      · exact absurd rfl stops

theorem FgcReadDone.trigger_eq (done : FgcReadDone G fb read) :
    fb.triggerGcPageMapping G =
      andThen (read.progValidPgsToGcBlks G) fun fb => fb.updateGcBlks G := by
  rcases done.reached with ⟨picked, ⟨prepared, preparing, picking⟩, reading⟩
  simp [Fb.triggerGcPageMapping, preparing, picking, reading, andThen]

theorem FgcReadDone.returns (done : FgcReadDone G fb read) :
    (fb.triggerGcPageMapping G).1 ≠ .hang := by
  rw [done.trigger_eq]
  exact andThen_rule (fun result : Ret × Fb => result.1 ≠ .hang)
    (fun _ => progValidPgsToGcBlks_ne_hang read) fun _ => updateGcBlks_ne_hang _

theorem updateGcBlks_pagesLeft (inv : Inv G .rest fb) (c : ChipId) :
    (fb.updateGcBlks G).2.pagesLeft G c = fb.pagesLeft G c := by
  suffices kept : Inv G .rest (fb.updateGcBlks G).2 ∧
      (fb.updateGcBlks G).2.pagesLeft G c = fb.pagesLeft G c from kept.2
  refine forEach_preserves
    (fun other : Fb => Inv G .rest other ∧ other.pagesLeft G c = fb.pagesLeft G c)
    (fun turn mem other kept => ?_) ⟨inv, rfl⟩
  have hasChip := G.mem_chipsByBus.mp mem
  rcases kept with ⟨otherInv, same⟩
  refine ⟨otherInv.updateGcBlk hasChip, ?_⟩
  rw [← same]
  unfold Fb.updateGcBlk Fb.getCurrGcBlock
  rcases other.gcm.gcBlks turn with _ | gcBlk
  · rcases head : other.getDirtBlock turn with _ | b
    · simp only
      split_ifs <;> rfl
    · rcases otherInv.hasBlock_of_mem hasChip .dirt (mem_of_head?_eq head) with ⟨rfl, _⟩
      have moves := (Moves.resetDirtBlk other b).trans (.setCurrGcBlock_some _ b)
      by_cases elsewhere : c = b.chip
      · subst c
        apply pagesLeft_congr
        · rfl
        · simp [Fb.setCurrGcBlock, Fb.updBlock, Fb.resetDirtBlk, Fb.record, Fb.updChip,
            SsdInfo.updBlock, SsdInfo.updChip, FlashChip.resetDirtBlk]
        · exact fun member _ => (moves.counters member).nrFreePages
      · exact moves.pagesLeft_of_ne elsewhere
  · rfl

/-- The pages programmed by the copying stay within the blocks that were opened exactly when the
VALID sub-pages of the victims do. -/
theorem FgcReadDone.copied (done : FgcReadDone G fb read)
    (fits : read.nrPgsToProg ≤ G.numChips * G.numPagesPerBlock) :
    (read.progValidPgsToGcBlks G).1 = .ok := by
  by_contra notOk
  rcases (progValidPgsToGcBlks_inTurn done.inv done.life done.copies).2 notOk with
    ⟨c, hasChip, few⟩
  have turns := count_chipsAfter_mono G read.getPrevBusChip c fits
  rw [count_chipsAfter_rounds done.inv.mruOk hasChip] at turns
  rw [done.pagesLeft c hasChip] at few
  omega

/-- After a collection each chip has the pages of one block left, less its turns in the copying. -/
theorem FgcReadDone.collected (done : FgcReadDone G fb read)
    (ok : (fb.triggerGcPageMapping G).1 = .ok) :
    (∀ c, G.HasChip c → (fb.triggerGcPageMapping G).2.pagesLeft G c +
      (G.chipsAfter fb.getPrevBusChip read.nrPgsToProg).count c = G.numPagesPerBlock) ∧
    (fb.triggerGcPageMapping G).2.programs =
      fb.programs ++ G.chipsAfter fb.getPrevBusChip read.nrPgsToProg ∧
    (fb.triggerGcPageMapping G).2.getNextBusChip G =
      G.nextChip^[read.nrPgsToProg + 1] fb.getPrevBusChip := by
  rw [done.trigger_eq] at ok ⊢
  have progOk : (read.progValidPgsToGcBlks G).1 = .ok := by
    by_contra notOk
    rw [andThen_of_not_ok notOk] at ok
    exact notOk ok
  rw [andThen_of_ok progOk]
  have copied := (progValidPgsToGcBlks_inTurn done.inv done.life done.copies).1 progOk
  have copiedInv := done.inv.progValidPgsToGcBlks
  have updated := SameProgress.updateGcBlks (G := G) (read.progValidPgsToGcBlks G).2
  have position := done.progress.position
  refine ⟨fun c hasChip => ?_, ?_, ?_⟩
  · rw [updateGcBlks_pagesLeft copiedInv, ← position, copied.pagesLeft c hasChip,
      done.pagesLeft c hasChip]
  · rw [updated.programs, copied.programs, done.progress.programs, position]
  · rw [Fb.getNextBusChip_eq, updated.position, ← Fb.getNextBusChip_eq, copied.getNextBusChip_eq,
      position]

/-- A collection keeps the chips level. -/
theorem FgcReadDone.level (done : FgcReadDone G fb read) (level : Level G fb)
    (exhausted : Exhausted G fb) (ok : (fb.triggerGcPageMapping G).1 = .ok) :
    Level G (fb.triggerGcPageMapping G).2 := by
  rcases level with ⟨given, level⟩
  rcases done.collected ok with ⟨pagesLeft, programs, _⟩
  refine ⟨given + G.numPagesPerBlock, fun c hasChip => ?_⟩
  have before := level c hasChip
  have after := pagesLeft c hasChip
  have none_ := exhausted c hasChip
  rw [programs, List.count_append]
  omega

/-- The next chip has a page left after the collection exactly when the copying did not fill all
the blocks that were opened. -/
theorem FgcReadDone.leaves_page_iff (done : FgcReadDone G fb read) (inv : Inv G .rest fb)
    (ok : (fb.triggerGcPageMapping G).1 = .ok) :
    0 < (fb.triggerGcPageMapping G).2.pagesLeft G
        ((fb.triggerGcPageMapping G).2.getNextBusChip G) ↔
      read.nrPgsToProg < G.numChips * G.numPagesPerBlock := by
  rcases done.collected ok with ⟨pagesLeft, _, next⟩
  have hasNext := G.hasChip_iterate inv.mruOk (read.nrPgsToProg + 1)
  have after := pagesLeft _ hasNext
  have rounds := count_chipsAfter_rounds inv.mruOk hasNext G.numPagesPerBlock
  rw [next]
  constructor
  · intro room
    by_contra filled
    have turns := count_chipsAfter_mono G fb.getPrevBusChip
      (G.nextChip^[read.nrPgsToProg + 1] fb.getPrevBusChip) (Nat.le_of_not_lt filled)
    omega
  · intro fits
    have turns := count_chipsAfter_mono G fb.getPrevBusChip
      (G.nextChip^[read.nrPgsToProg + 1] fb.getPrevBusChip) fits
    rw [Nat.succ_eq_add_one, chipsAfter_succ, List.count_append, List.count_singleton_self] at turns
    omega

end Placing

/-! ### Host writes -/

section Writes

variable {G : Geometry} {fb : Fb} {lpas : Slot → ℕ} {src : Slot → PageData}

/-- The host write programs the next page of the active block of the next chip. -/
def WritesPage (G : Geometry) (fb : Fb) (lpas : Slot → ℕ) (src : Slot → PageData)
    (result : Ret × Fb) : Prop :=
  ∃ blk, fb.abm.actBlks (fb.getNextBusChip G) = some ⟨fb.getNextBusChip G, blk⟩ ∧
    result = (.ok, fb.programPage G (fb.getNextBusChip G) blk
      (G.numPagesPerBlock - (fb.ssdi.blocks ⟨fb.getNextBusChip G, blk⟩).nrFreePages) lpas src)

theorem Level.writesPage (level : Level G fb) (inv : Inv G .rest fb) {result : Ret × Fb}
    (writes : WritesPage G fb lpas src result) (lpasOk : ∀ lp, LpaOk G (lpas lp)) :
    Level G result.2 := by
  rcases writes with ⟨blk, active, rfl⟩
  exact level.programPage inv (hasChip_getNextBusChip inv.mruOk) active rfl lpasOk src

/-- With a page left on the next chip a host write needs no garbage collection. -/
theorem Supplied.writesPage (supplied : Supplied G fb) (inv : Inv G .rest fb) (life : Life G fb)
    (room : 0 < fb.pagesLeft G (fb.getNextBusChip G)) (lpas : Slot → ℕ) (src : Slot → PageData) :
    WritesPage G fb lpas src (fb.makeWriteRequest G lpas src) := by
  have hasNext := hasChip_getNextBusChip inv.mruOk
  rcases life.allocNewPage_of_room inv hasNext room with ⟨blk, active, alloc⟩
  refine ⟨blk, active, ?_⟩
  rw [supplied.makeWriteRequest_eq inv]
  simp [Fb.allocAndProgram, alloc]

/-- Everything a host write can do: it programs a page at once, it programs one after a
collection, or it fails because the collection does not get far enough. -/
theorem Supplied.makeWriteRequest_cases (supplied : Supplied G fb) (inv : Inv G .rest fb)
    (life : Life G fb) (striped : Striped G fb) (level : Level G fb) (lpas : Slot → ℕ)
    (src : Slot → PageData) :
    (0 < fb.pagesLeft G (fb.getNextBusChip G) ∧
      WritesPage G fb lpas src (fb.makeWriteRequest G lpas src)) ∨
    (Exhausted G fb ∧ CanCollect G fb ∧ (fb.triggerGcPageMapping G).1 = .ok ∧
      Level G (fb.triggerGcPageMapping G).2 ∧
      WritesPage G (fb.triggerGcPageMapping G).2 lpas src (fb.makeWriteRequest G lpas src)) ∨
    (Exhausted G fb ∧ ¬CanCollect G fb ∧ (fb.makeWriteRequest G lpas src).1 = .fail) := by
  have hasNext := hasChip_getNextBusChip inv.mruOk
  rcases Nat.eq_zero_or_pos (fb.pagesLeft G (fb.getNextBusChip G)) with empty | room
  swap
  · exact Or.inl ⟨room, supplied.writesPage inv life room lpas src⟩
  right
  have exhausted := level.exhausted striped inv empty
  have result : fb.makeWriteRequest G lpas src =
      andThen (fb.triggerGcPageMapping G) fun fb => fb.allocOrFail G lpas src := by
    rw [supplied.makeWriteRequest_eq inv]
    simp [Fb.allocAndProgram, life.allocNewPage_of_empty inv hasNext empty]
  rcases supplied.fgcRead inv life exhausted with ⟨⟨c, hasChip, lacks⟩, failed⟩ | ⟨found, read, done⟩
  · right
    refine ⟨exhausted, fun collects => ?_, ?_⟩
    · have some_ := collects.victim c hasChip
      rw [lacks] at some_
      simp at some_
    · rw [result, andThen_of_not_ok (by simp [failed]), failed]
  have load := done.nrPgsToCopy
  have pages_eq : (read.gcm.nrPgsToCopy + (nrLpInPp - 1)) / nrLpInPp = read.nrPgsToProg := rfl
  simp only [nrLpInPp] at pages_eq
  have nextInv := inv.triggerGcPageMapping
  have nextLife := life.triggerGcPageMapping inv
  by_cases fits : read.nrPgsToProg < G.numChips * G.numPagesPerBlock
  · left
    have ok : (fb.triggerGcPageMapping G).1 = .ok := by
      have progOk := done.copied fits.le
      rcases copying : read.progValidPgsToGcBlks G with ⟨_, copied⟩
      rw [copying] at progOk
      simp only at progOk
      subst progOk
      rcases done.reached with ⟨picked, victimsSet, reading⟩
      have copyDone : CopyDone G fb copied := ⟨picked, read, victimsSet, reading, copying⟩
      rw [done.trigger_eq, copying, andThen]
      exact ((life.spare inv copyDone).updateGcBlks (copyDone.inv inv)).1
    have room := (done.leaves_page_iff inv ok).mpr fits
    refine ⟨exhausted, ⟨found, ?_⟩, ok, done.level level exhausted ok, ?_⟩
    · simp only [nrLpInPp]
      omega
    · rcases nextLife.allocNewPage_of_room nextInv (hasChip_getNextBusChip nextInv.mruOk) room with
        ⟨blk, active, alloc⟩
      refine ⟨blk, active, ?_⟩
      rw [result, andThen_of_ok ok]
      simp [Fb.allocOrFail, alloc]
  · right
    refine ⟨exhausted, fun collects => ?_, ?_⟩
    · have room := collects.room
      simp only [nrLpInPp] at room
      omega
    · rw [result]
      by_cases ok : (fb.triggerGcPageMapping G).1 = .ok
      · rw [andThen_of_ok ok]
        have noneLeft := mt (done.leaves_page_iff inv ok).mp fits
        have alloc := nextLife.allocNewPage_of_empty nextInv
          (hasChip_getNextBusChip nextInv.mruOk) (Nat.eq_zero_of_not_pos noneLeft)
        simp [Fb.allocOrFail, alloc]
      · rw [andThen_of_not_ok ok]
        rcases returned : (fb.triggerGcPageMapping G).1 with _ | _ | _
        · exact absurd returned ok
        · rfl
        · exact absurd returned done.returns

theorem Level.makeWriteRequest (level : Level G fb) (supplied : Supplied G fb)
    (inv : Inv G .rest fb) (life : Life G fb) (striped : Striped G fb)
    (lpasOk : ∀ lp, LpaOk G (lpas lp)) (ok : (fb.makeWriteRequest G lpas src).1 = .ok) :
    Level G (fb.makeWriteRequest G lpas src).2 := by
  rcases supplied.makeWriteRequest_cases inv life striped level lpas src with
    ⟨_, writes⟩ | ⟨_, _, _, collected, writes⟩ | ⟨_, _, failed⟩
  · exact level.writesPage inv writes lpasOk
  · exact collected.writesPage inv.triggerGcPageMapping writes lpasOk
  · simp [failed] at ok

end Writes

section Runs

variable {G : Geometry} {garbage : Garbage} {fb : Fb}

/-- Host writes and invalidations that return 0. -/
def HostOk (G : Geometry) (fb : Fb) (command : Command) : Prop :=
  command ≠ .foregroundGc ∧ command ≠ .backgroundGc ∧ Succeeds G fb command

instance (G : Geometry) (fb : Fb) (command : Command) : Decidable (HostOk G fb command) :=
  match command with
  | .write lpas src => decidable_of_iff (Succeeds G fb (.write lpas src)) (by simp [HostOk])
  | .invalidate lpas => decidable_of_iff (Succeeds G fb (.invalidate lpas)) (by simp [HostOk])
  | .foregroundGc => .isFalse (by simp [HostOk])
  | .backgroundGc => .isFalse (by simp [HostOk])

theorem Run.supplied_of_hostOk (run : Run G garbage (HostOk G) fb) : Supplied G fb :=
  (run.mono fun _ _ hostOk => ⟨hostOk.2.1, hostOk.2.2⟩).supplied

theorem Run.life_of_hostOk (run : Run G garbage (HostOk G) fb) : Life G fb :=
  (run.mono fun _ _ hostOk => hostOk.2.1).life

theorem Run.striped_of_hostOk (run : Run G garbage (HostOk G) fb) : Striped G fb :=
  (run.mono fun _ _ hostOk => hostOk.2.2).striped

/-- Host writes keep the chips level. -/
theorem Run.level (run : Run G garbage (HostOk G) fb) : Level G fb := by
  induction run with
  | create created => exact .of_created created
  | exec run command inRange isAllowed ih =>
      cases command with
      | write lpas src =>
          exact ih.makeWriteRequest run.supplied_of_hostOk run.reachable.inv run.life_of_hostOk
            run.striped_of_hostOk (fun lp => Or.inr (inRange lp)) isAllowed.2.2
      | invalidate lpas => exact ih.delInvalidatePgs lpas
      | foregroundGc => exact absurd rfl isAllowed.1
      | backgroundGc => exact absurd rfl isAllowed.2.1

/-- In every run of host writes and invalidations that have succeeded so far, the next host write
fails exactly when no chip has a page left and the collection it triggers finds no victim on
some chip or leaves no page; in every other state it succeeds. -/
theorem writeFails_iff_of_run (run : Run G garbage (HostOk G) fb) (lpas : Slot → ℕ)
    (src : Slot → PageData) :
    ((fb.makeWriteRequest G lpas src).1 = .fail ↔ Exhausted G fb ∧ ¬CanCollect G fb) ∧
    ((fb.makeWriteRequest G lpas src).1 = .ok ↔ (Exhausted G fb → CanCollect G fb)) := by
  have inv := run.reachable.inv
  have hasNext := hasChip_getNextBusChip inv.mruOk
  rcases run.supplied_of_hostOk.makeWriteRequest_cases inv run.life_of_hostOk
    run.striped_of_hostOk run.level lpas src with
    ⟨room, _, _, writes⟩ | ⟨_, collects, _, _, _, _, writes⟩ | ⟨exhausted, stuck, failed⟩
  · have notExhausted : ¬Exhausted G fb := by
      intro exhausted
      have empty := exhausted _ hasNext
      omega
    simp [writes, notExhausted]
  · simp [writes, collects]
  · simp [failed, exhausted, stuck]

theorem filledFb_run : Run .threeBlocks .zeroed (HostOk .threeBlocks) filledFb := by
  unfold filledFb
  apply (Run.create threeBlocksFb_created).execAll
  decide +kernel

theorem collectedFb_run : Run .threeBlocks .zeroed (HostOk .threeBlocks) collectedFb := by
  unfold collectedFb
  apply (Run.create threeBlocksFb_created).execAll
  decide +kernel

/-- The write that collects the first blocks, and the next one, which fails: the victims would
leave no page. -/
theorem writeFails_iff_collectedFb :
    (Exhausted .threeBlocks filledFb ∧ CanCollect .threeBlocks filledFb) ∧
    Exhausted .threeBlocks collectedFb ∧ ¬CanCollect .threeBlocks collectedFb := by
  have exhausted : Exhausted .threeBlocks filledFb := by decide +kernel
  have writes : (filledFb.makeWriteRequest .threeBlocks ![0, 1, 12, 13]
      fun _ => filledPage 2).1 = .ok := by decide +kernel
  have fails : (collectedFb.makeWriteRequest .threeBlocks ![0, 1, 2, 3]
      fun _ => filledPage 3).1 = .fail := by decide +kernel
  exact ⟨⟨exhausted, (writeFails_iff_of_run filledFb_run _ _).2.mp writes exhausted⟩,
    (writeFails_iff_of_run collectedFb_run _ _).1.mp fails⟩

end Runs

end FlashBench
