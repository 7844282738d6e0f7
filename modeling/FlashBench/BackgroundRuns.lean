import FlashBench.BackgroundGc
import FlashBench.Supply

/-!
# When background garbage collection succeeds

Background GC has four ways to fail: a chip without a GC block when it is about to
recycle them, a chip short of blocks without a used block to collect, a chip without
a page left when its turn to be programmed comes, and a chip without any GC, dirt or
active block at the end. `BgcReady` says of a state that none of them lies ahead.
-/

namespace FlashBench

open PgStatus

/-- The VALID sub-pages of the page that background GC would read on the chip. -/
def Fb.targetSize (G : Geometry) (fb : Fb) (c : ChipId) : ℕ :=
  match fb.bgcTarget G c with
  | none => 0
  | some (b, pg) => (fb.ssdi.pages b pg).validSlots.length

/-- The sub-pages that background GC would copy. -/
def Fb.bgcLoad (G : Geometry) (fb : Fb) : ℕ := (G.chipsByBus.map (fb.targetSize G)).sum

/-- The chips on which background GC would program a page, in turn. -/
def Fb.bgcTurns (G : Geometry) (fb : Fb) : List ChipId :=
  G.chipsAfter fb.getPrevBusChip ((fb.bgcLoad G + (nrLpInPp - 1)) / nrLpInPp)

/-- The page that background GC would read on the chip is the last one of its block that is
not dead. -/
def Fb.EmptiesVictim (G : Geometry) (fb : Fb) (c : ChipId) : Prop :=
  ∃ b pg, fb.bgcTarget G c = some (b, pg) ∧
    ∀ other < G.numPagesPerBlock, other ≠ pg → (fb.ssdi.pages b other).Dead

/-- Background GC can copy: it finds its victims, it reads programmed pages, every chip has a page
left for each of its turns, and every chip ends up with a GC, a dirt or an active block. -/
structure BgcCanCopy (G : Geometry) (fb : Fb) : Prop where
  victim : ∀ c, G.HasChip c → fb.NeedsVictim c → (fb.bgcTarget G c).isSome
  programmed : ∀ c, G.HasChip c → ∀ b pg, fb.bgcTarget G c = some (b, pg) →
    Collectable G fb c b pg
  room : ∀ c, G.HasChip c → (fb.bgcTurns G).count c ≤ fb.pagesLeft G c
  refill : fb.bgcLoad G ≠ 0 → ∀ c, G.HasChip c →
    (fb.gcm.gcBlks c).isSome ∨ (fb.ssdi.chips c).dirtBlks ≠ [] ∨
      (fb.bgcTurns G).count c < fb.pagesLeft G c ∨ fb.EmptiesVictim G c

/-- No exit of `trigger_bg_gc` with an error lies ahead. -/
structure BgcReady (G : Geometry) (fb : Fb) : Prop where
  opens : (fb.getCurrActiveBlock fb.getPrevBusChip).isNone →
    ∀ c, G.HasChip c → (fb.gcm.gcBlks c).isSome
  copies : (fb.getCurrActiveBlock fb.getPrevBusChip).isSome → BgcCanCopy G fb

/-! ### No page is lost -/

section LostPages

variable {G : Geometry} {fb : Fb} {b : BlockId}

theorem Life.recycleGcBlk (life : Life G fb) (inv : Inv G .rest fb) (hasChip : G.HasChip b.chip)
    (reserved : fb.gcm.gcBlks b.chip = some b) : Life G (fb.recycleGcBlk G b) := by
  unfold Fb.recycleGcBlk
  simp only
  split_ifs with idle
  · apply life.erase inv hasChip reserved ((Moves.setCurrActiveBlock_some _ b).trans
      (.setCurrGcBlock_none _ b.chip)) rfl
    intro nowIdle
    simp [Fb.setCurrGcBlock, Fb.setCurrActiveBlock, Fb.updBlock] at nowIdle
  · apply life.erase inv hasChip reserved ((Moves.setFreeBlk _ b).trans
      (.setCurrGcBlock_none _ b.chip))
    · simp [Fb.setCurrGcBlock, Fb.setFreeBlk, Fb.updChip, SsdInfo.updChip, FlashChip.setFreeBlk,
        Fb.eraseBlk, Fb.updBlock, SsdInfo.updBlock, Fb.initBlkInf, SsdInfo.initBlkInf,
        Fb.vdeviceErase, Fb.record]
    · intro nowIdle
      exact absurd (Option.isNone_iff_eq_none.mpr nowIdle) idle

theorem Life.bgcPrepareActBlks (life : Life G fb) (inv : Inv G .rest fb) :
    Life G (fb.bgcPrepareActBlks G).2 := by
  suffices kept : Inv G .rest (fb.bgcPrepareActBlks G).2 ∧ Life G (fb.bgcPrepareActBlks G).2 from
    kept.2
  refine forEach_preserves (fun other : Fb => Inv G .rest other ∧ Life G other)
    (fun _ _ other kept => ?_) ⟨inv, life⟩
  rcases kept with ⟨otherInv, otherLife⟩
  refine ⟨otherInv.bgcPrepareActBlk, ?_⟩
  have hasChip := hasChip_getNextBusChip otherInv.mruOk
  unfold Fb.bgcPrepareActBlk
  generalize other.getNextBusChip G = c at hasChip
  rcases reserved : other.gcm.gcBlks c with _ | b
  · simpa [Fb.bgcPrepareActBlkOf, Fb.getCurrGcBlock, reserved] using otherLife
  rcases otherInv.of_gc hasChip reserved with ⟨rfl, _⟩
  rw [bgcPrepareActBlkOf_eq reserved]
  have recycled := otherLife.recycleGcBlk otherInv hasChip reserved
  exact (recycled.updateGcBlk (otherInv.recycleGcBlk hasChip reserved) hasChip).congr rfl rfl

theorem BgcReadDone.life {picked read : Fb} (done : BgcReadDone G fb picked read)
    (life : Life G fb) : Life G read := life.sameFlash done.sameFlash done.actBlks

/-- `trigger_bg_gc` loses no page, whether it succeeds or fails. -/
theorem Life.triggerBgGc (life : Life G fb) (inv : Inv G .rest fb)
    (programmed : TargetsProgrammed G fb) : Life G (fb.triggerBgGc G).2 := by
  unfold Fb.triggerBgGc
  split_ifs with idle
  · exact life.bgcPrepareActBlks inv
  have active : (fb.getCurrActiveBlock fb.getPrevBusChip).isSome := by
    rw [Option.isSome_iff_ne_none]
    simpa using idle
  rcases programmed.bgcRead inv active with ⟨_, scratch, _⟩ | ⟨picked, read, done⟩
  · exact life.scratchOnly scratch
  · have readLife := done.life life
    have copied := readLife.progValidPgsToGcBlks done.readInv done.copiesMatch
    rw [done.bgcCopy_eq]
    split_ifs
    · exact readLife
    · exact andThen_rule (fun result : Ret × Fb => Life G result.2) (fun _ => copied)
        fun _ => copied.updateGcBlks done.readInv.progValidPgsToGcBlks

end LostPages

/-! ### The exits -/

section Exits

variable {G : Geometry} {fb picked read : Fb} {c : ChipId}

theorem bgcPrepareActBlkOf_gcBlks (fb : Fb) {other : ChipId} (different : other ≠ c) :
    (fb.bgcPrepareActBlkOf G c).2.gcm.gcBlks other = fb.gcm.gcBlks other := by
  unfold Fb.bgcPrepareActBlkOf
  rcases fb.getCurrGcBlock c with _ | b
  · rfl
  · simp only
    split_ifs
    · split
      · exact Function.update_of_ne different _ _
      · exact Function.update_of_ne different _ _
    · split
      · exact Function.update_of_ne different _ _
      · exact Function.update_of_ne different _ _

/-- With a GC block on every chip `fb_bgc_prepare_act_blks` succeeds. -/
theorem Supplied.bgcPrepareActBlks (supplied : Supplied G fb) (inv : Inv G .rest fb) :
    (fb.bgcPrepareActBlks G).1 = .ok := by
  rw [bgcPrepareActBlks_eq]
  refine (forEach_succeeds (fun rest other => rest.Nodup ∧ ∀ c ∈ rest, (other.gcm.gcBlks c).isSome)
    (fun c rest other => ?_) ⟨G.nodup_chipsAfter inv.mruOk le_rfl, fun c mem => ?_⟩).1
  · rintro ⟨nodup, reserved⟩
    rw [List.nodup_cons] at nodup
    rcases Option.isSome_iff_exists.mp (reserved c (by simp)) with ⟨b, isGc⟩
    refine ⟨by simp [Fb.bgcPrepareActBlkOf, Fb.getCurrGcBlock, isGc], nodup.2, fun other' mem => ?_⟩
    have different : other' ≠ c := by
      rintro rfl
      exact nodup.1 mem
    rw [bgcPrepareActBlkOf_gcBlks other different]
    exact reserved other' (by simp [mem])
  · exact supplied c (G.hasChip_of_mem_chipsAfter inv.mruOk mem)

/-- `update_gc_blks` succeeds when every chip has a GC, a dirt or an active block. -/
theorem updateGcBlks_ok (inv : Inv G .rest fb)
    (usable : ∀ c, G.HasChip c → (fb.gcm.gcBlks c).isSome ∨ (fb.ssdi.chips c).dirtBlks ≠ [] ∨
      (fb.abm.actBlks c).isSome) : (fb.updateGcBlks G).1 = .ok := by
  refine (forEach_succeeds (fun rest other => rest.Nodup ∧ Inv G .rest other ∧
    ∀ c ∈ rest, G.HasChip c ∧ ((other.gcm.gcBlks c).isSome ∨
      (other.ssdi.chips c).dirtBlks ≠ [] ∨ (other.abm.actBlks c).isSome))
    (fun c rest other => ?_) ⟨G.nodup_chipsByBus, inv, fun c mem => ?_⟩).1
  · rintro ⟨nodup, otherInv, left⟩
    rw [List.nodup_cons] at nodup
    rcases left c (by simp) with ⟨hasChip, now⟩
    have others (c' : ChipId) (mem : c' ∈ rest) := left c' (by simp [mem])
    unfold Fb.updateGcBlk Fb.getCurrGcBlock Fb.getCurrActiveBlock
    rcases reserved : other.gcm.gcBlks c with _ | gcBlk
    · rcases head : other.getDirtBlock c with _ | b
      · have noDirt : (other.ssdi.chips c).dirtBlks = [] := List.head?_eq_none_iff.mp head
        have active : (other.abm.actBlks c).isSome := by simpa [reserved, noDirt] using now
        have notIdle : ¬(other.abm.actBlks c).isNone = true := by
          simp [Option.isSome_iff_ne_none.mp active]
        simp only
        rw [if_neg notIdle]
        exact ⟨rfl, nodup.2, otherInv, others⟩
      · rcases otherInv.hasBlock_of_mem hasChip .dirt (mem_of_head?_eq head) with ⟨rfl, _⟩
        have moves := (Moves.resetDirtBlk other b).trans (.setCurrGcBlock_some _ b)
        refine ⟨rfl, nodup.2, otherInv.dirtToGc hasChip reserved head, fun c' mem => ?_⟩
        have different : c' ≠ b.chip := by
          rintro rfl
          exact nodup.1 mem
        rcases moves.otherChips c' different with ⟨chips, actBlks, gcBlks⟩
        simp only
        rw [chips, actBlks, gcBlks]
        exact others c' mem
    · exact ⟨rfl, nodup.2, otherInv, others⟩
  · exact ⟨G.mem_chipsByBus.mp mem, usable c (G.mem_chipsByBus.mp mem)⟩

/-- The pairs that were read are the VALID sub-pages of the targets. -/
theorem BgcReadDone.pickedContent_eq (done : BgcReadDone G fb picked read) (hasChip : G.HasChip c) :
    picked.pickedContent c =
      match fb.bgcTarget G c with
      | none => []
      | some (b, pg) => fb.pageContent b pg := by
  have target : fb.initGcm.bgcTarget G c = fb.bgcTarget G c := bgcTarget_congr rfl rfl rfl
  have ssdi : picked.ssdi = fb.ssdi := done.chosen.scratchOnly.ssdi
  have vdev : picked.vdev = fb.vdev := done.chosen.scratchOnly.vdev
  unfold Fb.pickedContent
  rw [done.chosen.picked c hasChip (by simp), target]
  rcases fb.bgcTarget G c with _ | ⟨b, pg⟩
  · rfl
  · simp only [Fb.pageContent, ssdi, vdev]

theorem BgcReadDone.picked_position (done : BgcReadDone G fb picked read) :
    picked.getPrevBusChip = fb.getPrevBusChip := by
  rw [Fb.getPrevBusChip, done.chosen.scratchOnly.abm]
  rfl

theorem BgcReadDone.nrPgsToCopy (done : BgcReadDone G fb picked read) (inv : Inv G .rest fb) :
    read.gcm.nrPgsToCopy = fb.bgcLoad G := by
  have size (c : ChipId) (mem : c ∈ G.chipsByBus) :
      (picked.pickedContent c).length = fb.targetSize G c := by
    rw [done.pickedContent_eq (G.mem_chipsByBus.mp mem)]
    unfold Fb.targetSize
    rcases fb.bgcTarget G c with _ | ⟨b, pg⟩
    · rfl
    · simp [Fb.pageContent]
  rw [done.copiesRead.nrPgsToCopy, Fb.bgcContent, List.length_flatMap, done.picked_position,
    ((G.chipsAfter_perm inv.mruOk).map _).sum_eq, Fb.bgcLoad]
  congr 1
  exact List.map_congr_left size

/-- Copying the last page that is not dead makes its block a GC block or a dirt block. -/
theorem BgcReadDone.emptied (done : BgcReadDone G fb picked read) (inv : Inv G .rest fb)
    (ready : BgcCanCopy G fb) (hasChip : G.HasChip c) (empties : fb.EmptiesVictim G c) {other : Fb}
    (copied : CopiedUpTo G read other read.nrPgsToProg) :
    (other.gcm.gcBlks c).isSome ∨ (other.ssdi.chips c).dirtBlks ≠ [] := by
  rcases empties with ⟨b, pg, target, othersDead⟩
  rcases ready.programmed c hasChip b pg target with ⟨rfl, hasBlock, pg_lt, full⟩
  have ssdi := done.sameFlash.ssdi
  have reclaimed := copied.reclaimed (by simp only [Fb.nrPgsToProg, nrLpInPp]; omega) hasBlock
    (fun other other_lt lp => by
      rw [ssdi]
      by_cases same : other = pg
      · rw [same]
        exact full lp
      · simp [othersDead other other_lt same lp])
    (fun other other_lt lp isValid => by
      rw [ssdi] at isValid ⊢
      have same : other = pg := by
        by_contra different
        simp [othersDead other other_lt different lp] at isValid
      subst other
      have inPage : ((fb.ssdi.pages b pg).noLogicalPageAddr lp, fb.vdev b pg lp) ∈
          fb.pageContent b pg := by
        simp only [Fb.pageContent, List.mem_map]
        exact ⟨lp, by simp [FlashPage.validSlots, isValid], rfl⟩
      have inContent : ((fb.ssdi.pages b pg).noLogicalPageAddr lp, fb.vdev b pg lp) ∈
          picked.bgcContent G := by
        simp only [Fb.bgcContent, List.mem_flatMap]
        refine ⟨b.chip, ?_, ?_⟩
        · rw [done.picked_position]
          exact (G.mem_chipsAfter inv.mruOk).mpr hasChip
        · rw [done.pickedContent_eq hasChip, target]
          exact inPage
      exact done.copiesRead.exists_of_mem inContent)
  rcases reclaimed with isGc | isDirt
  · exact Or.inl (by simp [isGc])
  · exact Or.inr (List.ne_nil_of_mem isDirt)

theorem BgcCanCopy.bgcCopy_ok (ready : BgcCanCopy G fb) (life : Life G fb) (inv : Inv G .rest fb)
    (active : (fb.getCurrActiveBlock fb.getPrevBusChip).isSome) : (fb.bgcCopy G).1 = .ok := by
  have programmed : TargetsProgrammed G fb := fun _ => Or.inr ready.programmed
  rcases programmed.bgcRead inv active with ⟨_, _, c, hasChip, needs, lacks⟩ | ⟨picked, read, done⟩
  · have some_ := ready.victim c hasChip needs
    rw [lacks] at some_
    simp at some_
  have load := done.nrPgsToCopy inv
  have readLife := done.life life
  have pagesLeft (c : ChipId) : read.pagesLeft G c = fb.pagesLeft G c := by
    have ssdi := done.sameFlash.ssdi
    apply pagesLeft_congr
    · rw [done.actBlks]
    · rw [ssdi]
    · intro b _
      rw [ssdi]
  have turns : G.chipsAfter read.getPrevBusChip read.nrPgsToProg = fb.bgcTurns G := by
    rw [Fb.nrPgsToProg, load, done.position, Fb.bgcTurns]
  have copying := progValidPgsToGcBlks_inTurn done.readInv readLife done.copiesMatch
  rw [done.bgcCopy_eq]
  split_ifs with nothing
  · rfl
  have progOk : (read.progValidPgsToGcBlks G).1 = .ok := by
    by_contra notOk
    rcases copying.2 notOk with ⟨c, hasChip, few⟩
    have room := ready.room c hasChip
    rw [turns, pagesLeft] at few
    omega
  rw [andThen_of_ok progOk]
  have copied := copying.1 progOk
  have copiedInv := done.readInv.progValidPgsToGcBlks
  apply updateGcBlks_ok copiedInv
  intro c hasChip
  have spare := copied.upTo.spare
  rcases ready.refill (by rw [← load]; exact nothing) c hasChip with
    reserved | dirty | left | empties
  · exact Or.inl (spare.gcBlks c (by rw [done.gcBlks]; exact reserved))
  · exact Or.inr (Or.inl (spare.dirtBlks c (by rw [done.sameFlash.ssdi]; exact dirty)))
  · right
    right
    have before := copied.pagesLeft c hasChip
    rw [turns, pagesLeft] at before
    exact (copied.upTo.life.pagesLeft_pos_iff copiedInv hasChip).mp (by omega)
  · rcases done.emptied inv ready hasChip empties copied.upTo with reserved | dirty
    · exact Or.inl reserved
    · exact Or.inr (Or.inl dirty)

/-- In a state in which no page is lost, background GC returns 0 when it is ready. -/
theorem BgcReady.triggerBgGc_ok (ready : BgcReady G fb) (life : Life G fb) (inv : Inv G .rest fb) :
    (fb.triggerBgGc G).1 = .ok := by
  unfold Fb.triggerBgGc
  split_ifs with idle
  · have supplied : Supplied G fb := ready.opens idle
    exact supplied.bgcPrepareActBlks inv
  · have active : (fb.getCurrActiveBlock fb.getPrevBusChip).isSome := by
      rw [Option.isSome_iff_ne_none]
      simpa using idle
    exact (ready.copies active).bgcCopy_ok life inv active

end Exits

/-! ### Runs -/

section Runs

variable {G : Geometry} {garbage : Garbage} {fb : Fb}

/-- Background GC is only started when it would not read a FREE page. -/
def BgcAligned (G : Geometry) (fb : Fb) (command : Command) : Prop :=
  command = .backgroundGc → TargetsProgrammed G fb

theorem Run.life_of_bgcAligned (run : Run G garbage (BgcAligned G) fb) : Life G fb := by
  induction run with
  | create created => exact .of_created (Created.of_create created)
  | exec run command inRange isAllowed ih =>
      have inv := run.reachable.inv
      cases command with
      | write lpas src => exact ih.makeWriteRequest inv inRange
      | invalidate lpas => exact ih.delInvalidatePgs inv inRange
      | foregroundGc => exact ih.triggerGcPageMapping inv
      | backgroundGc => exact ih.triggerBgGc inv (isAllowed rfl)

/-- In every run whose background GCs read programmed pages, background GC returns 0 when it
is ready. -/
theorem bgcSucceeds_of_run (run : Run G garbage (BgcAligned G) fb) (ready : BgcReady G fb) :
    (fb.triggerBgGc G).1 = .ok :=
  ready.triggerBgGc_ok run.life_of_bgcAligned run.reachable.inv

/-- Block 0 holds three VALID sub-pages, and one page is left for them. -/
theorem bgcReady_overwriteFirst :
    BgcReady .fourBlocks (Command.execAll .fourBlocks fourBlocksFb overwriteFirst) := by
  have one {c : ChipId} (hasChip : Geometry.fourBlocks.HasChip c) : c = ⟨0, 0⟩ := by
    rcases c with ⟨bus, chip⟩
    rcases hasChip with ⟨bus_lt, chip_lt⟩
    obtain rfl : bus = 0 := Nat.lt_one_iff.mp bus_lt
    obtain rfl : chip = 0 := Nat.lt_one_iff.mp chip_lt
    rfl
  have target : (Command.execAll .fourBlocks fourBlocksFb overwriteFirst).bgcTarget .fourBlocks
      ⟨0, 0⟩ = some (⟨⟨0, 0⟩, 0⟩, 0) := by decide +kernel
  have full : ∀ lp, ((Command.execAll .fourBlocks fourBlocksFb overwriteFirst).ssdi.pages
      ⟨⟨0, 0⟩, 0⟩ 0).pageStatus lp ≠ free := by decide +kernel
  have reserved : ((Command.execAll .fourBlocks fourBlocksFb overwriteFirst).gcm.gcBlks
      ⟨0, 0⟩).isSome := by decide +kernel
  have room : ((Command.execAll .fourBlocks fourBlocksFb overwriteFirst).bgcTurns
      .fourBlocks).count ⟨0, 0⟩ ≤ (Command.execAll .fourBlocks fourBlocksFb
        overwriteFirst).pagesLeft .fourBlocks ⟨0, 0⟩ := by decide +kernel
  refine ⟨fun _ c hasChip => ?_, fun _ => ⟨fun c hasChip _ => ?_, fun c hasChip b pg picked => ?_,
    fun c hasChip => ?_, fun _ c hasChip => ?_⟩⟩
  · rw [one hasChip]
    exact reserved
  · rw [one hasChip, target]
    rfl
  · rw [one hasChip, target, Option.some.injEq, Prod.mk.injEq] at picked
    rcases picked with ⟨rfl, rfl⟩
    rw [one hasChip]
    exact ⟨rfl, by decide, by decide, full⟩
  · rw [one hasChip]
    exact room
  · rw [one hasChip]
    exact Or.inl reserved

theorem bgcSucceeds_overwriteFirst :
    ((Command.execAll .fourBlocks fourBlocksFb overwriteFirst).triggerBgGc .fourBlocks).1 = .ok := by
  have run : Run .fourBlocks .zeroed (BgcAligned .fourBlocks)
      (Command.execAll .fourBlocks fourBlocksFb overwriteFirst) := by
    refine (((Run.create fourBlocksFb_created).exec (.write ![0, 1, 2, 3] fun _ => filledPage 0)
      ?_ ?_).exec (.invalidate [0]) ?_ ?_).exec (.write ![0, 4, 5, 6] fun _ => filledPage 1) ?_ ?_
    · decide
    · simp [BgcAligned]
    · decide
    · simp [BgcAligned]
    · decide
    · simp [BgcAligned]
  exact bgcSucceeds_of_run run bgcReady_overwriteFirst

end Runs

end FlashBench
