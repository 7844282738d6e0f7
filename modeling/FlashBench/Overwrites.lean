import FlashBench.BackgroundRuns
import FlashBench.WriteSupply

/-!
# Chips on which nothing is overwritten

New data goes to the chips in turn, wherever the old copy was. So the host can choose
what it overwrites in such a way that a chip never gets an INVALID sub-page. Such a
chip has no victim for any garbage collection.
-/

namespace FlashBench

open PgStatus

/-- The LPA has no copy on the chip. -/
def OffChip (fb : Fb) (c : ChipId) (lpa : ℕ) : Prop :=
  fb.mappings lpa = pageUnmapped ∨ (locate (fb.mappings lpa)).block.chip ≠ c

/-- No sub-page of the chip is INVALID. -/
def Unspoiled (fb : Fb) (c : ChipId) : Prop :=
  ∀ b : BlockId, b.chip = c → (fb.ssdi.blocks b).nrInvalidLogPages = 0

/-- Host writes and invalidations of LPAs below the advertised capacity. -/
def Command.BelowCapacity (G : Geometry) : Command → Prop
  | write lpas _ => ∀ lp, lpas lp < G.capacityInPages
  | invalidate lpas => ∀ lpa ∈ lpas, lpa < G.capacityInPages
  | foregroundGc => False
  | backgroundGc => False

/-- The command writes four LPAs without a copy on the chip while there is a page left. -/
def SparesChip (G : Geometry) (c : ChipId) (fb : Fb) (command : Command) : Prop :=
  ∃ lpas src, command = .write lpas src ∧ Function.Injective lpas ∧
    (∀ lp, lpas lp < G.capacityInPages) ∧ (∀ lp, OffChip fb c (lpas lp)) ∧
    0 < fb.pagesLeft G (fb.getNextBusChip G)

theorem SparesChip.belowCapacity {G : Geometry} {c : ChipId} {fb : Fb} {command : Command}
    (spares : SparesChip G c fb command) : command.BelowCapacity G := by
  rcases spares with ⟨lpas, src, rfl, _, below, _⟩
  exact below

section Frame

variable {G : Geometry} {garbage : Garbage} {fb other : Fb} {b : BlockId} {c : ChipId}
  {lpa blk pg : ℕ} {lpas : Slot → ℕ} {src : Slot → PageData} {lp : Slot}

theorem OffChip.congr (offChip : OffChip fb c lpa)
    (mapping : other.mappings lpa = fb.mappings lpa) : OffChip other c lpa := by
  unfold OffChip
  rwa [mapping]

/-- After some sub-pages of a page were mapped, each LPA is mapped to one of them, or as before. -/
theorem foldl_mapLpa_mappings (slots : List Slot) (fb : Fb) (b : BlockId) (pg : ℕ)
    (mapped : ∀ lp, lpas lp ≠ pageUnmapped) (lpa : ℕ) :
    (∃ lp ∈ slots, lpas lp = lpa ∧
      (slots.foldl (fun fb lp => fb.mapLpa G (lpas lp) b pg lp) fb).mappings lpa =
        physicalAddress ⟨b, pg, lp⟩) ∨
    ((∀ lp ∈ slots, lpas lp ≠ lpa) ∧
      (slots.foldl (fun fb lp => fb.mapLpa G (lpas lp) b pg lp) fb).mappings lpa =
        fb.mappings lpa) := by
  induction slots generalizing fb with
  | nil => exact Or.inr ⟨by simp, rfl⟩
  | cons lp slots ih =>
      have first := fb.mapLpa_mappings (G := G) (lpas lp) b pg lp
      rw [if_pos (mapped lp)] at first
      rw [List.foldl_cons]
      rcases ih (fb.mapLpa G (lpas lp) b pg lp) with ⟨slot, mem, same, address⟩ | ⟨others, kept⟩
      · exact Or.inl ⟨slot, by simp [mem], same, address⟩
      · by_cases same : lpas lp = lpa
        · left
          refine ⟨lp, by simp, same, ?_⟩
          rw [kept, first, ← same, Function.update_self]
        · right
          refine ⟨fun slot mem => ?_, ?_⟩
          · rcases List.mem_cons.mp mem with rfl | rest
            · exact same
            · exact others slot rest
          · rw [kept, first, Function.update_of_ne (Ne.symm same)]

theorem programPage_mappings (fb : Fb) (c : ChipId) (blk pg : ℕ)
    (mapped : ∀ lp, lpas lp ≠ pageUnmapped) (src : Slot → PageData) (lpa : ℕ) :
    (∃ lp, lpas lp = lpa ∧ (fb.programPage G c blk pg lpas src).mappings lpa =
      physicalAddress ⟨⟨c, blk⟩, pg, lp⟩) ∨
    ((∀ lp, lpas lp ≠ lpa) ∧
      (fb.programPage G c blk pg lpas src).mappings lpa = fb.mappings lpa) := by
  have same : (fb.programPage G c blk pg lpas src).mappings =
      ((fb.vdeviceWrite ⟨c, blk⟩ pg src).mapLogicalToPhysical G lpas ⟨c, blk⟩ pg).mappings :=
    (updateActBlk_sameFlash _ c).1
  rw [same]
  rcases foldl_mapLpa_mappings (G := G) (List.finRange nrLpInPp)
    (fb.vdeviceWrite ⟨c, blk⟩ pg src) ⟨c, blk⟩ pg mapped lpa with
      ⟨lp, _, isLpa, address⟩ | ⟨others, kept⟩
  · exact Or.inl ⟨lp, isLpa, address⟩
  · exact Or.inr ⟨fun lp => others lp (List.mem_finRange lp), kept⟩

theorem Unspoiled.invalidateLpg (unspoiled : Unspoiled fb c) (offChip : OffChip fb c lpa) :
    Unspoiled (fb.invalidateLpg G lpa).2 c := by
  intro b own
  have marked (l : Location) (elsewhere : l.block.chip ≠ c) :
      (fb.markInvalid l).ssdi.blocks b = fb.ssdi.blocks b := by
    apply Function.update_of_ne
    rintro rfl
    exact elsewhere own
  rcases fb.invalidateLpg_cases G lpa with ⟨_, same⟩ | ⟨l, isMapped, place, result⟩
  · rw [same]
    exact unspoiled b own
  have elsewhere : l.block.chip ≠ c := by
    rw [place]
    exact offChip.resolve_left isMapped
  have counted : ((fb.markInvalid l).ssdi.blocks b).nrInvalidLogPages = 0 := by
    rw [marked l elsewhere]
    exact unspoiled b own
  rcases result with same | ⟨_, same⟩ | same
  · rw [same]
    exact counted
  · have moves := (Moves.resetUsedBlk (fb.markInvalid l) l.block).trans
      (.setCurrGcBlock_some _ l.block)
    rw [same]
    exact (moves.counters b).nrInvalidLogPages.trans counted
  · have moves := (Moves.resetUsedBlk (fb.markInvalid l) l.block).trans (.setDirtBlk _ l.block)
    rw [same]
    exact (moves.counters b).nrInvalidLogPages.trans counted

theorem fillSubPage_nrInvalidLogPages (fb : Fb) (b : BlockId) (pg : ℕ) (lp : Slot)
    (isMapped : lpa ≠ pageUnmapped) (other : BlockId) :
    ((fb.fillSubPage b pg lp lpa).ssdi.blocks other).nrInvalidLogPages =
      (fb.ssdi.blocks other).nrInvalidLogPages := by
  by_cases same : other = b
  · subst other
    simp [Fb.fillSubPage, FlashBlock.afterFill, isMapped, FlashBlock.incNrValidLps]
  · simp [Fb.fillSubPage, same]

theorem Unspoiled.mapLpa (unspoiled : Unspoiled fb c) (isMapped : lpa ≠ pageUnmapped)
    (offChip : OffChip fb c lpa) (b : BlockId) (pg : ℕ) (lp : Slot) :
    Unspoiled (fb.mapLpa G lpa b pg lp) c := by
  intro member own
  have cleared := unspoiled.invalidateLpg (G := G) offChip member own
  have filled := fillSubPage_nrInvalidLogPages (fb.invalidateLpg G lpa).2 b pg lp isMapped member
  rw [Fb.mapLpa_eq, if_pos isMapped]
  simp only
  split_ifs
  · by_cases same : member = b
    · subst member
      simpa [Fb.updBlock, SsdInfo.updBlock, FlashBlock.afterClose, FlashBlock.incNrValidPgs,
        FlashBlock.decNrFreePgs, filled] using cleared
    · simpa [Fb.updBlock, SsdInfo.updBlock, same, filled] using cleared
  · rw [filled]
    exact cleared

theorem Unspoiled.foldl_mapLpa {slots : List Slot} (unspoiled : Unspoiled fb c)
    (nodup : slots.Nodup) (injective : Function.Injective lpas)
    (mapped : ∀ lp, lpas lp ≠ pageUnmapped) (offChip : ∀ lp ∈ slots, OffChip fb c (lpas lp))
    (b : BlockId) (pg : ℕ) :
    Unspoiled (slots.foldl (fun fb lp => fb.mapLpa G (lpas lp) b pg lp) fb) c := by
  induction slots generalizing fb with
  | nil => exact unspoiled
  | cons lp slots ih =>
      rw [List.nodup_cons] at nodup
      apply ih (unspoiled.mapLpa (mapped lp) (offChip lp (by simp)) b pg lp) nodup.2
      intro slot mem
      have different : lpas slot ≠ lpas lp := by
        intro same
        rw [injective same] at mem
        exact nodup.1 mem
      apply (offChip slot (by simp [mem])).congr
      rw [Fb.mapLpa_mappings, if_pos (mapped lp), Function.update_of_ne different]

/-- A page program whose LPAs have no copy on the chip makes nothing INVALID there, also when the
page itself is on the chip. -/
theorem Unspoiled.programPage (unspoiled : Unspoiled fb c) (injective : Function.Injective lpas)
    (mapped : ∀ lp, lpas lp ≠ pageUnmapped) (offChip : ∀ lp, OffChip fb c (lpas lp))
    (turn : ChipId) (blk pg : ℕ) (src : Slot → PageData) :
    Unspoiled (fb.programPage G turn blk pg lpas src) c := by
  have started : Unspoiled (fb.vdeviceWrite ⟨turn, blk⟩ pg src) c := unspoiled
  have filled := started.foldl_mapLpa (G := G) (List.nodup_finRange nrLpInPp) injective mapped
    (fun lp _ => offChip lp) ⟨turn, blk⟩ pg
  intro b own
  unfold Fb.programPage
  rw [(updateActBlk_counters _ turn b).nrInvalidLogPages]
  exact filled b own

theorem Unspoiled.of_created (created : Fb.create G garbage = some fb) (c : ChipId) :
    Unspoiled fb c :=
  fun b _ => ((Created.of_create created).counters b).nrInvalidLogPages

/-- A dirt block holds INVALID sub-pages. -/
theorem Unspoiled.dirtBlks_eq_nil (unspoiled : Unspoiled fb c) (inv : Inv G .rest fb)
    (hasChip : G.HasChip c) : (fb.ssdi.chips c).dirtBlks = [] := by
  rw [List.eq_nil_iff_forall_not_mem]
  intro b mem
  rcases inv.hasBlock_of_mem hasChip .dirt mem with ⟨own, hasBlock⟩
  have ok := inv.blockOk b hasBlock
  have dirt := (inv.chipOk c hasChip).placeOk .dirt b mem
  rcases dirt with ⟨full, noValid⟩
  have first : 0 < G.numPagesPerBlock - (fb.ssdi.blocks b).nrFreePages := by
    have := G.numPagesPerBlock_pos
    omega
  have isInvalid : (fb.ssdi.pages b 0).pageStatus 0 = invalid := by
    have notFree : (fb.ssdi.pages b 0).pageStatus 0 ≠ free := ok.status_ne_free first
    have notValid := ok.no_valid noValid G.numPagesPerBlock_pos 0
    rcases status : (fb.ssdi.pages b 0).pageStatus 0 with _ | _ | _
    · exact absurd status notFree
    · exact absurd status notValid
    · rfl
  have counted : 0 < nrSubPages G (fb.ssdi.pages b) invalid :=
    labelCount_pos (0, 0) (mem_subPages.mpr G.numPagesPerBlock_pos) isInvalid
  rw [← ok.nrInvalidLogPages_eq, unspoiled b own] at counted
  exact absurd counted (lt_irrefl 0)

/-- A chip that is not spoiled has no block to collect in its used list. -/
theorem Unspoiled.selectVicBlkFromUsed (unspoiled : Unspoiled fb c) (inv : Inv G .rest fb)
    (hasChip : G.HasChip c) : fb.selectVicBlkFromUsed c = none := by
  have search (blks : List BlockId) (clean : ∀ b ∈ blks, (fb.ssdi.blocks b).nrInvalidLogPages = 0) :
      fb.mostInvalidBlk blks none 0 = none := by
    induction blks with
    | nil => rfl
    | cons b blks ih =>
        rw [Fb.mostInvalidBlk, clean b (by simp)]
        exact ih fun other mem => clean other (by simp [mem])
  apply search
  intro b mem
  exact unspoiled b (inv.hasBlock_of_mem hasChip .used mem).1

theorem Unspoiled.selectVicBlkGreedy (unspoiled : Unspoiled fb c) (inv : Inv G .rest fb)
    (hasChip : G.HasChip c) : fb.selectVicBlkGreedy c = none := by
  have noDirt : fb.getDirtBlock c = none := by
    unfold Fb.getDirtBlock
    rw [unspoiled.dirtBlks_eq_nil inv hasChip]
    rfl
  have noUsed := unspoiled.selectVicBlkFromUsed inv hasChip
  unfold Fb.selectVicBlkFromUsed at noUsed
  rw [Fb.selectVicBlkGreedy, noDirt]
  exact noUsed

end Frame

/-! ### Runs -/

section Runs

variable {G : Geometry} {garbage : Garbage} {fb : Fb} {c : ChipId}

theorem Run.hostOk_of_sparesChip (run : Run G garbage (SparesChip G c) fb) :
    Run G garbage (HostOk G) fb := by
  induction run with
  | create created => exact .create created
  | exec run command inRange isAllowed ih =>
      apply ih.exec command inRange
      rcases isAllowed with ⟨lpas, src, rfl, _, _, _, room⟩
      rcases ih.supplied_of_hostOk.writesPage run.reachable.inv ih.life_of_hostOk room lpas src
        with ⟨_, _, writes⟩
      exact ⟨by simp, by simp, by simp [Succeeds, Command.exec, writes]⟩

/-- In every run that spares a chip nothing on this chip becomes INVALID. -/
theorem Run.unspoiled (run : Run G garbage (SparesChip G c) fb) : Unspoiled fb c := by
  induction run with
  | create created => exact .of_created created c
  | exec run command inRange isAllowed ih =>
      rcases isAllowed with ⟨lpas, src, rfl, injective, _, offChip, room⟩
      have hostOk := run.hostOk_of_sparesChip
      rcases hostOk.supplied_of_hostOk.writesPage run.reachable.inv hostOk.life_of_hostOk room lpas
        src with ⟨blk, _, writes⟩
      rw [Command.exec, writes]
      exact ih.programPage injective (fun lp => ((inRange lp).trans G.numLogPages_lt).ne) offChip
        _ blk _ src

/-- When no chip has a page left at the end of a run that spares a chip, the next host write
fails. -/
theorem Run.writeFails_of_sparesChip (run : Run G garbage (SparesChip G c) fb)
    (hasChip : G.HasChip c) (exhausted : Exhausted G fb) (lpas : Slot → ℕ) (src : Slot → PageData) :
    (fb.makeWriteRequest G lpas src).1 = .fail := by
  have hostOk := run.hostOk_of_sparesChip
  have inv := run.reachable.inv
  rcases hostOk.supplied_of_hostOk.makeWriteRequest_cases inv hostOk.life_of_hostOk
    hostOk.striped_of_hostOk hostOk.level lpas src with
    ⟨room, _⟩ | ⟨_, collects, _⟩ | ⟨_, _, failed⟩
  · have empty := exhausted _ (hasChip_getNextBusChip inv.mruOk)
    omega
  · have some_ := collects.victim c hasChip
    rw [run.unspoiled.selectVicBlkGreedy inv hasChip] at some_
    simp at some_
  · exact failed

/-- When the chip runs short of erased blocks, background GC fails. -/
theorem Run.bgcFails_of_sparesChip (run : Run G garbage (SparesChip G c) fb)
    (hasChip : G.HasChip c) (active : (fb.getCurrActiveBlock fb.getPrevBusChip).isSome)
    (needs : fb.NeedsVictim c) (noVictim : fb.gcm.vicBlks c = none) :
    (fb.triggerBgGc G).1 ≠ .ok := by
  have notIdle : ¬(fb.getCurrActiveBlock fb.getPrevBusChip).isNone := by
    simp [Option.isSome_iff_ne_none.mp active]
  have target : fb.initGcm.bgcTarget G c = none := by
    have noFresh : fb.freshTarget G c = none := by
      simp [Fb.freshTarget, run.unspoiled.selectVicBlkFromUsed run.reachable.inv hasChip]
    have noOld : fb.getVicBlk c = none := noVictim
    have same : fb.initGcm.bgcTarget G c = fb.bgcTarget G c := bgcTarget_congr rfl rfl rfl
    rw [same, Fb.bgcTarget, if_pos needs, noOld]
    exact noFresh
  have stuck : (fb.initGcm.bgcSetVicBlks G).1 ≠ .ok := by
    intro ok
    have some_ := (bgcSetVicBlks_spec fb.initGcm).2.2 ok c hasChip needs
    rw [target] at some_
    simp at some_
  rw [Fb.triggerBgGc, if_neg notIdle, Fb.bgcCopy, andThen_of_not_ok stuck]
  exact stuck

/-- What a host write that needs no garbage collection leaves behind. -/
structure WroteAtOnce (G : Geometry) (fb : Fb) (lpas : Slot → ℕ) (other : Fb) : Prop where
  position : other.getPrevBusChip = fb.getNextBusChip G
  pagesLeft : ∀ c, G.HasChip c → other.pagesLeft G c =
    if c = fb.getNextBusChip G then fb.pagesLeft G c - 1 else fb.pagesLeft G c
  written : ∀ lpa, (∃ lp, lpas lp = lpa) → ∃ l, G.HasLocation l ∧
    l.block.chip = fb.getNextBusChip G ∧ other.mappings lpa = physicalAddress l
  kept : ∀ lpa, (∀ lp, lpas lp ≠ lpa) → other.mappings lpa = fb.mappings lpa
  vicBlks : other.gcm.vicBlks = fb.gcm.vicBlks

theorem WritesPage.wroteAtOnce {lpas : Slot → ℕ} {src : Slot → PageData} {result : Ret × Fb}
    (writes : WritesPage G fb lpas src result) (inv : Inv G .rest fb)
    (inside : ∀ lp, lpas lp < G.numLogPages) : WroteAtOnce G fb lpas result.2 := by
  rcases writes with ⟨blk, active, rfl⟩
  have hasNext := hasChip_getNextBusChip inv.mruOk
  have mapped (lp : Slot) : lpas lp ≠ pageUnmapped := ((inside lp).trans G.numLogPages_lt).ne
  rcases inv.nextPage hasNext active rfl with ⟨_, hasBlock, pg_lt, _⟩
  have mappings (lpa : ℕ) := programPage_mappings (G := G) fb (fb.getNextBusChip G) blk
    (G.numPagesPerBlock - (fb.ssdi.blocks ⟨fb.getNextBusChip G, blk⟩).nrFreePages) mapped src lpa
  constructor
  · exact (programPage_progress G fb _ blk _ lpas src).2
  · intro c hasChip
    simp only
    rw [programPage_pagesLeft inv hasNext active rfl (fun lp => Or.inr (inside lp)) src hasChip]
    split_ifs with same
    · rw [same]
    · rfl
  · rintro lpa ⟨lp, same⟩
    rcases mappings lpa with ⟨slot, _, address⟩ | ⟨others, _⟩
    · exact ⟨_, ⟨hasBlock, pg_lt⟩, rfl, address⟩
    · exact absurd same (others lp)
  · intro lpa others
    rcases mappings lpa with ⟨slot, same, _⟩ | ⟨_, kept⟩
    · exact absurd same (others slot)
    · exact kept
  · exact (SameScratch.programPage fb _ blk _ lpas src).vicBlks

theorem Run.writeAtOnce (run : Run G garbage (SparesChip G c) fb) {lpas : Slot → ℕ}
    (injective : Function.Injective lpas) (below : ∀ lp, lpas lp < G.capacityInPages)
    (offChip : ∀ lp, OffChip fb c (lpas lp)) (room : 0 < fb.pagesLeft G (fb.getNextBusChip G)) :
    ∃ other, Run G garbage (SparesChip G c) other ∧ WroteAtOnce G fb lpas other := by
  have inside (lp : Slot) : lpas lp < G.numLogPages := (below lp).trans_le G.capacityInPages_le
  have hostOk := run.hostOk_of_sparesChip
  have writes := hostOk.supplied_of_hostOk.writesPage run.reachable.inv hostOk.life_of_hostOk room
    lpas fun _ => filledPage 0
  exact ⟨_, run.exec (.write lpas fun _ => filledPage 0) inside
    ⟨lpas, _, rfl, injective, below, offChip, room⟩, writes.wroteAtOnce run.reachable.inv inside⟩

theorem WroteAtOnce.offChip {lpas : Slot → ℕ} {other : Fb} {lpa : ℕ}
    (wrote : WroteAtOnce G fb lpas other) (offChip : OffChip fb c lpa)
    (apart : fb.getNextBusChip G ≠ c ∨ ∀ lp, lpas lp ≠ lpa) : OffChip other c lpa := by
  by_cases isWritten : ∃ lp, lpas lp = lpa
  · rcases wrote.written lpa isWritten with ⟨l, hasLocation, own, address⟩
    right
    rw [address, locate_physicalAddress hasLocation, own]
    apply apart.resolve_right
    push Not
    exact isWritten
  · push Not at isWritten
    exact offChip.congr (wrote.kept lpa isWritten)

end Runs

/-! ### A lopsided workload -/

section Lopsided

/-- Two chips with 29 blocks of two pages each. -/
def Geometry.twoChips : Geometry := .ofSizes 1 2 29 2 (by decide)

variable {fb : Fb} {k : ℕ}

/-- `k` rounds of a write of four new LPAs, which goes to the first chip, and a write of LPAs 0
to 3, which goes to the second one. -/
structure Lopsided (fb : Fb) (k : ℕ) : Prop where
  run : Run .twoChips .zeroed (SparesChip .twoChips ⟨0, 0⟩) fb
  position : fb.getPrevBusChip = ⟨0, 1⟩
  overwritten : ∀ lpa < 4, OffChip fb ⟨0, 0⟩ lpa
  unused : ∀ lpa, 4 * (k + 1) ≤ lpa → fb.mappings lpa = pageUnmapped
  pagesLeft : ∀ c, Geometry.twoChips.HasChip c → fb.pagesLeft .twoChips c + k = 56
  vicBlks : ∀ c, fb.gcm.vicBlks c = none

theorem lopsided_zero : ∃ fb, Lopsided fb 0 := by
  have isSome := Fb.create_isSome .twoChips .zeroed (by decide)
  rcases Option.isSome_iff_exists.mp isSome with ⟨fb, created⟩
  have start := Created.of_create created
  refine ⟨fb, .create created, start.mru, fun lpa _ => ?_, fun lpa _ => ?_, fun c hasChip => ?_,
    fun c => ?_⟩
  · left
    rw [start.mappings]
  · rw [start.mappings]
  · exact pagesLeft_of_created created hasChip
  · rw [start.vicBlks]
    rfl

theorem eq_of_hasChip_twoChips {c : ChipId} (hasChip : Geometry.twoChips.HasChip c) :
    c = ⟨0, 0⟩ ∨ c = ⟨0, 1⟩ := by
  rcases c with ⟨bus, chip⟩
  rcases hasChip with ⟨bus_lt, chip_lt⟩
  simp only [Geometry.twoChips, Geometry.ofSizes] at bus_lt chip_lt
  simp only [ChipId.mk.injEq]
  omega

/-- Four consecutive LPAs. -/
def fourLpas (first : ℕ) (lp : Slot) : ℕ := first + lp

theorem fourLpas_injective (first : ℕ) : Function.Injective (fourLpas first) :=
  fun _ _ same => Fin.ext (Nat.add_left_cancel same)

theorem fourLpas_bounds (first : ℕ) (lp : Slot) :
    first ≤ fourLpas first lp ∧ fourLpas first lp < first + 4 := by
  have := slot_lt lp
  unfold fourLpas
  omega

theorem Lopsided.next (lopsided : Lopsided fb k) (k_lt : k < 56) :
    ∃ other, Lopsided other (k + 1) := by
  have capacity : Geometry.twoChips.capacityInPages = 416 := by decide
  have toFirst : fb.getNextBusChip .twoChips = ⟨0, 0⟩ := by
    rw [Fb.getNextBusChip_eq, lopsided.position]
    rfl
  have first := lopsided.pagesLeft ⟨0, 0⟩ (by decide)
  have second := lopsided.pagesLeft ⟨0, 1⟩ (by decide)
  -- the new LPAs go to the first chip
  have newBelow (lp : Slot) : fourLpas (4 * (k + 1)) lp < Geometry.twoChips.capacityInPages := by
    have := fourLpas_bounds (4 * (k + 1)) lp
    omega
  rcases lopsided.run.writeAtOnce (fourLpas_injective _) newBelow
    (fun lp => Or.inl (lopsided.unused _ (fourLpas_bounds _ lp).1)) (by rw [toFirst]; omega) with
    ⟨middle, middleRun, new⟩
  have toSecond : middle.getNextBusChip .twoChips = ⟨0, 1⟩ := by
    rw [Fb.getNextBusChip_eq, new.position, toFirst]
    rfl
  have stillOff (lpa : ℕ) (lpa_lt : lpa < 4) : OffChip middle ⟨0, 0⟩ lpa := by
    apply new.offChip (lopsided.overwritten lpa lpa_lt)
    right
    intro lp same
    have := fourLpas_bounds (4 * (k + 1)) lp
    omega
  have room := new.pagesLeft ⟨0, 1⟩ (by decide)
  rw [toFirst, if_neg (by decide)] at room
  -- LPAs 0 to 3 go to the second chip
  rcases middleRun.writeAtOnce (fourLpas_injective 0)
    (fun lp => by have := fourLpas_bounds 0 lp; omega)
    (fun lp => stillOff _ (by have := fourLpas_bounds 0 lp; omega)) (by rw [toSecond]; omega) with
    ⟨other, run, old⟩
  refine ⟨other, run, ?_, fun lpa lpa_lt => ?_, fun lpa le_lpa => ?_, fun c hasChip => ?_,
    fun c => ?_⟩
  · rw [old.position, toSecond]
  · exact old.offChip (stillOff lpa lpa_lt) (Or.inl (by rw [toSecond]; decide))
  · rw [old.kept lpa, new.kept lpa]
    · exact lopsided.unused lpa (by omega)
    · intro lp same
      have := fourLpas_bounds (4 * (k + 1)) lp
      omega
    · intro lp same
      have := fourLpas_bounds 0 lp
      omega
  · rw [old.pagesLeft c hasChip, toSecond, new.pagesLeft c hasChip, toFirst]
    rcases eq_of_hasChip_twoChips hasChip with rfl | rfl
    · simp only [ChipId.mk.injEq, true_and, zero_ne_one, if_false, if_true]
      omega
    · simp only [ChipId.mk.injEq, true_and, one_ne_zero, if_false, if_true]
      omega
  · rw [old.vicBlks, new.vicBlks]
    exact lopsided.vicBlks c

theorem lopsided_of_le (k_le : k ≤ 56) : ∃ fb, Lopsided fb k := by
  induction k with
  | zero => exact lopsided_zero
  | succ k ih =>
      rcases ih (by omega) with ⟨fb, lopsided⟩
      exact lopsided.next (by omega)

/-- Overwriting on one chip only lets a host write fail although a tenth of the device is spare. -/
theorem not_writesNeverFail :
    ¬∀ (G : Geometry) (garbage : Garbage) (fb : Fb) (lpas : Slot → ℕ) (src : Slot → PageData),
      2 ≤ G.numPagesPerBlock →
      3 * G.numPagesPerBlock * G.numChips ≤
        G.numPages - G.numPages * cfactorPercent / 100 →
      Run G garbage (fun _ command => command.BelowCapacity G) fb →
      (∀ lp, lpas lp < G.capacityInPages) → (fb.makeWriteRequest G lpas src).1 ≠ .fail := by
  intro neverFail
  rcases lopsided_of_le (le_refl 56) with ⟨fb, lopsided⟩
  have exhausted : Exhausted .twoChips fb := by
    intro c hasChip
    have left := lopsided.pagesLeft c hasChip
    omega
  have failed := lopsided.run.writeFails_of_sparesChip (by decide) exhausted (fourLpas 0)
    fun _ => filledPage 0
  apply neverFail .twoChips .zeroed fb (fourLpas 0) (fun _ => filledPage 0) (by decide) (by decide)
    (lopsided.run.mono fun _ _ => SparesChip.belowCapacity) (by decide) failed

/-- A device in which nothing was overwritten on one chip makes background GC fail as soon as the
chip runs short of erased blocks. -/
theorem not_bgcSucceeds :
    ¬∀ (G : Geometry) (garbage : Garbage) (fb : Fb), 2 * bgcThNrBlks < G.numBlocksPerChip →
      2 ≤ G.numPagesPerBlock → Run G garbage (Succeeds G) fb → (fb.triggerBgGc G).1 = .ok := by
  intro succeeds
  rcases lopsided_of_le (show 28 ≤ 56 by decide) with ⟨fb, lopsided⟩
  have run := lopsided.run
  have inv := run.reachable.inv
  have hostOk := run.hostOk_of_sparesChip
  have life := hostOk.life_of_hostOk
  have first := lopsided.pagesLeft ⟨0, 0⟩ (by decide)
  have second := lopsided.pagesLeft ⟨0, 1⟩ (by decide)
  have active : (fb.getCurrActiveBlock fb.getPrevBusChip).isSome := by
    rw [lopsided.position]
    exact (life.pagesLeft_pos_iff inv (by decide)).mp (by omega)
  have needs : fb.NeedsVictim ⟨0, 0⟩ := by
    have hasChip : Geometry.twoChips.HasChip ⟨0, 0⟩ := by decide
    have partition := (inv.chipOk _ hasChip).partition
    have noDirt := run.unspoiled.dirtBlks_eq_nil inv hasChip
    have some_ := (life.pagesLeft_pos_iff inv hasChip).mp (by omega)
    rcases Option.isSome_iff_exists.mp some_ with ⟨b, isActive⟩
    have open_ := inv.active_nrFreePages_pos hasChip isActive (by simp)
    have pages : Geometry.twoChips.numPagesPerBlock = 2 := rfl
    rw [pagesLeft_of_active isActive, pages] at first
    rw [Fb.NeedsVictim, partition.nrDirtBlks_eq, partition.nrFreeBlocks_eq, noDirt]
    simp only [List.length_nil, bgcThNrBlks]
    omega
  exact run.bgcFails_of_sparesChip (by decide) active needs (lopsided.vicBlks _)
    (succeeds .twoChips .zeroed fb (by decide) (by decide)
      (hostOk.mono fun _ _ hostOk => hostOk.2.2))

end Lopsided

end FlashBench
