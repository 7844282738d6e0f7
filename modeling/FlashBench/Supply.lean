import FlashBench.ForegroundRuns
import FlashBench.PagesLeft
import FlashBench.ReadSweep
import FlashBench.Striping

/-!
# The supply of blocks

On the foreground path every chip has a GC block between two commands. A collection
uses the GC blocks of the chips without an active block. Each of these chips gets a
new one: from its dirt list, or because its victim is copied until nothing in it is
VALID, and `invalidate_lpg` then puts the victim into the empty GC slot.
-/

namespace FlashBench

open PgStatus

/-- Every chip has a GC block. -/
def Supplied (G : Geometry) (fb : Fb) : Prop := ∀ c, G.HasChip c → (fb.gcm.gcBlks c).isSome

/-- Every chip has a GC block or a dirt block to replace it. -/
def Spare (G : Geometry) (fb : Fb) : Prop :=
  ∀ c, G.HasChip c → (fb.gcm.gcBlks c).isSome ∨ (fb.ssdi.chips c).dirtBlks ≠ []

/-- A chip without a GC block has a dirt block or a victim. -/
def Replaceable (fb : Fb) (c : ChipId) : Prop :=
  (fb.gcm.gcBlks c).isSome ∨ (fb.ssdi.chips c).dirtBlks ≠ [] ∨ (fb.gcm.vicBlks c).isSome

/-- The state in which `trigger_gc_page_mapping` calls `update_gc_blks`. -/
def CopyDone (G : Geometry) (fb copied : Fb) : Prop :=
  ∃ picked read, VictimsSet G fb picked ∧ picked.getValidPgsInVicBlks G = (.ok, read) ∧
    read.progValidPgsToGcBlks G = (.ok, copied)

section Collection

variable {G : Geometry} {garbage : Garbage} {fb other picked copied : Fb} {c : ChipId} {b : BlockId}

theorem Supplied.grows (supplied : Supplied G fb) (grows : SpareGrows fb other) :
    Supplied G other := fun c hasChip => grows.gcBlks c (supplied c hasChip)

/-- With a GC block on every chip `prepare_act_blks` does not fail. -/
theorem Supplied.prepareActBlks (supplied : Supplied G fb) : (fb.prepareActBlks G).1 = .ok := by
  refine (forEach_succeeds (fun rest other => rest.Nodup ∧ ∀ c ∈ rest, (other.gcm.gcBlks c).isSome)
    (fun c rest other => ?_) ⟨G.nodup_chipsByChip, fun c mem => ?_⟩).1
  · rintro ⟨nodup, reserved⟩
    rw [List.nodup_cons] at nodup
    rcases Option.isSome_iff_exists.mp (reserved c (by simp)) with ⟨b, isGc⟩
    have others (other' : ChipId) (mem : other' ∈ rest) : (other.gcm.gcBlks other').isSome :=
      reserved other' (by simp [mem])
    unfold Fb.prepareActBlk Fb.getCurrActiveBlock Fb.getCurrGcBlock
    rcases other.abm.actBlks c with _ | active
    · simp only [isGc, true_and]
      refine ⟨nodup.2, fun other' mem => ?_⟩
      have different : other' ≠ c := by
        rintro rfl
        exact nodup.1 mem
      change (Function.update other.gcm.gcBlks c none other').isSome
      rw [Function.update_of_ne different]
      exact others other' mem
    · exact ⟨rfl, nodup.2, others⟩
  · exact supplied c (G.mem_chipsByChip.mp mem)

theorem Life.nrValidLogPages_pos (life : Life G fb) (inv : Inv G .rest fb) (hasChip : G.HasChip c)
    (used : b ∈ (fb.ssdi.chips c).usedBlks) : (fb.ssdi.blocks b).nrValidLogPages ≠ 0 := by
  have hasBlock := (inv.hasBlock_of_mem hasChip .used used).2
  rcases life.exists_alive hasChip hasBlock used with ⟨pg, pg_lt, alive⟩
  rcases inv.used_full hasChip used pg_lt with ⟨_, _, full⟩
  unfold FlashPage.Dead at alive
  push Not at alive
  rcases alive with ⟨lp, notInvalid⟩
  have isValid : (fb.ssdi.pages b pg).pageStatus lp = valid := by
    have notFree := full lp
    rcases status : (fb.ssdi.pages b pg).pageStatus lp with _ | _ | _
    · exact absurd status notFree
    · rfl
    · exact absurd status notInvalid
  rw [(inv.blockOk b hasBlock).nrValidLogPages_eq]
  apply Nat.pos_iff_ne_zero.mp
  apply Finset.card_pos.mpr
  exact ⟨(pg, lp), Finset.mem_filter.mpr ⟨by simp [subPages, pg_lt], isValid⟩⟩

/-- An iteration of `set_vic_blks` that succeeds leaves its chip replaceable. -/
theorem Life.setVicBlkOf_replaceable (life : Life G fb) (inv : Inv G .rest fb)
    (hasChip : G.HasChip c) (ok : (fb.setVicBlkOf G c).1 = .ok) :
    Replaceable (fb.setVicBlkOf G c).2 c := by
  have scratch := ScratchOnly.setVicBlkOf (G := G) fb c
  unfold Replaceable
  rw [scratch.gcBlks, scratch.ssdi]
  unfold Fb.setVicBlkOf at ok ⊢
  split_ifs at ok ⊢ with both
  · exact Or.inl both.1
  · rcases found : fb.selectVicBlkGreedy c with _ | b
    · simp [found] at ok
    · simp only
      split_ifs with empty
      · refine Or.inr (Or.inl fun noDirt => ?_)
        unfold Fb.selectVicBlkGreedy Fb.getDirtBlock at found
        rw [noDirt] at found
        have used : b ∈ (fb.ssdi.chips c).usedBlks := by simpa using mem_of_mostInvalidBlk found
        exact life.nrValidLogPages_pos inv hasChip used empty
      · exact Or.inr (Or.inr (by simp [Fb.setVicBlk]))

theorem Life.setVicBlks_replaceable (life : Life G fb) (inv : Inv G .rest fb)
    (ok : (fb.setVicBlks G).1 = .ok) (hasChip : G.HasChip c) :
    Replaceable (fb.setVicBlks G).2 c := by
  revert ok
  refine forEach_rule
    (fun rest other => Inv G .rest other ∧ Life G other ∧
      ∃ passed, passed ++ rest = G.chipsByBus ∧ ∀ c ∈ passed, Replaceable other c)
    (fun result => result.1 = .ok → Replaceable result.2 c)
    (fun turn rest other => ?_) (fun other => ?_) ⟨inv, life, [], rfl, by simp⟩
  · rintro ⟨otherInv, otherLife, passed, all, replaceable⟩
    have turnChip : G.HasChip turn := G.mem_chipsByBus.mp (by simp [← all])
    refine ⟨fun ok => ⟨otherInv.setVicBlkOf, otherLife.scratchOnly (.setVicBlkOf other turn),
      passed ++ [turn], by simp [all], fun c mem => ?_⟩, fun notOk ok => absurd ok notOk⟩
    by_cases same : c = turn
    · subst c
      exact otherLife.setVicBlkOf_replaceable otherInv turnChip ok
    · have before := replaceable c (by simpa [same] using mem)
      rcases setVicBlkOf_ok otherInv turnChip ok with ⟨scratch, others, _⟩
      unfold Replaceable at before ⊢
      rwa [scratch.gcBlks, scratch.ssdi, others c same]
  · rintro ⟨_, _, passed, all, replaceable⟩ _
    rw [List.append_nil] at all
    exact replaceable c (by rw [all]; exact G.mem_chipsByBus.mpr hasChip)

/-- When the copying has succeeded every chip has a GC block or a dirt block. -/
theorem Life.spare (life : Life G fb) (inv : Inv G .rest fb) (done : CopyDone G fb copied) :
    Spare G copied := by
  rcases done with ⟨picked, read, ⟨prepared, preparing, picking⟩, reading, copying⟩
  have preparedInv := inv.initGcm.prepareActBlks
  have preparedLife := (life.scratchOnly (.initGcm fb)).prepareActBlks inv.initGcm
  have zero := prepareActBlks_nrPgsToCopy (G := G) fb.initGcm
  rw [preparing] at preparedInv preparedLife zero
  have pickedOk : (prepared.setVicBlks G).1 = .ok := by rw [picking]
  have victims := setVicBlks_ok preparedInv zero pickedOk
  have pickedInv := preparedInv.setVicBlks
  have pickedLife := preparedLife.scratchOnly (.setVicBlks (G := G) prepared)
  have replaceable (c : ChipId) (hasChip : G.HasChip c) :=
    preparedLife.setVicBlks_replaceable preparedInv pickedOk hasChip
  rw [picking] at victims pickedInv pickedLife replaceable
  simp only at victims pickedInv pickedLife replaceable
  have swept := (getValidPgsInVicBlks_spec pickedInv victims.victimsUsed victims.nrPgsToCopy).2
  have readInv := pickedInv.getValidPgsInVicBlks
  have scratch := ScratchOnly.getValidPgsInVicBlks (G := G) picked
  rw [reading] at swept readInv scratch
  simp only at swept readInv scratch
  have copies := swept.copiesMatch fun pair mem => flashData_of_mem_victimContent pickedInv mem
  have copied := ((progValidPgsToGcBlks_inTurn readInv (pickedLife.scratchOnly scratch) copies).1
    (by rw [copying])).upTo
  rw [copying] at copied
  simp only at copied
  intro c hasChip
  rcases replaceable c hasChip with reserved | dirty | victim
  · exact Or.inl (copied.spare.gcBlks c (by rw [scratch.gcBlks]; exact reserved))
  · exact Or.inr (copied.spare.dirtBlks c (by rw [scratch.ssdi]; exact dirty))
  · rcases Option.isSome_iff_exists.mp victim with ⟨b, isVictim⟩
    have used := victims.victimsUsed c hasChip b isVictim
    rcases pickedInv.hasBlock_of_mem hasChip .used used with ⟨rfl, hasBlock⟩
    have reclaimed := copied.reclaimed (by simp only [Fb.nrPgsToProg, nrLpInPp]; omega) hasBlock
      (fun pg pg_lt => by
        rw [scratch.ssdi]
        exact (pickedInv.used_full hasChip used pg_lt).2.2)
      (fun pg pg_lt lp isValid => by
        rw [scratch.ssdi] at isValid ⊢
        exact swept.complete hasChip isVictim pg_lt isValid)
    rcases reclaimed with isGc | isDirt
    · exact Or.inl (by simp [isGc])
    · exact Or.inr (List.ne_nil_of_mem isDirt)

/-- An iteration of `update_gc_blks` on a chip with a GC block or a dirt block. -/
theorem updateGcBlk_of_spare (inv : Inv G .rest fb) (hasChip : G.HasChip c)
    (spare : (fb.gcm.gcBlks c).isSome ∨ (fb.ssdi.chips c).dirtBlks ≠ []) :
    (fb.updateGcBlk c).1 = .ok ∧ ((fb.updateGcBlk c).2.gcm.gcBlks c).isSome ∧
      ∀ other ≠ c, (fb.updateGcBlk c).2.gcm.gcBlks other = fb.gcm.gcBlks other ∧
        (fb.updateGcBlk c).2.ssdi.chips other = fb.ssdi.chips other := by
  unfold Fb.updateGcBlk Fb.getCurrGcBlock
  rcases reserved : fb.gcm.gcBlks c with _ | gcBlk
  · rcases head : fb.getDirtBlock c with _ | b
    · have noDirt : (fb.ssdi.chips c).dirtBlks = [] := List.head?_eq_none_iff.mp head
      simp [reserved, noDirt] at spare
    · rcases inv.hasBlock_of_mem hasChip .dirt (mem_of_head?_eq head) with ⟨rfl, _⟩
      have moves := (Moves.resetDirtBlk fb b).trans (.setCurrGcBlock_some _ b)
      refine ⟨rfl, ?_, fun other different => ?_⟩
      · change (Function.update fb.gcm.gcBlks b.chip (some b) b.chip).isSome
        simp
      · rcases moves.otherChips other different with ⟨chips, _, gcBlks⟩
        exact ⟨gcBlks, chips⟩
  · exact ⟨rfl, by simp [reserved], fun _ _ => ⟨rfl, rfl⟩⟩

theorem Spare.updateGcBlks (spare : Spare G fb) (inv : Inv G .rest fb) :
    (fb.updateGcBlks G).1 = .ok ∧ Supplied G (fb.updateGcBlks G).2 := by
  have loop := @forEach_succeeds ChipId Fb Fb.updateGcBlk
    (fun rest other => Inv G .rest other ∧ ∃ passed, passed ++ rest = G.chipsByBus ∧
      (∀ c ∈ passed, (other.gcm.gcBlks c).isSome) ∧
      ∀ c ∈ rest, (other.gcm.gcBlks c).isSome ∨ (other.ssdi.chips c).dirtBlks ≠ [])
    (fun turn rest other => ?_) G.chipsByBus fb
    ⟨inv, [], rfl, by simp, fun c mem => spare c (G.mem_chipsByBus.mp mem)⟩
  · refine ⟨loop.1, fun c hasChip => ?_⟩
    rcases loop.2 with ⟨_, passed, all, reserved, _⟩
    rw [List.append_nil] at all
    exact reserved c (by rw [all]; exact G.mem_chipsByBus.mpr hasChip)
  · rintro ⟨otherInv, passed, all, reserved, left⟩
    have nodup := G.nodup_chipsByBus
    rw [← all, List.nodup_append, List.nodup_cons] at nodup
    have hasChip : G.HasChip turn := G.mem_chipsByBus.mp (by simp [← all])
    rcases updateGcBlk_of_spare otherInv hasChip (left turn (by simp)) with ⟨ok, now, others⟩
    refine ⟨ok, otherInv.updateGcBlk hasChip, passed ++ [turn], by simp [all], ?_, ?_⟩
    · intro c mem
      by_cases same : c = turn
      · rwa [same]
      · rw [(others c same).1]
        exact reserved c (by simpa [same] using mem)
    · intro c mem
      have different : c ≠ turn := by
        rintro rfl
        exact nodup.2.1.1 mem
      rw [(others c different).1, (others c different).2]
      exact left c (by simp [mem])

/-! ### Commands -/

/-- A successful `trigger_gc_page_mapping` has come to `update_gc_blks`. -/
theorem triggerGcPageMapping_ok (ok : (fb.triggerGcPageMapping G).1 = .ok) :
    ∃ copied, CopyDone G fb copied ∧ fb.triggerGcPageMapping G = copied.updateGcBlks G := by
  revert ok
  unfold Fb.triggerGcPageMapping
  rcases preparing : fb.initGcm.prepareActBlks G with ⟨_ | _ | _, prepared⟩
  · rw [andThen]
    rcases picking : prepared.setVicBlks G with ⟨_ | _ | _, picked⟩
    · rw [andThen]
      rcases reading : picked.getValidPgsInVicBlks G with ⟨_ | _ | _, read⟩
      · rw [andThen]
        rcases copying : read.progValidPgsToGcBlks G with ⟨_ | _ | _, copied⟩
        · exact fun _ => ⟨copied, ⟨picked, read, ⟨prepared, preparing, picking⟩, reading, copying⟩,
            rfl⟩
        · simp [andThen]
        · simp [andThen]
      · simp [andThen]
      · simp [andThen]
    · simp [andThen]
    · simp [andThen]
  · simp [andThen]
  · simp [andThen]

theorem CopyDone.inv (done : CopyDone G fb copied) (inv : Inv G .rest fb) : Inv G .rest copied := by
  rcases done with ⟨picked, read, ⟨prepared, preparing, picking⟩, reading, copying⟩
  have after := inv.initGcm.prepareActBlks
  rw [preparing] at after
  have after := Inv.setVicBlks after
  rw [picking] at after
  have after := Inv.getValidPgsInVicBlks after
  rw [reading] at after
  have after := Inv.progValidPgsToGcBlks after
  rwa [copying] at after

theorem Life.supplied (life : Life G fb) (inv : Inv G .rest fb)
    (ok : (fb.triggerGcPageMapping G).1 = .ok) : Supplied G (fb.triggerGcPageMapping G).2 := by
  rcases triggerGcPageMapping_ok ok with ⟨copied, done, result⟩
  rw [result]
  exact ((life.spare inv done).updateGcBlks (done.inv inv)).2

/-- With a GC block on every chip a host write does not call `trigger_gc_page_mapping` before it
tries to allocate a page. -/
theorem Supplied.makeWriteRequest_eq (supplied : Supplied G fb) (inv : Inv G .rest fb)
    (lpas : Slot → ℕ) (src : Slot → PageData) :
    fb.makeWriteRequest G lpas src = fb.allocAndProgram G lpas src := by
  have hasChip := hasChip_getNextBusChip inv.mruOk
  rw [Fb.makeWriteRequest, isFgcNeeded_eq_false (Or.inl (supplied _ hasChip))]
  rfl

theorem Supplied.makeWriteRequest {lpas : Slot → ℕ} {src : Slot → PageData}
    (supplied : Supplied G fb) (inv : Inv G .rest fb) (life : Life G fb)
    (ok : (fb.makeWriteRequest G lpas src).1 = .ok) :
    Supplied G (fb.makeWriteRequest G lpas src).2 := by
  have programmed {fb other : Fb} {blk pg : ℕ} (inv : Inv G .rest fb) (life : Life G fb)
      (supplied : Supplied G fb)
      (alloc : fb.allocNewPage G (fb.getNextBusChip G) = (some (blk, pg), other)) :
      Supplied G (other.programPage G (fb.getNextBusChip G) blk pg lpas src) := by
    have same := life.allocNewPage_of_some (hasChip_getNextBusChip inv.mruOk) alloc
    subst other
    exact supplied.grows (.programPage G fb _ blk pg lpas src)
  rw [supplied.makeWriteRequest_eq inv] at ok ⊢
  rcases alloc : fb.allocNewPage G (fb.getNextBusChip G) with ⟨_ | ⟨blk, pg⟩, other⟩
  · have same := (Inv.allocNewPage_of_none alloc).1
    subst other
    have result : fb.allocAndProgram G lpas src =
        andThen (fb.triggerGcPageMapping G) fun fb => fb.allocOrFail G lpas src := by
      simp [Fb.allocAndProgram, alloc]
    rw [result] at ok ⊢
    by_cases collected : (fb.triggerGcPageMapping G).1 = .ok
    · rw [andThen_of_ok collected] at ok ⊢
      have nextInv := inv.triggerGcPageMapping
      have nextLife := life.triggerGcPageMapping inv
      have nextSupplied := life.supplied inv collected
      generalize (fb.triggerGcPageMapping G).2 = fb at ok nextInv nextLife nextSupplied ⊢
      rcases again : fb.allocNewPage G (fb.getNextBusChip G) with ⟨_ | ⟨blk, pg⟩, opened⟩
      · simp [Fb.allocOrFail, again] at ok
      · simpa [Fb.allocOrFail, again] using programmed nextInv nextLife nextSupplied again
    · rw [andThen_of_not_ok collected] at ok
      exact absurd ok collected
  · simpa [Fb.allocAndProgram, alloc] using programmed inv life supplied alloc

end Collection

section Runs

variable {G : Geometry} {garbage : Garbage} {fb : Fb}

/-- Foreground commands that return 0. -/
def ForegroundOk (G : Geometry) (fb : Fb) (command : Command) : Prop :=
  Foreground fb command ∧ Succeeds G fb command

instance (G : Geometry) (fb : Fb) (command : Command) : Decidable (ForegroundOk G fb command) :=
  inferInstanceAs (Decidable (_ ∧ _))

theorem Run.supplied (run : Run G garbage (ForegroundOk G) fb) : Supplied G fb := by
  induction run with
  | create created => exact (Created.of_create created).reserved
  | exec run command inRange isAllowed ih =>
      have inv := run.reachable.inv
      have life := (run.mono fun _ _ both => both.1).life
      cases command with
      | write lpas src => exact ih.makeWriteRequest inv life isAllowed.2
      | invalidate lpas => exact ih.grows (.delInvalidatePgs _ lpas)
      | foregroundGc => exact life.supplied inv isAllowed.2
      | backgroundGc => exact absurd rfl isAllowed.1

/-- In every run of foreground commands that return 0, a chip without an active block has a GC
block, every chip has one after a collection that returns 0, and the exits of
`prepare_act_blks` and `update_gc_blks` are not taken, also not by a collection that fails
later on. -/
theorem blockSupply_of_run (run : Run G garbage (ForegroundOk G) fb) :
    (∀ c, G.HasChip c → fb.abm.actBlks c = none → (fb.gcm.gcBlks c).isSome) ∧
    ((fb.triggerGcPageMapping G).1 = .ok →
      ∀ c, G.HasChip c → ((fb.triggerGcPageMapping G).2.gcm.gcBlks c).isSome) ∧
    (fb.initGcm.prepareActBlks G).1 = .ok ∧
    ∀ copied, CopyDone G fb copied → (copied.updateGcBlks G).1 = .ok := by
  have inv := run.reachable.inv
  have life := (run.mono fun _ _ both => both.1).life
  have supplied := run.supplied
  refine ⟨fun c hasChip _ => supplied c hasChip, fun ok => life.supplied inv ok, ?_, ?_⟩
  · have begun : Supplied G fb.initGcm := supplied
    exact begun.prepareActBlks
  · intro copied done
    exact ((life.spare inv done).updateGcBlks (done.inv inv)).1

/-- Two blocks of each chip are full and none is active: the collection goes through, and
leaves both chips a GC block. -/
theorem blockSupply_filledFb :
    filledFb.abm.actBlks ⟨0, 0⟩ = none ∧ (filledFb.gcm.gcBlks ⟨0, 0⟩).isSome ∧
    (filledFb.initGcm.prepareActBlks .threeBlocks).1 = .ok ∧
    ∀ c, Geometry.threeBlocks.HasChip c →
      ((filledFb.triggerGcPageMapping .threeBlocks).2.gcm.gcBlks c).isSome := by
  have run : Run .threeBlocks .zeroed (ForegroundOk .threeBlocks) filledFb := by
    unfold filledFb
    apply (Run.create threeBlocksFb_created).execAll
    decide +kernel
  have noActive : filledFb.abm.actBlks ⟨0, 0⟩ = none := by decide +kernel
  have collected : (filledFb.triggerGcPageMapping .threeBlocks).1 = .ok := by decide +kernel
  rcases blockSupply_of_run run with ⟨reserved, afterwards, prepared, _⟩
  exact ⟨noActive, reserved ⟨0, 0⟩ (by decide) noActive, prepared, afterwards collected⟩

end Runs

end FlashBench
