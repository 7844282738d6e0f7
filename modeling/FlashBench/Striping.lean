import Mathlib.Data.Int.CardIntervalMod
import FlashBench.ForegroundGc
import FlashBench.Reachable

/-!
# Round-robin striping

The page programs of the host and of both garbage collectors take the chips in turn.
Background garbage collection also goes round the chips without programming, once
per loop, so that a loop that ends leaves the position as it was.
-/

namespace FlashBench

/-- The chip of a page program. -/
def FlashOp.programmedChip : FlashOp → Option ChipId
  | .write block _ => some block.chip
  | _ => none

/-- The chips of all page programs since creation, the first one first. -/
def Fb.programs (fb : Fb) : List ChipId :=
  (fb.history.filterMap fun event => event.op.programmedChip).reverse

/-- The operation neither programs a page nor moves the round-robin position. -/
structure SameProgress (fb other : Fb) : Prop where
  programs : other.programs = fb.programs
  position : other.getPrevBusChip = fb.getPrevBusChip

namespace SameProgress

variable {G : Geometry} {fb other third : Fb} {c : ChipId}

theorem refl (fb : Fb) : SameProgress fb fb := ⟨rfl, rfl⟩

theorem trans (first : SameProgress fb other) (second : SameProgress other third) :
    SameProgress fb third :=
  ⟨second.programs.trans first.programs, second.position.trans first.position⟩

theorem of_scratchOnly (same : ScratchOnly fb other) : SameProgress fb other := by
  rw [same.rest]
  exact ⟨rfl, rfl⟩

theorem allocNewPage (fb : Fb) (c : ChipId) : SameProgress fb (fb.allocNewPage G c).2 := by
  unfold Fb.allocNewPage
  rcases fb.getCurrActiveBlock c with _ | b
  · rcases fb.getFreeBlock c with _ | b
    · exact refl fb
    · exact ⟨rfl, rfl⟩
  · exact refl fb

theorem invalidateLpg (G : Geometry) (fb : Fb) (lpa : ℕ) :
    SameProgress fb (fb.invalidateLpg G lpa).2 := by
  rcases fb.invalidateLpg_cases G lpa with ⟨_, same⟩ | ⟨l, _, _, same | ⟨_, same⟩ | same⟩
  all_goals
    rw [same]
    exact ⟨rfl, rfl⟩

theorem mapLogicalToPhysical (G : Geometry) (fb : Fb) (lpas : Slot → ℕ) (b : BlockId) (pg : ℕ) :
    SameProgress fb (fb.mapLogicalToPhysical G lpas b pg) := by
  refine foldl_preserves (SameProgress fb) (fun lp _ other same => same.trans ?_) (refl fb)
  have cleared : SameProgress other
      (if lpas lp ≠ pageUnmapped then (other.invalidateLpg G (lpas lp)).2 else other) := by
    split_ifs
    · exact invalidateLpg G other (lpas lp)
    · exact refl other
  rw [Fb.mapLpa_eq]
  refine cleared.trans ?_
  simp only
  split_ifs <;> exact ⟨rfl, rfl⟩

theorem updateActBlk (fb : Fb) (c : ChipId) : SameProgress fb (fb.updateActBlk c) := by
  unfold Fb.updateActBlk
  rcases fb.getCurrActiveBlock c with _ | b
  · exact refl fb
  · simp only
    split_ifs
    · split <;> exact ⟨rfl, rfl⟩
    · exact refl fb

theorem prepareActBlks (fb : Fb) : SameProgress fb (fb.prepareActBlks G).2 := by
  refine forEach_preserves (SameProgress fb) (fun c _ other same => same.trans ?_) (refl fb)
  unfold Fb.prepareActBlk
  rcases other.getCurrActiveBlock c with _ | _
  · rcases other.getCurrGcBlock c with _ | b
    · exact refl other
    · exact ⟨rfl, rfl⟩
  · exact refl other

theorem updateGcBlks (fb : Fb) : SameProgress fb (fb.updateGcBlks G).2 := by
  refine forEach_preserves (SameProgress fb) (fun c _ other same => same.trans ?_) (refl fb)
  unfold Fb.updateGcBlk
  rcases other.getCurrGcBlock c with _ | _
  · rcases other.getDirtBlock c with _ | b
    · simp only
      split_ifs <;> exact refl other
    · exact ⟨rfl, rfl⟩
  · exact refl other

theorem delInvalidatePgs (fb : Fb) (reqLpas : List ℕ) :
    SameProgress fb (fb.delInvalidatePgs G reqLpas) :=
  foldl_preserves (SameProgress fb) (fun lpa _ other same =>
    same.trans (invalidateLpg G other lpa)) (refl fb)

end SameProgress

/-- A page program is logged for its chip, and the chip becomes the position. -/
theorem programPage_progress (G : Geometry) (fb : Fb) (c : ChipId) (blk pg : ℕ) (lpas : Slot → ℕ)
    (src : Slot → PageData) :
    (fb.programPage G c blk pg lpas src).programs = fb.programs ++ [c] ∧
      (fb.programPage G c blk pg lpas src).getPrevBusChip = c := by
  have mapped := SameProgress.mapLogicalToPhysical G (fb.vdeviceWrite ⟨c, blk⟩ pg src) lpas
    ⟨c, blk⟩ pg
  have updated := SameProgress.updateActBlk (((fb.vdeviceWrite ⟨c, blk⟩ pg src).mapLogicalToPhysical
    G lpas ⟨c, blk⟩ pg).setPrevBusChip c) c
  constructor
  · calc (fb.programPage G c blk pg lpas src).programs
        = ((fb.vdeviceWrite ⟨c, blk⟩ pg src).mapLogicalToPhysical G lpas ⟨c, blk⟩ pg).programs :=
          updated.programs
      _ = (fb.vdeviceWrite ⟨c, blk⟩ pg src).programs := mapped.programs
      _ = fb.programs ++ [c] := List.reverse_cons
  · exact updated.position

/-- The programs so far took the chips in turn, and the next one goes on. -/
structure Striped (G : Geometry) (fb : Fb) : Prop where
  inTurn : ∀ k c, fb.programs[k]? = some c → G.HasChip c ∧ G.chipIndex c = k % G.numChips
  next : G.chipIndex (fb.getNextBusChip G) = fb.programs.length % G.numChips

namespace Striped

variable {G : Geometry} {fb other : Fb} {c : ChipId} {blk pg : ℕ} {lpas : Slot → ℕ}
  {src : Slot → PageData}

theorem congr (striped : Striped G fb) (same : SameProgress fb other) : Striped G other where
  inTurn := by rw [same.programs]; exact striped.inTurn
  next := by rw [Fb.getNextBusChip_eq, same.position, same.programs]; exact striped.next

theorem programPage (striped : Striped G fb) (hasChip : G.HasChip (fb.getNextBusChip G)) :
    Striped G (fb.programPage G (fb.getNextBusChip G) blk pg lpas src) := by
  rcases programPage_progress G fb (fb.getNextBusChip G) blk pg lpas src with ⟨programs, position⟩
  refine ⟨fun k c at_ => ?_, ?_⟩
  · rw [programs] at at_
    rcases Nat.lt_trichotomy k fb.programs.length with before | rfl | after
    · rw [List.getElem?_append_left before] at at_
      exact striped.inTurn k c at_
    · rw [List.getElem?_concat_length, Option.some.injEq] at at_
      rw [← at_]
      exact ⟨hasChip, striped.next⟩
    · rw [List.getElem?_eq_none (by simp only [List.length_append, List.length_singleton]; omega)] at at_
      simp at at_
  · rw [Fb.getNextBusChip_eq, position, G.chipIndex_nextChip hasChip, striped.next, programs,
      List.length_append, List.length_singleton, Nat.mod_add_mod]

theorem programAllocated (striped : Striped G fb) (inv : Inv G .rest fb)
    (alloc : fb.allocNewPage G (fb.getNextBusChip G) = (some (blk, pg), other)) :
    Striped G (other.programPage G (fb.getNextBusChip G) blk pg lpas src) := by
  have hasChip := hasChip_getNextBusChip inv.mruOk
  have opened := SameProgress.allocNewPage (G := G) fb (fb.getNextBusChip G)
  rw [alloc] at opened
  have next : fb.getNextBusChip G = other.getNextBusChip G := by
    rw [Fb.getNextBusChip_eq, Fb.getNextBusChip_eq, opened.position]
  rw [next] at hasChip ⊢
  exact (striped.congr opened).programPage hasChip

theorem progPage (striped : Striped G fb) (inv : Inv G .rest fb) (ptr : ℕ) :
    Striped G (fb.progPage G ptr).2 := by
  rcases alloc : fb.allocNewPage G (fb.getNextBusChip G) with ⟨_ | ⟨blk, pg⟩, other⟩
  · rw [Fb.progPage_of_none alloc, (Inv.allocNewPage_of_none alloc).1]
    exact striped
  · have opened := SameProgress.allocNewPage (G := G) fb (fb.getNextBusChip G)
    rw [alloc] at opened
    have padded := opened.trans (.of_scratchOnly
      (.padLpasToCopy other ptr (fb.gcm.nrPgsToCopy - ptr)))
    have next : fb.getNextBusChip G =
        (other.padLpasToCopy ptr (fb.gcm.nrPgsToCopy - ptr)).getNextBusChip G := by
      rw [Fb.getNextBusChip_eq, Fb.getNextBusChip_eq, padded.position]
    have hasChip := hasChip_getNextBusChip inv.mruOk
    rw [Fb.progPage_of_some alloc]
    simp only
    rw [next] at hasChip ⊢
    exact (striped.congr padded).programPage hasChip

theorem progValidPgsToGcBlks (striped : Striped G fb) (inv : Inv G .rest fb) :
    Striped G (fb.progValidPgsToGcBlks G).2 :=
  (forEach_preserves (fun fb => Inv G .rest fb ∧ Striped G fb) (fun ptr _ _ kept =>
    ⟨kept.1.progPage ptr, kept.2.progPage kept.1 ptr⟩) ⟨inv, striped⟩).2

theorem triggerGcPageMapping (striped : Striped G fb) (inv : Inv G .rest fb) :
    Striped G (fb.triggerGcPageMapping G).2 := by
  refine (andThen_preserves (fun fb => Inv G .rest fb ∧ Striped G fb)
    ⟨inv.initGcm.prepareActBlks, ?_⟩ fun fb kept => ?_).2
  · exact (striped.congr (.of_scratchOnly (.initGcm fb))).congr (.prepareActBlks _)
  refine andThen_preserves (fun fb => Inv G .rest fb ∧ Striped G fb)
    ⟨kept.1.setVicBlks, kept.2.congr (.of_scratchOnly (.setVicBlks fb))⟩ fun fb kept => ?_
  refine andThen_preserves (fun fb => Inv G .rest fb ∧ Striped G fb)
    ⟨kept.1.getValidPgsInVicBlks, kept.2.congr (.of_scratchOnly (.getValidPgsInVicBlks fb))⟩
    fun fb kept => ?_
  refine andThen_preserves (fun fb => Inv G .rest fb ∧ Striped G fb)
    ⟨kept.1.progValidPgsToGcBlks, kept.2.progValidPgsToGcBlks kept.1⟩ fun fb kept => ?_
  exact ⟨kept.1.updateGcBlks, kept.2.congr (.updateGcBlks fb)⟩

theorem allocOrFail (striped : Striped G fb) (inv : Inv G .rest fb) :
    Striped G (fb.allocOrFail G lpas src).2 := by
  rcases alloc : fb.allocNewPage G (fb.getNextBusChip G) with ⟨_ | ⟨blk, pg⟩, other⟩
  · simpa [Fb.allocOrFail, alloc, (Inv.allocNewPage_of_none alloc).1] using striped
  · simpa [Fb.allocOrFail, alloc] using striped.programAllocated inv alloc

theorem allocAndProgram (striped : Striped G fb) (inv : Inv G .rest fb) :
    Striped G (fb.allocAndProgram G lpas src).2 := by
  rcases alloc : fb.allocNewPage G (fb.getNextBusChip G) with ⟨_ | ⟨blk, pg⟩, other⟩
  · have collected : Striped G (andThen (fb.triggerGcPageMapping G) fun fb =>
        fb.allocOrFail G lpas src).2 :=
      andThen_rule (fun result => Striped G result.2)
        (fun _ => striped.triggerGcPageMapping inv)
        fun _ => (striped.triggerGcPageMapping inv).allocOrFail inv.triggerGcPageMapping
    simpa [Fb.allocAndProgram, alloc, (Inv.allocNewPage_of_none alloc).1] using collected
  · simpa [Fb.allocAndProgram, alloc] using striped.programAllocated inv alloc

theorem makeWriteRequest (striped : Striped G fb) (inv : Inv G .rest fb) :
    Striped G (fb.makeWriteRequest G lpas src).2 := by
  unfold Fb.makeWriteRequest
  split_ifs
  · exact andThen_rule (fun result => Striped G result.2)
      (fun _ => striped.triggerGcPageMapping inv)
      fun _ => (striped.triggerGcPageMapping inv).allocAndProgram inv.triggerGcPageMapping
  · exact striped.allocAndProgram inv

end Striped

/-! ### The rounds of background garbage collection -/

section Rounds

variable {G : Geometry} {fb : Fb}

theorem bgcPrepareActBlkOf_moves (c : ChipId) (fb : Fb) (ok : (fb.bgcPrepareActBlkOf G c).1 = .ok) :
    (fb.bgcPrepareActBlkOf G c).2.getPrevBusChip = c := by
  unfold Fb.bgcPrepareActBlkOf at ok ⊢
  rcases reserved : fb.getCurrGcBlock c with _ | b
  · simp [reserved] at ok
  · rfl

theorem bgcReadValidPgOf_moves (c : ChipId) (sweep : Fb.Sweep)
    (ok : (Fb.bgcReadValidPgOf c sweep).1 = .ok) :
    (Fb.bgcReadValidPgOf c sweep).2.fb.getPrevBusChip = c := by
  unfold Fb.bgcReadValidPgOf at ok ⊢
  rcases victim : sweep.fb.getVicBlk c with _ | b
  · simp only [victim]
    rfl
  · simp only [victim] at ok ⊢
    split_ifs at ok ⊢
    rfl

theorem bgcPrepareActBlks_eq (G : Geometry) (fb : Fb) :
    fb.bgcPrepareActBlks G =
      forEach (Fb.bgcPrepareActBlkOf G) (G.chipsAfter fb.getPrevBusChip G.numChips) fb := by
  have walk := forEach_iterate G.nextChip Fb.getPrevBusChip (bgcPrepareActBlkOf_moves (G := G))
    (List.range G.numChips) fb
  rw [List.length_range] at walk
  exact walk

theorem bgcReadValidPgs_eq (G : Geometry) (fb : Fb) :
    fb.bgcReadValidPgs G =
      ((forEach (Fb.bgcReadValidPgOf) (G.chipsAfter fb.getPrevBusChip G.numChips)
        ⟨fb, 0, 0, 0⟩).1,
      (forEach (Fb.bgcReadValidPgOf) (G.chipsAfter fb.getPrevBusChip G.numChips)
        ⟨fb, 0, 0, 0⟩).2.fb) := by
  have walk := forEach_iterate G.nextChip (fun sweep : Fb.Sweep => sweep.fb.getPrevBusChip)
    bgcReadValidPgOf_moves (List.range G.numChips) ⟨fb, 0, 0, 0⟩
  rw [List.length_range] at walk
  unfold Fb.bgcReadValidPgs
  exact congrArg (fun result : Ret × Fb.Sweep => (result.1, result.2.fb)) walk

theorem Geometry.iterate_numChips (G : Geometry) {c : ChipId} (hasChip : G.HasChip c) :
    G.nextChip^[G.numChips] c = c := by
  apply G.chipIndex_inj (G.hasChip_iterate hasChip _) hasChip
  rw [G.chipIndex_iterate hasChip, Nat.add_mod_right, Nat.mod_eq_of_lt (G.chipIndex_lt hasChip)]

theorem bgcPrepareActBlks_position (hasChip : G.HasChip fb.getPrevBusChip)
    (ok : (fb.bgcPrepareActBlks G).1 = .ok) :
    (fb.bgcPrepareActBlks G).2.getPrevBusChip = fb.getPrevBusChip := by
  have ends : _ = G.nextChip^[(List.range G.numChips).length] fb.getPrevBusChip :=
    forEach_iterate_position G.nextChip Fb.getPrevBusChip bgcPrepareActBlkOf_moves ok
  rw [List.length_range, G.iterate_numChips hasChip] at ends
  exact ends

theorem bgcReadValidPgs_position (hasChip : G.HasChip fb.getPrevBusChip)
    (ok : (fb.bgcReadValidPgs G).1 = .ok) :
    (fb.bgcReadValidPgs G).2.getPrevBusChip = fb.getPrevBusChip := by
  have ends : _ = G.nextChip^[(List.range G.numChips).length] fb.getPrevBusChip :=
    forEach_iterate_position G.nextChip (fun sweep : Fb.Sweep => sweep.fb.getPrevBusChip)
      bgcReadValidPgOf_moves ok
  rw [List.length_range, G.iterate_numChips hasChip] at ends
  exact ends

theorem bgcPrepareActBlks_programs (fb : Fb) :
    (fb.bgcPrepareActBlks G).2.programs = fb.programs := by
  refine forEach_preserves (fun other : Fb => other.programs = fb.programs)
    (fun _ _ other same => ?_) rfl
  rw [← same]
  unfold Fb.bgcPrepareActBlk Fb.bgcPrepareActBlkOf
  split
  · rfl
  · simp only
    split_ifs <;> split <;> rfl

theorem bgcReadValidPgs_programs (fb : Fb) :
    (fb.bgcReadValidPgs G).2.programs = fb.programs := by
  refine forEach_preserves (fun sweep : Fb.Sweep => sweep.fb.programs = fb.programs)
    (fun _ _ sweep same => ?_) rfl
  rw [← same]
  unfold Fb.bgcReadValidPg Fb.bgcReadValidPgOf
  rcases victim : sweep.fb.getVicBlk (sweep.fb.getNextBusChip G) with _ | b
  · simp only [victim]
    rfl
  · simp only [victim]
    split_ifs <;> rfl

theorem ScratchOnly.bgcSetVicBlks (fb : Fb) : ScratchOnly fb (fb.bgcSetVicBlks G).2 := by
  have newVictim (c : ChipId) (fb : Fb) : ScratchOnly fb (fb.bgcFindNewVicBlk G c).2 := by
    unfold Fb.bgcFindNewVicBlk
    rcases fb.selectVicBlkFromUsed c with _ | b
    · exact refl fb
    · exact ⟨rfl, rfl⟩
  refine forEach_preserves (ScratchOnly fb) (fun c _ other same => same.trans ?_) (refl fb)
  unfold Fb.bgcSetVicBlk
  simp only
  split_ifs
  · rcases other.getVicBlk c with _ | b
    · exact newVictim c other
    · simp only
      split_ifs
      · have cleared : ScratchOnly other ((other.setFirstValidPg c (other.findFirstValidPg G b
            (other.getFirstValidPg c))).setVicBlk c none) := ⟨rfl, rfl⟩
        exact cleared.trans (newVictim c _)
      · exact ⟨rfl, rfl⟩
  · exact ⟨rfl, rfl⟩

/-- A background GC that succeeds goes on with the round-robin order. -/
theorem Striped.triggerBgGc (striped : Striped G fb) (inv : Inv G .rest fb)
    (ok : (fb.triggerBgGc G).1 = .ok) : Striped G (fb.triggerBgGc G).2 := by
  unfold Fb.triggerBgGc at ok ⊢
  split_ifs at ok ⊢
  · exact striped.congr ⟨bgcPrepareActBlks_programs fb, bgcPrepareActBlks_position inv.mruOk ok⟩
  revert ok
  refine andThen_rule (fun result => result.1 = .ok → Striped G result.2)
    (fun notOk ok => absurd ok notOk) fun _ => ?_
  have picked := striped.congr (.of_scratchOnly ((ScratchOnly.initGcm fb).trans
    (.bgcSetVicBlks (G := G) fb.initGcm)))
  have pickedInv := inv.initGcm.bgcSetVicBlks
  generalize (fb.initGcm.bgcSetVicBlks G).2 = fb at picked pickedInv ⊢
  refine andThen_rule (fun result => result.1 = .ok → Striped G result.2)
    (fun notOk ok => absurd ok notOk) fun readOk => ?_
  have read := picked.congr ⟨bgcReadValidPgs_programs fb,
    bgcReadValidPgs_position pickedInv.mruOk readOk⟩
  have readInv := pickedInv.bgcReadValidPgs
  generalize (fb.bgcReadValidPgs G).2 = fb at read readInv ⊢
  split_ifs
  · exact fun _ => read
  · exact andThen_rule (fun result => result.1 = .ok → Striped G result.2)
      (fun _ _ => read.progValidPgsToGcBlks readInv)
      fun _ _ => (read.progValidPgsToGcBlks readInv).congr (.updateGcBlks _)

end Rounds

/-! ### Runs -/

section Runs

variable {G : Geometry} {garbage : Garbage} {fb : Fb}

theorem programs_of_create (created : Fb.create G garbage = some fb) : fb.programs = [] := by
  have kept : (andThen (forEach Fb.createActBlk G.chipsByBus (Fb.blank G garbage)) fun fb =>
      forEach Fb.createGcBlk G.chipsByBus fb).2.programs = [] := by
    refine andThen_preserves (fun fb : Fb => fb.programs = []) ?_ fun fb empty => ?_
    · refine forEach_preserves (fun fb : Fb => fb.programs = []) (fun c _ fb empty => ?_) rfl
      rw [← empty]
      unfold Fb.createActBlk
      split <;> rfl
    · refine forEach_preserves (fun fb : Fb => fb.programs = []) (fun c _ fb empty => ?_) empty
      rw [← empty]
      unfold Fb.createGcBlk
      split <;> rfl
  unfold Fb.create at created
  split at created
  · next fb' result =>
    rw [result] at kept
    simp only [Option.some.injEq] at created
    rwa [← created]
  · simp at created

theorem Striped.of_created (created : Fb.create G garbage = some fb) : Striped G fb := by
  have noPrograms := programs_of_create created
  refine ⟨fun k c at_ => by simp [noPrograms] at at_, ?_⟩
  have last := (Created.of_create created).mru
  rw [noPrograms, Fb.getNextBusChip_eq, last]
  simp [Geometry.nextChip, Geometry.chipIndex]

/-- All commands return 0. -/
def Succeeds (G : Geometry) (fb : Fb) (command : Command) : Prop := (command.exec G fb).1 = .ok

instance (G : Geometry) (fb : Fb) (command : Command) : Decidable (Succeeds G fb command) :=
  inferInstanceAs (Decidable (_ = _))

theorem Run.striped (run : Run G garbage (Succeeds G) fb) : Striped G fb := by
  induction run with
  | create created => exact .of_created created
  | exec run command _ succeeds ih =>
      have inv := run.reachable.inv
      cases command with
      | write lpas src => exact ih.makeWriteRequest inv
      | invalidate lpas => exact ih.congr (.delInvalidatePgs _ lpas)
      | foregroundGc => exact ih.triggerGcPageMapping inv
      | backgroundGc => exact ih.triggerBgGc inv succeeds

/-- In `n` programs that take the chips in turn, each chip gets its share. -/
theorem Striped.count_eq (striped : Striped G fb) {c : ChipId} (hasChip : G.HasChip c) :
    fb.programs.count c = Nat.count (· ≡ G.chipIndex c [MOD G.numChips]) fb.programs.length := by
  have inTurn := striped.inTurn
  generalize fb.programs = programs at inTurn
  induction programs using List.reverseRecOn with
  | nil => rfl
  | append_singleton programs last ih =>
      have lastOk := inTurn programs.length last (by simp)
      have turn : last = c ↔ programs.length ≡ G.chipIndex c [MOD G.numChips] := by
        unfold Nat.ModEq
        rw [← lastOk.2, Nat.mod_eq_of_lt (G.chipIndex_lt hasChip)]
        exact ⟨fun same => by rw [same], fun same => G.chipIndex_inj lastOk.1 hasChip same⟩
      rw [List.count_append, List.length_append, List.length_singleton, Nat.count_succ, ih]
      · congr 1
        by_cases same : last = c
        · rw [if_pos (turn.mp same), same]
          simp
        · rw [if_neg (mt turn.mpr same)]
          simp [same]
      · intro k other at_
        refine inTurn k other ?_
        rw [List.getElem?_append_left (List.getElem?_eq_some_iff.mp at_).1]
        exact at_

/-- The page programs take the chips in turn, no chip gets more than one program ahead of
another, and the loops of background garbage collection go once round all chips. -/
theorem programs_inTurn (run : Run G garbage (Succeeds G) fb) :
    (∀ k c, fb.programs[k]? = some c → G.HasChip c ∧ G.chipIndex c = k % G.numChips) ∧
    (∀ left right, G.HasChip left → G.HasChip right →
      fb.programs.count left ≤ fb.programs.count right + 1) ∧
    ∀ other : Fb, G.HasChip other.getPrevBusChip →
      ((G.chipsAfter other.getPrevBusChip G.numChips).Nodup ∧
        ∀ c, c ∈ G.chipsAfter other.getPrevBusChip G.numChips ↔ G.HasChip c) ∧
      other.bgcPrepareActBlks G =
        forEach (Fb.bgcPrepareActBlkOf G) (G.chipsAfter other.getPrevBusChip G.numChips) other ∧
      other.bgcReadValidPgs G =
        ((forEach Fb.bgcReadValidPgOf (G.chipsAfter other.getPrevBusChip G.numChips)
          ⟨other, 0, 0, 0⟩).1,
        (forEach Fb.bgcReadValidPgOf (G.chipsAfter other.getPrevBusChip G.numChips)
          ⟨other, 0, 0, 0⟩).2.fb) ∧
      ((other.bgcPrepareActBlks G).1 = .ok →
        (other.bgcPrepareActBlks G).2.getPrevBusChip = other.getPrevBusChip) ∧
      ((other.bgcReadValidPgs G).1 = .ok →
        (other.bgcReadValidPgs G).2.getPrevBusChip = other.getPrevBusChip) := by
  have striped := run.striped
  refine ⟨striped.inTurn, fun left right leftChip rightChip => ?_, fun other hasChip => ?_⟩
  · have shares (c : ChipId) (hasChip : G.HasChip c) := striped.count_eq hasChip
    rw [shares left leftChip, shares right rightChip, Nat.count_modEq_card _ G.numChips_pos,
      Nat.count_modEq_card _ G.numChips_pos]
    split_ifs <;> omega
  · exact ⟨⟨G.nodup_chipsAfter hasChip le_rfl, fun c => G.mem_chipsAfter hasChip⟩,
      bgcPrepareActBlks_eq G other, bgcReadValidPgs_eq G other,
      bgcPrepareActBlks_position hasChip, bgcReadValidPgs_position hasChip⟩

/-- The five writes and the copy of the collection between them, chip by chip. -/
theorem programs_inTurn_collectedFb :
    collectedFb.programs.length = 6 ∧
    ∀ k c, collectedFb.programs[k]? = some c →
      Geometry.threeBlocks.HasChip c ∧ Geometry.threeBlocks.chipIndex c = k % 2 := by
  have run : Run .threeBlocks .zeroed (Succeeds .threeBlocks) collectedFb := by
    unfold collectedFb
    apply (Run.create threeBlocksFb_created).execAll
    decide +kernel
  exact ⟨by decide +kernel, (programs_inTurn run).1⟩

end Runs

end FlashBench
