import Mathlib.Algebra.Order.BigOperators.Group.List
import FlashBench.ForegroundGc
import FlashBench.Reachable

/-!
# The read sweep of the foreground garbage collection

Once `set_vic_blks` has succeeded, one pass of the sweep reads every VALID sub-page
of every victim, the LPAs next to their data, and the pages to program fit into the
copy buffers.
-/

namespace FlashBench

open PgStatus

/-- The VALID sub-pages of one page of the victim of a chip. -/
def Fb.vicLocations (fb : Fb) (pg : ℕ) (c : ChipId) : List Location :=
  match fb.gcm.vicBlks c with
  | none => []
  | some b => (fb.ssdi.pages b pg).validSlots.map (Location.mk b pg)

/-- The VALID sub-pages of all victims, in the order of the sweep. -/
def Fb.victimLocations (G : Geometry) (fb : Fb) : List Location :=
  (List.range G.numPagesPerBlock).flatMap fun pg => G.chipsByChip.flatMap (fb.vicLocations pg)

/-- The LPA and the data of a sub-page. -/
def Fb.pairAt (fb : Fb) (l : Location) : ℕ × PageData :=
  ((fb.ssdi.pages l.block l.page).noLogicalPageAddr l.slot, fb.vdev l.block l.page l.slot)

section Locations

variable {G : Geometry} {fb : Fb} {l : Location}

theorem victimContent_eq_map (G : Geometry) (fb : Fb) :
    fb.victimContent G = (fb.victimLocations G).map fb.pairAt := by
  have one (pg : ℕ) : fb.vicContent pg = fun c => (fb.vicLocations pg c).map fb.pairAt := by
    funext c
    unfold Fb.vicContent Fb.vicLocations
    rcases fb.gcm.vicBlks c with _ | b
    · rfl
    · simp [Fb.pageContent, Fb.pairAt]
  simp only [Fb.victimContent, Fb.victimLocations, List.map_flatMap, one]

theorem mem_vicLocations {pg : ℕ} {c : ChipId} :
    l ∈ fb.vicLocations pg c ↔ fb.gcm.vicBlks c = some l.block ∧ l.page = pg ∧
      (fb.ssdi.pages l.block l.page).pageStatus l.slot = valid := by
  unfold Fb.vicLocations
  rcases victim : fb.gcm.vicBlks c with _ | b
  · simp
  · simp only [List.mem_map, FlashPage.validSlots, List.mem_filter, List.mem_finRange, true_and,
      decide_eq_true_eq, Option.some.injEq]
    constructor
    · rintro ⟨lp, isValid, rfl⟩
      exact ⟨rfl, rfl, isValid⟩
    · rintro ⟨rfl, rfl, isValid⟩
      exact ⟨l.slot, isValid, rfl⟩

theorem mem_victimLocations :
    l ∈ fb.victimLocations G ↔ (∃ c, G.HasChip c ∧ fb.gcm.vicBlks c = some l.block) ∧
      l.page < G.numPagesPerBlock ∧
      (fb.ssdi.pages l.block l.page).pageStatus l.slot = valid := by
  simp only [Fb.victimLocations, List.mem_flatMap, List.mem_range, G.mem_chipsByChip,
    mem_vicLocations]
  constructor
  · rintro ⟨pg, pg_lt, c, hasChip, victim, rfl, isValid⟩
    exact ⟨⟨c, hasChip, victim⟩, pg_lt, isValid⟩
  · rintro ⟨⟨c, hasChip, victim⟩, pg_lt, isValid⟩
    exact ⟨l.page, pg_lt, c, hasChip, victim, rfl, isValid⟩

theorem nodup_victimLocations (inv : Inv G .rest fb) (victims : VictimsUsed G fb) :
    (fb.victimLocations G).Nodup := by
  apply List.nodup_flatMap.mpr
  refine ⟨fun pg _ => List.nodup_flatMap.mpr ⟨fun c _ => ?_, ?_⟩, ?_⟩
  · unfold Fb.vicLocations
    rcases fb.gcm.vicBlks c with _ | b
    · exact List.nodup_nil
    · apply List.Nodup.map
      · intro left right same
        simpa using same
      · exact (List.nodup_finRange _).filter _
  · apply List.Pairwise.imp_of_mem ?_ G.nodup_chipsByChip
    intro left right leftMem rightMem different l inLeft inRight
    have leftVictim := (mem_vicLocations.mp inLeft).1
    have rightVictim := (mem_vicLocations.mp inRight).1
    have leftChip := G.mem_chipsByChip.mp leftMem
    have rightChip := G.mem_chipsByChip.mp rightMem
    have leftOwn := inv.hasBlock_of_mem leftChip .used (victims left leftChip _ leftVictim)
    have rightOwn := inv.hasBlock_of_mem rightChip .used (victims right rightChip _ rightVictim)
    exact different (leftOwn.1.symm.trans rightOwn.1)
  · apply List.Pairwise.imp ?_ List.nodup_range
    intro left right different l inLeft inRight
    rcases List.mem_flatMap.mp inLeft with ⟨_, _, leftMem⟩
    rcases List.mem_flatMap.mp inRight with ⟨_, _, rightMem⟩
    exact different ((mem_vicLocations.mp leftMem).2.1.symm.trans (mem_vicLocations.mp rightMem).2.1)

theorem nodup_victimLpas (inv : Inv G .rest fb) (victims : VictimsUsed G fb) :
    ((fb.victimContent G).map Prod.fst).Nodup := by
  rw [victimContent_eq_map, List.map_map]
  refine List.Nodup.map_on (fun left leftMem right rightMem same => ?_)
    (nodup_victimLocations inv victims)
  have leftValid := (mem_victimLocations.mp leftMem).2.2
  have rightValid := (mem_victimLocations.mp rightMem).2.2
  have forward (l : Location) (isValid : (fb.ssdi.pages l.block l.page).pageStatus l.slot = valid) :
      l2p G fb.mappings (fb.pairAt l).1 = some l :=
    (inv.mapOk.inverse _ l).mpr
      (p2l_eq_some.mpr ⟨inv.mapOk.hasLocation l isValid, isValid, rfl⟩)
  have leftForward := forward left leftValid
  rw [show (fb.pairAt left).1 = (fb.pairAt right).1 from same, forward right rightValid,
    Option.some.injEq] at leftForward
  exact leftForward.symm

theorem length_victimContent_le (inv : Inv G .rest fb) (victims : VictimsUsed G fb) :
    (fb.victimContent G).length ≤ G.numChips * (G.numPagesPerBlock * nrLpInPp) := by
  have one (c : ChipId) (mem : c ∈ G.chipsByBus) :
      fb.vicSize c ≤ G.numPagesPerBlock * nrLpInPp := by
    have hasChip := G.mem_chipsByBus.mp mem
    unfold Fb.vicSize
    rcases victim : fb.gcm.vicBlks c with _ | b
    · exact Nat.zero_le _
    · have hasBlock := (inv.hasBlock_of_mem hasChip .used (victims c hasChip b victim)).2
      simp only [(inv.blockOk b hasBlock).nrValidLogPages_eq]
      calc nrSubPages G (fb.ssdi.pages b) valid ≤ (subPages G).card := labelCount_le_card _ _ _
        _ = G.numPagesPerBlock * nrLpInPp := by simp [subPages]
  rw [length_victimContent inv victims]
  calc (G.chipsByBus.map fb.vicSize).sum
      ≤ (G.chipsByBus.map fun _ => G.numPagesPerBlock * nrLpInPp).sum := List.sum_le_sum one
    _ = G.numChips * (G.numPagesPerBlock * nrLpInPp) := by
      rw [List.map_const']
      simp [length_chipsByBus]

theorem CopiesRead.complete {after : Fb} {c : ChipId} {b : BlockId} {pg : ℕ} {lp : Slot}
    (read : CopiesRead fb after (fb.victimContent G)) (hasChip : G.HasChip c)
    (victim : fb.gcm.vicBlks c = some b) (pg_lt : pg < G.numPagesPerBlock)
    (isValid : (fb.ssdi.pages b pg).pageStatus lp = valid) :
    ∃ i < after.gcm.nrPgsToCopy,
      after.gcm.lpasToCopy i = (fb.ssdi.pages b pg).noLogicalPageAddr lp := by
  have mem : (⟨b, pg, lp⟩ : Location) ∈ fb.victimLocations G :=
    mem_victimLocations.mpr ⟨⟨c, hasChip, victim⟩, pg_lt, isValid⟩
  have pairMem := List.mem_map_of_mem (f := fb.pairAt) mem
  rw [← victimContent_eq_map] at pairMem
  exact read.exists_of_mem pairMem

end Locations

section Sweep

variable {G : Geometry} {garbage : Garbage} {fb picked : Fb}

/-- The state in which `set_vic_blks` returns 0 inside `trigger_gc_page_mapping`. -/
def VictimsSet (G : Geometry) (fb picked : Fb) : Prop :=
  ∃ prepared, fb.initGcm.prepareActBlks G = (.ok, prepared) ∧ prepared.setVicBlks G = (.ok, picked)

/-- What one sweep has to deliver. -/
structure SweepExact (G : Geometry) (picked : Fb) : Prop where
  returns : (picked.getValidPgsInVicBlks G).1 = .ok
  /-- The loop condition of the outer loop is false after at most one pass. -/
  onePass : (picked.getValidPgsInVicBlks G).2 =
    if 0 < picked.gcm.nrPgsToCopy then (Fb.sweepOnce G ⟨picked, 0, 0, 0⟩).fb else picked
  appended : 0 < picked.gcm.nrPgsToCopy →
    (Fb.sweepOnce G ⟨picked, 0, 0, 0⟩).nrReadPgs = picked.gcm.nrPgsToCopy ∧
    (Fb.sweepOnce G ⟨picked, 0, 0, 0⟩).ptrLpa = picked.gcm.nrPgsToCopy ∧
    (Fb.sweepOnce G ⟨picked, 0, 0, 0⟩).ptrData = picked.gcm.nrPgsToCopy
  distinct : ∀ i < picked.gcm.nrPgsToCopy, ∀ j < picked.gcm.nrPgsToCopy,
    (picked.getValidPgsInVicBlks G).2.gcm.lpasToCopy i =
      (picked.getValidPgsInVicBlks G).2.gcm.lpasToCopy j → i = j
  /-- The entries are the VALID sub-pages of the victims, each LPA with its data. -/
  entries : ∀ i < picked.gcm.nrPgsToCopy, ∃ l : Location,
    (∃ c, G.HasChip c ∧ picked.gcm.vicBlks c = some l.block) ∧ l.page < G.numPagesPerBlock ∧
    (picked.ssdi.pages l.block l.page).pageStatus l.slot = valid ∧
    (picked.getValidPgsInVicBlks G).2.gcm.lpasToCopy i =
      (picked.ssdi.pages l.block l.page).noLogicalPageAddr l.slot ∧
    (picked.getValidPgsInVicBlks G).2.gcm.dataToCopy i = picked.vdev l.block l.page l.slot
  complete : ∀ c, G.HasChip c → ∀ b, picked.gcm.vicBlks c = some b →
    ∀ pg < G.numPagesPerBlock, ∀ lp, (picked.ssdi.pages b pg).pageStatus lp = valid →
      ∃ i < picked.gcm.nrPgsToCopy, (picked.getValidPgsInVicBlks G).2.gcm.lpasToCopy i =
        (picked.ssdi.pages b pg).noLogicalPageAddr lp
  fits : (picked.gcm.nrPgsToCopy + (nrLpInPp - 1)) / nrLpInPp * nrLpInPp ≤
    G.numChips * G.numPagesPerBlock * nrLpInPp

/-- Whenever `set_vic_blks` has succeeded, the read sweep is exact and ends after one pass. -/
theorem sweepExact_of_reachable (reachable : Reachable G garbage fb)
    (victimsSet : VictimsSet G fb picked) : SweepExact G picked := by
  rcases victimsSet with ⟨prepared, preparing, picking⟩
  have preparedInv : Inv G .rest prepared := by
    have inv := reachable.inv.initGcm.prepareActBlks
    rwa [preparing] at inv
  have zero : prepared.gcm.nrPgsToCopy = 0 := by
    have count := prepareActBlks_nrPgsToCopy (G := G) fb.initGcm
    rw [preparing] at count
    exact count
  have victims := setVicBlks_ok preparedInv zero (by rw [picking])
  have inv := preparedInv.setVicBlks
  rw [picking] at victims inv
  simp only at victims inv
  have used := victims.victimsUsed
  have total := victims.nrPgsToCopy
  rcases getValidPgsInVicBlks_spec inv used total with ⟨returns, read⟩
  rw [← length_victimContent inv used] at total
  have pass := (collected_start picked).sweepOnce inv used
  rw [List.nil_append] at pass
  have fits := length_victimContent_le inv used
  have once : Fb.sweepLoop G picked.gcm.nrPgsToCopy ⟨picked, 0, 0, 0⟩ =
      (.ok, if 0 < picked.gcm.nrPgsToCopy then Fb.sweepOnce G ⟨picked, 0, 0, 0⟩
        else ⟨picked, 0, 0, 0⟩) := by
    rcases toCopy : picked.gcm.nrPgsToCopy with _ | passes
    · simp [Fb.sweepLoop, toCopy]
    · have done : ¬(Fb.sweepOnce G ⟨picked, 0, 0, 0⟩).nrReadPgs <
          (Fb.sweepOnce G ⟨picked, 0, 0, 0⟩).fb.gcm.nrPgsToCopy := by
        rw [pass.nrReadPgs, sweepOnce_nrPgsToCopy]
        exact total.le.not_gt
      rcases passes with _ | passes <;> simp [Fb.sweepLoop, toCopy, done]
  exact
    { returns := returns
      onePass := by
        rw [Fb.getValidPgsInVicBlks, once]
        split_ifs <;> rfl
      appended := fun _ => ⟨pass.nrReadPgs.trans total.symm, pass.ptrLpa.trans total.symm,
        pass.ptrData.trans total.symm⟩
      distinct := by
        intro i i_lt j j_lt same
        rw [total] at i_lt j_lt
        rw [read.lpas i (by simpa using i_lt), read.lpas j (by simpa using j_lt)] at same
        exact (nodup_victimLpas inv used).getElem_inj_iff.mp same
      entries := by
        intro i i_lt
        have mem := read.get (read.nrPgsToCopy ▸ total ▸ i_lt)
        rw [victimContent_eq_map] at mem
        rcases List.mem_map.mp mem with ⟨l, l_mem, pair_eq⟩
        rcases mem_victimLocations.mp l_mem with ⟨victim, page_lt, isValid⟩
        exact ⟨l, victim, page_lt, isValid, (congrArg Prod.fst pair_eq).symm,
          (congrArg Prod.snd pair_eq).symm⟩
      complete := by
        intro c hasChip b victim pg pg_lt lp isValid
        rcases read.complete hasChip victim pg_lt isValid with ⟨i, i_lt, entry⟩
        rw [read.nrPgsToCopy, ← total] at i_lt
        exact ⟨i, i_lt, entry⟩
      fits := by
        rw [total]
        generalize (picked.victimContent G).length = size at fits
        simp only [nrLpInPp, ← Nat.mul_assoc] at fits ⊢
        omega }

/-- The state in which `set_vic_blks` has chosen the first block of each chip. -/
@[irreducible]
def pickedFb : Fb :=
  ((filledFb.initGcm.prepareActBlks .threeBlocks).2.setVicBlks .threeBlocks).2

/-- The sweep reads the two VALID sub-pages of each victim. -/
theorem sweepExact_pickedFb :
    (pickedFb.gcm.vicBlks ⟨0, 0⟩ = some ⟨⟨0, 0⟩, 0⟩ ∧
      pickedFb.gcm.vicBlks ⟨0, 1⟩ = some ⟨⟨0, 1⟩, 0⟩ ∧ pickedFb.gcm.nrPgsToCopy = 4) ∧
    (List.range 4).map (pickedFb.getValidPgsInVicBlks .threeBlocks).2.gcm.lpasToCopy =
      [2, 3, 6, 7] ∧
    SweepExact .threeBlocks pickedFb := by
  have prepared : (filledFb.initGcm.prepareActBlks .threeBlocks).1 = .ok := by decide +kernel
  have picked : ((filledFb.initGcm.prepareActBlks .threeBlocks).2.setVicBlks
      .threeBlocks).1 = .ok := by decide +kernel
  have victimsSet : VictimsSet .threeBlocks filledFb pickedFb := by
    unfold pickedFb
    exact ⟨_, Prod.ext prepared rfl, Prod.ext picked rfl⟩
  refine ⟨by decide +kernel, by decide +kernel, ?_⟩
  exact sweepExact_of_reachable filledFb_reachable victimsSet

end Sweep

end FlashBench
