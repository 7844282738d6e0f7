import Mathlib.Data.Fin.VecNotation
import FlashBench.BlockLife
import FlashBench.Striping

/-!
# The background garbage collection

Background GC remembers the victim of a chip and the page it has reached from one call
to the next. A victim may have been erased and reused by then. The sub-pages of a FREE
page are counted as pages to copy, since they are not INVALID, but they are not read,
since they are not VALID. As long as no victim is at such a page, background GC copies
what the flash holds, and the host sees no change.
-/

namespace FlashBench

open PgStatus

/-- The page that background GC would go on with in a remembered victim. -/
def Fb.resumedPg (G : Geometry) (fb : Fb) (c : ChipId) (b : BlockId) : ℕ :=
  fb.findFirstValidPg G b (fb.getFirstValidPg c)

/-- The chip has so few erased and dirt blocks that background GC looks for a victim. -/
def Fb.NeedsVictim (fb : Fb) (c : ChipId) : Prop :=
  (fb.ssdi.chips c).nrDirtBlks + (fb.ssdi.chips c).nrFreeBlocks < bgcThNrBlks

instance (fb : Fb) (c : ChipId) : Decidable (fb.NeedsVictim c) := inferInstanceAs (Decidable (_ < _))

/-- The page that background GC would read in a new victim of the chip. -/
def Fb.freshTarget (G : Geometry) (fb : Fb) (c : ChipId) : Option (BlockId × ℕ) :=
  (fb.selectVicBlkFromUsed c).map fun b => (b, fb.findFirstValidPg G b 0)

/-- The page that background GC would read on the chip: the next one of the remembered victim,
or one of a new victim when there is none or it is used up. -/
def Fb.bgcTarget (G : Geometry) (fb : Fb) (c : ChipId) : Option (BlockId × ℕ) :=
  if fb.NeedsVictim c then
    match fb.getVicBlk c with
    | some b =>
        if fb.resumedPg G c b = G.numPagesPerBlock then fb.freshTarget G c
        else some (b, fb.resumedPg G c b)
    | none => fb.freshTarget G c
  else none

/-- A page of the chip that has been programmed. -/
structure Collectable (G : Geometry) (fb : Fb) (c : ChipId) (b : BlockId) (pg : ℕ) : Prop where
  own : b.chip = c
  hasBlock : G.HasBlock b
  pg_lt : pg < G.numPagesPerBlock
  full : (fb.ssdi.pages b pg).Full

instance (G : Geometry) (fb : Fb) (c : ChipId) (b : BlockId) (pg : ℕ) :
    Decidable (Collectable G fb c b pg) :=
  decidable_of_iff (b.chip = c ∧ G.HasBlock b ∧ pg < G.numPagesPerBlock ∧ (fb.ssdi.pages b pg).Full)
    ⟨fun ⟨own, hasBlock, pg_lt, full⟩ => ⟨own, hasBlock, pg_lt, full⟩,
      fun ⟨own, hasBlock, pg_lt, full⟩ => ⟨own, hasBlock, pg_lt, full⟩⟩

/-- Background GC would not read a FREE page: it only opens blocks, or it gives up for want of
a victim, or all pages to read have been programmed. -/
def TargetsProgrammed (G : Geometry) (fb : Fb) : Prop :=
  (fb.getCurrActiveBlock fb.getPrevBusChip).isSome →
    (∃ c, G.HasChip c ∧ fb.NeedsVictim c ∧ fb.bgcTarget G c = none) ∨
      ∀ c, G.HasChip c → ∀ b pg, fb.bgcTarget G c = some (b, pg) → Collectable G fb c b pg

instance (G : Geometry) (fb : Fb) : Decidable (TargetsProgrammed G fb) :=
  decidable_of_iff
    ((fb.getCurrActiveBlock fb.getPrevBusChip).isSome →
      (∃ c ∈ G.chipsByBus, fb.NeedsVictim c ∧ fb.bgcTarget G c = none) ∨
        ∀ c ∈ G.chipsByBus, ∀ target ∈ fb.bgcTarget G c, Collectable G fb c target.1 target.2)
    (by simp only [TargetsProgrammed, G.mem_chipsByBus, Option.mem_def, Prod.forall])

/-- The state in which `trigger_bg_gc` has read the pages to copy. -/
def Fb.bgcRead (G : Geometry) (fb : Fb) : Ret × Fb :=
  andThen ((fb.initGcm).bgcSetVicBlks G) fun fb => fb.bgcReadValidPgs G

/-- One call of `trigger_bg_gc` changes nothing for the host. -/
structure BgcKeepsContent (G : Geometry) (fb : Fb) : Prop where
  flashData_eq : (fb.triggerBgGc G).2.flashData G = fb.flashData G
  /-- The pairs that are programmed are those of VALID sub-pages read in the same call. -/
  copiesValid : (fb.getCurrActiveBlock fb.getPrevBusChip).isSome → (fb.bgcRead G).1 = .ok →
    ∀ i < (fb.bgcRead G).2.gcm.nrPgsToCopy, ∃ c b, ∃ lp : Slot, G.HasChip c ∧
      (fb.bgcRead G).2.getVicBlk c = some b ∧
      (fb.ssdi.pages b ((fb.bgcRead G).2.getFirstValidPg c)).pageStatus lp = valid ∧
      l2p G fb.mappings ((fb.bgcRead G).2.gcm.lpasToCopy i) =
        some ⟨b, (fb.bgcRead G).2.getFirstValidPg c, lp⟩ ∧
      (fb.bgcRead G).2.gcm.dataToCopy i = fb.vdev b ((fb.bgcRead G).2.getFirstValidPg c) lp

/-! ### The choice of victims -/

section Victims

variable {G : Geometry} {start fb other : Fb} {b : BlockId} {c : ChipId} {pg : ℕ}

theorem nrInvalidLogPages_findFirstValidPg {startPg : ℕ}
    (inside : fb.findFirstValidPg G b startPg < G.numPagesPerBlock) :
    (fb.ssdi.pages b (fb.findFirstValidPg G b startPg)).nrInvalidLogPages < nrLpInPp := by
  unfold Fb.findFirstValidPg at inside ⊢
  rcases found : (List.range' startPg (G.numPagesPerBlock - startPg)).find? fun pg =>
    (fb.ssdi.pages b pg).nrInvalidLogPages < nrLpInPp with _ | pg
  · rw [found, Option.getD_none] at inside
    omega
  · simpa using List.find?_some found

/-- Only the victim of one chip has changed. -/
structure PickedAt (c : ChipId) (fb other : Fb) : Prop where
  scratchOnly : ScratchOnly fb other
  vicBlks : ∀ other' ≠ c, other.gcm.vicBlks other' = fb.gcm.vicBlks other'
  firstValidPg : ∀ other' ≠ c, other.gcm.firstValidPg other' = fb.gcm.firstValidPg other'
  nrPgsToCopy : other.gcm.nrPgsToCopy = fb.gcm.nrPgsToCopy

namespace PickedAt

theorem refl (c : ChipId) (fb : Fb) : PickedAt c fb fb where
  scratchOnly := .refl fb
  vicBlks _ _ := rfl
  firstValidPg _ _ := rfl
  nrPgsToCopy := rfl

theorem trans {third : Fb} (first : PickedAt c fb other) (second : PickedAt c other third) :
    PickedAt c fb third where
  scratchOnly := first.scratchOnly.trans second.scratchOnly
  vicBlks other' different :=
    (second.vicBlks other' different).trans (first.vicBlks other' different)
  firstValidPg other' different :=
    (second.firstValidPg other' different).trans (first.firstValidPg other' different)
  nrPgsToCopy := second.nrPgsToCopy.trans first.nrPgsToCopy

theorem setVicBlk (fb : Fb) (c : ChipId) (blki : Option BlockId) :
    PickedAt c fb (fb.setVicBlk c blki) where
  scratchOnly := ⟨rfl, rfl⟩
  vicBlks _ different := Function.update_of_ne different _ _
  firstValidPg _ _ := rfl
  nrPgsToCopy := rfl

theorem setFirstValidPg (fb : Fb) (c : ChipId) (pg : ℕ) :
    PickedAt c fb (fb.setFirstValidPg c pg) where
  scratchOnly := ⟨rfl, rfl⟩
  vicBlks _ _ := rfl
  firstValidPg _ different := Function.update_of_ne different _ _
  nrPgsToCopy := rfl

theorem bgcFindNewVicBlk (fb : Fb) (c : ChipId) : PickedAt c fb (fb.bgcFindNewVicBlk G c).2 := by
  unfold Fb.bgcFindNewVicBlk
  rcases fb.selectVicBlkFromUsed c with _ | b
  · exact refl c fb
  · exact (setVicBlk fb c _).trans (setFirstValidPg _ c _)

theorem bgcSetVicBlk (fb : Fb) (c : ChipId) : PickedAt c fb (fb.bgcSetVicBlk G c).2 := by
  unfold Fb.bgcSetVicBlk
  simp only
  split_ifs
  · rcases fb.getVicBlk c with _ | b
    · exact bgcFindNewVicBlk fb c
    · simp only
      split_ifs
      · exact ((setFirstValidPg fb c _).trans (setVicBlk _ c _)).trans (bgcFindNewVicBlk _ c)
      · exact setFirstValidPg fb c _
  · exact (setVicBlk fb c _).trans (setFirstValidPg _ c _)

end PickedAt

theorem selectVicBlkFromUsed_congr (ssdi : other.ssdi = fb.ssdi) (c : ChipId) :
    other.selectVicBlkFromUsed c = fb.selectVicBlkFromUsed c := by
  unfold Fb.selectVicBlkFromUsed
  rw [ssdi]
  exact mostInvalidBlk_congr (fun b _ => by rw [ssdi]) none 0

theorem findFirstValidPg_congr (ssdi : other.ssdi = fb.ssdi) (b : BlockId) (startPg : ℕ) :
    other.findFirstValidPg G b startPg = fb.findFirstValidPg G b startPg := by
  simp only [Fb.findFirstValidPg, ssdi]

theorem resumedPg_congr (ssdi : other.ssdi = fb.ssdi)
    (page : other.gcm.firstValidPg c = fb.gcm.firstValidPg c) (b : BlockId) :
    other.resumedPg G c b = fb.resumedPg G c b := by
  unfold Fb.resumedPg Fb.getFirstValidPg
  rw [findFirstValidPg_congr ssdi, page]

theorem needsVictim_congr (ssdi : other.ssdi = fb.ssdi) (c : ChipId) :
    other.NeedsVictim c ↔ fb.NeedsVictim c := by
  unfold Fb.NeedsVictim
  rw [ssdi]

theorem freshTarget_congr (ssdi : other.ssdi = fb.ssdi) (c : ChipId) :
    other.freshTarget G c = fb.freshTarget G c := by
  unfold Fb.freshTarget
  rw [selectVicBlkFromUsed_congr ssdi]
  simp only [findFirstValidPg_congr ssdi]

theorem bgcTarget_congr (ssdi : other.ssdi = fb.ssdi)
    (victims : other.gcm.vicBlks c = fb.gcm.vicBlks c)
    (page : other.gcm.firstValidPg c = fb.gcm.firstValidPg c) :
    other.bgcTarget G c = fb.bgcTarget G c := by
  have needs : other.NeedsVictim c ↔ fb.NeedsVictim c := needsVictim_congr ssdi c
  have sameVictim : other.getVicBlk c = fb.getVicBlk c := victims
  unfold Fb.bgcTarget
  rw [sameVictim, freshTarget_congr ssdi]
  simp only [resumedPg_congr ssdi page, needs]

/-- The page that the victim of the chip is at. -/
def Fb.pickedPg (fb : Fb) (c : ChipId) : Option (BlockId × ℕ) :=
  (fb.gcm.vicBlks c).map fun b => (b, fb.gcm.firstValidPg c)

theorem bgcFindNewVicBlk_target (fb : Fb) (c : ChipId) :
    ((fb.bgcFindNewVicBlk G c).1 = .ok ↔ (fb.freshTarget G c).isSome) ∧
      ((fb.bgcFindNewVicBlk G c).1 = .ok →
        (fb.bgcFindNewVicBlk G c).2.pickedPg c = fb.freshTarget G c) := by
  unfold Fb.bgcFindNewVicBlk Fb.freshTarget
  rcases fb.selectVicBlkFromUsed c with _ | b
  · simp
  · have page : (fb.setVicBlk c (some b)).findFirstValidPg G b 0 = fb.findFirstValidPg G b 0 :=
      findFirstValidPg_congr rfl b 0
    simp only [Option.map_some, Option.isSome_some, true_and, forall_const]
    rw [page]
    simp [Fb.pickedPg, Fb.setFirstValidPg, Fb.setVicBlk]

/-- One iteration of `fb_bgc_set_vic_blks` ends at the page of `bgcTarget`, if there is one. -/
theorem bgcSetVicBlk_target (fb : Fb) (c : ChipId) :
    ((fb.bgcSetVicBlk G c).1 = .ok ↔ (fb.NeedsVictim c → (fb.bgcTarget G c).isSome)) ∧
      ((fb.bgcSetVicBlk G c).1 = .ok →
        (fb.bgcSetVicBlk G c).2.pickedPg c = fb.bgcTarget G c) := by
  have resumed (b : BlockId) :
      (fb.setFirstValidPg c (fb.findFirstValidPg G b (fb.getFirstValidPg c))).getFirstValidPg c =
        fb.resumedPg G c b := Function.update_self _ _ _
  have few : fb.NeedsVictim c ↔
      (fb.ssdi.chips c).nrDirtBlks + (fb.ssdi.chips c).nrFreeBlocks < bgcThNrBlks := Iff.rfl
  unfold Fb.bgcSetVicBlk Fb.bgcTarget
  simp only [few, resumed]
  split_ifs with needs
  · simp only [needs, true_imp_iff]
    rcases victim : fb.getVicBlk c with _ | b
    · exact bgcFindNewVicBlk_target fb c
    · simp only
      split_ifs with usedUp
      · have same : ((fb.setFirstValidPg c (fb.findFirstValidPg G b (fb.getFirstValidPg
            c))).setVicBlk c none).freshTarget G c = fb.freshTarget G c := by
          apply freshTarget_congr
          rfl
        rw [← same]
        exact bgcFindNewVicBlk_target _ c
      · have isVictim : fb.gcm.vicBlks c = some b := victim
        simp [Fb.pickedPg, Fb.setFirstValidPg, isVictim, Fb.resumedPg]
  · refine ⟨iff_of_true rfl fun yes => absurd yes needs, fun _ => ?_⟩
    simp [Fb.pickedPg, Fb.setVicBlk, Fb.setFirstValidPg]

/-- The choice of victims for the chips that `fb_bgc_set_vic_blks` has passed; the other chips
are as they were. -/
structure BgcPicked (G : Geometry) (start fb : Fb) (rest : List ChipId) : Prop where
  scratchOnly : ScratchOnly start fb
  nrPgsToCopy : fb.gcm.nrPgsToCopy = start.gcm.nrPgsToCopy
  vicBlks : ∀ c ∈ rest, fb.gcm.vicBlks c = start.gcm.vicBlks c
  firstValidPg : ∀ c ∈ rest, fb.gcm.firstValidPg c = start.gcm.firstValidPg c
  picked : ∀ c, G.HasChip c → c ∉ rest → fb.pickedPg c = start.bgcTarget G c

theorem BgcPicked.bgcTarget_eq {rest : List ChipId} (picked : BgcPicked G start fb rest)
    (mem : c ∈ rest) : fb.bgcTarget G c = start.bgcTarget G c :=
  bgcTarget_congr picked.scratchOnly.ssdi (picked.vicBlks c mem) (picked.firstValidPg c mem)

theorem BgcPicked.next {rest : List ChipId} (picked : BgcPicked G start fb (c :: rest))
    (nodup : (c :: rest).Nodup) (ok : (fb.bgcSetVicBlk G c).1 = .ok) :
    BgcPicked G start (fb.bgcSetVicBlk G c).2 rest := by
  have at_ := PickedAt.bgcSetVicBlk (G := G) fb c
  have different (other : ChipId) (mem : other ∈ rest) : other ≠ c := by
    rintro rfl
    exact (List.nodup_cons.mp nodup).1 mem
  constructor
  · exact picked.scratchOnly.trans at_.scratchOnly
  · exact at_.nrPgsToCopy.trans picked.nrPgsToCopy
  · intro other mem
    rw [at_.vicBlks other (different other mem)]
    exact picked.vicBlks other (by simp [mem])
  · intro other mem
    rw [at_.firstValidPg other (different other mem)]
    exact picked.firstValidPg other (by simp [mem])
  · intro other hasChip notMem
    by_cases same : other = c
    · subst other
      rw [(bgcSetVicBlk_target fb c).2 ok]
      exact picked.bgcTarget_eq (by simp)
    · rw [← picked.picked other hasChip (by simp [same, notMem]), Fb.pickedPg,
        at_.vicBlks other same, at_.firstValidPg other same]
      rfl

/-- `fb_bgc_set_vic_blks` succeeds when every chip that needs a victim has one, and then the
victims are at the pages of `bgcTarget`. -/
theorem bgcSetVicBlks_spec (fb : Fb) :
    ((fb.bgcSetVicBlks G).1 = .ok → BgcPicked G fb (fb.bgcSetVicBlks G).2 []) ∧
      ((fb.bgcSetVicBlks G).1 ≠ .ok →
        ∃ c, G.HasChip c ∧ fb.NeedsVictim c ∧ fb.bgcTarget G c = none) ∧
      ((fb.bgcSetVicBlks G).1 = .ok →
        ∀ c, G.HasChip c → fb.NeedsVictim c → (fb.bgcTarget G c).isSome) := by
  refine forEach_rule
    (fun rest other => rest.Nodup ∧ (∀ c ∈ rest, G.HasChip c) ∧ BgcPicked G fb other rest ∧
      ∀ c, G.HasChip c → c ∉ rest → fb.NeedsVictim c → (fb.bgcTarget G c).isSome)
    (fun result => (result.1 = .ok → BgcPicked G fb result.2 []) ∧
      (result.1 ≠ .ok → ∃ c, G.HasChip c ∧ fb.NeedsVictim c ∧ fb.bgcTarget G c = none) ∧
      (result.1 = .ok → ∀ c, G.HasChip c → fb.NeedsVictim c → (fb.bgcTarget G c).isSome)) ?_ ?_ ?_
  · rintro c rest other ⟨nodup, chips, picked, passed⟩
    have hasChip := chips c (by simp)
    have target := picked.bgcTarget_eq (c := c) (by simp)
    have needs := needsVictim_congr picked.scratchOnly.ssdi c
    have okIff := (bgcSetVicBlk_target (G := G) other c).1
    rw [target, needs] at okIff
    constructor
    · intro ok
      refine ⟨(List.nodup_cons.mp nodup).2, fun c' mem => chips c' (by simp [mem]),
        picked.next nodup ok, fun c' hasChip' notMem => ?_⟩
      by_cases same : c' = c
      · subst c'
        exact okIff.mp ok
      · exact passed c' hasChip' (by simp [same, notMem])
    · intro notOk
      refine ⟨fun ok => absurd ok notOk, fun _ => ?_, fun ok => absurd ok notOk⟩
      have lacks := mt okIff.mpr notOk
      rw [Classical.not_imp, Option.not_isSome_iff_eq_none] at lacks
      exact ⟨c, hasChip, lacks⟩
  · rintro other ⟨_, _, picked, passed⟩
    exact ⟨fun _ => picked, fun notOk => absurd rfl notOk,
      fun _ c hasChip => passed c hasChip (by simp)⟩
  · refine ⟨G.nodup_chipsByBus, fun c mem => G.mem_chipsByBus.mp mem, ?_, ?_⟩
    · exact ⟨.refl fb, rfl, fun _ _ => rfl, fun _ _ => rfl,
        fun c hasChip notMem => absurd (G.mem_chipsByBus.mpr hasChip) notMem⟩
    · exact fun c hasChip notMem => absurd (G.mem_chipsByBus.mpr hasChip) notMem

theorem nrInvalidLogPages_bgcTarget (target : fb.bgcTarget G c = some (b, pg))
    (pg_lt : pg < G.numPagesPerBlock) : (fb.ssdi.pages b pg).nrInvalidLogPages < nrLpInPp := by
  have fresh (target : fb.freshTarget G c = some (b, pg)) :
      (fb.ssdi.pages b pg).nrInvalidLogPages < nrLpInPp := by
    rcases found : fb.selectVicBlkFromUsed c with _ | new
    · simp [Fb.freshTarget, found] at target
    · simp only [Fb.freshTarget, found, Option.map_some, Option.some.injEq, Prod.mk.injEq] at target
      rcases target with ⟨rfl, rfl⟩
      exact nrInvalidLogPages_findFirstValidPg pg_lt
  unfold Fb.bgcTarget at target
  split_ifs at target
  split at target
  · split_ifs at target
    · exact fresh target
    · simp only [Option.some.injEq, Prod.mk.injEq] at target
      rcases target with ⟨rfl, rfl⟩
      exact nrInvalidLogPages_findFirstValidPg pg_lt
  · exact fresh target

end Victims

/-! ### The pages that are read -/

section Reads

variable {G : Geometry} {start fb : Fb} {c : ChipId} {pairs : List (ℕ × PageData)}
  {sweep : Fb.Sweep}

/-- The page that the victim of the chip is at has been programmed and is not all INVALID. -/
def PickedReadable (G : Geometry) (fb : Fb) (c : ChipId) : Prop :=
  ∀ b pg, fb.pickedPg c = some (b, pg) →
    Collectable G fb c b pg ∧ (fb.ssdi.pages b pg).nrInvalidLogPages < nrLpInPp

/-- The content of the page that the victim of a chip is at. -/
def Fb.pickedContent (fb : Fb) (c : ChipId) : List (ℕ × PageData) :=
  match fb.pickedPg c with
  | none => []
  | some (b, pg) => fb.pageContent b pg

/-- What `fb_bgc_read_valid_pgs` has read so far. -/
structure BgcCollected (start : Fb) (pairs : List (ℕ × PageData)) (sweep : Fb.Sweep) : Prop where
  collected : Collected start pairs sweep
  nrPgsToCopy : sweep.fb.gcm.nrPgsToCopy = pairs.length

theorem Collected.congr {other : Fb.Sweep} (collected : Collected start pairs sweep)
    (fb : SameFlash sweep.fb other.fb) (vicBlks : other.fb.gcm.vicBlks = sweep.fb.gcm.vicBlks)
    (firstValidPg : other.fb.gcm.firstValidPg = sweep.fb.gcm.firstValidPg)
    (lpas : other.fb.gcm.lpasToCopy = sweep.fb.gcm.lpasToCopy)
    (data : other.fb.gcm.dataToCopy = sweep.fb.gcm.dataToCopy)
    (nrReadPgs : other.nrReadPgs = sweep.nrReadPgs) (ptrLpa : other.ptrLpa = sweep.ptrLpa)
    (ptrData : other.ptrData = sweep.ptrData) : Collected start pairs other where
  sameFlash := collected.sameFlash.trans fb
  vicBlks := vicBlks.trans collected.vicBlks
  firstValidPg := firstValidPg.trans collected.firstValidPg
  nrReadPgs := nrReadPgs.trans collected.nrReadPgs
  ptrLpa := ptrLpa.trans collected.ptrLpa
  ptrData := ptrData.trans collected.ptrData
  lpas := by rw [lpas]; exact collected.lpas
  data := by rw [data]; exact collected.data

theorem BgcCollected.next (inv : Inv G .rest start) (readable : PickedReadable G start c)
    (read : BgcCollected start pairs sweep) :
    (Fb.bgcReadValidPgOf c sweep).1 = .ok ∧
      BgcCollected start (pairs ++ start.pickedContent c) (Fb.bgcReadValidPgOf c sweep).2 := by
  have collected := read.collected
  have sameVictim : sweep.fb.getVicBlk c = start.gcm.vicBlks c := congrFun collected.vicBlks c
  have samePg : sweep.fb.getFirstValidPg c = start.gcm.firstValidPg c :=
    congrFun collected.firstValidPg c
  unfold Fb.bgcReadValidPgOf Fb.pickedContent Fb.pickedPg
  rcases victim : start.gcm.vicBlks c with _ | b
  · simp only [sameVictim, victim, Option.map_none, List.append_nil, true_and]
    exact ⟨collected.congr ⟨rfl, rfl, rfl⟩ rfl rfl rfl rfl rfl rfl rfl, read.nrPgsToCopy⟩
  have isPicked : start.pickedPg c = some (b, start.gcm.firstValidPg c) := by
    rw [Fb.pickedPg, victim]
    rfl
  rcases readable b _ isPicked with ⟨⟨rfl, hasBlock, pg_lt, full⟩, alive⟩
  have counted := (inv.blockOk b hasBlock).page_invalid _ pg_lt
  have toRead := full.nrPgsToRead counted
  simp only [sameVictim, victim, samePg, Option.map_some]
  generalize start.gcm.firstValidPg b.chip = pg at alive counted toRead full ⊢
  have sameCount : (sweep.fb.ssdi.pages b pg).nrInvalidLogPages =
      (start.ssdi.pages b pg).nrInvalidLogPages := by
    rw [collected.sameFlash.ssdi]
  rw [if_neg (by omega)]
  refine ⟨rfl, ?_, ?_⟩
  · have same : Collected start pairs { sweep with fb := { sweep.fb with
        gcm.nrPgsToCopy := sweep.fb.gcm.nrPgsToCopy +
          (nrLpInPp - (sweep.fb.ssdi.pages b pg).nrInvalidLogPages) } } :=
      collected.congr ⟨rfl, rfl, rfl⟩ rfl rfl rfl rfl rfl rfl rfl
    exact (same.readVicPage full counted).congr ⟨rfl, rfl, rfl⟩ rfl rfl rfl rfl rfl rfl rfl
  · change sweep.fb.gcm.nrPgsToCopy + (nrLpInPp - _) = _
    rw [read.nrPgsToCopy, sameCount, toRead, List.length_append]
    simp [Fb.pageContent]

/-- The content of the victim pages, in the order in which they are read. -/
def Fb.bgcContent (G : Geometry) (fb : Fb) : List (ℕ × PageData) :=
  (G.chipsAfter fb.getPrevBusChip G.numChips).flatMap fb.pickedContent

theorem bgcReadValidPgs_spec (inv : Inv G .rest fb) (zero : fb.gcm.nrPgsToCopy = 0)
    (readable : ∀ c, G.HasChip c → PickedReadable G fb c) :
    (fb.bgcReadValidPgs G).1 = .ok ∧ CopiesRead fb (fb.bgcReadValidPgs G).2 (fb.bgcContent G) ∧
      (fb.bgcReadValidPgs G).2.gcm.vicBlks = fb.gcm.vicBlks ∧
      (fb.bgcReadValidPgs G).2.gcm.firstValidPg = fb.gcm.firstValidPg := by
  rw [bgcReadValidPgs_eq]
  have loop := @forEach_succeeds ChipId Fb.Sweep Fb.bgcReadValidPgOf
    (fun rest sweep => ∃ passed, passed ++ rest = G.chipsAfter fb.getPrevBusChip G.numChips ∧
      BgcCollected fb (passed.flatMap fb.pickedContent) sweep)
    (fun c rest sweep => ?_) (G.chipsAfter fb.getPrevBusChip G.numChips)
    ⟨fb, 0, 0, 0⟩ ⟨[], rfl, collected_start fb, zero⟩
  · rcases loop with ⟨ok, passed, all, read⟩
    rw [List.append_nil] at all
    subst all
    exact ⟨ok, ⟨read.collected.sameFlash, read.nrPgsToCopy, read.collected.lpas,
      read.collected.data⟩, read.collected.vicBlks, read.collected.firstValidPg⟩
  · rintro ⟨passed, all, read⟩
    have hasChip : G.HasChip c := by
      apply G.hasChip_of_mem_chipsAfter inv.mruOk
      rw [← all]
      simp
    rcases read.next inv (readable c hasChip) with ⟨ok, next⟩
    refine ⟨ok, passed ++ [c], by simp [all], ?_⟩
    simpa using next

end Reads

/-! ### Opening blocks -/

section Opening

variable {G : Geometry} {fb : Fb} {b : BlockId} {c : ChipId}

/-- The GC block of a chip is erased and becomes its active block or a free block. -/
def Fb.recycleGcBlk (G : Geometry) (fb : Fb) (b : BlockId) : Fb :=
  let fb := fb.eraseBlk G b.chip b
  let fb :=
    if (fb.getCurrActiveBlock b.chip).isNone then fb.setCurrActiveBlock b.chip (some b)
    else fb.setFreeBlk b
  fb.setCurrGcBlock b.chip none

/-- `fb_bgc_prepare_act_blks` recycles the GC block of a chip and looks for a dirt block to
replace it. -/
theorem bgcPrepareActBlkOf_eq (reserved : fb.gcm.gcBlks b.chip = some b) :
    fb.bgcPrepareActBlkOf G b.chip =
      (.ok, ((fb.recycleGcBlk G b).updateGcBlk b.chip).2.setPrevBusChip b.chip) := by
  unfold Fb.bgcPrepareActBlkOf Fb.recycleGcBlk Fb.getCurrGcBlock
  simp only [reserved, Prod.mk.injEq, true_and]
  generalize (if ((fb.eraseBlk G b.chip b).getCurrActiveBlock b.chip).isNone = true then
    (fb.eraseBlk G b.chip b).setCurrActiveBlock b.chip (some b)
    else (fb.eraseBlk G b.chip b).setFreeBlk b) = moved
  have empty : (moved.setCurrGcBlock b.chip none).getCurrGcBlock b.chip = none :=
    Function.update_self _ _ _
  have sameHead : (moved.setCurrGcBlock b.chip none).getDirtBlock b.chip =
      moved.getDirtBlock b.chip := rfl
  unfold Fb.updateGcBlk
  rw [empty, sameHead]
  rcases moved.getDirtBlock b.chip with _ | dirt
  · simp only
    split_ifs <;> rfl
  · simp only
    rw [Fb.setCurrGcBlock_overwrite]

theorem Inv.recycleGcBlk (inv : Inv G .rest fb) (hasChip : G.HasChip b.chip)
    (reserved : fb.gcm.gcBlks b.chip = some b) : Inv G .rest (fb.recycleGcBlk G b) := by
  unfold Fb.recycleGcBlk
  simp only
  split_ifs with idle
  · exact inv.eraseToActive hasChip (Option.isNone_iff_eq_none.mp idle) reserved
  · exact inv.eraseToFree hasChip reserved

theorem flashData_recycleGcBlk (inv : Inv G .rest fb) (hasChip : G.HasChip b.chip)
    (reserved : fb.gcm.gcBlks b.chip = some b) :
    (fb.recycleGcBlk G b).flashData G = fb.flashData G := by
  rw [← flashData_eraseBlk inv hasChip reserved]
  unfold Fb.recycleGcBlk
  simp only
  split_ifs
  · exact flashData_congr rfl rfl
  · exact flashData_congr rfl rfl

theorem flashData_bgcPrepareActBlkOf (inv : Inv G .rest fb) (hasChip : G.HasChip c) :
    (fb.bgcPrepareActBlkOf G c).2.flashData G = fb.flashData G := by
  rcases reserved : fb.gcm.gcBlks c with _ | b
  · simp [Fb.bgcPrepareActBlkOf, Fb.getCurrGcBlock, reserved]
  rcases inv.of_gc hasChip reserved with ⟨rfl, _⟩
  rw [bgcPrepareActBlkOf_eq reserved]
  calc (((fb.recycleGcBlk G b).updateGcBlk b.chip).2.setPrevBusChip b.chip).flashData G
      = ((fb.recycleGcBlk G b).updateGcBlk b.chip).2.flashData G := flashData_congr rfl rfl
    _ = (fb.recycleGcBlk G b).flashData G := flashData_updateGcBlk _ _
    _ = fb.flashData G := flashData_recycleGcBlk inv hasChip reserved

/-- `fb_bgc_prepare_act_blks` changes nothing for the host, whether it succeeds or fails. -/
theorem flashData_bgcPrepareActBlks (inv : Inv G .rest fb) :
    (fb.bgcPrepareActBlks G).2.flashData G = fb.flashData G :=
  forEach_keeps (fun _ _ _ inv => ⟨inv.bgcPrepareActBlk,
    flashData_bgcPrepareActBlkOf inv (hasChip_getNextBusChip inv.mruOk)⟩) inv

end Opening

/-! ### The whole collection -/

section Collection

variable {G : Geometry} {garbage : Garbage} {fb picked : Fb}

theorem flashData_of_mem_bgcContent (inv : Inv G .rest fb) {pair : ℕ × PageData}
    (mem : pair ∈ fb.bgcContent G) : fb.flashData G pair.1 = some pair.2 := by
  simp only [Fb.bgcContent, Fb.pickedContent, List.mem_flatMap] at mem
  rcases mem with ⟨c, _, mem⟩
  split at mem
  · simp at mem
  · exact flashData_of_mem_pageContent inv mem

/-- The choice of victims for a state whose targets have been programmed. -/
theorem BgcPicked.readable (chosen : BgcPicked G fb.initGcm picked [])
    (programmed : ∀ c, G.HasChip c → ∀ b pg, fb.bgcTarget G c = some (b, pg) →
      Collectable G fb c b pg) {c : ChipId} (hasChip : G.HasChip c) : PickedReadable G picked c := by
  intro b pg isPicked
  have target : fb.bgcTarget G c = some (b, pg) := by
    have same : fb.initGcm.bgcTarget G c = fb.bgcTarget G c := bgcTarget_congr rfl rfl rfl
    rw [← same, ← chosen.picked c hasChip (by simp)]
    exact isPicked
  rcases programmed c hasChip b pg target with ⟨own, hasBlock, pg_lt, full⟩
  have ssdi : picked.ssdi = fb.ssdi := chosen.scratchOnly.ssdi
  refine ⟨⟨own, hasBlock, pg_lt, ?_⟩, ?_⟩
  · rw [ssdi]
    exact full
  · rw [ssdi]
    exact nrInvalidLogPages_bgcTarget target pg_lt

theorem bgcReadValidPgs_slots (fb : Fb) :
    (fb.bgcReadValidPgs G).2.abm.actBlks = fb.abm.actBlks ∧
      (fb.bgcReadValidPgs G).2.gcm.gcBlks = fb.gcm.gcBlks := by
  refine forEach_preserves (fun sweep : Fb.Sweep => sweep.fb.abm.actBlks = fb.abm.actBlks ∧
    sweep.fb.gcm.gcBlks = fb.gcm.gcBlks) (fun _ _ sweep same => ?_) ⟨rfl, rfl⟩
  rw [← same.1, ← same.2]
  unfold Fb.bgcReadValidPg Fb.bgcReadValidPgOf
  rcases victim : sweep.fb.getVicBlk (sweep.fb.getNextBusChip G) with _ | b
  · simp only [victim]
    exact ⟨rfl, rfl⟩
  · simp only [victim]
    split_ifs
    · exact ⟨rfl, rfl⟩
    · exact ⟨rfl, rfl⟩

/-- The states in which `trigger_bg_gc` has chosen the victims and has read their pages. -/
structure BgcReadDone (G : Geometry) (fb picked read : Fb) : Prop where
  chosen : BgcPicked G fb.initGcm picked []
  pickedInv : Inv G .rest picked
  readInv : Inv G .rest read
  copiesRead : CopiesRead picked read (picked.bgcContent G)
  vicBlks : read.gcm.vicBlks = picked.gcm.vicBlks
  firstValidPg : read.gcm.firstValidPg = picked.gcm.firstValidPg
  actBlks : read.abm.actBlks = fb.abm.actBlks
  gcBlks : read.gcm.gcBlks = fb.gcm.gcBlks
  position : read.getPrevBusChip = fb.getPrevBusChip
  bgcRead_eq : fb.bgcRead G = (.ok, read)
  bgcCopy_eq : fb.bgcCopy G =
    if read.gcm.nrPgsToCopy = 0 then (.ok, read)
    else andThen (read.progValidPgsToGcBlks G) fun fb => fb.updateGcBlks G

/-- `trigger_bg_gc` gives up for want of a victim, or it comes to the copying. -/
theorem TargetsProgrammed.bgcRead (programmed : TargetsProgrammed G fb) (inv : Inv G .rest fb)
    (active : (fb.getCurrActiveBlock fb.getPrevBusChip).isSome) :
    ((fb.bgcRead G).1 ≠ .ok ∧ ScratchOnly fb (fb.bgcCopy G).2 ∧
      ∃ c, G.HasChip c ∧ fb.NeedsVictim c ∧ fb.bgcTarget G c = none) ∨
      ∃ picked read, BgcReadDone G fb picked read := by
  have scratch : ScratchOnly fb (fb.initGcm.bgcSetVicBlks G).2 :=
    (ScratchOnly.initGcm fb).trans (.bgcSetVicBlks fb.initGcm)
  have target (c : ChipId) : fb.initGcm.bgcTarget G c = fb.bgcTarget G c :=
    bgcTarget_congr rfl rfl rfl
  have spec := bgcSetVicBlks_spec (G := G) fb.initGcm
  have pickedInv := inv.initGcm.bgcSetVicBlks
  by_cases ok : (fb.initGcm.bgcSetVicBlks G).1 = .ok
  · right
    have chosen := spec.1 ok
    have readable (c : ChipId) (hasChip : G.HasChip c) :
        PickedReadable G (fb.initGcm.bgcSetVicBlks G).2 c := by
      rcases programmed active with ⟨c', hasChip', needs, lacks⟩ | programmed
      · have some_ := spec.2.2 ok c' hasChip' needs
        rw [target, lacks] at some_
        simp at some_
      · exact chosen.readable programmed hasChip
    rcases bgcReadValidPgs_spec pickedInv chosen.nrPgsToCopy readable with
      ⟨readOk, read, vicBlks, firstValidPg⟩
    have slots := bgcReadValidPgs_slots (G := G) (fb.initGcm.bgcSetVicBlks G).2
    have position := bgcReadValidPgs_position pickedInv.mruOk readOk
    refine ⟨_, _, chosen, pickedInv, pickedInv.bgcReadValidPgs, read, vicBlks, firstValidPg,
      ?_, ?_, ?_, ?_, ?_⟩
    · rw [slots.1, scratch.abm]
    · rw [slots.2, scratch.gcBlks]
    · rw [position, Fb.getPrevBusChip, Fb.getPrevBusChip, scratch.abm]
    · rw [Fb.bgcRead, andThen_of_ok ok]
      exact Prod.ext readOk rfl
    · rw [Fb.bgcCopy, andThen_of_ok ok, andThen_of_ok readOk]
  · left
    rw [Fb.bgcRead, Fb.bgcCopy, andThen_of_not_ok ok, andThen_of_not_ok ok]
    refine ⟨ok, scratch, ?_⟩
    rcases spec.2.1 ok with ⟨c, hasChip, needs, lacks⟩
    exact ⟨c, hasChip, needs, (target c).symm.trans lacks⟩

theorem BgcReadDone.copiesMatch {read : Fb} (done : BgcReadDone G fb picked read) :
    CopiesMatch G read :=
  done.copiesRead.copiesMatch fun _ mem => flashData_of_mem_bgcContent done.pickedInv mem

theorem BgcReadDone.sameFlash {read : Fb} (done : BgcReadDone G fb picked read) :
    SameFlash fb read :=
  ((ScratchOnly.initGcm fb).trans done.chosen.scratchOnly).sameFlash.trans done.copiesRead.sameFlash

/-- The part of `trigger_bg_gc` that copies changes nothing for the host. -/
theorem flashData_bgcCopy (inv : Inv G .rest fb) (programmed : TargetsProgrammed G fb)
    (active : (fb.getCurrActiveBlock fb.getPrevBusChip).isSome) :
    (fb.bgcCopy G).2.flashData G = fb.flashData G := by
  rcases programmed.bgcRead inv active with ⟨_, scratch, _⟩ | ⟨picked, read, done⟩
  · exact scratch.flashData_eq
  · have copying := Copying.progValidPgsToGcBlks done.readInv done.copiesMatch
    rw [done.bgcCopy_eq, ← done.sameFlash.flashData_eq]
    split_ifs
    · rfl
    · exact andThen_rule (fun result : Ret × Fb => result.2.flashData G = read.flashData G)
        (fun _ => copying.flashData_eq)
        fun _ => (flashData_updateGcBlks copying.inv).trans copying.flashData_eq

/-- The pairs to be programmed are those of VALID sub-pages of the victims. -/
theorem BgcReadDone.copiesValid {read : Fb} (done : BgcReadDone G fb picked read)
    (inv : Inv G .rest fb) {i : ℕ} (inside : i < read.gcm.nrPgsToCopy) :
    ∃ c b, ∃ lp : Slot, G.HasChip c ∧ read.getVicBlk c = some b ∧
      (fb.ssdi.pages b (read.getFirstValidPg c)).pageStatus lp = valid ∧
      l2p G fb.mappings (read.gcm.lpasToCopy i) = some ⟨b, read.getFirstValidPg c, lp⟩ ∧
      read.gcm.dataToCopy i = fb.vdev b (read.getFirstValidPg c) lp := by
  have scratch : ScratchOnly fb.initGcm picked := done.chosen.scratchOnly
  have mem := done.copiesRead.get inside
  simp only [Fb.bgcContent, List.mem_flatMap] at mem
  rcases mem with ⟨c, c_mem, mem⟩
  have hasChip := G.hasChip_of_mem_chipsAfter done.pickedInv.mruOk c_mem
  unfold Fb.pickedContent Fb.pickedPg at mem
  rcases victim : picked.gcm.vicBlks c with _ | b
  · simp [victim] at mem
  simp only [victim, Option.map_some, Fb.pageContent, List.mem_map, FlashPage.validSlots,
    List.mem_filter, decide_eq_true_eq, Prod.mk.injEq] at mem
  rcases mem with ⟨lp, ⟨_, isValid⟩, lpa_eq, data_eq⟩
  have ssdi : picked.ssdi = fb.ssdi := scratch.ssdi
  have vdev : picked.vdev = fb.vdev := scratch.vdev
  rw [ssdi] at isValid lpa_eq
  rw [vdev] at data_eq
  have samePg : read.getFirstValidPg c = picked.gcm.firstValidPg c := congrFun done.firstValidPg c
  refine ⟨c, b, lp, hasChip, (congrFun done.vicBlks c).trans victim, ?_⟩
  rw [samePg, ← lpa_eq]
  refine ⟨isValid, ?_, data_eq.symm⟩
  apply (inv.mapOk.inverse _ _).mpr
  exact p2l_eq_some.mpr ⟨inv.mapOk.hasLocation ⟨b, _, lp⟩ isValid, isValid, rfl⟩

/-- `trigger_bg_gc` changes nothing for the host, whether it succeeds or fails. -/
theorem flashData_triggerBgGc (inv : Inv G .rest fb) (programmed : TargetsProgrammed G fb) :
    (fb.triggerBgGc G).2.flashData G = fb.flashData G := by
  unfold Fb.triggerBgGc
  split_ifs with idle
  · exact flashData_bgcPrepareActBlks inv
  · apply flashData_bgcCopy inv programmed
    rw [Option.isSome_iff_ne_none]
    simpa using idle

theorem Inv.bgcKeepsContent (inv : Inv G .rest fb) (programmed : TargetsProgrammed G fb) :
    BgcKeepsContent G fb where
  flashData_eq := flashData_triggerBgGc inv programmed
  copiesValid active ok i inside := by
    rcases programmed.bgcRead inv active with ⟨notOk, _⟩ | ⟨picked, read, done⟩
    · exact absurd ok notOk
    · rw [done.bgcRead_eq] at inside ⊢
      exact done.copiesValid inv inside

end Collection

/-! ### Runs -/

section Runs

variable {G : Geometry} {garbage : Garbage} {fb : Fb}

/-- In every state of every run, background GC that would not read a FREE page changes nothing
for the host. -/
theorem bgcKeepsContent_of_reachable (reachable : Reachable G garbage fb)
    (programmed : TargetsProgrammed G fb) : BgcKeepsContent G fb :=
  reachable.inv.bgcKeepsContent programmed

/-- One chip with four blocks of one page each. -/
def Geometry.fourBlocks : Geometry := .ofSizes 1 1 4 1 (by decide)

/-- The device with four blocks after its creation. -/
def fourBlocksFb : Fb :=
  (Fb.create .fourBlocks .zeroed).get (Fb.create_isSome .fourBlocks .zeroed (by decide))

theorem fourBlocksFb_created : Fb.create .fourBlocks .zeroed = some fourBlocksFb :=
  (Option.some_get _).symm

/-- Block 0 is filled, and LPA 0 is written once more. -/
def overwriteFirst : List Command :=
  [.write ![0, 1, 2, 3] fun _ => filledPage 0, .invalidate [0],
    .write ![0, 4, 5, 6] fun _ => filledPage 1]

/-- Block 0 becomes a victim, it is copied and erased, and it becomes the active block. -/
def reuseVictim : List Command :=
  overwriteFirst ++ [.backgroundGc, .backgroundGc, .write ![7, 8, 9, 10] fun _ => filledPage 2,
    .backgroundGc, .invalidate [1]]

/-- The first background GC, which copies the rest of block 0. -/
theorem bgcKeepsContent_overwriteFirst :
    BgcKeepsContent .fourBlocks (Command.execAll .fourBlocks fourBlocksFb overwriteFirst) := by
  have reachable : Reachable .fourBlocks .zeroed
      (Command.execAll .fourBlocks fourBlocksFb overwriteFirst) := by
    apply (Reachable.create fourBlocksFb_created).execAll
    decide
  apply bgcKeepsContent_of_reachable reachable
  intro _
  right
  rintro ⟨bus, chip⟩ ⟨bus_lt, chip_lt⟩ b pg target
  obtain rfl : bus = 0 := Nat.lt_one_iff.mp bus_lt
  obtain rfl : chip = 0 := Nat.lt_one_iff.mp chip_lt
  have first : (Command.execAll .fourBlocks fourBlocksFb overwriteFirst).bgcTarget .fourBlocks
      ⟨0, 0⟩ = some (⟨⟨0, 0⟩, 0⟩, 0) := by decide +kernel
  rw [first, Option.some.injEq, Prod.mk.injEq] at target
  rcases target with ⟨rfl, rfl⟩
  have full : ∀ lp, ((Command.execAll .fourBlocks fourBlocksFb overwriteFirst).ssdi.pages
      ⟨⟨0, 0⟩, 0⟩ 0).pageStatus lp ≠ free := by decide +kernel
  exact ⟨rfl, by decide, by decide, full⟩

/-- LPA 1 is discarded, and background GC maps it again: it goes on with the FREE page of
block 0 and programs what an earlier collection left in `lpas_to_copy`. -/
theorem not_bgcKeepsContent :
    ¬∀ (G : Geometry) (garbage : Garbage) (fb : Fb), Reachable G garbage fb →
      BgcKeepsContent G fb := by
  intro keeps
  have reachable : Reachable .fourBlocks .zeroed
      (Command.execAll .fourBlocks fourBlocksFb reuseVictim) := by
    apply (Reachable.create fourBlocksFb_created).execAll
    decide
  have kept := congrFun (keeps _ _ _ reachable).flashData_eq 1
  have before : ((Command.execAll .fourBlocks fourBlocksFb reuseVictim).flashData .fourBlocks
      1).isSome = false := by decide +kernel
  have after : (((Command.execAll .fourBlocks fourBlocksFb reuseVictim).triggerBgGc
      .fourBlocks).2.flashData .fourBlocks 1).isSome = true := by decide +kernel
  rw [kept, before] at after
  simp at after

end Runs

end FlashBench
