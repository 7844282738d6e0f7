import FlashBench.CommandInvariant

/-!
# Creation

`create_ssd_info`, `create_act_blk_mngr` and `create_gc_mngr` establish the
invariant, and creation succeeds when every chip has two blocks.
-/

namespace FlashBench

open PgStatus

section Create

variable {G : Geometry} {c : ChipId}

/-- The free list of a chip after `create_ssd_info`. -/
def blocksOf (G : Geometry) (c : ChipId) : List BlockId :=
  (List.range G.numBlocksPerChip).map (BlockId.mk c)

theorem foldl_setFreeBlk (ssdi : SsdInfo) (c : ChipId) (blks : List ℕ) :
    blks.foldl (fun ssdi blk => ssdi.updChip c (·.setFreeBlk ⟨c, blk⟩)) ssdi =
      ssdi.updChip c fun chip =>
        { chip with
          freeBlks := chip.freeBlks ++ blks.map (BlockId.mk c)
          nrFreeBlocks := chip.nrFreeBlocks + blks.length } := by
  induction blks generalizing ssdi with
  | nil => simp [SsdInfo.updChip]
  | cons blk blks ih =>
      rw [List.foldl_cons, ih]
      simp [SsdInfo.updChip, FlashChip.setFreeBlk, Nat.add_assoc, Nat.add_comm 1]

theorem foldl_updChip (f : ChipId → FlashChip → FlashChip) (ssdi : SsdInfo) (chips : List ChipId)
    (nodup : chips.Nodup) :
    chips.foldl (fun ssdi c => ssdi.updChip c (f c)) ssdi =
      { ssdi with chips := fun c => if c ∈ chips then f c (ssdi.chips c) else ssdi.chips c } := by
  induction chips generalizing ssdi with
  | nil => simp
  | cons first rest ih =>
      rcases List.nodup_cons.mp nodup with ⟨notMem, restNodup⟩
      rw [List.foldl_cons, ih _ restNodup]
      simp only [SsdInfo.updChip, SsdInfo.mk.injEq, and_true]
      funext c
      by_cases same : c = first
      · subst c
        simp [notMem]
      · simp [same]

theorem create_chips (hasChip : G.HasChip c) :
    (SsdInfo.create G).chips c =
      { FlashChip.empty with
        freeBlks := blocksOf G c, nrFreeBlocks := G.numBlocksPerChip } := by
  unfold SsdInfo.create
  simp only [foldl_setFreeBlk]
  rw [foldl_updChip _ _ _ G.nodup_chipsByBus]
  simp [hasChip, FlashChip.empty, blocksOf]

theorem create_blocks : (SsdInfo.create G).blocks = fun _ => .initial G := by
  unfold SsdInfo.create
  simp only [foldl_setFreeBlk]
  rw [foldl_updChip _ _ _ G.nodup_chipsByBus]

theorem create_pages : (SsdInfo.create G).pages = fun _ _ => .initial := by
  unfold SsdInfo.create
  simp only [foldl_setFreeBlk]
  rw [foldl_updChip _ _ _ G.nodup_chipsByBus]

theorem chipOk_create (hasChip : G.HasChip c) :
    ChipOk G .rest c (fun _ => .initial G) ((SsdInfo.create G).chips c) none none := by
  have nodup : (blocksOf G c).Nodup :=
    List.nodup_range.map fun _ _ same => by simpa using same
  rw [create_chips hasChip]
  refine
    { partition :=
        { ownerCount_eq := fun b => ?_
          nrFreeBlocks_eq := by simp [blocksOf]
          nrUsedBlks_eq := rfl
          nrDirtBlks_eq := rfl }
      placeOk := fun place b mem => ?_
      activeFlag := fun b _ _ => by simp [FlashBlock.initial]
      reservedFlag := fun b _ _ => by simp [FlashBlock.initial] }
  · simp only [FlashChip.ownerCount, FlashChip.empty, Option.toList_none, List.count_nil,
      nodup.count]
    refine if_congr ?_ rfl rfl
    rcases b with ⟨chip, noBlock⟩
    simp [blocksOf, eq_comm, and_comm]
  · cases place with
    | free => rfl
    | used => simp [FlashChip.holds, FlashChip.empty] at mem
    | dirt => simp [FlashChip.holds, FlashChip.empty] at mem
    | active => simp [FlashChip.holds] at mem
    | gc => simp [FlashChip.holds] at mem

theorem inv_blank (garbage : Garbage) : Inv G .rest (Fb.blank G garbage) where
  blockOk b _ := by
    change BlockOk G 0 ((SsdInfo.create G).blocks b) ((SsdInfo.create G).pages b)
    rw [create_blocks, create_pages]
    exact .initial
  mapOk := .unmapped (fun _ => rfl) fun b pg lp => by
    change ((SsdInfo.create G).pages b pg).pageStatus lp ≠ valid
    simp [create_pages, FlashPage.initial]
  chipOk c hasChip := by
    change ChipOk G .rest c (SsdInfo.create G).blocks _ none none
    rw [create_blocks]
    exact chipOk_create hasChip
  historyOk := trivial
  programmed_eq b _ := by
    change [] = pagesBelow (G.numPagesPerBlock - ((SsdInfo.create G).blocks b).nrFreePages + 0)
    simp [create_blocks, FlashBlock.initial, pagesBelow]
  lpasOk _ := Or.inl rfl
  mruOk := by
    have := G.numBuses_pos
    have := G.numChipsPerBus_pos
    change G.HasChip ⟨G.numBuses - 1, G.numChipsPerBus - 1⟩
    exact ⟨by simp only; omega, by simp only; omega⟩
  phaseOk b isCurrent := by simp [Phase.current] at isCurrent

end Create

namespace Inv

variable {G : Geometry} {fb : Fb} {c : ChipId} {b : BlockId}

theorem free_no_valid (inv : Inv G .rest fb) (hasChip : G.HasChip c)
    (mem : b ∈ (fb.ssdi.chips c).freeBlks) : (fb.ssdi.blocks b).nrValidLogPages = 0 := by
  have hasBlock := (inv.hasBlock_of_mem hasChip .free mem).2
  have ok := inv.blockOk b hasBlock
  have fresh : (fb.ssdi.blocks b).nrFreePages = G.numPagesPerBlock :=
    (inv.chipOk c hasChip).placeOk .free b mem
  rw [ok.nrValidLogPages_eq]
  refine labelCount_eq_zero_iff.mpr ?_
  rintro ⟨pg, lp⟩ member
  have isFree := (ok.status_free pg (mem_subPages.mp member) lp).mpr (by simp [fresh])
  simp [statusAt, isFree]

end Inv

/-! ### The first active and GC blocks -/

/-- The state of the loops of creation: the chips of the list still lack a block. -/
structure Starting (G : Geometry) (garbage : Garbage) (fb : Fb) : Prop where
  inv : Inv G .rest fb
  usedBlks : ∀ c, (fb.ssdi.chips c).usedBlks = []
  dirtBlks : ∀ c, (fb.ssdi.chips c).dirtBlks = []
  counters : ∀ b, SameCounters (.initial G) (fb.ssdi.blocks b)
  pages : fb.ssdi.pages = fun _ _ => .initial
  mappings : fb.mappings = fun _ => pageUnmapped
  mru : fb.getPrevBusChip = ⟨G.numBuses - 1, G.numChipsPerBus - 1⟩
  vicBlks : fb.gcm.vicBlks = garbage.vicBlks
  firstValidPg : fb.gcm.firstValidPg = garbage.firstValidPg

namespace Starting

variable {G : Geometry} {garbage : Garbage} {fb : Fb} {c : ChipId} {b : BlockId}

theorem blank (G : Geometry) (garbage : Garbage) : Starting G garbage (Fb.blank G garbage) where
  inv := inv_blank garbage
  usedBlks c := by
    change ((SsdInfo.create G).chips c).usedBlks = []
    unfold SsdInfo.create
    simp only [foldl_setFreeBlk]
    rw [foldl_updChip _ _ _ G.nodup_chipsByBus]
    simp only
    split_ifs <;> rfl
  dirtBlks c := by
    change ((SsdInfo.create G).chips c).dirtBlks = []
    unfold SsdInfo.create
    simp only [foldl_setFreeBlk]
    rw [foldl_updChip _ _ _ G.nodup_chipsByBus]
    simp only
    split_ifs <;> rfl
  counters b := by
    change SameCounters _ ((SsdInfo.create G).blocks b)
    rw [create_blocks]
    exact .rfl
  pages := create_pages
  mappings := rfl
  mru := rfl
  vicBlks := rfl
  firstValidPg := rfl

theorem takeFree (starting : Starting G garbage fb) {other : Fb} (inv : Inv G .rest other)
    (moves : Moves b.chip fb other)
    (chip : other.ssdi.chips b.chip = (fb.ssdi.chips b.chip).resetFreeBlk b)
    (vicBlks : other.gcm.vicBlks = fb.gcm.vicBlks)
    (firstValidPg : other.gcm.firstValidPg = fb.gcm.firstValidPg) :
    Starting G garbage other where
  inv := inv
  usedBlks c := by
    by_cases same : c = b.chip
    · subst c
      rw [chip]
      exact starting.usedBlks b.chip
    · rw [(moves.otherChips c same).1]
      exact starting.usedBlks c
  dirtBlks c := by
    by_cases same : c = b.chip
    · subst c
      rw [chip]
      exact starting.dirtBlks b.chip
    · rw [(moves.otherChips c same).1]
      exact starting.dirtBlks c
  counters other := (starting.counters other).trans (moves.counters other)
  pages := moves.pages.trans starting.pages
  mappings := moves.mappings.trans starting.mappings
  mru := moves.mru.trans starting.mru
  vicBlks := vicBlks.trans starting.vicBlks
  firstValidPg := firstValidPg.trans starting.firstValidPg

theorem takeActive (starting : Starting G garbage fb) (hasChip : G.HasChip c)
    (idle : fb.abm.actBlks c = none) (head : fb.getFreeBlock c = some b) :
    Starting G garbage ((fb.resetFreeBlk b).setCurrActiveBlock c (some b)) := by
  rcases starting.inv.hasBlock_of_mem hasChip .free (mem_of_head?_eq head) with ⟨rfl, _⟩
  exact starting.takeFree (starting.inv.openFree hasChip idle head)
    ((Moves.resetFreeBlk fb b).trans (.setCurrActiveBlock_some _ b)) (Function.update_self _ _ _)
    rfl rfl

theorem takeGc (starting : Starting G garbage fb) (hasChip : G.HasChip c)
    (idle : fb.gcm.gcBlks c = none) (head : fb.getFreeBlock c = some b) :
    Starting G garbage ((fb.resetFreeBlk b).setCurrGcBlock c (some b)) := by
  have noValid := starting.inv.free_no_valid hasChip (mem_of_head?_eq head)
  rcases starting.inv.hasBlock_of_mem hasChip .free (mem_of_head?_eq head) with ⟨rfl, _⟩
  exact starting.takeFree (starting.inv.reserveFree hasChip idle head noValid)
    ((Moves.resetFreeBlk fb b).trans (.setCurrGcBlock_some _ b)) (Function.update_self _ _ _)
    rfl rfl

theorem length_freeBlks (starting : Starting G garbage fb) (hasChip : G.HasChip c) :
    (fb.ssdi.chips c).freeBlks.length + (fb.abm.actBlks c).toList.length +
      (fb.gcm.gcBlks c).toList.length = G.numBlocksPerChip := by
  have total := (starting.inv.chipOk c hasChip).partition.length_eq
  simpa [starting.usedBlks c, starting.dirtBlks c] using total

end Starting

/-- The state after `create_act_blk_mngr` and `create_gc_mngr`. -/
structure Created (G : Geometry) (garbage : Garbage) (fb : Fb) : Prop
    extends Starting G garbage fb where
  active : ∀ c, G.HasChip c → (fb.abm.actBlks c).isSome
  reserved : ∀ c, G.HasChip c → (fb.gcm.gcBlks c).isSome

section Loops

variable {G : Geometry} {garbage : Garbage} {fb : Fb}

/-- `create_act_blk_mngr`: the chips that the loop has passed have an active block. -/
theorem createActBlks_spec (G : Geometry) (garbage : Garbage) :
    Starting G garbage (forEach Fb.createActBlk G.chipsByBus (Fb.blank G garbage)).2 ∧
      (∀ c, (forEach Fb.createActBlk G.chipsByBus (Fb.blank G garbage)).2.gcm.gcBlks c = none) ∧
      ((forEach Fb.createActBlk G.chipsByBus (Fb.blank G garbage)).1 = .ok → ∀ c, G.HasChip c →
        ((forEach Fb.createActBlk G.chipsByBus (Fb.blank G garbage)).2.abm.actBlks c).isSome) ∧
      (2 ≤ G.numBlocksPerChip →
        (forEach Fb.createActBlk G.chipsByBus (Fb.blank G garbage)).1 = .ok) := by
  refine forEach_rule
    (fun rest fb => rest.Nodup ∧ Starting G garbage fb ∧ (∀ c, fb.gcm.gcBlks c = none) ∧
      (∀ c ∈ rest, G.HasChip c ∧ fb.abm.actBlks c = none) ∧
      ∀ c, G.HasChip c → c ∉ rest → (fb.abm.actBlks c).isSome)
    (fun result => Starting G garbage result.2 ∧ (∀ c, result.2.gcm.gcBlks c = none) ∧
      (result.1 = .ok → ∀ c, G.HasChip c → (result.2.abm.actBlks c).isSome) ∧
      (2 ≤ G.numBlocksPerChip → result.1 = .ok)) ?_ ?_ ?_
  · rintro c rest fb ⟨nodup, starting, noGc, waiting, done⟩
    rcases List.nodup_cons.mp nodup with ⟨notMem, restNodup⟩
    rcases waiting c (by simp) with ⟨hasChip, idle⟩
    unfold Fb.createActBlk
    rcases head : fb.getFreeBlock c with _ | b
    · refine ⟨by simp, fun _ => ⟨starting, noGc, by simp, fun enough => ?_⟩⟩
      have noFree : (fb.ssdi.chips c).freeBlks = [] := List.head?_eq_none_iff.mp head
      have total := starting.length_freeBlks hasChip
      simp [noFree, idle, noGc c] at total
      omega
    · refine ⟨fun _ => ⟨restNodup, starting.takeActive hasChip idle head, noGc, ?_, ?_⟩, by simp⟩
      · intro other mem
        have different : other ≠ c := fun same => notMem (same ▸ mem)
        rcases waiting other (by simp [mem]) with ⟨otherChip, otherIdle⟩
        exact ⟨otherChip, (Function.update_of_ne different _ _).trans otherIdle⟩
      · intro other otherChip passed
        change (Function.update fb.abm.actBlks c (some b) other).isSome
        by_cases same : other = c
        · simp [same]
        · rw [Function.update_of_ne same]
          exact done other otherChip (by simp [same, passed])
  · rintro fb ⟨_, starting, noGc, _, done⟩
    exact ⟨starting, noGc, fun _ c hasChip => done c hasChip (by simp), fun _ => rfl⟩
  · exact ⟨G.nodup_chipsByBus, .blank G garbage, fun _ => rfl,
      fun c mem => ⟨G.mem_chipsByBus.mp mem, rfl⟩,
      fun c hasChip passed => absurd (G.mem_chipsByBus.mpr hasChip) passed⟩

/-- `create_gc_mngr`: the chips that the loop has passed have a GC block. -/
theorem createGcBlks_spec (starting : Starting G garbage fb) (noGc : ∀ c, fb.gcm.gcBlks c = none)
    (active : ∀ c, G.HasChip c → (fb.abm.actBlks c).isSome) :
    ((forEach Fb.createGcBlk G.chipsByBus fb).1 = .ok →
      Created G garbage (forEach Fb.createGcBlk G.chipsByBus fb).2) ∧
      (2 ≤ G.numBlocksPerChip → (forEach Fb.createGcBlk G.chipsByBus fb).1 = .ok) := by
  refine forEach_rule
    (fun rest fb => rest.Nodup ∧ Starting G garbage fb ∧
      (∀ c, G.HasChip c → (fb.abm.actBlks c).isSome) ∧
      (∀ c ∈ rest, G.HasChip c ∧ fb.gcm.gcBlks c = none) ∧
      ∀ c, G.HasChip c → c ∉ rest → (fb.gcm.gcBlks c).isSome)
    (fun result => (result.1 = .ok → Created G garbage result.2) ∧
      (2 ≤ G.numBlocksPerChip → result.1 = .ok)) ?_ ?_ ?_
  · rintro c rest fb ⟨nodup, starting, active, waiting, done⟩
    rcases List.nodup_cons.mp nodup with ⟨notMem, restNodup⟩
    rcases waiting c (by simp) with ⟨hasChip, idle⟩
    unfold Fb.createGcBlk
    rcases head : fb.getFreeBlock c with _ | b
    · refine ⟨by simp, fun _ => ⟨by simp, fun enough => ?_⟩⟩
      have noFree : (fb.ssdi.chips c).freeBlks = [] := List.head?_eq_none_iff.mp head
      have total := starting.length_freeBlks hasChip
      rcases Option.isSome_iff_exists.mp (active c hasChip) with ⟨act, isActive⟩
      simp [noFree, idle, isActive] at total
      omega
    · refine ⟨fun _ => ⟨restNodup, starting.takeGc hasChip idle head, active, ?_, ?_⟩, by simp⟩
      · intro other mem
        have different : other ≠ c := fun same => notMem (same ▸ mem)
        rcases waiting other (by simp [mem]) with ⟨otherChip, otherIdle⟩
        exact ⟨otherChip, (Function.update_of_ne different _ _).trans otherIdle⟩
      · intro other otherChip passed
        change (Function.update fb.gcm.gcBlks c (some b) other).isSome
        by_cases same : other = c
        · simp [same]
        · rw [Function.update_of_ne same]
          exact done other otherChip (by simp [same, passed])
  · rintro fb ⟨_, starting, active, _, done⟩
    exact ⟨fun _ => { starting with
      active := active, reserved := fun c hasChip => done c hasChip (by simp) }, fun _ => rfl⟩
  · exact ⟨G.nodup_chipsByBus, starting, active, fun c mem => ⟨G.mem_chipsByBus.mp mem, noGc c⟩,
      fun c hasChip passed => absurd (G.mem_chipsByBus.mpr hasChip) passed⟩

/-- What creation leaves behind. -/
theorem Created.of_create (created : Fb.create G garbage = some fb) : Created G garbage fb := by
  rcases createActBlks_spec G garbage with ⟨starting, noGc, active, _⟩
  unfold Fb.create at created
  by_cases ok : (forEach Fb.createActBlk G.chipsByBus (Fb.blank G garbage)).1 = .ok
  · rw [andThen_of_ok ok] at created
    have spec := (createGcBlks_spec starting noGc (active ok)).1
    split at created
    · next fb' result =>
      rw [result] at spec
      simp only [Option.some.injEq] at created
      rw [← created]
      exact spec rfl
    · simp at created
  · rw [andThen_of_not_ok ok] at created
    split at created
    · next fb' result =>
      rw [result] at ok
      exact absurd rfl ok
    · simp at created

theorem Fb.create_isSome (G : Geometry) (garbage : Garbage) (enough : 2 ≤ G.numBlocksPerChip) :
    (Fb.create G garbage).isSome := by
  rcases createActBlks_spec G garbage with ⟨starting, noGc, active, succeeds⟩
  have ok := succeeds enough
  have reserved := (createGcBlks_spec starting noGc (active ok)).2 enough
  unfold Fb.create
  rw [andThen_of_ok ok]
  split
  · rfl
  · next failed =>
    rcases result : forEach Fb.createGcBlk G.chipsByBus
      (forEach Fb.createActBlk G.chipsByBus (Fb.blank G garbage)).2 with ⟨ret, fb⟩
    rw [result] at reserved
    simp only at reserved
    exact absurd result (by rw [reserved]; exact failed fb)

end Loops

/-- Memory that happens to be cleared, and an erased virtual disk. -/
def Garbage.zeroed : Garbage where
  err := false
  vicBlks := fun _ => none
  firstValidPg := fun _ => 0
  dataToCopy := fun _ => filledPage 0
  vdisk := fun _ _ _ => erasedPage

end FlashBench
