import FlashBench.Lifetime

/-!
# What the module leaves behind

Which blocks are left when an allocation of `fb_init` is refused, and which ones `fb_exit`
does not release.

The error exits of the bus controllers stop at the first null and are sound. Those of
`create_ssd_info` and `create_pg_ftl` test the fields of all blocks, so they are defined
only when the field that failed is the last one to be written. No error exit calls
`perf_exit`, so the name under `/proc` stays on all of them.
-/

namespace FlashBench

open Ledger

/-- The chip that a block belongs to. -/
def ModuleObject.chip : ModuleObject → Option ChipId
  | .oprQueue c | .oprList c | .listBlocks c => some c
  | .listPages b => some b.chip
  | _ => none

/-- The bus that a block belongs to. -/
def ModuleObject.bus : ModuleObject → Option ℕ
  | .busController bus | .oprQueues bus | .chipBusies bus | .listChips bus => some bus
  | .oprQueue c | .oprList c | .listBlocks c => some c.bus
  | .listPages b => some b.chip.bus
  | _ => none

namespace Lifetime

variable {g : Geometry} {grants : ModuleObject → Bool} {kernel : Kernel}
  {owner : Option ModuleObject}

/-! ### The bus controllers -/

/-- The blocks of an operation queue. -/
def oprQueueObjects (c : ChipId) : List ModuleObject := [.oprQueue c, .oprList c]

/-- The blocks of a bus controller. -/
def busControllerObjects (g : Geometry) (bus : ℕ) : List ModuleObject :=
  .busController bus :: .oprQueues bus ::
    ((chips g bus).flatMap oprQueueObjects ++ [.chipBusies bus])

/-- The blocks of all bus controllers. -/
def busControllersObjects (g : Geometry) : List ModuleObject :=
  .busControllers :: (buses g).flatMap (busControllerObjects g)

theorem bus_of_chips {c : ChipId} {bus : ℕ} (mem : c ∈ chips g bus) : c.bus = bus := by
  simp only [chips, List.mem_map] at mem
  rcases mem with ⟨_, _, rfl⟩
  rfl

theorem nodup_chips (bus : ℕ) : (chips g bus).Nodup :=
  List.nodup_range.map fun _ _ same => by simpa using same

theorem mem_oprQueues {bus : ℕ} {obj : ModuleObject} :
    obj ∈ (chips g bus).flatMap oprQueueObjects ↔
      ∃ c ∈ chips g bus, obj = .oprQueue c ∨ obj = .oprList c := by
  simp [oprQueueObjects]

theorem nodup_oprQueues (bus : ℕ) : ((chips g bus).flatMap oprQueueObjects).Nodup := by
  have key (c : ChipId) (_ : c ∈ chips g bus) (obj : ModuleObject) (mem : obj ∈ oprQueueObjects c) :
      obj.chip = some c := by
    simp only [oprQueueObjects, List.mem_cons, List.not_mem_nil, or_false] at mem
    rcases mem with rfl | rfl <;> rfl
  exact nodup_of_keys (nodup_chips bus) (fun c _ => by simp [oprQueueObjects]) key

theorem mem_busControllerObjects {bus : ℕ} {obj : ModuleObject} :
    obj ∈ busControllerObjects g bus ↔ obj = .busController bus ∨ obj = .oprQueues bus ∨
      (∃ c ∈ chips g bus, obj = .oprQueue c ∨ obj = .oprList c) ∨ obj = .chipBusies bus := by
  simp [busControllerObjects, oprQueueObjects]

theorem bus_of_busControllerObjects {bus : ℕ} {obj : ModuleObject}
    (mem : obj ∈ busControllerObjects g bus) : obj.bus = some bus := by
  rw [mem_busControllerObjects] at mem
  rcases mem with rfl | rfl | ⟨c, inBus, rfl | rfl⟩ | rfl
  · rfl
  · rfl
  · exact congrArg some (bus_of_chips inBus)
  · exact congrArg some (bus_of_chips inBus)
  · rfl

theorem nodup_busControllers : ((buses g).flatMap (busControllerObjects g)).Nodup := by
  refine nodup_of_keys List.nodup_range (fun bus _ => ?_) fun bus _ obj =>
    bus_of_busControllerObjects
  simp only [busControllerObjects, List.nodup_cons, List.nodup_append, nodup_oprQueues]
  grind [mem_oprQueues]

theorem createOprQueue_creates (c : ChipId) :
    CreatesItem grants (oprQueueObjects c) (createOprQueue grants c) := by
  have second : Creates grants [ModuleObject.oprQueue c] [.oprList c] (fun _ => some [])
      (orGoto (ask grants (.oprList c)) (freeIfSet none (.oprQueue c) some) created) :=
    .orClean (.one _) (.one _) .created (by simp) (by simp)
  exact .orClean (.one _) (.nothing []) second (by simp) (by simp)

theorem destroyOprQueue_frees (c : ChipId) :
    Frees owner (oprQueueObjects c) [] (destroyOprQueue owner c) :=
  .node (.one _)

theorem freeOprQueues_frees (bus : ℕ) :
    Frees (some (.busController bus)) (.oprQueues bus :: (chips g bus).flatMap oprQueueObjects) []
      (freeOprQueues g bus) :=
  .node (.untilNull (fun c _ => destroyOprQueue_frees c) fun c _ => by simp [oprQueueObjects])

theorem createOprQueueFail_frees (bus : ℕ) :
    Frees none (.busController bus :: .oprQueues bus :: (chips g bus).flatMap oprQueueObjects) []
      (createOprQueueFail g bus) :=
  .fallThrough (freeOprQueues_frees bus) (.one _) (by simp)

/-- The error exit after an operation queue could not be created. -/
theorem createOprQueueFail_stopped {bus : ℕ} {memory : Memory} {rest : List ModuleObject}
    {done later : List ChipId} {c : ChipId} (split : chips g bus = done ++ c :: later)
    (holds : memory.Holds
      ([.busController bus, .oprQueues bus] ++ done.flatMap oprQueueObjects) rest)
    (null : memory.pointers (.oprQueue c) = .null) :
    Returns (createOprQueueFail g bus memory) (Released memory rest) := by
  have array : memory.Holds (.oprQueues bus :: done.flatMap oprQueueObjects)
      (.busController bus :: rest) := holds.tail
  have first : Returns (freeOprQueues g bus memory)
      (Released memory (.busController bus :: rest)) := by
    rw [freeOprQueues, split]
    exact freeIfSet_stopped (fun c _ => destroyOprQueue_frees c)
      (fun c _ => by simp [oprQueueObjects]) null array (by simp)
  refine Frees.andThen (.one (ModuleObject.busController bus)) (fun block mem => ?_) first
  rw [List.mem_singleton.mp mem]
  exact holds.pointers _ (by simp)

theorem createBusController_creates (bus : ℕ) :
    CreatesItem grants (busControllerObjects g bus) (createBusController g grants bus) := by
  have queues : Creates grants [ModuleObject.busController bus, .oprQueues bus]
      ((chips g bus).flatMap oprQueueObjects ++ [.chipBusies bus]) (fun _ => some [])
      (orGoto (createEach .oprQueue (createOprQueue grants) (chips g bus))
        (createOprQueueFail g bus)
        (orGoto (ask grants (.chipBusies bus)) (createOprQueueFail g bus) created)) := by
    have busies : Creates grants
        (.busController bus :: .oprQueues bus :: (chips g bus).flatMap oprQueueObjects)
        [.chipBusies bus] (fun _ => some [])
        (orGoto (ask grants (.chipBusies bus)) (createOprQueueFail g bus) created) :=
      .orClean (.one _) (createOprQueueFail_frees bus) .created (by grind [mem_oprQueues]) (by simp)
    have array := Creates.array (fun c _ => createOprQueue_creates c)
      (fun c _ => by simp [oprQueueObjects]) (nodup_oprQueues bus) createOprQueueFail_stopped busies
      (by grind [mem_oprQueues]) (by grind [mem_oprQueues])
    exact array.congr (by simp)
  have pointers := Creates.orClean (.one (ModuleObject.oprQueues bus)) (.one _) queues (by simp)
    (by grind [mem_oprQueues])
  exact .orClean (.one _) (.nothing []) pointers (by simp) (by grind [mem_oprQueues])

theorem destroyBusController_frees (bus : ℕ) :
    Frees owner (busControllerObjects g bus) [] (destroyBusController g owner bus) := by
  have busies : Frees (some (ModuleObject.busController bus)) [.chipBusies bus] []
      (freeIfSet (some (.busController bus)) (.chipBusies bus) some) := .one _
  have fields := busies.seq (freeOprQueues_frees (g := g) bus)
  exact .node (fields.perm List.perm_append_comm)

theorem mem_busControllers {obj : ModuleObject} :
    obj ∈ (buses g).flatMap (busControllerObjects g) ↔
      ∃ bus ∈ buses g, obj = .busController bus ∨ obj = .oprQueues bus ∨
        (∃ c ∈ chips g bus, obj = .oprQueue c ∨ obj = .oprList c) ∨ obj = .chipBusies bus := by
  simp [mem_busControllerObjects]

theorem busControllerInit_creates :
    CreatesItem grants (busControllersObjects g) (busControllerInit g grants) := by
  have controllers : Creates grants [ModuleObject.busControllers]
      ((buses g).flatMap (busControllerObjects g) ++ []) (fun _ => some [])
      (orGoto (createEach .busController (createBusController g grants) (buses g))
        (freeIfSet none .busControllers (releaseUntilNull (some .busControllers) .busController
          (destroyBusController g (some .busControllers)) (buses g))) created) := by
    refine (Creates.array (fun bus _ => createBusController_creates bus)
      (fun bus _ => by simp [busControllerObjects]) nodup_busControllers ?_ .created
      (by grind [mem_busControllers]) (by simp)).congr (by simp)
    intro memory rest done later bus split holds null
    rw [split]
    exact freeIfSet_stopped (fun bus _ => destroyBusController_frees bus)
      (fun bus _ => by simp [busControllerObjects]) null holds (by simp)
  rw [List.append_nil] at controllers
  exact .orClean (.one _) (.nothing []) controllers (by simp) (by grind [mem_busControllers])

theorem busControllerDestroy_frees :
    Frees owner (busControllersObjects g) [] (busControllerDestroy g owner) :=
  .node (.each fun bus _ => destroyBusController_frees bus)

/-! ### The virtual device -/

/-- The virtual disks of all buses. -/
def vdisks (g : Geometry) : List ModuleObject := (buses g).map .vdisk

/-- The blocks of the virtual device. -/
def vdeviceObjects (g : Geometry) : List ModuleObject :=
  .vdevice :: (vdisks g ++ busControllersObjects g)

/-- What `create_vdevice` leaves behind when this block is refused. -/
def vdeviceLeft (g : Geometry) : ModuleObject → List ModuleObject
  | .vdevice => []
  | .vdisk bus => (List.range bus).map .vdisk
  | _ => vdisks g

theorem nodup_vdisks : (vdisks g).Nodup :=
  List.nodup_range.map fun _ _ same => by simpa using same

theorem mem_vdisks {obj : ModuleObject} : obj ∈ vdisks g ↔ ∃ bus ∈ buses g, obj = .vdisk bus := by
  simp [vdisks, eq_comm]

theorem mem_busControllersObjects {obj : ModuleObject} :
    obj ∈ busControllersObjects g ↔ obj = .busControllers ∨
      ∃ bus ∈ buses g, obj = .busController bus ∨ obj = .oprQueues bus ∨
        (∃ c ∈ chips g bus, obj = .oprQueue c ∨ obj = .oprList c) ∨ obj = .chipBusies bus := by
  rw [busControllersObjects, List.mem_cons, mem_busControllers]

theorem takeWhile_vdisks {bus : ℕ} (mem : bus ∈ buses g) :
    (vdisks g).takeWhile (fun other => other ≠ .vdisk bus) = (List.range bus).map .vdisk := by
  have total : g.numBuses = bus + (g.numBuses - bus - 1 + 1) := by
    simp only [buses, List.mem_range] at mem
    omega
  rw [vdisks, buses, total, List.range_add, List.map_append,
    List.takeWhile_append_of_pos (by simp; omega), List.range_succ_eq_map]
  simp

theorem createVdevice_creates :
    Creates grants [] (vdeviceObjects g) (fun obj => some (vdeviceLeft g obj))
      (createVdevice g grants) := by
  have freesDevice (kept : List ModuleObject) : Frees none (.vdevice :: kept) kept
      (freeIfSet none .vdevice some) := .node (.nothing kept)
  have controllers : Creates grants (.vdevice :: vdisks g) (busControllersObjects g)
      (fun _ => some (vdisks g))
      (orGoto (busControllerInit g grants) (freeIfSet none .vdevice some) created) := by
    have create : CreatesItem grants (busControllersObjects g) (busControllerInit g grants) :=
      busControllerInit_creates
    have whole := create.orGoto (freesDevice (vdisks g)) .created
      (by grind [mem_vdisks, mem_busControllersObjects]) (by simp)
    rw [List.append_nil] at whole
    exact whole.congr fun obj mem => by simp [mem, Creates.leavesMore]
  have disks := Creates.orGoto (.loop nodup_vdisks) (freesDevice [])
    controllers (by grind [mem_vdisks]) (by grind [mem_vdisks, mem_busControllersObjects])
  have device := Creates.orGoto (.one ModuleObject.vdevice) (.nothing []) disks (by simp)
    (by grind [mem_vdisks, mem_busControllersObjects])
  refine device.congr fun obj mem => ?_
  simp only [List.singleton_append, List.mem_cons, List.mem_append] at mem
  rcases mem with rfl | isDisk | isController
  · simp [vdeviceLeft, Creates.leavesMore]
  · rcases mem_vdisks.mp isDisk with ⟨bus, isBus, rfl⟩
    simp only [List.mem_singleton, reduceCtorEq, if_false, isDisk, if_true, Creates.leavesMore,
      takeWhile_vdisks isBus]
    rfl
  · have notDisk : obj ∉ vdisks g := by grind [mem_vdisks, mem_busControllersObjects]
    have notDevice : obj ≠ .vdevice := by grind [mem_busControllersObjects]
    have left : vdeviceLeft g obj = vdisks g := by grind [mem_busControllersObjects, vdeviceLeft]
    simp [notDisk, notDevice, left]

theorem destroyVdevice_frees : Frees owner (vdeviceObjects g) [] (destroyVdevice g owner) := by
  have disks : Frees (some ModuleObject.vdevice) (vdisks g) []
      (releaseEach (fun bus => freeIfSet (some .vdevice) (.vdisk bus) some) (buses g)) := by
    have one (bus : ℕ) (_ : bus ∈ buses g) : Frees (some ModuleObject.vdevice) [.vdisk bus] []
        (freeIfSet (some .vdevice) (.vdisk bus) some) := .one _
    have each := Frees.each one
    rwa [← List.map_eq_flatMap] at each
  have controllers : Frees (some ModuleObject.vdevice) (busControllersObjects g) []
      (busControllerDestroy g (some .vdevice)) := busControllerDestroy_frees
  exact .node ((controllers.seq disks).perm List.perm_append_comm)

/-! ### The information about the device -/

/-- The blocks below a chip. -/
def chipInfos (g : Geometry) (c : ChipId) : List ModuleObject :=
  .listBlocks c :: (blocks g c).map .listPages

/-- The blocks below a bus. -/
def busInfos (g : Geometry) (bus : ℕ) : List ModuleObject :=
  .listChips bus :: (chips g bus).flatMap (chipInfos g)

/-- The blocks below the list of buses, in the order in which they are allocated. -/
def infos (g : Geometry) : List ModuleObject := (buses g).flatMap (busInfos g)

/-- The blocks of `create_ssd_info`. -/
def ssdInfoObjects (g : Geometry) : List ModuleObject := .ssdInfo :: .listBuses :: infos g

/-- What `create_ssd_info` leaves behind when this block is refused. After the first blocks the
error exit is defined only when the block is the last of its kind. -/
def ssdInfoLeft (g : Geometry) : ModuleObject → Option (List ModuleObject)
  | .listChips bus => if bus + 1 = g.numBuses then some [] else none
  | .listBlocks c =>
      if c.bus + 1 = g.numBuses ∧ c.chip + 1 = g.numChipsPerBus then some [] else none
  | .listPages b =>
      if b.chip.bus + 1 = g.numBuses ∧ b.chip.chip + 1 = g.numChipsPerBus ∧
        b.noBlock + 1 = g.numBlocksPerChip then some [] else none
  | _ => some []

theorem createInfos_eq : createInfos g grants = forEach (take grants) (infos g) := by
  have chip : (fun (c : ChipId) (memory : Memory) => andThen (take grants (.listBlocks c) memory)
      (forEach (fun b => take grants (.listPages b)) (blocks g c))) =
      fun c => forEach (take grants) (chipInfos g c) := by
    funext c memory
    rw [chipInfos, forEach_cons, forEach_map]
  have bus : (fun (bus : ℕ) (memory : Memory) => andThen (take grants (.listChips bus) memory)
      (forEach (fun c => forEach (take grants) (chipInfos g c)) (chips g bus))) =
      fun bus => forEach (take grants) (busInfos g bus) := by
    funext bus memory
    rw [busInfos, forEach_cons, forEach_flatMap]
  rw [createInfos, chip, bus, infos, forEach_flatMap]

theorem mem_chipInfos {c : ChipId} {obj : ModuleObject} :
    obj ∈ chipInfos g c ↔ obj = .listBlocks c ∨ ∃ b ∈ blocks g c, obj = .listPages b := by
  simp [chipInfos, eq_comm]

theorem mem_busInfos {bus : ℕ} {obj : ModuleObject} :
    obj ∈ busInfos g bus ↔ obj = .listChips bus ∨ ∃ c ∈ chips g bus,
      obj = .listBlocks c ∨ ∃ b ∈ blocks g c, obj = .listPages b := by
  simp [busInfos, mem_chipInfos]

theorem mem_infos {obj : ModuleObject} :
    obj ∈ infos g ↔ ∃ bus ∈ buses g, obj = .listChips bus ∨ ∃ c ∈ chips g bus,
      obj = .listBlocks c ∨ ∃ b ∈ blocks g c, obj = .listPages b := by
  simp [infos, mem_busInfos]

theorem chip_of_blocks {b : BlockId} {c : ChipId} (mem : b ∈ blocks g c) : b.chip = c := by
  simp only [blocks, List.mem_map] at mem
  rcases mem with ⟨_, _, rfl⟩
  rfl

theorem nodup_chipInfos (c : ChipId) : (chipInfos g c).Nodup := by
  have nodup : ((blocks g c).map ModuleObject.listPages).Nodup :=
    (List.nodup_range.map fun _ _ same => by simpa using same).map fun _ _ same => by
      simpa using same
  exact List.nodup_cons.mpr ⟨by simp, nodup⟩

theorem nodup_chipsInfos (bus : ℕ) : ((chips g bus).flatMap (chipInfos g)).Nodup := by
  refine nodup_of_keys (nodup_chips bus) (fun c _ => nodup_chipInfos c)
    fun c _ obj mem => (?_ : obj.chip = some c)
  rcases mem_chipInfos.mp mem with rfl | ⟨b, isBlock, rfl⟩
  · rfl
  · exact congrArg some (chip_of_blocks isBlock)

theorem nodup_infos : (infos g).Nodup := by
  refine nodup_of_keys List.nodup_range (fun bus _ => ?_) fun bus _ obj mem =>
    (?_ : obj.bus = some bus)
  · exact List.nodup_cons.mpr ⟨by simp [mem_chipInfos], nodup_chipsInfos bus⟩
  · rcases mem_busInfos.mp mem with rfl | ⟨c, inBus, rfl | ⟨b, isBlock, rfl⟩⟩
    · rfl
    · exact congrArg some (bus_of_chips inBus)
    · simp [ModuleObject.bus, chip_of_blocks isBlock, bus_of_chips inBus]

/-- Where the error exit may come from, below a chip. -/
def chipSpine (g : Geometry) (c : ChipId) : List ModuleObject :=
  .listBlocks c :: lastSpine (fun b => [.listPages b]) (blocks g c)

/-- Where the error exit may come from, below a bus. -/
def busSpine (g : Geometry) (bus : ℕ) : List ModuleObject :=
  .listChips bus :: lastSpine (chipSpine g) (chips g bus)

theorem chipSpine_subset (c : ChipId) : chipSpine g c ⊆ chipInfos g c := by
  refine List.cons_subset_cons _ ?_
  rw [List.map_eq_flatMap]
  exact lastSpine_subset (fun b => List.Subset.refl _) _

theorem busSpine_subset (bus : ℕ) : busSpine g bus ⊆ busInfos g bus :=
  List.cons_subset_cons _ (lastSpine_subset chipSpine_subset _)

theorem releases_listPages (c : ChipId) : Releases (some (ModuleObject.listBlocks c))
    ((blocks g c).map .listPages) (lastSpine (fun b => [.listPages b]) (blocks g c))
    (releaseEach (fun b => freeIfSet (some (.listBlocks b.chip)) (.listPages b) some)
      (blocks g c)) := by
  have one (b : BlockId) (mem : b ∈ blocks g c) :
      Releases (some (ModuleObject.listBlocks c)) [.listPages b] [.listPages b]
        (freeIfSet (some (.listBlocks b.chip)) (.listPages b) some) := by
    rw [chip_of_blocks mem]
    exact .node .nothing (by simp)
  rw [List.map_eq_flatMap]
  refine .each one (by simp) (fun b => List.Subset.refl _) ?_
  rw [← List.map_eq_flatMap]
  exact (nodup_chipInfos c).of_cons

theorem releases_listBlocks (bus : ℕ) : Releases (some (ModuleObject.listChips bus))
    ((chips g bus).flatMap (chipInfos g)) (lastSpine (chipSpine g) (chips g bus))
    (releaseEach (fun c => freeIfSet (some (.listChips c.bus)) (.listBlocks c)
      (releaseEach (fun b => freeIfSet (some (.listBlocks b.chip)) (.listPages b) some)
        (blocks g c))) (chips g bus)) := by
  refine .each (fun c mem => ?_) (by simp [chipInfos]) chipSpine_subset (nodup_chipsInfos bus)
  rw [bus_of_chips mem]
  exact .node (releases_listPages c) (by simp)

theorem releases_listBuses : Releases (some ModuleObject.ssdInfo) (.listBuses :: infos g)
    (.listBuses :: lastSpine (busSpine g) (buses g)) (freeListBuses g) := by
  refine .node (.each (fun bus _ => ?_) (by simp [busInfos]) busSpine_subset nodup_infos)
    (by grind [mem_infos])
  exact .node (releases_listBlocks bus) (by simp [mem_chipInfos])

theorem mem_spine {obj : ModuleObject} (blocksPos : 0 < g.numBlocksPerChip) :
    obj ∈ lastSpine (busSpine g) (buses g) ↔ obj = .listChips (g.numBuses - 1) ∨
      obj = .listBlocks ⟨g.numBuses - 1, g.numChipsPerBus - 1⟩ ∨
      obj = .listPages ⟨⟨g.numBuses - 1, g.numChipsPerBus - 1⟩, g.numBlocksPerChip - 1⟩ := by
  rw [buses, ← List.map_id (List.range g.numBuses), lastSpine_range g.numBuses_pos, busSpine, chips,
    lastSpine_range g.numChipsPerBus_pos, chipSpine, blocks, lastSpine_range blocksPos]
  simp

/-- The error exit after a block below the list of buses was refused. -/
theorem failAllocInfos_stopped {memory : Memory} {before after rest : List ModuleObject}
    {obj : ModuleObject} (split : infos g = before ++ obj :: after)
    (stoppedAt : memory.StoppedAt ([.ssdInfo, .listBuses] ++ before) obj after rest) :
    if obj ∈ lastSpine (busSpine g) (buses g) then
      Returns (failAllocInfos g memory) (Released memory rest)
    else failAllocInfos g memory = none := by
  have lists : memory.StoppedAt (.listBuses :: before) obj after (.ssdInfo :: rest) :=
    ⟨stoppedAt.toHolds.tail, stoppedAt.null, stoppedAt.junk⟩
  have elsewhere : obj ≠ .listBuses := by
    have mem : obj ∈ infos g := by simp [split]
    grind [mem_infos]
  have freed := releases_listBuses.stopped (congrArg (ModuleObject.listBuses :: ·) split) lists
    (by simp)
  simp only [List.mem_cons, elsewhere, false_or] at freed
  split_ifs at freed ⊢
  · refine Frees.andThen (.one ModuleObject.ssdInfo) (fun block mem => ?_) freed
    rw [List.mem_singleton.mp mem]
    exact stoppedAt.pointers _ (by simp)
  · rw [failAllocInfos, freed]
    rfl

theorem createSsdInfo_creates (blocksPos : 0 < g.numBlocksPerChip) :
    Creates grants [] (ssdInfoObjects g) (ssdInfoLeft g) (createSsdInfo g grants) := by
  have loops : Creates grants [ModuleObject.ssdInfo, .listBuses] (infos g ++ [])
      (fun obj => if obj ∈ infos g then
        if obj ∈ lastSpine (busSpine g) (buses g) then some [] else none else some [])
      (orGoto (fun memory => some (createInfos g grants memory)) (failAllocInfos g) created) := by
    rw [createInfos_eq]
    exact .loopOr nodup_infos failAllocInfos_stopped .created (by grind [mem_infos]) (by simp)
  rw [List.append_nil] at loops
  have lists := Creates.orGoto (.one ModuleObject.listBuses) (.one _) loops (by simp)
    (by grind [mem_infos])
  have whole := Creates.orGoto (.one ModuleObject.ssdInfo) (.nothing []) lists (by simp)
    (by grind [mem_infos])
  refine whole.congr fun obj mem => ?_
  simp only [List.singleton_append, List.mem_cons] at mem
  rcases mem with rfl | rfl | mem
  · simp [ssdInfoLeft, Creates.leavesMore]
  · simp [ssdInfoLeft, Creates.leavesMore]
  · have elsewhere : obj ≠ .ssdInfo ∧ obj ≠ .listBuses := by grind [mem_infos]
    simp only [List.mem_singleton, elsewhere, if_false, mem, if_true, mem_spine blocksPos]
    rcases mem_infos.mp mem with ⟨bus, isBus, rfl | ⟨c, isChip, rfl | ⟨b, isBlock, rfl⟩⟩⟩
    · have last : bus + 1 = g.numBuses ↔ bus = g.numBuses - 1 := by
        have := g.numBuses_pos
        omega
      simp [ssdInfoLeft, last]
    · rcases c with ⟨bus, chip⟩
      have last : bus + 1 = g.numBuses ∧ chip + 1 = g.numChipsPerBus ↔
          bus = g.numBuses - 1 ∧ chip = g.numChipsPerBus - 1 := by
        have := g.numBuses_pos
        have := g.numChipsPerBus_pos
        omega
      simp [ssdInfoLeft, last]
    · rcases b with ⟨⟨bus, chip⟩, block⟩
      have last : bus + 1 = g.numBuses ∧ chip + 1 = g.numChipsPerBus ∧
          block + 1 = g.numBlocksPerChip ↔ (bus = g.numBuses - 1 ∧ chip = g.numChipsPerBus - 1) ∧
            block = g.numBlocksPerChip - 1 := by
        have := g.numBuses_pos
        have := g.numChipsPerBus_pos
        omega
      simp [ssdInfoLeft, last]

theorem destroySsdInfo_frees : Frees owner (ssdInfoObjects g) [] (destroySsdInfo g owner) :=
  .node ⟨releases_listBuses.made⟩

/-! ### The translation layer -/

/-- The blocks of `create_page_mapping_table`. -/
def mappingTableObjects : List ModuleObject := [.mappingTable, .mappings]

/-- The blocks of `create_act_blk_mngr`. -/
def actBlkMngrObjects : List ModuleObject := [.abm, .actBlks]

/-- The blocks of `create_del_mngr`. -/
def delMngrObjects : List ModuleObject :=
  [.delm, .btod, .wtod, .ppas, .delLpasToCopy, .delDataToCopy]

/-- The blocks of `create_gc_mngr`. -/
def gcMngrObjects : List ModuleObject :=
  [.gcm, .gcBlks, .vicBlks, .gcLpasToCopy, .gcDataToCopy, .firstValidPg]

/-- The blocks of `create_pg_ftl` without the first and the last. -/
def managersObjects : List ModuleObject :=
  mappingTableObjects ++ actBlkMngrObjects ++ delMngrObjects ++ gcMngrObjects

/-- The blocks of `create_pg_ftl`. -/
def ftlObjects : List ModuleObject := .ftl :: (managersObjects ++ [.lpasToDiscard])

/-- What `destroy_pg_ftl` does not release. -/
def ftlKept : List ModuleObject := [.ppas, .firstValidPg]

/-- What `create_pg_ftl` leaves behind when this block is refused. Its error exit tests
`lpas_to_discard`, which is written last. -/
def ftlLeft : ModuleObject → Option (List ModuleObject)
  | .ftl => some []
  | .lpasToDiscard => some ftlKept
  | _ => none

theorem orGoto_takeBlocks {enough : Prop} [Decidable enough]
    {cleanup : Memory → Option Memory} {next : Memory → Option (Ret × Memory)} (holds : enough) :
    orGoto (takeBlocks (decide enough)) cleanup next = next := by
  funext memory
  simp [orGoto, takeBlocks, holds]

theorem createPageMappingTable_tries :
    Tries grants [] mappingTableObjects (createPageMappingTable grants) :=
  .ask .nothing (.ask (.node .nothing) .created (by simp) (by simp)) (by simp) (by simp)

theorem createActBlkMngr_tries (enough : 2 ≤ g.numBlocksPerChip) :
    Tries grants [] actBlkMngrObjects (createActBlkMngr g grants) := by
  have keeps : KeepsPointers (destroyActBlkMngr none) := .node (.node .nothing)
  have one : 1 ≤ g.numBlocksPerChip := by omega
  rw [createActBlkMngr, orGoto_takeBlocks one]
  exact .ask keeps (.ask keeps .created (by simp) (by simp)) (by simp) (by simp)

theorem createDelMngr_tries :
    Tries grants [] delMngrObjects (createDelMngr grants) := by
  have keeps : KeepsPointers (destroyDelMngr none) := .node (.fields _ _)
  iterate 6 refine .ask keeps ?_ (by simp) (by simp)
  exact .created

theorem createGcMngr_tries (enough : 2 ≤ g.numBlocksPerChip) :
    Tries grants [] gcMngrObjects (createGcMngr g grants) := by
  have keeps : KeepsPointers (destroyGcMngr none) := .node (.fields _ _)
  rw [createGcMngr, orGoto_takeBlocks enough]
  iterate 6 refine .ask keeps ?_ (by simp) (by simp)
  exact .created

theorem destroyMappingTable_frees :
    Frees owner mappingTableObjects [] (destroyMappingTable owner) :=
  .node (.one _)

theorem destroyActBlkMngr_frees : Frees owner actBlkMngrObjects [] (destroyActBlkMngr owner) :=
  .node (.one _)

theorem destroyDelMngr_frees :
    Frees owner delMngrObjects [.ppas] (destroyDelMngr owner) := by
  have fields := (Frees.fields ModuleObject.delm
    [.btod, .wtod, .delLpasToCopy, .delDataToCopy]).keeping [.ppas]
  exact .node (fields.perm (by decide))

theorem destroyGcMngr_frees :
    Frees owner gcMngrObjects [.firstValidPg] (destroyGcMngr owner) :=
  .node ((Frees.fields ModuleObject.gcm
    [.gcBlks, .vicBlks, .gcLpasToCopy, .gcDataToCopy]).keeping [.firstValidPg])

/-- The part of `destroy_pg_ftl` before the test of `lpas_to_discard`. -/
def releaseManagers (memory : Memory) : Option Memory := do
  let memory ← destroyActBlkMngr (some .ftl) memory
  let memory ← destroyGcMngr (some .ftl) memory
  let memory ← destroyMappingTable (some .ftl) memory
  destroyDelMngr (some .ftl) memory

theorem destroyPgFtl_eq : destroyPgFtl owner = freeIfSet owner .ftl fun memory =>
    releaseManagers memory >>= freeIfSet (some .ftl) .lpasToDiscard some := by
  simp only [destroyPgFtl, releaseManagers, bind_assoc]

theorem releaseManagers_frees : Frees (some .ftl) managersObjects ftlKept releaseManagers := by
  have blocks : Frees (some ModuleObject.ftl) _ _ (destroyActBlkMngr (some .ftl)) :=
    destroyActBlkMngr_frees
  have collector : Frees (some ModuleObject.ftl) _ _ (destroyGcMngr (some .ftl)) :=
    destroyGcMngr_frees
  have table : Frees (some ModuleObject.ftl) _ _ (destroyMappingTable (some .ftl)) :=
    destroyMappingTable_frees
  have all := blocks.seq (collector.seq (table.seq destroyDelMngr_frees))
  exact all.perm (by decide)

theorem releaseManagers_keepsPointers : KeepsPointers releaseManagers :=
  .seq (.node (.node .nothing)) (.seq (.node (.fields _ _)) (.seq (.node (.node .nothing))
    (.node (.fields _ _))))

theorem destroyPgFtl_frees : Frees owner ftlObjects ftlKept (destroyPgFtl owner) := by
  rw [destroyPgFtl_eq]
  exact .node (releaseManagers_frees.seq (.one _))

/-- The error exit of `create_pg_ftl` when `lpas_to_discard` is null. -/
theorem destroyPgFtl_of_null {memory : Memory} {rest : List ModuleObject}
    (holds : memory.Holds (.ftl :: managersObjects) rest)
    (null : memory.pointers .lpasToDiscard = .null) :
    Returns (destroyPgFtl none memory) (Released memory (ftlKept ++ rest)) := by
  rw [destroyPgFtl_eq]
  refine freeIfSet_of_block holds (by simp) ?_
  refine (releaseManagers_frees.returns holds.tail (by simp)).bind fun between released => ?_
  have owned : ModuleObject.ftl ∈ between.live := released.live.mem_iff.mpr (by simp)
  rw [freeIfSet_of_null (by simpa using owned) (by rw [released.pointers, null])]
  exact .of_some released

/-- The error exit of `create_pg_ftl` as long as `lpas_to_discard` has not been written. -/
theorem destroyPgFtl_of_junk {memory : Memory} (block : memory.pointers .ftl = .block)
    (junk : memory.pointers .lpasToDiscard = .junk) : destroyPgFtl none memory = none := by
  rw [destroyPgFtl_eq]
  refine freeIfSet_eq_none block (releaseManagers_keepsPointers.bind_eq_none ?_ junk)
  exact fun _ junk => freeIfSet_of_junk junk

/-- The creation of a manager: `create_pg_ftl` has no defined exit when it fails. -/
theorem createManager {prev objs objs' : List ModuleObject} {root : ModuleObject}
    {create other : Memory → Option (Ret × Memory)} (tries : Tries grants [] objs create)
    (next : Creates grants (prev ++ objs) objs' ftlLeft other)
    (known : root ∈ objs ∧ .ftl ∈ prev ∧ .lpasToDiscard ∈ objs')
    (left : ∀ obj ∈ objs, ftlLeft obj = none)
    (apart : (∀ block ∈ prev, block ∉ objs) ∧ ∀ block ∈ objs', block ∉ objs) :
    Creates grants prev (objs ++ objs') ftlLeft
      (orGoto (assign root create) (destroyPgFtl none) other) := by
  have whole := Creates.orUndefined (tries.assign known.1)
    (fun there junk => destroyPgFtl_of_junk (there _ known.2.1) junk) known.2.2 next
    apart.1 apart.2
  refine whole.congr fun obj mem => ?_
  split_ifs with new
  · exact left obj new
  · rfl

theorem createPgFtl_creates (enough : 2 ≤ g.numBlocksPerChip) :
    Creates grants [] ftlObjects ftlLeft (createPgFtl g grants) := by
  have last : Creates grants ([.ftl] ++ mappingTableObjects ++ actBlkMngrObjects ++
      delMngrObjects ++ gcMngrObjects) [.lpasToDiscard] ftlLeft
      (orGoto (ask grants .lpasToDiscard) (destroyPgFtl none) created) := by
    refine (Creates.askOr destroyPgFtl_of_null .created (by decide) (by simp)).congr ?_
    simp [ftlLeft]
  have collector : Creates grants ([.ftl] ++ mappingTableObjects ++ actBlkMngrObjects ++
      delMngrObjects) (gcMngrObjects ++ [.lpasToDiscard]) ftlLeft
      (orGoto (assign .gcm (createGcMngr g grants)) (destroyPgFtl none) _) :=
    createManager (createGcMngr_tries enough) last (by decide) (by decide) (by decide)
  have discards : Creates grants ([.ftl] ++ mappingTableObjects ++ actBlkMngrObjects)
      (delMngrObjects ++ (gcMngrObjects ++ [.lpasToDiscard])) ftlLeft
      (orGoto (assign .delm (createDelMngr grants)) (destroyPgFtl none) _) :=
    createManager createDelMngr_tries collector (by decide) (by decide) (by decide)
  have actives : Creates grants ([.ftl] ++ mappingTableObjects)
      (actBlkMngrObjects ++ (delMngrObjects ++ (gcMngrObjects ++ [.lpasToDiscard]))) ftlLeft
      (orGoto (assign .abm (createActBlkMngr g grants)) (destroyPgFtl none) _) :=
    createManager (createActBlkMngr_tries enough) discards (by decide) (by decide) (by decide)
  have table : Creates grants [.ftl] (mappingTableObjects ++
      (actBlkMngrObjects ++ (delMngrObjects ++ (gcMngrObjects ++ [.lpasToDiscard])))) ftlLeft
      (orGoto (assign .mappingTable (createPageMappingTable grants)) (destroyPgFtl none) _) :=
    createManager createPageMappingTable_tries actives (by decide) (by decide) (by decide)
  have exits {memory : Memory} {rest : List ModuleObject} (holds : memory.Holds [] rest)
      (null : memory.pointers .ftl = .null) :
      Returns (destroyPgFtl none memory) (Released memory ([] ++ rest)) := by
    rw [destroyPgFtl_eq, freeIfSet_of_null (by simp) null]
    exact .of_some ⟨rfl, holds.live⟩
  refine (Creates.askOr exits table (by simp) (by decide)).congr fun obj mem => ?_
  split_ifs with isFtl
  · rw [isFtl]
    rfl
  · rfl

/-! ### The write buffer -/

/-- The blocks of the write buffer. -/
def writeBufferObjects : List ModuleObject := [.wb, .pgBuf]

theorem createWriteBuffer_creates :
    CreatesItem grants writeBufferObjects (createWriteBuffer grants) := by
  have frees : Frees none [ModuleObject.wb] [] (destroyWriteBuffer none) := .one _
  have second : Creates grants [ModuleObject.wb] [.pgBuf] (fun _ => some [])
      (orGoto (ask grants .pgBuf) (destroyWriteBuffer none) created) :=
    .orClean (.one _) frees .created (by simp) (by simp)
  have exits {memory : Memory} {rest : List ModuleObject} (holds : memory.Holds [] rest)
      (null : memory.pointers .wb = .null) :
      Returns (destroyWriteBuffer none memory) (Released memory ([] ++ rest)) := by
    rw [destroyWriteBuffer, freeIfSet_of_null (by simp) null]
    exact .of_some ⟨rfl, holds.live⟩
  exact (Creates.askOr exits second (by simp) (by simp)).congr (by simp)

theorem destroyWriteBuffer_frees :
    Frees owner writeBufferObjects [.pgBuf] (destroyWriteBuffer owner) :=
  .node (.nothing [ModuleObject.pgBuf])

/-! ### The module -/

/-- What `fb_init` asks for once the translation layer is there. -/
def kernelObjects : List ModuleObject := .reqQueue :: .blkdev :: .gd :: writeBufferObjects

/-- The blocks of the module in the order in which `fb_init` asks for them. -/
def moduleObjects (g : Geometry) : List ModuleObject :=
  .fb :: (vdeviceObjects g ++ (ssdInfoObjects g ++ (ftlObjects ++ kernelObjects)))

/-- The place of the call that asks for a block among the calls of `fb_init`. -/
def stage : ModuleObject → ℕ
  | .fb => 0
  | .vdevice | .vdisk _ | .busControllers | .busController _ | .oprQueues _ | .oprQueue _
  | .oprList _ | .chipBusies _ => 1
  | .ssdInfo | .listBuses | .listChips _ | .listBlocks _ | .listPages _ => 2
  | .reqQueue => 4
  | .blkdev => 5
  | .gd => 6
  | .wb | .pgBuf => 7
  | _ => 3

/-- What `fb_init` leaves behind when this block is refused, besides the name under `/proc`, or
`none` where its error exit is not defined. Without a write buffer a disk is deleted that was never
added; where the kernel returns from that, the disk is never put, and whatever `create_pg_ftl` made
is released as by `fb_exit`. -/
def moduleLeft (g : Geometry) (kernel : Kernel) (obj : ModuleObject) :
    Option (List ModuleObject) :=
  match stage obj with
  | 0 => some []
  | 1 => some (vdeviceLeft g obj)
  | 2 => ssdInfoLeft g obj
  | 3 => ftlLeft obj
  | 4 | 5 | 6 => some ftlKept
  | _ => if kernel.deletesUnadded then some (ftlKept ++ [.gd]) else none

theorem stage_vdevice {obj : ModuleObject} (mem : obj ∈ vdeviceObjects g) : stage obj = 1 := by
  simp only [vdeviceObjects, List.mem_cons, List.mem_append, mem_vdisks,
    mem_busControllersObjects] at mem
  grind [stage]

theorem stage_ssdInfo {obj : ModuleObject} (mem : obj ∈ ssdInfoObjects g) : stage obj = 2 := by
  simp only [ssdInfoObjects, List.mem_cons, mem_infos] at mem
  grind [stage]

theorem stage_ftl : ∀ obj ∈ ftlObjects, stage obj = 3 := by decide

/-- A call of `fb_init` with the label behind it. -/
theorem initCall (n : ℕ) {prev objs objs' kept : List ModuleObject}
    {leaves : ModuleObject → Option (List ModuleObject)}
    {create other : Memory → Option (Ret × Memory)} {cleanup : Memory → Option Memory}
    (first : Creates grants [] objs leaves create) (frees : Frees none prev kept cleanup)
    (next : Creates grants (prev ++ objs) objs' (moduleLeft g kernel) other)
    (left : ∀ obj ∈ objs, moduleLeft g kernel obj = Creates.leavesMore kept leaves obj)
    (now : ∀ obj ∈ objs, stage obj = n) (earlier : ∀ obj ∈ prev, stage obj < n)
    (later : ∀ obj ∈ objs', n < stage obj) :
    Creates grants prev (objs ++ objs') (moduleLeft g kernel) (orGoto create cleanup other) := by
  refine first.chain frees next left (fun block mem new => ?_) fun block mem new => ?_
  · exact (earlier block mem).ne (now block new)
  · exact (later block mem).ne (now block new).symm

/-- The blocks that are there before `fb_init` asks for the request queue. -/
def contextObjects (g : Geometry) : List ModuleObject :=
  .fb :: vdeviceObjects g ++ ssdInfoObjects g ++ ftlObjects

theorem stage_context {obj : ModuleObject} (mem : obj ∈ contextObjects g) : stage obj < 4 := by
  rw [contextObjects, List.mem_append, List.mem_append, List.mem_cons] at mem
  rcases mem with ((rfl | device) | info) | mapping
  · decide
  · simp [stage_vdevice device]
  · simp [stage_ssdInfo info]
  · simp [stage_ftl obj mapping]

theorem stage_afterVdevice {obj : ModuleObject}
    (mem : obj ∈ ssdInfoObjects g ++ (ftlObjects ++ kernelObjects)) : 1 < stage obj := by
  have mapped : ∀ obj ∈ ftlObjects ++ kernelObjects, 1 < stage obj := by decide
  rcases List.mem_append.mp mem with info | later
  · simp [stage_ssdInfo info]
  · exact mapped obj later

theorem stage_afterContext {obj : ModuleObject} (mem : obj ∈ vdeviceObjects g ++
    (ssdInfoObjects g ++ (ftlObjects ++ kernelObjects))) : 0 < stage obj := by
  rcases List.mem_append.mp mem with device | later
  · simp [stage_vdevice device]
  · exact Nat.zero_lt_of_lt (stage_afterVdevice later)

theorem nodup_vdeviceObjects : (vdeviceObjects g).Nodup := by
  have controllers : (busControllersObjects g).Nodup :=
    List.nodup_cons.mpr ⟨by grind [mem_busControllers], nodup_busControllers⟩
  refine List.nodup_cons.mpr ⟨by grind [mem_vdisks, mem_busControllersObjects], ?_⟩
  refine List.nodup_append.mpr ⟨nodup_vdisks, controllers, ?_⟩
  grind [mem_vdisks, mem_busControllersObjects]

theorem nodup_ssdInfoObjects : (ssdInfoObjects g).Nodup :=
  List.nodup_cons.mpr ⟨by grind [mem_infos],
    List.nodup_cons.mpr ⟨by grind [mem_infos], nodup_infos⟩⟩

theorem nodup_moduleObjects : (moduleObjects g).Nodup := by
  have mapped : (ftlObjects ++ kernelObjects).Nodup := by decide
  have after : ∀ obj ∈ ftlObjects ++ kernelObjects, 2 < stage obj := by decide
  have described : (ssdInfoObjects g ++ (ftlObjects ++ kernelObjects)).Nodup := by
    refine List.nodup_append.mpr ⟨nodup_ssdInfoObjects, mapped, fun first early second late => ?_⟩
    rintro rfl
    exact (after first late).ne (stage_ssdInfo early).symm
  refine List.nodup_cons.mpr ⟨fun mem => (stage_afterContext mem).ne rfl, ?_⟩
  refine List.nodup_append.mpr ⟨nodup_vdeviceObjects, described, fun first early second late => ?_⟩
  rintro rfl
  exact (stage_afterVdevice late).ne (stage_vdevice early).symm

theorem failCreateVdevice_frees : Frees none [.fb] [] failCreateVdevice := .one _

theorem failCreateSsdInfo_frees :
    Frees none (.fb :: vdeviceObjects g) [] (failCreateSsdInfo g) :=
  .fallThrough destroyVdevice_frees failCreateVdevice_frees (by simp)

theorem failCreateMappingContext_frees :
    Frees none (.fb :: vdeviceObjects g ++ ssdInfoObjects g) [] (failCreateMappingContext g) :=
  .fallThrough destroySsdInfo_frees failCreateSsdInfo_frees (by simp)

theorem failAllocBdevQueue_frees :
    Frees none (contextObjects g) ftlKept
      (failAllocBdevQueue g) :=
  .fallThrough destroyPgFtl_frees failCreateMappingContext_frees (by simp)

theorem failRegisterBdev_frees :
    Frees none (contextObjects g ++ [.reqQueue]) ftlKept
      (failRegisterBdev g) := by
  have queue : Frees none [ModuleObject.reqQueue] [] (Ledger.free .reqQueue) := .free _
  exact .fallThrough queue failAllocBdevQueue_frees (by simp)

theorem failAllocDisk_frees :
    Frees none (contextObjects g ++ [.reqQueue] ++ [.blkdev])
      ftlKept (failAllocDisk g) := by
  have device : Frees none [ModuleObject.blkdev] [] (Ledger.free .blkdev) := .free _
  exact .fallThrough device failRegisterBdev_frees (by simp)

theorem failCreateWriteBuffer_frees (deletes : kernel.deletesUnadded = true) :
    Frees none (contextObjects g ++ [.reqQueue] ++ [.blkdev] ++ [.gd]) (ftlKept ++ [.gd])
      (failCreateWriteBuffer g kernel) := by
  have same : failCreateWriteBuffer g kernel = failAllocDisk g := by
    funext memory
    simp [failCreateWriteBuffer, delGendisk, deletes]
  rw [same]
  exact failAllocDisk_frees.keeping [.gd]

/-- The last call of `fb_init`, whose label deletes a disk that was never added. -/
theorem createWriteBuffer_last :
    Creates kernel.grants (contextObjects g ++ [.reqQueue] ++ [.blkdev] ++ [.gd])
      (writeBufferObjects ++ []) (moduleLeft g kernel)
      (orGoto (createWriteBuffer kernel.grants) (failCreateWriteBuffer g kernel) created) := by
  have earlier : ∀ block ∈ contextObjects g ++ [.reqQueue] ++ [.blkdev] ++ [.gd],
      stage block < 7 := by grind [stage, stage_context]
  have now : ∀ obj ∈ writeBufferObjects, stage obj = 7 := by decide
  rcases deletes : kernel.deletesUnadded with _ | _
  · refine (createWriteBuffer_creates.lastUndefined (fun memory => ?_) fun block mem new =>
      (earlier block mem).ne (now block new)).congr fun obj mem => ?_
    · simp [failCreateWriteBuffer, delGendisk, deletes]
    · rw [List.append_nil] at mem
      simp [moduleLeft, now obj mem, deletes]
  · exact initCall 7 createWriteBuffer_creates (failCreateWriteBuffer_frees deletes)
      (Creates.created.congr (by simp))
      (by simp [writeBufferObjects, moduleLeft, stage, Creates.leavesMore, deletes]) now
      earlier (by simp)

theorem createContext_creates (enough : 2 ≤ g.numBlocksPerChip) :
    Creates kernel.grants [] (moduleObjects g) (moduleLeft g kernel)
      (createContext g kernel) := by
  have disk : Creates kernel.grants (contextObjects g ++ [.reqQueue] ++ [.blkdev])
      (.gd :: writeBufferObjects) (moduleLeft g kernel)
      (orGoto (ask kernel.grants .gd) (failAllocDisk g) _) :=
    initCall 6 (.one _) failAllocDisk_frees createWriteBuffer_last
      (by simp [moduleLeft, stage, Creates.leavesMore]) (by decide)
      (by grind [stage, stage_context]) (by decide)
  have blockDevice : Creates kernel.grants (contextObjects g ++ [.reqQueue])
      (.blkdev :: .gd :: writeBufferObjects) (moduleLeft g kernel)
      (orGoto (ask kernel.grants .blkdev) (failRegisterBdev g) _) :=
    initCall 5 (.one _) failRegisterBdev_frees disk
      (by simp [moduleLeft, stage, Creates.leavesMore]) (by decide)
      (by grind [stage, stage_context]) (by decide)
  have queue : Creates kernel.grants (contextObjects g) kernelObjects (moduleLeft g kernel)
      (orGoto (ask kernel.grants .reqQueue) (failAllocBdevQueue g) _) :=
    initCall 4 (.one _) failAllocBdevQueue_frees blockDevice
      (by simp [moduleLeft, stage, Creates.leavesMore]) (by decide)
      (fun _ => stage_context) (by decide)
  have mapping : Creates kernel.grants (.fb :: vdeviceObjects g ++ ssdInfoObjects g)
      (ftlObjects ++ kernelObjects) (moduleLeft g kernel)
      (orGoto (createPgFtl g kernel.grants) (failCreateMappingContext g) _) :=
    initCall 3 (createPgFtl_creates enough) failCreateMappingContext_frees queue
      (fun obj mem => by simp [moduleLeft, stage_ftl obj mem, Creates.leavesMore]) stage_ftl
      (by grind [stage, stage_vdevice, stage_ssdInfo]) (by decide)
  have info : Creates kernel.grants (.fb :: vdeviceObjects g)
      (ssdInfoObjects g ++ (ftlObjects ++ kernelObjects)) (moduleLeft g kernel)
      (orGoto (createSsdInfo g kernel.grants) (failCreateSsdInfo g) _) :=
    initCall 2 (createSsdInfo_creates (by omega)) failCreateSsdInfo_frees mapping
      (fun obj mem => by simp [moduleLeft, stage_ssdInfo mem, Creates.leavesMore])
      (fun _ => stage_ssdInfo) (by grind [stage, stage_vdevice]) (by decide)
  have device : Creates kernel.grants [.fb]
      (vdeviceObjects g ++ (ssdInfoObjects g ++ (ftlObjects ++ kernelObjects))) (moduleLeft g kernel)
      (orGoto (createVdevice g kernel.grants) failCreateVdevice _) :=
    initCall 1 createVdevice_creates failCreateVdevice_frees info
      (fun obj mem => by simp [moduleLeft, stage_vdevice mem, Creates.leavesMore])
      (fun _ => stage_vdevice) (by decide) fun _ => stage_afterVdevice
  exact initCall 0 (.one _) (.nothing []) device
    (by simp [moduleLeft, stage, Creates.leavesMore]) (by decide) (by simp)
    fun _ => stage_afterContext

theorem procEntry_notMem : ModuleObject.procEntry ∉ moduleObjects g := by
  have mapped : ModuleObject.procEntry ∉ ftlObjects ++ kernelObjects := by decide
  have device : ModuleObject.procEntry ∉ vdeviceObjects g := by
    simp [vdeviceObjects, mem_vdisks, mem_busControllersObjects]
  have info : ModuleObject.procEntry ∉ ssdInfoObjects g := by
    simp [ssdInfoObjects, mem_infos]
  simp only [moduleObjects, List.mem_cons, List.mem_append, reduceCtorEq, false_or, not_or]
  exact ⟨device, info, by simpa using mapped⟩

theorem destroyContext_frees :
    Frees none (moduleObjects g) (ftlKept ++ [.pgBuf]) (destroyContext g) := by
  have buffer : Frees (some ModuleObject.fb) writeBufferObjects [.pgBuf]
      (destroyWriteBuffer (some .fb)) := destroyWriteBuffer_frees
  have queue : Frees none [ModuleObject.reqQueue] [] (Ledger.free .reqQueue) := .free _
  have device : Frees none [ModuleObject.blkdev] [] (Ledger.free .blkdev) := .free _
  have disk : Frees none [ModuleObject.gd] [] (Ledger.free .gd) := .free _
  have context : Frees none (contextObjects g) ftlKept (failAllocBdevQueue g) :=
    failAllocBdevQueue_frees
  have all := disk.fallThrough (device.fallThrough (queue.fallThrough (buffer.fallThrough
    context (by simp [contextObjects])) (by simp)) (by simp)) (by simp)
  have kernel : (writeBufferObjects ++ ([ModuleObject.reqQueue] ++ ([ModuleObject.blkdev] ++
      [ModuleObject.gd]))).Perm kernelObjects := by decide
  have whole : moduleObjects g = contextObjects g ++ kernelObjects := by
    simp [moduleObjects, contextObjects]
  rw [whole]
  refine all.perm ?_
  simp only [List.append_assoc]
  exact kernel.append_left (contextObjects g)

/-- The name under `/proc`, where it is granted. -/
def procEntries (kernel : Kernel) : List ModuleObject :=
  if kernel.grants .procEntry then [.procEntry] else []

theorem perfInit_live (memory : Memory) :
    (perfInit kernel memory).live = procEntries kernel ++ memory.live := by
  unfold perfInit procEntries
  split_ifs with granted
  · rw [take_of_granted granted]
    rfl
  · rw [take_of_refused (by simpa using granted)]
    rfl

theorem perfInit_pointers (memory : Memory) {obj : ModuleObject} (different : obj ≠ .procEntry) :
    (perfInit kernel memory).pointers obj = memory.pointers obj := by
  unfold perfInit take
  split_ifs
  · exact given_pointers_of_ne different
  · exact setNull_pointers_of_ne different

/-- What `fb_exit` leaves behind, unless the kernel does not return from `perf_exit`. -/
def exitLeft (kernel : Kernel) : Option (List ModuleObject) :=
  if kernel.grants .procEntry || kernel.removesAbsent then some (ftlKept ++ [.pgBuf]) else none

theorem perfExit_left {memory : Memory}
    (live : memory.live.Perm (ftlKept ++ [.pgBuf] ++ procEntries kernel)) :
    match exitLeft kernel with
    | some left => Returns (perfExit kernel memory) fun after => after.live.Perm left
    | none => perfExit kernel memory = none := by
  unfold procEntries at live
  unfold exitLeft perfExit
  rcases granted : kernel.grants .procEntry with _ | _
  · rw [granted, if_neg (by simp), List.append_nil] at live
    have absent : ModuleObject.procEntry ∉ memory.live := by
      rw [live.mem_iff]
      decide
    rw [if_neg absent]
    rcases kernel.removesAbsent with _ | _
    · rfl
    · exact .of_some live
  · rw [granted, if_pos rfl] at live
    have present : ModuleObject.procEntry ∈ memory.live := by
      rw [live.mem_iff]
      decide
    rw [if_pos present, Ledger.free, if_pos present]
    exact .of_some (live.erase .procEntry)

/-- No pointer of the module has been written and nothing is allocated. -/
def unwritten : Memory := ⟨fun _ => .junk, []⟩

/-- What becomes of the memory of the module and of its name under `/proc`. -/
structure MemoryAccounted (g : Geometry) (kernel : Kernel) : Prop where
  /-- No block is asked for twice. -/
  distinct : (moduleObjects g).Nodup
  /-- When all blocks are granted the module comes up, and its exit leaves three of them. -/
  comesUp : (∀ obj ∈ moduleObjects g, kernel.grants obj = true) →
    Returns (fbInit g kernel unwritten) fun result =>
      result.1 = .ok ∧ result.2.live.Perm (moduleObjects g ++ procEntries kernel) ∧
        match exitLeft kernel with
        | some left => Returns (fbExit g kernel result.2) fun memory => memory.live.Perm left
        | none => fbExit g kernel result.2 = none
  /-- The first block that is refused decides what is left besides the name under `/proc`, and
  whether the exit is defined. -/
  givesUp : ∀ {before after : List ModuleObject} {obj : ModuleObject},
    RefusedAt kernel.grants (moduleObjects g) before obj after →
      match moduleLeft g kernel obj with
      | some left => Returns (fbInit g kernel unwritten) fun result =>
          result.1 = .fail ∧ result.2.live.Perm (left ++ procEntries kernel)
      | none => fbInit g kernel unwritten = none

/-- Whatever the kernel refuses to `fb_init`, what is left of the module is known. -/
theorem fbInit_accounted (g : Geometry) (kernel : Kernel) (enough : 2 ≤ g.numBlocksPerChip) :
    MemoryAccounted g kernel := by
  have creates : Creates kernel.grants [] (moduleObjects g) (moduleLeft g kernel)
      (createContext g kernel) := createContext_creates enough
  have begun : (perfInit kernel unwritten).Holds [] (procEntries kernel) := by
    refine ⟨by simp, ?_⟩
    rw [perfInit_live]
    simp [unwritten]
  have junk (obj : ModuleObject) (mem : obj ∈ moduleObjects g) :
      (perfInit kernel unwritten).pointers obj = .junk :=
    perfInit_pointers unwritten (ne_of_mem_of_not_mem mem procEntry_notMem)
  refine ⟨nodup_moduleObjects, fun granted => ?_, fun {before after obj} refusedAt => ?_⟩
  · refine (creates.made begun junk granted).imp fun result made => ?_
    refine ⟨made.ok, by simpa using made.holds.live, ?_⟩
    rcases destroyContext_frees.returns made.holds (by simp) with ⟨memory, destroyed, freed⟩
    have ends : fbExit g kernel result.2 = perfExit kernel memory := by
      simp [fbExit, destroyed]
    rw [ends]
    exact perfExit_left freed.live
  · have stopped := creates.stopped begun junk refusedAt
    rcases found : moduleLeft g kernel obj with _ | left
    · rw [found] at stopped
      exact stopped
    · rw [found] at stopped
      exact stopped.imp fun result gaveUp => ⟨gaveUp.fail, gaveUp.live⟩

/-- All blocks but the last are granted to the module as it is configured. -/
theorem fbInit_accounted_configured : 2 ≤ Geometry.configured.numBlocksPerChip ∧
    MemoryAccounted Geometry.configured ⟨fun obj => obj ≠ .lpasToDiscard, false, true⟩ :=
  ⟨by decide, fbInit_accounted Geometry.configured _ (by decide)⟩

end Lifetime

end FlashBench
