import FlashBench.Library.ErrorExits
import FlashBench.Geometry

/-!
# The memory of the module

`fb_init` and `fb_exit` with every allocation, which may fail, and with the labels to which
the code goes when one has failed. A field of a block that `kmalloc` or `vmalloc` has just
returned holds anything, and an error exit that tests such a field, or frees a block twice,
has the result `none`. So has one that the kernel does not return from.

Threads are taken to start: `IS_ERR` is never negative, so neither `fb_init` nor
`fb_bus_controller_init` notices one that does not. The entries of the write buffer are in
`BufferLifetime`; here `wb` is the buffer with its entries.
-/

namespace FlashBench

open Ledger

/-- What the module allocates. -/
inductive ModuleObject where
  | fb
  | vdevice
  | vdisk (bus : ℕ)
  | busControllers
  | busController (bus : ℕ)
  | oprQueues (bus : ℕ)
  | oprQueue (c : ChipId)
  | oprList (c : ChipId)
  | chipBusies (bus : ℕ)
  | ssdInfo
  | listBuses
  | listChips (bus : ℕ)
  | listBlocks (c : ChipId)
  | listPages (b : BlockId)
  | ftl
  | mappingTable
  | mappings
  | abm
  | actBlks
  | delm
  | btod
  | wtod
  | ppas
  | delLpasToCopy
  | delDataToCopy
  | gcm
  | gcBlks
  | vicBlks
  | gcLpasToCopy
  | gcDataToCopy
  | firstValidPg
  | lpasToDiscard
  | reqQueue
  | blkdev
  | gd
  | wb
  | pgBuf
  | procEntry
  deriving DecidableEq

namespace Lifetime

/-- What the kernel decides: what it grants, whether `del_gendisk` returns for a disk that was
never added, and whether `remove_proc_entry` returns for a name that is not there. -/
structure Kernel where
  grants : ModuleObject → Bool
  deletesUnadded : Bool
  removesAbsent : Bool

/-- The pointers and the blocks of the module. -/
abbrev Memory := Ledger ModuleObject

variable (g : Geometry) (grants : ModuleObject → Bool)

/-- The buses in the order of the loops. -/
def buses : List ℕ := List.range g.numBuses

/-- The chips of a bus in the order of the loops. -/
def chips (bus : ℕ) : List ChipId := (List.range g.numChipsPerBus).map fun chip => ⟨bus, chip⟩

/-- The blocks of a chip in the order of the loops. -/
def blocks (c : ChipId) : List BlockId := (List.range g.numBlocksPerChip).map fun b => ⟨c, b⟩

/-! ### The bus controllers -/

/-- `destroy_opr_queue` -/
def destroyOprQueue (owner : Option ModuleObject) (c : ChipId) : Memory → Option Memory :=
  freeIfSet owner (.oprQueue c) (freeIfSet (some (.oprQueue c)) (.oprList c) some)

/-- `create_opr_queue` -/
def createOprQueue (c : ChipId) : Memory → Option (Ret × Memory) :=
  orGoto (ask grants (.oprQueue c)) some <|
  orGoto (ask grants (.oprList c)) (freeIfSet none (.oprQueue c) some)
  created

/-- The loop over the operation queues of a bus, which ends at the first that is not there. -/
def freeOprQueues (bus : ℕ) : Memory → Option Memory :=
  freeIfSet (some (.busController bus)) (.oprQueues bus)
    (releaseUntilNull (some (.oprQueues bus)) .oprQueue
      (destroyOprQueue (some (.oprQueues bus))) (chips g bus))

/-- `destroy_bus_controller` -/
def destroyBusController (owner : Option ModuleObject) (bus : ℕ) : Memory → Option Memory :=
  freeIfSet owner (.busController bus) fun memory => do
    let memory ← freeIfSet (some (.busController bus)) (.chipBusies bus) some memory
    freeOprQueues g bus memory

/-- `create_bus_controller` from the label `CREATE_OPR_QUEUE_FAIL` on. -/
def createOprQueueFail (bus : ℕ) (memory : Memory) : Option Memory := do
  let memory ← freeOprQueues g bus memory
  freeIfSet none (.busController bus) some memory

/-- `create_bus_controller` -/
def createBusController (bus : ℕ) : Memory → Option (Ret × Memory) :=
  orGoto (ask grants (.busController bus)) some <|
  orGoto (ask grants (.oprQueues bus)) (freeIfSet none (.busController bus) some) <|
  orGoto (createEach .oprQueue (createOprQueue grants) (chips g bus)) (createOprQueueFail g bus) <|
  orGoto (ask grants (.chipBusies bus)) (createOprQueueFail g bus)
  created

/-- `fb_bus_controller_init`. A thread that does not start is not noticed. -/
def busControllerInit : Memory → Option (Ret × Memory) :=
  orGoto (ask grants .busControllers) some <|
  orGoto (createEach .busController (createBusController g grants) (buses g))
    (freeIfSet none .busControllers
      (releaseUntilNull (some .busControllers) .busController
        (destroyBusController g (some .busControllers)) (buses g)))
  created

/-- `fb_bus_controller_destroy`; the loop skips the controllers that are not there. -/
def busControllerDestroy (owner : Option ModuleObject) : Memory → Option Memory :=
  freeIfSet owner .busControllers
    (releaseEach (destroyBusController g (some .busControllers)) (buses g))

/-! ### The virtual device -/

/-- `destroy_vdevice` -/
def destroyVdevice (owner : Option ModuleObject) : Memory → Option Memory :=
  freeIfSet owner .vdevice fun memory => do
    let memory ← busControllerDestroy g (some .vdevice) memory
    releaseEach (fun bus => freeIfSet (some .vdevice) (.vdisk bus) some) (buses g) memory

/-- `create_vdevice`, which on an error frees only the device structure. -/
def createVdevice : Memory → Option (Ret × Memory) :=
  orGoto (ask grants .vdevice) some <|
  orGoto (fun memory => some (forEach (take grants) ((buses g).map .vdisk) memory))
    (freeIfSet none .vdevice some) <|
  orGoto (busControllerInit g grants) (freeIfSet none .vdevice some)
  created

/-! ### The information about the device -/

/-- The loops that release what `ssd_info` points to. -/
def freeListBuses : Memory → Option Memory :=
  freeIfSet (some .ssdInfo) .listBuses <| releaseEach (fun bus =>
    freeIfSet (some .listBuses) (.listChips bus) <| releaseEach (fun c =>
      freeIfSet (some (.listChips c.bus)) (.listBlocks c) <| releaseEach (fun b =>
        freeIfSet (some (.listBlocks b.chip)) (.listPages b) some)
      (blocks g c))
    (chips g bus))
  (buses g)

/-- `destroy_ssd_info` -/
def destroySsdInfo (owner : Option ModuleObject) : Memory → Option Memory :=
  freeIfSet owner .ssdInfo (freeListBuses g)

/-- The loops of `create_ssd_info`. -/
def createInfos : Memory → Ret × Memory :=
  forEach (fun bus memory =>
    andThen (take grants (.listChips bus) memory) <| forEach (fun c memory =>
      andThen (take grants (.listBlocks c) memory) <| forEach (fun b =>
        take grants (.listPages b))
      (blocks g c))
    (chips g bus))
  (buses g)

/-- `create_ssd_info` from the label `FAIL_ALLOC_INFOS` on. -/
def failAllocInfos (memory : Memory) : Option Memory := do
  let memory ← freeListBuses g memory
  freeIfSet none .ssdInfo some memory

/-- `create_ssd_info` -/
def createSsdInfo : Memory → Option (Ret × Memory) :=
  orGoto (ask grants .ssdInfo) some <|
  orGoto (ask grants .listBuses) (freeIfSet none .ssdInfo some) <|
  orGoto (fun memory => some (createInfos g grants memory)) (failAllocInfos g)
  created

/-! ### The translation layer -/

/-- A manager takes a free block of every chip, and fails where there is none. -/
def takeBlocks (enough : Bool) (memory : Memory) : Option (Ret × Memory) :=
  some (if enough then .ok else .fail, memory)

/-- `destroy_mapping_table` -/
def destroyMappingTable (owner : Option ModuleObject) : Memory → Option Memory :=
  freeIfSet owner .mappingTable (freeIfSet (some .mappingTable) .mappings some)

/-- `create_page_mapping_table` -/
def createPageMappingTable : Memory → Option (Ret × Memory) :=
  orGoto (ask grants .mappingTable) some <|
  orGoto (ask grants .mappings) (freeIfSet none .mappingTable some)
  created

/-- `destroy_act_blk_mngr` -/
def destroyActBlkMngr (owner : Option ModuleObject) : Memory → Option Memory :=
  freeIfSet owner .abm (freeIfSet (some .abm) .actBlks some)

/-- `create_act_blk_mngr` -/
def createActBlkMngr : Memory → Option (Ret × Memory) :=
  orGoto (ask grants .abm) (destroyActBlkMngr none) <|
  orGoto (ask grants .actBlks) (destroyActBlkMngr none) <|
  orGoto (takeBlocks (1 ≤ g.numBlocksPerChip)) (destroyActBlkMngr none)
  created

/-- `destroy_del_mngr`, which keeps `ppas`. It also tests `hash_btod` and `hash_wtod`, which
are null once `create_del_mngr` has returned. -/
def destroyDelMngr (owner : Option ModuleObject) : Memory → Option Memory :=
  freeIfSet owner .delm
    (freeFields .delm [.btod, .wtod, .delLpasToCopy, .delDataToCopy])

/-- `create_del_mngr` -/
def createDelMngr : Memory → Option (Ret × Memory) :=
  orGoto (ask grants .delm) (destroyDelMngr none) <|
  orGoto (ask grants .btod) (destroyDelMngr none) <|
  orGoto (ask grants .wtod) (destroyDelMngr none) <|
  orGoto (ask grants .ppas) (destroyDelMngr none) <|
  orGoto (ask grants .delLpasToCopy) (destroyDelMngr none) <|
  orGoto (ask grants .delDataToCopy) (destroyDelMngr none)
  created

/-- `destroy_gc_mngr`, which keeps `first_valid_pg`. -/
def destroyGcMngr (owner : Option ModuleObject) : Memory → Option Memory :=
  freeIfSet owner .gcm
    (freeFields .gcm [.gcBlks, .vicBlks, .gcLpasToCopy, .gcDataToCopy])

/-- `create_gc_mngr`; the active blocks have been taken already. -/
def createGcMngr : Memory → Option (Ret × Memory) :=
  orGoto (ask grants .gcm) (destroyGcMngr none) <|
  orGoto (ask grants .gcBlks) (destroyGcMngr none) <|
  orGoto (ask grants .vicBlks) (destroyGcMngr none) <|
  orGoto (ask grants .gcLpasToCopy) (destroyGcMngr none) <|
  orGoto (ask grants .gcDataToCopy) (destroyGcMngr none) <|
  orGoto (ask grants .firstValidPg) (destroyGcMngr none) <|
  orGoto (takeBlocks (2 ≤ g.numBlocksPerChip)) (destroyGcMngr none)
  created

/-- `destroy_pg_ftl` -/
def destroyPgFtl (owner : Option ModuleObject) : Memory → Option Memory :=
  freeIfSet owner .ftl fun memory => do
    let memory ← destroyActBlkMngr (some .ftl) memory
    let memory ← destroyGcMngr (some .ftl) memory
    let memory ← destroyMappingTable (some .ftl) memory
    let memory ← destroyDelMngr (some .ftl) memory
    freeIfSet (some .ftl) .lpasToDiscard some memory

/-- `create_pg_ftl` -/
def createPgFtl : Memory → Option (Ret × Memory) :=
  orGoto (ask grants .ftl) (destroyPgFtl none) <|
  orGoto (assign .mappingTable (createPageMappingTable grants)) (destroyPgFtl none) <|
  orGoto (assign .abm (createActBlkMngr g grants)) (destroyPgFtl none) <|
  orGoto (assign .delm (createDelMngr grants)) (destroyPgFtl none) <|
  orGoto (assign .gcm (createGcMngr g grants)) (destroyPgFtl none) <|
  orGoto (ask grants .lpasToDiscard) (destroyPgFtl none)
  created

/-! ### The write buffer -/

/-- `fb_destroy_write_buffer`, which keeps `pg_buf`. -/
def destroyWriteBuffer (owner : Option ModuleObject) : Memory → Option Memory :=
  freeIfSet owner .wb some

/-- `fb_create_write_buffer` -/
def createWriteBuffer : Memory → Option (Ret × Memory) :=
  orGoto (ask grants .wb) (destroyWriteBuffer none) <|
  orGoto (ask grants .pgBuf) (destroyWriteBuffer none)
  created

/-! ### The module -/

variable (kernel : Kernel)

/-- `perf_init`: a name that `proc_create` refuses is only reported. -/
def perfInit (memory : Memory) : Memory := (take kernel.grants .procEntry memory).2

/-- `perf_exit`, which does not know whether the name is there. -/
def perfExit (memory : Memory) : Option Memory :=
  if .procEntry ∈ memory.live then memory.free .procEntry
  else if kernel.removesAbsent then some memory else none

/-- `del_gendisk` for a disk that was never added. It does not drop the reference to the disk. -/
def delGendisk (memory : Memory) : Option Memory :=
  if kernel.deletesUnadded then some memory else none

/-- `fb_init` from the label `FAIL_CREATE_VDEVICE` on. -/
def failCreateVdevice : Memory → Option Memory := freeIfSet none .fb some

/-- `fb_init` from the label `FAIL_CREATE_SSD_INFO` on. -/
def failCreateSsdInfo (memory : Memory) : Option Memory := do
  let memory ← destroyVdevice g (some .fb) memory
  failCreateVdevice memory

/-- `fb_init` from the label `FAIL_CREATE_MAPPING_CONTEXT` on. -/
def failCreateMappingContext (memory : Memory) : Option Memory := do
  let memory ← destroySsdInfo g (some .fb) memory
  failCreateSsdInfo g memory

/-- `fb_init` from the label `FAIL_ALLOC_BDEV_QUEUE` on. -/
def failAllocBdevQueue (memory : Memory) : Option Memory := do
  let memory ← destroyPgFtl (some .fb) memory
  failCreateMappingContext g memory

/-- `fb_init` from the label `FAIL_REGISTER_BDEV` on: `blk_cleanup_queue`. -/
def failRegisterBdev (memory : Memory) : Option Memory := do
  let memory ← memory.free .reqQueue
  failAllocBdevQueue g memory

/-- `fb_init` from the label `FAIL_ALLOC_DISK` on: `unregister_blkdev`. -/
def failAllocDisk (memory : Memory) : Option Memory := do
  let memory ← memory.free .blkdev
  failRegisterBdev g memory

/-- `fb_init` from the label `FAIL_CREATE_WRITE_BUFFER` on. -/
def failCreateWriteBuffer (memory : Memory) : Option Memory := do
  let memory ← delGendisk kernel memory
  failAllocDisk g memory

/-- `fb_init` after `perf_init`. -/
def createContext : Memory → Option (Ret × Memory) :=
  orGoto (ask kernel.grants .fb) some <|
  orGoto (createVdevice g kernel.grants) failCreateVdevice <|
  orGoto (createSsdInfo g kernel.grants) (failCreateSsdInfo g) <|
  orGoto (createPgFtl g kernel.grants) (failCreateMappingContext g) <|
  orGoto (ask kernel.grants .reqQueue) (failAllocBdevQueue g) <|
  orGoto (ask kernel.grants .blkdev) (failRegisterBdev g) <|
  orGoto (ask kernel.grants .gd) (failAllocDisk g) <|
  orGoto (createWriteBuffer kernel.grants) (failCreateWriteBuffer g kernel)
  created

/-- `fb_init`. No label calls `perf_exit`. -/
def fbInit (memory : Memory) : Option (Ret × Memory) :=
  createContext g kernel (perfInit kernel memory)

/-- `fb_exit` before `perf_exit`: `put_disk`, `unregister_blkdev`, `blk_cleanup_queue` and then as
at the end of `fb_init`. -/
def destroyContext (memory : Memory) : Option Memory := do
  let memory ← memory.free .gd
  let memory ← memory.free .blkdev
  let memory ← memory.free .reqQueue
  let memory ← destroyWriteBuffer (some .fb) memory
  failAllocBdevQueue g memory

/-- `fb_exit` -/
def fbExit (memory : Memory) : Option Memory := do
  let memory ← destroyContext g memory
  perfExit kernel memory

end Lifetime

end FlashBench
