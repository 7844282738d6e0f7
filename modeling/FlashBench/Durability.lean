import FlashBench.BackgroundGc
import FlashBench.HostContract
import FlashBench.Library.WriteBack

/-!
# How far the flash lags behind

The write buffer is memory of the host, so the flash alone is what would be left without
it. The flash holds the disk of the host at an earlier moment, except that pages which
the host has written since may have no data at all: their old data are given up when
the new data enter the buffer. No more pages are affected than the buffer has entries.
-/

namespace FlashBench

open StoreOp

/-! ### Requests page by page -/

/-- The operations on single pages that a request stands for. -/
def Bio.pageOps (bio : Bio) : List (StoreOp ℕ PageData) :=
  match bio.op with
  | .read => []
  | .write => bio.written.map fun pair => .put pair.1 pair.2
  | .discard => (Fb.discardLpas bio.biSector bio.biSize).map .trim

section PageOps

variable {G : Geometry} {bio : Bio}

theorem Bio.InRange.storeAfter_pageOps (inRange : bio.InRange G) (ops : List (StoreOp ℕ PageData)) :
    storeAfter (ops ++ bio.pageOps) = bio.effect (storeAfter ops) := by
  unfold Bio.pageOps Bio.effect
  rcases kind : bio.op with _ | _ | _
  · rw [List.append_nil]
  · exact storeAfter_puts ops bio.written
  · simp only
    rw [storeAfter_trims]
    funext lpa
    rw [Store.discard_apply]
    simp only [inRange.mem_discardLpas kind]

/-- The disk of the host, page by page. -/
theorem hostDisk_eq_storeAfter {bios : List Bio} (inRange : ∀ bio ∈ bios, bio.InRange G) :
    hostDisk bios = storeAfter (bios.flatMap Bio.pageOps) := by
  induction bios using List.reverseRecOn with
  | nil => rfl
  | append_singleton bios bio ih =>
      rw [hostDisk_concat, List.flatMap_append, List.flatMap_singleton,
        (inRange bio (by simp)).storeAfter_pageOps, ih fun other mem => inRange other (by simp [mem])]

end PageOps

/-! ### The flash lags behind -/

/-- The flash has seen the first of these operations and the write buffer has seen the others. -/
def FlashLags (G : Geometry) (pending : List ℕ) (ops : List (StoreOp ℕ PageData))
    (ctx : FbContext) : Prop :=
  ∃ done later, ops = done ++ later ∧
    Lagging pending done later ctx.wb.content (ctx.fb.flashData G)

section Steps

variable {G : Geometry} {garbage : Garbage} {ctx : FbContext} {pending : List ℕ} {lpa : ℕ}
  {data : PageData} {ops : List (StoreOp ℕ PageData)} {bio : Bio}

theorem content_eq_none_of_empty {capacity : ℕ} {wb : WriteBuffer PageData} (inv : WbOk capacity wb)
    (idle : wb.writingPgs = []) (empty : wb.bufPgs = []) : wb.content = fun _ => none := by
  funext lpa
  rcases found : wb.hashPgs lpa with _ | i
  · simp [WriteBuffer.content, WriteBuffer.getPgData, WriteBuffer.getBufPg, found]
  · have held := (inv.held_of_hash found).1
    simp [idle, empty] at held

/-- A flush that makes room for a page empties the whole buffer: it holds a number of pages
that fills physical pages. -/
theorem wbFlush_empties (inv : DeviceInv G garbage ctx) (idle : ctx.wb.writingPgs = [])
    (full : ctx.wb.freePgs = []) (ok : (ctx.wbFlush G).1 = .ok) :
    (ctx.wbFlush G).2.wb.bufPgs = [] := by
  have run := wbFlush_run inv.buffered idle
  rcases run.done ok with ⟨_, left, few⟩
  have lengths := inv.wbOk.lengths
  simp only [idle, full, List.length_nil] at lengths
  rw [left, List.length_drop] at few
  rw [left, List.drop_eq_nil_iff]
  simp only [nrLpInPp] at lengths few ⊢
  omega

theorem FlashLags.wbFlush (inv : DeviceInv G garbage ctx) (idle : ctx.wb.writingPgs = [])
    (full : ctx.wb.freePgs = []) (ok : (ctx.wbFlush G).1 = .ok) (lags : FlashLags G pending ops ctx) :
    FlashLags G pending ops (ctx.wbFlush G).2 := by
  have outcome := wbFlush_spec inv idle
  have empty := content_eq_none_of_empty outcome.inv.wbOk (outcome.done ok).1
    (wbFlush_empties inv idle full ok)
  have moved : (ctx.wbFlush G).2.fb.flashData G = ctx.content G := by
    rw [← outcome.content, FbContext.content, empty]
    rfl
  rcases lags with ⟨done, later, rfl, lagging⟩
  refine ⟨done ++ later, [], by simp, ?_⟩
  rw [empty, moved]
  exact lagging.flush

theorem FlashLags.putPg (wbOk : WbOk (nrLpInPp * G.numChips) ctx.wb) {wb : WriteBuffer PageData}
    (put : ctx.wb.putPg lpa data = some wb) (lags : FlashLags G (lpa :: pending) ops ctx) :
    FlashLags G pending (ops ++ [.put lpa data]) { ctx with wb := wb } := by
  rcases lags with ⟨done, later, rfl, lagging⟩
  refine ⟨done, later ++ [.put lpa data], by simp, ?_⟩
  have content := (WriteBuffer.putPg_some wbOk put).2.1
  simp only [content]
  exact lagging.put data

/-- One page of a write. -/
theorem FlashLags.putOrFlush (inv : DeviceInv G garbage ctx) (idle : ctx.wb.writingPgs = [])
    (ok : (ctx.putOrFlush G 2 lpa data).1 = .ok) (lags : FlashLags G (lpa :: pending) ops ctx) :
    FlashLags G pending (ops ++ [.put lpa data]) (ctx.putOrFlush G 2 lpa data).2 := by
  rcases put : ctx.wb.putPg lpa data with _ | wb
  · have outcome := wbFlush_spec inv idle
    have full := (WriteBuffer.putPg_eq_none.mp put).2
    have flushedLags := lags.wbFlush inv idle full
    simp only [FbContext.putOrFlush, put] at ok ⊢
    generalize ctx.wbFlush G = flush at outcome flushedLags ok ⊢
    rcases flush with ⟨_ | _ | _, flushed⟩
    · rcases outcome.done rfl with ⟨flushedIdle, few⟩
      rcases putPg_after_flush outcome.inv flushedIdle few lpa data with ⟨wb, retry⟩
      simp only at retry
      simp only [retry]
      exact (flushedLags rfl).putPg outcome.inv.wbOk retry
    · simp at ok
    · simp at ok
  · simp only [FbContext.putOrFlush, put]
    exact lags.putPg inv.wbOk put

/-- The write loop of `make_request`. -/
theorem FlashLags.writeLoop (bio : Bio) (inv : DeviceInv G garbage ctx)
    (idle : ctx.wb.writingPgs = []) (inside : ∀ request ∈ bio.requests, request.2 < G.numLogPages)
    (ok : (ctx.writeLoop G bio).1 = .ok)
    (lags : FlashLags G (bio.requests.map Prod.snd) ops ctx) :
    FlashLags G [] (ops ++ bio.putPairs.map fun pair => .put pair.1 pair.2)
      (ctx.writeLoop G bio).2 := by
  unfold FbContext.writeLoop at ok ⊢
  revert ok
  refine forEach_rule
    (fun rest other => ∃ passed, passed ++ rest = bio.requests ∧ DeviceInv G garbage other ∧
      other.wb.writingPgs = [] ∧ FlashLags G (rest.map Prod.snd)
        (ops ++ (bio.pairsOf passed).map fun pair => .put pair.1 pair.2) other)
    (fun result => result.1 = .ok →
      FlashLags G [] (ops ++ bio.putPairs.map fun pair => .put pair.1 pair.2) result.2)
    (fun request rest other => ?_) (fun other => ?_) ?_
  · rintro ⟨passed, all, otherInv, otherIdle, soFar⟩
    have here := inside request (by simp [← all])
    have outcome := (putOrFlush_spec request.2 ((bio.pages[request.1]?).getD erasedPage) otherInv
      otherIdle here).1
    constructor
    · intro ok
      refine ⟨passed ++ [request], by simp [all], outcome.inv, outcome.idle ok, ?_⟩
      have next := soFar.putOrFlush otherInv otherIdle ok
      rw [List.append_assoc] at next
      simpa [Bio.pairsOf, FbContext.putRequest] using next
    · intro notOk ok
      exact absurd ok notOk
  · rintro ⟨passed, all, _, _, soFar⟩ _
    rw [List.append_nil] at all
    subst all
    exact soFar
  · refine ⟨[], rfl, inv, idle, ?_⟩
    simpa [Bio.pairsOf] using lags

theorem FlashLags.invalidate {lpas : List ℕ} (inside : ∀ lpa ∈ lpas, lpa < G.numLogPages)
    (lags : FlashLags G [] ops ctx) :
    FlashLags G lpas ops { ctx with fb := ctx.fb.delInvalidatePgs G lpas } := by
  rcases lags with ⟨done, later, rfl, lagging⟩
  refine ⟨done, later, rfl, ?_⟩
  rw [flashData_delInvalidatePgs ctx.fb inside]
  exact lagging.giveUp lpas

/-- `make_discard_request_page_mapping`. -/
theorem FlashLags.discard (wbOk : WbOk (nrLpInPp * G.numChips) ctx.wb) {lpas : List ℕ}
    (inside : ∀ lpa ∈ lpas, lpa < G.numLogPages) (lags : FlashLags G [] ops ctx) :
    FlashLags G [] (ops ++ lpas.map .trim)
      { ctx with
        wb := lpas.foldl (fun wb lpa => wb.rmBufPg lpa) ctx.wb
        fb := ctx.fb.discardMapped G lpas } := by
  rcases lags with ⟨done, later, rfl, lagging⟩
  refine ⟨done, later ++ lpas.map .trim, by simp, ?_⟩
  simp only [(content_foldl_rmBufPg wbOk lpas).2.1, discardMapped_eq,
    flashData_delInvalidatePgs ctx.fb inside]
  exact lagging.trims lpas

/-- Steps of the flash that the host does not see. -/
theorem FlashLags.congr {fb : Fb} (same : fb.flashData G = ctx.fb.flashData G)
    (lags : FlashLags G [] ops ctx) : FlashLags G [] ops { ctx with fb := fb } := by
  rcases lags with ⟨done, later, rfl, lagging⟩
  refine ⟨done, later, rfl, ?_⟩
  simp only [same]
  exact lagging

/-- A request that does not leave `make_request` through `FAIL`. -/
theorem FlashLags.makeRequest {allocated : Bool} {result : BioResult} (inv : DeviceInv G garbage ctx)
    (idle : ctx.wb.writingPgs = []) (inRange : bio.InRange G)
    (served : ctx.makeRequest G allocated bio = some result) (succeeded : result.failExit = false)
    (lags : FlashLags G [] ops ctx) : FlashLags G [] (ops ++ bio.pageOps) result.ctx := by
  unfold FbContext.makeRequest at served
  by_cases err : ctx.err
  · rw [if_pos err, FbContext.failWith, Option.some.injEq] at served
    simp [← served] at succeeded
  rw [if_neg err, if_neg (by simp [inRange.preflush])] at served
  unfold Bio.pageOps
  rcases kind : bio.op with _ | _ | _
  · simp only [kind] at served
    split_ifs at served
    · rw [FbContext.finish, Option.some.injEq] at served
      simpa [← served] using lags
    · rw [FbContext.failWith, Option.some.injEq] at served
      simp [← served] at succeeded
  · simp only [kind] at served
    split_ifs at served
    · have data : bio.op ≠ .discard := by simp [kind]
      have insideRequests := inRange.requests_lt data
      have insideKeys : ∀ lpa ∈ bio.requests.map Prod.snd, lpa < G.numLogPages := by
        intro lpa mem
        rcases List.mem_map.mp mem with ⟨request, requestMem, rfl⟩
        exact insideRequests request requestMem
      have early : DeviceInv G garbage
          { ctx with fb := ctx.fb.delInvalidatePgs G (bio.requests.map Prod.snd) } :=
        ⟨inv.reachable.exec (.invalidate _) insideKeys, inv.wbOk, inv.inRange⟩
      have written := (lags.invalidate insideKeys).writeLoop bio early idle insideRequests
      simp only [← inRange.putPairs_eq data]
      generalize FbContext.writeLoop G bio _ = loop at served written
      rcases loop with ⟨_ | _ | _, after⟩
      · simp only [FbContext.finish, Option.some.injEq] at served
        rw [← served]
        exact written rfl
      · simp only [FbContext.failWith, Option.some.injEq] at served
        simp [← served] at succeeded
      · simp at served
    · rw [FbContext.failWith, Option.some.injEq] at served
      simp [← served] at succeeded
  · simp only [kind, FbContext.finish, Option.some.injEq] at served
    rw [← served]
    exact lags.discard inv.wbOk (inRange.discardLpas_lt kind)

end Steps

/-! ### Runs -/

/-- The runs in which no request has failed, with their requests. Background GC runs in
between, and does not come to a FREE page. -/
inductive CollectedRun (G : Geometry) (garbage : Garbage) (wbData : ℕ → PageData) :
    List Bio → FbContext → Prop where
  | create {ctx : FbContext} (created : FbContext.create G garbage wbData = some ctx) :
      CollectedRun G garbage wbData [] ctx
  | request {bios : List Bio} {ctx : FbContext} (run : CollectedRun G garbage wbData bios ctx)
      {bio : Bio} (inRange : bio.InRange G) {allocated : Bool} {result : BioResult}
      (served : ctx.makeRequest G allocated bio = some result)
      (succeeded : result.failExit = false) :
      CollectedRun G garbage wbData (bios ++ [bio]) result.ctx
  | backgroundGc {bios : List Bio} {ctx : FbContext} (run : CollectedRun G garbage wbData bios ctx)
      (programmed : TargetsProgrammed G ctx.fb) :
      CollectedRun G garbage wbData bios { ctx with fb := (ctx.fb.triggerBgGc G).2 }

/-- What holds in every state of such a run. -/
structure Serving (G : Geometry) (garbage : Garbage) (bios : List Bio) (ctx : FbContext) : Prop where
  inv : DeviceInv G garbage ctx
  /-- The error flag is not set, unless its memory was not cleared and no request has been made. -/
  err_iff : ctx.err = true ↔ bios = [] ∧ garbage.err = true
  idle : ctx.wb.writingPgs = []
  inRange : ∀ bio ∈ bios, bio.InRange G
  lags : FlashLags G [] (bios.flatMap Bio.pageOps) ctx

/-- The flash without the write buffer, against what the host has done. -/
structure EarlierDisk (G : Geometry) (bios : List Bio) (flash : Store ℕ PageData) : Prop where
  /-- At most as many pages as the write buffer has entries are not what the host expects. -/
  few : ∃ lost : List ℕ, lost.length ≤ nrLpInPp * G.numChips ∧
    ∀ lpa ∉ lost, flash lpa = hostDisk bios lpa
  /-- There is an earlier moment at which the disk of the host was the flash, except for pages
  written or discarded since, which have their data of that moment or none. Discarded ones
  have none. -/
  earlier : ∃ done later, bios.flatMap Bio.pageOps = done ++ later ∧
    (∀ lpa, (∀ op ∈ later, op.key ≠ lpa) → flash lpa = storeAfter done lpa) ∧
    (∀ lpa, flash lpa = none ∨ flash lpa = storeAfter done lpa) ∧
    ∀ lpa, .trim lpa ∈ later → flash lpa = none

section Runs

variable {G : Geometry} {garbage : Garbage} {wbData : ℕ → PageData} {ctx : FbContext}
  {bios : List Bio}

theorem CollectedRun.serving (run : CollectedRun G garbage wbData bios ctx) :
    Serving G garbage bios ctx := by
  induction run with
  | create created =>
      rcases DeviceInv.of_create created with ⟨inv, err, idle, buffered, flash⟩
      refine ⟨inv, by simp [err], idle, by simp, [], [], rfl, ?_⟩
      rw [funext buffered, funext flash]
      exact .start
  | @request bios ctx run bio inRange allocated result served succeeded before =>
      have outcome := RequestOutcome.of_served before.inv (fun _ => before.idle) inRange served
      have noErr := outcome.err.trans succeeded
      refine ⟨outcome.inv, by simp [noErr], outcome.idle succeeded, ?_, ?_⟩
      · intro other mem
        rcases List.mem_append.mp mem with old | new
        · exact before.inRange other old
        · rw [List.mem_singleton] at new
          exact new ▸ inRange
      · rw [List.flatMap_append, List.flatMap_singleton]
        exact before.lags.makeRequest before.inv before.idle inRange served succeeded
  | backgroundGc _ programmed before =>
      refine ⟨⟨before.inv.reachable.exec .backgroundGc trivial, before.inv.wbOk,
        before.inv.inRange⟩, before.err_iff, before.idle, before.inRange, ?_⟩
      exact before.lags.congr (flashData_triggerBgGc before.inv.reachable.inv programmed)

theorem Serving.content_eq (serving : Serving G garbage bios ctx) :
    ctx.content G = hostDisk bios := by
  rcases serving.lags with ⟨done, later, ops, lagging⟩
  rw [hostDisk_eq_storeAfter serving.inRange, ops]
  exact lagging.overlay_eq

theorem HostRun.collected (run : HostRun G garbage wbData bios ctx) :
    CollectedRun G garbage wbData bios ctx := by
  induction run with
  | create created => exact .create created
  | request _ inRange served succeeded before => exact before.request inRange served succeeded

/-- In every run in which no request fails, and in which background GC does not come to a FREE
page, the flash is an earlier disk of the host, except for pages written since. -/
theorem flash_is_earlier_disk (run : CollectedRun G garbage wbData bios ctx) :
    EarlierDisk G bios (ctx.fb.flashData G) := by
  have serving := run.serving
  have disk := hostDisk_eq_storeAfter serving.inRange
  rcases serving.lags with ⟨done, later, ops, lagging⟩
  constructor
  · refine ⟨ctx.wb.bufPgs.map fun i => (ctx.wb.pgs i).lpa, ?_, fun lpa notBuffered => ?_⟩
    · have lengths := serving.inv.wbOk.lengths
      rw [List.length_map]
      omega
    · by_contra behind
      rw [disk, ops] at behind
      have cached := lagging.cached_of_behind behind
      rcases found : ctx.wb.hashPgs lpa with _ | i
      · simp [WriteBuffer.content, WriteBuffer.getPgData, WriteBuffer.getBufPg, found] at cached
      · rcases serving.inv.wbOk.held_of_hash found with ⟨writing | buffered, isLpa⟩
        · simp [serving.idle] at writing
        · exact notBuffered (List.mem_map.mpr ⟨i, buffered, isLpa⟩)
  · refine ⟨done, later, ops, fun lpa untouched => ?_, lagging.slow_or, lagging.trimmed⟩
    exact lagging.slow_eq lpa untouched List.not_mem_nil

/-- The small device after a round of background GC, which has copied LPAs 0, 1, 6 and 7. -/
@[irreducible]
def collectedDevice : FbContext :=
  { bufferedDevice with fb := (bufferedDevice.fb.triggerBgGc .threeBlocks).2 }

theorem collectedDevice_run :
    CollectedRun .threeBlocks .zeroed (fun _ => erasedPage) bufferBios collectedDevice := by
  unfold collectedDevice
  apply bufferedDevice_run.collected.backgroundGc
  decide +kernel

/-- The flash after a flush of two pages and the copy of background GC. -/
theorem flash_of_collectedDevice :
    collectedDevice.fb.programs.length = 3 ∧
    l2p .threeBlocks collectedDevice.fb.mappings 6 = some ⟨⟨⟨0, 0⟩, 2⟩, 0, 2⟩ ∧
    EarlierDisk .threeBlocks bufferBios (collectedDevice.fb.flashData .threeBlocks) :=
  ⟨by decide +kernel, by decide +kernel, flash_is_earlier_disk collectedDevice_run⟩

/-- In such a run the device holds what the host has written, and every read copies it. It fails
only when its bio cannot be allocated, or when the error flag of a device without a request was not
cleared. -/
theorem read_after_collections (run : CollectedRun G garbage wbData bios ctx) :
    ctx.content G = hostDisk bios ∧
      ∀ (bio : Bio) (allocated : Bool), bio.op = .read → bio.InRange G →
        ∃ result, ctx.makeRequest G allocated bio = some result ∧
          (result.failExit = true ↔ allocated = false ∨ (bios = [] ∧ garbage.err = true)) ∧
          (result.failExit = false → result.pages = bio.filled (hostDisk bios)) := by
  have serving := run.serving
  refine ⟨serving.content_eq, fun bio allocated read inRange => ?_⟩
  have idle : ctx.err = false → ctx.wb.writingPgs = [] := fun _ => serving.idle
  rcases makeRequest_spec serving.inv idle inRange allocated with ⟨result, served, outcome⟩
  have exit := (exit_of_served serving.inv idle inRange served).1
  simp only [serving.err_iff, read, ne_eq, reduceCtorEq, not_false_eq_true, true_and, false_and,
    or_false] at exit
  refine ⟨result, served, exit.trans or_comm, fun succeeded => ?_⟩
  rw [← serving.content_eq]
  exact outcome.pages succeeded

/-- A read of ten pages. -/
def readTen : Bio := pagesBio .read 0 (List.replicate 10 erasedPage)

/-- Pages copied by background GC and pages from the write buffer in one read. -/
theorem read_of_collectedDevice :
    ∃ result, collectedDevice.makeRequest .threeBlocks true readTen = some result ∧
      result.failExit = false ∧ result.pages = readTen.filled (hostDisk bufferBios) := by
  rcases (read_after_collections collectedDevice_run).2 readTen true rfl (by decide) with
    ⟨result, served, exit, copies⟩
  have succeeded : result.failExit = false := by
    rw [← Bool.not_eq_true, exit]
    simp [bufferBios]
  exact ⟨result, served, succeeded, copies succeeded⟩

end Runs

end FlashBench
