import FlashBench.Requests

/-!
# Runs of the device

`HostRun` follows a sequence of requests none of which leaves `make_request`
through `FAIL`: the content of the device is then the disk of the host.
`DeviceRun` also allows requests that fail and background GC between requests.
-/

namespace FlashBench

/-- The disk of a host that has carried out some requests. -/
def hostDisk (bios : List Bio) : Store ℕ PageData :=
  bios.foldl (fun disk bio => bio.effect disk) fun _ => none

theorem hostDisk_concat (bios : List Bio) (bio : Bio) :
    hostDisk (bios ++ [bio]) = bio.effect (hostDisk bios) := by
  simp [hostDisk]

/-- The states of the device between two requests, any of which may fail, with background GC in
between. -/
inductive DeviceRun (G : Geometry) (garbage : Garbage) (wbData : ℕ → PageData) :
    FbContext → Prop where
  | create {ctx : FbContext} (created : FbContext.create G garbage wbData = some ctx) :
      DeviceRun G garbage wbData ctx
  | request {ctx : FbContext} (run : DeviceRun G garbage wbData ctx) {bio : Bio}
      (inRange : bio.InRange G) {allocated : Bool} {result : BioResult}
      (served : ctx.makeRequest G allocated bio = some result) :
      DeviceRun G garbage wbData result.ctx
  | backgroundGc {ctx : FbContext} (run : DeviceRun G garbage wbData ctx) :
      DeviceRun G garbage wbData { ctx with fb := (ctx.fb.triggerBgGc G).2 }

/-- The runs without background GC in which no request has failed, with their requests. -/
inductive HostRun (G : Geometry) (garbage : Garbage) (wbData : ℕ → PageData) :
    List Bio → FbContext → Prop where
  | create {ctx : FbContext} (created : FbContext.create G garbage wbData = some ctx) :
      HostRun G garbage wbData [] ctx
  | request {bios : List Bio} {ctx : FbContext} (run : HostRun G garbage wbData bios ctx)
      {bio : Bio} (inRange : bio.InRange G) {allocated : Bool} {result : BioResult}
      (served : ctx.makeRequest G allocated bio = some result)
      (succeeded : result.failExit = false) :
      HostRun G garbage wbData (bios ++ [bio]) result.ctx

section Runs

variable {G : Geometry} {garbage : Garbage} {wbData : ℕ → PageData} {ctx : FbContext}
  {bios : List Bio} {bio : Bio} {allocated : Bool} {result : BioResult}

theorem DeviceInv.of_create (created : FbContext.create G garbage wbData = some ctx) :
    DeviceInv G garbage ctx ∧ ctx.err = garbage.err ∧ ctx.wb.writingPgs = [] ∧
      (∀ lpa, ctx.wb.content lpa = none) ∧ ∀ lpa, ctx.fb.flashData G lpa = none := by
  unfold FbContext.create at created
  rcases fbCreated : Fb.create G garbage with _ | fb
  · simp [fbCreated] at created
  · simp only [fbCreated, Option.map_some, Option.some.injEq] at created
    subst created
    have empty : ∀ lpa, (WriteBuffer.create (nrLpInPp * G.numChips) wbData).content lpa = none :=
      fun _ => rfl
    refine ⟨⟨.create fbCreated, .create _ _, fun lpa present => absurd (empty lpa) present⟩, rfl, rfl,
      empty, fun lpa => ?_⟩
    simp [Fb.flashData, l2p, (Created.of_create fbCreated).mappings]

theorem RequestOutcome.of_served (inv : DeviceInv G garbage ctx)
    (idle : ctx.err = false → ctx.wb.writingPgs = []) (inRange : bio.InRange G)
    (served : ctx.makeRequest G allocated bio = some result) :
    RequestOutcome G garbage ctx bio result := by
  rcases makeRequest_spec inv idle inRange allocated with ⟨other, otherServed, outcome⟩
  rw [served, Option.some.injEq] at otherServed
  rw [otherServed]
  exact outcome

theorem DeviceRun.inv (run : DeviceRun G garbage wbData ctx) :
    DeviceInv G garbage ctx ∧ (ctx.err = false → ctx.wb.writingPgs = []) := by
  induction run with
  | create created =>
      rcases DeviceInv.of_create created with ⟨inv, _, idle, _⟩
      exact ⟨inv, fun _ => idle⟩
  | request _ inRange served ih =>
      have outcome := RequestOutcome.of_served ih.1 ih.2 inRange served
      exact ⟨outcome.inv, fun noErr => outcome.idle (outcome.err ▸ noErr)⟩
  | backgroundGc _ ih =>
      exact ⟨⟨ih.1.reachable.exec .backgroundGc trivial, ih.1.wbOk, ih.1.inRange⟩, ih.2⟩

theorem HostRun.deviceRun (run : HostRun G garbage wbData bios ctx) :
    DeviceRun G garbage wbData ctx := by
  induction run with
  | create created => exact .create created
  | request _ inRange served _ ih => exact ih.request inRange served

/-- A request that has succeeded has found the error flag cleared. -/
theorem HostRun.noErr (run : HostRun G garbage wbData bios ctx) (begun : bios ≠ []) :
    ctx.err = false := by
  cases run with
  | create => exact absurd rfl begun
  | request run inRange served succeeded =>
      have before := run.deviceRun.inv
      exact (RequestOutcome.of_served before.1 before.2 inRange served).err.trans succeeded

/-- The content of the device is the disk of the host. -/
theorem HostRun.content_eq (run : HostRun G garbage wbData bios ctx) :
    ctx.content G = hostDisk bios := by
  induction run with
  | create created =>
      rcases DeviceInv.of_create created with ⟨_, _, _, buffered, flash⟩
      funext lpa
      simp [FbContext.content, Store.overlay, buffered, flash, hostDisk]
  | request run inRange served succeeded ih =>
      have before := run.deviceRun.inv
      have outcome := RequestOutcome.of_served before.1 before.2 inRange served
      rw [outcome.content succeeded, ih, hostDisk_concat]

end Runs

/-- The device as configured after `fb_init`. -/
def newDevice : FbContext where
  err := false
  fb := newFb
  wb := .create (nrLpInPp * Geometry.configured.numChips) fun _ => erasedPage

theorem newDevice_created :
    FbContext.create .configured .zeroed (fun _ => erasedPage) = some newDevice := by
  rw [FbContext.create, newFb_created]
  rfl

theorem newDevice_run : HostRun .configured .zeroed (fun _ => erasedPage) [] newDevice :=
  .create newDevice_created

/-- The state after some requests; `none` when one of them leaves `make_request` through `FAIL` or
never returns. -/
def FbContext.serveAll (G : Geometry) (ctx : FbContext) : List Bio → Option FbContext
  | [] => some ctx
  | bio :: bios =>
      match ctx.makeRequest G true bio with
      | some result => if result.failExit then none else result.ctx.serveAll G bios
      | none => none

theorem HostRun.serveAll {G : Geometry} {garbage : Garbage} {wbData : ℕ → PageData}
    {ctx after : FbContext} {bios more : List Bio} (run : HostRun G garbage wbData bios ctx)
    (inRange : ∀ bio ∈ more, bio.InRange G) (served : ctx.serveAll G more = some after) :
    HostRun G garbage wbData (bios ++ more) after := by
  induction more generalizing ctx bios with
  | nil =>
      simp only [FbContext.serveAll, Option.some.injEq] at served
      rw [List.append_nil, ← served]
      exact run
  | cons bio more ih =>
      unfold FbContext.serveAll at served
      rcases first : ctx.makeRequest G true bio with _ | result
      · simp [first] at served
      · simp only [first] at served
        split_ifs at served with failed
        have next := run.request (inRange bio (by simp)) first (by simpa using failed)
        rw [List.append_cons]
        exact ih next (fun other mem => inRange other (by simp [mem])) served

/-- The device with three blocks on each chip after `fb_init`. -/
def smallDevice : FbContext where
  err := false
  fb := threeBlocksFb
  wb := .create (nrLpInPp * Geometry.threeBlocks.numChips) fun _ => erasedPage

theorem smallDevice_run : HostRun .threeBlocks .zeroed (fun _ => erasedPage) [] smallDevice := by
  apply HostRun.create
  rw [FbContext.create, threeBlocksFb_created]
  rfl

/-- A bio of whole pages from an LPA on. -/
def pagesBio (op : ReqOp) (lpa : ℕ) (pages : List PageData) : Bio where
  op := op
  preflush := false
  biSector := 8 * lpa
  biSize := logicalPageSize * pages.length
  pages := pages

/-- LPAs 0 to 7 fill the write buffer of the small device. -/
def fillBuffer : Bio := pagesBio .write 0 (List.replicate 8 (filledPage 0))

/-- They are flushed for LPAs 8 and 9, and LPAs 2 to 5 are written once more. -/
def bufferBios : List Bio :=
  [fillBuffer, pagesBio .write 8 (List.replicate 2 (filledPage 1)),
    pagesBio .write 2 (List.replicate 4 (filledPage 2))]

theorem bufferBios_served : (smallDevice.serveAll .threeBlocks bufferBios).isSome := by
  decide +kernel

/-- The small device with LPAs 0, 1, 6 and 7 on flash, and LPAs 2 to 5, 8 and 9 in the write
buffer. -/
@[irreducible]
def bufferedDevice : FbContext :=
  (smallDevice.serveAll .threeBlocks bufferBios).get bufferBios_served

theorem bufferedDevice_run :
    HostRun .threeBlocks .zeroed (fun _ => erasedPage) bufferBios bufferedDevice := by
  apply smallDevice_run.serveAll
  · decide
  · unfold bufferedDevice
    exact (Option.some_get _).symm

end FlashBench
