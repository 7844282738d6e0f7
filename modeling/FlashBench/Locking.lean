import FlashBench.Library.Paths

/-!
# Locking

The locks of the device and the paths through the functions that take them. A path keeps the
order of the calls; the conditions of the source are left open, as are the chips that an
operation goes to. A `goto` is written as what follows its label.
-/

namespace FlashBench

/-- The completions that serve as locks: of the device, of the mapping context, of the queue
of a chip, of a request and of the write buffer. -/
inductive DeviceLock where
  | devLock
  | mappingContextLock
  | queueLock (bus chip : ℕ)
  | bioLock (bio : ℕ)
  | wbLock
  deriving DecidableEq

namespace Locking

open Paths

/-- The paths through a function of the device. -/
abbrev Function (Value : Type) := Paths DeviceLock Value

/-- A function that takes a lock, works on the data below it and returns how that went. -/
def underLock (lock : DeviceLock) : Function Bool := do
  acquire lock
  let result ← condition
  release lock
  return result

/-! ### Bus controllers -/

/-- `opr_queue_put_entry`; the value is whether there was room. -/
def oprQueuePutEntry (bus chip : ℕ) : Function Bool := underLock (.queueLock bus chip)

/-- `opr_queue_get_first`; the value is whether there was an operation. -/
def oprQueueGetFirst (bus chip : ℕ) : Function Bool := underLock (.queueLock bus chip)

/-- `opr_queue_remove_first` -/
def oprQueueRemoveFirst (bus chip : ℕ) : Function Bool := underLock (.queueLock bus chip)

/-- The attempts may be any number: a path does not tell when there is room in the queue. -/
def fbIssueOperation (bus chip : ℕ) : Function Unit := repeatUntil do
  if ← oprQueuePutEntry bus chip then return some ()
  else return none

/-- `vdevice_read`, `vdevice_write` and `vdevice_erase`, at any chip. -/
def vdeviceOperation : Function Unit := do
  fbIssueOperation (← any) (← any)

/-- `dec_bio_req_count`; the value is whether the count is 0 now. -/
def decBioReqCount (bio : ℕ) : Function Bool := underLock (.bioLock bio)

/-! ### Write buffer -/

/-- `fb_get_pg_data`; the value is whether the page is buffered. -/
def fbGetPgData : Function Bool := underLock .wbLock

/-- `fb_get_pgs_to_write`; the value is whether there are enough pages. -/
def fbGetPgsToWrite : Function Bool := underLock .wbLock

/-! ### Garbage collection and page mapping -/

/-- The functions of `gc_page_mapping.rs`, which take no lock but issue operations. -/
def gcPageMapping : Function Bool := repeatUntil do
  if ← condition then return some (← condition)
  vdeviceOperation
  return none

/-- `trigger_bg_gc` -/
def triggerBgGc : Function Bool := do
  let fail : Function Bool := do
    release .mappingContextLock
    return false
  let done : Function Bool := do
    release .mappingContextLock
    return true
  acquire .mappingContextLock
  if ← condition then
    -- no active block at the previous chip: fb_bgc_prepare_act_blks
    if ← gcPageMapping then done else fail
  -- fb_bgc_set_vic_blks, fb_bgc_read_valid_pgs
  else if !(← gcPageMapping) then fail
  else if !(← gcPageMapping) then fail
  -- no page to copy
  else if ← condition then done
  -- prog_valid_pgs_to_gc_blks, update_gc_blks
  else if !(← gcPageMapping) then fail
  else if !(← gcPageMapping) then fail
  else done

/-- `_fb_del_invalidate_pgs`; its loop makes no calls. -/
def fbDelInvalidatePgs : Function Unit := do
  acquire .mappingContextLock
  release .mappingContextLock

/-- `make_read_request_page_mapping` -/
def makeReadRequestPageMapping : Function Bool := do
  acquire .mappingContextLock
  let isUnmapped ← condition
  if isUnmapped then
    release .mappingContextLock
    return false
  else
    vdeviceOperation
    release .mappingContextLock
    return true

/-- `make_write_request_page_mapping` after its label `FAILED`. -/
def failed : Function Bool := do
  release .mappingContextLock
  return false

/-- `make_write_request_page_mapping` once it has a page. -/
def writeNewPage : Function Bool := do
  vdeviceOperation
  -- map_logical_to_physical
  if !(← condition) then failed
  else
    release .mappingContextLock
    return true

/-- `make_write_request_page_mapping` from `alloc_new_page` on. -/
def allocNewPage : Function Bool := do
  if ← condition then writeNewPage
  else if !(← gcPageMapping) then failed
  -- alloc_new_page again
  else if ← condition then writeNewPage
  else failed

/-- `make_write_request_page_mapping` -/
def makeWriteRequestPageMapping : Function Bool := do
  acquire .mappingContextLock
  -- is_fgc_needed
  if ← condition then
    if ← gcPageMapping then allocNewPage else failed
  else allocNewPage

/-- `fb_wb_flush` -/
def fbWbFlush : Function Bool := repeatUntil do
  if !(← fbGetPgsToWrite) then return some true
  else if !(← makeWriteRequestPageMapping) then return some false
  else return none

/-- `make_discard_request_page_mapping` -/
def makeDiscardRequestPageMapping : Function Unit := do
  repeatUntil do
    if ← condition then return some ()
    else
      let isFull ← condition
      if isFull then fbDelInvalidatePgs
      return none
  let isRest ← condition
  if isRest then fbDelInvalidatePgs

/-! ### Requests -/

/-- `fb_build_bio`; a read asks the write buffer for each page. -/
def fbBuildBio (isRead : Bool) : Function Bool := do
  let allocated ← condition
  if !allocated then return false
  else
    repeatUntil do
      if ← condition then return some ()
      else
        if isRead then let _ ← fbGetPgData
        return none
    return true

/-- The loop of `make_request` over the pages of a read. -/
def readPages (bio : ℕ) : Function Unit := repeatUntil do
  if ← condition then return some ()
  else
    if !(← makeReadRequestPageMapping) then let _ ← decBioReqCount bio
    return none

/-- The loop of `make_request` over the pages of a write; `false` stands for `goto FAIL`. -/
def writePages : Function Bool := repeatUntil do
  if ← condition then return some true
  -- fb_put_pg
  else if ← condition then return none
  else if ← fbWbFlush then return none
  else return some false

/-- `make_request`; both its labels end with the return of the lock. -/
def makeRequest (bio : ℕ) (isRead : Bool) : Function Unit := do
  let reqFinish : Function Unit := release .devLock
  let fail : Function Unit := release .devLock
  acquire .devLock
  -- _fb->err
  if ← condition then fail
  -- REQ_PREFLUSH
  else if ← condition then reqFinish
  -- REQ_OP_DISCARD
  else if ← condition then
    makeDiscardRequestPageMapping
    reqFinish
  else if !(← fbBuildBio isRead) then fail
  else if isRead then
    -- every page was found in the write buffer
    if ← condition then reqFinish
    else
      readPages bio
      reqFinish
  else
    fbDelInvalidatePgs
    if !(← writePages) then fail else reqFinish

/-! ### What the functions do to the locks -/

variable {before : DeviceLock → LockPhase} {lock : DeviceLock} {bio : ℕ}

/-- A thread outside of all queues. -/
def QueuesFree (before : DeviceLock → LockPhase) : Prop :=
  ∀ bus chip, before (.queueLock bus chip) = .outside

theorem QueuesFree.update (free : QueuesFree before) (phase : LockPhase) :
    QueuesFree (Function.update before .mappingContextLock phase) := by
  intro bus chip
  rw [Function.update_of_ne (by simp)]
  exact free bus chip

theorem leads_underLock (free : before lock = .outside) :
    Leads before (underLock lock) before := by
  apply Leads.bind (.acquire free)
  intro _
  apply Leads.bind .condition
  intro _
  apply Leads.bind (.release free)
  intro _
  exact .pure _

theorem leads_vdeviceOperation (queues : QueuesFree before) :
    Leads before vdeviceOperation before := by
  apply Leads.bind .any
  intro bus
  apply Leads.bind .any
  intro chip
  apply Leads.repeatUntil
  apply Leads.bind (leads_underLock (queues bus chip))
  intro stored
  split
  · exact .pure _
  · exact .pure _

theorem leads_gcPageMapping (queues : QueuesFree before) : Leads before gcPageMapping before := by
  apply Leads.repeatUntil
  apply Leads.bind .condition
  intro leaves
  split
  · apply Leads.bind .condition
    intro result
    exact .pure _
  · apply Leads.bind (leads_vdeviceOperation queues)
    intro _
    exact .pure _

theorem leads_fbDelInvalidatePgs (mapping : before .mappingContextLock = .outside) :
    Leads before fbDelInvalidatePgs before :=
  .bind (.acquire mapping) fun _ => .release mapping

theorem leads_releaseMapping (mapping : before .mappingContextLock = .outside) (result : Bool) :
    Leads (Function.update before .mappingContextLock .inside)
      (do release .mappingContextLock; return result) before :=
  .bind (.release mapping) fun _ => .pure _

theorem leads_triggerBgGc (mapping : before .mappingContextLock = .outside)
    (queues : QueuesFree before) : Leads before triggerBgGc before := by
  have fail := leads_releaseMapping mapping false
  have done := leads_releaseMapping mapping true
  have collects := leads_gcPageMapping (queues.update .inside)
  apply Leads.bind (.acquire mapping)
  intro _
  apply Leads.bind .condition
  intro noActiveBlock
  split
  · apply Leads.bind collects
    intro prepared
    split
    · exact done
    · exact fail
  · apply Leads.bind collects
    intro victims
    split
    · exact fail
    · apply Leads.bind collects
      intro read
      split
      · exact fail
      · apply Leads.bind .condition
        intro nothing
        split
        · exact done
        · apply Leads.bind collects
          intro programmed
          split
          · exact fail
          · apply Leads.bind collects
            intro updated
            split
            · exact fail
            · exact done

theorem leads_makeReadRequestPageMapping (mapping : before .mappingContextLock = .outside)
    (queues : QueuesFree before) : Leads before makeReadRequestPageMapping before := by
  apply Leads.bind (.acquire mapping)
  intro _
  apply Leads.bind .condition
  intro isUnmapped
  split
  · exact leads_releaseMapping mapping false
  · apply Leads.bind (leads_vdeviceOperation (queues.update .inside))
    intro _
    exact leads_releaseMapping mapping true

theorem leads_makeWriteRequestPageMapping (mapping : before .mappingContextLock = .outside)
    (queues : QueuesFree before) : Leads before makeWriteRequestPageMapping before := by
  have fails : Leads (Function.update before .mappingContextLock .inside) failed before :=
    leads_releaseMapping mapping false
  have collects := leads_gcPageMapping (queues.update .inside)
  have writes : Leads (Function.update before .mappingContextLock .inside) writeNewPage before := by
    apply Leads.bind (leads_vdeviceOperation (queues.update .inside))
    intro _
    apply Leads.bind .condition
    intro mapped
    split
    · exact fails
    · exact leads_releaseMapping mapping true
  have allocates :
      Leads (Function.update before .mappingContextLock .inside) allocNewPage before := by
    apply Leads.bind .condition
    intro allocated
    split
    · exact writes
    · apply Leads.bind collects
      intro collected
      split
      · exact fails
      · apply Leads.bind .condition
        intro allocatedAgain
        split
        · exact writes
        · exact fails
  apply Leads.bind (.acquire mapping)
  intro _
  apply Leads.bind .condition
  intro isFgcNeeded
  split
  · apply Leads.bind collects
    intro collected
    split
    · exact allocates
    · exact fails
  · exact allocates

theorem leads_fbWbFlush (mapping : before .mappingContextLock = .outside)
    (queues : QueuesFree before) (buffer : before .wbLock = .outside) :
    Leads before fbWbFlush before := by
  apply Leads.repeatUntil
  apply Leads.bind (leads_underLock buffer)
  intro enough
  split
  · exact .pure _
  · apply Leads.bind (leads_makeWriteRequestPageMapping mapping queues)
    intro written
    split
    · exact .pure _
    · exact .pure _

theorem leads_makeDiscardRequestPageMapping
    (mapping : before .mappingContextLock = .outside) :
    Leads before makeDiscardRequestPageMapping before := by
  have invalidates := leads_fbDelInvalidatePgs mapping
  refine Leads.bind (.repeatUntil ?_) fun _ => ?_
  · apply Leads.bind .condition
    intro leaves
    split
    · exact .pure _
    · apply Leads.bind .condition
      intro isFull
      split
      · exact .bind invalidates fun _ => .pure _
      · exact .pure _
  · apply Leads.bind .condition
    intro isRest
    split
    · exact invalidates
    · exact .pure _

theorem leads_fbBuildBio (isRead : Bool) (buffer : before .wbLock = .outside) :
    Leads before (fbBuildBio isRead) before := by
  apply Leads.bind .condition
  intro allocated
  split
  · exact .pure _
  · refine Leads.bind (.repeatUntil ?_) fun _ => .pure _
    apply Leads.bind .condition
    intro leaves
    split
    · exact .pure _
    · split
      · exact .bind (leads_underLock buffer) fun _ => .pure _
      · exact .pure _

theorem leads_readPages (mapping : before .mappingContextLock = .outside)
    (queues : QueuesFree before) (request : before (.bioLock bio) = .outside) :
    Leads before (readPages bio) before := by
  apply Leads.repeatUntil
  apply Leads.bind .condition
  intro leaves
  split
  · exact .pure _
  · apply Leads.bind (leads_makeReadRequestPageMapping mapping queues)
    intro issued
    split
    · exact .bind (leads_underLock request) fun _ => .pure _
    · exact .pure _

theorem leads_writePages (mapping : before .mappingContextLock = .outside)
    (queues : QueuesFree before) (buffer : before .wbLock = .outside) :
    Leads before writePages before := by
  apply Leads.repeatUntil
  apply Leads.bind .condition
  intro leaves
  split
  · exact .pure _
  · apply Leads.bind .condition
    intro put
    split
    · exact .pure _
    · apply Leads.bind (leads_fbWbFlush mapping queues buffer)
      intro flushed
      split
      · exact .pure _
      · exact .pure _

theorem leads_makeRequest (isRead : Bool) (device : before .devLock = .outside)
    (mapping : before .mappingContextLock = .outside) (queues : QueuesFree before)
    (buffer : before .wbLock = .outside) (request : before (.bioLock bio) = .outside) :
    Leads before (makeRequest bio isRead) before := by
  have finish : Leads (Function.update before .devLock .inside) (release .devLock) before :=
    .release device
  have keeps {other : DeviceLock} (free : before other = .outside) (different : other ≠ .devLock) :
      Function.update before .devLock .inside other = .outside := by
    rw [Function.update_of_ne different]
    exact free
  have mapping' := keeps mapping (by simp)
  have buffer' := keeps buffer (by simp)
  have request' := keeps request (by simp)
  have queues' : QueuesFree (Function.update before .devLock .inside) := fun bus chip =>
    keeps (queues bus chip) (by simp)
  apply Leads.bind (.acquire device)
  intro _
  apply Leads.bind .condition
  intro err
  split
  · exact finish
  · apply Leads.bind .condition
    intro preflush
    split
    · exact finish
    · apply Leads.bind .condition
      intro discard
      split
      · exact .bind (leads_makeDiscardRequestPageMapping mapping') fun _ => finish
      · apply Leads.bind (leads_fbBuildBio isRead buffer')
        intro built
        split
        · exact finish
        · split
          · apply Leads.bind .condition
            intro noPages
            split
            · exact finish
            · exact .bind (leads_readPages mapping' queues' request') fun _ => finish
          · apply Leads.bind (leads_fbDelInvalidatePgs mapping')
            intro _
            apply Leads.bind (leads_writePages mapping' queues' buffer')
            intro written
            split
            · exact finish
            · exact finish

/-- The paths of the requests, of the background thread and of the bus controllers. -/
inductive DevicePath : List (DeviceLock × CompletionCall) → Prop where
  | request (bio : ℕ) (isRead : Bool) {path : List (DeviceLock × CompletionCall)}
      (taken : makeRequest bio isRead path ()) : DevicePath path
  | background {path : List (DeviceLock × CompletionCall)} {result : Bool}
      (taken : triggerBgGc path result) : DevicePath path
  | getFirst (bus chip : ℕ) {path : List (DeviceLock × CompletionCall)} {result : Bool}
      (taken : oprQueueGetFirst bus chip path result) : DevicePath path
  | removeFirst (bus chip : ℕ) {path : List (DeviceLock × CompletionCall)} {result : Bool}
      (taken : oprQueueRemoveFirst bus chip path result) : DevicePath path
  | release (bio : ℕ) {path : List (DeviceLock × CompletionCall)} {result : Bool}
      (taken : decBioReqCount bio path result) : DevicePath path

/-- In every run of the threads of the device, each of its locks is a mutex. -/
theorem deviceThreads_exclude {Thread : Type} [DecidableEq Thread]
    {state : ThreadsState Thread DeviceLock} (run : ThreadsRun DevicePath state)
    (lock : DeviceLock) : LockExcludes state.locks lock := by
  have queues : QueuesFree fun _ => .outside := fun _ _ => rfl
  have balanced (path : List (DeviceLock × CompletionCall)) (known : DevicePath path) :
      follow (fun _ => .outside) path = some fun _ => .outside := by
    cases known with
    | request bio isRead taken => exact leads_makeRequest isRead rfl rfl queues rfl rfl _ _ taken
    | background taken => exact leads_triggerBgGc rfl queues _ _ taken
    | getFirst bus chip taken => exact leads_underLock rfl _ _ taken
    | removeFirst bus chip taken => exact leads_underLock rfl _ _ taken
    | release bio taken => exact leads_underLock rfl _ _ taken
  exact ((run.lockRun balanced).1.tokenKept lock).lockExcludes

/-- The idiom of the locks is a mutex, and every path gives back each lock that it takes. -/
theorem completionLocks_exclude :
    (∀ {Thread Lock : Type} [DecidableEq Thread] [DecidableEq Lock]
      {state : LockState Thread Lock}, LockRun state → ∀ lock, LockExcludes state lock) ∧
    (∀ bio isRead, LocksBalanced (makeRequest bio isRead)) ∧
    LocksBalanced makeWriteRequestPageMapping ∧
    LocksBalanced makeReadRequestPageMapping ∧
    LocksBalanced fbDelInvalidatePgs ∧
    LocksBalanced triggerBgGc := by
  have queues : QueuesFree fun _ => .outside := fun _ _ => rfl
  refine ⟨fun run lock => (run.tokenKept lock).lockExcludes, fun bio isRead => ?_, ?_, ?_, ?_, ?_⟩
  · exact (leads_makeRequest isRead rfl rfl queues rfl rfl).locksBalanced
  · exact (leads_makeWriteRequestPageMapping rfl queues).locksBalanced
  · exact (leads_makeReadRequestPageMapping rfl queues).locksBalanced
  · exact (leads_fbDelInvalidatePgs rfl).locksBalanced
  · exact (leads_triggerBgGc rfl queues).locksBalanced

/-- A request takes the device lock, and background GC takes and returns the mapping lock before
the request gets it. -/
def contention : List (ℕ × DeviceLock × CompletionCall) :=
  [(0, .devLock, .wait), (1, .mappingContextLock, .wait), (0, .devLock, .reinit),
    (1, .mappingContextLock, .reinit), (1, .mappingContextLock, .complete),
    (0, .mappingContextLock, .wait)]

/-- Between the wait and the reinitialisation of the request background GC has to wait for the
mapping lock, and another request for the device lock. -/
theorem completionLocks_exclude_contention : ∃ state : LockState ℕ DeviceLock,
    LockState.created.performAll contention = some state ∧
    state.phase 0 .devLock = .inside ∧ state.phase 0 .mappingContextLock = .waited ∧
    (state.perform 1 .mappingContextLock .wait).isNone ∧
    (state.perform 2 .devLock .wait).isNone ∧ ∀ lock, LockExcludes state lock := by
  refine ⟨_, rfl, rfl, rfl, rfl, rfl, fun lock => ?_⟩
  exact completionLocks_exclude.1 (LockRun.created.performAll contention rfl) lock

end Locking

end FlashBench
