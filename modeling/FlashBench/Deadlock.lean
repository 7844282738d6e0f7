import FlashBench.Library.LockOrder
import FlashBench.Locking

/-!
# No deadlock

The device lock is taken first, then the lock of the mapping context, and the locks of
the queues, of the requests and of the write buffer are held across no other call. So
the threads of the device never all wait for each other, and a bus controller never
waits for a thread that waits for room in a queue.
-/

namespace FlashBench

namespace DeviceLock

/-- The order in which the locks are taken. -/
def rank : DeviceLock → ℕ
  | devLock => 0
  | mappingContextLock => 1
  | _ => 2

theorem rank_le (lock : DeviceLock) : lock.rank ≤ 2 := by
  cases lock <;> simp [rank]

end DeviceLock

namespace Locking

open Paths DeviceLock

variable {bio level : ℕ} {lock : DeviceLock}

/-! ### The functions in the order of locks -/

theorem sections_underLock (above : level ≤ rank lock) : Sections rank level (underLock lock) := by
  apply Sections.acquire above
  apply Closes.bind .condition
  intro result
  exact Closes.release.bind_pure fun _ => result

theorem sections_vdeviceOperation : Sections rank 2 vdeviceOperation := by
  apply Sections.bind .any
  intro bus
  apply Sections.bind .any
  intro chip
  apply Sections.repeatUntil
  apply Sections.bind (sections_underLock (by rfl))
  intro stored
  split
  · exact .pure _
  · exact .pure _

theorem sections_gcPageMapping : Sections rank 2 gcPageMapping := by
  apply Sections.repeatUntil
  apply Sections.bind .condition
  intro leaves
  split
  · apply Sections.bind .condition
    intro result
    exact .pure _
  · apply Sections.bind sections_vdeviceOperation
    intro _
    exact .pure _

theorem closes_mapping (result : Bool) :
    Closes rank mappingContextLock (do release mappingContextLock; return result) :=
  Closes.release.bind_pure fun _ => result

theorem sections_fbDelInvalidatePgs : Sections rank 1 fbDelInvalidatePgs := by
  apply Sections.acquire (by rfl)
  exact .release

theorem sections_triggerBgGc : Sections rank 1 triggerBgGc := by
  have fail := closes_mapping false
  have done := closes_mapping true
  apply Sections.acquire (by rfl)
  apply Closes.bind .condition
  intro noActiveBlock
  split
  · apply Closes.bind sections_gcPageMapping
    intro prepared
    split
    · exact done
    · exact fail
  · apply Closes.bind sections_gcPageMapping
    intro victims
    split
    · exact fail
    · apply Closes.bind sections_gcPageMapping
      intro read
      split
      · exact fail
      · apply Closes.bind .condition
        intro nothing
        split
        · exact done
        · apply Closes.bind sections_gcPageMapping
          intro programmed
          split
          · exact fail
          · apply Closes.bind sections_gcPageMapping
            intro updated
            split
            · exact fail
            · exact done

theorem sections_makeReadRequestPageMapping : Sections rank 1 makeReadRequestPageMapping := by
  apply Sections.acquire (by rfl)
  apply Closes.bind .condition
  intro isUnmapped
  split
  · exact closes_mapping false
  · apply Closes.bind sections_vdeviceOperation
    intro _
    exact closes_mapping true

theorem closes_writeNewPage : Closes rank mappingContextLock writeNewPage := by
  apply Closes.bind sections_vdeviceOperation
  intro _
  apply Closes.bind .condition
  intro mapped
  split
  · exact closes_mapping false
  · exact closes_mapping true

theorem closes_allocNewPage : Closes rank mappingContextLock allocNewPage := by
  apply Closes.bind .condition
  intro allocated
  split
  · exact closes_writeNewPage
  · apply Closes.bind sections_gcPageMapping
    intro collected
    split
    · exact closes_mapping false
    · apply Closes.bind .condition
      intro allocatedAgain
      split
      · exact closes_writeNewPage
      · exact closes_mapping false

theorem sections_makeWriteRequestPageMapping : Sections rank 1 makeWriteRequestPageMapping := by
  apply Sections.acquire (by rfl)
  apply Closes.bind .condition
  intro isFgcNeeded
  split
  · apply Closes.bind sections_gcPageMapping
    intro collected
    split
    · exact closes_allocNewPage
    · exact closes_mapping false
  · exact closes_allocNewPage

theorem sections_fbWbFlush : Sections rank 1 fbWbFlush := by
  apply Sections.repeatUntil
  apply Sections.bind (sections_underLock (by decide))
  intro enough
  split
  · exact .pure _
  · apply Sections.bind sections_makeWriteRequestPageMapping
    intro written
    split
    · exact .pure _
    · exact .pure _

theorem sections_makeDiscardRequestPageMapping : Sections rank 1 makeDiscardRequestPageMapping := by
  refine Sections.bind (.repeatUntil ?_) fun _ => ?_
  · apply Sections.bind .condition
    intro leaves
    split
    · exact .pure _
    · apply Sections.bind .condition
      intro isFull
      split
      · exact .bind sections_fbDelInvalidatePgs fun _ => .pure _
      · exact .pure _
  · apply Sections.bind .condition
    intro isRest
    split
    · exact sections_fbDelInvalidatePgs
    · exact .pure _

theorem sections_fbBuildBio (isRead : Bool) : Sections rank 1 (fbBuildBio isRead) := by
  apply Sections.bind .condition
  intro allocated
  split
  · exact .pure _
  · refine Sections.bind (.repeatUntil ?_) fun _ => .pure _
    apply Sections.bind .condition
    intro leaves
    split
    · exact .pure _
    · split
      · exact .bind (sections_underLock (by decide)) fun _ => .pure _
      · exact .pure _

theorem sections_readPages (bio : ℕ) : Sections rank 1 (readPages bio) := by
  apply Sections.repeatUntil
  apply Sections.bind .condition
  intro leaves
  split
  · exact .pure _
  · apply Sections.bind sections_makeReadRequestPageMapping
    intro issued
    split
    · exact .bind (sections_underLock (Nat.le_succ 1)) fun _ => .pure _
    · exact .pure _

theorem sections_writePages : Sections rank 1 writePages := by
  apply Sections.repeatUntil
  apply Sections.bind .condition
  intro leaves
  split
  · exact .pure _
  · apply Sections.bind .condition
    intro put
    split
    · exact .pure _
    · apply Sections.bind sections_fbWbFlush
      intro flushed
      split
      · exact .pure _
      · exact .pure _

theorem sections_makeRequest (bio : ℕ) (isRead : Bool) : Sections rank 0 (makeRequest bio isRead) := by
  have finish : Closes rank devLock (release devLock) := .release
  apply Sections.acquire (by rfl)
  apply Closes.bind .condition
  intro err
  split
  · exact finish
  · apply Closes.bind .condition
    intro preflush
    split
    · exact finish
    · apply Closes.bind .condition
      intro discard
      split
      · exact .bind sections_makeDiscardRequestPageMapping fun _ => finish
      · apply Closes.bind (sections_fbBuildBio isRead)
        intro built
        split
        · exact finish
        · split
          · apply Closes.bind .condition
            intro noPages
            split
            · exact finish
            · exact .bind (sections_readPages bio) fun _ => finish
          · apply Closes.bind sections_fbDelInvalidatePgs
            intro _
            apply Closes.bind sections_writePages
            intro written
            split
            · exact finish
            · exact finish

/-- All paths of the device keep to the order of locks. -/
theorem DevicePath.nested {path : List (DeviceLock × CompletionCall)} (known : DevicePath path) :
    Nested rank 0 path := by
  cases known with
  | request bio isRead taken => exact sections_makeRequest bio isRead _ _ taken
  | background taken => exact sections_triggerBgGc.mono (Nat.zero_le 1) _ _ taken
  | getFirst bus chip taken => exact sections_underLock (Nat.zero_le _) _ _ taken
  | removeFirst bus chip taken => exact sections_underLock (Nat.zero_le _) _ _ taken
  | release bio taken => exact sections_underLock (Nat.zero_le _) _ _ taken

/-! ### Runs -/

/-- The threads of the device are not stuck. -/
structure NeverStuck {Thread : Type} [DecidableEq Thread] (state : ThreadsState Thread DeviceLock) :
    Prop where
  /-- As long as a thread is under way, some thread can make its next call. -/
  goesOn : ∀ thread, state.todo thread ≠ [] → ∃ other, CanGoOn state other
  /-- Nobody blocks while it holds the lock of a queue, of a request or of the write buffer. -/
  leaf : ∀ thread lock, lock ≠ devLock → lock ≠ mappingContextLock →
    state.locks.phase thread lock ≠ .outside → CanGoOn state thread

/-- In every run of the threads of the device, with any number of requests, of bus controllers
and of background threads, there is no deadlock. -/
theorem deviceThreads_neverStuck {Thread : Type} [DecidableEq Thread]
    {state : ThreadsState Thread DeviceLock} (run : ThreadsRun DevicePath state) :
    NeverStuck state := by
  have nested : ∀ path, DevicePath path → Nested rank 0 path := fun _ known => known.nested
  constructor
  · intro thread busy
    exact run.exists_canGoOn nested rank_le busy
  · intro thread lock notDevice notMapping held
    apply run.canGoOn_of_top nested held
    intro other
    have leaf : lock.rank = 2 := by
      cases lock <;> simp_all [rank]
    rw [leaf]
    exact other.rank_le

/-- The path through `opr_queue_get_first` for the first queue. -/
def pollFirst : List (DeviceLock × CompletionCall) :=
  [(.queueLock 0 0, .wait), (.queueLock 0 0, .reinit), (.queueLock 0 0, .complete)]

theorem pollFirst_known : DevicePath pollFirst :=
  @DevicePath.getFirst 0 0 _ true ⟨_, _, (), ⟨_, _, (), rfl, rfl, rfl⟩, ⟨_, _, true, rfl,
    ⟨_, _, (), rfl, ⟨rfl, rfl⟩, rfl⟩, rfl⟩, rfl⟩

/-- Of two threads that poll a queue one has the lock and the other waits for it. -/
theorem two_pollers_neverStuck : ∃ state : ThreadsState Bool DeviceLock,
    ThreadsRun DevicePath state ∧ state.todo false = pollFirst.tail ∧
      state.todo true = pollFirst ∧ NeverStuck state := by
  have run := ((ThreadsRun.created.start false rfl pollFirst_known).start true rfl
    pollFirst_known).call false rfl rfl
  exact ⟨_, run, rfl, rfl, deviceThreads_neverStuck run⟩

end Locking

end FlashBench
