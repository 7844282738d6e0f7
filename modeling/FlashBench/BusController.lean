import FlashBench.OprQueue

/-!
# Bus controllers

The thread of a bus controller, which releases the chips whose time has come and acquires
idle chips for queued operations, next to requests that put operations into its queues at
any moment. A step of the thread is what it does between two accesses of a queue or of a
chip; `put` is one attempt of `fb_issue_operation`, which tries again as long as it fails.

`puts`, `acquired` and `inFlight` are ghosts: what was put into the queue of a chip, what
the chip was acquired for, and what it works on. What a release means for its bio is the
subject of `FlashBench.ReadCompletion`.
-/

namespace FlashBench

/-- `struct fb_chip_busy_t`; its completion is never waited for. -/
structure ChipBusy (FbBio : Type) where
  wakeupTimeInUs : ℕ
  issueTimeInUs : ℕ
  ptrFbBio : Option FbBio

/-- `timer_get_timestamp_in_us`: the microseconds as an `u32`. -/
def timestamp (time : ℕ) : ℕ := time % 2 ^ 32

namespace ChipBusy

variable {FbBio : Type}

/-- The initial value of `create_bus_controller`, and what `release_busy_lock` leaves behind. -/
def idle : ChipBusy FbBio := ⟨0, 0, none⟩

/-- The times after `release_busy_lock`. -/
def reset (busy : ChipBusy FbBio) : ChipBusy FbBio :=
  { busy with wakeupTimeInUs := 0, issueTimeInUs := 0 }

/-- `is_acquired`: the chip is at work. -/
def isAcquired (busy : ChipBusy FbBio) : Bool :=
  busy.wakeupTimeInUs ≠ 0 || busy.issueTimeInUs ≠ 0

/-- The two conditions of phase 1. -/
def wakes (busy : ChipBusy FbBio) (currentTimeInUs : ℕ) : Bool :=
  0 < busy.wakeupTimeInUs && busy.wakeupTimeInUs ≤ currentTimeInUs

/-- `acquire_busy_lock`. -/
def acquire (time : ℕ) (entry : FbOperation FbBio) : ChipBusy FbBio where
  issueTimeInUs := timestamp time
  wakeupTimeInUs := (timestamp time + entry.operation.operationTime) % 2 ^ 32
  ptrFbBio := entry.ptrFbBio

theorem isAcquired_acquire (time : ℕ) (entry : FbOperation FbBio) :
    (acquire time entry).isAcquired = true := by
  have takesTime : 0 < entry.operation.operationTime ∧ entry.operation.operationTime < 2 ^ 32 := by
    cases entry.operation <;> decide
  rcases takesTime with ⟨positive, fits⟩
  by_cases started : timestamp time = 0
  · have wakeup : (acquire time entry).wakeupTimeInUs = entry.operation.operationTime := by
      simp only [acquire, started, Nat.zero_add]
      exact Nat.mod_eq_of_lt fits
    simp [isAcquired, wakeup, positive.ne']
  · simp [isAcquired, acquire, started]

end ChipBusy

/-- Where the thread of a controller is. -/
inductive BusPc (FbBio : Type) where
  /-- before phase 1 -/
  | begin
  /-- phase 1 at a chip, with the time read before -/
  | release (chip currentTimeInUs : ℕ)
  /-- `release_busy_lock` of a chip after the times are reset -/
  | returnBio (chip currentTimeInUs : ℕ)
  /-- the two tests of phase 2 at a chip -/
  | check (chip : ℕ)
  | getFirst (chip : ℕ)
  | acquire (chip : ℕ) (entry : FbOperation FbBio)
  | removeFirst (chip : ℕ) (entry : FbOperation FbBio)
  /-- after the message "Operation queue should not be empty" -/
  | emptyExit
  /-- stopped from outside -/
  | finished

/-- The thread is about to remove the entry that it has acquired the chip for. -/
def BusPc.removes {FbBio : Type} (chip : ℕ) : BusPc FbBio → Bool
  | removeFirst current _ => current = chip
  | _ => false

/-- The thread returns the bio of a chip whose times it has reset. -/
def BusPc.returns {FbBio : Type} (chip : ℕ) : BusPc FbBio → Bool
  | returnBio current _ => current = chip
  | _ => false

/-- The thread is not in the middle of a release or of a removal. -/
def BusPc.isPlain {FbBio : Type} (pc : BusPc FbBio) : Prop :=
  ∀ chip, pc.removes chip = false ∧ pc.returns chip = false

/-- `struct fb_bus_controller_t` with the position of its thread and the ghosts. -/
structure BusController (FbBio : Type) where
  oprQueues : ℕ → OprQueue FbBio
  chipBusies : ℕ → ChipBusy FbBio
  pc : BusPc FbBio
  puts : ℕ → List (FbOperation FbBio)
  acquired : ℕ → List (FbOperation FbBio)
  inFlight : ℕ → Option (FbOperation FbBio)

/-- What may happen next. -/
inductive BusAction (FbBio : Type) where
  /-- an attempt to put an entry into the queue of a chip -/
  | put (chip : ℕ) (entry : FbOperation FbBio)
  /-- a step of the thread: the time if it reads the clock, and whether it is told to stop -/
  | thread (time : ℕ) (stop : Bool)

namespace BusController

variable {FbBio : Type}

/-- `create_bus_controller`. -/
def create (numMaxEntriesPerChip : ℕ) (oprList : ℕ → ℕ → FbOperation FbBio) :
    BusController FbBio where
  oprQueues := fun chip => .create numMaxEntriesPerChip (oprList chip)
  chipBusies := fun _ => .idle
  pc := .begin
  puts := fun _ => []
  acquired := fun _ => []
  inFlight := fun _ => none

/-- One attempt of `fb_issue_operation`. -/
def put (chip : ℕ) (entry : FbOperation FbBio) (bus : BusController FbBio) :
    BusController FbBio :=
  let result := (bus.oprQueues chip).putEntry entry
  { bus with
    oprQueues := Function.update bus.oprQueues chip result.2
    puts :=
      if result.1 then Function.update bus.puts chip (bus.puts chip ++ [entry]) else bus.puts }

/-- `release_busy_lock` up to the test of `ptr_fb_bio`. -/
def resetBusyTimes (chip : ℕ) (bus : BusController FbBio) : BusController FbBio :=
  { bus with chipBusies := Function.update bus.chipBusies chip (bus.chipBusies chip).reset }

/-- `release_busy_lock` from there on, as far as the controller is concerned. -/
def clearFbBio (chip : ℕ) (bus : BusController FbBio) : BusController FbBio :=
  { bus with
    chipBusies :=
      Function.update bus.chipBusies chip { bus.chipBusies chip with ptrFbBio := none }
    inFlight := Function.update bus.inFlight chip none }

/-- Phase 2 makes a chip busy with an operation. -/
def acquireBusyLock (chip time : ℕ) (entry : FbOperation FbBio) (bus : BusController FbBio) :
    BusController FbBio :=
  { bus with
    chipBusies := Function.update bus.chipBusies chip (.acquire time entry)
    acquired := Function.update bus.acquired chip (bus.acquired chip ++ [entry])
    inFlight := Function.update bus.inFlight chip (some entry) }

/-- One step of `fb_bus_ctrl_thread`. -/
def threadStep (numChipsPerBus time : ℕ) (stop : Bool) (bus : BusController FbBio) :
    BusController FbBio :=
  match bus.pc with
  | .begin =>
      if stop then { bus with pc := .finished }
      else { bus with pc := .release 0 (timestamp time) }
  | .release chip now =>
      if chip < numChipsPerBus then
        if (bus.chipBusies chip).wakes now then
          { bus.resetBusyTimes chip with pc := .returnBio chip now }
        else { bus with pc := .release (chip + 1) now }
      else { bus with pc := .check 0 }
  | .returnBio chip now => { bus.clearFbBio chip with pc := .release (chip + 1) now }
  | .check chip =>
      if chip < numChipsPerBus then
        if (bus.oprQueues chip).numEntries = 0 ∨ (bus.chipBusies chip).isAcquired then
          { bus with pc := .check (chip + 1) }
        else { bus with pc := .getFirst chip }
      else if stop then { bus with pc := .finished }
      else { bus with pc := .begin }
  | .getFirst chip =>
      match (bus.oprQueues chip).getFirst with
      | none => { bus with pc := .emptyExit }
      | some entry => { bus with pc := .acquire chip entry }
  | .acquire chip entry =>
      { bus.acquireBusyLock chip time entry with pc := .removeFirst chip entry }
  | .removeFirst chip _ =>
      { bus with
        oprQueues := Function.update bus.oprQueues chip (bus.oprQueues chip).removeFirst.2
        pc := .check (chip + 1) }
  | .emptyExit => bus
  | .finished => bus

/-- One step of the controller or of a request. -/
def step (numChipsPerBus : ℕ) (bus : BusController FbBio) : BusAction FbBio → BusController FbBio
  | .put chip entry => bus.put chip entry
  | .thread time stop => bus.threadStep numChipsPerBus time stop

/-- The operations put for a chip that it has not been acquired for. -/
def pending (bus : BusController FbBio) (chip : ℕ) : List (FbOperation FbBio) :=
  if bus.pc.removes chip then (bus.oprQueues chip).contents.tail
  else (bus.oprQueues chip).contents

end BusController

/-- The states of all runs, whatever the threads do and whatever the clock shows. -/
inductive BusRun {FbBio : Type} (numChipsPerBus numMaxEntriesPerChip : ℕ) :
    BusController FbBio → Prop where
  | create (oprList : ℕ → ℕ → FbOperation FbBio) :
      BusRun numChipsPerBus numMaxEntriesPerChip (.create numMaxEntriesPerChip oprList)
  | step {bus : BusController FbBio} (run : BusRun numChipsPerBus numMaxEntriesPerChip bus)
      (action : BusAction FbBio) :
      BusRun numChipsPerBus numMaxEntriesPerChip (bus.step numChipsPerBus action)

/-! ### The invariant -/

/-- A chip works on an operation exactly when it is acquired, or when it is being released. -/
def BusyOk {FbBio : Type} (returns : Bool) (busy : ChipBusy FbBio) :
    Option (FbOperation FbBio) → Prop
  | none => busy = .idle
  | some entry => busy.isAcquired = !returns ∧ busy.ptrFbBio = entry.ptrFbBio

/-- What the thread knows at its position. -/
def PcOk {FbBio : Type} (numChipsPerBus : ℕ) (bus : BusController FbBio) : BusPc FbBio → Prop
  | .getFirst chip =>
      chip < numChipsPerBus ∧ (bus.oprQueues chip).contents ≠ [] ∧ bus.inFlight chip = none
  | .acquire chip entry => chip < numChipsPerBus ∧
      (bus.oprQueues chip).contents.head? = some entry ∧ bus.inFlight chip = none
  | .removeFirst chip entry => (bus.oprQueues chip).contents.head? = some entry ∧
      (bus.acquired chip).getLast? = some entry
  | .emptyExit => False
  | _ => True

/-- The invariant of a bus controller. -/
structure BusInv {FbBio : Type} (numChipsPerBus capacity : ℕ) (bus : BusController FbBio) :
    Prop where
  queueOk : ∀ chip, QueueOk capacity (bus.oprQueues chip)
  busyOk : ∀ chip, BusyOk (bus.pc.returns chip) (bus.chipBusies chip) (bus.inFlight chip)
  delivered : ∀ chip, bus.puts chip = bus.acquired chip ++ bus.pending chip
  pcOk : PcOk numChipsPerBus bus bus.pc

namespace BusInv

variable {FbBio : Type} {numChipsPerBus capacity chip time : ℕ} {bus other : BusController FbBio}
  {entry : FbOperation FbBio}

theorem create (room : 1 ≤ capacity) (oprList : ℕ → ℕ → FbOperation FbBio) :
    BusInv numChipsPerBus capacity (.create capacity oprList) where
  queueOk _ := .create room _
  busyOk _ := rfl
  delivered _ := rfl
  pcOk := trivial

theorem goto (inv : BusInv numChipsPerBus capacity bus) {pc : BusPc FbBio}
    (leaves : bus.pc.isPlain) (enters : pc.isPlain)
    (pcOk : PcOk numChipsPerBus bus pc) : BusInv numChipsPerBus capacity { bus with pc := pc } where
  queueOk := inv.queueOk
  busyOk chip := by
    have before := inv.busyOk chip
    rw [(leaves chip).2] at before
    simp only [(enters chip).2]
    exact before
  delivered chip := by
    have before := inv.delivered chip
    unfold BusController.pending at before ⊢
    rw [(leaves chip).1] at before
    simp only [(enters chip).1]
    exact before
  pcOk := pcOk

/-- What the thread knows does not depend on entries that are put behind others. -/
theorem pcOk_put (pcOk : PcOk numChipsPerBus bus bus.pc)
    (contents : ∀ target,
      ((bus.put chip entry).oprQueues target).contents = (bus.oprQueues target).contents ∨
      ((bus.put chip entry).oprQueues target).contents =
        (bus.oprQueues target).contents ++ [entry]) :
    PcOk numChipsPerBus (bus.put chip entry) bus.pc := by
  have first {target : ℕ} {head : FbOperation FbBio}
      (head_eq : (bus.oprQueues target).contents.head? = some head) :
      ((bus.put chip entry).oprQueues target).contents.head? = some head := by
    rcases contents target with same | appended
    · rw [same, head_eq]
    · rw [appended, List.head?_append, head_eq]
      rfl
  rcases position : bus.pc with _ | _ | _ | _ | target | ⟨target, head⟩ | ⟨target, head⟩ | _ | _ <;>
    rw [position] at pcOk
  · trivial
  · trivial
  · trivial
  · trivial
  · refine ⟨pcOk.1, ?_, pcOk.2.2⟩
    rcases contents target with same | appended
    · rw [same]
      exact pcOk.2.1
    · rw [appended]
      simp
  · exact ⟨pcOk.1, first pcOk.2.1, pcOk.2.2⟩
  · exact ⟨first pcOk.1, pcOk.2⟩
  · exact pcOk
  · trivial

theorem contents_ne_nil_of_removes (inv : BusInv numChipsPerBus capacity bus)
    (removes : bus.pc.removes chip = true) : (bus.oprQueues chip).contents ≠ [] := by
  have pcOk := inv.pcOk
  rcases position : bus.pc with _ | _ | _ | _ | _ | _ | ⟨current, head⟩ | _ | _ <;>
    rw [position] at removes pcOk <;> simp [BusPc.removes] at removes
  subst removes
  intro none
  rw [PcOk, none] at pcOk
  simp at pcOk

theorem put (inv : BusInv numChipsPerBus capacity bus) (chip : ℕ) (entry : FbOperation FbBio) :
    BusInv numChipsPerBus capacity (bus.put chip entry) := by
  have ok := inv.queueOk chip
  rcases result : ((bus.oprQueues chip).putEntry entry).1 with _ | _
  · have unchanged : bus.put chip entry = bus := by
      have same := QueueOk.putEntry_of_full result
      simp [BusController.put, result, same]
    rw [unchanged]
    exact inv
  · rcases ok.putEntry result with ⟨nextOk, appended⟩
    have puts : (bus.put chip entry).puts =
        Function.update bus.puts chip (bus.puts chip ++ [entry]) := by
      simp [BusController.put, result]
    have contents (target : ℕ) :
        ((bus.put chip entry).oprQueues target).contents =
          if target = chip then (bus.oprQueues chip).contents ++ [entry]
          else (bus.oprQueues target).contents := by
      split_ifs with same
      · subst target
        simpa [BusController.put] using appended
      · simp [BusController.put, same]
    have nextPc : PcOk numChipsPerBus (bus.put chip entry) bus.pc := by
      refine pcOk_put inv.pcOk fun target => ?_
      rw [contents]
      split_ifs with same
      · exact Or.inr (by rw [same])
      · exact Or.inl rfl
    refine ⟨fun target => ?_, inv.busyOk, fun target => ?_, nextPc⟩
    · by_cases same : target = chip
      · subst target
        simpa [BusController.put] using nextOk
      · simpa [BusController.put, same] using inv.queueOk target
    · have before := inv.delivered target
      unfold BusController.pending at before ⊢
      change (bus.put chip entry).puts target = bus.acquired target ++
        if bus.pc.removes target then _ else _
      rw [puts, contents]
      by_cases same : target = chip
      · subst target
        rw [Function.update_self, before, if_pos rfl, List.append_assoc]
        congr 1
        split_ifs with removes
        · exact (List.tail_append_of_ne_nil (inv.contents_ne_nil_of_removes removes)).symm
        · rfl
      · rw [Function.update_of_ne same, if_neg same, before]

/-! ### The thread -/

theorem resetBusyTimes (inv : BusInv numChipsPerBus capacity bus) {now : ℕ}
    (leaves : bus.pc.isPlain) :
    BusInv numChipsPerBus capacity
      { bus.resetBusyTimes chip with pc := .returnBio chip now } where
  queueOk := inv.queueOk
  busyOk target := by
    have before := inv.busyOk target
    rw [(leaves target).2] at before
    by_cases same : target = chip
    · subst target
      simp only [BusController.resetBusyTimes, Function.update_self]
      cases working : bus.inFlight chip with
      | none =>
          rw [working] at before
          rw [before]
          rfl
      | some entry =>
          rw [working] at before
          exact ⟨by simp [BusPc.returns, ChipBusy.isAcquired, ChipBusy.reset], before.2⟩
    · have other : chip ≠ target := fun equal => same equal.symm
      simpa [BusController.resetBusyTimes, BusPc.returns, same, other] using before
  delivered target := by
    have before := inv.delivered target
    unfold BusController.pending at before ⊢
    rw [(leaves target).1] at before
    exact before
  pcOk := trivial

theorem clearFbBio (inv : BusInv numChipsPerBus capacity bus) {now : ℕ}
    (position : bus.pc = .returnBio chip now) :
    BusInv numChipsPerBus capacity
      { bus.clearFbBio chip with pc := .release (chip + 1) now } where
  queueOk := inv.queueOk
  busyOk target := by
    have before := inv.busyOk target
    rw [position] at before
    by_cases same : target = chip
    · subst target
      simp only [BusController.clearFbBio, Function.update_self]
      cases working : bus.inFlight chip with
      | none =>
          rw [working] at before
          rw [before]
          rfl
      | some entry =>
          rw [working] at before
          have times := before.1
          simp only [BusPc.returns, ChipBusy.isAcquired, decide_true, Bool.not_true,
            Bool.or_eq_false_iff, decide_eq_false_iff_not, not_not] at times
          simp [BusyOk, ChipBusy.idle, times]
    · have other : chip ≠ target := fun equal => same equal.symm
      simpa [BusController.clearFbBio, BusPc.returns, same, other] using before
  delivered target := by
    have before := inv.delivered target
    unfold BusController.pending at before ⊢
    rw [position] at before
    exact before
  pcOk := trivial

/-- The chip takes the first entry of its queue, which is still to be removed. -/
theorem acquireBusyLock (inv : BusInv numChipsPerBus capacity bus)
    (position : bus.pc = .acquire chip entry) (time : ℕ) :
    BusInv numChipsPerBus capacity
      { bus.acquireBusyLock chip time entry with pc := .removeFirst chip entry } := by
  have known := inv.pcOk
  rw [position] at known
  rcases known with ⟨_, first, _⟩
  have last : (bus.acquireBusyLock chip time entry).acquired chip =
      bus.acquired chip ++ [entry] := Function.update_self ..
  refine ⟨inv.queueOk, fun target => ?_, fun target => ?_, first, by simp [last]⟩
  · have before := inv.busyOk target
    rw [position] at before
    by_cases same : target = chip
    · subst target
      simp only [BusController.acquireBusyLock, Function.update_self]
      exact ⟨ChipBusy.isAcquired_acquire time entry, rfl⟩
    · simpa [BusController.acquireBusyLock, BusPc.returns, same] using before
  · have before := inv.delivered target
    unfold BusController.pending at before ⊢
    rw [position] at before
    by_cases same : target = chip
    · subst target
      rcases List.head?_eq_some_iff.mp first with ⟨rest, contents⟩
      rw [contents] at before
      simp only [BusPc.removes, Bool.false_eq_true, if_false] at before
      simp [BusController.acquireBusyLock, BusPc.removes, contents, before]
    · have other : chip ≠ target := fun equal => same equal.symm
      simpa [BusController.acquireBusyLock, BusPc.removes, same, other] using before

theorem removeFirst (inv : BusInv numChipsPerBus capacity bus)
    (position : bus.pc = .removeFirst chip entry) :
    BusInv numChipsPerBus capacity
      { bus with
        oprQueues := Function.update bus.oprQueues chip (bus.oprQueues chip).removeFirst.2
        pc := .check (chip + 1) } := by
  rcases (inv.queueOk chip).removeFirst with ⟨nextOk, contents⟩
  refine ⟨fun target => ?_, fun target => ?_, fun target => ?_, trivial⟩
  · by_cases same : target = chip
    · subst target
      simpa using nextOk
    · simpa [same] using inv.queueOk target
  · have before := inv.busyOk target
    rw [position] at before
    exact before
  · have before := inv.delivered target
    unfold BusController.pending at before ⊢
    rw [position] at before
    by_cases same : target = chip
    · subst target
      simpa [BusPc.removes, contents] using before
    · have other : chip ≠ target := fun equal => same equal.symm
      simpa [BusPc.removes, same, other] using before

/-- A chip that does not look acquired works on nothing, unless it is being released. -/
theorem inFlight_eq_none (inv : BusInv numChipsPerBus capacity bus)
    (plain : bus.pc.returns chip = false) (free : (bus.chipBusies chip).isAcquired = false) :
    bus.inFlight chip = none := by
  have busyOk := inv.busyOk chip
  cases working : bus.inFlight chip with
  | none => rfl
  | some entry =>
      rw [working, plain] at busyOk
      rw [busyOk.1] at free
      contradiction

/-- Every step of the thread keeps the invariant. -/
theorem threadStep (inv : BusInv numChipsPerBus capacity bus) (time : ℕ) (stop : Bool) :
    BusInv numChipsPerBus capacity (bus.threadStep numChipsPerBus time stop) := by
  have known := inv.pcOk
  have moves {pc : BusPc FbBio} (leaves : bus.pc.isPlain) (enters : pc.isPlain)
      (pcOk : PcOk numChipsPerBus bus pc) :
      BusInv numChipsPerBus capacity { bus with pc := pc } := inv.goto leaves enters pcOk
  have plain {chip : ℕ} (leaves : bus.pc.isPlain) := inv.inFlight_eq_none (leaves chip).2
  have resets {chip now : ℕ} (leaves : bus.pc.isPlain) :
      BusInv numChipsPerBus capacity
        { bus.resetBusyTimes chip with pc := .returnBio chip now } := inv.resetBusyTimes leaves
  unfold BusController.threadStep
  rcases position : bus.pc with
    _ | ⟨current, now⟩ | ⟨current, now⟩ | current | current | ⟨current, head⟩ |
      ⟨current, head⟩ | _ | _ <;>
    rw [position] at moves known plain resets <;> simp only
  case finished => exact inv
  case emptyExit => exact inv
  case begin =>
    split_ifs
    · exact moves (fun _ => ⟨rfl, rfl⟩) (fun _ => ⟨rfl, rfl⟩) trivial
    · exact moves (fun _ => ⟨rfl, rfl⟩) (fun _ => ⟨rfl, rfl⟩) trivial
  case release =>
    split_ifs
    · exact resets fun _ => ⟨rfl, rfl⟩
    · exact moves (fun _ => ⟨rfl, rfl⟩) (fun _ => ⟨rfl, rfl⟩) trivial
    · exact moves (fun _ => ⟨rfl, rfl⟩) (fun _ => ⟨rfl, rfl⟩) trivial
  case returnBio => exact inv.clearFbBio position
  case check =>
    split_ifs with chip_lt skips
    · exact moves (fun _ => ⟨rfl, rfl⟩) (fun _ => ⟨rfl, rfl⟩) trivial
    · -- the queue can only have grown and the chip is still free when `get_first` runs
      rw [not_or, Bool.not_eq_true] at skips
      have idle := plain (fun _ => ⟨rfl, rfl⟩) skips.2
      refine moves (fun _ => ⟨rfl, rfl⟩) (fun _ => ⟨rfl, rfl⟩) ⟨chip_lt, ?_, idle⟩
      intro empty
      apply skips.1
      rw [← QueueOk.length_contents, empty]
      rfl
    · exact moves (fun _ => ⟨rfl, rfl⟩) (fun _ => ⟨rfl, rfl⟩) trivial
    · exact moves (fun _ => ⟨rfl, rfl⟩) (fun _ => ⟨rfl, rfl⟩) trivial
  case getFirst =>
    rw [(inv.queueOk current).getFirst_eq]
    rcases known with ⟨chip_lt, nonempty, idle⟩
    cases contents : (bus.oprQueues current).contents with
    | nil => exact absurd contents nonempty
    | cons head rest =>
        refine moves (fun _ => ⟨rfl, rfl⟩) (fun _ => ⟨rfl, rfl⟩) ⟨chip_lt, ?_, idle⟩
        rw [contents]
        rfl
  case acquire => exact inv.acquireBusyLock position time
  case removeFirst => exact inv.removeFirst position

theorem step (inv : BusInv numChipsPerBus capacity bus) (action : BusAction FbBio) :
    BusInv numChipsPerBus capacity (bus.step numChipsPerBus action) := by
  cases action with
  | put chip entry => exact inv.put chip entry
  | thread time stop => exact inv.threadStep time stop

end BusInv

/-! ### What a step changes -/

namespace BusInv

variable {FbBio : Type} {numChipsPerBus capacity chip : ℕ} {bus : BusController FbBio}
  {entry : FbOperation FbBio}

theorem pending_put (inv : BusInv numChipsPerBus capacity bus)
    (stored : ((bus.oprQueues chip).putEntry entry).1 = true) :
    (bus.put chip entry).pending = Function.update bus.pending chip (bus.pending chip ++ [entry]) := by
  funext target
  have before := inv.delivered target
  have after := (inv.put chip entry).delivered target
  have puts : (bus.put chip entry).puts =
      Function.update bus.puts chip (bus.puts chip ++ [entry]) := by
    simp [BusController.put, stored]
  have acquired : (bus.put chip entry).acquired = bus.acquired := rfl
  rw [puts, acquired] at after
  by_cases same : target = chip
  · subst target
    rw [Function.update_self, before, List.append_assoc] at after
    rw [Function.update_self]
    exact (List.append_cancel_left after).symm
  · rw [Function.update_of_ne same, before] at after
    rw [Function.update_of_ne same]
    exact (List.append_cancel_left after).symm

theorem threadStep_puts (bus : BusController FbBio) (numChipsPerBus time : ℕ) (stop : Bool) :
    (bus.threadStep numChipsPerBus time stop).puts = bus.puts := by
  unfold BusController.threadStep
  cases bus.pc <;> simp only <;> repeat' split
  all_goals rfl

/-- Except for an acquisition and a return, a step leaves the operations where they are. -/
theorem threadStep_quiet (inv : BusInv numChipsPerBus capacity bus)
    (notAcquire : ∀ chip entry, bus.pc ≠ .acquire chip entry)
    (notReturn : ∀ chip now, bus.pc ≠ .returnBio chip now) (time : ℕ) (stop : Bool) :
    (bus.threadStep numChipsPerBus time stop).pending = bus.pending ∧
      ∀ target, ((bus.threadStep numChipsPerBus time stop).chipBusies target).ptrFbBio =
        (bus.chipBusies target).ptrFbBio := by
  have same : (bus.threadStep numChipsPerBus time stop).acquired = bus.acquired ∧
      ∀ target, ((bus.threadStep numChipsPerBus time stop).chipBusies target).ptrFbBio =
        (bus.chipBusies target).ptrFbBio := by
    unfold BusController.threadStep
    cases position : bus.pc with
    | acquire chip entry => exact absurd position (notAcquire chip entry)
    | returnBio chip now => exact absurd position (notReturn chip now)
    | release chip now =>
        simp only
        split_ifs
        · refine ⟨rfl, fun target => ?_⟩
          by_cases other : target = chip
          · simp [BusController.resetBusyTimes, ChipBusy.reset, other]
          · simp [BusController.resetBusyTimes, other]
        · exact ⟨rfl, fun _ => rfl⟩
        · exact ⟨rfl, fun _ => rfl⟩
    | getFirst chip =>
        simp only
        cases (bus.oprQueues chip).getFirst <;> exact ⟨rfl, fun _ => rfl⟩
    | removeFirst chip entry => exact ⟨rfl, fun _ => rfl⟩
    | emptyExit => exact ⟨rfl, fun _ => rfl⟩
    | finished => exact ⟨rfl, fun _ => rfl⟩
    | _ =>
        simp only
        split_ifs <;> exact ⟨rfl, fun _ => rfl⟩
  refine ⟨?_, same.2⟩
  funext target
  have before := inv.delivered target
  have after := (inv.threadStep time stop).delivered target
  rw [threadStep_puts, same.1, before] at after
  exact (List.append_cancel_left after).symm

/-- An acquisition moves the first pending operation to an idle chip. -/
theorem threadStep_acquire (inv : BusInv numChipsPerBus capacity bus)
    (position : bus.pc = .acquire chip entry) (time : ℕ) (stop : Bool) :
    (∃ rest, bus.pending chip = entry :: rest ∧
      (bus.threadStep numChipsPerBus time stop).pending =
        Function.update bus.pending chip rest) ∧
    (bus.chipBusies chip).ptrFbBio = none ∧
    (bus.threadStep numChipsPerBus time stop).chipBusies =
      Function.update bus.chipBusies chip (.acquire time entry) := by
  have step : bus.threadStep numChipsPerBus time stop =
      { bus.acquireBusyLock chip time entry with pc := .removeFirst chip entry } := by
    unfold BusController.threadStep
    rw [position]
  have known := inv.pcOk
  rw [position] at known
  have idle := inv.busyOk chip
  rw [known.2.2] at idle
  refine ⟨?_, by rw [idle]; rfl, by rw [step]; rfl⟩
  have after (target : ℕ) := (inv.threadStep time stop).delivered target
  rw [threadStep_puts, step] at after
  have own : bus.pending chip =
      entry :: (bus.threadStep numChipsPerBus time stop).pending chip := by
    have delivered := after chip
    rw [inv.delivered chip] at delivered
    simp only [BusController.acquireBusyLock, Function.update_self, List.append_assoc,
      List.cons_append, List.nil_append, List.append_cancel_left_eq] at delivered
    rw [step]
    exact delivered
  refine ⟨_, own, ?_⟩
  funext target
  by_cases same : target = chip
  · rw [same, Function.update_self]
  · have delivered := after target
    rw [inv.delivered target] at delivered
    simp only [BusController.acquireBusyLock, Function.update_of_ne same,
      List.append_cancel_left_eq] at delivered
    rw [Function.update_of_ne same, step]
    exact delivered.symm

theorem threadStep_returnBio (inv : BusInv numChipsPerBus capacity bus) {now : ℕ}
    (position : bus.pc = .returnBio chip now) (time : ℕ) (stop : Bool) :
    (bus.threadStep numChipsPerBus time stop).pending = bus.pending ∧
    (bus.threadStep numChipsPerBus time stop).chipBusies =
      Function.update bus.chipBusies chip { bus.chipBusies chip with ptrFbBio := none } := by
  have step : bus.threadStep numChipsPerBus time stop =
      { bus.clearFbBio chip with pc := .release (chip + 1) now } := by
    unfold BusController.threadStep
    rw [position]
  refine ⟨?_, by rw [step]; rfl⟩
  funext target
  have before := inv.delivered target
  have after := (inv.threadStep time stop).delivered target
  rw [threadStep_puts, before, step] at after
  rw [step]
  exact (List.append_cancel_left after).symm

end BusInv

/-- The invariant holds in every run. -/
theorem BusRun.inv {FbBio : Type} {numChipsPerBus capacity : ℕ} {bus : BusController FbBio}
    (run : BusRun numChipsPerBus capacity bus) (room : 1 ≤ capacity) :
    BusInv numChipsPerBus capacity bus := by
  induction run with
  | create oprList => exact .create room oprList
  | step _ action inv => exact inv.step action

/-! ### Delivery -/

/-- One queue of a controller is a bounded FIFO, whose operations the chip acquires in order. -/
structure QueueDelivers {FbBio : Type} (capacity : ℕ) (bus : BusController FbBio) (chip : ℕ) :
    Prop where
  numMaxEntries_eq : (bus.oprQueues chip).numMaxEntries = capacity
  numEntries_eq : (bus.oprQueues chip).numEntries = (bus.oprQueues chip).contents.length
  numEntries_le : (bus.oprQueues chip).numEntries ≤ capacity
  queueTail_lt : (bus.oprQueues chip).queueTail < capacity
  queueHead_eq : (bus.oprQueues chip).queueHead =
    ((bus.oprQueues chip).queueTail + (bus.oprQueues chip).numEntries) % capacity
  getFirst_eq : (bus.oprQueues chip).getFirst = (bus.oprQueues chip).contents.head?
  removeFirst_eq : (bus.oprQueues chip).removeFirst.2.contents =
    (bus.oprQueues chip).contents.tail
  put_fails_iff : ∀ entry, ((bus.oprQueues chip).putEntry entry).1 = false ↔
    (bus.oprQueues chip).contents.length = capacity
  put_failed : ∀ entry, ((bus.oprQueues chip).putEntry entry).1 = false →
    bus.put chip entry = bus
  put_succeeded : ∀ entry, ((bus.oprQueues chip).putEntry entry).1 = true →
    ((bus.put chip entry).oprQueues chip).contents =
      (bus.oprQueues chip).contents ++ [entry] ∧
    (bus.put chip entry).puts chip = bus.puts chip ++ [entry]
  inOrder : bus.puts chip = bus.acquired chip ++ bus.pending chip

/-- The contract of the queues and the thread of a controller. -/
structure QueuesDeliver {FbBio : Type} (numChipsPerBus capacity : ℕ)
    (bus : BusController FbBio) : Prop where
  queues : ∀ chip, QueueDelivers capacity bus chip
  removesAcquired : ∀ chip entry, bus.pc = .removeFirst chip entry →
    (bus.oprQueues chip).getFirst = some entry ∧ (bus.acquired chip).getLast? = some entry
  acquiresIdle : ∀ chip entry, bus.pc = .acquire chip entry →
    (bus.oprQueues chip).getFirst = some entry ∧ bus.inFlight chip = none ∧
      bus.chipBusies chip = .idle
  emptyExit_unreachable : bus.pc ≠ .emptyExit

namespace BusInv

variable {FbBio : Type} {numChipsPerBus capacity : ℕ} {bus : BusController FbBio}

theorem queueDelivers (inv : BusInv numChipsPerBus capacity bus) (chip : ℕ) :
    QueueDelivers capacity bus chip := by
  have ok := inv.queueOk chip
  refine ⟨ok.numMaxEntries_eq, (QueueOk.length_contents _).symm, ok.numEntries_le,
    ok.queueTail_lt, ok.queueHead_eq, ok.getFirst_eq, ok.removeFirst.2,
    fun entry => ok.putEntry_fails_iff, ?_, ?_, inv.delivered chip⟩
  · intro entry failed
    simp [BusController.put, failed, QueueOk.putEntry_of_full failed]
  · intro entry stored
    have appended := (ok.putEntry stored).2
    simp [BusController.put, stored, appended]

end BusInv

/-- The queues deliver every operation exactly once and in order. -/
theorem queuesDeliver_of_run {FbBio : Type} {numChipsPerBus numMaxEntriesPerChip : ℕ}
    {bus : BusController FbBio} (run : BusRun numChipsPerBus numMaxEntriesPerChip bus)
    (room : 1 ≤ numMaxEntriesPerChip) :
    QueuesDeliver numChipsPerBus numMaxEntriesPerChip bus := by
  have inv := run.inv room
  have known := inv.pcOk
  refine ⟨inv.queueDelivers, ?_, ?_, ?_⟩
  · intro chip entry position
    rw [position] at known
    rw [(inv.queueOk chip).getFirst_eq]
    exact known
  · intro chip entry position
    rw [position] at known
    rcases known with ⟨_, first, free⟩
    have idle := inv.busyOk chip
    rw [free] at idle
    rw [(inv.queueOk chip).getFirst_eq]
    exact ⟨first, free, idle⟩
  · intro position
    rw [position] at known
    exact known

/-- Some steps of the controller and of requests. -/
def BusController.steps {FbBio : Type} (numChipsPerBus : ℕ) (bus : BusController FbBio)
    (actions : List (BusAction FbBio)) : BusController FbBio :=
  actions.foldl (BusController.step numChipsPerBus) bus

theorem BusRun.steps {FbBio : Type} {numChipsPerBus numMaxEntriesPerChip : ℕ}
    {bus : BusController FbBio} (run : BusRun numChipsPerBus numMaxEntriesPerChip bus)
    (actions : List (BusAction FbBio)) :
    BusRun numChipsPerBus numMaxEntriesPerChip (bus.steps numChipsPerBus actions) := by
  induction actions generalizing bus with
  | nil => exact run
  | cons action actions ih => exact ih (run.step action)

/-- Two operations fill the queue of the only chip, and a third one is refused until the thread
has acquired the chip for the first one and removed it. Then the third one is put behind the
second, at index 0 of the ring, and the chip is released and acquired for the second one. -/
def refilledBus : BusController ℕ :=
  (BusController.create 2 fun _ _ => ⟨.opRead, none⟩).steps 1
    [.put 0 ⟨.opRead, some 1⟩, .put 0 ⟨.opProg, some 2⟩, .put 0 ⟨.opBers, some 3⟩,
      -- phase 1, which has nothing to release, and the two tests of phase 2
      .thread 1000 false, .thread 1000 false, .thread 1000 false, .thread 1000 false,
      -- get_first and the acquisition, and after one more refused put remove_first
      .thread 1000 false, .thread 1000 false, .put 0 ⟨.opBers, some 3⟩, .thread 1000 false,
      .put 0 ⟨.opBers, some 3⟩, .thread 1000 false,
      -- the release after the 80 microseconds of the read, and the second acquisition
      .thread 1080 false, .thread 1080 false, .thread 1080 false, .thread 1080 false,
      .thread 1080 false, .thread 1080 false, .thread 1080 false]

theorem queuesDeliver_refilledBus :
    refilledBus.puts 0 = [⟨.opRead, some 1⟩, ⟨.opProg, some 2⟩, ⟨.opBers, some 3⟩] ∧
    refilledBus.acquired 0 = [⟨.opRead, some 1⟩, ⟨.opProg, some 2⟩] ∧
    (refilledBus.oprQueues 0).contents = [⟨.opProg, some 2⟩, ⟨.opBers, some 3⟩] ∧
    QueuesDeliver 1 2 refilledBus :=
  ⟨rfl, rfl, rfl, queuesDeliver_of_run ((BusRun.create _).steps _) (by decide)⟩

end FlashBench
