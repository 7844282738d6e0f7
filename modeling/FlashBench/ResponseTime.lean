import Mathlib.Logic.Relation
import FlashBench.BusController

/-!
# Response times

How long an operation waits. The thread of a bus controller begins its loop again within
some delay, and the clock does not wrap. Then a chip is acquired for the next operation of
its queue at most two delays after the last one is over, whatever is put into the queues in
the meantime. So every operation is over in a time that grows with its place in the queue.
-/

namespace FlashBench

/-- An upper bound for the time of an operation. -/
def maxOperationTime : ℕ := 5000

theorem FbDevOp.operationTime_bounds (operation : FbDevOp) :
    0 < operation.operationTime ∧ operation.operationTime ≤ maxOperationTime := by
  cases operation <;> decide

/-! ### Runs on a clock -/

/-- A bus controller, the time of the last step of its thread, and the time that its thread has
read for phase 1. -/
structure TimedBus (FbBio : Type) where
  bus : BusController FbBio
  now : ℕ
  poll : ℕ

/-- The thread is at the beginning of its loop. -/
def BusPc.isBegin {FbBio : Type} : BusPc FbBio → Bool
  | begin => true
  | _ => false

namespace TimedBus

variable {FbBio : Type}

/-- A controller that is created at some time. -/
def create (numMaxEntriesPerChip start : ℕ) (oprList : ℕ → ℕ → FbOperation FbBio) :
    TimedBus FbBio :=
  ⟨.create numMaxEntriesPerChip oprList, start, start⟩

/-- An operation is put into the queue of a chip. -/
def put (chip : ℕ) (entry : FbOperation FbBio) (timed : TimedBus FbBio) : TimedBus FbBio :=
  { timed with bus := timed.bus.put chip entry }

/-- A step of the thread at some time. -/
def thread (numChipsPerBus time : ℕ) (timed : TimedBus FbBio) : TimedBus FbBio where
  bus := timed.bus.threadStep numChipsPerBus time false
  now := time
  poll := if timed.bus.pc.isBegin then time else timed.poll

end TimedBus

/-- What may happen next when the thread begins its loop again within `delay`. -/
inductive TimedStep {FbBio : Type} (numChipsPerBus delay : ℕ) (timed : TimedBus FbBio) :
    TimedBus FbBio → Prop where
  | put (chip : ℕ) (entry : FbOperation FbBio) :
      TimedStep numChipsPerBus delay timed (timed.put chip entry)
  | thread (time : ℕ) (later : timed.now ≤ time) (prompt : time ≤ timed.poll + delay)
      (fits : time + maxOperationTime < 2 ^ 32) :
      TimedStep numChipsPerBus delay timed (timed.thread numChipsPerBus time)

/-- Any number of steps. -/
abbrev TimedSteps {FbBio : Type} (numChipsPerBus delay : ℕ) :
    TimedBus FbBio → TimedBus FbBio → Prop :=
  Relation.ReflTransGen (TimedStep numChipsPerBus delay)

/-! ### One chip -/

/-- Where the thread is, seen from a chip. -/
inductive Stage where
  /-- phase 1 has not come to the chip -/
  | ahead
  /-- the chip is being released -/
  | returning
  /-- phase 1 is done with the chip, and phase 2 has not passed it -/
  | between
  /-- phase 2 has passed the chip -/
  | behind
  deriving DecidableEq

/-- Where the thread is on its way to a chip and back. -/
def BusPc.stage {FbBio : Type} (chip : ℕ) : BusPc FbBio → Stage
  | begin => .behind
  | release current _ => if current ≤ chip then .ahead else .between
  | returnBio current _ =>
      if current < chip then .ahead else if current = chip then .returning else .between
  | check current => if current ≤ chip then .between else .behind
  | getFirst current => if current ≤ chip then .between else .behind
  | acquire current _ => if current ≤ chip then .between else .behind
  | removeFirst current _ => if current < chip then .between else .behind
  | emptyExit => .behind
  | finished => .behind

/-- What matters of a chip. -/
structure ChipView where
  stage : Stage
  works : Bool
  wakeup : ℕ
  count : ℕ

/-- What a chip sees of its bus controller. -/
def BusController.view {FbBio : Type} (bus : BusController FbBio) (chip : ℕ) : ChipView where
  stage := bus.pc.stage chip
  works := (bus.inFlight chip).isSome
  wakeup := (bus.chipBusies chip).wakeupTimeInUs
  count := (bus.acquired chip).length

/-- What a step of the thread does to a chip; `waits` tells whether an operation is in its
queue, and `next` is the time read for phase 1 afterwards. -/
inductive ViewStep (waits : Prop) (poll time : ℕ) : ChipView → ChipView → ℕ → Prop where
  | stay (view : ChipView) : ViewStep waits poll time view view poll
  | newPoll {view : ChipView} (stage : view.stage = .behind) :
      ViewStep waits poll time view { view with stage := .ahead } time
  | keep {view : ChipView} (stage : view.stage = .ahead)
      (asleep : 0 < view.wakeup → poll < view.wakeup) :
      ViewStep waits poll time view { view with stage := .between } poll
  | wake {view : ChipView} (stage : view.stage = .ahead) (works : view.works = true)
      (awake : view.wakeup ≤ poll) :
      ViewStep waits poll time view { view with stage := .returning, wakeup := 0 } poll
  | clear {view : ChipView} (stage : view.stage = .returning) :
      ViewStep waits poll time view { view with stage := .between, works := false } poll
  | skip {view : ChipView} (stage : view.stage = .between) (noNeed : view.works = true ∨ ¬waits) :
      ViewStep waits poll time view { view with stage := .behind } poll
  | acquire {view : ChipView} (operation : FbDevOp) (stage : view.stage = .between)
      (idle : view.works = false) :
      ViewStep waits poll time view
        { stage := .behind, works := true, wakeup := time + operation.operationTime
          count := view.count + 1 } poll

/-- The times of a chip that works. -/
structure ChipClock (delay poll now : ℕ) (view : ChipView) : Prop where
  positive : view.works = true → view.stage ≠ .returning → 0 < view.wakeup
  soon : view.works = true → view.stage ≠ .returning → view.wakeup ≤ now + maxOperationTime
  notLate : view.works = true → view.stage ≠ .returning → poll < view.wakeup + delay
  asleep : view.works = true → view.stage ≠ .returning → view.stage ≠ .ahead → poll < view.wakeup

/-- The time that the thread has read for phase 1, while it is in phase 1. -/
def BusPc.pollTime {FbBio : Type} : BusPc FbBio → Option ℕ
  | release _ currentTimeInUs => some currentTimeInUs
  | returnBio _ currentTimeInUs => some currentTimeInUs
  | _ => none

/-- The invariant of a controller on a clock. -/
structure OnClock {FbBio : Type} (numChipsPerBus capacity delay : ℕ) (timed : TimedBus FbBio) :
    Prop where
  inv : BusInv numChipsPerBus capacity timed.bus
  running : timed.bus.pc ≠ .finished
  poll_le : timed.poll ≤ timed.now
  now_le : timed.now ≤ timed.poll + delay
  fits : timed.now + maxOperationTime < 2 ^ 32
  pollTime : ∀ now, timed.bus.pc.pollTime = some now → now = timed.poll
  chips : ∀ chip < numChipsPerBus, ChipClock delay timed.poll timed.now (timed.bus.view chip)

/-! ### Steps -/

section Steps

variable {FbBio : Type} {numChipsPerBus capacity delay time chip poll now next' : ℕ}
  {timed next : TimedBus FbBio} {view after : ChipView} {waits : Prop}

theorem timestamp_eq (fits : time + maxOperationTime < 2 ^ 32) : timestamp time = time :=
  Nat.mod_eq_of_lt (by omega)

theorem wakeupTimeInUs_acquire_eq (fits : time + maxOperationTime < 2 ^ 32)
    (entry : FbOperation FbBio) :
    (ChipBusy.acquire time entry).wakeupTimeInUs = time + entry.operation.operationTime := by
  have bounds := entry.operation.operationTime_bounds
  simp only [ChipBusy.acquire, timestamp_eq fits]
  exact Nat.mod_eq_of_lt (by omega)

/-- A chip that is waited for by its queue has entries in it. -/
theorem OnClock.numEntries_ne_zero (clock : OnClock numChipsPerBus capacity delay timed)
    (waits : (timed.bus.acquired chip).length < (timed.bus.puts chip).length) :
    (timed.bus.oprQueues chip).numEntries ≠ 0 := by
  intro empty
  have delivered := congrArg List.length (clock.inv.delivered chip)
  have none : (timed.bus.oprQueues chip).contents = [] := by
    apply List.eq_nil_of_length_eq_zero
    rw [QueueOk.length_contents, empty]
  have pending : timed.bus.pending chip = [] := by
    unfold BusController.pending
    rw [none]
    split_ifs <;> rfl
  rw [pending, List.append_nil] at delivered
  omega

/-- A chip whose time has come works. -/
theorem OnClock.works_of_wakeup (clock : OnClock numChipsPerBus capacity delay timed)
    (wakeup : 0 < (timed.bus.chipBusies chip).wakeupTimeInUs) :
    (timed.bus.inFlight chip).isSome = true := by
  have busyOk := clock.inv.busyOk chip
  rcases works : timed.bus.inFlight chip with _ | entry
  · rw [works] at busyOk
    have idle : timed.bus.chipBusies chip = .idle := busyOk
    simp [idle, ChipBusy.idle] at wakeup
  · rfl

theorem OnClock.works_of_isAcquired (clock : OnClock numChipsPerBus capacity delay timed)
    (isAcquired : (timed.bus.chipBusies chip).isAcquired = true) :
    (timed.bus.inFlight chip).isSome = true := by
  have busyOk := clock.inv.busyOk chip
  rcases works : timed.bus.inFlight chip with _ | entry
  · rw [works] at busyOk
    have idle : timed.bus.chipBusies chip = .idle := busyOk
    simp [idle, ChipBusy.idle, ChipBusy.isAcquired] at isAcquired
  · rfl

/-- The thread moves on without a change to the chip. -/
theorem ViewStep.moves {stage : Stage} (same : stage = view.stage) :
    ViewStep waits poll time view { view with stage := stage } poll := by
  subst same
  exact .stay view

/-- Phase 1 at a chip. -/
theorem OnClock.viewStep_release (clock : OnClock numChipsPerBus capacity delay timed)
    {current : ℕ} (position : timed.bus.pc = .release current timed.poll)
    (chip_lt : chip < numChipsPerBus) :
    ViewStep waits timed.poll time (timed.bus.view chip)
      ((timed.bus.threadStep numChipsPerBus time false).view chip) timed.poll := by
  have stage : (timed.bus.view chip).stage = if current ≤ chip then .ahead else .between := by
    simp [BusController.view, BusPc.stage, position]
  unfold BusController.threadStep
  simp only [position]
  rcases Nat.lt_trichotomy current chip with before | same | after
  · -- the chip comes later
    rw [if_pos before.le] at stage
    rw [if_pos (before.trans chip_lt)]
    split_ifs
    · have view : ({ timed.bus.resetBusyTimes current with
          pc := .returnBio current timed.poll } : BusController FbBio).view chip =
          { timed.bus.view chip with stage := .ahead } := by
        simp [BusController.view, BusController.resetBusyTimes, BusPc.stage, before, before.ne']
      rw [view]
      exact .moves stage.symm
    · refine .moves ?_
      rw [stage]
      exact if_pos before
  · subst same
    rw [if_pos (Nat.le_refl _)] at stage
    rw [if_pos chip_lt]
    split_ifs with wakes
    · have view : ({ timed.bus.resetBusyTimes current with
          pc := .returnBio current timed.poll } : BusController FbBio).view current =
          { timed.bus.view current with stage := .returning, wakeup := 0 } := by
        simp [BusController.view, BusController.resetBusyTimes, BusPc.stage, ChipBusy.reset]
      rw [view]
      simp only [ChipBusy.wakes, Bool.and_eq_true, decide_eq_true_eq] at wakes
      exact .wake stage (clock.works_of_wakeup wakes.1) wakes.2
    · have view : ({ timed.bus with pc := .release (current + 1) timed.poll } :
          BusController FbBio).view current = { timed.bus.view current with stage := .between } := by
        simp [BusController.view, BusPc.stage]
      rw [view]
      apply ViewStep.keep stage
      intro positive
      by_contra awake
      apply wakes
      simp only [ChipBusy.wakes, Bool.and_eq_true, decide_eq_true_eq]
      exact ⟨positive, Nat.not_lt.mp awake⟩
  · -- the chip has been passed
    rw [if_neg (Nat.not_le.mpr after)] at stage
    split_ifs
    · have view : ({ timed.bus.resetBusyTimes current with
          pc := .returnBio current timed.poll } : BusController FbBio).view chip =
          { timed.bus.view chip with stage := .between } := by
        simp [BusController.view, BusController.resetBusyTimes, BusPc.stage, after.ne,
          after.ne', Nat.not_lt.mpr after.le]
      rw [view]
      exact .moves stage.symm
    · refine .moves ?_
      rw [stage]
      exact if_neg (by omega)
    · refine .moves ?_
      rw [stage]
      simp [BusPc.stage]

/-- The end of a release. -/
theorem viewStep_returnBio {current now : ℕ} (position : timed.bus.pc = .returnBio current now) :
    ViewStep waits poll time (timed.bus.view chip)
      ((timed.bus.threadStep numChipsPerBus time false).view chip) poll := by
  have stage : (timed.bus.view chip).stage =
      if current < chip then .ahead else if current = chip then .returning else .between := by
    simp [BusController.view, BusPc.stage, position]
  unfold BusController.threadStep
  simp only [position]
  by_cases same : current = chip
  · subst same
    simp only [Nat.lt_irrefl, if_false, if_true] at stage
    have view : ({ timed.bus.clearFbBio current with pc := .release (current + 1) now } :
        BusController FbBio).view current =
        { timed.bus.view current with stage := .between, works := false } := by
      simp [BusController.view, BusController.clearFbBio, BusPc.stage]
    rw [view]
    exact .clear stage
  · have view : ({ timed.bus.clearFbBio current with pc := .release (current + 1) now } :
        BusController FbBio).view chip =
        { timed.bus.view chip with stage := if current + 1 ≤ chip then .ahead else .between } := by
      simp [BusController.view, BusController.clearFbBio, BusPc.stage, Ne.symm same]
    rw [view]
    refine .moves ?_
    rw [stage, if_neg same]
    rfl

/-- The two tests of phase 2. -/
theorem OnClock.viewStep_check (clock : OnClock numChipsPerBus capacity delay timed)
    {current : ℕ} (position : timed.bus.pc = .check current) (chip_lt : chip < numChipsPerBus) :
    ViewStep ((timed.bus.acquired chip).length < (timed.bus.puts chip).length) poll time
      (timed.bus.view chip) ((timed.bus.threadStep numChipsPerBus time false).view chip) poll := by
  have stage : (timed.bus.view chip).stage = if current ≤ chip then .between else .behind := by
    simp [BusController.view, BusPc.stage, position]
  unfold BusController.threadStep
  simp only [position, Bool.false_eq_true, if_false]
  split_ifs with current_lt skips
  · by_cases same : current = chip
    · subst same
      rw [if_pos (Nat.le_refl _)] at stage
      have view : ({ timed.bus with pc := .check (current + 1) } : BusController FbBio).view current =
          { timed.bus.view current with stage := .behind } := by
        simp [BusController.view, BusPc.stage]
      rw [view]
      apply ViewStep.skip stage
      rcases skips with empty | isAcquired
      · exact Or.inr fun waits => clock.numEntries_ne_zero waits empty
      · exact Or.inl (clock.works_of_isAcquired isAcquired)
    · refine .moves ?_
      rw [stage]
      simp only [BusPc.stage]
      congr 1
      simp only [eq_iff_iff]
      omega
  · exact .moves stage.symm
  · refine .moves ?_
    rw [stage]
    exact (if_neg (by omega)).symm

/-- The acquisition of a chip. -/
theorem viewStep_acquire (fits : time + maxOperationTime < 2 ^ 32) {current : ℕ}
    {entry : FbOperation FbBio} (position : timed.bus.pc = .acquire current entry)
    (idle : timed.bus.inFlight current = none) :
    ViewStep waits poll time (timed.bus.view chip)
      ((timed.bus.threadStep numChipsPerBus time false).view chip) poll := by
  have stage : (timed.bus.view chip).stage = if current ≤ chip then .between else .behind := by
    simp [BusController.view, BusPc.stage, position]
  unfold BusController.threadStep
  simp only [position]
  by_cases same : current = chip
  · subst same
    rw [if_pos (Nat.le_refl _)] at stage
    have view : ({ timed.bus.acquireBusyLock current time entry with
        pc := .removeFirst current entry } : BusController FbBio).view current =
        { stage := .behind, works := true, wakeup := time + entry.operation.operationTime
          count := (timed.bus.view current).count + 1 } := by
      simp [BusController.view, BusController.acquireBusyLock, BusPc.stage,
        wakeupTimeInUs_acquire_eq fits]
    rw [view]
    apply ViewStep.acquire entry.operation stage
    simp [BusController.view, idle]
  · have view : ({ timed.bus.acquireBusyLock current time entry with
        pc := .removeFirst current entry } : BusController FbBio).view chip =
        { timed.bus.view chip with stage := if current < chip then .between else .behind } := by
      simp [BusController.view, BusController.acquireBusyLock, BusPc.stage, Ne.symm same]
    rw [view]
    refine .moves ?_
    rw [stage]
    congr 1
    simp only [eq_iff_iff]
    omega

/-- A step of the thread, seen from a chip. -/
theorem OnClock.viewStep (clock : OnClock numChipsPerBus capacity delay timed)
    (fits : time + maxOperationTime < 2 ^ 32) (chip_lt : chip < numChipsPerBus) :
    ViewStep ((timed.bus.acquired chip).length < (timed.bus.puts chip).length) timed.poll time
      (timed.bus.view chip) ((timed.thread numChipsPerBus time).bus.view chip)
      (timed.thread numChipsPerBus time).poll := by
  have known := clock.inv.pcOk
  have pollTime := clock.pollTime
  unfold TimedBus.thread
  rcases position : timed.bus.pc with
    _ | ⟨current, now⟩ | ⟨current, now⟩ | current | current | ⟨current, head⟩ |
      ⟨current, head⟩ | _ | _ <;>
    rw [position] at known pollTime <;>
    simp only [BusPc.isBegin, Bool.false_eq_true, if_false, if_true]
  case begin =>
    have view : (timed.bus.threadStep numChipsPerBus time false).view chip =
        { timed.bus.view chip with stage := .ahead } := by
      simp [BusController.threadStep, position, BusController.view, BusPc.stage]
    rw [view]
    apply ViewStep.newPoll
    simp [BusController.view, position, BusPc.stage]
  case release =>
    obtain rfl := pollTime now rfl
    exact clock.viewStep_release position chip_lt
  case returnBio => exact viewStep_returnBio position
  case check => exact clock.viewStep_check position chip_lt
  case getFirst =>
    -- the queue has an entry, since the thread has seen one
    rcases known with ⟨_, nonempty, _⟩
    rcases first : (timed.bus.oprQueues current).getFirst with _ | entry
    · rw [(clock.inv.queueOk current).getFirst_eq, List.head?_eq_none_iff] at first
      exact absurd first nonempty
    · simp only [BusController.threadStep, position, first]
      refine .moves ?_
      simp [BusController.view, position, BusPc.stage]
  case acquire => exact viewStep_acquire fits position known.2.2
  case removeFirst =>
    simp only [BusController.threadStep, position]
    refine .moves ?_
    simp only [BusController.view, position, BusPc.stage, Nat.lt_iff_add_one_le]
  case emptyExit => exact known.elim
  case finished => exact absurd position clock.running

/-! ### The invariant -/

/-- A step of the thread keeps the times of a chip. -/
theorem ViewStep.chipClock (step : ViewStep waits poll time view after next')
    (clock : ChipClock delay poll now view) (poll_le : poll ≤ now) (later : now ≤ time)
    (prompt : time ≤ poll + delay) : ChipClock delay next' time after := by
  cases step with
  | stay =>
      refine ⟨clock.positive, fun works stage => ?_, clock.notLate, clock.asleep⟩
      have := clock.soon works stage
      omega
  | newPoll stage =>
      have notReturning : view.stage ≠ .returning := by simp [stage]
      have notAhead : view.stage ≠ .ahead := by simp [stage]
      refine ⟨fun works _ => clock.positive works notReturning, fun works _ => ?_,
        fun works _ => ?_, fun _ _ ahead => absurd rfl ahead⟩
      · have := clock.soon works notReturning
        simp only
        omega
      · have := clock.asleep works notReturning notAhead
        simp only
        omega
  | keep stage asleep =>
      have notReturning : view.stage ≠ .returning := by simp [stage]
      refine ⟨fun works _ => clock.positive works notReturning, fun works _ => ?_,
        fun works _ => clock.notLate works notReturning,
        fun works _ _ => asleep (clock.positive works notReturning)⟩
      have := clock.soon works notReturning
      simp only
      omega
  | wake => constructor <;> simp
  | clear => constructor <;> simp
  | skip stage =>
      have notReturning : view.stage ≠ .returning := by simp [stage]
      have notAhead : view.stage ≠ .ahead := by simp [stage]
      refine ⟨fun works _ => clock.positive works notReturning, fun works _ => ?_,
        fun works _ => clock.notLate works notReturning,
        fun works _ _ => clock.asleep works notReturning notAhead⟩
      have := clock.soon works notReturning
      simp only
      omega
  | acquire operation =>
      have bounds := operation.operationTime_bounds
      constructor <;> intros <;> simp only <;> omega

theorem OnClock.create {start : ℕ} (room : 1 ≤ capacity) (fits : start + maxOperationTime < 2 ^ 32)
    (oprList : ℕ → ℕ → FbOperation FbBio) :
    OnClock numChipsPerBus capacity delay (.create capacity start oprList) where
  inv := .create room oprList
  running := by simp [TimedBus.create, BusController.create]
  poll_le := Nat.le_refl _
  now_le := Nat.le_add_right _ _
  fits := fits
  pollTime := by simp [TimedBus.create, BusController.create, BusPc.pollTime]
  chips _ _ := by constructor <;> simp [TimedBus.create, BusController.create, BusController.view]

theorem OnClock.put (clock : OnClock numChipsPerBus capacity delay timed) (target : ℕ)
    (entry : FbOperation FbBio) : OnClock numChipsPerBus capacity delay (timed.put target entry) where
  inv := clock.inv.put target entry
  running := clock.running
  poll_le := clock.poll_le
  now_le := clock.now_le
  fits := clock.fits
  pollTime := clock.pollTime
  chips := clock.chips

theorem OnClock.thread (clock : OnClock numChipsPerBus capacity delay timed)
    (later : timed.now ≤ time) (prompt : time ≤ timed.poll + delay)
    (fits : time + maxOperationTime < 2 ^ 32) :
    OnClock numChipsPerBus capacity delay (timed.thread numChipsPerBus time) where
  inv := clock.inv.threadStep time false
  running := by
    have running := clock.running
    unfold TimedBus.thread BusController.threadStep
    rcases position : timed.bus.pc <;> simp only [Bool.false_eq_true, if_false] <;>
      repeat' split
    all_goals simp_all
  poll_le := by
    have := clock.poll_le
    simp only [TimedBus.thread]
    split_ifs <;> omega
  now_le := by
    simp only [TimedBus.thread]
    split_ifs <;> omega
  fits := fits
  pollTime := by
    have before := clock.pollTime
    have started := timestamp_eq fits
    unfold TimedBus.thread BusController.threadStep
    rcases position : timed.bus.pc <;> simp only [Bool.false_eq_true, if_false] <;>
      repeat' split
    all_goals simp_all [BusPc.pollTime, BusPc.isBegin]
  chips chip chip_lt := (clock.viewStep fits chip_lt).chipClock (clock.chips chip chip_lt)
    clock.poll_le later prompt

theorem OnClock.step (clock : OnClock numChipsPerBus capacity delay timed)
    (step : TimedStep numChipsPerBus delay timed next) :
    OnClock numChipsPerBus capacity delay next := by
  cases step with
  | put target entry => exact clock.put target entry
  | thread time later prompt fits => exact clock.thread later prompt fits

/-- The invariant holds after any steps. -/
theorem OnClock.steps (clock : OnClock numChipsPerBus capacity delay timed)
    (steps : TimedSteps numChipsPerBus delay timed next) :
    OnClock numChipsPerBus capacity delay next := by
  induction steps with
  | refl => exact clock
  | tail _ step before => exact before.step step

end Steps

/-! ### Deadlines -/

/-- The time from one acquisition of a chip to the next. -/
def period (delay : ℕ) : ℕ := maxOperationTime + 2 * delay

/-- The chip is in time for its first `target` operations to be over at `limit`. -/
structure ChipOnTime (delay limit target poll : ℕ) (view : ChipView) : Prop where
  working : view.works = true → view.stage ≠ .returning → view.count ≤ target →
    view.wakeup + 2 * delay + (target - view.count) * period delay ≤ limit
  returning : view.stage = .returning → view.count ≤ target →
    poll + delay + (target - view.count) * period delay ≤ limit
  /-- A chip that phase 2 has passed waits for the next turn of the loop. -/
  idle : view.works = false → view.count < target →
    poll + (if view.stage = .behind then 2 * delay else delay) +
      (target - view.count) * period delay ≤ limit

/-- The operations that a chip has worked off. -/
def BusController.finishedOps {FbBio : Type} (bus : BusController FbBio) (chip : ℕ) :
    List (FbOperation FbBio) :=
  if (bus.inFlight chip).isSome then (bus.acquired chip).dropLast else bus.acquired chip

section Deadlines

variable {FbBio : Type} {numChipsPerBus capacity delay time chip poll next' limit target now : ℕ}
  {timed next : TimedBus FbBio} {view after : ChipView} {waits : Prop}

/-- A step of the thread keeps a chip in time. -/
theorem ViewStep.chipOnTime (step : ViewStep waits poll time view after next')
    (clock : ChipClock delay poll now view) (prompt : time ≤ poll + delay)
    (known : view.count < target → waits) (onTime : ChipOnTime delay limit target poll view) :
    ChipOnTime delay limit target next' after := by
  cases step with
  | stay => exact onTime
  | newPoll stage =>
      have notReturning : view.stage ≠ .returning := by simp [stage]
      refine ⟨fun works _ => onTime.working works notReturning, by simp, fun idle few => ?_⟩
      have before := onTime.idle idle few
      rw [if_pos stage] at before
      simp only [reduceCtorEq, if_false]
      omega
  | keep stage =>
      have notReturning : view.stage ≠ .returning := by simp [stage]
      refine ⟨fun works _ => onTime.working works notReturning, by simp, fun idle few => ?_⟩
      simpa [stage] using onTime.idle idle few
  | wake stage works =>
      have notReturning : view.stage ≠ .returning := by simp [stage]
      refine ⟨by simp, fun _ few => ?_, fun idle _ => ?_⟩
      · have before := onTime.working works notReturning few
        have notLate := clock.notLate works notReturning
        simp only
        omega
      · simp [works] at idle
  | clear stage =>
      refine ⟨by simp, by simp, fun _ few => ?_⟩
      simpa using onTime.returning stage few.le
  | skip stage noNeed =>
      have notReturning : view.stage ≠ .returning := by simp [stage]
      refine ⟨fun works _ => onTime.working works notReturning, by simp, fun idle few => ?_⟩
      rcases noNeed with works | notWaits
      · simp only [works] at idle
        cases idle
      · exact absurd (known few) notWaits
  | acquire operation stage idle =>
      have bounds := operation.operationTime_bounds
      refine ⟨fun _ _ few => ?_, by simp, by simp⟩
      simp only at few ⊢
      have before := onTime.idle idle few
      have oneLess : target - view.count = (target - (view.count + 1)) + 1 := by omega
      rw [oneLess, Nat.add_mul, Nat.one_mul] at before
      simp only [stage, reduceCtorEq, if_false] at before
      unfold period at before ⊢
      omega

/-- While its operations are not over, the chip has not come to the limit. -/
theorem ChipOnTime.now_le (onTime : ChipOnTime delay limit target poll view)
    (clock : ChipClock delay poll now view) (now_le : now ≤ poll + delay)
    (notOver : view.count < target ∨ view.count = target ∧ view.works = true) : now ≤ limit := by
  have few : view.count ≤ target := by omega
  by_cases isReturning : view.stage = .returning
  · have := onTime.returning isReturning few
    omega
  · rcases works : view.works
    · rcases notOver with fewer | ⟨_, isWorking⟩
      · have := onTime.idle works fewer
        split_ifs at this <;> omega
      · simp [works] at isWorking
    · have := onTime.working works isReturning few
      have := clock.notLate works isReturning
      omega

/-- In every state the chip is in time for the operations put so far. -/
theorem OnClock.chipOnTime (clock : OnClock numChipsPerBus capacity delay timed)
    (chip_lt : chip < numChipsPerBus) :
    ChipOnTime delay
      (timed.now + period delay + (timed.bus.pending chip).length * period delay)
      (timed.bus.puts chip).length timed.poll (timed.bus.view chip) := by
  have delivered := congrArg List.length (clock.inv.delivered chip)
  rw [List.length_append] at delivered
  have left : (timed.bus.puts chip).length - (timed.bus.view chip).count =
      (timed.bus.pending chip).length := by
    simp only [BusController.view]
    omega
  have poll_le := clock.poll_le
  refine ⟨fun works notReturning _ => ?_, fun _ _ => ?_, fun _ _ => ?_⟩
  · have := (clock.chips chip chip_lt).soon works notReturning
    rw [left]
    unfold period
    omega
  · rw [left]
    unfold period
    omega
  · rw [left]
    unfold period
    split_ifs <;> omega

theorem TimedStep.puts (step : TimedStep numChipsPerBus delay timed next) (chip : ℕ) :
    timed.bus.puts chip <+: next.bus.puts chip := by
  cases step with
  | put target entry =>
      simp only [TimedBus.put, BusController.put]
      split_ifs
      · by_cases same : chip = target
        · subst same
          simp
        · simp [same]
      · exact List.prefix_rfl
  | thread time =>
      simp only [TimedBus.thread, BusInv.threadStep_puts]
      exact List.prefix_rfl

theorem TimedSteps.puts (steps : TimedSteps numChipsPerBus delay timed next) (chip : ℕ) :
    timed.bus.puts chip <+: next.bus.puts chip := by
  induction steps with
  | refl => exact List.prefix_rfl
  | tail _ step before => exact before.trans (step.puts chip)

/-- A chip stays in time for the operations put so far, whatever is put later. -/
theorem ChipOnTime.steps (clock : OnClock numChipsPerBus capacity delay timed)
    (chip_lt : chip < numChipsPerBus) (known : target ≤ (timed.bus.puts chip).length)
    (onTime : ChipOnTime delay limit target timed.poll (timed.bus.view chip))
    (steps : TimedSteps numChipsPerBus delay timed next) :
    ChipOnTime delay limit target next.poll (next.bus.view chip) := by
  induction steps with
  | refl => exact onTime
  | @tail middle last sofar step before =>
      have middleClock := clock.steps sofar
      cases step with
      | put entry => exact before
      | thread time later prompt fits =>
          have view := middleClock.viewStep fits chip_lt
          apply view.chipOnTime (middleClock.chips chip chip_lt) prompt _ before
          intro few
          have := (TimedSteps.puts sofar chip).length_le
          simp only [BusController.view] at few
          omega

/-- What the chip has worked off is the beginning of what was put into its queue. -/
theorem OnClock.finishedOps_isPrefix (clock : OnClock numChipsPerBus capacity delay timed)
    (chip : ℕ) : timed.bus.finishedOps chip <+: timed.bus.puts chip := by
  rw [clock.inv.delivered chip]
  unfold BusController.finishedOps
  split_ifs
  · exact (List.dropLast_prefix _).trans (List.prefix_append _ _)
  · exact List.prefix_append _ _

/-- When the thread of a bus controller begins its loop again within `delay` and the clock does
not wrap, the operations that have been put into the queue of a chip at some moment are over
one period for each of them later, and one more. -/
theorem operations_finish_in_time (room : 1 ≤ capacity) {start : ℕ}
    (fits : start + maxOperationTime < 2 ^ 32) {oprList : ℕ → ℕ → FbOperation FbBio}
    (earlier : TimedSteps numChipsPerBus delay (.create capacity start oprList) timed)
    (steps : TimedSteps numChipsPerBus delay timed next) (chip_lt : chip < numChipsPerBus)
    (late : timed.now + period delay + (timed.bus.pending chip).length * period delay < next.now) :
    timed.bus.puts chip <+: next.bus.finishedOps chip := by
  have clock : OnClock numChipsPerBus capacity delay timed :=
    (OnClock.create room fits oprList).steps earlier
  have nextClock := clock.steps steps
  have onTime := (clock.chipOnTime chip_lt).steps clock chip_lt (Nat.le_refl _) steps
  have enough : (timed.bus.puts chip).length ≤ (next.bus.finishedOps chip).length := by
    by_contra notOver
    have := onTime.now_le (nextClock.chips chip chip_lt) nextClock.now_le (by
      simp only [BusController.finishedOps, BusController.view] at notOver ⊢
      split_ifs at notOver with works
      · rw [List.length_dropLast] at notOver
        simp only [works, and_true]
        omega
      · omega)
    omega
  exact List.prefix_of_prefix_length_le (steps.puts chip) (nextClock.finishedOps_isPrefix chip) enough

/-! ### A run of one chip -/

/-- The thread makes steps at some times. -/
def TimedBus.threads (numChipsPerBus : ℕ) (times : List ℕ) (timed : TimedBus FbBio) : TimedBus FbBio :=
  times.foldl (fun timed time => timed.thread numChipsPerBus time) timed

/-- The times keep to the conditions of `TimedStep`. -/
def TimedBus.prompt (numChipsPerBus delay : ℕ) : List ℕ → TimedBus FbBio → Bool
  | [], _ => true
  | time :: times, timed =>
      timed.now ≤ time && time ≤ timed.poll + delay && time + maxOperationTime < 2 ^ 32 &&
        prompt numChipsPerBus delay times (timed.thread numChipsPerBus time)

theorem TimedSteps.of_prompt {times : List ℕ}
    (prompt : timed.prompt numChipsPerBus delay times = true) :
    TimedSteps numChipsPerBus delay timed (timed.threads numChipsPerBus times) := by
  induction times generalizing timed with
  | nil => exact .refl
  | cons time times inductive_hypothesis =>
      simp only [TimedBus.prompt, Bool.and_eq_true, decide_eq_true_eq] at prompt
      rcases prompt with ⟨⟨⟨later, soon⟩, fits⟩, rest⟩
      exact .head (.thread time later soon fits) (inductive_hypothesis rest)

/-- A controller with one chip into whose queue a read was put. -/
def oneRead : TimedBus ℕ :=
  (TimedBus.create 1 0 fun _ _ => ⟨.opRead, none⟩).put 0 ⟨.opRead, some 7⟩

/-- The times of the steps of the thread: it begins its loop every 10 milliseconds. -/
def oneReadTimes : List ℕ :=
  List.replicate 8 0 ++ List.replicate 6 10000 ++
    [20000, 30000, 40000, 50000].flatMap (List.replicate 5) ++ [50001]

theorem oneRead_finishes :
    oneRead.bus.puts 0 <+: (oneRead.threads 1 oneReadTimes).bus.finishedOps 0 := by
  have earlier : TimedSteps 1 10000 (.create 1 0 fun _ _ => ⟨.opRead, none⟩) oneRead :=
    .single (.put 0 ⟨.opRead, some 7⟩)
  have steps : TimedSteps 1 10000 oneRead (oneRead.threads 1 oneReadTimes) :=
    .of_prompt (by decide +kernel)
  exact operations_finish_in_time (Nat.le_refl 1) (by decide) earlier steps Nat.one_pos
    (by decide +kernel)

end Deadlines

end FlashBench
