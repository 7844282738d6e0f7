import Mathlib.Data.List.Sort
import FlashBench.BusController

/-!
# Busy times

How long a chip stays acquired. Time is an unbounded number of microseconds, but the thread
sees only its low 32 bits, and it takes a wakeup time of 0 for a chip without one.
-/

namespace FlashBench

namespace ChipBusy

variable {FbBio : Type}

/-- Phase 1 for one chip, as far as its busy times are concerned. -/
def poll (busy : ChipBusy FbBio) (time : ℕ) : ChipBusy FbBio :=
  if busy.wakes (timestamp time) then busy.reset else busy

/-- A poll is what the thread does to a chip in phase 1. -/
theorem chipBusies_threadStep {bus : BusController FbBio} {numChipsPerBus chip time : ℕ}
    (position : bus.pc = .release chip (timestamp time)) (chip_lt : chip < numChipsPerBus)
    (now : ℕ) (stop : Bool) :
    (bus.threadStep numChipsPerBus now stop).chipBusies chip = (bus.chipBusies chip).poll time := by
  unfold BusController.threadStep poll
  rw [position]
  simp only [if_pos chip_lt]
  split_ifs with wakes
  · simp [BusController.resetBusyTimes]
  · rfl

theorem foldl_poll_reset (busy : ChipBusy FbBio) (polls : List ℕ) :
    polls.foldl poll busy.reset = busy.reset := by
  induction polls with
  | nil => rfl
  | cons time polls inductive_hypothesis => exact inductive_hypothesis

/-- A chip is released by the first poll that wakes it. -/
theorem foldl_poll (busy : ChipBusy FbBio) (polls : List ℕ) :
    polls.foldl poll busy =
      if ∃ time ∈ polls, busy.wakes (timestamp time) then busy.reset else busy := by
  induction polls with
  | nil => simp
  | cons time polls inductive_hypothesis =>
      rw [List.foldl_cons, poll]
      by_cases wakes : busy.wakes (timestamp time)
      · rw [if_pos wakes, foldl_poll_reset, if_pos ⟨time, List.mem_cons_self, wakes⟩]
      · rw [if_neg wakes, inductive_hypothesis]
        simp only [List.mem_cons, exists_eq_or_imp, wakes, false_or, Bool.false_eq_true]

end ChipBusy

variable {FbBio : Type} {time : ℕ} {entry : FbOperation FbBio} {polls : List ℕ}

/-- The time at which the operation of a chip is over. -/
def wakeupTime (time : ℕ) (entry : FbOperation FbBio) : ℕ :=
  time + entry.operation.operationTime

/-- A chip that is acquired at some time, after some polls. -/
def busyAfter (time : ℕ) (entry : FbOperation FbBio) (polls : List ℕ) : ChipBusy FbBio :=
  polls.foldl ChipBusy.poll (.acquire time entry)

/-- A chip that is acquired at some time is released by the first poll at or after the end of
its operation and by no earlier one, and while it is acquired some poll can release it. -/
def HonoursBusyTime (time : ℕ) (entry : FbOperation FbBio) (polls : List ℕ) : Prop :=
  ∀ count,
    ((busyAfter time entry (polls.take count)).isAcquired = false ↔
      ∃ poll ∈ polls.take count, wakeupTime time entry ≤ poll) ∧
    ((busyAfter time entry (polls.take count)).isAcquired = true →
      (busyAfter time entry (polls.take count)).wakeupTimeInUs ≠ 0)

/-- The clock does not wrap where it matters. -/
structure BusyTimeFits (time : ℕ) (entry : FbOperation FbBio) (polls : List ℕ) : Prop where
  wakeup_ne_zero : wakeupTime time entry % 2 ^ 32 ≠ 0
  early : ∀ poll ∈ polls, poll < wakeupTime time entry →
    poll / 2 ^ 32 = wakeupTime time entry / 2 ^ 32
  firstLate : ∀ poll, polls.find? (wakeupTime time entry ≤ ·) = some poll →
    wakeupTime time entry % 2 ^ 32 ≤ poll % 2 ^ 32

namespace ChipBusy

theorem wakeupTimeInUs_acquire (time : ℕ) (entry : FbOperation FbBio) :
    (acquire time entry).wakeupTimeInUs = wakeupTime time entry % 2 ^ 32 := by
  unfold acquire timestamp wakeupTime
  exact Nat.mod_add_mod _ _ _

theorem wakes_acquire_iff {poll : ℕ} : (acquire time entry).wakes (timestamp poll) = true ↔
    wakeupTime time entry % 2 ^ 32 ≠ 0 ∧
      wakeupTime time entry % 2 ^ 32 ≤ poll % 2 ^ 32 := by
  unfold wakes timestamp
  rw [wakeupTimeInUs_acquire, Bool.and_eq_true, decide_eq_true_eq, decide_eq_true_eq,
    Nat.pos_iff_ne_zero]

/-- Before the end of its operation a chip is released only across a wrap of the clock. -/
theorem wakes_early_iff {poll : ℕ} (later : time ≤ poll)
    (isEarly : poll < wakeupTime time entry) :
    (acquire time entry).wakes (timestamp poll) = true ↔
      wakeupTime time entry % 2 ^ 32 ≠ 0 ∧ poll / 2 ^ 32 ≠ wakeupTime time entry / 2 ^ 32 := by
  have isShort : entry.operation.operationTime < 2 ^ 32 := by
    cases entry.operation <;> decide
  rw [wakes_acquire_iff]
  unfold wakeupTime at isEarly ⊢
  constructor
  · rintro ⟨notZero, reached⟩
    refine ⟨notZero, fun sameEpoch => ?_⟩
    omega
  · rintro ⟨notZero, otherEpoch⟩
    refine ⟨notZero, ?_⟩
    omega

end ChipBusy

theorem isAcquired_busyAfter (time : ℕ) (entry : FbOperation FbBio) (polls : List ℕ) :
    (busyAfter time entry polls).isAcquired = false ↔
      ∃ poll ∈ polls, (ChipBusy.acquire time entry).wakes (timestamp poll) = true := by
  unfold busyAfter
  rw [ChipBusy.foldl_poll]
  split_ifs with woken
  · exact iff_of_true rfl woken
  · rw [ChipBusy.isAcquired_acquire]
    exact iff_of_false (by simp) woken

/-- A chip that is still acquired has the wakeup time it was given. -/
theorem wakeupTimeInUs_busyAfter (acquired : (busyAfter time entry polls).isAcquired = true) :
    (busyAfter time entry polls).wakeupTimeInUs = wakeupTime time entry % 2 ^ 32 := by
  unfold busyAfter at acquired ⊢
  rw [ChipBusy.foldl_poll] at acquired ⊢
  split_ifs at acquired ⊢ with woken
  · cases acquired
  · exact ChipBusy.wakeupTimeInUs_acquire time entry

theorem take_append_cons (front back : List ℕ) (poll : ℕ) :
    (front ++ poll :: back).take (front.length + 1) = front ++ [poll] := by
  rw [List.take_append, List.take_of_length_le (by omega), Nat.add_sub_cancel_left]
  rfl

/-- The first late poll is the first late poll of every longer list. -/
theorem find?_eq_some_of_take {isLate : ℕ → Bool} {count first : ℕ}
    (found : (polls.take count).find? isLate = some first) : polls.find? isLate = some first := by
  rw [← List.take_append_drop count polls, List.find?_append, found]
  rfl

/-- The busy time of a chip is honoured exactly when the clock does not wrap where it matters. -/
theorem honoursBusyTime_iff (sorted : polls.Pairwise (· ≤ ·))
    (later : ∀ poll ∈ polls, time ≤ poll) :
    HonoursBusyTime time entry polls ↔ BusyTimeFits time entry polls := by
  constructor
  · intro honours
    have notZero : wakeupTime time entry % 2 ^ 32 ≠ 0 := by
      rw [← ChipBusy.wakeupTimeInUs_acquire]
      exact (honours 0).2 (ChipBusy.isAcquired_acquire time entry)
    -- the prefix that ends with a poll tells whether the chip was released too early or too late
    have upTo {front back : List ℕ} {poll : ℕ} (parts : polls = front ++ poll :: back) :=
      (honours (front.length + 1)).1
    have early (poll : ℕ) (member : poll ∈ polls) (isEarly : poll < wakeupTime time entry) :
        poll / 2 ^ 32 = wakeupTime time entry / 2 ^ 32 := by
      by_contra otherEpoch
      have wakes := (ChipBusy.wakes_early_iff (later poll member) isEarly).mpr
        ⟨notZero, otherEpoch⟩
      rcases List.append_of_mem member with ⟨front, back, parts⟩
      have honoured := upTo parts
      rw [parts, take_append_cons, isAcquired_busyAfter] at honoured
      rcases honoured.mp ⟨poll, by simp, wakes⟩ with ⟨late, taken, isLate⟩
      rcases List.mem_append.mp taken with before | same
      · rw [parts] at sorted
        have := (List.pairwise_append.mp sorted).2.2 late before poll List.mem_cons_self
        omega
      · have := List.mem_singleton.mp same
        omega
    refine ⟨notZero, early, fun poll found => ?_⟩
    rcases List.find?_eq_some_iff_append.mp found with ⟨isLate, front, back, parts, frontEarly⟩
    have honoured := upTo parts
    rw [parts, take_append_cons, isAcquired_busyAfter] at honoured
    rcases honoured.mpr ⟨poll, by simp, of_decide_eq_true isLate⟩ with ⟨woken, taken, wakes⟩
    rcases List.mem_append.mp taken with before | same
    · have isEarly : woken < wakeupTime time entry := by simpa using frontEarly woken before
      have member : woken ∈ polls := by
        rw [parts]
        exact List.mem_append_left _ before
      have across := (ChipBusy.wakes_early_iff (later woken member) isEarly).mp wakes
      exact absurd (early woken member isEarly) across.2
    · rw [List.mem_singleton.mp same] at wakes
      exact (ChipBusy.wakes_acquire_iff.mp wakes).2
  · intro fits count
    constructor
    · rw [isAcquired_busyAfter]
      constructor
      · rintro ⟨poll, taken, wakes⟩
        refine ⟨poll, taken, ?_⟩
        by_contra notLate
        have isEarly : poll < wakeupTime time entry := by omega
        have member := List.mem_of_mem_take taken
        have across := (ChipBusy.wakes_early_iff (later poll member) isEarly).mp wakes
        exact across.2 (fits.early poll member isEarly)
      · rintro ⟨poll, taken, isLate⟩
        cases found : (polls.take count).find? (wakeupTime time entry ≤ ·) with
        | none =>
            have notLate := List.find?_eq_none.mp found poll taken
            simp [isLate] at notLate
        | some first =>
            have inTime := fits.firstLate first (find?_eq_some_of_take found)
            exact ⟨first, List.mem_of_find?_eq_some found,
              ChipBusy.wakes_acquire_iff.mpr ⟨fits.wakeup_ne_zero, inTime⟩⟩
    · intro acquired
      rw [wakeupTimeInUs_busyAfter acquired]
      exact fits.wakeup_ne_zero

theorem honoursBusyTime_iff_start :
    HonoursBusyTime 5 ⟨.opRead, (none : Option ℕ)⟩ [5, 85] ↔
      BusyTimeFits 5 ⟨.opRead, (none : Option ℕ)⟩ [5, 85] :=
  honoursBusyTime_iff (by decide) (by decide)

/-- A chip whose wakeup time wraps to 0 is never released, and one whose wakeup time wraps to a
small number is released at once. -/
theorem not_honoursBusyTime :
    ¬HonoursBusyTime (2 ^ 32 - 80) ⟨.opRead, (none : Option ℕ)⟩ [2 ^ 32] ∧
    ¬HonoursBusyTime (2 ^ 32 - 79) ⟨.opRead, (none : Option ℕ)⟩ [2 ^ 32 - 79] := by
  constructor
  · intro honours
    have released := (honours 1).1.mpr ⟨2 ^ 32, by decide, by decide⟩
    revert released
    decide
  · intro honours
    rcases (honours 1).1.mp (by decide) with ⟨poll, taken, isLate⟩
    simp [wakeupTime, FbDevOp.operationTime] at taken isLate
    omega

end FlashBench
