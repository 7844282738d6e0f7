import FlashBench.ReadBio

/-!
# Where the pages of read bios are

The link between the pages of all bios, as their ghosts tell it, and what the queues, the chips
and the threads hold. Each rule is one kind of move: a page enters a queue, a chip takes it up,
a thread or the submitter counts it down, and whoever took the count to 0 completes the bio.
-/

namespace FlashBench

/-- Every page is where its bio says, and every bio that is being completed has one agent. -/
structure Linked (reads : ℕ × ℕ → List (ℕ × ℕ)) (owes : ℕ × ℕ → Option (ℕ × ℕ))
    (endioOf freeOf : ℕ → Option ℕ) (bios : ℕ → ReadBio) : Prop where
  queued_iff : ∀ bio page place, (bios bio).status page = .queued place ↔
    (bio, page) ∈ reads place
  busy_iff : ∀ bio page place, (bios bio).status page = .busy place ↔
    owes place = some (bio, page)
  toEndio_iff : ∀ bio bus, (bios bio).duty = .toEndio (.bus bus) ↔ endioOf bus = some bio
  toFree_iff : ∀ bio bus, (bios bio).duty = .toFree (.bus bus) ↔ freeOf bus = some bio

namespace Linked

variable {reads nextReads : ℕ × ℕ → List (ℕ × ℕ)} {owes nextOwes : ℕ × ℕ → Option (ℕ × ℕ)}
  {endioOf freeOf nextEndioOf nextFreeOf : ℕ → Option ℕ} {bios : ℕ → ReadBio} {bio : ℕ}
  {next : ReadBio}

theorem update (linked : Linked reads owes endioOf freeOf bios)
    (ownQueued : ∀ page place, next.status page = .queued place ↔ (bio, page) ∈ nextReads place)
    (ownBusy : ∀ page place, next.status page = .busy place ↔ nextOwes place = some (bio, page))
    (ownEndio : ∀ bus, next.duty = .toEndio (.bus bus) ↔ nextEndioOf bus = some bio)
    (ownFree : ∀ bus, next.duty = .toFree (.bus bus) ↔ nextFreeOf bus = some bio)
    (otherQueued : ∀ other page place, other ≠ bio →
      ((other, page) ∈ nextReads place ↔ (other, page) ∈ reads place))
    (otherBusy : ∀ other page place, other ≠ bio →
      (nextOwes place = some (other, page) ↔ owes place = some (other, page)))
    (otherEndio : ∀ other bus, other ≠ bio →
      (nextEndioOf bus = some other ↔ endioOf bus = some other))
    (otherFree : ∀ other bus, other ≠ bio →
      (nextFreeOf bus = some other ↔ freeOf bus = some other)) :
    Linked nextReads nextOwes nextEndioOf nextFreeOf (Function.update bios bio next) := by
  constructor
  case queued_iff =>
    intro other page place
    by_cases same : other = bio
    · rw [same, Function.update_self]
      exact ownQueued page place
    · rw [Function.update_of_ne same, otherQueued other page place same]
      exact linked.queued_iff other page place
  case busy_iff =>
    intro other page place
    by_cases same : other = bio
    · rw [same, Function.update_self]
      exact ownBusy page place
    · rw [Function.update_of_ne same, otherBusy other page place same]
      exact linked.busy_iff other page place
  case toEndio_iff =>
    intro other bus
    by_cases same : other = bio
    · rw [same, Function.update_self]
      exact ownEndio bus
    · rw [Function.update_of_ne same, otherEndio other bus same]
      exact linked.toEndio_iff other bus
  case toFree_iff =>
    intro other bus
    by_cases same : other = bio
    · rw [same, Function.update_self]
      exact ownFree bus
    · rw [Function.update_of_ne same, otherFree other bus same]
      exact linked.toFree_iff other bus

theorem keep (linked : Linked reads owes endioOf freeOf bios)
    (status : next.status = (bios bio).status)
    (endio : ∀ bus, next.duty = .toEndio (.bus bus) ↔ (bios bio).duty = .toEndio (.bus bus))
    (free : ∀ bus, next.duty = .toFree (.bus bus) ↔ (bios bio).duty = .toFree (.bus bus)) :
    Linked reads owes endioOf freeOf (Function.update bios bio next) := by
  apply linked.update
  · intro page place
    rw [status]
    exact linked.queued_iff bio page place
  · intro page place
    rw [status]
    exact linked.busy_iff bio page place
  · exact fun bus => (endio bus).trans (linked.toEndio_iff bio bus)
  · exact fun bus => (free bus).trans (linked.toFree_iff bio bus)
  · exact fun _ _ _ _ => Iff.rfl
  · exact fun _ _ _ _ => Iff.rfl
  · exact fun _ _ _ => Iff.rfl
  · exact fun _ _ _ => Iff.rfl

theorem decSubmitter (linked : Linked reads owes endioOf freeOf bios) {page : ℕ}
    (waiting : (bios bio).status page = .waiting)
    (status : next.status = Function.update (bios bio).status page .done)
    (before : (bios bio).duty = .counting)
    (duty : next.duty = .toEndio .submitter ∨ next.duty = .counting) :
    Linked reads owes endioOf freeOf (Function.update bios bio next) := by
  have notQueued (place : ℕ × ℕ) : (bio, page) ∉ reads place := by
    rw [← linked.queued_iff, waiting]
    simp
  have notBusy (place : ℕ × ℕ) : owes place ≠ some (bio, page) := by
    rw [ne_eq, ← linked.busy_iff, waiting]
    simp
  apply linked.update
  · intro other place
    rw [status]
    by_cases same : other = page
    · subst same
      simp [notQueued]
    · rw [Function.update_of_ne same]
      exact linked.queued_iff bio other place
  · intro other place
    rw [status]
    by_cases same : other = page
    · subst same
      simp [notBusy]
    · rw [Function.update_of_ne same]
      exact linked.busy_iff bio other place
  · intro bus
    rw [← linked.toEndio_iff, before]
    rcases duty with now | now <;> simp [now]
  · intro bus
    rw [← linked.toFree_iff, before]
    rcases duty with now | now <;> simp [now]
  · exact fun _ _ _ _ => Iff.rfl
  · exact fun _ _ _ _ => Iff.rfl
  · exact fun _ _ _ => Iff.rfl
  · exact fun _ _ _ => Iff.rfl

theorem enqueue (linked : Linked reads owes endioOf freeOf bios) {page : ℕ} {place : ℕ × ℕ}
    (waiting : (bios bio).status page = .waiting)
    (status : next.status = Function.update (bios bio).status page (.queued place))
    (duty : next.duty = (bios bio).duty) :
    Linked (Function.update reads place (reads place ++ [(bio, page)])) owes endioOf freeOf
      (Function.update bios bio next) := by
  have notQueued (chip : ℕ × ℕ) : (bio, page) ∉ reads chip := by
    rw [← linked.queued_iff, waiting]
    simp
  have notBusy (chip : ℕ × ℕ) : owes chip ≠ some (bio, page) := by
    rw [ne_eq, ← linked.busy_iff, waiting]
    simp
  have mem_iff (read : ℕ × ℕ) (chip : ℕ × ℕ) :
      read ∈ Function.update reads place (reads place ++ [(bio, page)]) chip ↔
        read ∈ reads chip ∨ (chip = place ∧ read = (bio, page)) := by
    by_cases same : chip = place
    · subst same
      simp
    · simp [same]
  apply linked.update
  · intro other chip
    rw [status, mem_iff]
    by_cases same : other = page
    · subst same
      simp [notQueued, eq_comm]
    · rw [Function.update_of_ne same, linked.queued_iff bio other chip]
      simp [same]
  · intro other chip
    rw [status]
    by_cases same : other = page
    · subst same
      simp [notBusy]
    · rw [Function.update_of_ne same]
      exact linked.busy_iff bio other chip
  · intro bus
    rw [duty]
    exact linked.toEndio_iff bio bus
  · intro bus
    rw [duty]
    exact linked.toFree_iff bio bus
  · intro other otherPage chip different
    rw [mem_iff]
    simp [different]
  · exact fun _ _ _ _ => Iff.rfl
  · exact fun _ _ _ => Iff.rfl
  · exact fun _ _ _ => Iff.rfl

theorem dequeue (linked : Linked reads owes endioOf freeOf bios) {page : ℕ} {place : ℕ × ℕ}
    {rest : List (ℕ × ℕ)} (first : reads place = (bio, page) :: rest)
    (nodup : (reads place).Nodup) (idle : owes place = none)
    (status : next.status = Function.update (bios bio).status page (.busy place))
    (duty : next.duty = (bios bio).duty) :
    Linked (Function.update reads place rest) (Function.update owes place (some (bio, page)))
      endioOf freeOf (Function.update bios bio next) := by
  have queued : (bios bio).status page = .queued place := by
    rw [linked.queued_iff, first]
    exact List.mem_cons_self
  have notIn : (bio, page) ∉ rest := by
    rw [first] at nodup
    exact (List.nodup_cons.mp nodup).1
  have elsewhere (chip : ℕ × ℕ) (inQueue : (bio, page) ∈ reads chip) : chip = place := by
    rw [← linked.queued_iff, queued] at inQueue
    exact (PageStatus.queued.inj inQueue).symm
  have notBusy (chip : ℕ × ℕ) : owes chip ≠ some (bio, page) := by
    rw [ne_eq, ← linked.busy_iff, queued]
    simp
  have mem_iff (read : ℕ × ℕ) (different : read ≠ (bio, page)) (chip : ℕ × ℕ) :
      read ∈ Function.update reads place rest chip ↔ read ∈ reads chip := by
    by_cases same : chip = place
    · rw [same, Function.update_self, first, List.mem_cons]
      simp [different]
    · rw [Function.update_of_ne same]
  have owes_iff (read : ℕ × ℕ) (different : read ≠ (bio, page)) (chip : ℕ × ℕ) :
      Function.update owes place (some (bio, page)) chip = some read ↔ owes chip = some read := by
    by_cases same : chip = place
    · rw [same, Function.update_self, idle]
      simp [different.symm]
    · rw [Function.update_of_ne same]
  apply linked.update
  · intro other chip
    rw [status]
    by_cases same : other = page
    · subst same
      rw [Function.update_self]
      refine iff_of_false (by simp) ?_
      by_cases own : chip = place
      · rwa [own, Function.update_self]
      · rw [Function.update_of_ne own]
        exact mt (elsewhere chip) own
    · rw [Function.update_of_ne same, mem_iff _ (by simp [same])]
      exact linked.queued_iff bio other chip
  · intro other chip
    rw [status]
    by_cases same : other = page
    · subst same
      rw [Function.update_self]
      by_cases own : chip = place
      · simp [own]
      · rw [Function.update_of_ne own]
        exact iff_of_false (by simpa using fun equal => own equal.symm) (notBusy chip)
    · rw [Function.update_of_ne same, owes_iff _ (by simp [same])]
      exact linked.busy_iff bio other chip
  · intro bus
    rw [duty]
    exact linked.toEndio_iff bio bus
  · intro bus
    rw [duty]
    exact linked.toFree_iff bio bus
  · exact fun other otherPage chip different => mem_iff _ (by simp [different]) chip
  · exact fun other otherPage chip different => owes_iff _ (by simp [different]) chip
  · exact fun _ _ _ => Iff.rfl
  · exact fun _ _ _ => Iff.rfl

theorem decBus (linked : Linked reads owes endioOf freeOf bios) {bus page : ℕ} {place : ℕ × ℕ}
    (owed : owes place = some (bio, page)) (noEndio : endioOf bus = none)
    (status : next.status = Function.update (bios bio).status page .done)
    (before : (bios bio).duty = .counting)
    (duty : next.duty = if next.reqCount = 0 then .toEndio (.bus bus) else .counting) :
    Linked reads (Function.update owes place none)
      (Function.update endioOf bus (if next.reqCount = 0 then some bio else none)) freeOf
      (Function.update bios bio next) := by
  have busy : (bios bio).status page = .busy place := (linked.busy_iff bio page place).mpr owed
  have notQueued (chip : ℕ × ℕ) : (bio, page) ∉ reads chip := by
    rw [← linked.queued_iff, busy]
    simp
  have elsewhere (chip : ℕ × ℕ) (owes_eq : owes chip = some (bio, page)) : chip = place := by
    rw [← linked.busy_iff, busy] at owes_eq
    exact (PageStatus.busy.inj owes_eq).symm
  have owes_iff (read : ℕ × ℕ) (different : read ≠ (bio, page)) (chip : ℕ × ℕ) :
      Function.update owes place none chip = some read ↔ owes chip = some read := by
    by_cases same : chip = place
    · rw [same, Function.update_self, owed]
      simp [different.symm]
    · rw [Function.update_of_ne same]
  have noEndioOf (other : ℕ) : endioOf other ≠ some bio := by
    rw [ne_eq, ← linked.toEndio_iff, before]
    simp
  have noFreeOf (other : ℕ) : freeOf other ≠ some bio := by
    rw [ne_eq, ← linked.toFree_iff, before]
    simp
  apply linked.update
  · intro other chip
    rw [status]
    by_cases same : other = page
    · subst same
      simp [notQueued]
    · rw [Function.update_of_ne same]
      exact linked.queued_iff bio other chip
  · intro other chip
    rw [status]
    by_cases same : other = page
    · subst same
      rw [Function.update_self]
      refine iff_of_false (by simp) ?_
      by_cases own : chip = place
      · simp [own]
      · rw [Function.update_of_ne own]
        exact mt (elsewhere chip) own
    · rw [Function.update_of_ne same, owes_iff _ (by simp [same])]
      exact linked.busy_iff bio other chip
  · intro other
    rw [duty]
    by_cases same : other = bus
    · subst same
      rw [Function.update_self]
      split_ifs <;> simp
    · have different : bus ≠ other := fun equal => same equal.symm
      rw [Function.update_of_ne same]
      refine iff_of_false ?_ (noEndioOf other)
      split_ifs <;> simp [different]
  · intro other
    rw [duty]
    refine iff_of_false ?_ (noFreeOf other)
    split_ifs <;> simp
  · exact fun _ _ _ _ => Iff.rfl
  · exact fun other otherPage chip different => owes_iff _ (by simp [different]) chip
  · intro other chip different
    by_cases same : chip = bus
    · have notOwn : bio ≠ other := fun equal => different equal.symm
      rw [same, Function.update_self, noEndio]
      split_ifs <;> simp [notOwn]
    · rw [Function.update_of_ne same]
  · exact fun _ _ _ => Iff.rfl

theorem endioBus (linked : Linked reads owes endioOf freeOf bios) {bus : ℕ}
    (own : endioOf bus = some bio) (noFree : freeOf bus = none)
    (status : next.status = (bios bio).status) (duty : next.duty = .toFree (.bus bus)) :
    Linked reads owes (Function.update endioOf bus none) (Function.update freeOf bus (some bio))
      (Function.update bios bio next) := by
  have before : (bios bio).duty = .toEndio (.bus bus) := (linked.toEndio_iff bio bus).mpr own
  apply linked.update
  · intro page place
    rw [status]
    exact linked.queued_iff bio page place
  · intro page place
    rw [status]
    exact linked.busy_iff bio page place
  · intro other
    rw [duty]
    refine iff_of_false (by simp) ?_
    by_cases same : other = bus
    · simp [same]
    · have different : bus ≠ other := fun equal => same equal.symm
      rw [Function.update_of_ne same, ← linked.toEndio_iff, before]
      simp [different]
  · intro other
    rw [duty]
    by_cases same : other = bus
    · simp [same]
    · have different : bus ≠ other := fun equal => same equal.symm
      rw [Function.update_of_ne same, ← linked.toFree_iff, before]
      simp [different]
  · exact fun _ _ _ _ => Iff.rfl
  · exact fun _ _ _ _ => Iff.rfl
  · intro other chip different
    have notOwn : bio ≠ other := fun equal => different equal.symm
    by_cases same : chip = bus
    · rw [same, Function.update_self, own]
      simp [notOwn]
    · rw [Function.update_of_ne same]
  · intro other chip different
    have notOwn : bio ≠ other := fun equal => different equal.symm
    by_cases same : chip = bus
    · rw [same, Function.update_self, noFree]
      simp [notOwn]
    · rw [Function.update_of_ne same]

theorem freeBus (linked : Linked reads owes endioOf freeOf bios) {bus : ℕ}
    (own : freeOf bus = some bio) (status : next.status = (bios bio).status)
    (duty : next.duty = .completed) :
    Linked reads owes endioOf (Function.update freeOf bus none)
      (Function.update bios bio next) := by
  have before : (bios bio).duty = .toFree (.bus bus) := (linked.toFree_iff bio bus).mpr own
  apply linked.update
  · intro page place
    rw [status]
    exact linked.queued_iff bio page place
  · intro page place
    rw [status]
    exact linked.busy_iff bio page place
  · intro other
    rw [duty, ← linked.toEndio_iff, before]
    simp
  · intro other
    rw [duty]
    refine iff_of_false (by simp) ?_
    by_cases same : other = bus
    · simp [same]
    · have different : bus ≠ other := fun equal => same equal.symm
      rw [Function.update_of_ne same, ← linked.toFree_iff, before]
      simp [different]
  · exact fun _ _ _ _ => Iff.rfl
  · exact fun _ _ _ _ => Iff.rfl
  · exact fun _ _ _ => Iff.rfl
  · intro other chip different
    have notOwn : bio ≠ other := fun equal => different equal.symm
    by_cases same : chip = bus
    · rw [same, Function.update_self, own]
      simp [notOwn]
    · rw [Function.update_of_ne same]

end Linked

end FlashBench
