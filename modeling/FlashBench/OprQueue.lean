import FlashBench.Library.Ring
import FlashBench.SsdInfo

/-!
# Operation queues

The circular operation queue of a chip, with the functions of `bus_controller.c`. Each of
them holds the queue lock while it works, so each is one step of a run. A queue refines a
bounded FIFO: `contents` lists its entries, the oldest first.
-/

namespace FlashBench

/-- `enum fb_dev_op_t`. -/
inductive FbDevOp where
  | opRead
  | opProg
  | opPlock
  | opBlock
  | opBers
  deriving DecidableEq, Repr

/-- `operation_time`, in microseconds. -/
def FbDevOp.operationTime : FbDevOp → ℕ
  | opRead => 80
  | opProg => 800
  | opPlock => 5000
  | opBlock => 100
  | opBers => 100

/-- `struct fb_operation_t`; `FbBio` is the type of `struct fb_bio_t` pointers other than
`NULL`. -/
structure FbOperation (FbBio : Type) where
  operation : FbDevOp
  ptrFbBio : Option FbBio

/-- `struct fb_opr_queue_t` without its lock. -/
structure OprQueue (FbBio : Type) where
  numMaxEntries : ℕ
  numEntries : ℕ
  queueHead : ℕ
  queueTail : ℕ
  oprList : ℕ → FbOperation FbBio

namespace OprQueue

variable {FbBio : Type}

/-- `create_opr_queue`; `oprList` stands for the memory that `kmalloc` returns. -/
def create (numMaxEntries : ℕ) (oprList : ℕ → FbOperation FbBio) : OprQueue FbBio where
  numMaxEntries := numMaxEntries
  numEntries := 0
  queueHead := 0
  queueTail := 0
  oprList := oprList

/-- `opr_queue_put_entry`: `false` stands for `-1`. -/
def putEntry (queue : OprQueue FbBio) (entry : FbOperation FbBio) : Bool × OprQueue FbBio :=
  if queue.numEntries = queue.numMaxEntries then (false, queue)
  else
    (true,
      { queue with
        oprList := Function.update queue.oprList queue.queueHead entry
        queueHead := if queue.queueHead + 1 = queue.numMaxEntries then 0 else queue.queueHead + 1
        numEntries := queue.numEntries + 1 })

/-- `opr_queue_get_first`: `none` stands for `-1`. -/
def getFirst (queue : OprQueue FbBio) : Option (FbOperation FbBio) :=
  if queue.numEntries = 0 then none else some (queue.oprList queue.queueTail)

/-- `opr_queue_remove_first`: `false` stands for `-1`. -/
def removeFirst (queue : OprQueue FbBio) : Bool × OprQueue FbBio :=
  if queue.numEntries = 0 then (false, queue)
  else
    (true,
      { queue with
        queueTail := if queue.queueTail + 1 = queue.numMaxEntries then 0 else queue.queueTail + 1
        numEntries := queue.numEntries - 1 })

/-- The entries, the oldest first. -/
def contents (queue : OprQueue FbBio) : List (FbOperation FbBio) :=
  ringWindow queue.oprList queue.queueTail queue.numEntries queue.numMaxEntries

end OprQueue

/-- The invariant of a queue with room for `capacity` entries. -/
structure QueueOk {FbBio : Type} (capacity : ℕ) (queue : OprQueue FbBio) : Prop where
  numMaxEntries_eq : queue.numMaxEntries = capacity
  numEntries_le : queue.numEntries ≤ capacity
  queueTail_lt : queue.queueTail < capacity
  queueHead_eq : queue.queueHead = (queue.queueTail + queue.numEntries) % capacity

namespace QueueOk

variable {FbBio : Type} {capacity : ℕ} {queue : OprQueue FbBio} {entry : FbOperation FbBio}

theorem create (room : 1 ≤ capacity) (oprList : ℕ → FbOperation FbBio) :
    QueueOk capacity (.create capacity oprList) :=
  ⟨rfl, Nat.zero_le _, room, (Nat.zero_mod _).symm⟩

theorem length_contents (queue : OprQueue FbBio) : queue.contents.length = queue.numEntries :=
  length_ringWindow

theorem putEntry_fails_iff (ok : QueueOk capacity queue) :
    (queue.putEntry entry).1 = false ↔ queue.contents.length = capacity := by
  rw [length_contents, ← ok.numMaxEntries_eq, OprQueue.putEntry]
  split_ifs with full <;> simp [full]

theorem putEntry_of_full (failed : (queue.putEntry entry).1 = false) :
    (queue.putEntry entry).2 = queue := by
  unfold OprQueue.putEntry at failed ⊢
  split_ifs at failed ⊢
  rfl

theorem putEntry (ok : QueueOk capacity queue) (put : (queue.putEntry entry).1 = true) :
    QueueOk capacity (queue.putEntry entry).2 ∧
      (queue.putEntry entry).2.contents = queue.contents ++ [entry] := by
  rcases ok with ⟨rfl, atMost, tail_lt, head_eq⟩
  have head_lt : queue.queueHead < queue.numMaxEntries := by
    rw [head_eq]
    exact Nat.mod_lt _ (by omega)
  unfold OprQueue.putEntry at put ⊢
  have notFull : queue.numEntries ≠ queue.numMaxEntries := by
    intro full
    rw [if_pos full] at put
    simp at put
  rw [if_neg notFull]
  refine ⟨⟨rfl, by simp only; omega, tail_lt, ?_⟩, ?_⟩
  · simp only [ring_next head_lt]
    rw [head_eq, Nat.mod_add_mod, Nat.add_assoc]
  · simp only [OprQueue.contents, head_eq]
    exact ringWindow_store (by omega) entry

theorem getFirst_eq (ok : QueueOk capacity queue) : queue.getFirst = queue.contents.head? := by
  rcases ok with ⟨rfl, _, tail_lt, _⟩
  unfold OprQueue.getFirst OprQueue.contents
  rcases queue.numEntries with _ | count
  · rfl
  · rw [ringWindow_succ tail_lt]
    rfl

theorem removeFirst (ok : QueueOk capacity queue) :
    QueueOk capacity queue.removeFirst.2 ∧ queue.removeFirst.2.contents = queue.contents.tail := by
  rcases ok with ⟨rfl, atMost, tail_lt, head_eq⟩
  unfold OprQueue.removeFirst
  rcases count_eq : queue.numEntries with _ | count
  · rw [if_pos rfl]
    refine ⟨⟨rfl, atMost, tail_lt, head_eq⟩, ?_⟩
    simp [OprQueue.contents, count_eq, ringWindow]
  · rw [if_neg (by omega)]
    rw [count_eq] at atMost head_eq
    have next_lt : (queue.queueTail + 1) % queue.numMaxEntries < queue.numMaxEntries :=
      Nat.mod_lt _ (by omega)
    simp only [ring_next tail_lt, Nat.add_sub_cancel]
    refine ⟨⟨rfl, by simp only; omega, next_lt, ?_⟩, ?_⟩
    · simp only [Nat.mod_add_mod]
      rw [head_eq]
      congr 1
      omega
    · simp only [OprQueue.contents, count_eq]
      rw [ringWindow_succ tail_lt, List.tail_cons]

end QueueOk

end FlashBench
