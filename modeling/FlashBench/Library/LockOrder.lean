import Mathlib.Order.Nat
import FlashBench.Library.Paths

/-!
# The order of locks

Locks have ranks, and code takes a lock only while all locks that it holds have smaller
ranks. A path of such code consists of sections, one lock each, that are nested by rank;
`Sections` and `Closes` say so of all paths through a piece of code, and their rules
follow its structure. Threads that keep to the order never all wait for each other.
-/

namespace FlashBench

variable {Lock : Type}

/-! ### Nested sections -/

/-- A sequence of sections on locks of at least some rank. -/
inductive Nested (rank : Lock → ℕ) : ℕ → List (Lock × CompletionCall) → Prop where
  | nil {level : ℕ} : Nested rank level []
  | locked {level : ℕ} {lock : Lock} {inner rest : List (Lock × CompletionCall)}
      (above : level ≤ rank lock) (within : Nested rank (rank lock + 1) inner)
      (after : Nested rank level rest) :
      Nested rank level
        ((lock, .wait) :: (lock, .reinit) :: (inner ++ (lock, .complete) :: rest))

/-- All paths through the code are sequences of sections. -/
def Sections {Value : Type} (rank : Lock → ℕ) (level : ℕ) (code : Paths Lock Value) : Prop :=
  ∀ path value, code path value → Nested rank level path

/-- All paths through the code end a section on the lock. -/
def Closes {Value : Type} (rank : Lock → ℕ) (lock : Lock) (code : Paths Lock Value) : Prop :=
  ∀ path value, code path value →
    ∃ inner, Nested rank (rank lock + 1) inner ∧ path = inner ++ [(lock, .complete)]

theorem Nested.append {rank : Lock → ℕ} {level : ℕ} {path rest : List (Lock × CompletionCall)}
    (first : Nested rank level path) (second : Nested rank level rest) :
    Nested rank level (path ++ rest) := by
  induction first with
  | nil => exact second
  | locked above within _ _ inductive_hypothesis =>
      have joined := Nested.locked above within (inductive_hypothesis second)
      simpa using joined

theorem Nested.mono {rank : Lock → ℕ} {level lower : ℕ} {path : List (Lock × CompletionCall)}
    (nested : Nested rank level path) (le : lower ≤ level) : Nested rank lower path := by
  induction nested with
  | nil => exact .nil
  | locked above within _ _ inductive_hypothesis =>
      exact .locked (le.trans above) within (inductive_hypothesis le)

namespace Sections

variable {Value Result : Type} {rank : Lock → ℕ} {level : ℕ} {lock : Lock}

theorem pure (value : Value) : Sections rank level (Pure.pure value : Paths Lock Value) := by
  rintro path result ⟨rfl, rfl⟩
  exact .nil

theorem bind {code : Paths Lock Value} {next : Value → Paths Lock Result}
    (first : Sections rank level code) (second : ∀ value, Sections rank level (next value)) :
    Sections rank level (code >>= next) := by
  rintro whole result ⟨path, rest, value, inCode, inNext, rfl⟩
  exact (first path value inCode).append (second value rest result inNext)

theorem any : Sections rank level (Paths.any : Paths Lock Value) := by
  intro path value taken
  cases taken
  exact .nil

theorem condition : Sections rank level (Paths.condition : Paths Lock Bool) := any

theorem repeatUntil {body : Paths Lock (Option Value)} (once : Sections rank level body) :
    Sections rank level (Paths.repeatUntil body) := by
  intro path value repeats
  induction repeats with
  | leave taken => exact once _ _ taken
  | again taken _ nested => exact (once _ _ taken).append nested

theorem mono {lower : ℕ} {code : Paths Lock Value} (sections : Sections rank level code)
    (le : lower ≤ level) : Sections rank lower code := by
  intro path value taken
  exact (sections path value taken).mono le

/-- A section is code that ends it after the lock has been taken. -/
theorem acquire {code : Paths Lock Value} (above : level ≤ rank lock) (closes : Closes rank lock code) :
    Sections rank level (Paths.acquire lock >>= fun _ => code) := by
  rintro whole result ⟨path, rest, _, ⟨_, _, _, rfl, rfl, rfl⟩, inCode, rfl⟩
  rcases closes rest result inCode with ⟨inner, within, rfl⟩
  exact .locked above within .nil

end Sections

namespace Closes

variable {Value Result : Type} {rank : Lock → ℕ} {lock : Lock}

theorem release : Closes rank lock (Paths.release lock) := by
  intro path value taken
  cases taken
  exact ⟨[], .nil, rfl⟩

theorem bind {code : Paths Lock Value} {next : Value → Paths Lock Result}
    (first : Sections rank (rank lock + 1) code) (second : ∀ value, Closes rank lock (next value)) :
    Closes rank lock (code >>= next) := by
  rintro whole result ⟨path, rest, value, inCode, inNext, rfl⟩
  rcases second value rest result inNext with ⟨inner, within, rfl⟩
  exact ⟨path ++ inner, (first path value inCode).append within, by simp⟩

/-- What follows the end of a section makes no calls. -/
theorem bind_pure {code : Paths Lock Value} (closes : Closes rank lock code) (result : Value → Result) :
    Closes rank lock (code >>= fun value => Pure.pure (result value)) := by
  rintro whole _ ⟨path, rest, value, inCode, ⟨rfl, rfl⟩, rfl⟩
  rw [List.append_nil]
  exact closes path value inCode

end Closes

/-! ### Threads that wait -/

variable {Thread : Type}

/-- The thread has a call left and does not block in it. -/
def CanGoOn (state : ThreadsState Thread Lock) (thread : Thread) : Prop :=
  ∃ lock made rest done, state.todo thread = (lock, made) :: rest ∧
    CompletionCall.effect made (state.locks.done lock) = some done

/-- A thread that does not wait can go on. -/
theorem canGoOn_or_waits {state : ThreadsState Thread Lock} {thread : Thread}
    (busy : state.todo thread ≠ []) :
    CanGoOn state thread ∨
      ∃ lock rest, state.todo thread = (lock, .wait) :: rest ∧ state.locks.done lock = 0 := by
  rcases next : state.todo thread with _ | ⟨⟨lock, made⟩, rest⟩
  · exact absurd next busy
  · rcases made with _ | _ | _
    · rcases counter : state.locks.done lock with _ | done
      · exact Or.inr ⟨lock, rest, rfl, counter⟩
      · left
        exact ⟨lock, .wait, rest, done, next, by rw [counter]; rfl⟩
    · left
      exact ⟨lock, .reinit, rest, 0, next, rfl⟩
    · left
      exact ⟨lock, .complete, rest, _, next, rfl⟩

/-! ### Paths that ascend -/

variable [DecidableEq Lock] [DecidableEq Thread]

/-- The path takes a lock only while all locks that are held have smaller ranks. -/
def Ascends (rank : Lock → ℕ) : (Lock → LockPhase) → List (Lock × CompletionCall) → Prop
  | _, [] => True
  | phases, (lock, made) :: rest =>
      (made = .wait → ∀ other, phases other ≠ .outside → rank other < rank lock) ∧
        Ascends rank (Function.update phases lock made.phase) rest

namespace Nested

variable {rank : Lock → ℕ} {level : ℕ} {path rest : List (Lock × CompletionCall)}
  {phases : Lock → LockPhase}

/-- Inside a section the locks of larger rank are still free. -/
theorem free_within {lock : Lock} (free : ∀ lock, level ≤ rank lock → phases lock = .outside)
    (above : level ≤ rank lock) (other : Lock) (higher : rank lock + 1 ≤ rank other) :
    Function.update phases lock .inside other = .outside := by
  have different : other ≠ lock := by
    rintro rfl
    omega
  rw [Function.update_of_ne different]
  exact free other (by omega)

/-- Nested sections give back what they take. -/
theorem follow_eq (nested : Nested rank level path)
    (free : ∀ lock, level ≤ rank lock → phases lock = .outside) :
    follow phases path = some phases := by
  induction nested generalizing phases with
  | nil => rfl
  | @locked level lock inner rest above _ _ followInner followRest =>
      have outside := free lock above
      have freeInner := free_within free above
      have back : Function.update phases lock .outside = phases := by
        rw [← outside, Function.update_eq_self]
      simp only [follow, outside, LockPhase.step, Option.bind_some, Function.update_self,
        Function.update_idem, follow_append, followInner freeInner]
      rw [back]
      exact followRest free

/-- Nested sections ascend, whatever ascending path follows. -/
theorem ascends_append (nested : Nested rank level path)
    (free : ∀ lock, level ≤ rank lock → phases lock = .outside) (ascends : Ascends rank phases rest) :
    Ascends rank phases (path ++ rest) := by
  induction nested generalizing phases rest with
  | nil => exact ascends
  | @locked level lock inner after above within _ ascendsInner ascendsAfter =>
      have outside := free lock above
      have freeInner := free_within free above
      have back : Function.update phases lock .outside = phases := by
        rw [← outside, Function.update_eq_self]
      simp only [List.cons_append, List.append_assoc, Ascends, CompletionCall.phase,
        Function.update_idem, reduceCtorEq, false_imp_iff, true_and, true_imp_iff]
      constructor
      · intro other held
        by_contra notBelow
        exact held (free other (by omega))
      · apply ascendsInner freeInner
        simp only [Ascends, CompletionCall.phase, Function.update_idem, reduceCtorEq,
          false_imp_iff, true_and, back]
        exact ascendsAfter free ascends

end Nested

/-! ### Threads in order -/

section Threads

variable {paths : List (Lock × CompletionCall) → Prop} {rank : Lock → ℕ} {thread : Thread}
  {lock : Lock} {state : ThreadsState Thread Lock}

theorem balanced_of_nested (nested : ∀ path, paths path → Nested rank 0 path) :
    ∀ path, paths path → follow (fun _ => .outside) path = some fun _ => .outside := by
  intro path known
  exact (nested path known).follow_eq fun _ _ => rfl

theorem ThreadsRun.ascends (nested : ∀ path, paths path → Nested rank 0 path)
    (run : ThreadsRun paths state) (thread : Thread) :
    Ascends rank (state.locks.phase thread) (state.todo thread) := by
  have balanced := balanced_of_nested nested
  induction run with
  | created => trivial
  | @start state run starter idle path known before =>
      by_cases same : thread = starter
      · subst same
        have ended := (run.lockRun balanced).2 thread
        rw [idle] at ended
        have allOutside := Option.some.inj ended
        simp only [Function.update_self]
        rw [allOutside, ← List.append_nil path]
        exact (nested path known).ascends_append (fun _ _ => rfl) trivial
      · simp only [Function.update_of_ne same]
        exact before
  | @call state _ caller called made rest done next _ before =>
      by_cases same : thread = caller
      · subst same
        rw [next] at before
        simpa [LockState.call] using before.2
      · simpa [LockState.call, same] using before

/-- A thread that holds a lock has calls left. -/
theorem ThreadsRun.todo_ne_nil (nested : ∀ path, paths path → Nested rank 0 path)
    (run : ThreadsRun paths state) (held : state.locks.phase thread lock ≠ .outside) :
    state.todo thread ≠ [] := by
  intro none
  have followed := (run.lockRun (balanced_of_nested nested)).2 thread
  rw [none] at followed
  exact held (congrFun (Option.some.inj followed) lock)

/-- A thread that holds a lock of the highest rank does not block. -/
theorem ThreadsRun.canGoOn_of_top (nested : ∀ path, paths path → Nested rank 0 path)
    (run : ThreadsRun paths state) (held : state.locks.phase thread lock ≠ .outside)
    (top : ∀ other, rank other ≤ rank lock) : CanGoOn state thread := by
  rcases canGoOn_or_waits (run.todo_ne_nil nested held) with goesOn | ⟨other, rest, next, _⟩
  · exact goesOn
  · have ascends := run.ascends nested thread
    rw [next] at ascends
    have below := ascends.1 rfl lock held
    have := top other
    omega

/-- As long as a thread has calls left, some thread can go on. -/
theorem ThreadsRun.exists_canGoOn (nested : ∀ path, paths path → Nested rank 0 path) {top : ℕ}
    (bounded : ∀ lock, rank lock ≤ top) (run : ThreadsRun paths state)
    (busy : state.todo thread ≠ []) : ∃ other, CanGoOn state other := by
  have token := (run.lockRun (balanced_of_nested nested)).1.tokenKept
  -- the holder of the lock that a thread waits for may itself wait for a lock of larger rank
  have chase (distance : ℕ) : ∀ (thread : Thread) (lock : Lock)
      (rest : List (Lock × CompletionCall)), state.todo thread = (lock, .wait) :: rest →
        state.locks.done lock = 0 → top - rank lock = distance → ∃ other, CanGoOn state other := by
    induction distance using Nat.strong_induction_on with
    | _ distance closer =>
        intro thread lock rest next taken isDistance
        rcases token lock with ⟨free, _⟩ | ⟨_, holder, held, _⟩
        · omega
        · rcases canGoOn_or_waits (run.todo_ne_nil nested held) with goesOn | ⟨other, more, next', taken'⟩
          · exact ⟨holder, goesOn⟩
          · have ascends := run.ascends nested holder
            rw [next'] at ascends
            have below := ascends.1 rfl lock held
            have := bounded other
            exact closer (top - rank other) (by omega) holder other more next' taken' rfl
  rcases canGoOn_or_waits busy with goesOn | ⟨lock, rest, next, taken⟩
  · exact ⟨thread, goesOn⟩
  · exact chase _ thread lock rest next taken rfl

end Threads

end FlashBench
