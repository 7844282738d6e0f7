import FlashBench.Library.CompletionLock

/-!
# Paths of calls

The paths through a piece of code, as far as its calls on completions are concerned: which
calls a path makes and what value it ends with. Conditions and data are left open, so the
paths of a model contain those of the code. `Leads` says what every path does to the phases
of a thread; its rules follow the structure of the code.
-/

namespace FlashBench

variable {Lock : Type}

/-- The paths through a piece of code that ends with a value. -/
def Paths (Lock Value : Type) : Type := List (Lock × CompletionCall) → Value → Prop

namespace Paths

variable {Value Result : Type}

/-- The repetitions of a loop body: `none` goes on, a value leaves the loop. -/
inductive Repeats (body : Paths Lock (Option Value)) :
    List (Lock × CompletionCall) → Value → Prop where
  | leave {path : List (Lock × CompletionCall)} {value : Value}
      (taken : body path (some value)) : Repeats body path value
  | again {path rest : List (Lock × CompletionCall)} {value : Value}
      (taken : body path none) (repeats : Repeats body rest value) :
      Repeats body (path ++ rest) value

instance : Monad (Paths Lock) where
  pure value := fun path result => path = [] ∧ result = value
  bind code next := fun whole result =>
    ∃ path rest value, code path value ∧ next value rest result ∧ whole = path ++ rest

/-- One call. -/
def call (lock : Lock) (made : CompletionCall) : Paths Lock Unit :=
  fun path _ => path = [(lock, made)]

/-- A value that is left open. -/
def any : Paths Lock Value := fun path _ => path = []

/-- A condition that is left open. -/
def condition : Paths Lock Bool := any

/-- A loop. -/
def repeatUntil (body : Paths Lock (Option Value)) : Paths Lock Value := Repeats body

/-- The idiom that takes a lock. -/
def acquire (lock : Lock) : Paths Lock Unit := do
  call lock .wait
  call lock .reinit

/-- Giving a lock back. -/
def release (lock : Lock) : Paths Lock Unit := call lock .complete

end Paths

/-- The calls of a path on one lock. -/
def callsOn [DecidableEq Lock] (lock : Lock) (path : List (Lock × CompletionCall)) :
    List CompletionCall :=
  (path.filter fun made => made.1 = lock).map Prod.snd

/-- Every path completes each lock exactly once for each time it acquires it. -/
def LocksBalanced [DecidableEq Lock] {Value : Type} (code : Paths Lock Value) : Prop :=
  ∀ path value, code path value → ∀ lock, ∃ rounds,
    callsOn lock path = (List.replicate rounds [.wait, .reinit, .complete]).flatten

variable [DecidableEq Lock]

/-- The phases of a thread after a path. -/
def follow : (Lock → LockPhase) → List (Lock × CompletionCall) → Option (Lock → LockPhase)
  | phases, [] => some phases
  | phases, (lock, made) :: rest =>
      ((phases lock).step made).bind fun phase => follow (Function.update phases lock phase) rest

theorem follow_append (before : Lock → LockPhase) (path rest : List (Lock × CompletionCall)) :
    follow before (path ++ rest) = (follow before path).bind fun after => follow after rest := by
  induction path generalizing before with
  | nil => rfl
  | cons head path inductive_hypothesis =>
      simp only [List.cons_append, follow]
      cases (before head.1).step head.2 with
      | none => rfl
      | some phase => exact inductive_hypothesis _

/-- The phases of one lock follow the calls on it. -/
theorem run_callsOn {before after : Lock → LockPhase} {path : List (Lock × CompletionCall)}
    (followed : follow before path = some after) (lock : Lock) :
    (before lock).run (callsOn lock path) = some (after lock) := by
  induction path generalizing before with
  | nil =>
      cases followed
      rfl
  | cons head path inductive_hypothesis =>
      simp only [follow] at followed
      cases stepped : (before head.1).step head.2 with
      | none => simp [stepped] at followed
      | some phase =>
          rw [stepped] at followed
          have rest := inductive_hypothesis followed
          by_cases same : head.1 = lock
          · subst same
            rw [Function.update_self] at rest
            simp only [callsOn, List.filter_cons, decide_true, if_true, List.map_cons,
              LockPhase.run, stepped]
            exact rest
          · have other : lock ≠ head.1 := fun equal => same equal.symm
            rw [Function.update_of_ne other] at rest
            simpa [callsOn, same] using rest

/-- Every path leads from some phases to others. -/
def Leads {Value : Type} (before : Lock → LockPhase) (code : Paths Lock Value)
    (after : Lock → LockPhase) : Prop :=
  ∀ path value, code path value → follow before path = some after

/-- Code that leaves all locks alone, or takes them and gives them back. -/
theorem Leads.locksBalanced {Value : Type} {code : Paths Lock Value}
    (leads : Leads (fun _ => .outside) code fun _ => .outside) : LocksBalanced code := by
  intro path value taken lock
  apply LockPhase.eq_rounds_of_run
  exact run_callsOn (leads path value taken) lock

namespace Leads

variable {Value Result : Type} {before middle after : Lock → LockPhase} {lock : Lock}

theorem pure (value : Value) : Leads before (Pure.pure value : Paths Lock Value) before := by
  rintro path result ⟨rfl, rfl⟩
  rfl

theorem bind {code : Paths Lock Value} {next : Value → Paths Lock Result}
    (first : Leads before code middle) (second : ∀ value, Leads middle (next value) after) :
    Leads before (code >>= next) after := by
  rintro whole result ⟨path, rest, value, inCode, inNext, rfl⟩
  rw [follow_append, first path value inCode]
  exact second value rest result inNext

theorem any : Leads before (Paths.any : Paths Lock Value) before := by
  intro path value taken
  cases taken
  rfl

theorem condition : Leads before (Paths.condition : Paths Lock Bool) before := any

theorem repeatUntil {body : Paths Lock (Option Value)} (keeps : Leads before body before) :
    Leads before (Paths.repeatUntil body) before := by
  intro path value repeats
  induction repeats with
  | leave taken => exact keeps _ _ taken
  | again taken _ followed =>
      rw [follow_append, keeps _ _ taken]
      exact followed

theorem acquire (free : before lock = .outside) :
    Leads before (Paths.acquire lock) (Function.update before lock .inside) := by
  rintro whole value ⟨path, rest, _, rfl, rfl, rfl⟩
  simp [follow, free, LockPhase.step]

theorem release (free : before lock = .outside) :
    Leads (Function.update before lock .inside) (Paths.release lock) before := by
  intro path value taken
  cases taken
  simp [follow, LockPhase.step, ← free]

end Leads

/-! ### Threads -/

/-- The phase that a call leads to when it is made in order. -/
def CompletionCall.phase : CompletionCall → LockPhase
  | wait => .waited
  | reinit => .inside
  | complete => .outside

theorem LockPhase.eq_phase_of_step {phase next : LockPhase} {made : CompletionCall}
    (inOrder : phase.step made = some next) : next = made.phase := by
  cases phase <;> cases made <;> cases inOrder <;> rfl

/-- Locks and threads that take one path after another. -/
structure ThreadsState (Thread Lock : Type) where
  locks : LockState Thread Lock
  todo : Thread → List (Lock × CompletionCall)

variable {Thread : Type} [DecidableEq Thread]

/-- The states of all runs of threads whose paths are among `paths`. -/
inductive ThreadsRun (paths : List (Lock × CompletionCall) → Prop) :
    ThreadsState Thread Lock → Prop where
  | created : ThreadsRun paths ⟨.created, fun _ => []⟩
  | start {state : ThreadsState Thread Lock} (run : ThreadsRun paths state) (thread : Thread)
      (idle : state.todo thread = []) {path : List (Lock × CompletionCall)} (known : paths path) :
      ThreadsRun paths { state with todo := Function.update state.todo thread path }
  | call {state : ThreadsState Thread Lock} (run : ThreadsRun paths state) (thread : Thread)
      {lock : Lock} {made : CompletionCall} {rest : List (Lock × CompletionCall)} {done : ℕ}
      (next : state.todo thread = (lock, made) :: rest)
      (effect : made.effect (state.locks.done lock) = some done) :
      ThreadsRun paths
        { locks := state.locks.call thread lock done made.phase
          todo := Function.update state.todo thread rest }

/-- Threads whose paths give back what they take make their calls in order. -/
theorem ThreadsRun.lockRun {paths : List (Lock × CompletionCall) → Prop}
    (balanced : ∀ path, paths path → follow (fun _ => .outside) path = some fun _ => .outside)
    {state : ThreadsState Thread Lock} (run : ThreadsRun paths state) :
    LockRun state.locks ∧ ∀ thread,
      follow (state.locks.phase thread) (state.todo thread) = some fun _ => .outside := by
  induction run with
  | created => exact ⟨.created, fun _ => rfl⟩
  | @start state _ thread idle path known inductive_hypothesis =>
      rcases inductive_hypothesis with ⟨lockRun, followed⟩
      refine ⟨lockRun, fun other => ?_⟩
      by_cases same : other = thread
      · subst same
        have ended := followed other
        rw [idle] at ended
        have allOutside := Option.some.inj ended
        simp only [Function.update_self]
        rw [allOutside]
        exact balanced path known
      · simp only [Function.update_of_ne same]
        exact followed other
  | @call state _ thread lock made rest done next effect inductive_hypothesis =>
      rcases inductive_hypothesis with ⟨lockRun, followed⟩
      have ahead := followed thread
      rw [next, follow] at ahead
      cases inOrder : (state.locks.phase thread lock).step made with
      | none => simp [inOrder] at ahead
      | some phase =>
          rw [inOrder] at ahead
          have phase_eq := LockPhase.eq_phase_of_step inOrder
          subst phase_eq
          refine ⟨lockRun.call thread lock inOrder effect, fun other => ?_⟩
          by_cases same : other = thread
          · subst same
            simpa [LockState.call] using ahead
          · simpa [LockState.call, same] using followed other

end FlashBench
