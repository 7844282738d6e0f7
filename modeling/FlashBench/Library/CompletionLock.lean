import Mathlib.Data.List.Basic
import Mathlib.Logic.Function.Basic

/-!
# Completions as locks

Threads that take a lock with a wait for a completion and a reinitialisation of it, two
calls between which other threads may run, and that give it back by completing it. Any
number of threads and of locks: a call is one step of a run, and a run may interleave the
calls of all threads.
-/

namespace FlashBench

/-- The calls on a completion. -/
inductive CompletionCall where
  | wait
  | reinit
  | complete
  deriving DecidableEq, Repr

/-- What a call does to the counter of a completion; a thread blocks where it is `none`. -/
def CompletionCall.effect : CompletionCall → ℕ → Option ℕ
  | wait, 0 => none
  | wait, done + 1 => some done
  | reinit, _ => some 0
  | complete, done => some (done + 1)

/-- Where a thread is between its calls on a completion. -/
inductive LockPhase where
  | outside
  | waited
  | inside
  deriving DecidableEq, Repr

namespace LockPhase

/-- The order in which a thread makes its calls. -/
def step : LockPhase → CompletionCall → Option LockPhase
  | outside, .wait => some waited
  | waited, .reinit => some inside
  | inside, .complete => some outside
  | _, _ => none

/-- The phase after some calls. -/
def run : LockPhase → List CompletionCall → Option LockPhase
  | phase, [] => some phase
  | phase, call :: calls => (phase.step call).bind fun next => next.run calls

theorem eq_rounds_of_run : ∀ {calls : List CompletionCall},
    LockPhase.outside.run calls = some .outside →
      ∃ rounds, calls = (List.replicate rounds [.wait, .reinit, .complete]).flatten
  | [], _ => ⟨0, rfl⟩
  | [.wait], balanced => by simp [run, step] at balanced
  | [.wait, .reinit], balanced => by simp [run, step] at balanced
  | .wait :: .reinit :: .complete :: calls, balanced => by
      have balancedRest : LockPhase.outside.run calls = some .outside := balanced
      rcases eq_rounds_of_run balancedRest with ⟨rounds, rest⟩
      refine ⟨rounds + 1, ?_⟩
      rw [rest, List.replicate_succ, List.flatten_cons]
      rfl
  | .wait :: .reinit :: .wait :: _, balanced => by simp [run, step] at balanced
  | .wait :: .reinit :: .reinit :: _, balanced => by simp [run, step] at balanced
  | .wait :: .wait :: _, balanced => by simp [run, step] at balanced
  | .wait :: .complete :: _, balanced => by simp [run, step] at balanced
  | .reinit :: _, balanced => by simp [run, step] at balanced
  | .complete :: _, balanced => by simp [run, step] at balanced

end LockPhase

/-- The counters of all completions and the phases of all threads. -/
structure LockState (Thread Lock : Type) where
  done : Lock → ℕ
  phase : Thread → Lock → LockPhase

variable {Thread Lock : Type}

/-- `init_completion` and `complete` have run for every lock. -/
def LockState.created : LockState Thread Lock where
  done := fun _ => 0 + 1
  phase := fun _ _ => .outside

/-! ### The token -/

/-- The token of a lock is either in the completion or with one thread. -/
def TokenKept (state : LockState Thread Lock) (lock : Lock) : Prop :=
  (state.done lock = 1 ∧ ∀ thread, state.phase thread lock = .outside) ∨
  (state.done lock = 0 ∧ ∃ holder, state.phase holder lock ≠ .outside ∧
    ∀ other, other ≠ holder → state.phase other lock = .outside)

/-- A lock is a mutex. -/
structure LockExcludes (state : LockState Thread Lock) (lock : Lock) : Prop where
  exclusive : ∀ first second, state.phase first lock ≠ .outside →
    state.phase second lock ≠ .outside → first = second
  done_le : state.done lock ≤ 1
  token : (∀ thread, state.phase thread lock = .outside) → state.done lock = 1

namespace TokenKept

variable {state : LockState Thread Lock} {thread : Thread} {lock : Lock}

theorem taken (kept : TokenKept state lock) (notOutside : state.phase thread lock ≠ .outside) :
    state.done lock = 0 ∧ ∀ other, other ≠ thread → state.phase other lock = .outside := by
  rcases kept with ⟨_, allOutside⟩ | ⟨noToken, holder, _, others⟩
  · exact absurd (allOutside thread) notOutside
  · have isHolder : thread = holder := by
      by_contra different
      exact notOutside (others thread different)
    subst isHolder
    exact ⟨noToken, others⟩

theorem lockExcludes (kept : TokenKept state lock) : LockExcludes state lock := by
  refine ⟨fun first second firstIn secondIn => ?_, ?_, fun allOutside => ?_⟩
  · by_contra different
    exact firstIn ((kept.taken secondIn).2 first different)
  · rcases kept with ⟨token, _⟩ | ⟨noToken, _⟩ <;> omega
  · rcases kept with ⟨token, _⟩ | ⟨_, holder, notOutside, _⟩
    · exact token
    · exact absurd (allOutside holder) notOutside

end TokenKept

/-! ### Runs -/

variable [DecidableEq Thread] [DecidableEq Lock]

/-- A call of a thread, with the counter and the phase it leads to. -/
def LockState.call (state : LockState Thread Lock) (thread : Thread) (lock : Lock) (done : ℕ)
    (phase : LockPhase) : LockState Thread Lock where
  done := Function.update state.done lock done
  phase := Function.update state.phase thread (Function.update (state.phase thread) lock phase)

/-- A call of a thread; `none` where it is out of order or blocks. -/
def LockState.perform (state : LockState Thread Lock) (thread : Thread) (lock : Lock)
    (made : CompletionCall) : Option (LockState Thread Lock) := do
  let phase ← (state.phase thread lock).step made
  let done ← made.effect (state.done lock)
  return state.call thread lock done phase

/-- The calls of some threads, one after the other. -/
def LockState.performAll (state : LockState Thread Lock) :
    List (Thread × Lock × CompletionCall) → Option (LockState Thread Lock)
  | [] => some state
  | (thread, lock, made) :: calls =>
      (state.perform thread lock made).bind fun next => next.performAll calls

/-- The states of all runs in which every thread makes its calls in order. -/
inductive LockRun : LockState Thread Lock → Prop where
  | created : LockRun .created
  | call {state : LockState Thread Lock} (run : LockRun state) (thread : Thread) (lock : Lock)
      {made : CompletionCall} {done : ℕ} {phase : LockPhase}
      (inOrder : (state.phase thread lock).step made = some phase)
      (effect : made.effect (state.done lock) = some done) :
      LockRun (state.call thread lock done phase)

namespace TokenKept

variable {state : LockState Thread Lock} {thread : Thread} {lock : Lock}

theorem call_self (kept : TokenKept state lock) {made : CompletionCall} {done : ℕ}
    {phase : LockPhase} (inOrder : (state.phase thread lock).step made = some phase)
    (effect : made.effect (state.done lock) = some done) :
    TokenKept (state.call thread lock done phase) lock := by
  have self : (state.call thread lock done phase).phase thread lock = phase := by
    simp [LockState.call]
  have others (other : Thread) (different : other ≠ thread) :
      (state.call thread lock done phase).phase other lock = state.phase other lock := by
    simp [LockState.call, different]
  have counter : (state.call thread lock done phase).done lock = done := by
    simp [LockState.call]
  have taken (notOutside : state.phase thread lock ≠ .outside) := kept.taken notOutside
  unfold TokenKept
  rw [counter]
  cases before : state.phase thread lock <;> cases made <;> rw [before] at inOrder <;>
    simp only [LockPhase.step, Option.some.injEq, reduceCtorEq] at inOrder <;> subst inOrder
  case outside.wait =>
    -- the wait took the token, so everybody else is outside
    rcases kept with ⟨token, allOutside⟩ | ⟨noToken, _⟩
    · rw [token] at effect
      cases effect
      refine Or.inr ⟨rfl, thread, by simp [self], fun other different => ?_⟩
      rw [others other different]
      exact allOutside other
    · rw [noToken] at effect
      cases effect
  case waited.reinit =>
    -- the counter is 0 already: nobody can have completed since the wait
    rcases taken (by simp [before]) with ⟨_, otherOutside⟩
    cases effect
    refine Or.inr ⟨rfl, thread, by simp [self], fun other different => ?_⟩
    rw [others other different]
    exact otherOutside other different
  case inside.complete =>
    rcases taken (by simp [before]) with ⟨noToken, otherOutside⟩
    rw [noToken] at effect
    cases effect
    refine Or.inl ⟨rfl, fun other => ?_⟩
    by_cases same : other = thread
    · rw [same, self]
    · rw [others other same]
      exact otherOutside other same

theorem call_of_ne (kept : TokenKept state lock) {called : Lock} (other : lock ≠ called)
    (done : ℕ) (phase : LockPhase) : TokenKept (state.call thread called done phase) lock := by
  have counter : (state.call thread called done phase).done lock = state.done lock := by
    simp [LockState.call, other]
  have phases (each : Thread) :
      (state.call thread called done phase).phase each lock = state.phase each lock := by
    by_cases same : each = thread
    · subst same
      simp [LockState.call, other]
    · simp [LockState.call, same]
  unfold TokenKept
  simp only [counter, phases]
  exact kept

end TokenKept

theorem LockRun.performAll {state after : LockState Thread Lock} (run : LockRun state)
    (calls : List (Thread × Lock × CompletionCall))
    (performed : state.performAll calls = some after) : LockRun after := by
  induction calls generalizing state with
  | nil =>
      simp only [LockState.performAll, Option.some.injEq] at performed
      exact performed ▸ run
  | cons call calls ih =>
      rcases call with ⟨thread, lock, made⟩
      rw [LockState.performAll, Option.bind_eq_some_iff] at performed
      rcases performed with ⟨next, first, rest⟩
      simp only [LockState.perform, Option.bind_eq_bind, Option.bind_eq_some_iff, Option.pure_def,
        Option.some.injEq] at first
      rcases first with ⟨phase, inOrder, done, effect, rfl⟩
      exact ih (run.call thread lock inOrder effect) rest

/-- No run loses a token or makes a second one. -/
theorem LockRun.tokenKept {state : LockState Thread Lock} (run : LockRun state) (lock : Lock) :
    TokenKept state lock := by
  induction run with
  | created => exact Or.inl ⟨rfl, fun _ => rfl⟩
  | call _ thread called inOrder effect kept =>
      by_cases same : lock = called
      · subst same
        exact kept.call_self inOrder effect
      · exact kept.call_of_ne same _ _

end FlashBench
