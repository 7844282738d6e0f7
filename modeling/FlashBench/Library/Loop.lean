import Mathlib.Data.List.Induction
import Mathlib.Data.List.Iterate
import Mathlib.Logic.Function.Basic

/-!
# Calls and loops with an error exit

A C call whose result is tested before the next one is `andThen`, and a loop whose
body may return an error code is `forEach`: the state changes made before the
error stay. `Ret.hang` is the outcome of code that never returns, so that
termination is a statement about results.

The rules below are the sequence rule and the loop rule of this setting. The
invariant of a loop is indexed by the iterations that are still to come.
-/

namespace FlashBench

universe u v

/-- Return code of a routine: `0`, `-1`, or no return at all. -/
inductive Ret where
  | ok
  | fail
  | hang
  deriving DecidableEq, Repr

section Sequence

variable {State : Type v}

/-- Go on with the second call when the first one succeeded. -/
def andThen (result : Ret × State) (next : State → Ret × State) : Ret × State :=
  match result with
  | (.ok, state) => next state
  | (.fail, state) => (.fail, state)
  | (.hang, state) => (.hang, state)

variable {result : Ret × State} {next : State → Ret × State}

theorem andThen_of_ok (ok : result.1 = .ok) : andThen result next = next result.2 := by
  rcases result with ⟨ret, state⟩
  simp only at ok
  subst ok
  rfl

theorem andThen_of_not_ok (notOk : result.1 ≠ .ok) : andThen result next = result := by
  rcases result with ⟨ret, state⟩
  cases ret with
  | ok => exact absurd rfl notOk
  | fail => rfl
  | hang => rfl

/-- The sequence rule: one postcondition for an error of the first call and for the end of
the second one. -/
theorem andThen_rule (post : Ret × State → Prop) (stop : result.1 ≠ .ok → post result)
    (go : result.1 = .ok → post (next result.2)) : post (andThen result next) := by
  by_cases ok : result.1 = .ok
  · rw [andThen_of_ok ok]
    exact go ok
  · rw [andThen_of_not_ok ok]
    exact stop ok

/-- A property that both calls keep, however they return. -/
theorem andThen_preserves (property : State → Prop) (first : property result.2)
    (second : ∀ state, property state → property (next state).2) :
    property (andThen result next).2 := by
  exact andThen_rule (fun result => property result.2) (fun _ => first) fun _ => second _ first

end Sequence

section Loop

variable {Item : Type u} {State : Type v}

/-- Run the body on every item in order and stop at the first result other than `ok`. -/
def forEach (body : Item → State → Ret × State) : List Item → State → Ret × State
  | [], state => (.ok, state)
  | item :: items, state =>
      match body item state with
      | (.ok, next) => forEach body items next
      | (.fail, next) => (.fail, next)
      | (.hang, next) => (.hang, next)

variable {body : Item → State → Ret × State}

@[simp]
theorem forEach_nil (state : State) : forEach body [] state = (.ok, state) := rfl

theorem forEach_cons_of_ok {item : Item} {items : List Item} {state : State}
    (ok : (body item state).1 = .ok) :
    forEach body (item :: items) state = forEach body items (body item state).2 := by
  rw [forEach]
  rcases result : body item state with ⟨ret, next⟩
  rw [result] at ok
  simp only at ok
  subst ok
  rfl

theorem forEach_cons_of_not_ok {item : Item} {items : List Item} {state : State}
    (notOk : (body item state).1 ≠ .ok) :
    forEach body (item :: items) state = body item state := by
  rw [forEach]
  rcases result : body item state with ⟨ret, next⟩
  rw [result] at notOk
  cases ret with
  | ok => exact absurd rfl notOk
  | fail => rfl
  | hang => rfl

theorem forEach_cons (item : Item) (items : List Item) (state : State) :
    forEach body (item :: items) state = andThen (body item state) (forEach body items) := by
  rw [forEach]
  rcases body item state with ⟨_ | _ | _, next⟩ <;> rfl

theorem forEach_append (items more : List Item) (state : State) :
    forEach body (items ++ more) state =
      andThen (forEach body items state) (forEach body more) := by
  induction items generalizing state with
  | nil => rfl
  | cons item items ih =>
      rw [List.cons_append, forEach_cons, forEach_cons]
      rcases body item state with ⟨_ | _ | _, next⟩
      · exact ih next
      · rfl
      · rfl

theorem forEach_map {Outer : Type*} (inner : Outer → Item) (items : List Outer) :
    forEach body (items.map inner) = forEach (fun item => body (inner item)) items := by
  induction items with
  | nil => rfl
  | cons item items ih =>
      funext state
      rw [List.map_cons, forEach_cons, forEach_cons, ih]

/-- Nested loops are one loop over all their iterations. -/
theorem forEach_flatMap {Outer : Type*} (inner : Outer → List Item) (items : List Outer) :
    forEach body (items.flatMap inner) = forEach (fun item => forEach body (inner item)) items := by
  induction items with
  | nil => rfl
  | cons item items ih =>
      funext state
      rw [List.flatMap_cons, forEach_append, forEach_cons, ih]

/-- The loop rule: an invariant of the remaining iterations, with one
postcondition for the early exits and for the end of the loop. -/
theorem forEach_rule (invariant : List Item → State → Prop) (post : Ret × State → Prop)
    (step : ∀ item items state, invariant (item :: items) state →
      ((body item state).1 = .ok → invariant items (body item state).2) ∧
        ((body item state).1 ≠ .ok → post (body item state)))
    (finish : ∀ state, invariant [] state → post (.ok, state))
    {items : List Item} {state : State} (start : invariant items state) :
    post (forEach body items state) := by
  induction items generalizing state with
  | nil => exact finish state start
  | cons item items ih =>
      have onward := step item items state start
      by_cases ok : (body item state).1 = .ok
      · rw [forEach_cons_of_ok ok]
        exact ih (onward.1 ok)
      · rw [forEach_cons_of_not_ok ok]
        exact onward.2 ok

/-- A loop that reads its position in the state and moves it on is a loop over the positions. -/
theorem forEach_iterate {Position : Type*} (next : Position → Position)
    (position : State → Position) {body : Position → State → Ret × State}
    (moves : ∀ place state, (body place state).1 = .ok → position (body place state).2 = place)
    (items : List Item) (state : State) :
    forEach (fun _ state => body (next (position state)) state) items state =
      forEach body (List.iterate next (next (position state)) items.length) state := by
  induction items generalizing state with
  | nil => rfl
  | cons item items ih =>
      change _ = forEach body (next (position state) :: List.iterate next _ items.length) state
      by_cases ok : (body (next (position state)) state).1 = .ok
      · have step : forEach (fun _ state => body (next (position state)) state) (item :: items) state =
            forEach (fun _ state => body (next (position state)) state) items
              (body (next (position state)) state).2 := forEach_cons_of_ok ok
        rw [step, forEach_cons_of_ok ok, ih, moves _ _ ok]
      · have step : forEach (fun _ state => body (next (position state)) state) (item :: items) state =
            body (next (position state)) state := forEach_cons_of_not_ok ok
        rw [step, forEach_cons_of_not_ok ok]

theorem forEach_iterate_position {Position : Type*} (next : Position → Position)
    (position : State → Position) {body : Position → State → Ret × State}
    (moves : ∀ place state, (body place state).1 = .ok → position (body place state).2 = place)
    {items : List Item} {state : State}
    (ok : (forEach (fun _ state => body (next (position state)) state) items state).1 = .ok) :
    position (forEach (fun _ state => body (next (position state)) state) items state).2 =
      next^[items.length] (position state) := by
  induction items generalizing state with
  | nil => rfl
  | cons item items ih =>
      by_cases first : (body (next (position state)) state).1 = .ok
      · have step : forEach (fun _ state => body (next (position state)) state) (item :: items) state =
            forEach (fun _ state => body (next (position state)) state) items
              (body (next (position state)) state).2 := forEach_cons_of_ok first
        rw [step] at ok ⊢
        rw [ih ok, moves _ _ first]
        rfl
      · have step : forEach (fun _ state => body (next (position state)) state) (item :: items) state =
            body (next (position state)) state := forEach_cons_of_not_ok first
        rw [step] at ok
        exact absurd ok first

/-- A property kept by every iteration holds when the loop is left, however it is left. -/
theorem forEach_preserves (property : State → Prop) {items : List Item}
    (step : ∀ item ∈ items, ∀ state, property state → property (body item state).2)
    {state : State} (start : property state) : property (forEach body items state).2 := by
  induction items generalizing state with
  | nil => exact start
  | cons item items ih =>
      have next := step item (by simp) state start
      by_cases ok : (body item state).1 = .ok
      · rw [forEach_cons_of_ok ok]
        exact ih (fun other otherMem => step other (by simp [otherMem])) next
      · rw [forEach_cons_of_not_ok ok]
        exact next

/-- A loop all of whose iterations succeed under an invariant succeeds. -/
theorem forEach_succeeds (invariant : List Item → State → Prop)
    (step : ∀ item items state, invariant (item :: items) state →
      (body item state).1 = .ok ∧ invariant items (body item state).2)
    {items : List Item} {state : State} (start : invariant items state) :
    (forEach body items state).1 = .ok ∧ invariant [] (forEach body items state).2 := by
  induction items generalizing state with
  | nil => exact ⟨rfl, start⟩
  | cons item items ih =>
      rcases step item items state start with ⟨ok, next⟩
      rw [forEach_cons_of_ok ok]
      exact ih next

/-- A loop fails exactly at an iteration that fails. -/
theorem forEach_eq_fail_iff {items : List Item} {state : State} :
    (forEach body items state).1 = .fail ↔
      ∃ passed item rest middle, items = passed ++ item :: rest ∧
        forEach body passed state = (.ok, middle) ∧ (body item middle).1 = .fail := by
  induction items generalizing state with
  | nil => simp
  | cons first items ih =>
      by_cases ok : (body first state).1 = .ok
      · rw [forEach_cons_of_ok ok, ih]
        constructor
        · rintro ⟨passed, item, rest, middle, split, reached, failed⟩
          exact ⟨first :: passed, item, rest, middle, by simp [split],
            by rw [forEach_cons_of_ok ok, reached], failed⟩
        · rintro ⟨_ | ⟨head, passed⟩, item, rest, middle, split, reached, failed⟩
          · simp only [List.nil_append, List.cons.injEq] at split
            simp only [forEach_nil, Prod.mk.injEq, true_and] at reached
            rw [← split.1, ← reached, ok] at failed
            simp at failed
          · simp only [List.cons_append, List.cons.injEq] at split
            rw [← split.1, forEach_cons_of_ok ok] at reached
            exact ⟨passed, item, rest, middle, split.2, reached, failed⟩
      · rw [forEach_cons_of_not_ok ok]
        constructor
        · exact fun failed => ⟨[], first, items, state, rfl, rfl, failed⟩
        · rintro ⟨_ | ⟨head, passed⟩, item, rest, middle, split, reached, failed⟩
          · simp only [List.nil_append, List.cons.injEq] at split
            simp only [forEach_nil, Prod.mk.injEq, true_and] at reached
            rw [split.1, reached]
            exact failed
          · simp only [List.cons_append, List.cons.injEq] at split
            rw [← split.1, forEach_cons_of_not_ok ok] at reached
            rw [reached] at ok
            exact absurd rfl ok

/-- A loop whose iterations all return returns. -/
theorem forEach_ne_hang {items : List Item} {state : State}
    (step : ∀ item state, (body item state).1 ≠ .hang) :
    (forEach body items state).1 ≠ .hang :=
  forEach_rule (fun _ _ => True) (fun result => result.1 ≠ .hang)
    (fun item _ state _ => ⟨fun _ => trivial, fun _ => step item state⟩)
    (fun _ _ => by simp) trivial

/-- A property kept by every iteration of a loop without error exit. -/
theorem foldl_preserves (property : State → Prop) {body : State → Item → State}
    {items : List Item}
    (step : ∀ item ∈ items, ∀ state, property state → property (body state item))
    {state : State} (start : property state) : property (items.foldl body state) := by
  induction items generalizing state with
  | nil => exact start
  | cons item items ih =>
      exact ih (fun other otherMem => step other (by simp [otherMem]))
        (step item (by simp) state start)

/-- A loop without error exit that appends to what it has collected. -/
theorem foldl_collects {Collected : Type*} (relation : List Collected → State → Prop)
    {body : State → Item → State} (found : Item → List Collected) {items : List Item}
    (step : ∀ item ∈ items, ∀ state collected, relation collected state →
      relation (collected ++ found item) (body state item))
    {state : State} {collected : List Collected} (start : relation collected state) :
    relation (collected ++ items.flatMap found) (items.foldl body state) := by
  induction items generalizing state collected with
  | nil => simpa using start
  | cons item items ih =>
      have next := step item (by simp) state collected start
      simpa using ih (fun other otherMem => step other (by simp [otherMem])) next

/-- A loop that fills a table has filled the entries that it came to. -/
theorem foldl_update_of_mem {Value : Type*} [DecidableEq Item] (value : Item → Value)
    {items : List Item} {item : Item} (mem : item ∈ items) (table : Item → Value) :
    items.foldl (fun table item => Function.update table item (value item)) table item =
      value item := by
  induction items using List.reverseRecOn with
  | nil => simp at mem
  | append_singleton items last ih =>
      rw [List.foldl_append, List.foldl_cons, List.foldl_nil]
      by_cases same : item = last
      · rw [same, Function.update_self]
      · rw [Function.update_of_ne same]
        apply ih
        simpa [same] using mem

end Loop

section Faults

variable {Value Next : Type u}

/-- A computation that may fault does not fault, and what it returns has the property. -/
def Returns (result : Option Value) (post : Value → Prop) : Prop :=
  ∃ value, result = some value ∧ post value

namespace Returns

variable {result : Option Value} {post weaker : Value → Prop} {next : Value → Option Next}
  {after : Next → Prop}

theorem of_some {value : Value} (holds : post value) : Returns (some value) post :=
  ⟨value, rfl, holds⟩

theorem bind (first : Returns result post)
    (second : ∀ value, post value → Returns (next value) after) :
    Returns (result >>= next) after := by
  rcases first with ⟨value, rfl, holds⟩
  exact second value holds

theorem imp (returns : Returns result post) (weaken : ∀ value, post value → weaker value) :
    Returns result weaker := by
  rcases returns with ⟨value, returned, holds⟩
  exact ⟨value, returned, weaken value holds⟩

end Returns

end Faults

end FlashBench
