import FlashBench.Library.Ledger

/-!
# Error exits that undo what was done

A routine that creates several things checks each of them and, when one is missing, goes
to a label behind which the earlier ones are released, in the reverse order, each label
falling through to the next one. What is left behind on such an exit is the sum of what
the failed call and the labels leave behind.
-/

namespace FlashBench

namespace Ledger

variable {Obj : Type}

/-- `pointer = kmalloc();` -/
def ask [DecidableEq Obj] (grants : Obj → Bool) (obj : Obj) (ledger : Ledger Obj) :
    Option (Ret × Ledger Obj) := some (take grants obj ledger)

/-- `if (!create()) goto cleanup;` with what follows it. -/
def orGoto (create : Ledger Obj → Option (Ret × Ledger Obj))
    (cleanup : Ledger Obj → Option (Ledger Obj)) (next : Ledger Obj → Option (Ret × Ledger Obj))
    (ledger : Ledger Obj) : Option (Ret × Ledger Obj) := do
  let (result, ledger) ← create ledger
  if result = .ok then next ledger
  else
    let ledger ← cleanup ledger
    some (.fail, ledger)

/-- The end of a routine that has created everything. -/
def created (ledger : Ledger Obj) : Option (Ret × Ledger Obj) := some (.ok, ledger)

variable {grants : Obj → Bool} {ledger next : Ledger Obj} {owner : Option Obj}
  {prev objs objs' before after rest kept kept' : List Obj} {obj : Obj}
  {leaves leaves' : Obj → Option (List Obj)} {create other : Ledger Obj → Option (Ret × Ledger Obj)}
  {release second : Ledger Obj → Option (Ledger Obj)}

/-! ### Releasing -/

/-- The code releases the blocks of the list except for those it leaves behind. -/
structure Frees (owner : Option Obj) (objs kept : List Obj)
    (release : Ledger Obj → Option (Ledger Obj)) : Prop where
  returns : ∀ {ledger : Ledger Obj} {rest : List Obj}, ledger.Holds objs rest →
    (∀ block ∈ owner, block ∈ rest) → Returns (release ledger) (Released ledger (kept ++ rest))

theorem Holds.left (holds : ledger.Holds (objs ++ objs') rest) :
    ledger.Holds objs (objs' ++ rest) where
  pointers block mem := holds.pointers block (List.mem_append_left _ mem)
  live := by
    rw [← List.append_assoc]
    exact holds.live

theorem Holds.right (holds : ledger.Holds (objs ++ objs') rest) (released : Released ledger
    (kept ++ (objs' ++ rest)) next) : next.Holds objs' (kept ++ rest) where
  pointers block mem := by
    rw [released.pointers]
    exact holds.pointers block (List.mem_append_right _ mem)
  live := by
    refine released.live.trans ?_
    rw [← List.append_assoc, ← List.append_assoc]
    exact List.perm_append_comm.append_right rest

theorem Holds.perm (holds : ledger.Holds objs rest) (perm : objs.Perm objs') :
    ledger.Holds objs' rest where
  pointers block mem := holds.pointers block (perm.mem_iff.mpr mem)
  live := holds.live.trans (perm.append_right rest)

theorem Holds.tail (holds : ledger.Holds (obj :: objs) rest) : ledger.Holds objs (obj :: rest) where
  pointers block mem := holds.pointers block (List.mem_cons_of_mem _ mem)
  live := holds.live.trans List.perm_middle.symm

theorem freeIfSet_of_block [DecidableEq Obj] (holds : ledger.Holds (obj :: objs) rest)
    (owned : ∀ block ∈ owner, block ∈ rest)
    (inner : Returns (release ledger) (Released ledger (kept ++ obj :: rest))) :
    Returns (freeIfSet owner obj release ledger) (Released ledger (kept ++ rest)) := by
  have set : ledger.isSet owner obj = some true := by
    rw [isSet_of_owned (holds.owned owned), holds.pointers obj List.mem_cons_self]
  simp only [freeIfSet, set, Option.bind_eq_bind, Option.bind_some, if_true]
  refine inner.bind fun between released => Released.free ?_
  exact ⟨released.pointers, released.live.trans List.perm_middle⟩

theorem freeIfSet_of_null [DecidableEq Obj] {inner : Ledger Obj → Option (Ledger Obj)}
    (owned : ∀ block ∈ owner, block ∈ ledger.live) (null : ledger.pointers obj = .null) :
    freeIfSet owner obj inner ledger = some ledger := by
  simp [freeIfSet, isSet_of_owned owned, null]

namespace Frees

theorem nothing (objs : List Obj) : Frees owner objs objs some :=
  ⟨fun holds _ => .of_some ⟨rfl, holds.live⟩⟩

/-- Blocks that the code does not know of stay. -/
theorem keeping (frees : Frees owner objs kept release) (objs' : List Obj) :
    Frees owner (objs ++ objs') (kept ++ objs') release := by
  refine ⟨fun holds owned => ?_⟩
  rw [List.append_assoc]
  exact frees.returns holds.left fun block mem => by simp [owned block mem]

theorem perm (frees : Frees owner objs kept release) (perm : objs.Perm objs') :
    Frees owner objs' kept release :=
  ⟨fun holds owned => frees.returns (holds.perm perm.symm) owned⟩

theorem seq (first : Frees owner objs kept release) (next : Frees owner objs' kept' second) :
    Frees owner (objs ++ objs') (kept' ++ kept) fun ledger => release ledger >>= second := by
  refine ⟨fun {ledger rest} holds owned => ?_⟩
  refine (first.returns holds.left fun block mem => by simp [owned block mem]).bind
    fun between released => ?_
  refine (next.returns (holds.right released) fun block mem => by simp [owned block mem]).imp
    fun last done => ⟨done.pointers.trans released.pointers, ?_⟩
  rw [List.append_assoc]
  exact done.live

/-- What is behind the next label. -/
theorem andThen (next : Frees none prev kept second)
    (pointers : ∀ block ∈ prev, ledger.pointers block = .block)
    (first : Returns (release ledger) (Released ledger (prev ++ rest))) :
    Returns (release ledger >>= second) (Released ledger (kept ++ rest)) := by
  refine first.bind fun between released => ?_
  have left : between.Holds prev rest := ⟨fun block mem => by
    rw [released.pointers]
    exact pointers block mem, released.live⟩
  exact (next.returns left (by simp)).imp fun last done =>
    ⟨done.pointers.trans released.pointers, done.live⟩

/-- A label that falls through to the labels of the blocks created before. -/
theorem fallThrough (first : Frees owner objs kept release) (next : Frees none prev kept' second)
    (owned : ∀ block ∈ owner, block ∈ prev) :
    Frees none (prev ++ objs) (kept' ++ kept) fun ledger => release ledger >>= second := by
  refine ⟨fun {ledger rest} holds _ => ?_⟩
  have freed := first.returns (holds.perm List.perm_append_comm).left fun block mem => by
    simp [owned block mem]
  rw [List.append_assoc]
  refine next.andThen (fun block mem => holds.pointers block (List.mem_append_left _ mem))
    (freed.imp fun between released => ⟨released.pointers, released.live.trans ?_⟩)
  rw [← List.append_assoc, ← List.append_assoc]
  exact List.perm_append_comm.append_right rest

theorem each {Item : Type*} {body : Item → Ledger Obj → Option (Ledger Obj)}
    {blocks : Item → List Obj} {items : List Item}
    (one : ∀ item ∈ items, Frees owner (blocks item) [] (body item)) :
    Frees owner (items.flatMap blocks) [] (releaseEach body items) := by
  induction items with
  | nil => exact nothing []
  | cons item items ih =>
      exact (one item (by simp)).seq (ih fun other mem => one other (by simp [mem]))

variable [DecidableEq Obj]

theorem node (inner : Frees (some obj) objs kept release) :
    Frees owner (obj :: objs) kept (freeIfSet owner obj release) :=
  ⟨fun holds owned => freeIfSet_of_block holds owned (inner.returns holds.tail (by simp))⟩

/-- A single pointer. -/
theorem one (obj : Obj) : Frees owner [obj] [] (freeIfSet owner obj some) := node (nothing [])

theorem free (obj : Obj) : Frees owner [obj] [] (Ledger.free obj) := by
  refine ⟨fun holds _ => Released.free ⟨rfl, ?_⟩⟩
  exact holds.live

/-- A row of fields. -/
theorem fields (obj : Obj) (objs : List Obj) : Frees (some obj) objs [] (freeFields obj objs) := by
  have field (field : Obj) (_ : field ∈ objs) :
      Frees (some obj) [field] [] (freeIfSet (some obj) field some) := one field
  have each := Frees.each field
  rwa [List.flatMap_singleton'] at each

end Frees

/-! ### Creating -/

/-- All blocks have been created. -/
structure AllMade (prev objs rest : List Obj) (ledger : Ledger Obj)
    (result : Ret × Ledger Obj) : Prop where
  ok : result.1 = .ok
  holds : result.2.Holds (prev ++ objs) rest
  same : SameBut objs ledger result.2

/-- The routine has given up and left some blocks behind. -/
structure GaveUp (objs left rest : List Obj) (ledger : Ledger Obj) (result : Ret × Ledger Obj) :
    Prop where
  fail : result.1 = .fail
  live : result.2.live.Perm (left ++ rest)
  same : SameBut objs ledger result.2

/-- What becomes of the routine, where `left` says what it leaves behind, or that it is not
defined. -/
def Exits (objs rest : List Obj) (ledger : Ledger Obj) (result : Option (Ret × Ledger Obj)) :
    Option (List Obj) → Prop
  | some left => Returns result (GaveUp objs left rest ledger)
  | none => result = none

/-- One of the blocks is refused, and those before it are not. -/
structure RefusedAt (grants : Obj → Bool) (objs before : List Obj) (obj : Obj) (after : List Obj) :
    Prop where
  split : objs = before ++ obj :: after
  granted : ∀ other ∈ before, grants other = true
  refused : grants obj = false

/-- The refused block is one of the first part, or all of those are granted. -/
theorem RefusedAt.append (refusedAt : RefusedAt grants (objs ++ objs') before obj after) :
    (∃ after, RefusedAt grants objs before obj after) ∨
      (∀ other ∈ objs, grants other = true) ∧
        ∃ before, RefusedAt grants objs' before obj after := by
  rcases List.append_eq_append_iff.mp refusedAt.split with
    ⟨tail, rfl, others⟩ | ⟨tail, isEarly, others⟩
  · exact Or.inr ⟨fun other mem => refusedAt.granted other (by simp [mem]), tail, others,
      fun other mem => refusedAt.granted other (by simp [mem]), refusedAt.refused⟩
  · rcases tail with _ | ⟨head, tail⟩
    · rw [List.append_nil] at isEarly
      subst isEarly
      exact Or.inr ⟨refusedAt.granted, [], others.symm, by simp, refusedAt.refused⟩
    · simp only [List.cons_append, List.cons.injEq] at others
      rcases others with ⟨rfl, _⟩
      exact Or.inl ⟨tail, isEarly, refusedAt.granted, refusedAt.refused⟩

/-- With the earlier blocks there, the routine creates those of the list in their order. When
it cannot, it releases the earlier ones as well, except for those that it leaves behind. -/
structure Creates (grants : Obj → Bool) (prev objs : List Obj)
    (leaves : Obj → Option (List Obj)) (create : Ledger Obj → Option (Ret × Ledger Obj)) :
    Prop where
  made : ∀ {ledger : Ledger Obj} {rest : List Obj}, ledger.Holds prev rest →
    (∀ obj ∈ objs, ledger.pointers obj = .junk) → (∀ obj ∈ objs, grants obj = true) →
    Returns (create ledger) (AllMade prev objs rest ledger)
  stopped : ∀ {ledger : Ledger Obj} {rest before after : List Obj} {obj : Obj},
    ledger.Holds prev rest → (∀ obj ∈ objs, ledger.pointers obj = .junk) →
    RefusedAt grants objs before obj after →
    Exits objs rest ledger (create ledger) (leaves obj)

theorem Holds.afterMade {result : Ret × Ledger Obj}
    (holds : ledger.Holds prev rest) (made : AllMade [] objs (prev ++ rest) ledger result)
    (apart : ∀ block ∈ prev, block ∉ objs) : result.2.Holds (prev ++ objs) rest where
  pointers block mem := by
    rcases List.mem_append.mp mem with early | new
    · rw [made.same block (apart block early)]
      exact holds.pointers block early
    · exact made.holds.pointers block new
  live := by
    refine made.holds.live.trans ?_
    rw [List.nil_append, ← List.append_assoc]
    exact List.perm_append_comm.append_right rest

theorem Holds.afterGivingUp {left : List Obj} {result : Ret × Ledger Obj}
    (holds : ledger.Holds prev rest) (gaveUp : GaveUp objs left (prev ++ rest) ledger result)
    (apart : ∀ block ∈ prev, block ∉ objs) : result.2.Holds prev (left ++ rest) where
  pointers block mem := by
    rw [gaveUp.same block (apart block mem)]
    exact holds.pointers block mem
  live := by
    refine gaveUp.live.trans ?_
    rw [← List.append_assoc, ← List.append_assoc]
    exact List.perm_append_comm.append_right rest

/-! ### Exits that are not defined -/

/-- A routine of which only this is known: it creates the blocks or it fails, and writes no
other pointers than those to them. -/
structure Tries (grants : Obj → Bool) (prev objs : List Obj)
    (create : Ledger Obj → Option (Ret × Ledger Obj)) : Prop where
  made : ∀ {ledger : Ledger Obj} {rest : List Obj}, ledger.Holds prev rest →
    (∀ obj ∈ objs, ledger.pointers obj = .junk) → (∀ obj ∈ objs, grants obj = true) →
    Returns (create ledger) (AllMade prev objs rest ledger)
  stopped : ∀ {ledger : Ledger Obj} {rest before after : List Obj} {obj : Obj}
    {result : Ret × Ledger Obj}, ledger.Holds prev rest →
    (∀ obj ∈ objs, ledger.pointers obj = .junk) → RefusedAt grants objs before obj after →
    create ledger = some result → result.1 = .fail ∧ SameBut objs ledger result.2

/-- The release of blocks writes no pointers. -/
def KeepsPointers (release : Ledger Obj → Option (Ledger Obj)) : Prop :=
  ∀ ledger next, release ledger = some next → next.pointers = ledger.pointers

namespace KeepsPointers

theorem nothing : KeepsPointers (some : Ledger Obj → Option (Ledger Obj)) := by
  intro ledger next returned
  rw [Option.some.inj returned]

theorem seq (first : KeepsPointers release) (next : KeepsPointers second) :
    KeepsPointers fun ledger => release ledger >>= second := by
  intro ledger last returned
  rcases Option.bind_eq_some_iff.mp returned with ⟨between, released, done⟩
  exact (next between last done).trans (first ledger between released)

/-- What comes later is not defined. -/
theorem bind_eq_none {unset : Obj} (keeps : KeepsPointers release)
    (undefined : ∀ ledger, ledger.pointers unset = .junk → second ledger = none)
    (junk : ledger.pointers unset = .junk) : (release ledger >>= second) = none := by
  rcases released : release ledger with _ | next
  · rfl
  · exact undefined next (by rw [keeps ledger next released, junk])

variable [DecidableEq Obj]

theorem node (inner : KeepsPointers release) : KeepsPointers (freeIfSet owner obj release) := by
  intro ledger next returned
  rcases Option.bind_eq_some_iff.mp returned with ⟨_ | _, _, returned⟩
  · rw [Option.some.inj returned]
  · rcases Option.bind_eq_some_iff.mp returned with ⟨between, released, freed⟩
    unfold Ledger.free at freed
    split_ifs at freed
    rw [← Option.some.inj freed]
    exact (inner ledger between released : between.pointers = ledger.pointers)

theorem fields (obj : Obj) (objs : List Obj) : KeepsPointers (freeFields obj objs) := by
  induction objs with
  | nil => exact nothing
  | cons field objs ih => exact (node nothing).seq ih

end KeepsPointers

section Undefined

variable [DecidableEq Obj]

theorem freeIfSet_of_junk (junk : ledger.pointers obj = .junk) :
    freeIfSet owner obj release ledger = none := by
  simp [freeIfSet, isSet_of_junk junk]

theorem freeIfSet_eq_none (block : ledger.pointers obj = .block)
    (undefined : release ledger = none) : freeIfSet owner obj release ledger = none := by
  unfold freeIfSet isSet
  split_ifs <;> simp [block, undefined]

end Undefined

namespace Tries

theorem created : Tries grants prev [] (created : Ledger Obj → Option (Ret × Ledger Obj)) where
  made holds _ _ := .of_some ⟨rfl, by rwa [List.append_nil], fun _ _ => rfl⟩
  stopped _ _ refusedAt := by simpa using refusedAt.split

variable [DecidableEq Obj]

theorem afterOne (holds : ledger.Holds prev rest) (prevApart : obj ∉ prev) :
    (ledger.given obj).Holds (prev ++ [obj]) rest := by
  refine ⟨fun block mem => ?_, ?_⟩
  · rcases List.mem_append.mp mem with early | isNew
    · rw [given_pointers_of_ne (ne_of_mem_of_not_mem early prevApart)]
      exact holds.pointers block early
    · rw [List.mem_singleton.mp isNew, given_pointers_self]
  · rw [List.append_assoc]
    exact (holds.live.cons obj).trans List.perm_middle.symm

/-- One block that is asked for. -/
theorem ask {cleanup : Ledger Obj → Option (Ledger Obj)} (keeps : KeepsPointers cleanup)
    (next : Tries grants (prev ++ [obj]) objs other) (prevApart : obj ∉ prev)
    (nextApart : obj ∉ objs) :
    Tries grants prev (obj :: objs) (orGoto (ask grants obj) cleanup other) where
  made {ledger rest} holds unwritten granted := by
    rw [List.forall_mem_cons] at unwritten granted
    have later (block : Obj) (mem : block ∈ objs) : block ≠ obj :=
      ne_of_mem_of_not_mem mem nextApart
    simp only [orGoto, Ledger.ask, take_of_granted granted.1, Option.bind_eq_bind,
      Option.bind_some, if_true]
    have between := afterOne holds prevApart
    refine (next.made between (fun block mem => ?_) granted.2).imp fun last all =>
      ⟨all.ok, by simpa using all.holds, fun block notMem => ?_⟩
    · rw [given_pointers_of_ne (later block mem)]
      exact unwritten.2 block mem
    · rw [List.mem_cons, not_or] at notMem
      rw [all.same block notMem.2, given_pointers_of_ne notMem.1]
  stopped {ledger rest before after refused result} holds unwritten refusedAt returned := by
    rw [List.forall_mem_cons] at unwritten
    rcases before with _ | ⟨first, before⟩
    · obtain ⟨rfl, rfl⟩ : obj = refused ∧ objs = after := by simpa using refusedAt.split
      simp only [orGoto, Ledger.ask, take_of_refused refusedAt.refused, Option.bind_eq_bind,
        Option.bind_some, reduceCtorEq, if_false] at returned
      rcases Option.bind_eq_some_iff.mp returned with ⟨last, cleaned, gone⟩
      rw [← Option.some.inj gone]
      refine ⟨rfl, fun block notMem => ?_⟩
      rw [List.mem_cons, not_or] at notMem
      rw [keeps _ last cleaned, setNull_pointers_of_ne notMem.1]
    · obtain ⟨rfl, split⟩ : obj = first ∧ objs = before ++ refused :: after := by
        simpa using refusedAt.split
      have granted := refusedAt.granted
      rw [List.forall_mem_cons] at granted
      simp only [orGoto, Ledger.ask, take_of_granted granted.1, Option.bind_eq_bind,
        Option.bind_some, if_true] at returned
      have onward := next.stopped (afterOne holds prevApart)
        (fun block mem => by
          rw [given_pointers_of_ne (ne_of_mem_of_not_mem mem nextApart)]
          exact unwritten.2 block mem) ⟨split, granted.2, refusedAt.refused⟩ returned
      refine ⟨onward.1, fun block notMem => ?_⟩
      rw [List.mem_cons, not_or] at notMem
      rw [onward.2 block notMem.2, given_pointers_of_ne notMem.1]

end Tries

namespace Creates

theorem created : Creates grants prev [] (fun _ => some [])
    (created : Ledger Obj → Option (Ret × Ledger Obj)) where
  made holds _ _ := .of_some ⟨rfl, by rwa [List.append_nil], fun _ _ => rfl⟩
  stopped _ _ refusedAt := by simpa using refusedAt.split

theorem congr (creates : Creates grants prev objs leaves create)
    (same : ∀ obj ∈ objs, leaves' obj = leaves obj) :
    Creates grants prev objs leaves' create where
  made := creates.made
  stopped {ledger rest before after obj} holds unwritten refusedAt := by
    rw [same obj (by simp [refusedAt.split])]
    exact creates.stopped holds unwritten refusedAt

/-- The first part of a routine, for whose error exit there is a proof, and the rest of it. -/
theorem step [DecidableEq Obj] {cleanup : Ledger Obj → Option (Ledger Obj)}
    (firstMade : ∀ {ledger : Ledger Obj} {rest : List Obj}, ledger.Holds [] rest →
      (∀ obj ∈ objs, ledger.pointers obj = .junk) → (∀ obj ∈ objs, grants obj = true) →
      Returns (create ledger) (AllMade [] objs rest ledger))
    (next : Creates grants (prev ++ objs) objs' leaves' other)
    (prevApart : ∀ block ∈ prev, block ∉ objs) (nextApart : ∀ block ∈ objs', block ∉ objs)
    {total : Obj → Option (List Obj)}
    (early : ∀ {ledger : Ledger Obj} {rest before after : List Obj} {obj : Obj},
      ledger.Holds prev rest → (∀ obj ∈ objs ++ objs', ledger.pointers obj = .junk) →
      RefusedAt grants objs before obj after →
      Exits (objs ++ objs') rest ledger (orGoto create cleanup other ledger) (total obj)) :
    Creates grants prev (objs ++ objs')
      (fun obj => if obj ∈ objs then total obj else leaves' obj)
      (orGoto create cleanup other) where
  made {ledger rest} holds unwritten granted := by
    have begun : ledger.Holds [] (prev ++ rest) := ⟨by simp, holds.live⟩
    rcases firstMade begun (fun obj mem => unwritten obj (by simp [mem]))
      (fun obj mem => granted obj (by simp [mem])) with ⟨result, returned, made⟩
    have between := holds.afterMade made prevApart
    simp only [orGoto, returned, Option.bind_eq_bind, Option.bind_some, made.ok, if_true]
    refine (next.made between (fun obj mem => ?_) fun obj mem => granted obj (by simp [mem])).imp
      fun last all => ⟨all.ok, ?_, fun obj notMem => ?_⟩
    · rw [made.same obj (nextApart obj mem)]
      exact unwritten obj (by simp [mem])
    · rw [← List.append_assoc]
      exact all.holds
    · rw [List.mem_append, not_or] at notMem
      rw [all.same obj notMem.2, made.same obj notMem.1]
  stopped {ledger rest before after obj} holds unwritten refusedAt := by
    rcases refusedAt.append with ⟨after, isEarly⟩ | ⟨granted, before, isLate⟩
    · rw [if_pos (by simp [isEarly.split])]
      exact early holds unwritten isEarly
    · have begun : ledger.Holds [] (prev ++ rest) := ⟨by simp, holds.live⟩
      rcases firstMade begun (fun obj mem => unwritten obj (by simp [mem])) granted with
        ⟨result, returned, made⟩
      have onward := next.stopped (holds.afterMade made prevApart) (fun other mem => by
        rw [made.same other (nextApart other mem)]
        exact unwritten other (by simp [mem])) isLate
      have late : obj ∉ objs := fun mem =>
        nextApart obj (by simp [isLate.split]) mem
      simp only [orGoto, returned, Option.bind_eq_bind, Option.bind_some, made.ok, if_true, late,
        if_false]
      rcases found : leaves' obj with _ | left
      · rw [found] at onward
        exact onward
      · rw [found] at onward
        refine onward.imp fun last gaveUp => ⟨gaveUp.fail, gaveUp.live, fun other notMem => ?_⟩
        rw [List.mem_append, not_or] at notMem
        rw [gaveUp.same other notMem.2, made.same other notMem.1]

/-- What a routine leaves behind that goes to a label when its first part has failed. -/
def leavesMore (kept : List Obj) (leaves : Obj → Option (List Obj)) (obj : Obj) :
    Option (List Obj) := (leaves obj).map fun left => kept ++ left

/-- A label that releases what is there. -/
theorem orGoto [DecidableEq Obj] {cleanup : Ledger Obj → Option (Ledger Obj)}
    (first : Creates grants [] objs leaves create) (frees : Frees none prev kept cleanup)
    (next : Creates grants (prev ++ objs) objs' leaves' other)
    (prevApart : ∀ block ∈ prev, block ∉ objs) (nextApart : ∀ block ∈ objs', block ∉ objs) :
    Creates grants prev (objs ++ objs')
      (fun obj => if obj ∈ objs then leavesMore kept leaves obj else leaves' obj)
      (Ledger.orGoto create cleanup other) := by
  refine step first.made next prevApart nextApart
    fun {ledger rest before after obj} holds unwritten refusedAt => ?_
  have begun : ledger.Holds [] (prev ++ rest) := ⟨by simp, holds.live⟩
  have within := first.stopped begun (fun obj mem => unwritten obj (by simp [mem])) refusedAt
  unfold leavesMore
  rcases found : leaves obj with _ | left
  · rw [found] at within
    simp only [Option.map_none, Exits] at within ⊢
    simp [Ledger.orGoto, within]
  · rw [found] at within
    rcases within with ⟨result, returned, gaveUp⟩
    rcases frees.returns (holds.afterGivingUp gaveUp prevApart) (by simp) with
      ⟨last, cleaned, released⟩
    simp only [Option.map_some, Exits, Ledger.orGoto, returned, Option.bind_eq_bind,
      Option.bind_some, gaveUp.fail, reduceCtorEq, if_false, cleaned]
    refine .of_some ⟨rfl, ?_, fun block notMem => ?_⟩
    · rw [List.append_assoc]
      exact released.live
    · rw [List.mem_append, not_or] at notMem
      rw [released.pointers, gaveUp.same block notMem.1]

variable [DecidableEq Obj]

/-- A loop that asks for one block after another and leaves behind those it got. -/
theorem loop (nodup : objs.Nodup) : Creates grants [] objs
    (fun obj => some (objs.takeWhile fun other => other ≠ obj))
    fun ledger => some (forEach (take grants) objs ledger) where
  made {ledger rest} holds unwritten granted := by
    refine (forEach_take nodup granted).imp fun result done => ⟨done.1, ⟨done.2.1.pointers, ?_⟩,
      done.2.2⟩
    exact done.2.1.live.trans (holds.live.append_left objs)
  stopped {ledger rest before after obj} holds unwritten refusedAt := by
    obtain rfl := refusedAt.split
    have notBefore : obj ∉ before := by
      rw [List.nodup_append] at nodup
      exact fun mem => nodup.2.2 obj mem obj (by simp) rfl
    have isBefore : ((before ++ obj :: after).takeWhile fun other => other ≠ obj) = before := by
      rw [List.takeWhile_append_of_pos fun other mem => by
        simpa using ne_of_mem_of_not_mem mem notBefore]
      simp
    simp only [Exits, isBefore]
    refine (forEach_take_stopped nodup (fun later mem => unwritten later (by simp [mem]))
      refusedAt.granted refusedAt.refused).imp fun result done => ⟨done.1, ?_, done.2.2⟩
    exact done.2.1.live.trans (holds.live.append_left before)

/-- One block that is asked for. -/
theorem one (obj : Obj) : Creates grants [] [obj] (fun _ => some []) (ask grants obj) := by
  have single : ask grants obj =
      fun ledger => some (forEach (take grants) [obj] ledger) := by
    funext ledger
    rw [ask, forEach_cons]
    rcases take grants obj ledger with ⟨_ | _ | _, next⟩ <;> rfl
  rw [single]
  refine (loop (by simp)).congr fun other mem => ?_
  simp [List.mem_singleton.mp mem]

/-- The first part of a routine of which it is known what the whole leaves behind. -/
theorem chain {cleanup : Ledger Obj → Option (Ledger Obj)} {total : Obj → Option (List Obj)}
    (first : Creates grants [] objs leaves create) (frees : Frees none prev kept cleanup)
    (next : Creates grants (prev ++ objs) objs' total other)
    (left : ∀ obj ∈ objs, total obj = leavesMore kept leaves obj)
    (prevApart : ∀ block ∈ prev, block ∉ objs) (nextApart : ∀ block ∈ objs', block ∉ objs) :
    Creates grants prev (objs ++ objs') total (Ledger.orGoto create cleanup other) := by
  refine (first.orGoto frees next prevApart nextApart).congr fun obj _ => ?_
  split_ifs with new
  · exact left obj new
  · rfl

/-- The last part of a routine, with a label behind which nothing is defined. -/
theorem lastUndefined {cleanup : Ledger Obj → Option (Ledger Obj)}
    (first : Creates grants [] objs leaves create) (undefined : ∀ ledger, cleanup ledger = none)
    (apart : ∀ block ∈ prev, block ∉ objs) :
    Creates grants prev (objs ++ []) (fun _ => none)
      (Ledger.orGoto create cleanup Ledger.created) := by
  have last : Creates grants (prev ++ objs) [] (fun _ => none) Ledger.created :=
    created.congr (by simp)
  refine (step first.made last apart (by simp)
    fun {ledger rest before after obj} holds unwritten refusedAt => ?_).congr fun obj mem =>
      (if_pos (by simpa using mem)).symm
  have begun : ledger.Holds [] (prev ++ rest) := ⟨by simp, holds.live⟩
  have within := first.stopped begun (fun obj mem => unwritten obj (by simp [mem])) refusedAt
  rcases found : leaves obj with _ | left
  · rw [found] at within
    simp only [Exits] at within ⊢
    simp [Ledger.orGoto, within]
  · rw [found] at within
    rcases within with ⟨result, returned, gaveUp⟩
    simp [Exits, Ledger.orGoto, returned, gaveUp.fail, undefined]

/-- A first part that leaves nothing behind, and a label that does not either. -/
theorem orClean {cleanup : Ledger Obj → Option (Ledger Obj)}
    (first : Creates grants [] objs (fun _ => some []) create) (frees : Frees none prev [] cleanup)
    (next : Creates grants (prev ++ objs) objs' (fun _ => some []) other)
    (prevApart : ∀ block ∈ prev, block ∉ objs) (nextApart : ∀ block ∈ objs', block ∉ objs) :
    Creates grants prev (objs ++ objs') (fun _ => some []) (Ledger.orGoto create cleanup other) :=
  first.chain frees next (fun _ _ => rfl) prevApart nextApart

/-- One block that is asked for, and a label that finds a null pointer in its place. -/
theorem askOr {cleanup : Ledger Obj → Option (Ledger Obj)} {obj : Obj}
    (exits : ∀ {ledger : Ledger Obj} {rest : List Obj}, ledger.Holds prev rest →
      ledger.pointers obj = .null → Returns (cleanup ledger) (Released ledger (kept ++ rest)))
    (next : Creates grants (prev ++ [obj]) objs' leaves' other)
    (prevApart : obj ∉ prev) (nextApart : obj ∉ objs') :
    Creates grants prev (obj :: objs')
      (fun block => if block = obj then some kept else leaves' block)
      (Ledger.orGoto (ask grants obj) cleanup other) := by
  have split : Creates grants prev ([obj] ++ objs')
      (fun block => if block ∈ [obj] then some kept else leaves' block)
      (Ledger.orGoto (ask grants obj) cleanup other) := by
    refine step (one obj).made next (fun block mem => ?_) (fun block mem => ?_)
      fun {ledger rest before after block} holds unwritten refusedAt => ?_
    · simpa using ne_of_mem_of_not_mem mem prevApart
    · simpa using ne_of_mem_of_not_mem mem nextApart
    · obtain rfl : block = obj := by
        have mem : block ∈ [obj] := by simp [refusedAt.split]
        simpa using mem
      have isRefused := refusedAt.refused
      have early : (ledger.setNull block).Holds prev rest := by
        refine ⟨fun other mem => ?_, holds.live⟩
        rw [setNull_pointers_of_ne (ne_of_mem_of_not_mem mem prevApart)]
        exact holds.pointers other mem
      rcases exits early setNull_pointers_self with ⟨last, cleaned, released⟩
      simp only [Exits, Ledger.orGoto, ask, take_of_refused isRefused, Option.bind_eq_bind,
        Option.bind_some, reduceCtorEq, if_false, cleaned]
      refine .of_some ⟨rfl, released.live, fun other notMem => ?_⟩
      rw [List.singleton_append, List.mem_cons, not_or] at notMem
      rw [released.pointers, setNull_pointers_of_ne notMem.1]
  exact split.congr (by simp)

/-- A first part whose error exit tests a pointer that only the rest of the routine writes. -/
theorem orUndefined {cleanup : Ledger Obj → Option (Ledger Obj)} {unset : Obj}
    (first : Tries grants [] objs create)
    (undefined : ∀ {ledger : Ledger Obj}, (∀ block ∈ prev, ledger.pointers block = .block) →
      ledger.pointers unset = .junk → cleanup ledger = none)
    (later : unset ∈ objs') (next : Creates grants (prev ++ objs) objs' leaves' other)
    (prevApart : ∀ block ∈ prev, block ∉ objs) (nextApart : ∀ block ∈ objs', block ∉ objs) :
    Creates grants prev (objs ++ objs') (fun obj => if obj ∈ objs then none else leaves' obj)
      (Ledger.orGoto create cleanup other) := by
  refine step first.made next prevApart nextApart
    fun {ledger rest before after obj} holds unwritten refusedAt => ?_
  have begun : ledger.Holds [] (prev ++ rest) := ⟨by simp, holds.live⟩
  rcases tried : create ledger with _ | result
  · simp [Exits, Ledger.orGoto, tried]
  · rcases first.stopped begun (fun obj mem => unwritten obj (by simp [mem])) refusedAt tried with
      ⟨fail, same⟩
    have there (block : Obj) (mem : block ∈ prev) : result.2.pointers block = .block := by
      rw [same block (prevApart block mem)]
      exact holds.pointers block mem
    have junk : result.2.pointers unset = .junk := by
      rw [same unset (nextApart unset later)]
      exact unwritten unset (by simp [later])
    simp [Exits, Ledger.orGoto, tried, fail, undefined there junk]

/-- A loop of allocations whose error exit tests the pointers to all of them. -/
theorem loopOr {cleanup : Ledger Obj → Option (Ledger Obj)} {spine : List Obj} (nodup : objs.Nodup)
    (exits : ∀ {ledger : Ledger Obj} {rest before after : List Obj} {obj : Obj},
      objs = before ++ obj :: after → ledger.StoppedAt (prev ++ before) obj after rest →
      if obj ∈ spine then Returns (cleanup ledger) (Released ledger rest)
      else cleanup ledger = none)
    (next : Creates grants (prev ++ objs) objs' leaves' other)
    (prevApart : ∀ block ∈ prev, block ∉ objs) (nextApart : ∀ block ∈ objs', block ∉ objs) :
    Creates grants prev (objs ++ objs')
      (fun obj => if obj ∈ objs then if obj ∈ spine then some [] else none else leaves' obj)
      (Ledger.orGoto (fun ledger => some (forEach (take grants) objs ledger)) cleanup other) := by
  have firstMade {ledger : Ledger Obj} {rest : List Obj} (holds : ledger.Holds [] rest)
      (unwritten : ∀ obj ∈ objs, ledger.pointers obj = .junk)
      (granted : ∀ obj ∈ objs, grants obj = true) :
      Returns (some (forEach (take grants) objs ledger)) (AllMade [] objs rest ledger) :=
    (loop nodup).made holds unwritten granted
  refine step firstMade next prevApart nextApart
    fun {ledger rest before after obj} holds unwritten refusedAt => ?_
  obtain rfl := refusedAt.split
  rcases forEach_take_stopped nodup (fun later mem => unwritten later (by simp [mem]))
    refusedAt.granted refusedAt.refused with ⟨result, returned, fail, stoppedAt, same⟩
  have kept (block : Obj) (mem : block ∈ prev) : result.2.pointers block = .block := by
    rw [same block (prevApart block mem)]
    exact holds.pointers block mem
  have early : result.2.StoppedAt (prev ++ before) obj after rest := by
    refine ⟨⟨fun block mem => ?_, ?_⟩, stoppedAt.null, stoppedAt.junk⟩
    · rcases List.mem_append.mp mem with inPrev | new
      · exact kept block inPrev
      · exact stoppedAt.pointers block new
    · refine stoppedAt.live.trans ((holds.live.append_left before).trans ?_)
      rw [← List.append_assoc]
      exact List.perm_append_comm.append_right rest
  have cleaned := exits rfl early
  simp only [Ledger.orGoto, returned, Option.bind_eq_bind, Option.bind_some, fail, reduceCtorEq,
    if_false]
  split_ifs at cleaned ⊢
  · rcases cleaned with ⟨last, returnedLast, released⟩
    simp only [returnedLast, Option.bind_some]
    refine .of_some ⟨rfl, released.live, fun block notMem => ?_⟩
    rw [List.mem_append, not_or] at notMem
    rw [released.pointers, same block notMem.1]
  · simp [cleaned, Exits]

end Creates

/-! ### Arrays of components -/

section Arrays

variable [DecidableEq Obj] {Item : Type*} {root : Item → Obj} {blocks : Item → List Obj}
  {items : List Item}

/-- `pointer = create();` -/
def assign (root : Obj) (create : Ledger Obj → Option (Ret × Ledger Obj)) (ledger : Ledger Obj) :
    Option (Ret × Ledger Obj) := do
  let (result, ledger) ← create ledger
  if result = .ok then some (.ok, ledger) else some (.fail, ledger.setNull root)

theorem assign_of_ok {result : Ret × Ledger Obj} (returned : create ledger = some result)
    (ok : result.1 = .ok) : assign obj create ledger = some result := by
  simp only [assign, returned, Option.bind_eq_bind, Option.bind_some, ok, if_true]
  rw [← ok]

theorem Tries.assign {obj : Obj} (tries : Tries grants [] objs create) (inside : obj ∈ objs) :
    Tries grants [] objs (assign obj create) where
  made {ledger rest} begun unwritten granted := by
    rcases tries.made begun unwritten granted with ⟨result, returned, made⟩
    exact ⟨result, assign_of_ok returned made.ok, made⟩
  stopped {ledger rest before after refused result} begun unwritten refusedAt returned := by
    rcases Option.bind_eq_some_iff.mp returned with ⟨⟨ret, next⟩, tried, assigned⟩
    rcases tries.stopped begun unwritten refusedAt tried with ⟨fail, same⟩
    simp only at fail same assigned
    rw [fail, if_neg (by simp)] at assigned
    rw [← Option.some.inj assigned]
    refine ⟨rfl, fun block notMem => ?_⟩
    rw [setNull_pointers_of_ne (ne_of_mem_of_not_mem inside notMem).symm, same block notMem]

/-- A loop that creates one item after another and stops at a null. -/
def createEach (root : Item → Obj) (create : Item → Ledger Obj → Option (Ret × Ledger Obj)) :
    List Item → Ledger Obj → Option (Ret × Ledger Obj)
  | [], ledger => some (.ok, ledger)
  | item :: items, ledger => do
      let (result, ledger) ← assign (root item) (create item) ledger
      if result = .ok then createEach root create items ledger else some (.fail, ledger)

/-- A loop that releases one item after another and stops at a null. -/
def releaseUntilNull (owner : Option Obj) (root : Item → Obj)
    (release : Item → Ledger Obj → Option (Ledger Obj)) :
    List Item → Ledger Obj → Option (Ledger Obj)
  | [], ledger => some ledger
  | item :: items, ledger => do
      if ← ledger.isSet owner (root item) then
        let ledger ← release item ledger
        releaseUntilNull owner root release items ledger
      else some ledger

/-- The loop has stopped at an item, whose pointer is null. -/
structure StoppedEach (root : Item → Obj) (blocks : Item → List Obj) (items : List Item)
    (rest : List Obj) (ledger : Ledger Obj) (result : Ret × Ledger Obj) : Prop where
  fail : result.1 = .fail
  stopped : ∃ done item later, items = done ++ item :: later ∧
    result.2.Holds (done.flatMap blocks) rest ∧ result.2.pointers (root item) = .null
  same : SameBut (items.flatMap blocks) ledger result.2

/-- The creation of an item is all or nothing. -/
abbrev CreatesItem (grants : Obj → Bool) (blocks : List Obj)
    (create : Ledger Obj → Option (Ret × Ledger Obj)) : Prop :=
  Creates grants [] blocks (fun _ => some []) create

theorem CreatesItem.assign_made (creates : CreatesItem grants objs create) (obj : Obj)
    (begun : ledger.Holds [] rest) (unwritten : ∀ obj ∈ objs, ledger.pointers obj = .junk)
    (granted : ∀ obj ∈ objs, grants obj = true) :
    Returns (assign obj create ledger) (AllMade [] objs rest ledger) := by
  rcases creates.made begun unwritten granted with ⟨result, returned, made⟩
  exact ⟨result, assign_of_ok returned made.ok, made⟩

theorem CreatesItem.assign_stopped (creates : CreatesItem grants objs create) (obj : Obj)
    (inside : obj ∈ objs) (begun : ledger.Holds [] rest)
    (unwritten : ∀ obj ∈ objs, ledger.pointers obj = .junk) {refused : Obj}
    (refusedAt : RefusedAt grants objs before refused after) :
    Returns (assign obj create ledger) fun result =>
      GaveUp objs [] rest ledger result ∧ result.2.pointers obj = .null := by
  rcases creates.stopped begun unwritten refusedAt with ⟨result, returned, gaveUp⟩
  simp only [assign, returned, Option.bind_eq_bind, Option.bind_some, gaveUp.fail, reduceCtorEq,
    if_false]
  refine .of_some ⟨⟨rfl, gaveUp.live, fun other notMem => ?_⟩, setNull_pointers_self⟩
  rw [setNull_pointers_of_ne (ne_of_mem_of_not_mem inside notMem).symm, gaveUp.same other notMem]

variable {createItem : Item → Ledger Obj → Option (Ret × Ledger Obj)}

theorem createEach_made
    (creates : ∀ item ∈ items, CreatesItem grants (blocks item) (createItem item))
    (nodup : (items.flatMap blocks).Nodup) (begun : ledger.Holds [] rest)
    (unwritten : ∀ obj ∈ items.flatMap blocks, ledger.pointers obj = .junk)
    (granted : ∀ obj ∈ items.flatMap blocks, grants obj = true) :
    Returns (createEach root createItem items ledger)
      (AllMade [] (items.flatMap blocks) rest ledger) := by
  induction items generalizing ledger rest with
  | nil => exact .of_some ⟨rfl, begun, fun _ _ => rfl⟩
  | cons item items ih =>
      rw [List.flatMap_cons] at unwritten granted nodup ⊢
      rw [List.nodup_append] at nodup
      have apart (obj : Obj) (mem : obj ∈ blocks item) : obj ∉ items.flatMap blocks :=
        fun late => nodup.2.2 obj mem obj late rfl
      rcases (creates item (by simp)).assign_made (root item) begun
        (fun obj mem => unwritten obj (List.mem_append_left _ mem))
        (fun obj mem => granted obj (List.mem_append_left _ mem)) with ⟨result, returned, made⟩
      have begunNext : result.2.Holds [] (blocks item ++ rest) := ⟨by simp, made.holds.live⟩
      have onward := ih (fun other mem => creates other (by simp [mem])) nodup.2.1 begunNext
        (fun obj mem => by
          rw [made.same obj fun early => apart obj early mem]
          exact unwritten obj (List.mem_append_right _ mem))
        fun obj mem => granted obj (List.mem_append_right _ mem)
      simp only [createEach, returned, Option.bind_eq_bind, Option.bind_some, made.ok, if_true]
      have itemHolds : result.2.Holds (blocks item) rest := made.holds
      refine onward.imp fun last all => ⟨all.ok, ?_, fun obj notMem => ?_⟩
      · rw [List.nil_append]
        exact itemHolds.afterMade all apart
      · rw [List.mem_append, not_or] at notMem
        rw [all.same obj notMem.2, made.same obj notMem.1]

theorem createEach_stopped
    (creates : ∀ item ∈ items, CreatesItem grants (blocks item) (createItem item))
    (rooted : ∀ item ∈ items, root item ∈ blocks item) (nodup : (items.flatMap blocks).Nodup)
    (begun : ledger.Holds [] rest)
    (unwritten : ∀ obj ∈ items.flatMap blocks, ledger.pointers obj = .junk)
    (refusedAt : RefusedAt grants (items.flatMap blocks) before obj after) :
    Returns (createEach root createItem items ledger)
      (StoppedEach root blocks items rest ledger) := by
  induction items generalizing ledger rest before with
  | nil => simpa using refusedAt.split
  | cons item items ih =>
      rw [List.flatMap_cons] at unwritten refusedAt nodup
      rw [List.nodup_append] at nodup
      have apart (obj : Obj) (mem : obj ∈ blocks item) : obj ∉ items.flatMap blocks :=
        fun late => nodup.2.2 obj mem obj late rfl
      have unwrittenItem (obj : Obj) (mem : obj ∈ blocks item) : ledger.pointers obj = .junk :=
        unwritten obj (List.mem_append_left _ mem)
      rcases refusedAt.append with ⟨after, isEarly⟩ | ⟨granted, before, isLate⟩
      · rcases (creates item (by simp)).assign_stopped (root item) (rooted item (by simp)) begun
          unwrittenItem isEarly with ⟨result, returned, gaveUp, null⟩
        simp only [createEach, returned, Option.bind_eq_bind, Option.bind_some, gaveUp.fail,
          reduceCtorEq, if_false]
        refine .of_some ⟨rfl, ⟨[], item, items, rfl, ⟨by simp, gaveUp.live⟩, null⟩,
          fun other notMem => ?_⟩
        rw [List.flatMap_cons, List.mem_append, not_or] at notMem
        exact gaveUp.same other notMem.1
      · rcases (creates item (by simp)).assign_made (root item) begun unwrittenItem granted with
          ⟨result, returned, made⟩
        have begunNext : result.2.Holds [] (blocks item ++ rest) := ⟨by simp, made.holds.live⟩
        have onward := ih (fun other mem => creates other (by simp [mem]))
          (fun other mem => rooted other (by simp [mem])) nodup.2.1 begunNext
          (fun obj mem => by
            rw [made.same obj fun early => apart obj early mem]
            exact unwritten obj (List.mem_append_right _ mem)) isLate
        simp only [createEach, returned, Option.bind_eq_bind, Option.bind_some, made.ok, if_true]
        refine onward.imp fun last stopped => ?_
        rcases stopped.stopped with ⟨done, broken, later, split, holds, null⟩
        refine ⟨stopped.fail, ⟨item :: done, broken, later, by rw [split]; rfl, ⟨?_, ?_⟩, null⟩,
          fun other notMem => ?_⟩
        · intro block mem
          rw [List.flatMap_cons, List.mem_append] at mem
          rcases mem with early | late
          · rw [stopped.same block (apart block early)]
            exact made.holds.pointers block early
          · exact holds.pointers block late
        · rw [List.flatMap_cons, List.append_assoc]
          refine holds.live.trans ?_
          rw [← List.append_assoc, ← List.append_assoc]
          exact List.perm_append_comm.append_right rest
        · rw [List.flatMap_cons, List.mem_append, not_or] at notMem
          rw [stopped.same other notMem.2, made.same other notMem.1]

/-- What is there of an array is released, whether all items are there or only the first ones. -/
theorem releaseUntilNull_spec {releaseItem : Item → Ledger Obj → Option (Ledger Obj)}
    {done later : List Item}
    (frees : ∀ item ∈ done, Frees owner (blocks item) [] (releaseItem item))
    (rooted : ∀ item ∈ done, root item ∈ blocks item)
    (ends : ∀ item ∈ later.head?, ledger.pointers (root item) = .null)
    (holds : ledger.Holds (done.flatMap blocks) rest) (owned : ∀ block ∈ owner, block ∈ rest) :
    Returns (releaseUntilNull owner root releaseItem (done ++ later) ledger)
      (Released ledger rest) := by
  induction done generalizing ledger with
  | nil =>
      rcases later with _ | ⟨item, later⟩
      · exact .of_some ⟨rfl, holds.live⟩
      · have null := ends item (by simp)
        have set : ledger.isSet owner (root item) = some false := by
          rw [isSet_of_owned (holds.owned owned), null]
        simp only [List.nil_append, releaseUntilNull, set, Option.bind_eq_bind, Option.bind_some,
          Bool.false_eq_true, if_false]
        exact .of_some ⟨rfl, holds.live⟩
  | cons item done ih =>
      rw [List.flatMap_cons] at holds
      have set : ledger.isSet owner (root item) = some true := by
        rw [isSet_of_owned (holds.owned owned),
          holds.pointers _ (List.mem_append_left _ (rooted item (by simp)))]
      simp only [List.cons_append, releaseUntilNull, set, Option.bind_eq_bind, Option.bind_some,
        if_true]
      refine ((frees item (by simp)).returns holds.left fun block mem => by
        simp [owned block mem]).bind fun between released => ?_
      have endsNext (other : Item) (mem : other ∈ later.head?) :
          between.pointers (root other) = .null := by
        rw [released.pointers]
        exact ends other mem
      refine (ih (fun other mem => frees other (by simp [mem]))
        (fun other mem => rooted other (by simp [mem])) endsNext
        (holds.right released)).imp fun last freed => ?_
      exact ⟨freed.pointers.trans released.pointers, freed.live⟩

/-- The array is freed with those of its items that are there. -/
theorem freeIfSet_stopped {releaseItem : Item → Ledger Obj → Option (Ledger Obj)} {array : Obj}
    {done later : List Item} {item : Item}
    (frees : ∀ item ∈ done, Frees (some array) (blocks item) [] (releaseItem item))
    (rooted : ∀ item ∈ done, root item ∈ blocks item)
    (ends : ledger.pointers (root item) = .null)
    (holds : ledger.Holds (array :: done.flatMap blocks) rest)
    (owned : ∀ block ∈ owner, block ∈ rest) :
    Returns (freeIfSet owner array
      (releaseUntilNull (some array) root releaseItem (done ++ item :: later)) ledger)
      (Released ledger rest) := by
  have inner : Returns
      (releaseUntilNull (some array) root releaseItem (done ++ item :: later) ledger)
      (Released ledger ([] ++ array :: rest)) :=
    releaseUntilNull_spec frees rooted (by simpa using ends) holds.tail (by simp)
  exact freeIfSet_of_block holds owned inner

/-- An array of which all items are there. -/
theorem Frees.untilNull {releaseItem : Item → Ledger Obj → Option (Ledger Obj)}
    (frees : ∀ item ∈ items, Frees owner (blocks item) [] (releaseItem item))
    (rooted : ∀ item ∈ items, root item ∈ blocks item) :
    Frees owner (items.flatMap blocks) [] (releaseUntilNull owner root releaseItem items) := by
  refine ⟨fun {ledger rest} holds owned => ?_⟩
  rw [← List.append_nil items]
  exact releaseUntilNull_spec frees rooted (by simp) holds owned

/-- A loop over an array of components, whose error exit releases those that are there. -/
theorem Creates.array {cleanup : Ledger Obj → Option (Ledger Obj)}
    (creates : ∀ item ∈ items, CreatesItem grants (blocks item) (createItem item))
    (rooted : ∀ item ∈ items, root item ∈ blocks item) (nodup : (items.flatMap blocks).Nodup)
    (exits : ∀ {ledger : Ledger Obj} {rest : List Obj} {done later : List Item} {item : Item},
      items = done ++ item :: later → ledger.Holds (prev ++ done.flatMap blocks) rest →
      ledger.pointers (root item) = .null → Returns (cleanup ledger) (Released ledger rest))
    (next : Creates grants (prev ++ items.flatMap blocks) objs' leaves' other)
    (prevApart : ∀ block ∈ prev, block ∉ items.flatMap blocks)
    (nextApart : ∀ block ∈ objs', block ∉ items.flatMap blocks) :
    Creates grants prev (items.flatMap blocks ++ objs')
      (fun obj => if obj ∈ items.flatMap blocks then some [] else leaves' obj)
      (Ledger.orGoto (createEach root createItem items) cleanup other) := by
  refine step (createEach_made creates nodup) next prevApart nextApart
    fun {ledger rest before after obj} holds unwritten refusedAt => ?_
  have begun : ledger.Holds [] (prev ++ rest) := ⟨by simp, holds.live⟩
  rcases createEach_stopped creates rooted nodup begun
    (fun obj mem => unwritten obj (List.mem_append_left _ mem)) refusedAt with
    ⟨result, returned, stopped⟩
  rcases stopped.stopped with ⟨done, item, later, split, holdsDone, null⟩
  have early : result.2.Holds (prev ++ done.flatMap blocks) rest := by
    refine ⟨fun block mem => ?_, holdsDone.live.trans ?_⟩
    · rcases List.mem_append.mp mem with inPrev | new
      · rw [stopped.same block (prevApart block inPrev)]
        exact holds.pointers block inPrev
      · exact holdsDone.pointers block new
    · rw [← List.append_assoc]
      exact List.perm_append_comm.append_right rest
  rcases exits split early null with ⟨last, cleaned, released⟩
  simp only [Exits, Ledger.orGoto, returned, Option.bind_eq_bind, Option.bind_some, stopped.fail,
    reduceCtorEq, if_false, cleaned]
  refine .of_some ⟨rfl, released.live, fun block notMem => ?_⟩
  rw [List.mem_append, not_or] at notMem
  rw [released.pointers, stopped.same block notMem.1]

end Arrays

end Ledger

end FlashBench
