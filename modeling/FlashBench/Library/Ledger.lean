import Mathlib.Data.List.Nodup
import Mathlib.Data.List.Perm.Basic
import FlashBench.Library.Loop

/-!
# Blocks, the pointers to them, and their release

Every block that a component allocates has one pointer to it, which is a variable or a
field of another block. A pointer that was never written holds anything, so code that
tests it has no defined meaning, nor has code that reads a field of a block that is gone
or frees it once more.

Components allocate their blocks one after another and have one routine that releases
them all. When such a routine also runs after an allocation has failed, it is defined
exactly when the pointer that failed is the last that it tests.
-/

namespace FlashBench

/-- What a pointer holds: anything, null, or the address of its block. -/
inductive Pointer where
  | junk
  | null
  | block
  deriving DecidableEq

/-- The pointers to all blocks, and the blocks that are allocated. -/
structure Ledger (Obj : Type) where
  pointers : Obj → Pointer
  live : List Obj

namespace Ledger

variable {Obj : Type} [DecidableEq Obj]

/-- A block has been allocated and its address stored. -/
def given (obj : Obj) (ledger : Ledger Obj) : Ledger Obj where
  pointers := Function.update ledger.pointers obj .block
  live := obj :: ledger.live

/-- Null has been stored. -/
def setNull (obj : Obj) (ledger : Ledger Obj) : Ledger Obj :=
  { ledger with pointers := Function.update ledger.pointers obj .null }

/-- Ask for a block and store what comes back. -/
def take (grants : Obj → Bool) (obj : Obj) (ledger : Ledger Obj) : Ret × Ledger Obj :=
  if grants obj then (.ok, ledger.given obj) else (.fail, ledger.setNull obj)

/-- Test a pointer, a field of the owner where there is one. -/
def isSet (owner : Option Obj) (obj : Obj) (ledger : Ledger Obj) : Option Bool :=
  if ∀ block ∈ owner, block ∈ ledger.live then
    match ledger.pointers obj with
    | .junk => none
    | .null => some false
    | .block => some true
  else none

/-- Free a block. -/
def free (obj : Obj) (ledger : Ledger Obj) : Option (Ledger Obj) :=
  if obj ∈ ledger.live then some { ledger with live := ledger.live.erase obj } else none

/-- `if (pointer) { ...; free(pointer); }` -/
def freeIfSet (owner : Option Obj) (obj : Obj) (inner : Ledger Obj → Option (Ledger Obj))
    (ledger : Ledger Obj) : Option (Ledger Obj) := do
  if ← ledger.isSet owner obj then
    let ledger ← inner ledger
    ledger.free obj
  else some ledger

/-- A loop that releases one item after another. -/
def releaseEach {Item : Type*} (release : Item → Ledger Obj → Option (Ledger Obj)) :
    List Item → Ledger Obj → Option (Ledger Obj)
  | [], ledger => some ledger
  | item :: items, ledger => do
      let ledger ← release item ledger
      releaseEach release items ledger

/-- A row of `if (pointer) { free(pointer); }`. -/
def freeFields (owner : Obj) : List Obj → Ledger Obj → Option (Ledger Obj) :=
  releaseEach fun obj => freeIfSet (some owner) obj some

variable {grants : Obj → Bool} {ledger next : Ledger Obj} {owner : Option Obj}
  {objs spine before after rest : List Obj} {obj : Obj}

section Updates

variable {other : Obj}

@[simp]
theorem given_pointers_self : (ledger.given obj).pointers obj = .block := Function.update_self _ _ _

theorem given_pointers_of_ne (different : other ≠ obj) :
    (ledger.given obj).pointers other = ledger.pointers other := Function.update_of_ne different _ _

@[simp]
theorem setNull_pointers_self : (ledger.setNull obj).pointers obj = .null :=
  Function.update_self _ _ _

theorem setNull_pointers_of_ne (different : other ≠ obj) :
    (ledger.setNull obj).pointers other = ledger.pointers other :=
  Function.update_of_ne different _ _

theorem take_of_granted (granted : grants obj = true) :
    take grants obj ledger = (.ok, ledger.given obj) := if_pos granted

theorem take_of_refused (isRefused : grants obj = false) :
    take grants obj ledger = (.fail, ledger.setNull obj) := by
  simp [take, isRefused]

end Updates

/-! ### Allocations in a row -/

/-- All blocks of a list have been allocated, and others as well. -/
structure Holds (ledger : Ledger Obj) (objs rest : List Obj) : Prop where
  pointers : ∀ obj ∈ objs, ledger.pointers obj = .block
  live : ledger.live.Perm (objs ++ rest)

/-- The allocation of a list of blocks has stopped at a block that was refused. -/
structure StoppedAt (ledger : Ledger Obj) (before : List Obj) (obj : Obj) (after rest : List Obj) :
    Prop extends Holds ledger before rest where
  null : ledger.pointers obj = .null
  junk : ∀ later ∈ after, ledger.pointers later = .junk

/-- Only the pointers to these blocks have changed. -/
def SameBut (objs : List Obj) (ledger next : Ledger Obj) : Prop :=
  ∀ obj ∉ objs, next.pointers obj = ledger.pointers obj

/-- A loop of allocations that are all granted. -/
theorem forEach_take (nodup : objs.Nodup) (granted : ∀ obj ∈ objs, grants obj = true) :
    Returns (some (forEach (take grants) objs ledger)) fun result =>
      result.1 = .ok ∧ result.2.Holds objs ledger.live ∧ SameBut objs ledger result.2 := by
  induction objs generalizing ledger with
  | nil => exact .of_some ⟨rfl, ⟨by simp, .refl _⟩, fun _ _ => rfl⟩
  | cons obj objs ih =>
      rw [List.nodup_cons] at nodup
      rw [List.forall_mem_cons] at granted
      rw [forEach_cons, take_of_granted granted.1]
      refine (ih nodup.2 granted.2).imp fun result onward => ?_
      rcases onward with ⟨ok, holds, same⟩
      refine ⟨ok, ⟨List.forall_mem_cons.mpr ⟨?_, holds.pointers⟩,
        holds.live.trans List.perm_middle⟩, fun other notMem => ?_⟩
      · exact (same obj nodup.1).trans given_pointers_self
      · rw [List.mem_cons, not_or] at notMem
        exact (same other notMem.2).trans (given_pointers_of_ne notMem.1)

/-- A loop of allocations that stops at the first one refused. -/
theorem forEach_take_stopped (nodup : (before ++ obj :: after).Nodup)
    (unwritten : ∀ later ∈ after, ledger.pointers later = .junk)
    (granted : ∀ other ∈ before, grants other = true) (isRefused : grants obj = false) :
    Returns (some (forEach (take grants) (before ++ obj :: after) ledger)) fun result =>
      result.1 = .fail ∧ result.2.StoppedAt before obj after ledger.live ∧
        SameBut (before ++ obj :: after) ledger result.2 := by
  rw [List.nodup_append, List.nodup_cons] at nodup
  rcases nodup with ⟨nodup, ⟨notAfter, _⟩, apart⟩
  have first : Returns (some (forEach (take grants) before ledger)) fun result =>
      result.1 = .ok ∧ result.2.Holds before ledger.live ∧ SameBut before ledger result.2 :=
    forEach_take nodup granted
  rcases first with ⟨result, returned, ok, holds, same⟩
  have later (other : Obj) (mem : other ∈ obj :: after) : other ∉ before :=
    fun early => apart other early other mem rfl
  have different (other : Obj) (mem : other ∈ before ∨ other ∈ after) : other ≠ obj := by
    rintro rfl
    rcases mem with early | late
    · exact later other (by simp) early
    · exact notAfter late
  have stops : forEach (take grants) (before ++ obj :: after) ledger =
      (.fail, result.2.setNull obj) := by
    rw [forEach_append, Option.some.inj returned, andThen_of_ok ok, forEach_cons,
      take_of_refused isRefused]
    rfl
  rw [stops]
  refine .of_some ⟨rfl, ⟨⟨fun other mem => ?_, holds.live⟩, setNull_pointers_self,
    fun other mem => ?_⟩, fun other notMem => ?_⟩
  · rw [setNull_pointers_of_ne (different other (Or.inl mem))]
    exact holds.pointers other mem
  · rw [setNull_pointers_of_ne (different other (Or.inr mem)),
      same other (later other (by simp [mem]))]
    exact unwritten other mem
  · rw [List.mem_append, List.mem_cons, not_or, not_or] at notMem
    rw [setNull_pointers_of_ne notMem.2.1, same other notMem.1]

omit [DecidableEq Obj] in
/-- The parts of a list have no block in common when every block tells the part it is in. -/
theorem nodup_of_keys {Item : Type*} {items : List Item} {blocks : Item → List Obj}
    {key : Obj → Option Item} (nodup : items.Nodup) (each : ∀ item ∈ items, (blocks item).Nodup)
    (keyed : ∀ item ∈ items, ∀ obj ∈ blocks item, key obj = some item) :
    (items.flatMap blocks).Nodup := by
  refine List.nodup_flatMap.mpr ⟨each, nodup.imp_of_mem ?_⟩
  intro left right leftMem rightMem different obj inLeft inRight
  have same := (keyed left leftMem obj inLeft).symm.trans (keyed right rightMem obj inRight)
  exact different (Option.some.inj same)

/-! ### Releasing them -/

/-- The blocks are gone and the others are there. -/
structure Released (ledger : Ledger Obj) (rest : List Obj) (next : Ledger Obj) : Prop where
  pointers : next.pointers = ledger.pointers
  live : next.live.Perm rest

/-- The code releases the blocks of the list. After an allocation that was refused it does so
when the block is one of `spine`, and otherwise tests a pointer that was never written. -/
structure Releases (owner : Option Obj) (objs spine : List Obj)
    (release : Ledger Obj → Option (Ledger Obj)) : Prop where
  unwritten : ∀ {ledger : Ledger Obj} {obj : Obj}, objs.head? = some obj →
    ledger.pointers obj = .junk → release ledger = none
  made : ∀ {ledger : Ledger Obj} {rest : List Obj}, ledger.Holds objs rest →
    (∀ block ∈ owner, block ∈ rest) → Returns (release ledger) (Released ledger rest)
  stopped : ∀ {ledger : Ledger Obj} {before after rest : List Obj} {obj : Obj},
    objs = before ++ obj :: after → ledger.StoppedAt before obj after rest →
    (∀ block ∈ owner, block ∈ rest) →
    if obj ∈ spine then Returns (release ledger) (Released ledger rest) else release ledger = none

theorem isSet_of_owned (owned : ∀ block ∈ owner, block ∈ ledger.live) :
    ledger.isSet owner obj = match ledger.pointers obj with
      | .junk => none
      | .null => some false
      | .block => some true :=
  if_pos owned

theorem isSet_of_junk (junk : ledger.pointers obj = .junk) : ledger.isSet owner obj = none := by
  unfold isSet
  split_ifs <;> simp [junk]

omit [DecidableEq Obj] in
theorem Holds.owned (holds : ledger.Holds objs rest) (inRest : ∀ block ∈ owner, block ∈ rest) :
    ∀ block ∈ owner, block ∈ ledger.live := fun block mem =>
  holds.live.mem_iff.mpr (List.mem_append_right _ (inRest block mem))

/-- The last block is freed. -/
theorem Released.free (released : Released ledger (obj :: rest) next) :
    Returns (next.free obj) (Released ledger rest) := by
  have mem : obj ∈ next.live := released.live.mem_iff.mpr List.mem_cons_self
  refine ⟨{ next with live := next.live.erase obj }, if_pos mem, released.pointers, ?_⟩
  have erased := released.live.erase obj
  rwa [List.erase_cons_head] at erased

/-- The spine of the last item. -/
def lastSpine {Item : Type*} (spines : Item → List Obj) (items : List Item) : List Obj :=
  items.getLast?.elim [] spines

omit [DecidableEq Obj] in
theorem lastSpine_subset {Item : Type*} {spines blocks : Item → List Obj}
    (inside : ∀ item, spines item ⊆ blocks item) (items : List Item) :
    lastSpine spines items ⊆ items.flatMap blocks := by
  intro obj mem
  unfold lastSpine at mem
  rcases last : items.getLast? with _ | item
  · simp [last] at mem
  · rw [last] at mem
    exact List.mem_flatMap.mpr ⟨item, List.mem_of_getLast? last, inside item mem⟩

omit [DecidableEq Obj] in
theorem lastSpine_range {Item : Type*} {spines : Item → List Obj} {item : ℕ → Item} {n : ℕ}
    (pos : 0 < n) : lastSpine spines ((List.range n).map item) = spines (item (n - 1)) := by
  obtain ⟨last, rfl⟩ : ∃ last, n = last + 1 := ⟨n - 1, by omega⟩
  simp [lastSpine, List.range_succ]

namespace Releases

variable {release other : Ledger Obj → Option (Ledger Obj)} {objs' spine' : List Obj}

theorem nothing : Releases owner [] [] (some : Ledger Obj → Option (Ledger Obj)) where
  unwritten isHead := by simp at isHead
  made holds _ := .of_some ⟨rfl, holds.live⟩
  stopped split := by simp at split

/-- A block whose fields point to the blocks of a list. -/
theorem node (inner : Releases (some obj) objs spine release) (fresh : obj ∉ objs) :
    Releases owner (obj :: objs) (obj :: spine) (freeIfSet owner obj release) where
  unwritten isHead junk := by
    simp only [List.head?_cons, Option.some.injEq] at isHead
    subst isHead
    simp [freeIfSet, isSet_of_junk junk]
  made {ledger rest} holds owned := by
    have set : ledger.isSet owner obj = some true := by
      rw [isSet_of_owned (holds.owned owned), holds.pointers obj (by simp)]
    have parts : ledger.Holds objs (obj :: rest) :=
      ⟨fun block mem => holds.pointers block (by simp [mem]),
        holds.live.trans List.perm_middle.symm⟩
    simp only [freeIfSet, set, Option.bind_eq_bind, Option.bind_some, if_true]
    exact (inner.made parts (by simp)).bind fun next released => released.free
  stopped {ledger before after rest last} split stoppedAt owned := by
    rcases before with _ | ⟨first, before⟩
    · simp only [List.nil_append, List.cons.injEq] at split
      rcases split with ⟨rfl, _⟩
      have set : ledger.isSet owner obj = some false := by
        rw [isSet_of_owned (stoppedAt.owned owned), stoppedAt.null]
      simp only [List.mem_cons_self, if_true, freeIfSet, set, Option.bind_eq_bind,
        Option.bind_some, Bool.false_eq_true, if_false]
      exact .of_some ⟨rfl, stoppedAt.live⟩
    · simp only [List.cons_append, List.cons.injEq] at split
      rcases split with ⟨rfl, split⟩
      have different : last ≠ obj := by
        rintro rfl
        exact fresh (by simp [split])
      have set : ledger.isSet owner obj = some true := by
        rw [isSet_of_owned (stoppedAt.owned owned), stoppedAt.pointers obj (by simp)]
      have parts : ledger.StoppedAt before last after (obj :: rest) :=
        ⟨⟨fun block mem => stoppedAt.pointers block (by simp [mem]),
          stoppedAt.live.trans List.perm_middle.symm⟩, stoppedAt.null, stoppedAt.junk⟩
      have within := inner.stopped split parts (by simp)
      simp only [List.mem_cons, different, false_or, freeIfSet, set, Option.bind_eq_bind,
        Option.bind_some, if_true]
      split_ifs at within ⊢
      · exact within.bind fun next released => released.free
      · rw [within, Option.bind_none]

/-- One release after the other: when the first one stops early, the second one comes to a pointer
that was never written. -/
theorem seq (first : Releases owner objs spine release) (second : Releases owner objs' spine' other)
    (nonempty : objs ≠ []) (nonempty' : objs' ≠ []) (apart : ∀ obj ∈ objs, obj ∉ spine') :
    Releases owner (objs ++ objs') spine' fun ledger => release ledger >>= other where
  unwritten isHead junk := by
    rw [List.head?_append_of_ne_nil _ nonempty] at isHead
    rw [first.unwritten isHead junk]
    rfl
  made {ledger rest} holds owned := by
    have parts : ledger.Holds objs (objs' ++ rest) :=
      ⟨fun block mem => holds.pointers block (by simp [mem]), by
        rw [← List.append_assoc]
        exact holds.live⟩
    refine (first.made parts fun block mem => by simp [owned block mem]).bind
      fun next released => ?_
    have left : next.Holds objs' rest := ⟨fun block mem => by
      rw [released.pointers]
      exact holds.pointers block (by simp [mem]), released.live⟩
    refine (second.made left owned).imp fun last done => ?_
    exact ⟨done.pointers.trans released.pointers, done.live⟩
  stopped {ledger before after rest last} split stoppedAt owned := by
    have behind (tail : List Obj) (isBefore : before = objs ++ tail)
        (others : objs' = tail ++ last :: after) :
        if last ∈ spine' then Returns (release ledger >>= other) (Released ledger rest)
        else (release ledger >>= other) = none := by
      subst isBefore
      have parts : ledger.Holds objs (tail ++ rest) :=
        ⟨fun block mem => stoppedAt.pointers block (by simp [mem]), by
          rw [← List.append_assoc]
          exact stoppedAt.live⟩
      rcases first.made parts fun block mem => by simp [owned block mem] with
        ⟨next, returned, released⟩
      have left : next.StoppedAt tail last after rest := by
        refine ⟨⟨fun block mem => ?_, released.live⟩, ?_, fun later mem => ?_⟩
        · rw [released.pointers]
          exact stoppedAt.pointers block (by simp [mem])
        · rw [released.pointers, stoppedAt.null]
        · rw [released.pointers, stoppedAt.junk later mem]
      have onward := second.stopped others left owned
      rw [returned, Option.bind_eq_bind, Option.bind_some]
      split_ifs at onward ⊢
      · exact onward.imp fun final done => ⟨done.pointers.trans released.pointers, done.live⟩
      · exact onward
    rcases List.append_eq_append_iff.mp split with ⟨tail, isBefore, split⟩ | ⟨tail, early, split⟩
    · exact behind tail isBefore split
    · rcases tail with _ | ⟨head, tail⟩
      · exact behind [] (by simpa using early.symm) split.symm
      · simp only [List.cons_append, List.cons.injEq] at split
        rcases split with ⟨rfl, rfl⟩
        have parts : ledger.StoppedAt before last tail rest :=
          ⟨stoppedAt.toHolds, stoppedAt.null, fun later mem => stoppedAt.junk later (by simp [mem])⟩
        rcases objs' with _ | ⟨unset, objs'⟩
        · exact absurd rfl nonempty'
        have junk : ledger.pointers unset = .junk := stoppedAt.junk unset (by simp)
        have within := first.stopped early parts owned
        rw [if_neg (apart last (by simp [early]))]
        split_ifs at within
        · rcases within with ⟨next, returned, released⟩
          rw [returned, Option.bind_eq_bind, Option.bind_some]
          exact second.unwritten rfl (by rw [released.pointers, junk])
        · rw [within]
          rfl

theorem each {Item : Type*} {body : Item → Ledger Obj → Option (Ledger Obj)}
    {blocks spines : Item → List Obj} {items : List Item}
    (one : ∀ item ∈ items, Releases owner (blocks item) (spines item) (body item))
    (nonempty : ∀ item ∈ items, blocks item ≠ []) (inside : ∀ item, spines item ⊆ blocks item)
    (nodup : (items.flatMap blocks).Nodup) :
    Releases owner (items.flatMap blocks) (lastSpine spines items) (releaseEach body items) := by
  induction items with
  | nil => exact nothing
  | cons item items ih =>
      have first := one item (by simp)
      rcases items with _ | ⟨second, items⟩
      · have single : releaseEach body [item] = body item := by
          funext ledger
          simp [releaseEach]
        rw [single, List.flatMap_singleton]
        exact first
      · rw [List.flatMap_cons, List.nodup_append] at nodup
        have onward := ih (fun other mem => one other (by simp [mem]))
          (fun other mem => nonempty other (by simp [mem])) nodup.2.1
        rw [List.flatMap_cons]
        refine first.seq onward (nonempty item (by simp)) ?_ fun obj mem inSpine => ?_
        · simpa using fun empty => absurd empty (nonempty second (by simp))
        · exact nodup.2.2 obj mem obj (lastSpine_subset inside _ inSpine) rfl

end Releases

end Ledger

end FlashBench
