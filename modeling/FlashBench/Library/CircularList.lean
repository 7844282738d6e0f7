import FlashBench.Library.Loop
import Mathlib.Data.List.Nodup

/-!
# Linked lists whose first node knows the last one

A list is kept in the `prev` and `next` pointers of its nodes and a pointer to its
first node. The last node has no next one, and the previous one of the first node is
the last one, so that a node is appended without a walk. Several lists can live in the
same pointers as long as they have no node in common.

Following a null pointer is the result `none`.
-/

namespace FlashBench

/-- The pointers of the nodes. -/
structure Links (Node : Type*) where
  prev : Node → Option Node
  next : Node → Option Node

namespace Links

variable {Node : Type*}

section Operations

variable [DecidableEq Node]

/-- Write the link of a node to its predecessor. -/
def setPrev (links : Links Node) (node : Node) (target : Option Node) : Links Node :=
  { links with prev := Function.update links.prev node target }

/-- Write the link of a node to its successor. -/
def setNext (links : Links Node) (node : Node) (target : Option Node) : Links Node :=
  { links with next := Function.update links.next node target }

@[simp] theorem setPrev_next (links : Links Node) (node : Node) (target : Option Node) :
    (links.setPrev node target).next = links.next := rfl

@[simp] theorem setNext_prev (links : Links Node) (node : Node) (target : Option Node) :
    (links.setNext node target).prev = links.prev := rfl

@[simp] theorem setPrev_prev (links : Links Node) (node : Node) (target : Option Node) :
    (links.setPrev node target).prev = Function.update links.prev node target := rfl

@[simp] theorem setNext_next (links : Links Node) (node : Node) (target : Option Node) :
    (links.setNext node target).next = Function.update links.next node target := rfl

/-- Append a node to the list with the given first node. -/
def append (links : Links Node) (head : Option Node) (add : Node) :
    Option (Option Node × Links Node) :=
  match head with
  | some first => do
      let links := links.setPrev add (links.prev first)
      let last ← links.prev first
      let links := links.setNext last (some add)
      let links := links.setPrev first (some add)
      some (some first, links.setNext add none)
  | none => some (some add, (links.setPrev add (some add)).setNext add none)

/-- Delete a node from the list with the given first node. -/
def delete (links : Links Node) (head : Option Node) (del : Node) :
    Option (Option Node × Links Node) :=
  if links.prev del = some del then some (none, links)
  else if head = some del then do
    let next ← links.next del
    some (links.next del, links.setPrev next (links.prev del))
  else do
    let prev ← links.prev del
    let links := links.setNext prev (links.next del)
    match links.next del with
    | some next => some (head, links.setPrev next (links.prev del))
    | none => do
        let first ← head
        some (head, links.setPrev first (links.prev del))

end Operations

/-- The pointers hold the list of these nodes. -/
structure Represents (links : Links Node) (head : Option Node) (nodes : List Node) : Prop where
  nodup : nodes.Nodup
  head_eq : head = nodes[0]?
  next_eq : ∀ i node, nodes[i]? = some node → links.next node = nodes[i + 1]?
  prev_eq : ∀ i node, nodes[i]? = some node →
    links.prev node = nodes[if i = 0 then nodes.length - 1 else i - 1]?

/-- Two states of the pointers agree on the nodes outside a list. -/
def AgreeOutside (links other : Links Node) (nodes : List Node) : Prop :=
  ∀ node ∉ nodes, other.prev node = links.prev node ∧ other.next node = links.next node

namespace Represents

variable {links other : Links Node} {head : Option Node} {nodes : List Node} {node : Node}

theorem nil (links : Links Node) : links.Represents none [] where
  nodup := List.nodup_nil
  head_eq := rfl
  next_eq i node at_ := by simp at at_
  prev_eq i node at_ := by simp at at_

/-- A list depends on the pointers of its own nodes only. -/
theorem congr (represents : links.Represents head nodes)
    (same : ∀ node ∈ nodes, other.prev node = links.prev node ∧ other.next node = links.next node) :
    other.Represents head nodes where
  nodup := represents.nodup
  head_eq := represents.head_eq
  next_eq i node at_ := by
    rw [(same node (List.mem_of_getElem? at_)).2]
    exact represents.next_eq i node at_
  prev_eq i node at_ := by
    rw [(same node (List.mem_of_getElem? at_)).1]
    exact represents.prev_eq i node at_

theorem index_eq (represents : links.Represents head nodes) {i j : ℕ}
    (at_i : nodes[i]? = some node) (at_j : nodes[j]? = some node) : i = j :=
  (List.getElem?_inj (List.getElem?_eq_some_iff.mp at_i).1 represents.nodup).mp
    (at_i.trans at_j.symm)

theorem ne_of_index (represents : links.Represents head nodes) {i j : ℕ} {left right : Node}
    (at_i : nodes[i]? = some left) (at_j : nodes[j]? = some right) (different : i ≠ j) :
    left ≠ right := by
  rintro rfl
  exact different (represents.index_eq at_i at_j)

theorem exists_last {first : Node} (represents : links.Represents (some first) nodes) :
    ∃ last, nodes[nodes.length - 1]? = some last ∧ links.prev first = some last := by
  have at_first := represents.head_eq.symm
  have inside := (List.getElem?_eq_some_iff.mp at_first).1
  have at_last := List.getElem?_eq_getElem (l := nodes) (i := nodes.length - 1) (by omega)
  exact ⟨_, at_last, (represents.prev_eq 0 first at_first).trans at_last⟩

/-- The only node of a list is its own previous one, and no node of a longer list is. -/
theorem prev_self_iff (represents : links.Represents head nodes) (mem : node ∈ nodes) :
    links.prev node = some node ↔ nodes.length = 1 := by
  rcases List.mem_iff_getElem?.mp mem with ⟨i, at_⟩
  have inside := (List.getElem?_eq_some_iff.mp at_).1
  rw [represents.prev_eq i node at_]
  constructor
  · intro self
    have same := represents.index_eq self at_
    split_ifs at same with isFirst <;> omega
  · intro single
    have isFirst : i = 0 := by omega
    subst i
    simpa [single] using at_

variable [DecidableEq Node]

/-- Appending succeeds, and touches no node but those of the list and the new one. -/
theorem append (represents : links.Represents head nodes) {add : Node} (fresh : add ∉ nodes) :
    ∃ head' links', links.append head add = some (head', links') ∧
      links'.Represents head' (nodes ++ [add]) ∧ AgreeOutside links links' (add :: nodes) := by
  have notAdd {i : ℕ} {node : Node} (at_ : nodes[i]? = some node) : node ≠ add := by
    rintro rfl
    exact fresh (List.mem_of_getElem? at_)
  have nodup : (nodes ++ [add]).Nodup := by
    rw [List.nodup_append]
    exact ⟨represents.nodup, List.nodup_singleton add, fun node mem other isAdd same =>
      fresh (by rw [← List.mem_singleton.mp isAdd, ← same]; exact mem)⟩
  rcases head with _ | first
  · have empty : nodes = [] := by
      have none_ := represents.head_eq.symm
      rw [List.getElem?_eq_none_iff] at none_
      exact List.length_eq_zero_iff.mp (by omega)
    subst empty
    refine ⟨_, _, rfl, ⟨nodup, rfl, fun i node at_ => ?_, fun i node at_ => ?_⟩, fun node out => ?_⟩
    · rcases i with _ | i <;> simp at at_ ⊢
      subst at_
      simp
    · rcases i with _ | i <;> simp at at_ ⊢
      subst at_
      simp
    · simp only [List.mem_singleton] at out
      simp [Function.update_of_ne out]
  · rcases represents.exists_last with ⟨last, at_last, prev_first⟩
    have at_first := represents.head_eq.symm
    have inside := (List.getElem?_eq_some_iff.mp at_first).1
    have firstNew := notAdd at_first
    have lastNew := notAdd at_last
    have appended : links.append (some first) add = some (some first,
        (((links.setPrev add (some last)).setNext last (some add)).setPrev first (some add)).setNext
          add none) := by
      simp [Links.append, prev_first, Function.update_of_ne firstNew]
    refine ⟨_, _, appended, ⟨nodup, ?_, fun i node at_ => ?_, fun i node at_ => ?_⟩,
      fun node out => ?_⟩
    · rw [List.getElem?_append_left inside]
      exact at_first.symm
    · -- only the node that was the last one has a new next node
      rcases Nat.lt_trichotomy i nodes.length with before | rfl | after
      · rw [List.getElem?_append_left before] at at_
        simp only [setNext_next, setPrev_next, Function.update_of_ne (notAdd at_)]
        by_cases isLast : i + 1 = nodes.length
        · have same : node = last := by
            rw [show nodes.length - 1 = i by omega, at_] at at_last
            exact Option.some.inj at_last
          rw [same, Function.update_self, isLast, List.getElem?_concat_length]
        · rw [Function.update_of_ne (represents.ne_of_index at_ at_last (by omega)),
            List.getElem?_append_left (by omega)]
          exact represents.next_eq i node at_
      · rw [List.getElem?_concat_length, Option.some.injEq] at at_
        subst at_
        simp
      · rw [List.getElem?_eq_none (by simp; omega)] at at_
        simp at at_
    · rcases Nat.lt_trichotomy i nodes.length with before | rfl | after
      · rw [List.getElem?_append_left before] at at_
        simp only [setNext_prev, setPrev_prev]
        by_cases isFirst : i = 0
        · subst i
          have same : node = first := Option.some.inj (at_.symm.trans at_first)
          rw [same, Function.update_self, if_pos rfl, List.length_append, List.length_singleton,
            Nat.add_sub_cancel, List.getElem?_concat_length]
        · rw [Function.update_of_ne (represents.ne_of_index at_ at_first isFirst),
            Function.update_of_ne (notAdd at_), if_neg isFirst,
            List.getElem?_append_left (by omega), represents.prev_eq i node at_, if_neg isFirst]
      · rw [List.getElem?_concat_length, Option.some.injEq] at at_
        subst at_
        simp only [setNext_prev, setPrev_prev]
        rw [Function.update_of_ne firstNew.symm, Function.update_self, if_neg (by omega),
          List.getElem?_append_left (by omega)]
        exact at_last.symm
      · rw [List.getElem?_eq_none (by simp; omega)] at at_
        simp at at_
    · simp only [List.mem_cons, not_or] at out
      have notFirst : node ≠ first := fun same => out.2 (same ▸ List.mem_of_getElem? at_first)
      have notLast : node ≠ last := fun same => out.2 (same ▸ List.mem_of_getElem? at_last)
      simp [Function.update_of_ne notFirst, Function.update_of_ne notLast,
        Function.update_of_ne out.1]

/-- Deleting a node of the list succeeds, and touches no node outside the list. -/
theorem delete (represents : links.Represents head nodes) {del : Node} (mem : del ∈ nodes) :
    ∃ head' links', links.delete head del = some (head', links') ∧
      links'.Represents head' (nodes.erase del) ∧ AgreeOutside links links' nodes := by
  rcases List.mem_iff_getElem.mp mem with ⟨k, k_lt, rfl⟩
  have at_del := List.getElem?_eq_getElem k_lt
  have erased : ∀ i, (nodes.erase nodes[k])[i]? = if i < k then nodes[i]? else nodes[i + 1]? := by
    intro i
    rw [represents.nodup.erase_getElem, List.getElem?_eraseIdx]
  have nodup := represents.nodup.erase nodes[k]
  have length : (nodes.erase nodes[k]).length = nodes.length - 1 := List.length_erase_of_mem mem
  generalize nodes[k] = del at *
  by_cases single : nodes.length = 1
  · have prev_self := (represents.prev_self_iff mem).mpr single
    have empty : nodes.erase del = [] := List.length_eq_zero_iff.mp (by omega)
    refine ⟨none, links, by simp [Links.delete, prev_self], ?_, fun node _ => ⟨rfl, rfl⟩⟩
    rw [empty]
    exact nil links
  have notSelf := mt (represents.prev_self_iff mem).mp single
  by_cases isHead : head = some del
  · -- the second node becomes the first one and takes over the pointer to the last one
    have at_first : nodes[0]? = some del := represents.head_eq.symm.trans isHead
    obtain rfl : k = 0 := represents.index_eq at_del at_first
    have at_second := List.getElem?_eq_getElem (l := nodes) (i := 1) (by omega)
    generalize nodes[1] = second at at_second
    have next_del : links.next del = some second := (represents.next_eq 0 del at_del).trans at_second
    refine ⟨some second, links.setPrev second (links.prev del),
      by simp [Links.delete, notSelf, isHead, next_del], ⟨nodup, ?_, fun i node at_ => ?_,
        fun i node at_ => ?_⟩, fun node out => ?_⟩
    · rw [erased, if_neg (by omega), at_second]
    · rw [erased, if_neg (by omega)] at at_
      rw [erased, if_neg (by omega)]
      exact represents.next_eq (i + 1) node at_
    · rw [erased, if_neg (by omega)] at at_
      rw [erased, if_neg (by omega), length, setPrev_prev]
      by_cases isSecond : i = 0
      · subst i
        obtain rfl : node = second := Option.some.inj (at_.symm.trans at_second)
        rw [Function.update_self, if_pos rfl, represents.prev_eq 0 del at_del, if_pos rfl]
        congr 1
        omega
      · rw [Function.update_of_ne (represents.ne_of_index at_ at_second (by omega)), if_neg isSecond,
          represents.prev_eq (i + 1) node at_, if_neg (by omega)]
        congr 1
        omega
    · have notSecond : node ≠ second := fun same => out (same ▸ List.mem_of_getElem? at_second)
      simp [Function.update_of_ne notSecond]
  · have notFirst : k ≠ 0 := by
      rintro rfl
      exact isHead (represents.head_eq.trans at_del)
    have at_left := List.getElem?_eq_getElem (l := nodes) (i := k - 1) (by omega)
    generalize nodes[k - 1] = left at at_left
    have prev_del : links.prev del = some left := by
      rw [represents.prev_eq k del at_del, if_neg notFirst]
      exact at_left
    have leftNotDel := represents.ne_of_index at_left at_del (by omega)
    have next_del := represents.next_eq k del at_del
    have at_head : head = nodes[0]? := represents.head_eq
    -- the node before the deleted one and the one after it, or the first one, are joined
    have joined {target : Node} {t : ℕ} (at_target : nodes[t]? = some target)
        (isTarget : t = if k + 1 = nodes.length then 0 else k + 1) :
        ((links.setNext left (links.next del)).setPrev target (some left)).Represents head
            (nodes.erase del) ∧
          AgreeOutside links ((links.setNext left (links.next del)).setPrev target (some left))
            nodes := by
      refine ⟨⟨nodup, ?_, fun i node at_ => ?_, fun i node at_ => ?_⟩, fun node out => ?_⟩
      · rw [erased, if_pos (by omega)]
        exact at_head
      · rw [erased] at at_ ⊢
        simp only [setPrev_next, setNext_next]
        by_cases isLeft : i = k - 1
        · rw [if_pos (by omega), isLeft] at at_
          obtain rfl : node = left := Option.some.inj (at_.symm.trans at_left)
          rw [Function.update_self, if_neg (by omega), next_del]
          congr 1
          omega
        · split_ifs at at_ with before
          · rw [Function.update_of_ne (represents.ne_of_index at_ at_left isLeft), if_pos (by omega)]
            exact represents.next_eq i node at_
          · rw [Function.update_of_ne (represents.ne_of_index at_ at_left (by omega)),
              if_neg (by omega)]
            exact represents.next_eq (i + 1) node at_
      · rw [erased] at at_
        rw [erased, length]
        simp only [setPrev_prev, setNext_prev]
        rcases Nat.lt_or_ge i k with before | after
        · rw [if_pos before] at at_
          by_cases isFirst : i = 0
          · by_cases isLast : k + 1 = nodes.length
            · rw [if_pos isLast] at isTarget
              subst isFirst isTarget
              obtain rfl : node = target := Option.some.inj (at_.symm.trans at_target)
              rw [Function.update_self, if_pos rfl, if_pos (by omega), ← at_left]
              congr 1
              omega
            · rw [if_neg isLast] at isTarget
              rw [Function.update_of_ne (represents.ne_of_index at_ at_target (by omega)),
                represents.prev_eq i node at_, if_pos isFirst, if_pos isFirst, if_neg (by omega)]
              congr 1
              omega
          · have notTarget : i ≠ t := by split_ifs at isTarget <;> omega
            rw [Function.update_of_ne (represents.ne_of_index at_ at_target notTarget),
              represents.prev_eq i node at_, if_neg isFirst, if_neg isFirst, if_pos (by omega)]
        · rw [if_neg (by omega)] at at_
          have inside := (List.getElem?_eq_some_iff.mp at_).1
          have notLast : ¬k + 1 = nodes.length := by omega
          have notZero : ¬i = 0 := by omega
          rw [if_neg notLast] at isTarget
          rw [if_neg notZero]
          by_cases atTarget : i = k
          · subst isTarget atTarget
            obtain rfl : node = target := Option.some.inj (at_.symm.trans at_target)
            rw [Function.update_self, if_pos (by omega), at_left]
          · rw [Function.update_of_ne (represents.ne_of_index at_ at_target (by omega)),
              represents.prev_eq (i + 1) node at_, if_neg (by omega), if_neg (by omega)]
            congr 1
            omega
      · have notTarget : node ≠ target := fun same => out (same ▸ List.mem_of_getElem? at_target)
        have notLeft : node ≠ left := fun same => out (same ▸ List.mem_of_getElem? at_left)
        simp [Function.update_of_ne notTarget, Function.update_of_ne notLeft]
    rcases following : links.next del with _ | right
    · have isLast : k + 1 = nodes.length := by
        rw [next_del, List.getElem?_eq_none_iff] at following
        omega
      have at_first := List.getElem?_eq_getElem (l := nodes) (i := 0) (by omega)
      generalize nodes[0] = first at at_first
      have deleted : links.delete head del =
          some (head, (links.setNext left (links.next del)).setPrev first (some left)) := by
        unfold Links.delete
        rw [if_neg notSelf, if_neg isHead]
        simp [prev_del, Function.update_of_ne leftNotDel.symm, following, at_head.trans at_first]
      exact ⟨_, _, deleted, joined at_first (if_pos isLast).symm⟩
    · have at_right : nodes[k + 1]? = some right := next_del.symm.trans following
      have inside := (List.getElem?_eq_some_iff.mp at_right).1
      have deleted : links.delete head del =
          some (head, (links.setNext left (links.next del)).setPrev right (some left)) := by
        unfold Links.delete
        rw [if_neg notSelf, if_neg isHead]
        simp [prev_del, Function.update_of_ne leftNotDel.symm, following]
      exact ⟨_, _, deleted, joined at_right (if_neg (by omega)).symm⟩

end Represents

/-! ### Several lists in the same pointers -/

/-- The pointers hold several lists without a common node. -/
structure RepresentsAll {Which : Type*} (links : Links Node) (heads : Which → Option Node)
    (lists : Which → List Node) : Prop where
  represents : ∀ which, links.Represents (heads which) (lists which)
  disjoint : ∀ left right, left ≠ right → ∀ node ∈ lists left, node ∉ lists right

namespace RepresentsAll

variable {Which : Type*} {links : Links Node} {heads : Which → Option Node}
  {lists : Which → List Node}

theorem nil (links : Links Node) : links.RepresentsAll (fun _ : Which => none) fun _ => [] where
  represents _ := .nil links
  disjoint _ _ _ _ mem := by simp at mem

theorem head_eq (all : links.RepresentsAll heads lists) (which : Which) :
    heads which = (lists which)[0]? := (all.represents which).head_eq

theorem congr {other : Links Node} (all : links.RepresentsAll heads lists)
    (same : ∀ which, ∀ node ∈ lists which,
      other.prev node = links.prev node ∧ other.next node = links.next node) :
    other.RepresentsAll heads lists where
  represents which := (all.represents which).congr (same which)
  disjoint := all.disjoint

variable [DecidableEq Node] [DecidableEq Which]

/-- A node that is taken out of its list is in none. -/
theorem notMem_erase (all : links.RepresentsAll heads lists) {which : Which} {del : Node}
    (mem : del ∈ lists which) (other : Which) :
    del ∉ Function.update lists which ((lists which).erase del) other := by
  by_cases same : other = which
  · subst other
    rw [Function.update_self]
    exact (all.represents which).nodup.not_mem_erase
  · rw [Function.update_of_ne same]
    exact all.disjoint which other (Ne.symm same) del mem

/-- A node of no list is appended to one of them. -/
theorem append (all : links.RepresentsAll heads lists) (which : Which) {add : Node}
    (fresh : ∀ other, add ∉ lists other) :
    Returns (links.append (heads which) add) fun result =>
      result.2.RepresentsAll (Function.update heads which result.1)
        (Function.update lists which (lists which ++ [add])) := by
  rcases (all.represents which).append (fresh which) with ⟨head, links', appended, own, agree⟩
  refine ⟨(head, links'), appended, fun other => ?_, fun left right different node inLeft => ?_⟩
  · by_cases same : other = which
    · subst other
      simpa using own
    · rw [Function.update_of_ne same, Function.update_of_ne same]
      refine (all.represents other).congr fun node mem => agree node ?_
      rw [List.mem_cons, not_or]
      exact ⟨fun isAdd => fresh other (isAdd ▸ mem), all.disjoint other which same node mem⟩
  · by_cases leftOwn : left = which
    · subst left
      rw [Function.update_self, List.mem_append, List.mem_singleton] at inLeft
      rw [Function.update_of_ne different.symm]
      rcases inLeft with old | rfl
      · exact all.disjoint which right different node old
      · exact fresh right
    · rw [Function.update_of_ne leftOwn] at inLeft
      by_cases rightOwn : right = which
      · subst right
        rw [Function.update_self, List.mem_append, List.mem_singleton, not_or]
        exact ⟨all.disjoint left which different node inLeft,
          fun isAdd => fresh left (isAdd ▸ inLeft)⟩
      · rw [Function.update_of_ne rightOwn]
        exact all.disjoint left right different node inLeft

/-- A node is deleted from its list. -/
theorem delete (all : links.RepresentsAll heads lists) {which : Which} {del : Node}
    (mem : del ∈ lists which) :
    Returns (links.delete (heads which) del) fun result =>
      result.2.RepresentsAll (Function.update heads which result.1)
        (Function.update lists which ((lists which).erase del)) := by
  rcases (all.represents which).delete mem with ⟨head, links', deleted, own, agree⟩
  have shrinks (other : Which) :
      Function.update lists which ((lists which).erase del) other ⊆ lists other := by
    intro node inside
    by_cases same : other = which
    · subst other
      rw [Function.update_self] at inside
      exact List.mem_of_mem_erase inside
    · rwa [Function.update_of_ne same] at inside
  refine ⟨(head, links'), deleted, fun other => ?_, fun left right different node inLeft inRight =>
    all.disjoint left right different node (shrinks left inLeft) (shrinks right inRight)⟩
  by_cases same : other = which
  · subst other
    simpa using own
  · rw [Function.update_of_ne same, Function.update_of_ne same]
    exact (all.represents other).congr fun node inside =>
      agree node (all.disjoint other which same node inside)

end RepresentsAll

end Links

end FlashBench
