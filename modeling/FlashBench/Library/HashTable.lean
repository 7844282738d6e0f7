import FlashBench.Library.Loop
import Mathlib.Data.List.Nodup

/-!
# Hash tables with chains that double their buckets

The elements are kept twice: in the order in which they were added, and in chains, one
for each bucket. The bucket of an element is given by the low bits of its hash value.
A chain that gets long makes the table double its buckets and put every element into
its new bucket, unless that did not help twice in a row.

The chains and the order of the elements are lists, without the pointers that thread
them through the elements. The memory for a table and for its buckets is taken to be
there: a table that does not get it reports so and then clears a null pointer. Keys are
compared where the elements keep them, so an element in the table must not change its key.
-/

namespace FlashBench

/-- A bucket: its elements, newest first, their number, and how much longer than usual its chain
may get. -/
structure HashBucket (Elem : Type*) where
  chain : List Elem
  count : ℕ
  expandMult : ℕ

/-- A table with at least one element. `hashv` is kept with the elements. -/
structure HashTable (Elem : Type*) where
  buckets : ℕ → HashBucket Elem
  numBuckets : ℕ
  log2NumBuckets : ℕ
  numItems : ℕ
  order : List Elem
  idealChainMaxlen : ℕ
  nonidealItems : ℕ
  ineffExpands : ℕ
  noexpand : ℕ
  hashv : Elem → ℕ

namespace HashTable

variable {Elem Key : Type*}

/-- The initial number of buckets. -/
abbrev initialNumBuckets : ℕ := 32

/-- The logarithm of that number. -/
abbrev initialNumBucketsLog2 : ℕ := 5

/-- The chain length at which the table expands. -/
abbrev bktCapacityThresh : ℕ := 10

/-- A bucket of cleared memory. -/
def emptyBucket : HashBucket Elem := { chain := [], count := 0, expandMult := 0 }

/-- The bucket of a hash value. -/
def toBkt (hashv numBkts : ℕ) : ℕ := hashv &&& (numBkts - 1)

/-! ### Operations -/

/-- Put an element into its new bucket, and count those behind the ideal length of their chain. -/
def redistribute (hashv : Elem → ℕ) (numBuckets idealChainMaxlen : ℕ)
    (state : (ℕ → HashBucket Elem) × ℕ) (elem : Elem) : (ℕ → HashBucket Elem) × ℕ :=
  let bkt := toBkt (hashv elem) numBuckets
  let newbkt := state.1 bkt
  let count := newbkt.count + 1
  if idealChainMaxlen < count then
    (Function.update state.1 bkt
      { chain := elem :: newbkt.chain, count := count, expandMult := count / idealChainMaxlen },
      state.2 + 1)
  else
    (Function.update state.1 bkt { newbkt with chain := elem :: newbkt.chain, count := count },
      state.2)

/-- Double the number of buckets. The new buckets are taken to be granted. -/
def expandBuckets (tbl : HashTable Elem) : HashTable Elem :=
  let idealChainMaxlen := tbl.numItems >>> (tbl.log2NumBuckets + 1) +
    if tbl.numItems &&& (tbl.numBuckets * 2 - 1) ≠ 0 then 1 else 0
  let moved := (List.range tbl.numBuckets).foldl
    (fun state bkt => (tbl.buckets bkt).chain.foldl
      (redistribute tbl.hashv (tbl.numBuckets * 2) idealChainMaxlen) state)
    ((fun _ => emptyBucket), 0)
  let ineffExpands := if tbl.numItems >>> 1 < moved.2 then tbl.ineffExpands + 1 else 0
  { tbl with
    buckets := moved.1
    numBuckets := tbl.numBuckets * 2
    log2NumBuckets := tbl.log2NumBuckets + 1
    idealChainMaxlen := idealChainMaxlen
    nonidealItems := moved.2
    ineffExpands := ineffExpands
    noexpand := if 1 < ineffExpands then 1 else tbl.noexpand }

/-- Push an element on the chain of a bucket. -/
def addToBkt (tbl : HashTable Elem) (bkt : ℕ) (elem : Elem) : HashTable Elem :=
  let head := tbl.buckets bkt
  let pushed := { head with chain := elem :: head.chain, count := head.count + 1 }
  let tbl := { tbl with buckets := Function.update tbl.buckets bkt pushed }
  if (pushed.expandMult + 1) * bktCapacityThresh ≤ pushed.count ∧ tbl.noexpand ≠ 1 then
    tbl.expandBuckets
  else tbl

/-- A table without its first element. The table and its buckets are taken to be granted. -/
def makeTable (hashv : Elem → ℕ) : HashTable Elem where
  buckets := fun _ => emptyBucket
  numBuckets := initialNumBuckets
  log2NumBuckets := initialNumBucketsLog2
  numItems := 0
  order := []
  idealChainMaxlen := 0
  nonidealItems := 0
  ineffExpands := 0
  noexpand := 0
  hashv := hashv

section Operations

variable [DecidableEq Elem]

/-- Count an element, give it its hash value and put it into its bucket. -/
def insert (tbl : HashTable Elem) (elem : Elem) (hashv : ℕ) : HashTable Elem :=
  let tbl :=
    { tbl with
      order := tbl.order ++ [elem]
      numItems := tbl.numItems + 1
      hashv := Function.update tbl.hashv elem hashv }
  tbl.addToBkt (toBkt hashv tbl.numBuckets) elem

/-- Take an element out of the order and out of its bucket. -/
def remove (tbl : HashTable Elem) (elem : Elem) : HashTable Elem :=
  let bkt := toBkt (tbl.hashv elem) tbl.numBuckets
  let head := tbl.buckets bkt
  { tbl with
    order := tbl.order.erase elem
    buckets := Function.update tbl.buckets bkt
      { head with chain := head.chain.erase elem, count := head.count - 1 }
    numItems := tbl.numItems - 1 }

end Operations

/-- The element of a key: the first one in the bucket of the hash value that carries the key. -/
def find [DecidableEq Key] (tbl : HashTable Elem) (key : Elem → Key) (hash : Key → ℕ) (k : Key) :
    Option Elem :=
  (tbl.buckets (toBkt (hash k) tbl.numBuckets)).chain.find? fun elem => key elem = k

/-! ### Buckets -/

/-- The buckets hold these elements, each one in the bucket of its hash value. -/
structure Holds (buckets : ℕ → HashBucket Elem) (numBuckets : ℕ) (hashv : Elem → ℕ)
    (elems : List Elem) : Prop where
  nodup : ∀ bkt < numBuckets, (buckets bkt).chain.Nodup
  mem_chain : ∀ bkt < numBuckets, ∀ elem,
    elem ∈ (buckets bkt).chain ↔ elem ∈ elems ∧ toBkt (hashv elem) numBuckets = bkt
  count_eq : ∀ bkt < numBuckets, (buckets bkt).count = (buckets bkt).chain.length

section Buckets

variable {buckets : ℕ → HashBucket Elem} {numBuckets : ℕ} {hashv : Elem → ℕ} {elems : List Elem}
  {elem : Elem}

theorem toBkt_lt {log2NumBuckets : ℕ} (isPow : numBuckets = 2 ^ log2NumBuckets) (hashv : ℕ) :
    toBkt hashv numBuckets < numBuckets := by
  rw [toBkt, isPow, Nat.and_two_pow_sub_one_eq_mod]
  exact Nat.mod_lt _ (Nat.two_pow_pos _)

theorem Holds.empty (numBuckets : ℕ) (hashv : Elem → ℕ) :
    Holds (fun _ => emptyBucket) numBuckets hashv [] where
  nodup _ _ := List.nodup_nil
  mem_chain _ _ elem := by simp [emptyBucket]
  count_eq _ _ := rfl

/-- The buckets are about the members of the list only. -/
theorem Holds.congr (holds : Holds buckets numBuckets hashv elems) {others : List Elem}
    {otherHashv : Elem → ℕ} (same : ∀ elem, elem ∈ others ↔ elem ∈ elems)
    (sameHashv : ∀ elem ∈ elems, otherHashv elem = hashv elem) :
    Holds buckets numBuckets otherHashv others where
  nodup := holds.nodup
  mem_chain bkt bkt_lt elem := by
    rw [holds.mem_chain bkt bkt_lt, same]
    refine and_congr_right fun mem => ?_
    rw [sameHashv elem mem]
  count_eq := holds.count_eq

/-- A new element is pushed on the chain of its bucket. -/
theorem Holds.push (holds : Holds buckets numBuckets hashv elems) (fresh : elem ∉ elems)
    (expandMult : ℕ) :
    Holds (Function.update buckets (toBkt (hashv elem) numBuckets)
      { chain := elem :: (buckets (toBkt (hashv elem) numBuckets)).chain
        count := (buckets (toBkt (hashv elem) numBuckets)).count + 1
        expandMult := expandMult }) numBuckets hashv (elem :: elems) where
  nodup bkt bkt_lt := by
    by_cases own : bkt = toBkt (hashv elem) numBuckets
    · subst own
      rw [Function.update_self, List.nodup_cons]
      exact ⟨fun mem => fresh ((holds.mem_chain _ bkt_lt elem).mp mem).1, holds.nodup _ bkt_lt⟩
    · rw [Function.update_of_ne own]
      exact holds.nodup bkt bkt_lt
  mem_chain bkt bkt_lt other := by
    by_cases own : bkt = toBkt (hashv elem) numBuckets
    · subst own
      rw [Function.update_self, List.mem_cons, List.mem_cons, holds.mem_chain _ bkt_lt]
      constructor
      · rintro (rfl | ⟨mem, sameBkt⟩)
        · exact ⟨Or.inl rfl, rfl⟩
        · exact ⟨Or.inr mem, sameBkt⟩
      · rintro ⟨rfl | mem, sameBkt⟩
        · exact Or.inl rfl
        · exact Or.inr ⟨mem, sameBkt⟩
    · rw [Function.update_of_ne own, List.mem_cons, holds.mem_chain bkt bkt_lt]
      constructor
      · exact fun ⟨mem, sameBkt⟩ => ⟨Or.inr mem, sameBkt⟩
      · rintro ⟨rfl | mem, sameBkt⟩
        · exact absurd sameBkt.symm own
        · exact ⟨mem, sameBkt⟩
  count_eq bkt bkt_lt := by
    by_cases own : bkt = toBkt (hashv elem) numBuckets
    · subst own
      rw [Function.update_self, List.length_cons, holds.count_eq _ bkt_lt]
    · rw [Function.update_of_ne own]
      exact holds.count_eq bkt bkt_lt

theorem Holds.redistribute {state : (ℕ → HashBucket Elem) × ℕ}
    (holds : Holds state.1 numBuckets hashv elems) (fresh : elem ∉ elems)
    (idealChainMaxlen : ℕ) :
    Holds (HashTable.redistribute hashv numBuckets idealChainMaxlen state elem).1 numBuckets hashv
      (elem :: elems) := by
  unfold HashTable.redistribute
  simp only
  split_ifs
  · exact holds.push fresh _
  · exact holds.push fresh _

/-- Elements without a repetition end up in their new buckets, whatever the order in which they
are moved. -/
theorem Holds.foldl_redistribute {state : (ℕ → HashBucket Elem) × ℕ}
    (holds : Holds state.1 numBuckets hashv elems) (idealChainMaxlen : ℕ) {moved : List Elem}
    (nodup : moved.Nodup) (fresh : ∀ elem ∈ moved, elem ∉ elems) :
    Holds (moved.foldl (HashTable.redistribute hashv numBuckets idealChainMaxlen) state).1
      numBuckets hashv (moved ++ elems) := by
  induction moved generalizing state elems with
  | nil => exact holds
  | cons first rest ih =>
      rcases List.nodup_cons.mp nodup with ⟨notMem, restNodup⟩
      rw [List.foldl_cons]
      have next := ih (holds.redistribute (fresh first (by simp)) idealChainMaxlen) restNodup
        fun elem mem => by
          rw [List.mem_cons, not_or]
          exact ⟨fun same => notMem (same ▸ mem), fresh elem (by simp [mem])⟩
      exact next.congr (fun elem => by simp; tauto) fun _ _ => rfl

/-- The chains of all buckets, one after another, hold every element once. -/
theorem Holds.chains (holds : Holds buckets numBuckets hashv elems) {log2NumBuckets : ℕ}
    (isPow : numBuckets = 2 ^ log2NumBuckets) :
    ((List.range numBuckets).flatMap fun bkt => (buckets bkt).chain).Nodup ∧
      ∀ elem, elem ∈ ((List.range numBuckets).flatMap fun bkt => (buckets bkt).chain) ↔
        elem ∈ elems := by
  constructor
  · rw [List.nodup_flatMap]
    refine ⟨fun bkt mem => holds.nodup bkt (List.mem_range.mp mem), ?_⟩
    refine List.Nodup.pairwise_of_forall_ne List.nodup_range fun left leftMem right rightMem
      different => ?_
    intro elem inLeft inRight
    have leftBkt := ((holds.mem_chain left (List.mem_range.mp leftMem) elem).mp inLeft).2
    have rightBkt := ((holds.mem_chain right (List.mem_range.mp rightMem) elem).mp inRight).2
    exact different (leftBkt.symm.trans rightBkt)
  · intro elem
    rw [List.mem_flatMap]
    constructor
    · rintro ⟨bkt, mem, inChain⟩
      exact ((holds.mem_chain bkt (List.mem_range.mp mem) elem).mp inChain).1
    · intro mem
      have bkt_lt := toBkt_lt isPow (hashv elem)
      exact ⟨_, List.mem_range.mpr bkt_lt, (holds.mem_chain _ bkt_lt elem).mpr ⟨mem, rfl⟩⟩

end Buckets

/-! ### Tables -/

/-- Every element is in its bucket, and the counters count. -/
structure Ok (tbl : HashTable Elem) : Prop where
  numBuckets_eq : tbl.numBuckets = 2 ^ tbl.log2NumBuckets
  numItems_eq : tbl.numItems = tbl.order.length
  nodup : tbl.order.Nodup
  holds : Holds tbl.buckets tbl.numBuckets tbl.hashv tbl.order

section Tables

variable {tbl : HashTable Elem} {elem : Elem}

theorem makeTable_ok (hashv : Elem → ℕ) : (makeTable hashv).Ok where
  numBuckets_eq := rfl
  numItems_eq := rfl
  nodup := List.nodup_nil
  holds := .empty _ _

/-- The ideal length is rounded up, so that an element behind it never divides by zero. -/
theorem expandBuckets_idealChainMaxlen_pos (ok : tbl.Ok) (some_ : tbl.order ≠ []) :
    0 < tbl.expandBuckets.idealChainMaxlen := by
  have positive : 0 < tbl.numItems := by
    rw [ok.numItems_eq]
    exact List.length_pos_iff.mpr some_
  have doubled : tbl.numBuckets * 2 = 2 ^ (tbl.log2NumBuckets + 1) := by
    rw [ok.numBuckets_eq, Nat.pow_succ]
  simp only [expandBuckets]
  rw [doubled, Nat.and_two_pow_sub_one_eq_mod, Nat.shiftRight_eq_div_pow]
  split_ifs with remains
  · exact Nat.succ_pos _
  · have whole : 2 ^ (tbl.log2NumBuckets + 1) ∣ tbl.numItems :=
      Nat.dvd_of_mod_eq_zero (not_not.mp remains)
    exact Nat.div_pos (Nat.le_of_dvd positive whole) (Nat.two_pow_pos _)

/-- Doubling the buckets loses no element. -/
theorem expandBuckets_ok (ok : tbl.Ok) : tbl.expandBuckets.Ok where
  numBuckets_eq := by
    change tbl.numBuckets * 2 = 2 ^ (tbl.log2NumBuckets + 1)
    rw [ok.numBuckets_eq, Nat.pow_succ]
  numItems_eq := ok.numItems_eq
  nodup := ok.nodup
  holds := by
    rcases ok.holds.chains ok.numBuckets_eq with ⟨nodup, mem⟩
    let cleared : (ℕ → HashBucket Elem) × ℕ := ((fun _ => emptyBucket), 0)
    have start : Holds cleared.1 (tbl.numBuckets * 2) tbl.hashv [] := .empty _ _
    have moved := start.foldl_redistribute tbl.expandBuckets.idealChainMaxlen nodup
      fun elem _ => by simp
    rw [List.foldl_flatMap] at moved
    exact moved.congr (fun elem => by rw [List.append_nil, mem]; rfl) fun _ _ => rfl

theorem addToBkt_order (tbl : HashTable Elem) (bkt : ℕ) (elem : Elem) :
    (tbl.addToBkt bkt elem).order = tbl.order := by
  unfold addToBkt
  simp only
  split_ifs <;> rfl

theorem addToBkt_hashv (tbl : HashTable Elem) (bkt : ℕ) (elem : Elem) :
    (tbl.addToBkt bkt elem).hashv = tbl.hashv := by
  unfold addToBkt
  simp only
  split_ifs <;> rfl

variable [DecidableEq Elem]

theorem insert_order (tbl : HashTable Elem) (elem : Elem) (hashv : ℕ) :
    (tbl.insert elem hashv).order = tbl.order ++ [elem] := addToBkt_order _ _ _

theorem insert_hashv (tbl : HashTable Elem) (elem : Elem) (hashv : ℕ) :
    (tbl.insert elem hashv).hashv = Function.update tbl.hashv elem hashv := addToBkt_hashv _ _ _

/-- Adding an element keeps the table in order, whether it expands or not. -/
theorem insert_ok (ok : tbl.Ok) (fresh : elem ∉ tbl.order) (hashv : ℕ) :
    (tbl.insert elem hashv).Ok := by
  have nodup : (tbl.order ++ [elem]).Nodup := by
    rw [List.nodup_append]
    exact ⟨ok.nodup, List.nodup_singleton elem, fun other mem new isNew same =>
      fresh (by rw [← List.mem_singleton.mp isNew, ← same]; exact mem)⟩
  have rehashed : Holds tbl.buckets tbl.numBuckets (Function.update tbl.hashv elem hashv) tbl.order :=
    ok.holds.congr (fun _ => Iff.rfl) fun other mem =>
      Function.update_of_ne (fun same : other = elem => fresh (same ▸ mem)) _ _
  have pushed := rehashed.push fresh
    (tbl.buckets (toBkt (Function.update tbl.hashv elem hashv elem) tbl.numBuckets)).expandMult
  rw [Function.update_self] at pushed
  have sameMembers (other : Elem) : other ∈ tbl.order ++ [elem] ↔ other ∈ elem :: tbl.order := by
    simp [or_comm]
  have added := pushed.congr sameMembers fun _ _ => rfl
  unfold insert addToBkt
  simp only
  split_ifs
  · exact expandBuckets_ok ⟨ok.numBuckets_eq, by simp [ok.numItems_eq], nodup, added⟩
  · exact ⟨ok.numBuckets_eq, by simp [ok.numItems_eq], nodup, added⟩

/-- Removing an element keeps the table in order. -/
theorem remove_ok (ok : tbl.Ok) (mem : elem ∈ tbl.order) : (tbl.remove elem).Ok where
  numBuckets_eq := ok.numBuckets_eq
  numItems_eq := by
    change tbl.numItems - 1 = (tbl.order.erase elem).length
    rw [List.length_erase_of_mem mem, ok.numItems_eq]
  nodup := ok.nodup.erase elem
  holds :=
    { nodup := fun bkt bkt_lt => by
        simp only [remove]
        by_cases own : bkt = toBkt (tbl.hashv elem) tbl.numBuckets
        · subst own
          rw [Function.update_self]
          exact (ok.holds.nodup _ bkt_lt).erase elem
        · rw [Function.update_of_ne own]
          exact ok.holds.nodup bkt bkt_lt
      mem_chain := fun bkt bkt_lt other => by
        simp only [remove]
        rw [ok.nodup.mem_erase_iff]
        by_cases own : bkt = toBkt (tbl.hashv elem) tbl.numBuckets
        · subst own
          rw [Function.update_self, (ok.holds.nodup _ bkt_lt).mem_erase_iff,
            ok.holds.mem_chain _ bkt_lt, and_assoc]
        · rw [Function.update_of_ne own, ok.holds.mem_chain bkt bkt_lt]
          constructor
          · rintro ⟨inOrder, sameBkt⟩
            refine ⟨⟨?_, inOrder⟩, sameBkt⟩
            rintro rfl
            exact own sameBkt.symm
          · exact fun ⟨⟨_, inOrder⟩, sameBkt⟩ => ⟨inOrder, sameBkt⟩
      count_eq := fun bkt bkt_lt => by
        simp only [remove]
        by_cases own : bkt = toBkt (tbl.hashv elem) tbl.numBuckets
        · subst own
          rw [Function.update_self, ok.holds.count_eq _ bkt_lt, List.length_erase_of_mem
            ((ok.holds.mem_chain _ bkt_lt elem).mpr ⟨mem, rfl⟩)]
        · rw [Function.update_of_ne own]
          exact ok.holds.count_eq bkt bkt_lt }

omit [DecidableEq Elem] in
/-- In a table without two elements of one key, a search finds the element of a key if there is
one. -/
theorem find_eq_some_iff [DecidableEq Key] (ok : tbl.Ok) {key : Elem → Key} {hash : Key → ℕ}
    (hashed : ∀ elem ∈ tbl.order, tbl.hashv elem = hash (key elem))
    (distinct : ∀ left ∈ tbl.order, ∀ right ∈ tbl.order, key left = key right → left = right)
    {k : Key} : tbl.find key hash k = some elem ↔ elem ∈ tbl.order ∧ key elem = k := by
  have bkt_lt := toBkt_lt ok.numBuckets_eq (hash k)
  have mem_chain := ok.holds.mem_chain _ bkt_lt
  unfold find
  constructor
  · intro found
    have mem := List.mem_of_find?_eq_some found
    exact ⟨((mem_chain elem).mp mem).1, by simpa using List.find?_some found⟩
  · rintro ⟨mem, rfl⟩
    have inChain := (mem_chain elem).mpr ⟨mem, by rw [hashed elem mem]⟩
    rcases found : (tbl.buckets (toBkt (hash (key elem)) tbl.numBuckets)).chain.find?
      (fun other => key other = key elem) with _ | other
    · have absent := List.find?_eq_none.mp found elem inChain
      simp at absent
    · have otherMem := ((mem_chain other).mp (List.mem_of_find?_eq_some found)).1
      have sameKey : key other = key elem := by simpa using List.find?_some found
      rw [distinct other otherMem elem mem sameKey]

end Tables

/-! ### The pointer to the table

There is no table before the first element is added, nor after the last one is deleted.
To add an element that is in the table, or to delete one that is not, is the result
`none`. -/

section Heads

variable [DecidableEq Elem]

/-- Add an element, the first one together with the table. -/
def addTo (head : Option (HashTable Elem)) (elem : Elem) (hashv : ℕ) :
    Option (Option (HashTable Elem)) :=
  match head with
  | none => some (some ((makeTable fun _ => 0).insert elem hashv))
  | some tbl => if elem ∈ tbl.order then none else some (some (tbl.insert elem hashv))

/-- Delete an element, the last one together with the table. -/
def deleteFrom (head : Option (HashTable Elem)) (elem : Elem) :
    Option (Option (HashTable Elem)) :=
  match head with
  | none => none
  | some tbl =>
      if elem ∈ tbl.order then
        if tbl.order = [elem] then some none else some (some (tbl.remove elem))
      else none

end Heads

/-- Search the table, if there is one. -/
def findIn [DecidableEq Key] (head : Option (HashTable Elem)) (key : Elem → Key) (hash : Key → ℕ)
    (k : Key) : Option Elem :=
  head.bind fun tbl => tbl.find key hash k

/-- The elements of the table. -/
def elements (head : Option (HashTable Elem)) : List Elem := head.elim [] HashTable.order

/-- The table is this map from keys to elements. -/
structure Implements (key : Elem → Key) (hash : Key → ℕ) (head : Option (HashTable Elem))
    (map : Key → Option Elem) : Prop where
  ok : ∀ tbl ∈ head, tbl.Ok ∧ tbl.order ≠ [] ∧ ∀ elem ∈ tbl.order, tbl.hashv elem = hash (key elem)
  map_iff : ∀ k elem, map k = some elem ↔ elem ∈ elements head ∧ key elem = k

namespace Implements

variable {key other : Elem → Key} {hash : Key → ℕ} {head : Option (HashTable Elem)}
  {map : Key → Option Elem} {elem : Elem}

theorem absent (key : Elem → Key) (hash : Key → ℕ) :
    Implements key hash none fun _ => (none : Option Elem) where
  ok tbl isSome := by simp at isSome
  map_iff k elem := by simp [elements]

/-- Only the keys of the elements in the table matter. -/
theorem congr (impl : Implements key hash head map)
    (same : ∀ elem ∈ elements head, other elem = key elem) : Implements other hash head map where
  ok tbl isSome := by
    rcases impl.ok tbl isSome with ⟨ok, notEmpty, hashed⟩
    refine ⟨ok, notEmpty, fun elem mem => ?_⟩
    have inside : elem ∈ elements head := by
      rw [Option.mem_def.mp isSome]
      exact mem
    rw [same elem inside]
    exact hashed elem mem
  map_iff k elem := by
    rw [impl.map_iff]
    refine and_congr_right fun mem => ?_
    rw [same elem mem]

theorem mem_iff (impl : Implements key hash head map) :
    elem ∈ elements head ↔ map (key elem) = some elem := by
  rw [impl.map_iff]
  exact ⟨fun mem => ⟨mem, rfl⟩, fun both => both.1⟩

/-- Without a key there is no table. -/
theorem eq_none (impl : Implements key hash head map) (noKey : ∀ k, map k = none) : head = none := by
  rcases head with _ | tbl
  · rfl
  · rcases impl.ok tbl rfl with ⟨_, notEmpty, _⟩
    rcases List.exists_mem_of_ne_nil _ notEmpty with ⟨elem, mem⟩
    have inside : elem ∈ elements (some tbl) := mem
    rw [impl.mem_iff, noKey] at inside
    simp at inside

/-- No two elements have the same key. -/
theorem distinct (impl : Implements key hash head map) {left right : Elem}
    (leftMem : left ∈ elements head) (rightMem : right ∈ elements head)
    (same : key left = key right) : left = right := by
  rw [impl.mem_iff] at leftMem rightMem
  rw [same, rightMem] at leftMem
  exact (Option.some.inj leftMem).symm

theorem findIn_eq [DecidableEq Key] (impl : Implements key hash head map) (k : Key) :
    findIn head key hash k = map k := by
  cases head with
  | none =>
      rcases found : map k with _ | elem
      · rfl
      · have mem := ((impl.map_iff k elem).mp found).1
        simp [elements] at mem
  | some tbl =>
      rcases impl.ok tbl rfl with ⟨ok, _, hashed⟩
      refine Option.ext fun elem => ?_
      rw [impl.map_iff]
      exact find_eq_some_iff ok hashed fun left leftMem right rightMem same =>
        impl.distinct leftMem rightMem same

variable [DecidableEq Elem]

/-- The hash value that is kept with an element outside the table does not matter. -/
theorem forget (impl : Implements key hash head map) (outside : elem ∉ elements head) (hashv : ℕ) :
    Implements key hash
      (head.map fun tbl => { tbl with hashv := Function.update tbl.hashv elem hashv }) map := by
  cases head with
  | none => exact impl
  | some tbl =>
      rcases impl.ok tbl rfl with ⟨ok, notEmpty, hashed⟩
      replace outside : elem ∉ tbl.order := outside
      have others : ∀ other ∈ tbl.order, Function.update tbl.hashv elem hashv other = tbl.hashv other := by
        intro other mem
        have different : other ≠ elem := by
          rintro rfl
          exact outside mem
        rw [Function.update_of_ne different]
      refine ⟨fun tbl' isSome => ?_, impl.map_iff⟩
      obtain rfl := Option.some.inj isSome
      refine ⟨⟨ok.numBuckets_eq, ok.numItems_eq, ok.nodup,
        ok.holds.congr (fun _ => Iff.rfl) others⟩, notEmpty, fun other mem => ?_⟩
      exact (others other mem).trans (hashed other mem)

/-- A new element is added under a key that no other one has. -/
theorem addTo [DecidableEq Key] (impl : Implements key hash head map)
    (fresh : elem ∉ elements head) (absent : map (key elem) = none) :
    Returns (HashTable.addTo head elem (hash (key elem))) fun added =>
      elements added = elements head ++ [elem] ∧
        Implements key hash added (Function.update map (key elem) (some elem)) := by
  -- a table that is made now is searched and filled like one without an element
  obtain ⟨tbl, added, order_eq, ok, hashed⟩ : ∃ tbl : HashTable Elem,
      HashTable.addTo head elem (hash (key elem)) = some (some (tbl.insert elem (hash (key elem)))) ∧
        tbl.order = elements head ∧ tbl.Ok ∧
        ∀ elem ∈ tbl.order, tbl.hashv elem = hash (key elem) := by
    cases head with
    | none => exact ⟨makeTable fun _ => 0, rfl, rfl, makeTable_ok _, by simp [makeTable]⟩
    | some tbl =>
        rcases impl.ok tbl rfl with ⟨ok, _, hashed⟩
        exact ⟨tbl, if_neg fresh, rfl, ok, hashed⟩
  have grown : elements (some (tbl.insert elem (hash (key elem)))) = elements head ++ [elem] := by
    rw [← order_eq]
    exact insert_order _ _ _
  refine ⟨_, added, grown, fun tbl' isSome => ?_, fun k found => ?_⟩
  · obtain rfl := Option.some.inj isSome
    refine ⟨insert_ok ok (order_eq ▸ fresh) _, by simp [insert_order], fun one mem => ?_⟩
    rw [insert_order, List.mem_append, List.mem_singleton] at mem
    rw [insert_hashv]
    by_cases new : one = elem
    · rw [new, Function.update_self]
    · rw [Function.update_of_ne new]
      exact hashed one (mem.resolve_right new)
  · rw [grown, List.mem_append, List.mem_singleton]
    by_cases own : k = key elem
    · subst own
      rw [Function.update_self, Option.some.injEq]
      constructor
      · rintro rfl
        exact ⟨Or.inr rfl, rfl⟩
      · rintro ⟨old | new, same⟩
        · rw [impl.mem_iff, same, absent] at old
          simp at old
        · exact new.symm
    · rw [Function.update_of_ne own, impl.map_iff]
      constructor
      · exact fun ⟨mem, same⟩ => ⟨Or.inl mem, same⟩
      · rintro ⟨old | rfl, same⟩
        · exact ⟨old, same⟩
        · exact absurd same.symm own

/-- The element of a key is deleted. -/
theorem deleteFrom [DecidableEq Key] (impl : Implements key hash head map)
    (mem : elem ∈ elements head) :
    Returns (HashTable.deleteFrom head elem) fun deleted =>
      elements deleted = (elements head).erase elem ∧
        Implements key hash deleted (Function.update map (key elem) none) := by
  cases head with
  | none => simp [elements] at mem
  | some tbl =>
      rcases impl.ok tbl rfl with ⟨ok, _, hashed⟩
      replace mem : elem ∈ tbl.order := mem
      obtain ⟨head', deleted, shrunk, ok'⟩ : ∃ head',
          HashTable.deleteFrom (some tbl) elem = some head' ∧
            elements head' = tbl.order.erase elem ∧ ∀ tbl ∈ head', tbl.Ok ∧ tbl.order ≠ [] ∧
              ∀ elem ∈ tbl.order, tbl.hashv elem = hash (key elem) := by
        by_cases last : tbl.order = [elem]
        · exact ⟨none, by simp [HashTable.deleteFrom, last], by simp [elements, last], by simp⟩
        · refine ⟨some (tbl.remove elem), by simp [HashTable.deleteFrom, last, mem], rfl,
            fun tbl' isSome => ?_⟩
          obtain rfl := Option.some.inj isSome
          refine ⟨remove_ok ok mem, fun nothing => last ?_, fun one inside =>
            hashed one (List.mem_of_mem_erase inside)⟩
          exact List.perm_singleton.mp ((List.perm_cons_erase mem).trans (by
            rw [show tbl.order.erase elem = [] from nothing]))
      refine ⟨head', deleted, shrunk, ok', fun k found => ?_⟩
      rw [shrunk, ok.nodup.mem_erase_iff]
      by_cases own : k = key elem
      · subst own
        rw [Function.update_self]
        constructor
        · intro isSome
          simp at isSome
        · rintro ⟨⟨different, inside⟩, same⟩
          have inTable : found ∈ elements (some tbl) := inside
          exact absurd (impl.distinct inTable mem same) different
      · rw [Function.update_of_ne own, impl.map_iff]
        constructor
        · rintro ⟨inside, rfl⟩
          exact ⟨⟨fun same => own (by rw [same]), inside⟩, rfl⟩
        · exact fun ⟨⟨_, inside⟩, same⟩ => ⟨inside, same⟩

end Implements

end HashTable

end FlashBench
