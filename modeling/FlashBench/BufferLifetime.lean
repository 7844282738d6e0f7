import FlashBench.WriteBufferLinks

/-!
# The memory of the write buffer

`fb_create_write_buffer` and `fb_destroy_write_buffer` with every call of `vmalloc`, which
may fail, and of `vfree`. A block that is freed twice is the result `none`, and an entry that
is freed is overwritten with junk, so what is read from it later is junk. A write to such an
entry is not noticed. The memory of the hash table is taken to be granted.
-/

namespace FlashBench

/-! ### Allocations -/

/-- What the write buffer allocates. -/
inductive WbObject where
  | wb
  | entry (i : ℕ)
  | data (i : ℕ)
  | pgBuf
  deriving DecidableEq

/-- The number of the calls of `vmalloc` and the blocks that are not freed. -/
structure WbHeap where
  attempts : ℕ
  live : List WbObject

namespace WbHeap

/-- `vmalloc`; `grants` tells which calls succeed. -/
def vmalloc (grants : ℕ → Bool) (object : WbObject) (heap : WbHeap) : Bool × WbHeap :=
  (grants heap.attempts,
    { attempts := heap.attempts + 1
      live := if grants heap.attempts then object :: heap.live else heap.live })

/-- `vfree`, which is defined for a block that is not freed yet. -/
def vfree (object : WbObject) (heap : WbHeap) : Option WbHeap :=
  if object ∈ heap.live then some { heap with live := heap.live.erase object } else none

/-- `fb_destroy_wb_entry` of an entry with its data. -/
def destroyWbEntry (i : ℕ) (heap : WbHeap) : Option WbHeap := do
  let heap ← heap.vfree (.data i)
  heap.vfree (.entry i)

/-- `fb_create_wb_entry`; `false` is a null pointer. -/
def createWbEntry (grants : ℕ → Bool) (i : ℕ) (heap : WbHeap) : Option (Bool × WbHeap) :=
  let (made, heap) := heap.vmalloc grants (.entry i)
  if made then
    let (made, heap) := heap.vmalloc grants (.data i)
    if made then some (true, heap)
    else do
      let heap ← heap.vfree (.entry i)
      some (false, heap)
  else some (false, heap)

end WbHeap

namespace LinkedBuffer

variable {Data : Type}

/-- The memory of an entry after it was freed: reads find junk, writes are not noticed. -/
def scrap (linked junk : LinkedBuffer Data) (junkHashv : ℕ → ℕ) (i : ℕ) : LinkedBuffer Data :=
  { linked with
    links := (linked.links.setPrev i (junk.links.prev i)).setNext i (junk.links.next i)
    hashPgs := linked.hashPgs.map fun tbl =>
      { tbl with hashv := Function.update tbl.hashv i (junkHashv i) }
    pgs := Function.update linked.pgs i (junk.pgs i) }

/-- A loop of `fb_destroy_write_buffer`: take the first entry of a list out of the list and
the table, and free it. -/
def destroyPgs (junk : LinkedBuffer Data) (junkHashv : ℕ → ℕ)
    (head : LinkedBuffer Data → Option ℕ)
    (takeOut : LinkedBuffer Data → ℕ → Option (LinkedBuffer Data)) :
    ℕ → LinkedBuffer Data × WbHeap → Option (LinkedBuffer Data × WbHeap)
  | 0, _ => none
  | fuel + 1, (linked, heap) =>
      match head linked with
      | none => some (linked, heap)
      | some i => do
          let linked ← takeOut linked i
          let heap ← heap.destroyWbEntry i
          destroyPgs junk junkHashv head takeOut fuel (linked.scrap junk junkHashv i, heap)

/-- `fb_destroy_write_buffer`. The tests of the list pointers before the loops are those of
the first iterations. -/
def destroy (junk : LinkedBuffer Data) (junkHashv : ℕ → ℕ) (fuel : ℕ)
    (state : LinkedBuffer Data × WbHeap) : Option (LinkedBuffer Data × WbHeap) := do
  let state ← destroyPgs junk junkHashv freePgs resetFreePg fuel state
  let state ← destroyPgs junk junkHashv bufPgs (fun linked i => do
    let linked ← linked.resetBufPg i
    linked.hashDel i) fuel state
  let (linked, heap) ← destroyPgs junk junkHashv writingPgs (fun linked i => do
    let linked ← linked.resetWritingPg i
    linked.hashDel i) fuel state
  let heap ← heap.vfree .wb
  some (linked, heap)

/-- The loop of `fb_create_write_buffer`; `false` when it goes to `FAIL`. -/
def createPgs (grants : ℕ → Bool) : List ℕ → LinkedBuffer Data × WbHeap →
    Option (Bool × LinkedBuffer Data × WbHeap)
  | [], state => some (true, state)
  | i :: rest, (linked, heap) => do
      let (made, heap) ← heap.createWbEntry grants i
      if made then
        let linked ← linked.setFreePg i
        createPgs grants rest (linked, heap)
      else some (false, linked, heap)

/-- `fb_create_write_buffer`. -/
def allocate (grants : ℕ → Bool) (junk : LinkedBuffer Data) (junkHashv : ℕ → ℕ) (fuel : ℕ)
    (nrMaxEntries : ℕ) (data : ℕ → Data) (heap : WbHeap) :
    Option (Option (LinkedBuffer Data) × WbHeap) :=
  let (made, heap) := heap.vmalloc grants .wb
  if made then do
    let (made, linked, heap) ← createPgs grants (List.range nrMaxEntries) (cleared data, heap)
    let (made, heap) := if made then heap.vmalloc grants .pgBuf else (false, heap)
    if made then some (some linked, heap)
    else do
      let (_, heap) ← destroy junk junkHashv fuel (linked, heap)
      some (none, heap)
  else some (none, heap)

end LinkedBuffer

/-! ### What is still to be freed -/

/-- The blocks of these entries. -/
def objects (entries : List ℕ) : List WbObject := entries.flatMap fun i => [.entry i, .data i]

/-- The entries of all lists. -/
def WriteBuffer.held {Data : Type} (wb : WriteBuffer Data) : List ℕ :=
  wb.freePgs ++ wb.bufPgs ++ wb.writingPgs

/-- The table holds the entries in use. -/
def WriteBuffer.Hashed {Data : Type} (wb : WriteBuffer Data) : Prop :=
  ∀ lpa i, wb.hashPgs lpa = some i ↔ (i ∈ wb.writingPgs ∨ i ∈ wb.bufPgs) ∧ (wb.pgs i).lpa = lpa

/-- The blocks that are not freed are those of the entries in the lists, and some others. -/
structure Owns {Data : Type} (linked : LinkedBuffer Data) (wb : WriteBuffer Data) (heap : WbHeap)
    (rest : List WbObject) : Prop where
  refines : LinkedRefines linked wb
  hashed : wb.Hashed
  live : heap.live.Perm (objects wb.held ++ rest)

section Heap

variable {heap : WbHeap} {object : WbObject} {others rest : List WbObject} {grants : ℕ → Bool} {i : ℕ}

theorem vfree_spec (live : heap.live.Perm (object :: others)) :
    Returns (heap.vfree object) fun heap => heap.live.Perm others := by
  have mem : object ∈ heap.live := live.mem_iff.mpr (by simp)
  refine ⟨{ heap with live := heap.live.erase object }, if_pos mem, ?_⟩
  have erased := live.erase object
  rwa [List.erase_cons_head] at erased

theorem destroyWbEntry_spec (live : heap.live.Perm (.entry i :: .data i :: others)) :
    Returns (heap.destroyWbEntry i) fun heap => heap.live.Perm others := by
  unfold WbHeap.destroyWbEntry
  refine (vfree_spec (live.trans (List.Perm.swap _ _ _))).bind fun heap freed => ?_
  exact vfree_spec freed

/-- An entry is made with its data or not at all. -/
theorem createWbEntry_spec (live : heap.live.Perm others) :
    Returns (heap.createWbEntry grants i) fun result =>
      (result.1 = true ↔ grants heap.attempts = true ∧ grants (heap.attempts + 1) = true) ∧
        (result.1 = true → result.2.attempts = heap.attempts + 2 ∧
          result.2.live.Perm (.entry i :: .data i :: others)) ∧
        (result.1 = false → result.2.live.Perm others) := by
  unfold WbHeap.createWbEntry WbHeap.vmalloc
  by_cases first : grants heap.attempts = true
  · by_cases second : grants (heap.attempts + 1) = true
    · refine ⟨_, by simp [first, second]; rfl, by simp [first, second], fun _ => ⟨rfl, ?_⟩, by simp⟩
      exact (List.Perm.swap _ _ _).trans ((live.cons _).cons _)
    · have onlyEntry : (WbHeap.mk (heap.attempts + 2) (.entry i :: heap.live)).live.Perm
          (.entry i :: others) := live.cons _
      rcases vfree_spec onlyEntry with ⟨freed, returned, remains⟩
      refine ⟨(false, freed), by simp [first, second, returned], by simp [second], by simp,
        fun _ => remains⟩
  · exact ⟨_, by simp [first]; rfl, by simp [first], by simp, fun _ => live⟩

end Heap

/-! ### Single entries -/

section Entries

variable {Data : Type} {linked junk : LinkedBuffer Data} {wb other : WriteBuffer Data} {heap : WbHeap}
  {rest : List WbObject} {which : WbList} {i : ℕ} {tail : List ℕ} {junkHashv : ℕ → ℕ}

theorem lists_updPg (wb : WriteBuffer Data) (i : ℕ) (f : WbPg Data → WbPg Data) :
    (wb.updPg i f).lists = wb.lists := by
  funext which
  cases which <;> rfl

/-- An entry outside the lists and the table may be overwritten. -/
theorem LinkedRefines.scrap (refines : LinkedRefines linked wb) (hashed : wb.Hashed)
    (fresh : ∀ which, i ∉ wb.lists which) :
    LinkedRefines (linked.scrap junk junkHashv i) (wb.updPg i fun _ => junk.pgs i) where
  nrEntries_eq := refines.nrEntries_eq
  pgs_eq := by
    simp only [LinkedBuffer.scrap, WriteBuffer.updPg]
    rw [refines.pgs_eq]
  lists := by
    rw [lists_updPg]
    refine refines.lists.congr fun which node mem => ?_
    have different : node ≠ i := by
      rintro rfl
      exact fresh which mem
    simp [LinkedBuffer.scrap, different]
  table := by
    have unknown : i ∉ HashTable.elements linked.hashPgs := by
      rw [refines.table.mem_iff, hashed]
      rintro ⟨writing | buf, -⟩
      · exact fresh .writing writing
      · exact fresh .buf buf
    refine (refines.table.forget unknown (junkHashv i)).congr fun j mem => ?_
    have different : j ≠ i := by
      rintro rfl
      refine unknown ?_
      rcases table : linked.hashPgs with _ | tbl
      · simp [table, HashTable.elements] at mem
      · simpa [LinkedBuffer.scrap, table, HashTable.elements] using mem
    simp [WriteBuffer.updPg, different]

theorem WriteBuffer.Hashed.scrap (hashed : wb.Hashed) (fresh : ∀ which, i ∉ wb.lists which)
    (pg : WbPg Data) : (wb.updPg i fun _ => pg).Hashed := by
  intro lpa j
  rw [show (wb.updPg i fun _ => pg).hashPgs = wb.hashPgs from rfl, hashed]
  refine and_congr_right fun held => ?_
  have different : j ≠ i := by
    rintro rfl
    exact held.elim (fresh .writing) (fresh .buf)
  simp [WriteBuffer.updPg, different]

/-- The table forgets an entry in use. -/
theorem WriteBuffer.Hashed.remove (hashed : wb.Hashed)
    (held : i ∈ wb.writingPgs ∨ i ∈ wb.bufPgs)
    (hash : other.hashPgs = Function.update wb.hashPgs (wb.pgs i).lpa none)
    (lpas : ∀ j, (other.pgs j).lpa = (wb.pgs j).lpa)
    (members : ∀ j, j ∈ other.writingPgs ∨ j ∈ other.bufPgs ↔
      (j ∈ wb.writingPgs ∨ j ∈ wb.bufPgs) ∧ j ≠ i) : other.Hashed := by
  have own : wb.hashPgs (wb.pgs i).lpa = some i := (hashed _ i).mpr ⟨held, rfl⟩
  intro lpa j
  rw [hash, lpas, members]
  by_cases same : lpa = (wb.pgs i).lpa
  · subst same
    rw [Function.update_self]
    simp only [reduceCtorEq, false_iff, not_and]
    rintro ⟨inUse, different⟩ lpa_eq
    have found := (hashed _ j).mpr ⟨inUse, lpa_eq⟩
    rw [own] at found
    exact different (Option.some.inj found).symm
  · rw [Function.update_of_ne same, hashed]
    constructor
    · rintro ⟨inUse, rfl⟩
      exact ⟨⟨inUse, fun isI => same (by rw [isI])⟩, rfl⟩
    · exact fun ⟨⟨inUse, _⟩, lpa_eq⟩ => ⟨inUse, lpa_eq⟩

/-- What taking the first entry of a list out of the list and the table comes to. -/
def TakesOut (wb : WriteBuffer Data) (which : WbList) (tail : List ℕ)
    (result : LinkedBuffer Data) : Prop :=
  ∃ other : WriteBuffer Data, LinkedRefines result other ∧ other.Hashed ∧
    other.lists = Function.update wb.lists which tail

theorem takeOut_free (owns : Owns linked wb heap rest) (first : wb.freePgs = i :: tail) :
    Returns (linked.resetFreePg i) (TakesOut wb .free tail) := by
  refine (owns.refines.resetFreePg (by simp [first])).imp fun result taken => ?_
  refine ⟨_, taken, owns.hashed, ?_⟩
  funext which
  cases which <;> simp [WriteBuffer.lists, WriteBuffer.resetFreePg, first]

theorem takeOut_buf (owns : Owns linked wb heap rest) (first : wb.bufPgs = i :: tail) :
    Returns (linked.resetBufPg i >>= fun linked => linked.hashDel i)
      (TakesOut wb .buf tail) := by
  have mem : i ∈ wb.bufPgs := by simp [first]
  have nodup : (i :: tail).Nodup := first ▸ (owns.refines.lists.represents .buf).nodup
  have notWriting : i ∉ wb.writingPgs :=
    owns.refines.lists.disjoint .buf .writing (by decide) i mem
  have known := (owns.hashed _ i).mpr ⟨Or.inr mem, rfl⟩
  refine (owns.refines.resetBufPg mem).bind fun result taken => ?_
  refine (taken.hashDel known).imp fun result deleted => ?_
  refine ⟨_, deleted, ?_, ?_⟩
  · refine owns.hashed.remove (Or.inr mem) rfl (fun _ => rfl) fun j => ?_
    have buf : j ∈ wb.bufPgs.erase i ↔ j ∈ wb.bufPgs ∧ j ≠ i := by
      rw [first, nodup.mem_erase_iff, and_comm]
    have writing : j ∈ wb.writingPgs → j ≠ i := by
      rintro inUse rfl
      exact notWriting inUse
    change j ∈ wb.writingPgs ∨ j ∈ wb.bufPgs.erase i ↔ _
    rw [buf]
    tauto
  · funext which
    cases which <;> simp [WriteBuffer.lists, WriteBuffer.resetBufPg, WriteBuffer.hashDel, first]

theorem takeOut_writing (owns : Owns linked wb heap rest) (first : wb.writingPgs = i :: tail) :
    Returns (linked.resetWritingPg i >>= fun linked => linked.hashDel i)
      (TakesOut wb .writing tail) := by
  have mem : i ∈ wb.writingPgs := by simp [first]
  have nodup : (i :: tail).Nodup := first ▸ (owns.refines.lists.represents .writing).nodup
  have notBuf : i ∉ wb.bufPgs := owns.refines.lists.disjoint .writing .buf (by decide) i mem
  have lpas (j : ℕ) : ((wb.resetWritingPg i).pgs j).lpa = (wb.pgs j).lpa :=
    congrArg Prod.fst (congrFun (WriteBuffer.entry_resetWritingPg wb i) j)
  have known : (wb.resetWritingPg i).hashPgs ((wb.resetWritingPg i).pgs i).lpa = some i := by
    rw [lpas]
    exact (owns.hashed _ i).mpr ⟨Or.inl mem, rfl⟩
  refine (owns.refines.resetWritingPg mem).bind fun result taken => ?_
  refine (taken.hashDel known).imp fun result deleted => ?_
  refine ⟨_, deleted, ?_, ?_⟩
  · have hash : ((wb.resetWritingPg i).hashDel i).hashPgs =
        Function.update wb.hashPgs (wb.pgs i).lpa none := by
      rw [← lpas i]
      rfl
    refine owns.hashed.remove (Or.inl mem) hash lpas fun j => ?_
    have writing : j ∈ wb.writingPgs.erase i ↔ j ∈ wb.writingPgs ∧ j ≠ i := by
      rw [first, nodup.mem_erase_iff, and_comm]
    have buf : j ∈ wb.bufPgs → j ≠ i := by
      rintro inUse rfl
      exact notBuf inUse
    change j ∈ wb.writingPgs.erase i ∨ j ∈ wb.bufPgs ↔ _
    rw [writing]
    tauto
  · funext which
    cases which <;> simp [WriteBuffer.lists, WriteBuffer.resetWritingPg, WriteBuffer.hashDel,
      WriteBuffer.updPg, first]

end Entries

/-! ### Destruction -/

section Destruction

variable {Data : Type} {linked junk : LinkedBuffer Data} {wb other : WriteBuffer Data} {heap : WbHeap}
  {rest : List WbObject} {which : WbList} {i fuel : ℕ} {tail : List ℕ} {junkHashv : ℕ → ℕ}

theorem held_eq (wb : WriteBuffer Data) :
    wb.held = wb.lists .free ++ wb.lists .buf ++ wb.lists .writing := rfl

theorem held_perm (first : wb.lists which = i :: tail)
    (lists : other.lists = Function.update wb.lists which tail) : wb.held.Perm (i :: other.held) := by
  rw [held_eq, held_eq, lists]
  refine List.perm_iff_count.mpr fun j => ?_
  cases which <;> simp only [Function.update_self, Function.update_of_ne, ne_eq, reduceCtorEq,
    not_false_eq_true, first, List.count_append, List.count_cons] <;> omega

/-- A loop of `fb_destroy_write_buffer` ends, and frees the entries of its list. -/
theorem destroyPgs_spec {head : LinkedBuffer Data → Option ℕ}
    {takeOut : LinkedBuffer Data → ℕ → Option (LinkedBuffer Data)}
    (isHead : ∀ linked, head linked = linked.heads which)
    (takesOut : ∀ linked wb heap i tail, Owns linked wb heap rest → wb.lists which = i :: tail →
      Returns (takeOut linked i) (TakesOut wb which tail))
    (owns : Owns linked wb heap rest) (enough : (wb.lists which).length < fuel) :
    Returns (LinkedBuffer.destroyPgs junk junkHashv head takeOut fuel (linked, heap)) fun result =>
      ∃ other, Owns result.1 other result.2 rest ∧
        other.lists = Function.update wb.lists which [] := by
  generalize entries : wb.lists which = remaining at enough
  induction fuel generalizing linked wb heap remaining with
  | zero => omega
  | succ fuel ih =>
      unfold LinkedBuffer.destroyPgs
      have at_head : head linked = remaining[0]? := by
        rw [isHead, ← entries]
        exact owns.refines.lists.head_eq which
      simp only [at_head]
      rcases remaining with _ | ⟨i, tail⟩
      · exact .of_some ⟨wb, owns, by rw [← entries, Function.update_eq_self]⟩
      · refine (takesOut linked wb heap i tail owns entries).bind fun result taken => ?_
        rcases taken with ⟨other, refines, hashed, lists⟩
        have fresh (list : WbList) : i ∉ other.lists list := by
          have taken : i ∈ wb.lists which := by simp [entries]
          have notMem := owns.refines.lists.notMem_erase taken list
          rwa [entries, List.erase_cons_head, ← lists] at notMem
        have blocks : heap.live.Perm (.entry i :: .data i :: (objects other.held ++ rest)) :=
          owns.live.trans (((held_perm entries lists).flatMap_right _).append_right rest)
        refine (destroyWbEntry_spec blocks).bind fun heap freed => ?_
        have same := lists_updPg other i fun _ => junk.pgs i
        have next :
            Owns (result.scrap junk junkHashv i) (other.updPg i fun _ => junk.pgs i) heap rest := by
          refine ⟨refines.scrap hashed fresh, hashed.scrap fresh _, ?_⟩
          rw [held_eq, same]
          exact freed
        rw [List.length_cons] at enough
        refine (ih next tail (by rw [same, lists, Function.update_self]) (by omega)).imp
          fun final done => ?_
        rcases done with ⟨last, lastOwns, lastLists⟩
        refine ⟨last, lastOwns, ?_⟩
        rw [lastLists, same, lists, Function.update_idem]

/-- `fb_destroy_write_buffer` frees the structure and every entry, and leaves no table. -/
theorem destroy_spec (owns : Owns linked wb heap (.wb :: rest))
    (enough : ∀ which, (wb.lists which).length < fuel) :
    Returns (LinkedBuffer.destroy junk junkHashv fuel (linked, heap)) fun result =>
      result.2.live.Perm rest ∧ result.1.hashPgs = none := by
  unfold LinkedBuffer.destroy
  refine (destroyPgs_spec (fun _ => rfl) (fun _ _ _ _ _ => takeOut_free) owns
    (enough .free)).bind fun result freed => ?_
  rcases freed with ⟨afterFree, owns, lists⟩
  have bufEnough : (afterFree.lists .buf).length < fuel := by
    rw [lists]
    exact enough .buf
  refine (destroyPgs_spec (fun _ => rfl) (fun _ _ _ _ _ => takeOut_buf) owns
    bufEnough).bind fun result freed => ?_
  rcases freed with ⟨afterBuf, owns, moreLists⟩
  have writingEnough : (afterBuf.lists .writing).length < fuel := by
    rw [moreLists, lists]
    exact enough .writing
  refine (destroyPgs_spec (fun _ => rfl) (fun _ _ _ _ _ => takeOut_writing) owns
    writingEnough).bind fun result freed => ?_
  rcases freed with ⟨last, owns, lastLists⟩
  have empty (which : WbList) : last.lists which = [] := by
    rw [lastLists, moreLists, lists]
    cases which <;> rfl
  have blocks : result.2.live.Perm (.wb :: rest) := by
    refine owns.live.trans ?_
    rw [held_eq, empty, empty, empty]
    exact List.Perm.refl _
  refine (vfree_spec blocks).bind fun heap remains => .of_some ⟨remains, ?_⟩
  refine owns.refines.table.eq_none fun lpa => ?_
  rcases found : last.hashPgs lpa with _ | i
  · rfl
  · rcases ((owns.hashed lpa i).mp found).1 with writing | buf
    · have noWriting : last.writingPgs = [] := empty .writing
      simp [noWriting] at writing
    · have noBuf : last.bufPgs = [] := empty .buf
      simp [noBuf] at buf

end Destruction

/-! ### Creation -/

section Creation

variable {Data : Type} {linked junk : LinkedBuffer Data} {wb : WriteBuffer Data} {heap : WbHeap}
  {rest : List WbObject} {capacity fuel : ℕ} {grants : ℕ → Bool} {junkHashv : ℕ → ℕ}
  {garbage : ℕ → Data}

theorem foldl_setFreePg (wb : WriteBuffer Data) (made : List ℕ) :
    made.foldl WriteBuffer.setFreePg wb = { wb with freePgs := wb.freePgs ++ made } := by
  induction made generalizing wb with
  | nil => simp
  | cons i made ih =>
      rw [List.foldl_cons, ih]
      simp [WriteBuffer.setFreePg]

theorem Owns.setFreePg (owns : Owns linked wb heap rest) {next : WbHeap} {i : ℕ}
    (fresh : ∀ which, i ∉ wb.lists which)
    (live : next.live.Perm (.entry i :: .data i :: (objects wb.held ++ rest))) :
    Returns (linked.setFreePg i) fun linked => Owns linked (wb.setFreePg i) next rest := by
  refine (owns.refines.setFreePg fresh).imp fun result appended => ⟨appended, owns.hashed, ?_⟩
  have grown : (i :: wb.held).Perm (wb.setFreePg i).held := by
    refine List.perm_iff_count.mpr fun j => ?_
    simp only [WriteBuffer.held, WriteBuffer.setFreePg, List.count_append, List.count_cons,
      List.count_nil]
    omega
  have blocks : (objects (i :: wb.held)).Perm (objects (wb.setFreePg i).held) :=
    grown.flatMap_right _
  exact live.trans (blocks.append_right rest)

/-- The loop makes all entries, or those before the first call of `vmalloc` that fails. -/
theorem createPgs_spec {todo : List ℕ} (owns : Owns linked wb heap rest) (nodup : todo.Nodup)
    (fresh : ∀ i ∈ todo, ∀ which, i ∉ wb.lists which) :
    Returns (LinkedBuffer.createPgs grants todo (linked, heap)) fun result =>
      (result.1 = true ↔ ∀ call < 2 * todo.length, grants (heap.attempts + call) = true) ∧
        ∃ made, made.length ≤ todo.length ∧
          Owns result.2.1 (made.foldl WriteBuffer.setFreePg wb) result.2.2 rest ∧
          (result.1 = true → made = todo ∧
            result.2.2.attempts = heap.attempts + 2 * todo.length) := by
  induction todo generalizing linked wb heap with
  | nil => exact .of_some ⟨by simp, [], le_rfl, owns, fun _ => ⟨rfl, rfl⟩⟩
  | cons i todo ih =>
      rcases List.nodup_cons.mp nodup with ⟨notMem, restNodup⟩
      unfold LinkedBuffer.createPgs
      refine (createWbEntry_spec owns.live).bind fun result entry => ?_
      rcases entry with ⟨made_iff, made, failed⟩
      rcases result with ⟨_ | _, next⟩
      · refine .of_some ⟨?_, [], Nat.zero_le _, ⟨owns.refines, owns.hashed, failed rfl⟩, by simp⟩
        simp only [Bool.false_eq_true, false_iff] at made_iff ⊢
        intro granted
        refine made_iff ⟨granted 0 (by simp), granted 1 ?_⟩
        rw [List.length_cons]
        omega
      · rcases made rfl with ⟨attempts, live⟩
        rcases made_iff.mp rfl with ⟨first, second⟩
        refine (owns.setFreePg (fresh i (by simp)) live).bind fun linked appended => ?_
        have stillFresh : ∀ j ∈ todo, ∀ which, j ∉ (wb.setFreePg i).lists which := by
          intro j mem which
          have old := fresh j (by simp [mem]) which
          have different : j ≠ i := by
            rintro rfl
            exact notMem mem
          cases which with
          | free =>
              change j ∉ wb.freePgs ++ [i]
              rw [List.mem_append, List.mem_singleton, not_or]
              exact ⟨old, different⟩
          | writing => exact old
          | buf => exact old
        refine (ih appended restNodup stillFresh).imp fun result done => ?_
        rcases done with ⟨all_iff, entries, length, owned, all⟩
        refine ⟨?_, i :: entries, by simpa using length, owned, fun ok => ?_⟩
        · rw [all_iff, attempts, List.length_cons]
          constructor
          · intro granted call inside
            rcases call with _ | _ | call
            · exact first
            · exact second
            · rw [show heap.attempts + (call + 1 + 1) = heap.attempts + 2 + call by omega]
              exact granted call (by omega)
          · intro granted call inside
            rw [show heap.attempts + 2 + call = heap.attempts + (call + 2) by omega]
            exact granted (call + 2) (by omega)
        · rcases all ok with ⟨rfl, total⟩
          refine ⟨rfl, ?_⟩
          rw [total, attempts, List.length_cons]
          omega

theorem held_of_ok (inv : WbOk capacity wb) : wb.held.Perm (List.range capacity) := by
  refine List.perm_iff_count.mpr fun i => ?_
  have counted := inv.partition i
  simp only [WriteBuffer.held, List.count_append, List.count_nil] at counted ⊢
  by_cases inside : i < capacity
  · rw [List.count_eq_one_of_mem List.nodup_range (List.mem_range.mpr inside)]
    rw [if_pos inside] at counted
    omega
  · have outside : i ∉ List.range capacity := by simpa using inside
    rw [List.count_eq_zero_of_not_mem outside]
    rw [if_neg inside] at counted
    omega

theorem length_lists_le (inv : WbOk capacity wb) (which : WbList) :
    (wb.lists which).length ≤ capacity := by
  have lengths := inv.lengths
  rw [List.length_nil] at lengths
  cases which <;> simp only [WriteBuffer.lists] <;> omega

theorem create_eq_foldl (capacity : ℕ) (garbage : ℕ → Data) :
    (List.range capacity).foldl WriteBuffer.setFreePg (.create 0 garbage) =
      .create capacity garbage := by
  rw [foldl_setFreePg]
  simp [WriteBuffer.create]

/-- A creation that fails frees the entries that it has made. -/
theorem freed_after_failure {made : List ℕ} (length : made.length ≤ capacity) (enough : capacity < fuel)
    (owns : Owns linked (made.foldl WriteBuffer.setFreePg (.create 0 garbage)) heap [.wb]) :
    Returns (LinkedBuffer.destroy junk junkHashv fuel (linked, heap)) fun result =>
      result.2.live = [] := by
  have short (which : WbList) :
      ((made.foldl WriteBuffer.setFreePg (.create 0 garbage)).lists which).length < fuel := by
    rw [foldl_setFreePg]
    cases which <;> simp [WriteBuffer.create, WriteBuffer.lists] <;> omega
  refine (destroy_spec owns short).imp fun result freed => ?_
  exact List.perm_nil.mp freed.1

/-- Whatever was called before, the destruction frees all but the page buffer. -/
theorem freed_after_calls (enough : capacity < fuel)
    (owns : Owns linked (.create capacity garbage) heap [.wb, .pgBuf])
    (ops : List (FifoMap.Op ℕ Data)) :
    Returns (linked.run fuel ops >>= fun run =>
      LinkedBuffer.destroy junk junkHashv fuel (run.2, heap)) fun result =>
        result.2.live = [.pgBuf] ∧ result.1.hashPgs = none := by
  have inv := WbInv.create capacity garbage
  refine (owns.refines.run inv enough ops).bind fun result ran => ?_
  have lastInv := (WriteBuffer.run_refines inv ops).1
  have kept : (objects (WriteBuffer.create capacity garbage).held).Perm
      (objects ((WriteBuffer.create capacity garbage).run ops).2.held) :=
    ((held_of_ok inv).trans (held_of_ok lastInv).symm).flatMap_right _
  have hashed : ((WriteBuffer.create capacity garbage).run ops).2.Hashed := fun lpa i => by
    simpa using lastInv.hash_iff lpa i
  have last : Owns result.2 ((WriteBuffer.create capacity garbage).run ops).2 heap [.wb, .pgBuf] :=
    ⟨ran.2, hashed, owns.live.trans (kept.append_right _)⟩
  refine (destroy_spec last fun which => (length_lists_le lastInv which).trans_lt enough).imp
    fun result freed => ?_
  exact ⟨List.perm_singleton.mp freed.1, freed.2⟩

/-- What a call of `fb_create_write_buffer` comes to: all blocks are there, and are freed by
`fb_destroy_write_buffer` after any calls but for the page buffer, or none is there. -/
def Accounted (grants : ℕ → Bool) (junk : LinkedBuffer Data) (junkHashv : ℕ → ℕ)
    (capacity fuel : ℕ) : Option (LinkedBuffer Data) × WbHeap → Prop
  | (some linked, heap) =>
      (∀ call < 2 * capacity + 2, grants call = true) ∧
        ∀ ops, Returns (linked.run fuel ops >>= fun run =>
          LinkedBuffer.destroy junk junkHashv fuel (run.2, heap)) fun result =>
            result.2.live = [.pgBuf] ∧ result.1.hashPgs = none
  | (none, heap) => heap.live = [] ∧ ∃ call < 2 * capacity + 2, grants call = false

end Creation

/-- Whichever calls of `vmalloc` fail, every block is freed once and none is used afterwards.
Only the page buffer of a buffer that was made stays. -/
theorem writeBuffer_accounted {Data : Type} (grants : ℕ → Bool) (junk : LinkedBuffer Data)
    (junkHashv : ℕ → ℕ) (capacity fuel : ℕ) (enough : capacity < fuel) (garbage : ℕ → Data) :
    Returns (LinkedBuffer.allocate grants junk junkHashv fuel capacity garbage ⟨0, []⟩)
      (Accounted grants junk junkHashv capacity fuel) := by
  unfold LinkedBuffer.allocate
  by_cases first : grants 0 = true
  · have start : Owns (LinkedBuffer.cleared garbage) (.create 0 garbage) ⟨1, [.wb]⟩ [.wb] := by
      rcases LinkedRefines.create 0 garbage with ⟨cleared, made, refines⟩
      obtain rfl : LinkedBuffer.cleared garbage = cleared := Option.some.inj made
      exact ⟨refines, fun lpa i => by simp [WriteBuffer.create], List.Perm.refl _⟩
    have fresh : ∀ i ∈ List.range capacity, ∀ which,
        i ∉ (WriteBuffer.create 0 garbage).lists which := by
      intro i _ which
      cases which <;> simp [WriteBuffer.create, WriteBuffer.lists]
    simp only [WbHeap.vmalloc, first, if_true]
    refine (createPgs_spec start List.nodup_range fresh).bind fun result done => ?_
    rcases result with ⟨made, linked, heap⟩
    rcases done with ⟨all_iff, entries, length, owns, all⟩
    simp only [List.length_range] at all_iff length owns all
    cases made with
    | false =>
        simp only [Bool.false_eq_true, false_iff, not_forall] at all_iff
        rcases all_iff with ⟨call, inside, refused⟩
        refine (freed_after_failure length enough owns).bind fun result freed => ?_
        exact .of_some ⟨freed, 1 + call, by omega, by simpa using refused⟩
    | true =>
        rcases all rfl with ⟨rfl, attempts⟩
        by_cases last : grants heap.attempts = true
        · simp only [if_true, last]
          rw [create_eq_foldl] at owns
          have granted : ∀ call < 2 * capacity + 2, grants call = true := by
            intro call inside
            rcases call with _ | call
            · exact first
            · rcases Nat.lt_or_ge call (2 * capacity) with before | after
              · rw [Nat.add_comm]
                exact all_iff.mp rfl call before
              · rw [show call + 1 = heap.attempts by rw [attempts]; omega]
                exact last
          refine .of_some ⟨granted, freed_after_calls enough ⟨owns.refines, owns.hashed, ?_⟩⟩
          refine (owns.live.cons _).trans ?_
          exact (List.perm_append_singleton _ _).symm.trans (by simp)
        · simp only [if_true, last, Bool.false_eq_true, if_false]
          have refused : Owns linked _ ⟨heap.attempts + 1, heap.live⟩ [.wb] :=
            ⟨owns.refines, owns.hashed, owns.live⟩
          refine (freed_after_failure length enough refused).bind fun result freed => ?_
          exact .of_some ⟨freed, heap.attempts, by rw [attempts]; omega, by simpa using last⟩
  · exact ⟨(none, ⟨1, []⟩), by simp [WbHeap.vmalloc, first], rfl, 0, by omega, by simpa using first⟩

/-- The data of the second entry cannot be allocated. -/
theorem writeBuffer_accounted_failing :
    Returns (LinkedBuffer.allocate (fun call => decide (call ≠ 4)) (LinkedBuffer.cleared fun _ => 9)
        (fun _ => 9) 4 3 (fun _ => 0) ⟨0, []⟩)
      (Accounted (fun call => decide (call ≠ 4)) (LinkedBuffer.cleared fun _ => 9) (fun _ => 9) 3 4) :=
  writeBuffer_accounted (fun call => decide (call ≠ 4)) (LinkedBuffer.cleared fun _ => 9)
    (fun _ => 9) 3 4 (by decide) fun _ => 0

end FlashBench
