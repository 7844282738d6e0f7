import FlashBench.BufferRefinement
import FlashBench.Library.CircularList
import FlashBench.Library.HashTable

/-!
# The write buffer in its pointers

The functions of `write_buffer.c` once more, with the utlist lists and the uthash table
as the macros keep them. The entries are named by the order in which they were allocated.
A result `none` is a null pointer that is followed, or an entry that is added to the
table twice or deleted from it when it is not there. The table and its buckets are taken
to be granted.
-/

namespace FlashBench

/-! ### Hash values -/

/-- `HASH_JEN_MIX`. -/
def hashJenMix (a b c : UInt32) : UInt32 × UInt32 × UInt32 :=
  let a := a - b
  let a := a - c
  let a := a ^^^ (c >>> 13)
  let b := b - c
  let b := b - a
  let b := b ^^^ (a <<< 8)
  let c := c - a
  let c := c - b
  let c := c ^^^ (b >>> 13)
  let a := a - b
  let a := a - c
  let a := a ^^^ (c >>> 12)
  let b := b - c
  let b := b - a
  let b := b ^^^ (a <<< 16)
  let c := c - a
  let c := c - b
  let c := c ^^^ (b >>> 5)
  let a := a - b
  let a := a - c
  let a := a ^^^ (c >>> 3)
  let b := b - c
  let b := b - a
  let b := b ^^^ (a <<< 10)
  let c := c - a
  let c := c - b
  let c := c ^^^ (b >>> 15)
  (a, b, c)

/-- `HASH_JEN` of a key of four bytes, the lowest one first. -/
def hashJen (key : ℕ) : ℕ :=
  let byte (n : ℕ) : UInt32 := UInt32.ofNat (key / 256 ^ n % 256)
  let i : UInt32 := 0x9e3779b9
  let j : UInt32 := 0x9e3779b9
  let hashv : UInt32 := 0xfeedbeef + 4
  let i := i + (byte 3 <<< 24)
  let i := i + (byte 2 <<< 16)
  let i := i + (byte 1 <<< 8)
  let i := i + byte 0
  (hashJenMix i j hashv).2.2.toNat

/-! ### The functions -/

/-- `struct fb_wb`: the pointers to the first entries, the list links of the entries and the
pointer to the hash table. -/
structure LinkedBuffer (Data : Type) where
  nrEntries : ℕ
  freePgs : Option ℕ
  writingPgs : Option ℕ
  bufPgs : Option ℕ
  links : Links ℕ
  hashPgs : Option (HashTable ℕ)
  pgs : ℕ → WbPg Data

namespace LinkedBuffer

variable {Data : Type} (linked : LinkedBuffer Data)

/-- Change an entry. -/
def updPg (i : ℕ) (f : WbPg Data → WbPg Data) : LinkedBuffer Data :=
  { linked with pgs := Function.update linked.pgs i (f (linked.pgs i)) }

/-- `fb_wb_set_free_pg` -/
def setFreePg (i : ℕ) : Option (LinkedBuffer Data) := do
  let (head, links) ← linked.links.append linked.freePgs i
  some { linked with freePgs := head, links := links }

/-- `fb_wb_reset_free_pg` -/
def resetFreePg (i : ℕ) : Option (LinkedBuffer Data) := do
  let (head, links) ← linked.links.delete linked.freePgs i
  some { linked with freePgs := head, links := links }

/-- `fb_wb_set_writing_pg` -/
def setWritingPg (i : ℕ) : Option (LinkedBuffer Data) := do
  let (head, links) ← linked.links.append linked.writingPgs i
  let linked := { linked with writingPgs := head, links := links }
  some (linked.updPg i fun pg => { pg with wflag := true })

/-- `fb_wb_reset_writing_pg` -/
def resetWritingPg (i : ℕ) : Option (LinkedBuffer Data) := do
  let (head, links) ← linked.links.delete linked.writingPgs i
  let linked := { linked with writingPgs := head, links := links }
  some (linked.updPg i fun pg => { pg with wflag := false })

/-- `fb_wb_set_buf_pg` -/
def setBufPg (i : ℕ) : Option (LinkedBuffer Data) := do
  let (head, links) ← linked.links.append linked.bufPgs i
  some { linked with bufPgs := head, links := links, nrEntries := linked.nrEntries + 1 }

/-- `fb_wb_reset_buf_pg` -/
def resetBufPg (i : ℕ) : Option (LinkedBuffer Data) := do
  let (head, links) ← linked.links.delete linked.bufPgs i
  some { linked with bufPgs := head, links := links, nrEntries := dec32 linked.nrEntries }

/-- `fb_wb_get_buf_pg`: `HASH_FIND`. -/
def getBufPg (lpa : ℕ) : Option ℕ :=
  HashTable.findIn linked.hashPgs (fun i => (linked.pgs i).lpa) hashJen lpa

/-- `HASH_ADD`. -/
def hashAdd (i : ℕ) : Option (LinkedBuffer Data) := do
  let hashPgs ← HashTable.addTo linked.hashPgs i (hashJen (linked.pgs i).lpa)
  some { linked with hashPgs := hashPgs }

/-- `HASH_DEL`. -/
def hashDel (i : ℕ) : Option (LinkedBuffer Data) := do
  let hashPgs ← HashTable.deleteFrom linked.hashPgs i
  some { linked with hashPgs := hashPgs }

/-- The buffer before `fb_create_write_buffer` makes its entries. -/
def cleared (data : ℕ → Data) : LinkedBuffer Data where
  nrEntries := 0
  freePgs := none
  writingPgs := none
  bufPgs := none
  links := { prev := fun _ => none, next := fun _ => none }
  hashPgs := none
  pgs := fun i => { lpa := pageUnmapped, data := data i, wflag := false }

/-- `fb_create_write_buffer`. -/
def create (nrMaxEntries : ℕ) (data : ℕ → Data) : Option (LinkedBuffer Data) :=
  (List.range nrMaxEntries).foldlM setFreePg (cleared data)

/-- `fb_get_pg_data`. -/
def getPgData (lpa : ℕ) : Option Data := (linked.getBufPg lpa).map fun i => (linked.pgs i).data

/-- The loop of `fb_get_pgs_to_write`. -/
def takePgs : ℕ → LinkedBuffer Data → Option (List (ℕ × Data) × LinkedBuffer Data)
  | 0, linked => some ([], linked)
  | nrPgs + 1, linked => do
      let i ← linked.bufPgs
      let linked ← linked.resetBufPg i
      let linked ← linked.setWritingPg i
      let rest ← takePgs nrPgs linked
      some (((linked.pgs i).lpa, (linked.pgs i).data) :: rest.1, rest.2)

/-- `fb_get_pgs_to_write`: nothing when fewer pages are buffered. -/
def getPgsToWrite (nrPgs : ℕ) : Option (Option (List (ℕ × Data)) × LinkedBuffer Data) :=
  if nrPgs ≤ linked.nrEntries then do
    let taken ← takePgs nrPgs linked
    some (some taken.1, taken.2)
  else some (none, linked)

/-- Take an entry out of the list it is on: writing when its flag is set, else buffered. -/
def resetPg (i : ℕ) : Option (LinkedBuffer Data) :=
  if (linked.pgs i).wflag then linked.resetWritingPg i else linked.resetBufPg i

/-- `fb_put_pg`, with its return code. -/
def putPg (lpa : ℕ) (src : Data) : Option (Bool × LinkedBuffer Data) :=
  match linked.getBufPg lpa with
  | none =>
      match linked.freePgs with
      | none => some (false, linked)
      | some i => do
          let linked ← linked.resetFreePg i
          let linked := linked.updPg i fun pg => { pg with lpa := lpa }
          let linked ← linked.hashAdd i
          let linked := linked.updPg i fun pg => { pg with data := src }
          let linked ← linked.setBufPg i
          some (true, linked)
  | some i => do
      let linked ← linked.resetPg i
      let linked := linked.updPg i fun pg => { pg with data := src }
      let linked ← linked.setBufPg i
      some (true, linked)

/-- `fb_rm_written_pgs`: at most `fuel` iterations of the loop. -/
def rmWrittenPgs : ℕ → LinkedBuffer Data → Option (LinkedBuffer Data)
  | 0, _ => none
  | fuel + 1, linked =>
      match linked.writingPgs with
      | none => some linked
      | some i => do
          let linked ← linked.resetWritingPg i
          let linked ← linked.hashDel i
          let linked ← linked.setFreePg i
          rmWrittenPgs fuel linked

/-- `fb_rm_buf_pg`. -/
def rmBufPg (lpa : ℕ) : Option (LinkedBuffer Data) :=
  match linked.getBufPg lpa with
  | none => some linked
  | some i => do
      let linked ← linked.resetPg i
      let linked ← linked.hashDel i
      linked.setFreePg i

/-- The functions of the write buffer. -/
def exec (fuel : ℕ) : FifoMap.Op ℕ Data → Option (FifoMap.Result ℕ Data × LinkedBuffer Data)
  | .put lpa src => do
      let (stored, linked) ← linked.putPg lpa src
      some (.stored stored, linked)
  | .get lpa => some (.found (linked.getPgData lpa), linked)
  | .take nrPgs => do
      let (taken, linked) ← linked.getPgsToWrite nrPgs
      some (.taken taken, linked)
  | .retire => do
      let linked ← linked.rmWrittenPgs fuel
      some (.unit, linked)
  | .remove lpa => do
      let linked ← linked.rmBufPg lpa
      some (.unit, linked)

/-- A sequence of calls, each with what it returns. -/
def run (fuel : ℕ) : LinkedBuffer Data → List (FifoMap.Op ℕ Data) →
    Option (List (FifoMap.Op ℕ Data × FifoMap.Result ℕ Data) × LinkedBuffer Data)
  | linked, [] => some ([], linked)
  | linked, op :: ops => do
      let (result, linked) ← linked.exec fuel op
      let (results, linked) ← run fuel linked ops
      some ((op, result) :: results, linked)

end LinkedBuffer

/-! ### Refinement -/

/-- The lists of the write buffer. -/
inductive WbList where
  | free
  | writing
  | buf
  deriving DecidableEq

/-- The pointers to the first entries. -/
def LinkedBuffer.heads {Data : Type} (linked : LinkedBuffer Data) : WbList → Option ℕ
  | .free => linked.freePgs
  | .writing => linked.writingPgs
  | .buf => linked.bufPgs

/-- The entries of each list. -/
def WriteBuffer.lists {Data : Type} (wb : WriteBuffer Data) : WbList → List ℕ
  | .free => wb.freePgs
  | .writing => wb.writingPgs
  | .buf => wb.bufPgs

/-- The pointers hold the lists and the map of the write buffer. -/
structure LinkedRefines {Data : Type} (linked : LinkedBuffer Data) (wb : WriteBuffer Data) : Prop where
  nrEntries_eq : linked.nrEntries = wb.nrEntries
  pgs_eq : linked.pgs = wb.pgs
  lists : linked.links.RepresentsAll linked.heads wb.lists
  table : HashTable.Implements (fun i => (wb.pgs i).lpa) hashJen linked.hashPgs wb.hashPgs

namespace LinkedRefines

variable {Data : Type} {capacity lpa i n fuel : ℕ} {hashed : List ℕ} {linked : LinkedBuffer Data}
  {wb : WriteBuffer Data} {data : Data}

/-! #### Lists -/

theorem fresh_of_loose (inv : WbInv capacity [i] hashed wb) (which : WbList) : i ∉ wb.lists which := by
  rcases inv.loose_notMem with ⟨notFree, notWriting, notBuf⟩
  cases which with
  | free => exact notFree
  | writing => exact notWriting
  | buf => exact notBuf

theorem updPg (refines : LinkedRefines linked wb) (i : ℕ) {f : WbPg Data → WbPg Data}
    (sameLpa : ∀ pg, (f pg).lpa = pg.lpa) : LinkedRefines (linked.updPg i f) (wb.updPg i f) where
  nrEntries_eq := refines.nrEntries_eq
  pgs_eq := by
    simp only [LinkedBuffer.updPg, WriteBuffer.updPg]
    rw [refines.pgs_eq]
  lists := refines.lists
  table := by
    refine refines.table.congr fun j _ => ?_
    by_cases same : j = i
    · subst j
      simp [WriteBuffer.updPg, sameLpa]
    · simp [WriteBuffer.updPg, same]

theorem setData (refines : LinkedRefines linked wb) (i : ℕ) (data : Data) :
    LinkedRefines (linked.updPg i fun pg => { pg with data := data })
      (wb.updPg i fun pg => { pg with data := data }) :=
  refines.updPg i fun _ => rfl

theorem setFreePg (refines : LinkedRefines linked wb) (fresh : ∀ which, i ∉ wb.lists which) :
    Returns (linked.setFreePg i) fun linked => LinkedRefines linked (wb.setFreePg i) := by
  refine (refines.lists.append .free fresh).bind fun result all => ?_
  refine .of_some ⟨refines.nrEntries_eq, refines.pgs_eq, ?_, refines.table⟩
  convert all using 1 <;> funext which <;> cases which <;> rfl

theorem resetFreePg (refines : LinkedRefines linked wb) (mem : i ∈ wb.freePgs) :
    Returns (linked.resetFreePg i) fun linked => LinkedRefines linked (wb.resetFreePg i) := by
  have inList : i ∈ wb.lists .free := mem
  refine (refines.lists.delete inList).bind fun result all => ?_
  refine .of_some ⟨refines.nrEntries_eq, refines.pgs_eq, ?_, refines.table⟩
  convert all using 1 <;> funext which <;> cases which <;> rfl

theorem setWritingPg (refines : LinkedRefines linked wb) (inv : WbInv capacity [i] hashed wb) :
    Returns (linked.setWritingPg i) fun linked => LinkedRefines linked (wb.setWritingPg i) := by
  refine (refines.lists.append .writing (fresh_of_loose inv)).bind fun result all => ?_
  have appended : LinkedRefines { linked with writingPgs := result.1, links := result.2 }
      { wb with writingPgs := wb.writingPgs ++ [i] } := by
    refine ⟨refines.nrEntries_eq, refines.pgs_eq, ?_, refines.table⟩
    convert all using 1 <;> funext which <;> cases which <;> rfl
  exact .of_some (appended.updPg i fun _ => rfl)

theorem resetWritingPg (refines : LinkedRefines linked wb) (mem : i ∈ wb.writingPgs) :
    Returns (linked.resetWritingPg i) fun linked => LinkedRefines linked (wb.resetWritingPg i) := by
  have inList : i ∈ wb.lists .writing := mem
  refine (refines.lists.delete inList).bind fun result all => ?_
  have deleted : LinkedRefines { linked with writingPgs := result.1, links := result.2 }
      { wb with writingPgs := wb.writingPgs.erase i } := by
    refine ⟨refines.nrEntries_eq, refines.pgs_eq, ?_, refines.table⟩
    convert all using 1 <;> funext which <;> cases which <;> rfl
  exact .of_some (deleted.updPg i fun _ => rfl)

theorem setBufPg (refines : LinkedRefines linked wb) (inv : WbInv capacity [i] hashed wb) :
    Returns (linked.setBufPg i) fun linked => LinkedRefines linked (wb.setBufPg i) := by
  refine (refines.lists.append .buf (fresh_of_loose inv)).bind fun result all => ?_
  refine .of_some ⟨congrArg (· + 1) refines.nrEntries_eq, refines.pgs_eq, ?_, refines.table⟩
  convert all using 1 <;> funext which <;> cases which <;> rfl

theorem resetBufPg (refines : LinkedRefines linked wb) (mem : i ∈ wb.bufPgs) :
    Returns (linked.resetBufPg i) fun linked => LinkedRefines linked (wb.resetBufPg i) := by
  have inList : i ∈ wb.lists .buf := mem
  refine (refines.lists.delete inList).bind fun result all => ?_
  refine .of_some ⟨congrArg dec32 refines.nrEntries_eq, refines.pgs_eq, ?_, refines.table⟩
  convert all using 1 <;> funext which <;> cases which <;> rfl

/-- An entry that is held is on the list that its flag tells. -/
theorem resetPg (refines : LinkedRefines linked wb) (inv : WbOk capacity wb)
    (held : i ∈ wb.writingPgs ∨ i ∈ wb.bufPgs) :
    Returns (linked.resetPg i) fun linked => LinkedRefines linked (wb.resetPg i) := by
  unfold LinkedBuffer.resetPg WriteBuffer.resetPg
  rw [refines.pgs_eq]
  split_ifs with flag
  · exact refines.resetWritingPg ((inv.wflag_iff i).mp flag)
  · exact refines.resetBufPg (held.resolve_left (mt (inv.wflag_iff i).mpr flag))

/-! #### The table -/

theorem getBufPg_eq (refines : LinkedRefines linked wb) (lpa : ℕ) :
    linked.getBufPg lpa = wb.getBufPg lpa := by
  unfold LinkedBuffer.getBufPg
  rw [refines.pgs_eq]
  exact refines.table.findIn_eq lpa

theorem getPgData_eq (refines : LinkedRefines linked wb) (lpa : ℕ) :
    linked.getPgData lpa = wb.getPgData lpa := by
  unfold LinkedBuffer.getPgData WriteBuffer.getPgData
  rw [refines.getBufPg_eq, refines.pgs_eq]

theorem known_of_loose (inv : WbInv capacity [i] [i] wb) : wb.hashPgs (wb.pgs i).lpa = some i := by
  rw [inv.hash_iff]
  simp

/-- A loose entry that the table does not know takes an LPA that is not buffered. -/
theorem hashAdd (refines : LinkedRefines linked wb) (inv : WbInv capacity [i] [] wb)
    (absent : wb.hashPgs lpa = none) :
    Returns ((linked.updPg i fun pg => { pg with lpa := lpa }).hashAdd i) fun linked =>
      LinkedRefines linked ((wb.updPg i fun pg => { pg with lpa := lpa }).hashAdd lpa i) := by
  rcases inv.loose_notMem with ⟨_, notWriting, notBuf⟩
  have fresh : i ∉ HashTable.elements linked.hashPgs := by
    rw [refines.table.mem_iff, inv.hash_iff]
    simp [notWriting, notBuf]
  have own : ((wb.updPg i fun pg => { pg with lpa := lpa }).pgs i).lpa = lpa := by
    simp [WriteBuffer.updPg]
  have renamed : HashTable.Implements
      (fun j => ((wb.updPg i fun pg => { pg with lpa := lpa }).pgs j).lpa) hashJen linked.hashPgs
      wb.hashPgs := by
    refine refines.table.congr fun j mem => ?_
    have different : j ≠ i := by
      rintro rfl
      exact fresh mem
    simp [WriteBuffer.updPg, different]
  have samePgs : (linked.updPg i fun pg => { pg with lpa := lpa }).pgs =
      (wb.updPg i fun pg => { pg with lpa := lpa }).pgs := by
    simp only [LinkedBuffer.updPg, WriteBuffer.updPg]
    rw [refines.pgs_eq]
  have added := renamed.addTo fresh (by rw [own]; exact absent)
  unfold LinkedBuffer.hashAdd
  rw [samePgs]
  refine added.bind fun table impl => ?_
  refine .of_some ⟨refines.nrEntries_eq, rfl, refines.lists, ?_⟩
  have after := impl.2
  rw [own] at after
  exact after

/-- An entry that the table knows is deleted from it. -/
theorem hashDel (refines : LinkedRefines linked wb) (known : wb.hashPgs (wb.pgs i).lpa = some i) :
    Returns (linked.hashDel i) fun linked => LinkedRefines linked (wb.hashDel i) := by
  have mem := refines.table.mem_iff.mpr known
  refine (refines.table.deleteFrom mem).bind fun table impl => ?_
  exact .of_some ⟨refines.nrEntries_eq, refines.pgs_eq, refines.lists, impl.2⟩

/-! #### The functions -/

theorem putPg (refines : LinkedRefines linked wb) (inv : WbOk capacity wb) (lpa : ℕ) (src : Data) :
    Returns (linked.putPg lpa src) fun result =>
      match wb.putPg lpa src with
      | some wb => result.1 = true ∧ LinkedRefines result.2 wb
      | none => result.1 = false ∧ LinkedRefines result.2 wb := by
  unfold LinkedBuffer.putPg WriteBuffer.putPg
  rw [refines.getBufPg_eq]
  rcases found : wb.getBufPg lpa with _ | i
  · have heads : linked.freePgs = wb.freePgs.head? :=
      (refines.lists.head_eq .free).trans List.head?_eq_getElem?.symm
    rw [heads]
    rcases head : wb.freePgs.head? with _ | i
    · exact .of_some ⟨rfl, refines⟩
    · have mem := mem_of_head?_eq head
      have loose := inv.resetFreePg mem
      have known := loose.hashAdd lpa found
      refine (refines.resetFreePg mem).bind fun linked taken => ?_
      refine (taken.hashAdd loose found).bind fun linked added => ?_
      refine ((added.setData i src).setBufPg (known.setData i src)).bind fun linked put => ?_
      exact .of_some ⟨rfl, put⟩
  · have held := (inv.held_of_hash found).1
    have loose := inv.resetPg held
    refine (refines.resetPg inv held).bind fun linked taken => ?_
    refine ((taken.setData i src).setBufPg (loose.setData i src)).bind fun linked put => ?_
    exact .of_some ⟨rfl, put⟩

theorem takePgs (refines : LinkedRefines linked wb) (inv : WbOk capacity wb)
    (enough : n ≤ wb.bufPgs.length) :
    Returns (LinkedBuffer.takePgs n linked) fun result =>
      result.1 = (WriteBuffer.takePgs n wb).1 ∧
        LinkedRefines result.2 (WriteBuffer.takePgs n wb).2 := by
  induction n generalizing linked wb with
  | zero => exact .of_some ⟨rfl, refines⟩
  | succ n ih =>
      rcases buffered : wb.bufPgs with _ | ⟨i, rest⟩
      · simp [buffered] at enough
      have head : linked.bufPgs = some i := by
        refine (refines.lists.head_eq .buf).trans ?_
        simp [WriteBuffer.lists, buffered]
      have mem : i ∈ wb.bufPgs := by simp [buffered]
      have loose := inv.resetBufPg mem
      have restBuf : ((wb.resetBufPg i).setWritingPg i).bufPgs = rest := by
        simp [WriteBuffer.setWritingPg, WriteBuffer.updPg, WriteBuffer.resetBufPg, buffered]
      rw [buffered, List.length_cons] at enough
      simp only [LinkedBuffer.takePgs, WriteBuffer.takePgs, buffered, head]
      have returned : Returns (some i) fun first => first = i := .of_some rfl
      refine returned.bind fun first isFirst => ?_
      subst first
      refine (refines.resetBufPg mem).bind fun linked taken => ?_
      refine (taken.setWritingPg loose).bind fun linked moved => ?_
      refine (ih moved loose.setWritingPg (by rw [restBuf]; omega)).bind fun result step => ?_
      refine .of_some ⟨?_, step.2⟩
      have sameEntry := congrFun (WriteBuffer.entry_setWritingPg (wb.resetBufPg i) i) i
      rw [step.1, moved.pgs_eq]
      exact congrArg (· :: _) sameEntry

theorem getPgsToWrite (refines : LinkedRefines linked wb) (inv : WbOk capacity wb) (nrPgs : ℕ) :
    Returns (linked.getPgsToWrite nrPgs) fun result =>
      result.1 = (wb.getPgsToWrite nrPgs).1 ∧ LinkedRefines result.2 (wb.getPgsToWrite nrPgs).2 := by
  unfold LinkedBuffer.getPgsToWrite WriteBuffer.getPgsToWrite
  rw [refines.nrEntries_eq]
  split_ifs with enough
  · rw [inv.nrEntries_eq] at enough
    refine (refines.takePgs inv enough).bind fun result taken => ?_
    exact .of_some ⟨congrArg some taken.1, taken.2⟩
  · exact .of_some ⟨rfl, refines⟩

/-- The loop ends: every iteration shortens the list of writing pages. -/
theorem rmWrittenPgs (refines : LinkedRefines linked wb) (inv : WbOk capacity wb)
    (enough : wb.writingPgs.length < fuel) :
    Returns (LinkedBuffer.rmWrittenPgs fuel linked) fun linked =>
      LinkedRefines linked wb.rmWrittenPgs := by
  unfold WriteBuffer.rmWrittenPgs
  generalize writing : wb.writingPgs = remaining at enough
  induction fuel generalizing linked wb remaining with
  | zero => omega
  | succ fuel ih =>
      unfold LinkedBuffer.rmWrittenPgs
      have head : linked.writingPgs = remaining[0]? := by
        rw [← writing]
        exact refines.lists.head_eq .writing
      rw [head]
      rcases remaining with _ | ⟨i, rest⟩
      · exact .of_some refines
      · have mem : i ∈ wb.writingPgs := by simp [writing]
        have loose := inv.resetWritingPg mem
        rcases WriteBuffer.rmWrittenPg_spec inv mem with ⟨nextInv, _, shorter, _⟩
        have remains : (wb.rmWrittenPg i).writingPgs = rest := by
          rw [shorter, writing]
          simp
        refine (refines.resetWritingPg mem).bind fun linked taken => ?_
        refine (taken.hashDel (known_of_loose loose)).bind fun linked deleted => ?_
        refine (deleted.setFreePg (fresh_of_loose loose.hashDel)).bind fun linked freed => ?_
        refine ih freed nextInv rest remains ?_
        rw [List.length_cons] at enough
        omega

theorem rmBufPg (refines : LinkedRefines linked wb) (inv : WbOk capacity wb) (lpa : ℕ) :
    Returns (linked.rmBufPg lpa) fun linked => LinkedRefines linked (wb.rmBufPg lpa) := by
  unfold LinkedBuffer.rmBufPg WriteBuffer.rmBufPg
  rw [refines.getBufPg_eq]
  rcases found : wb.getBufPg lpa with _ | i
  · exact .of_some refines
  · have held := (inv.held_of_hash found).1
    have loose := inv.resetPg held
    refine (refines.resetPg inv held).bind fun linked taken => ?_
    refine (taken.hashDel (known_of_loose loose)).bind fun linked deleted => ?_
    exact deleted.setFreePg (fresh_of_loose loose.hashDel)

theorem create (capacity : ℕ) (data : ℕ → Data) :
    Returns (LinkedBuffer.create capacity data) fun linked =>
      LinkedRefines linked (.create capacity data) := by
  unfold LinkedBuffer.create
  induction capacity with
  | zero =>
      refine .of_some ⟨rfl, rfl, ?_, .absent _ _⟩
      convert Links.RepresentsAll.nil (LinkedBuffer.cleared data).links using 1 <;>
        funext which <;> cases which <;> rfl
  | succ n ih =>
      rw [List.range_succ, List.foldlM_append]
      refine ih.bind fun linked made => ?_
      have fresh (which : WbList) : n ∉ (WriteBuffer.create n data).lists which := by
        cases which <;> simp [WriteBuffer.create, WriteBuffer.lists]
      have grown : (WriteBuffer.create n data).setFreePg n = .create (n + 1) data := by
        simp [WriteBuffer.create, WriteBuffer.setFreePg, List.range_succ]
      rw [List.foldlM_cons]
      refine (made.setFreePg fresh).bind fun linked appended => ?_
      rw [grown] at appended
      exact .of_some appended

/-! #### Runs -/

theorem exec (refines : LinkedRefines linked wb) (inv : WbOk capacity wb) (enough : capacity < fuel)
    (op : FifoMap.Op ℕ Data) :
    Returns (linked.exec fuel op) fun result =>
      result.1 = (wb.exec op).1 ∧ LinkedRefines result.2 (wb.exec op).2 := by
  cases op with
  | put lpa src =>
      simp only [WriteBuffer.exec]
      refine (refines.putPg inv lpa src).bind fun result put => ?_
      rcases stored : wb.putPg lpa src with _ | other
      · rw [stored] at put
        exact .of_some ⟨congrArg FifoMap.Result.stored put.1, put.2⟩
      · rw [stored] at put
        exact .of_some ⟨congrArg FifoMap.Result.stored put.1, put.2⟩
  | get lpa =>
      exact .of_some ⟨congrArg FifoMap.Result.found (refines.getPgData_eq lpa), refines⟩
  | take nrPgs =>
      refine (refines.getPgsToWrite inv nrPgs).bind fun result taken => ?_
      exact .of_some ⟨congrArg FifoMap.Result.taken taken.1, taken.2⟩
  | retire =>
      have lengths := inv.lengths
      refine (refines.rmWrittenPgs inv (by omega)).bind fun linked removed => ?_
      exact .of_some ⟨rfl, removed⟩
  | remove lpa =>
      refine (refines.rmBufPg inv lpa).bind fun linked removed => ?_
      exact .of_some ⟨rfl, removed⟩

theorem run (refines : LinkedRefines linked wb) (inv : WbOk capacity wb) (enough : capacity < fuel)
    (ops : List (FifoMap.Op ℕ Data)) :
    Returns (linked.run fuel ops) fun result =>
      result.1 = (wb.run ops).1 ∧ LinkedRefines result.2 (wb.run ops).2 := by
  induction ops generalizing linked wb with
  | nil => exact .of_some ⟨rfl, refines⟩
  | cons op ops ih =>
      refine (refines.exec inv enough op).bind fun result step => ?_
      have nextInv := (WriteBuffer.exec_refines inv op).1
      refine (ih step.2 nextInv).bind fun rest run => ?_
      refine .of_some ⟨?_, run.2⟩
      simp only [WriteBuffer.run, step.1, run.1]

end LinkedRefines

/-- No sequence of calls follows a null pointer, links an entry into two lists or leaves the
table and the lists apart: the pointers return what a bounded FIFO map returns. -/
theorem linkedBuffer_refines {Data : Type} (capacity fuel : ℕ) (enough : capacity < fuel)
    (garbage : ℕ → Data) (ops : List (FifoMap.Op ℕ Data)) :
    Returns (LinkedBuffer.create capacity garbage >>= fun linked => linked.run fuel ops)
      fun result => result.1 = (FifoMap.empty.run capacity ops).1 ∧
        ∃ wb, LinkedRefines result.2 wb ∧ WbOk capacity wb ∧
          wb.fifo = (FifoMap.empty.run capacity ops).2 := by
  have inv := WbInv.create capacity garbage
  rcases WriteBuffer.run_refines inv ops with ⟨lastInv, same⟩
  have start : (WriteBuffer.create capacity garbage).fifo = FifoMap.empty := rfl
  rw [start] at same
  refine (LinkedRefines.create capacity garbage).bind fun linked made => ?_
  refine (made.run inv enough ops).imp fun result refined => ?_
  exact ⟨refined.1.trans (congrArg Prod.fst same), _, refined.2, lastInv, congrArg Prod.snd same⟩

/-- Two entries, the third put of which finds no free one. -/
theorem linkedBuffer_refines_full :
    Returns (LinkedBuffer.create 2 (fun _ => 0) >>= fun linked =>
        linked.run 3 [.put 5 1, .put 6 2, .put 7 3, .take 1, .put 5 4, .retire, .remove 6])
      fun result => result.1 = (FifoMap.empty.run 2
          [.put 5 1, .put 6 2, .put 7 3, .take 1, .put 5 4, .retire, .remove 6]).1 ∧
        ∃ wb : WriteBuffer ℕ, LinkedRefines result.2 wb ∧ WbOk 2 wb ∧
          wb.fifo = (FifoMap.empty.run 2
            [.put 5 1, .put 6 2, .put 7 3, .take 1, .put 5 4, .retire, .remove 6]).2 :=
  linkedBuffer_refines 2 3 (by decide) (fun _ => 0)
    [.put 5 1, .put 6 2, .put 7 3, .take 1, .put 5 4, .retire, .remove 6]

end FlashBench
