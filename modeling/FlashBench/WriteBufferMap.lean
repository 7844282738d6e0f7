import FlashBench.Library.Counting
import FlashBench.Library.Loop
import FlashBench.Library.Store
import FlashBench.WriteBuffer

/-!
# The write buffer is a map

`WbInv` is the invariant of the write buffer. Its operations take an entry out of one
list, change it and put it into another one. In between the entry is loose: it is in no
list, and the hash table may or may not know it.
-/

namespace FlashBench

namespace WriteBuffer

variable {Data : Type}

/-- What the write buffer holds. -/
def content (wb : WriteBuffer Data) : Store ℕ Data := wb.getPgData

/-- The LPA and the data of an entry. -/
def entry (wb : WriteBuffer Data) (i : ℕ) : ℕ × Data := ((wb.pgs i).lpa, (wb.pgs i).data)

end WriteBuffer

/-- The lists partition the entries that are not loose, the hash table holds the entries in use
and the hashed loose ones, and flags and counter agree with the lists. -/
structure WbInv {Data : Type} (capacity : ℕ) (loose hashed : List ℕ) (wb : WriteBuffer Data) :
    Prop where
  partition : ∀ i, loose.count i + wb.freePgs.count i + wb.writingPgs.count i +
    wb.bufPgs.count i = if i < capacity then 1 else 0
  nrEntries_eq : wb.nrEntries = wb.bufPgs.length
  wflag_iff : ∀ i, (wb.pgs i).wflag = true ↔ i ∈ wb.writingPgs
  hash_iff : ∀ lpa i, wb.hashPgs lpa = some i ↔
    (i ∈ wb.writingPgs ∨ i ∈ wb.bufPgs ∨ i ∈ hashed) ∧ (wb.pgs i).lpa = lpa

/-- The write buffer between two operations. -/
abbrev WbOk {Data : Type} (capacity : ℕ) (wb : WriteBuffer Data) : Prop := WbInv capacity [] [] wb

namespace WbInv

variable {Data : Type} {capacity lpa i n : ℕ} {loose hashed : List ℕ} {wb : WriteBuffer Data}
  {data : Data}

theorem create (capacity : ℕ) (data : ℕ → Data) : WbOk capacity (.create capacity data) where
  partition i := by
    simp only [WriteBuffer.create, List.count_nil, Nat.add_zero, Nat.zero_add]
    by_cases inside : i < capacity
    · rw [List.count_eq_one_of_mem List.nodup_range (List.mem_range.mpr inside), if_pos inside]
    · rw [List.count_eq_zero_of_not_mem (by simpa using inside), if_neg inside]
  nrEntries_eq := rfl
  wflag_iff i := by simp [WriteBuffer.create]
  hash_iff lpa i := by simp [WriteBuffer.create]

/-- A list of entries has no duplicates, and no other list shares an entry with it. -/
theorem count_le_one (inv : WbInv capacity loose hashed wb) (i : ℕ) :
    loose.count i + wb.freePgs.count i + wb.writingPgs.count i + wb.bufPgs.count i ≤ 1 := by
  rw [inv.partition i]
  split_ifs <;> omega

theorem lengths (inv : WbInv capacity loose hashed wb) :
    loose.length + wb.freePgs.length + wb.writingPgs.length + wb.bufPgs.length = capacity := by
  have perm : (loose ++ wb.freePgs ++ wb.writingPgs ++ wb.bufPgs).Perm (List.range capacity) := by
    refine List.perm_iff_count.mpr fun i => ?_
    simp only [List.count_append, inv.partition i]
    by_cases inside : i < capacity
    · rw [List.count_eq_one_of_mem List.nodup_range (List.mem_range.mpr inside), if_pos inside]
    · rw [List.count_eq_zero_of_not_mem (by simpa using inside), if_neg inside]
  simpa [Nat.add_assoc] using perm.length_eq

/-! ### Single moves -/

theorem resetFreePg (inv : WbOk capacity wb) (mem : i ∈ wb.freePgs) :
    WbInv capacity [i] [] (wb.resetFreePg i) where
  partition j := by
    have := count_erase_add j mem
    have := inv.partition j
    simp only [WriteBuffer.resetFreePg, List.count_nil] at this ⊢
    omega
  nrEntries_eq := inv.nrEntries_eq
  wflag_iff := inv.wflag_iff
  hash_iff := inv.hash_iff

theorem setFreePg (inv : WbInv capacity [i] [] wb) : WbOk capacity (wb.setFreePg i) where
  partition j := by
    have := inv.partition j
    simp only [WriteBuffer.setFreePg, List.count_append, List.count_nil] at this ⊢
    omega
  nrEntries_eq := inv.nrEntries_eq
  wflag_iff := inv.wflag_iff
  hash_iff := inv.hash_iff

theorem resetBufPg (inv : WbOk capacity wb) (mem : i ∈ wb.bufPgs) :
    WbInv capacity [i] [i] (wb.resetBufPg i) where
  partition j := by
    have := count_erase_add j mem
    have := inv.partition j
    simp only [WriteBuffer.resetBufPg, List.count_nil] at this ⊢
    omega
  nrEntries_eq := by
    change dec32 wb.nrEntries = (wb.bufPgs.erase i).length
    rw [inv.nrEntries_eq, List.length_erase_of_mem mem, dec32_of_pos (List.length_pos_of_mem mem)]
  wflag_iff := inv.wflag_iff
  hash_iff lpa j := by
    have same : j ∈ wb.bufPgs ↔ j ∈ wb.bufPgs.erase i ∨ j ∈ [i] := by
      by_cases isI : j = i
      · simp [isI, mem]
      · simp [isI, List.mem_erase_of_ne isI]
    rw [WriteBuffer.resetBufPg, inv.hash_iff lpa j]
    simp [same]

theorem setBufPg (inv : WbInv capacity [i] [i] wb) : WbOk capacity (wb.setBufPg i) where
  partition j := by
    have := inv.partition j
    simp only [WriteBuffer.setBufPg, List.count_append, List.count_nil] at this ⊢
    omega
  nrEntries_eq := by simp [WriteBuffer.setBufPg, inv.nrEntries_eq]
  wflag_iff := inv.wflag_iff
  hash_iff lpa j := by
    have := inv.hash_iff lpa j
    simpa [WriteBuffer.setBufPg] using this

theorem resetWritingPg (inv : WbOk capacity wb) (mem : i ∈ wb.writingPgs) :
    WbInv capacity [i] [i] (wb.resetWritingPg i) where
  partition j := by
    have := count_erase_add j mem
    have := inv.partition j
    simp only [WriteBuffer.resetWritingPg, WriteBuffer.updPg, List.count_nil] at this ⊢
    omega
  nrEntries_eq := inv.nrEntries_eq
  wflag_iff j := by
    have single := inv.count_le_one i
    have notAgain : i ∉ wb.writingPgs.erase i := by
      have := count_erase_add i mem
      simp only [List.count_singleton_self] at this
      rw [← List.count_eq_zero]
      omega
    by_cases isI : j = i
    · subst j
      simpa [WriteBuffer.resetWritingPg, WriteBuffer.updPg] using notAgain
    · simp [WriteBuffer.resetWritingPg, WriteBuffer.updPg, isI, List.mem_erase_of_ne isI,
        inv.wflag_iff j]
  hash_iff lpa j := by
    have same : j ∈ wb.writingPgs ↔ j ∈ wb.writingPgs.erase i ∨ j ∈ [i] := by
      by_cases isI : j = i
      · simp [isI, mem]
      · simp [isI, List.mem_erase_of_ne isI]
    have lpas : ((wb.resetWritingPg i).pgs j).lpa = (wb.pgs j).lpa := by
      by_cases isI : j = i <;> simp [WriteBuffer.resetWritingPg, WriteBuffer.updPg, isI]
    rw [lpas]
    have := inv.hash_iff lpa j
    simp only [same] at this
    simp only [WriteBuffer.resetWritingPg, WriteBuffer.updPg, this]
    tauto

theorem setWritingPg (inv : WbInv capacity [i] [i] wb) : WbOk capacity (wb.setWritingPg i) where
  partition j := by
    have := inv.partition j
    simp only [WriteBuffer.setWritingPg, WriteBuffer.updPg, List.count_append,
      List.count_nil] at this ⊢
    omega
  nrEntries_eq := inv.nrEntries_eq
  wflag_iff j := by
    by_cases isI : j = i
    · simp [WriteBuffer.setWritingPg, WriteBuffer.updPg, isI]
    · simp [WriteBuffer.setWritingPg, WriteBuffer.updPg, isI, inv.wflag_iff j]
  hash_iff lpa j := by
    have lpas : ((wb.setWritingPg i).pgs j).lpa = (wb.pgs j).lpa := by
      by_cases isI : j = i <;> simp [WriteBuffer.setWritingPg, WriteBuffer.updPg, isI]
    rw [lpas]
    have := inv.hash_iff lpa j
    simp only [WriteBuffer.setWritingPg, WriteBuffer.updPg, List.mem_append, this]
    simp only [List.mem_singleton, List.not_mem_nil]
    tauto

theorem setData (inv : WbInv capacity loose hashed wb) (i : ℕ) (data : Data) :
    WbInv capacity loose hashed (wb.updPg i fun pg => { pg with data := data }) where
  partition := inv.partition
  nrEntries_eq := inv.nrEntries_eq
  wflag_iff j := by
    by_cases isI : j = i
    · subst j
      simpa [WriteBuffer.updPg] using inv.wflag_iff i
    · simpa [WriteBuffer.updPg, isI] using inv.wflag_iff j
  hash_iff lpa j := by
    by_cases isI : j = i
    · subst j
      simpa [WriteBuffer.updPg] using inv.hash_iff lpa i
    · simpa [WriteBuffer.updPg, isI] using inv.hash_iff lpa j

theorem loose_notMem (inv : WbInv capacity [i] hashed wb) :
    i ∉ wb.freePgs ∧ i ∉ wb.writingPgs ∧ i ∉ wb.bufPgs := by
  have single := inv.count_le_one i
  rw [List.count_singleton_self] at single
  refine ⟨?_, ?_, ?_⟩ <;> rw [← List.count_eq_zero] <;> omega

/-- A loose entry enters the hash table under an LPA that is not buffered. -/
theorem hashAdd (lpa : ℕ) (inv : WbInv capacity [i] [] wb) (absent : wb.hashPgs lpa = none) :
    WbInv capacity [i] [i] ((wb.updPg i fun pg => { pg with lpa := lpa }).hashAdd lpa i) where
  partition := inv.partition
  nrEntries_eq := inv.nrEntries_eq
  wflag_iff j := by
    by_cases isI : j = i
    · subst j
      simpa [WriteBuffer.hashAdd, WriteBuffer.updPg] using inv.wflag_iff i
    · simpa [WriteBuffer.hashAdd, WriteBuffer.updPg, isI] using inv.wflag_iff j
  hash_iff other j := by
    rcases inv.loose_notMem with ⟨_, notWriting, notBuf⟩
    have old := inv.hash_iff other j
    by_cases isI : j = i
    · subst j
      by_cases isLpa : other = lpa
      · simp [WriteBuffer.hashAdd, WriteBuffer.updPg, isLpa]
      · have : wb.hashPgs other ≠ some i := by
          rw [Ne, old]
          simp [notWriting, notBuf]
        simp [WriteBuffer.hashAdd, WriteBuffer.updPg, isLpa, this, Ne.symm isLpa]
    · by_cases isLpa : other = lpa
      · subst other
        rw [absent] at old
        simp only [List.not_mem_nil, or_false] at old
        simpa [WriteBuffer.hashAdd, WriteBuffer.updPg, isI, Ne.symm isI] using old
      · simpa [WriteBuffer.hashAdd, WriteBuffer.updPg, isI, isLpa] using old

theorem hashDel (inv : WbInv capacity [i] [i] wb) : WbInv capacity [i] [] (wb.hashDel i) where
  partition := inv.partition
  nrEntries_eq := inv.nrEntries_eq
  wflag_iff := inv.wflag_iff
  hash_iff lpa j := by
    rcases inv.loose_notMem with ⟨_, notWriting, notBuf⟩
    have old := inv.hash_iff lpa j
    have mine := (inv.hash_iff (wb.pgs i).lpa i).mpr (by simp)
    by_cases isLpa : lpa = (wb.pgs i).lpa
    · subst lpa
      rw [mine, Option.some.injEq] at old
      simp only [WriteBuffer.hashDel, Function.update_self]
      simp only [reduceCtorEq, List.not_mem_nil, or_false, false_iff, not_and]
      intro held same
      have isI := old.mpr ⟨by tauto, same⟩
      subst j
      exact held.elim notWriting notBuf
    · simp only [WriteBuffer.hashDel, Function.update_of_ne isLpa, old, List.mem_singleton,
        List.not_mem_nil, or_false]
      refine and_congr_left fun same => ?_
      have isI : j ≠ i := by
        rintro rfl
        exact isLpa same.symm
      simp [isI]

theorem resetPg (inv : WbOk capacity wb) (held : i ∈ wb.writingPgs ∨ i ∈ wb.bufPgs) :
    WbInv capacity [i] [i] (wb.resetPg i) := by
  unfold WriteBuffer.resetPg
  split_ifs with flag
  · exact inv.resetWritingPg ((inv.wflag_iff i).mp flag)
  · exact inv.resetBufPg (held.resolve_left (mt (inv.wflag_iff i).mpr flag))

theorem held_of_hash (inv : WbOk capacity wb) (found : wb.hashPgs lpa = some i) :
    (i ∈ wb.writingPgs ∨ i ∈ wb.bufPgs) ∧ (wb.pgs i).lpa = lpa := by
  simpa using (inv.hash_iff lpa i).mp found

theorem hash_of_held (inv : WbOk capacity wb) (held : i ∈ wb.writingPgs ∨ i ∈ wb.bufPgs) :
    wb.hashPgs (wb.pgs i).lpa = some i :=
  (inv.hash_iff _ i).mpr ⟨by tauto, rfl⟩

end WbInv

/-! ### What the operations do to the content -/

namespace WriteBuffer

variable {Data : Type} {capacity lpa i n : ℕ} {wb other : WriteBuffer Data} {data : Data}

theorem content_congr (hash : other.hashPgs = wb.hashPgs) (entry : other.entry = wb.entry) :
    other.content = wb.content := by
  funext lpa
  change (other.hashPgs lpa).map (fun i => (other.entry i).2) =
    (wb.hashPgs lpa).map fun i => (wb.entry i).2
  rw [hash, entry]

@[simp]
theorem entry_setWritingPg (wb : WriteBuffer Data) (i : ℕ) : (wb.setWritingPg i).entry = wb.entry := by
  funext j
  by_cases isI : j = i <;> simp [setWritingPg, updPg, entry, isI]

@[simp]
theorem entry_resetWritingPg (wb : WriteBuffer Data) (i : ℕ) :
    (wb.resetWritingPg i).entry = wb.entry := by
  funext j
  by_cases isI : j = i <;> simp [resetWritingPg, updPg, entry, isI]

@[simp]
theorem entry_resetPg (wb : WriteBuffer Data) (i : ℕ) : (wb.resetPg i).entry = wb.entry := by
  unfold resetPg
  split_ifs
  · exact entry_resetWritingPg wb i
  · rfl

@[simp]
theorem hashPgs_resetPg (wb : WriteBuffer Data) (i : ℕ) : (wb.resetPg i).hashPgs = wb.hashPgs := by
  unfold resetPg
  split_ifs <;> rfl

theorem content_setData (lpa : ℕ) (found : wb.hashPgs lpa = some i)
    (unique : ∀ other, wb.hashPgs other = some i → other = lpa) (data : Data) :
    (wb.updPg i fun pg => { pg with data := data }).content =
      Function.update wb.content lpa (some data) := by
  funext other
  change (wb.hashPgs other).map (fun j => _) = _
  by_cases same : other = lpa
  · subst other
    simp [found, updPg]
  · rw [Function.update_of_ne same]
    change _ = (wb.hashPgs other).map fun j => (wb.pgs j).data
    rcases holder : wb.hashPgs other with _ | j
    · rfl
    · have : j ≠ i := by
        rintro rfl
        exact same (unique other holder)
      simp [updPg, this]

theorem content_hashDel (wb : WriteBuffer Data) (i : ℕ) :
    (wb.hashDel i).content = Function.update wb.content (wb.entry i).1 none := by
  funext other
  change ((wb.hashDel i).hashPgs other).map (fun j => (wb.pgs j).data) = _
  by_cases same : other = (wb.entry i).1
  · subst other
    simp [hashDel, entry]
  · rw [Function.update_of_ne same]
    simp only [entry] at same
    simp only [hashDel, Function.update_of_ne same]
    rfl

/-- `fb_put_pg` fails exactly when the LPA is not buffered and no entry is free. -/
theorem putPg_eq_none : wb.putPg lpa data = none ↔ wb.content lpa = none ∧ wb.freePgs = [] := by
  change _ ↔ (wb.hashPgs lpa).map _ = none ∧ _
  unfold putPg getBufPg
  rcases wb.hashPgs lpa with _ | i
  · rcases wb.freePgs with _ | ⟨i, rest⟩ <;> simp
  · simp

theorem putPg_some (inv : WbOk capacity wb) (put : wb.putPg lpa data = some other) :
    WbOk capacity other ∧ other.content = Function.update wb.content lpa (some data) ∧
      (wb.writingPgs = [] → other.writingPgs = []) := by
  unfold putPg getBufPg at put
  rcases found : wb.hashPgs lpa with _ | i
  · rcases head : wb.freePgs.head? with _ | i
    · simp [found, head] at put
    · simp only [found, head, Option.some.injEq] at put
      subst put
      have loose := inv.resetFreePg (mem_of_head?_eq head)
      have hashed := loose.hashAdd lpa found
      refine ⟨(hashed.setData i data).setBufPg, ?_, fun idle => idle⟩
      refine (content_setData lpa (by simp [hashAdd]) (fun other known => ?_) data).trans ?_
      · have mine := (hashed.hash_iff other i).mp known
        simpa [hashAdd, updPg] using mine.2.symm
      · funext other
        by_cases same : other = lpa
        · simp [same]
        · rw [Function.update_of_ne same, Function.update_of_ne same]
          refine (congrArg _ (Function.update_of_ne same _ _)).trans ?_
          refine Option.map_congr fun j _ => ?_
          by_cases isI : j = i <;> simp [hashAdd, updPg, resetFreePg, isI]
  · simp only [found, Option.some.injEq] at put
    subst put
    rcases inv.held_of_hash found with ⟨held, lpa_eq⟩
    have hashed := inv.resetPg held
    refine ⟨(hashed.setData i data).setBufPg, ?_, fun idle => ?_⟩
    · have same : (wb.resetPg i).content = wb.content :=
        content_congr (hashPgs_resetPg wb i) (entry_resetPg wb i)
      rw [← same]
      refine content_setData lpa (by simpa using found) (fun other known => ?_) data
      rw [hashPgs_resetPg] at known
      rw [← (inv.held_of_hash known).2, lpa_eq]
    · have notWriting : i ∉ wb.writingPgs := by simp [idle]
      have flag := mt (inv.wflag_iff i).mp notWriting
      simpa [resetPg, flag, setBufPg, resetBufPg, updPg] using idle

/-- What `fb_get_pgs_to_write` has done after moving some pages. -/
structure Taken (capacity : ℕ) (wb : WriteBuffer Data) (taken : List ℕ) (other : WriteBuffer Data) :
    Prop where
  inv : WbOk capacity other
  bufPgs : wb.bufPgs = taken ++ other.bufPgs
  writingPgs : other.writingPgs = wb.writingPgs ++ taken
  freePgs : other.freePgs = wb.freePgs
  hashPgs : other.hashPgs = wb.hashPgs
  entry : other.entry = wb.entry

/-- The loop of `fb_get_pgs_to_write` takes the pages that were put first and emits their LPAs
and data. -/
theorem takePgs_spec (inv : WbOk capacity wb) (enough : n ≤ wb.bufPgs.length) :
    ∃ taken, taken.length = n ∧ (takePgs n wb).1 = taken.map wb.entry ∧
      Taken capacity wb taken (takePgs n wb).2 := by
  induction n generalizing wb with
  | zero => exact ⟨[], rfl, rfl, inv, rfl, by simp [takePgs], rfl, rfl, rfl⟩
  | succ n ih =>
      rcases buffered : wb.bufPgs with _ | ⟨i, rest⟩
      · simp [buffered] at enough
      have moved := (inv.resetBufPg (i := i) (by simp [buffered])).setWritingPg
      have restBuf : ((wb.resetBufPg i).setWritingPg i).bufPgs = rest := by
        simp [setWritingPg, updPg, resetBufPg, buffered]
      have sameEntry : ((wb.resetBufPg i).setWritingPg i).entry = wb.entry :=
        entry_setWritingPg _ _
      rw [buffered, List.length_cons] at enough
      rcases ih moved (by rw [restBuf]; omega) with ⟨taken, length, emitted, result⟩
      have step : takePgs (n + 1) wb = (wb.entry i ::
          (takePgs n ((wb.resetBufPg i).setWritingPg i)).1,
            (takePgs n ((wb.resetBufPg i).setWritingPg i)).2) := by
        simp [takePgs, buffered, entry]
      rw [sameEntry] at emitted
      refine ⟨i :: taken, by simp [length], by simp [step, emitted], ?_⟩
      rw [step]
      exact
        { inv := result.inv
          bufPgs := by rw [List.cons_append, ← result.bufPgs, restBuf, buffered]
          writingPgs := by
            rw [result.writingPgs]
            simp [setWritingPg, updPg, resetBufPg]
          freePgs := result.freePgs
          hashPgs := result.hashPgs
          entry := result.entry.trans sameEntry }

theorem Taken.content {taken : List ℕ} (result : Taken capacity wb taken other) :
    other.content = wb.content :=
  content_congr result.hashPgs result.entry

theorem content_entry (inv : WbOk capacity wb) (held : i ∈ wb.writingPgs ∨ i ∈ wb.bufPgs) :
    wb.content (wb.entry i).1 = some (wb.entry i).2 := by
  change (wb.hashPgs (wb.pgs i).lpa).map _ = _
  rw [inv.hash_of_held held]
  rfl

theorem nodup_lpas (inv : WbOk capacity wb) {taken : List ℕ} (nodup : taken.Nodup)
    (held : ∀ i ∈ taken, i ∈ wb.writingPgs ∨ i ∈ wb.bufPgs) :
    ((taken.map wb.entry).map Prod.fst).Nodup := by
  rw [List.map_map]
  refine List.Nodup.map_on (fun i mem j memJ same => ?_) nodup
  have mine := inv.hash_of_held (held i mem)
  have other := inv.hash_of_held (held j memJ)
  simp only [entry, Function.comp_apply] at same
  rw [same, other] at mine
  simpa using mine.symm

theorem nodup_bufPgs (inv : WbOk capacity wb) : wb.bufPgs.Nodup := by
  refine List.nodup_iff_count_le_one.mpr fun i => ?_
  have := inv.count_le_one i
  omega

theorem rmWrittenPg_spec (inv : WbOk capacity wb) (writing : i ∈ wb.writingPgs) :
    WbOk capacity (wb.rmWrittenPg i) ∧
      (wb.rmWrittenPg i).content = Function.update wb.content (wb.entry i).1 none ∧
      (wb.rmWrittenPg i).writingPgs = wb.writingPgs.erase i ∧
      (wb.rmWrittenPg i).bufPgs = wb.bufPgs ∧
      (wb.rmWrittenPg i).freePgs = wb.freePgs ++ [i] ∧ (wb.rmWrittenPg i).entry = wb.entry := by
  have loose := inv.resetWritingPg writing
  have same : (wb.resetWritingPg i).content = wb.content :=
    content_congr rfl (entry_resetWritingPg wb i)
  refine ⟨loose.hashDel.setFreePg, ?_, rfl, rfl, rfl, entry_resetWritingPg wb i⟩
  refine (content_hashDel (wb.resetWritingPg i) i).trans ?_
  rw [same, entry_resetWritingPg]

/-- What `fb_rm_written_pgs` leaves behind. -/
structure WrittenRemoved (capacity : ℕ) (wb other : WriteBuffer Data) : Prop where
  inv : WbOk capacity other
  content : other.content = wb.content.discard ((wb.writingPgs.map wb.entry).map Prod.fst)
  writingPgs : other.writingPgs = []
  bufPgs : other.bufPgs = wb.bufPgs
  freePgs : other.freePgs = wb.freePgs ++ wb.writingPgs

theorem rmWrittenPgs_spec (inv : WbOk capacity wb) : WrittenRemoved capacity wb wb.rmWrittenPgs := by
  suffices spec : ∀ writing (wb : WriteBuffer Data), WbOk capacity wb → wb.writingPgs = writing →
      WrittenRemoved capacity wb (writing.foldl rmWrittenPg wb) from spec _ wb inv rfl
  intro writing
  induction writing with
  | nil =>
      intro wb inv idle
      exact ⟨inv, by simp [idle, Store.discard], idle, rfl, by simp [idle]⟩
  | cons i rest ih =>
      intro wb inv writing
      rcases rmWrittenPg_spec inv (i := i) (by simp [writing]) with
        ⟨nextInv, content, writingPgs, bufPgs, freePgs, entry⟩
      have result := ih (wb.rmWrittenPg i) nextInv (by rw [writingPgs, writing]; simp)
      rw [List.foldl_cons]
      refine ⟨result.inv, ?_, result.writingPgs, result.bufPgs.trans bufPgs, ?_⟩
      · rw [result.content, content, entry, writingPgs, writing]
        simp [Store.discard_cons]
      · rw [result.freePgs, freePgs, writingPgs, writing]
        simp

theorem entry_rmWrittenPgs (wb : WriteBuffer Data) : wb.rmWrittenPgs.entry = wb.entry := by
  unfold rmWrittenPgs
  apply foldl_preserves (fun other : WriteBuffer Data => other.entry = wb.entry)
  · intro i _ other same
    exact (entry_resetWritingPg other i).trans same
  · rfl

theorem rmBufPg_spec (inv : WbOk capacity wb) (lpa : ℕ) :
    WbOk capacity (wb.rmBufPg lpa) ∧
      (wb.rmBufPg lpa).content = Function.update wb.content lpa none ∧
      (wb.writingPgs = [] → (wb.rmBufPg lpa).writingPgs = []) := by
  unfold rmBufPg getBufPg
  rcases found : wb.hashPgs lpa with _ | i
  · have absent : wb.content lpa = none := by
      change (wb.hashPgs lpa).map _ = none
      rw [found]
      rfl
    refine ⟨inv, ?_, fun idle => idle⟩
    rw [← absent, Function.update_eq_self]
  · rcases inv.held_of_hash found with ⟨held, lpa_eq⟩
    have same : (wb.resetPg i).content = wb.content :=
      content_congr (hashPgs_resetPg wb i) (entry_resetPg wb i)
    refine ⟨(inv.resetPg held).hashDel.setFreePg, ?_, fun idle => ?_⟩
    · refine (content_hashDel (wb.resetPg i) i).trans ?_
      rw [same, entry_resetPg, ← lpa_eq]
      rfl
    · have notWriting : i ∉ wb.writingPgs := by simp [idle]
      have flag := mt (inv.wflag_iff i).mp notWriting
      simpa [resetPg, flag, hashDel, setFreePg, resetBufPg] using idle

end WriteBuffer

end FlashBench
