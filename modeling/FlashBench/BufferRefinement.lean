import FlashBench.Library.FifoMap
import FlashBench.WriteBufferMap

/-!
# The write buffer refines a bounded FIFO map

The buffered list is the waiting part of the map, and the writing list is the part
handed out. Every function of the write buffer does to both what the operation of the map
does, and returns the same.
-/

namespace FlashBench

namespace WriteBuffer

variable {Data : Type}

/-- The map that the write buffer stands for. -/
def fifo (wb : WriteBuffer Data) : FifoMap ℕ Data where
  waiting := wb.bufPgs.map wb.entry
  leaving := wb.writingPgs.map wb.entry

/-- The functions of the write buffer: `fb_put_pg`, `fb_get_pg_data`, `fb_get_pgs_to_write`,
`fb_rm_written_pgs` and `fb_rm_buf_pg`. A put that fails returns before it changes anything. -/
def exec (wb : WriteBuffer Data) :
    FifoMap.Op ℕ Data → FifoMap.Result ℕ Data × WriteBuffer Data
  | .put lpa src =>
      match wb.putPg lpa src with
      | some other => (.stored true, other)
      | none => (.stored false, wb)
  | .get lpa => (.found (wb.getPgData lpa), wb)
  | .take nrPgs => (.taken (wb.getPgsToWrite nrPgs).1, (wb.getPgsToWrite nrPgs).2)
  | .retire => (.unit, wb.rmWrittenPgs)
  | .remove lpa => (.unit, wb.rmBufPg lpa)

/-- A sequence of calls, each with what it returns. -/
def run : WriteBuffer Data → List (FifoMap.Op ℕ Data) →
    List (FifoMap.Op ℕ Data × FifoMap.Result ℕ Data) × WriteBuffer Data
  | wb, [] => ([], wb)
  | wb, op :: ops =>
      let rest := run (wb.exec op).2 ops
      ((op, (wb.exec op).1) :: rest.1, rest.2)

section Simulation

variable {capacity lpa i n : ℕ} {wb other : WriteBuffer Data} {src : Data}

/-! ### Lists of entries -/

theorem mem_fifo_keys (inv : WbOk capacity wb) :
    lpa ∈ wb.fifo.pairs.map Prod.fst ↔ ∃ i, wb.hashPgs lpa = some i := by
  simp only [fifo, FifoMap.pairs, List.map_append, List.map_map, List.mem_append, List.mem_map,
    Function.comp_apply, entry]
  constructor
  · rintro (⟨i, mem, rfl⟩ | ⟨i, mem, rfl⟩)
    · exact ⟨i, inv.hash_of_held (Or.inl mem)⟩
    · exact ⟨i, inv.hash_of_held (Or.inr mem)⟩
  · rintro ⟨i, found⟩
    rcases inv.held_of_hash found with ⟨writing | buffered, lpa_eq⟩
    · exact Or.inl ⟨i, writing, lpa_eq⟩
    · exact Or.inr ⟨i, buffered, lpa_eq⟩

theorem distinct_fifo (inv : WbOk capacity wb) : wb.fifo.Distinct := by
  have nodup : (wb.writingPgs ++ wb.bufPgs).Nodup := by
    refine List.nodup_iff_count_le_one.mpr fun i => ?_
    have := inv.count_le_one i
    rw [List.count_append]
    omega
  have keys := nodup_lpas inv nodup fun i mem => by simpa using mem
  rwa [List.map_append] at keys

/-- Taking an entry out of a list of entries in use takes its LPA out of the map. -/
theorem map_erase_entry (inv : WbOk capacity wb) (found : wb.hashPgs lpa = some i)
    {pgs : List ℕ} (nodup : pgs.Nodup) (held : ∀ j ∈ pgs, j ∈ wb.writingPgs ∨ j ∈ wb.bufPgs) :
    (pgs.erase i).map wb.entry = (pgs.map wb.entry).filter fun pair => pair.1 ≠ lpa := by
  rw [nodup.erase_eq_filter, List.filter_map]
  congr 1
  refine List.filter_congr fun j mem => ?_
  have known := inv.hash_of_held (held j mem)
  have own := (inv.held_of_hash found).2
  rw [Bool.eq_iff_iff, bne_iff_ne, Function.comp_apply, decide_eq_true_iff]
  refine not_congr ⟨fun same => by rw [same]; exact own, fun same => ?_⟩
  simp only [entry] at same
  rw [same, found] at known
  exact (Option.some.inj known).symm

theorem nodup_writingPgs (inv : WbOk capacity wb) : wb.writingPgs.Nodup := by
  refine List.nodup_iff_count_le_one.mpr fun i => ?_
  have := inv.count_le_one i
  omega

/-- `fb_wb_reset_writing_pg` and `fb_wb_reset_buf_pg` take an entry out of the map. -/
theorem resetPg_lists (inv : WbOk capacity wb) (found : wb.hashPgs lpa = some i) :
    (wb.resetPg i).bufPgs = wb.bufPgs.erase i ∧
      (wb.resetPg i).writingPgs = wb.writingPgs.erase i := by
  have held := (inv.held_of_hash found).1
  have single := inv.count_le_one i
  unfold resetPg
  split_ifs with flag
  · have writing := (inv.wflag_iff i).mp flag
    have counted := List.count_pos_iff.mpr writing
    have notBuf : i ∉ wb.bufPgs := List.count_eq_zero.mp (by omega)
    exact ⟨(List.erase_of_not_mem notBuf).symm, rfl⟩
  · have notWriting := mt (inv.wflag_iff i).mpr flag
    exact ⟨rfl, (List.erase_of_not_mem notWriting).symm⟩

theorem fifo_resetPg (inv : WbOk capacity wb) (found : wb.hashPgs lpa = some i) :
    (wb.resetPg i).fifo = wb.fifo.remove lpa := by
  rcases resetPg_lists inv found with ⟨bufPgs, writingPgs⟩
  unfold fifo FifoMap.remove
  rw [bufPgs, writingPgs, entry_resetPg,
    map_erase_entry inv found (nodup_bufPgs inv) fun _ mem => Or.inr mem,
    map_erase_entry inv found (nodup_writingPgs inv) fun _ mem => Or.inl mem]

theorem fifo_remove_of_absent (inv : WbOk capacity wb) (absent : wb.hashPgs lpa = none) :
    wb.fifo.remove lpa = wb.fifo := by
  have other (pair : ℕ × Data) (mem : pair ∈ wb.fifo.pairs) : pair.1 ≠ lpa := by
    rintro rfl
    rcases (mem_fifo_keys inv).mp (List.mem_map_of_mem mem) with ⟨i, found⟩
    rw [absent] at found
    simp at found
  unfold FifoMap.remove
  ext1
  · exact List.filter_eq_self.mpr fun pair mem => by
      simpa using other pair (List.mem_append_right _ mem)
  · exact List.filter_eq_self.mpr fun pair mem => by
      simpa using other pair (List.mem_append_left _ mem)

/-! ### The functions -/

/-- A change of an entry that is in none of the two lists does not show in the map. -/
theorem fifo_congr (bufPgs : other.bufPgs = wb.bufPgs) (writingPgs : other.writingPgs = wb.writingPgs)
    (entries : ∀ j, j ∈ wb.writingPgs ∨ j ∈ wb.bufPgs → other.entry j = wb.entry j) :
    other.fifo = wb.fifo := by
  unfold fifo
  rw [bufPgs, writingPgs]
  congr 1
  · exact List.map_congr_left fun j mem => entries j (Or.inr mem)
  · exact List.map_congr_left fun j mem => entries j (Or.inl mem)

/-- A loose entry enters the buffered list under an LPA that the map does not have. -/
theorem fifo_setBufPg {map : FifoMap ℕ Data} (same : wb.fifo = map.remove lpa)
    (entry_eq : wb.entry i = (lpa, src)) : (wb.setBufPg i).fifo = map.put lpa src := by
  rw [FifoMap.put, ← same, ← entry_eq]
  simp [fifo, setBufPg, entry]

theorem fifo_putPg (inv : WbOk capacity wb) (put : wb.putPg lpa src = some other) :
    other.fifo = wb.fifo.put lpa src := by
  unfold putPg getBufPg at put
  rcases found : wb.hashPgs lpa with _ | i
  · rcases head : wb.freePgs.head? with _ | i
    · simp [found, head] at put
    · simp only [found, head, Option.some.injEq] at put
      subst put
      rcases (inv.resetFreePg (mem_of_head?_eq head)).loose_notMem with ⟨_, notWriting, notBuf⟩
      refine fifo_setBufPg ?_ (by simp [entry, updPg, hashAdd])
      rw [fifo_remove_of_absent inv found]
      refine fifo_congr rfl rfl fun j held => ?_
      have different : j ≠ i := by
        rintro rfl
        exact held.elim notWriting notBuf
      simp [entry, updPg, hashAdd, resetFreePg, different]
  · simp only [found, Option.some.injEq] at put
    subst put
    rcases inv.held_of_hash found with ⟨held, own⟩
    rcases (inv.resetPg held).loose_notMem with ⟨_, notWriting, notBuf⟩
    have lpa_eq : ((wb.resetPg i).entry i).1 = lpa := by
      rw [entry_resetPg]
      exact own
    refine fifo_setBufPg ?_ (by simpa [entry, updPg] using lpa_eq)
    rw [← fifo_resetPg inv found]
    refine fifo_congr rfl rfl fun j heldJ => ?_
    have different : j ≠ i := by
      rintro rfl
      exact heldJ.elim notWriting notBuf
    simp [entry, updPg, different]

theorem putPg_eq_none_iff (inv : WbOk capacity wb) : wb.putPg lpa src = none ↔
    lpa ∉ wb.fifo.pairs.map Prod.fst ∧ capacity ≤ wb.fifo.pairs.length := by
  have lengths := inv.lengths
  have size : wb.fifo.pairs.length = wb.writingPgs.length + wb.bufPgs.length := by
    simp [fifo, FifoMap.pairs]
  rw [List.length_nil] at lengths
  rw [putPg_eq_none, mem_fifo_keys inv, size, ← List.length_eq_zero_iff]
  refine and_congr ?_ ⟨fun full => by omega, fun full => by omega⟩
  change (wb.hashPgs lpa).map _ = none ↔ _
  rcases wb.hashPgs lpa with _ | i <;> simp

/-- `fb_get_pgs_to_write` hands the oldest pairs out, or changes nothing. -/
theorem fifo_getPgsToWrite (inv : WbOk capacity wb) (n : ℕ) :
    (n ≤ wb.fifo.waiting.length → (wb.getPgsToWrite n).1 = some (wb.fifo.waiting.take n) ∧
      (wb.getPgsToWrite n).2.fifo = wb.fifo.take n ∧ WbOk capacity (wb.getPgsToWrite n).2) ∧
    (¬n ≤ wb.fifo.waiting.length → wb.getPgsToWrite n = (none, wb)) := by
  have size : wb.fifo.waiting.length = wb.nrEntries := by
    rw [inv.nrEntries_eq]
    simp [fifo]
  rw [size]
  unfold getPgsToWrite
  refine ⟨fun enough => ?_, fun few => if_neg few⟩
  rw [if_pos enough]
  rcases takePgs_spec inv (n := n) (by rwa [← inv.nrEntries_eq]) with ⟨taken, length, emitted, moved⟩
  have first : wb.fifo.waiting.take n = taken.map wb.entry := by
    simp [fifo, moved.bufPgs, ← length]
  refine ⟨by simp only [emitted, first], ?_, moved.inv⟩
  simp only [fifo, FifoMap.take, moved.entry, moved.writingPgs, moved.bufPgs, List.map_append]
  simp [← length]

theorem fifo_rmWrittenPgs (inv : WbOk capacity wb) : wb.rmWrittenPgs.fifo = wb.fifo.retire := by
  have removed := rmWrittenPgs_spec inv
  simp [fifo, FifoMap.retire, removed.bufPgs, removed.writingPgs, entry_rmWrittenPgs]

theorem fifo_rmBufPg (inv : WbOk capacity wb) (lpa : ℕ) :
    (wb.rmBufPg lpa).fifo = wb.fifo.remove lpa := by
  unfold rmBufPg getBufPg
  rcases found : wb.hashPgs lpa with _ | i
  · exact (fifo_remove_of_absent inv found).symm
  · rw [← fifo_resetPg inv found]
    rfl

theorem getPgData_eq (inv : WbOk capacity wb) (lpa : ℕ) :
    wb.getPgData lpa = wb.fifo.lookup lpa := by
  rcases found : wb.hashPgs lpa with _ | i
  · have absent : lpa ∉ wb.fifo.pairs.map Prod.fst := by
      rw [mem_fifo_keys inv, found]
      simp
    have lives : wb.fifo.Lives lpa .absent := absent
    rw [lives.lookup_eq (distinct_fifo inv)]
    simp [getPgData, getBufPg, found, FifoMap.Life.value]
  · rcases inv.held_of_hash found with ⟨held, own⟩
    have mem : (lpa, (wb.pgs i).data) ∈ wb.fifo.pairs := by
      rw [← own]
      rcases held with writing | buffered
      · exact List.mem_append_left _ (List.mem_map_of_mem (f := wb.entry) writing)
      · exact List.mem_append_right _ (List.mem_map_of_mem (f := wb.entry) buffered)
    have found' : wb.fifo.lookup lpa = some (wb.pgs i).data :=
      Store.write_of_mem (distinct_fifo inv) mem
    rw [found']
    simp [getPgData, getBufPg, found]

/-! ### Runs -/

/-- One call keeps the invariant, does what the map does and returns what the map returns. -/
theorem exec_refines (inv : WbOk capacity wb) (op : FifoMap.Op ℕ Data) :
    WbOk capacity (wb.exec op).2 ∧
      ((wb.exec op).1, (wb.exec op).2.fifo) = wb.fifo.exec capacity op := by
  cases op with
  | put lpa src =>
      simp only [exec, FifoMap.exec]
      rcases put : wb.putPg lpa src with _ | other
      · rw [if_pos ((putPg_eq_none_iff inv).mp put)]
        exact ⟨inv, rfl⟩
      · have stored : wb.putPg lpa src ≠ none := by simp [put]
        rw [if_neg (mt (putPg_eq_none_iff inv).mpr stored)]
        exact ⟨(putPg_some inv put).1, by rw [fifo_putPg inv put]⟩
  | get lpa => exact ⟨inv, by simp only [exec, FifoMap.exec, getPgData_eq inv]⟩
  | take n =>
      rcases fifo_getPgsToWrite inv n with ⟨enough, few⟩
      simp only [exec, FifoMap.exec]
      split_ifs with condition
      · rcases enough condition with ⟨emitted, moved, next⟩
        exact ⟨next, by rw [emitted, moved]⟩
      · rw [few condition]
        exact ⟨inv, rfl⟩
  | retire =>
      exact ⟨(rmWrittenPgs_spec inv).inv, by simp only [exec, FifoMap.exec, fifo_rmWrittenPgs inv]⟩
  | remove lpa =>
      exact ⟨(rmBufPg_spec inv lpa).1, by simp only [exec, FifoMap.exec, fifo_rmBufPg inv]⟩

theorem run_refines (inv : WbOk capacity wb) (ops : List (FifoMap.Op ℕ Data)) :
    WbOk capacity (wb.run ops).2 ∧
      ((wb.run ops).1, (wb.run ops).2.fifo) = wb.fifo.run capacity ops := by
  induction ops generalizing wb with
  | nil => exact ⟨inv, rfl⟩
  | cons op ops ih =>
      rcases exec_refines inv op with ⟨next, same⟩
      rcases ih next with ⟨last, rest⟩
      refine ⟨last, ?_⟩
      simp only [run, FifoMap.run, ← same, ← rest]

end Simulation

end WriteBuffer

/-- What holds of the write buffer after a history of calls and results. -/
structure WbRefines {Data : Type} (capacity : ℕ)
    (history : List (FifoMap.Op ℕ Data × FifoMap.Result ℕ Data)) (map : FifoMap ℕ Data)
    (wb : WriteBuffer Data) : Prop where
  /-- Every entry is in one list, and the three lists are of constant total length. -/
  partition : ∀ i, wb.freePgs.count i + wb.writingPgs.count i + wb.bufPgs.count i =
    if i < capacity then 1 else 0
  total : wb.freePgs.length + wb.writingPgs.length + wb.bufPgs.length = capacity
  hash_iff : ∀ lpa i, wb.hashPgs lpa = some i ↔
    (i ∈ wb.writingPgs ∨ i ∈ wb.bufPgs) ∧ (wb.pgs i).lpa = lpa
  distinct : ((wb.writingPgs ++ wb.bufPgs).map fun i => (wb.pgs i).lpa).Nodup
  wflag_iff : ∀ i, (wb.pgs i).wflag = true ↔ i ∈ wb.writingPgs
  nrEntries_eq : wb.nrEntries = wb.bufPgs.length
  fifo_eq : wb.fifo = map
  /-- The data of an LPA are those of the last put, unless it was removed or written out since. -/
  data_eq : ∀ lpa, wb.getPgData lpa =
    (history.foldl (FifoMap.Life.step lpa) (.absent : FifoMap.Life Data)).value
  /-- The pages handed out are those that were put first. -/
  takes : ∀ n ≤ wb.bufPgs.length, (wb.getPgsToWrite n).1 = some (map.waiting.take n) ∧
    ((map.waiting.take n).map Prod.fst).Nodup
  tooFew : ∀ n, wb.bufPgs.length < n → wb.getPgsToWrite n = (none, wb)
  /-- A page put again while it is being written keeps its new data when the written pages are
  removed. -/
  putAgain : ∀ lpa src other, wb.putPg lpa src = some other →
    other.rmWrittenPgs.getPgData lpa = some src
  fails_iff : ∀ lpa src, wb.putPg lpa src = none ↔ wb.getPgData lpa = none ∧ wb.freePgs = []

section Refinement

variable {Data : Type} {capacity lpa : ℕ} {wb other : WriteBuffer Data} {src : Data}

theorem getPgData_putAgain (inv : WbOk capacity wb) (put : wb.putPg lpa src = some other) :
    other.rmWrittenPgs.getPgData lpa = some src := by
  have after := (WriteBuffer.putPg_some inv put).1
  have removed := WriteBuffer.rmWrittenPgs_spec after
  rw [WriteBuffer.getPgData_eq removed.inv, WriteBuffer.fifo_rmWrittenPgs after,
    WriteBuffer.fifo_putPg inv put]
  have lives : (wb.fifo.put lpa src).retire.Lives lpa (.waiting src) :=
    List.mem_append_right _ (List.mem_singleton_self _)
  exact lives.lookup_eq ((WriteBuffer.distinct_fifo inv).put lpa src).retire

theorem WbRefines.of_inv {history : List (FifoMap.Op ℕ Data × FifoMap.Result ℕ Data)}
    (inv : WbOk capacity wb)
    (lives : ∀ lpa, wb.fifo.Lives lpa (history.foldl (FifoMap.Life.step lpa) .absent)) :
    WbRefines capacity history wb.fifo wb where
  partition i := by
    have := inv.partition i
    rwa [List.count_nil, Nat.zero_add] at this
  total := by
    have := inv.lengths
    rwa [List.length_nil, Nat.zero_add] at this
  hash_iff lpa i := by simpa using inv.hash_iff lpa i
  distinct := by
    have keys := WriteBuffer.distinct_fifo inv
    simpa [FifoMap.Distinct, FifoMap.pairs, WriteBuffer.fifo, WriteBuffer.entry,
      Function.comp_def] using keys
  wflag_iff := inv.wflag_iff
  nrEntries_eq := inv.nrEntries_eq
  fifo_eq := rfl
  data_eq lpa := by
    rw [WriteBuffer.getPgData_eq inv, (lives lpa).lookup_eq (WriteBuffer.distinct_fifo inv)]
  takes n enough := by
    refine ⟨((WriteBuffer.fifo_getPgsToWrite inv n).1 (by simpa [WriteBuffer.fifo] using enough)).1,
      ?_⟩
    refine (WriteBuffer.distinct_fifo inv).sublist (List.Sublist.map _ ?_)
    exact (List.take_sublist _ _).trans (List.sublist_append_right _ _)
  tooFew n few := (WriteBuffer.fifo_getPgsToWrite inv n).2 (by simpa [WriteBuffer.fifo] using few)
  putAgain _ _ _ put := getPgData_putAgain inv put
  fails_iff _ _ := WriteBuffer.putPg_eq_none

/-- For every capacity, pages of any size and every sequence of calls in any order, the write
buffer returns what a bounded FIFO map returns and stands for that map afterwards. -/
theorem writeBuffer_refines (capacity : ℕ) (garbage : ℕ → Data)
    (ops : List (FifoMap.Op ℕ Data)) :
    ((WriteBuffer.create capacity garbage).run ops).1 = (FifoMap.empty.run capacity ops).1 ∧
      WbRefines capacity ((WriteBuffer.create capacity garbage).run ops).1
        (FifoMap.empty.run capacity ops).2 ((WriteBuffer.create capacity garbage).run ops).2 := by
  rcases WriteBuffer.run_refines (WbInv.create capacity garbage) ops with ⟨inv, same⟩
  have start : (WriteBuffer.create capacity garbage).fifo = FifoMap.empty := rfl
  rw [start] at same
  have results := congrArg Prod.fst same
  have states := congrArg Prod.snd same
  simp only at results states
  refine ⟨results, ?_⟩
  rw [← states]
  refine .of_inv inv fun lpa => ?_
  have absent : (FifoMap.empty : FifoMap ℕ Data).Lives lpa .absent := List.not_mem_nil
  have lives := (absent.run FifoMap.distinct_empty capacity ops).2
  rwa [← results, ← states] at lives

end Refinement

end FlashBench
