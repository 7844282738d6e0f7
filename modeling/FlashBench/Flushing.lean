import FlashBench.ForegroundGc
import FlashBench.Main
import FlashBench.Reachable
import FlashBench.WriteBufferMap

/-!
# Flushing the write buffer

The content of the device is that of the write buffer laid over that of the flash.
`fb_wb_flush` moves pages from one to the other, those put first before the others, and
this does not show. The write buffer may have any capacity here.
-/

namespace FlashBench

/-- A call of `make_write_request_page_mapping`. -/
structure FtlCall where
  fb : Fb
  lpas : Slot → ℕ
  pgBuf : Slot → PageData

namespace FtlCall

/-- What the call returns. -/
def ret (G : Geometry) (call : FtlCall) : Ret :=
  (call.fb.makeWriteRequest G call.lpas call.pgBuf).1

/-- The logical pages that the call passes on. -/
def pairs (call : FtlCall) : List (ℕ × PageData) :=
  pagePairs (List.finRange nrLpInPp) call.lpas call.pgBuf

end FtlCall

namespace FbContext

variable (G : Geometry)

/-- The data of an LPA: in the write buffer, else on flash. -/
def content (ctx : FbContext) : Store ℕ PageData :=
  Store.overlay ctx.wb.content (ctx.fb.flashData G)

/-- The calls of `make_write_request_page_mapping` in the loop of `fb_wb_flush`. -/
def wbFlushLoopCalls : ℕ → FbContext → List FtlCall
  | 0, _ => []
  | passes + 1, ctx =>
      match ctx.wb.getPgsToWrite nrLpInPp with
      | (none, _) => []
      | (some pgs, wb) =>
          let lpas : Slot → ℕ := fun lp => ((pgs[(lp : ℕ)]?).map Prod.fst).getD pageUnmapped
          let pgBuf : Slot → PageData := fun lp => ((pgs[(lp : ℕ)]?).map Prod.snd).getD erasedPage
          ⟨ctx.fb, lpas, pgBuf⟩ ::
            match ctx.fb.makeWriteRequest G lpas pgBuf with
            | (.ok, fb) => wbFlushLoopCalls passes { ctx with fb := fb, wb := wb.rmWrittenPgs }
            | _ => []

/-- The calls of `make_write_request_page_mapping` in `fb_wb_flush`. -/
def wbFlushCalls (ctx : FbContext) : List FtlCall := wbFlushLoopCalls G (ctx.wb.nrEntries + 1) ctx

end FbContext

/-- The invariant of the flash and of a write buffer of some capacity. -/
structure BufferedInv (G : Geometry) (garbage : Garbage) (capacity : ℕ) (ctx : FbContext) :
    Prop where
  reachable : Reachable G garbage ctx.fb
  wbOk : WbOk capacity ctx.wb
  inRange : ∀ lpa, ctx.wb.content lpa ≠ none → lpa < G.numLogPages

section Flushing

variable {G : Geometry} {garbage : Garbage} {capacity : ℕ} {ctx : FbContext}

theorem pagePairs_getElem (pairs : List (ℕ × PageData)) (length : pairs.length = nrLpInPp)
    (mapped : ∀ pair ∈ pairs, pair.1 ≠ pageUnmapped) :
    pagePairs (List.finRange nrLpInPp)
      (fun lp => ((pairs[(lp : ℕ)]?).map Prod.fst).getD pageUnmapped)
      (fun lp => ((pairs[(lp : ℕ)]?).map Prod.snd).getD erasedPage) = pairs := by
  rcases pairs with _ | ⟨first, _ | ⟨second, _ | ⟨third, _ | ⟨fourth, _ | ⟨fifth, rest⟩⟩⟩⟩⟩ <;>
    simp [nrLpInPp] at length
  simp only [List.mem_cons, List.not_mem_nil, or_false, forall_eq_or_imp, forall_eq] at mapped
  simp [pagePairs, nrLpInPp, List.finRange_succ, mapped]

/-- What `fb_wb_flush` does with the calls that it makes. -/
structure FlushRun (G : Geometry) (garbage : Garbage) (capacity : ℕ) (ctx : FbContext)
    (calls : List FtlCall) (result : Ret × FbContext) : Prop where
  returns : result.1 ≠ .hang
  inv : BufferedInv G garbage capacity result.2
  content : result.2.content G = ctx.content G
  err : result.2.err = ctx.err
  ok_iff : result.1 = .ok ↔ ∀ call ∈ calls, call.ret G = .ok
  passed : calls.flatMap FtlCall.pairs =
    (ctx.wb.bufPgs.take (nrLpInPp * calls.length)).map ctx.wb.entry
  done : result.1 = .ok → result.2.wb.writingPgs = [] ∧
    result.2.wb.bufPgs = ctx.wb.bufPgs.drop (nrLpInPp * calls.length) ∧
    result.2.wb.bufPgs.length < nrLpInPp

/-- `fb_wb_flush` when fewer pages than one physical page are left. -/
theorem flushRun_end (inv : BufferedInv G garbage capacity ctx) (idle : ctx.wb.writingPgs = [])
    (few : ctx.wb.bufPgs.length < nrLpInPp) : FlushRun G garbage capacity ctx [] (.ok, ctx) where
  returns := by simp
  inv := inv
  content := rfl
  err := rfl
  ok_iff := by simp
  passed := rfl
  done := fun _ => ⟨idle, rfl, few⟩

/-- The pages that `fb_get_pgs_to_write` hands over have LPAs of the table. -/
theorem BufferedInv.entry_inRange (inv : BufferedInv G garbage capacity ctx) {i : ℕ}
    (held : i ∈ ctx.wb.writingPgs ∨ i ∈ ctx.wb.bufPgs) : (ctx.wb.entry i).1 < G.numLogPages := by
  refine inv.inRange _ ?_
  rw [WriteBuffer.content_entry inv.wbOk held]
  simp

/-- Four pages that were taken out of the buffered list are on flash: forgetting them does not
show. -/
theorem flushed (inv : BufferedInv G garbage capacity ctx) (idle : ctx.wb.writingPgs = [])
    {taken : List ℕ} {wb : WriteBuffer PageData} (result : WriteBuffer.Taken capacity ctx.wb taken wb)
    {fb : Fb} (reachable : Reachable G garbage fb)
    (written : fb.flashData G = (ctx.fb.flashData G).write (taken.map ctx.wb.entry)) :
    BufferedInv G garbage capacity { ctx with fb := fb, wb := wb.rmWrittenPgs } ∧
      FbContext.content G { ctx with fb := fb, wb := wb.rmWrittenPgs } = ctx.content G := by
  have removed := WriteBuffer.rmWrittenPgs_spec result.inv
  have content := removed.content
  rw [result.content, result.writingPgs, idle, List.nil_append, result.entry] at content
  have held : ∀ i ∈ taken, i ∈ ctx.wb.writingPgs ∨ i ∈ ctx.wb.bufPgs := by
    intro i mem
    rw [result.bufPgs]
    exact Or.inr (by simp [mem])
  have nodup : taken.Nodup := by
    have all := WriteBuffer.nodup_bufPgs inv.wbOk
    rw [result.bufPgs] at all
    exact (List.nodup_append.mp all).1
  refine ⟨⟨reachable, removed.inv, fun lpa present => inv.inRange lpa ?_⟩, ?_⟩
  · simp only [content, Store.discard_apply] at present
    split_ifs at present
    · exact absurd rfl present
    · exact present
  · simp only [FbContext.content, content, written]
    refine Store.overlay_flush (WriteBuffer.nodup_lpas inv.wbOk nodup held) ?_
    intro pair mem
    rcases List.mem_map.mp mem with ⟨i, iMem, rfl⟩
    exact WriteBuffer.content_entry inv.wbOk (held i iMem)

theorem FlushRun.next {taken : List ℕ} {fb : Fb} {wb : WriteBuffer PageData} {call : FtlCall}
    {calls : List FtlCall} {result : Ret × FbContext} (length : taken.length = nrLpInPp)
    (moved : WriteBuffer.Taken capacity ctx.wb taken wb) (callOk : call.ret G = .ok)
    (pairs : call.pairs = taken.map ctx.wb.entry)
    (same : FbContext.content G { ctx with fb := fb, wb := wb.rmWrittenPgs } = ctx.content G)
    (rest : FlushRun G garbage capacity { ctx with fb := fb, wb := wb.rmWrittenPgs } calls result) :
    FlushRun G garbage capacity ctx (call :: calls) result := by
  have removed := WriteBuffer.rmWrittenPgs_spec moved.inv
  have counted : nrLpInPp * (call :: calls).length = taken.length + nrLpInPp * calls.length := by
    rw [List.length_cons, length]
    ring
  refine ⟨rest.returns, rest.inv, rest.content.trans same, rest.err, ?_, ?_, fun ok => ?_⟩
  · rw [rest.ok_iff]
    simp [callOk]
  · rw [List.flatMap_cons, pairs, rest.passed, counted, moved.bufPgs, List.take_length_add_append,
      List.map_append]
    simp only [removed.bufPgs, WriteBuffer.entry_rmWrittenPgs, moved.entry]
  · rcases rest.done ok with ⟨idle, left, few⟩
    refine ⟨idle, ?_, few⟩
    rw [left, counted, moved.bufPgs, List.drop_length_add_append, removed.bufPgs]

/-- What `fb_get_pgs_to_write` hands over when it has enough pages, as the arguments of the next
call. -/
structure FlushTakes (G : Geometry) (capacity : ℕ) (ctx : FbContext) (lpas : Slot → ℕ)
    (pgBuf : Slot → PageData) (taken : List ℕ) (wb : WriteBuffer PageData) : Prop where
  length : taken.length = nrLpInPp
  moved : WriteBuffer.Taken capacity ctx.wb taken wb
  inRange : ∀ lp, lpas lp < G.numLogPages
  pairs : pagePairs (List.finRange nrLpInPp) lpas pgBuf = taken.map ctx.wb.entry
  loop : ∀ passes, ctx.wbFlushLoop G (passes + 1) =
    match ctx.fb.makeWriteRequest G lpas pgBuf with
    | (.ok, fb) => FbContext.wbFlushLoop G passes { ctx with fb := fb, wb := wb.rmWrittenPgs }
    | (ret, fb) => (ret, { ctx with fb := fb, wb := wb })
  calls : ∀ passes, ctx.wbFlushLoopCalls G (passes + 1) = ⟨ctx.fb, lpas, pgBuf⟩ ::
    match ctx.fb.makeWriteRequest G lpas pgBuf with
    | (.ok, fb) => FbContext.wbFlushLoopCalls G passes { ctx with fb := fb, wb := wb.rmWrittenPgs }
    | _ => []

theorem BufferedInv.flushTakes (inv : BufferedInv G garbage capacity ctx)
    (full : nrLpInPp ≤ ctx.wb.bufPgs.length) :
    ∃ lpas pgBuf taken wb, FlushTakes G capacity ctx lpas pgBuf taken wb := by
  rcases WriteBuffer.takePgs_spec inv.wbOk full with ⟨taken, length, emitted, moved⟩
  have takes : ctx.wb.getPgsToWrite nrLpInPp =
      (some (taken.map ctx.wb.entry), (ctx.wb.takePgs nrLpInPp).2) := by
    unfold WriteBuffer.getPgsToWrite
    rw [if_pos (by rw [inv.wbOk.nrEntries_eq]; exact full)]
    simp only [emitted]
  generalize (ctx.wb.takePgs nrLpInPp).2 = wb at takes moved
  have held : ∀ i ∈ taken, i ∈ ctx.wb.writingPgs ∨ i ∈ ctx.wb.bufPgs := by
    intro i mem
    rw [moved.bufPgs]
    exact Or.inr (by simp [mem])
  have mapped : ∀ pair ∈ taken.map ctx.wb.entry, pair.1 < G.numLogPages := by
    intro pair mem
    rcases List.mem_map.mp mem with ⟨i, iMem, rfl⟩
    exact inv.entry_inRange (held i iMem)
  refine ⟨_, _, taken, wb, length, moved, fun lp => ?_,
    pagePairs_getElem (taken.map ctx.wb.entry) (by simpa using length)
      fun pair mem => (mapped pair mem).trans G.numLogPages_lt |>.ne, fun passes => ?_,
    fun passes => ?_⟩
  · have inside : (lp : ℕ) < (taken.map ctx.wb.entry).length := by
      have := slot_lt lp
      simp only [List.length_map, length, nrLpInPp]
      omega
    simp only [List.getElem?_eq_getElem inside, Option.map_some, Option.getD_some]
    exact mapped _ (List.getElem_mem inside)
  · split
    · next fb written => simp only [FbContext.wbFlushLoop, takes, written]
    · next ret fb notOk written =>
        cases ret with
        | ok => exact absurd rfl notOk
        | fail | hang => simp only [FbContext.wbFlushLoop, takes, written]
  · simp only [FbContext.wbFlushLoopCalls, takes]

/-- The loop of `fb_wb_flush` ends when fewer pages than one physical page are left. -/
theorem BufferedInv.flushEnds (inv : BufferedInv G garbage capacity ctx)
    (few : ctx.wb.bufPgs.length < nrLpInPp) (passes : ℕ) :
    ctx.wbFlushLoop G (passes + 1) = (.ok, ctx) ∧
      ctx.wbFlushLoopCalls G (passes + 1) = [] := by
  have takes : ctx.wb.getPgsToWrite nrLpInPp = (none, ctx.wb) := by
    unfold WriteBuffer.getPgsToWrite
    rw [if_neg (by rw [inv.wbOk.nrEntries_eq]; omega)]
  simp [FbContext.wbFlushLoop, FbContext.wbFlushLoopCalls, takes]

/-- After a write to flash that returns 0 the taken pages are on flash and out of the buffer. -/
theorem FlushTakes.written {lpas : Slot → ℕ} {pgBuf : Slot → PageData} {taken : List ℕ}
    {wb : WriteBuffer PageData} {fb : Fb} (takes : FlushTakes G capacity ctx lpas pgBuf taken wb)
    (inv : BufferedInv G garbage capacity ctx) (idle : ctx.wb.writingPgs = [])
    (writes : ctx.fb.makeWriteRequest G lpas pgBuf = (.ok, fb)) :
    (BufferedInv G garbage capacity { ctx with fb := fb, wb := wb.rmWrittenPgs } ∧
      FbContext.content G { ctx with fb := fb, wb := wb.rmWrittenPgs } = ctx.content G) ∧
    wb.rmWrittenPgs.writingPgs = [] ∧
      wb.rmWrittenPgs.bufPgs.length + nrLpInPp = ctx.wb.bufPgs.length := by
  have moved := takes.moved
  have removed := WriteBuffer.rmWrittenPgs_spec moved.inv
  have outcome := writeOutcome_makeWriteRequest pgBuf inv.reachable.inv
    fun lp => Or.inr (takes.inRange lp)
  have content := outcome.flashData_eq
  have reachable := inv.reachable.exec (.write lpas pgBuf) takes.inRange
  simp only [Command.exec] at reachable
  rw [writes] at reachable content
  simp only [if_true, takes.pairs] at reachable content
  refine ⟨flushed inv idle moved reachable content, removed.writingPgs, ?_⟩
  rw [removed.bufPgs, moved.bufPgs, List.length_append, takes.length, Nat.add_comm]

theorem wbFlushLoop_run (passes : ℕ) (inv : BufferedInv G garbage capacity ctx)
    (idle : ctx.wb.writingPgs = []) (enough : ctx.wb.bufPgs.length < passes) :
    FlushRun G garbage capacity ctx (ctx.wbFlushLoopCalls G passes) (ctx.wbFlushLoop G passes) := by
  induction passes generalizing ctx with
  | zero => omega
  | succ passes ih =>
      rcases Nat.lt_or_ge ctx.wb.bufPgs.length nrLpInPp with few | full
      · rcases inv.flushEnds few passes with ⟨ends, noCalls⟩
        rw [ends, noCalls]
        exact flushRun_end inv idle few
      · rcases inv.flushTakes full with ⟨lpas, pgBuf, taken, wb, takes⟩
        rw [takes.loop, takes.calls]
        have moved := takes.moved
        have outcome := writeOutcome_makeWriteRequest pgBuf inv.reachable.inv
          fun lp => Or.inr (takes.inRange lp)
        have reachable := inv.reachable.exec (.write lpas pgBuf) takes.inRange
        simp only [Command.exec] at reachable
        have returns := outcome.returns
        have content := outcome.flashData_eq
        rcases written : ctx.fb.makeWriteRequest G lpas pgBuf with ⟨_ | _ | _, fb⟩
        · rcases takes.written inv idle written with ⟨⟨nextInv, same⟩, nextIdle, left⟩
          have pos : 0 < nrLpInPp := by decide
          have fewer : wb.rmWrittenPgs.bufPgs.length < passes := by omega
          exact FlushRun.next takes.length moved (by simp [FtlCall.ret, written]) takes.pairs same
            (ih nextInv nextIdle fewer)
        · rw [written] at reachable content
          exact
            { returns := by simp
              inv := ⟨reachable, moved.inv, fun lpa present => inv.inRange lpa (by
                rwa [moved.content] at present)⟩
              content := by
                simp only [FbContext.content, moved.content, content]
                rfl
              err := rfl
              ok_iff := by simp [FtlCall.ret, written]
              passed := by
                rw [List.flatMap_singleton, FtlCall.pairs, takes.pairs, moved.bufPgs,
                  List.length_singleton, Nat.mul_one, ← takes.length, List.take_left]
              done := by simp }
        · rw [written] at returns
          simp at returns

/-- `fb_wb_flush` returns, it passes the pages that were put first to the flash translation
layer, and it has no effect on the content. -/
theorem wbFlush_run (inv : BufferedInv G garbage capacity ctx) (idle : ctx.wb.writingPgs = []) :
    FlushRun G garbage capacity ctx (ctx.wbFlushCalls G) (ctx.wbFlush G) := by
  refine wbFlushLoop_run _ inv idle ?_
  rw [inv.wbOk.nrEntries_eq]
  omega

theorem FlushRun.freePgs_ne_nil {calls : List FtlCall} {result : Ret × FbContext}
    (run : FlushRun G garbage capacity ctx calls result) (enough : nrLpInPp ≤ capacity)
    (ok : result.1 = .ok) : result.2.wb.freePgs ≠ [] := by
  rcases run.done ok with ⟨idle, _, few⟩
  have lengths := run.inv.wbOk.lengths
  rw [idle, List.length_nil] at lengths
  apply List.ne_nil_of_length_pos
  omega

end Flushing

end FlashBench
