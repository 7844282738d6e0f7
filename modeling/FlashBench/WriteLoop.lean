import FlashBench.HostRuns

/-!
# The write loop

`make_request` puts the pages of a write bio one after the other. When no entry is free it
flushes the write buffer and decrements its unsigned loop counter, so that the increment
leads back to the same page, also to page 0. One flush is enough for a page, whatever the
capacity of the buffer, as long as it is that of a physical page.
-/

namespace FlashBench

/-- What the write loop does that leaves a trace: a page that was put, or a flush with its calls
of the flash translation layer. -/
inductive WriteEvent where
  | put (lpa : ℕ) (data : PageData)
  | flush (calls : List FtlCall)

namespace WriteEvent

/-- The calls of `make_write_request_page_mapping` in an event. -/
def ftlCalls : WriteEvent → List FtlCall
  | put _ _ => []
  | flush calls => calls

end WriteEvent

/-- The data of a page of a bio. -/
def Bio.page (bio : Bio) (loop : ℕ) : PageData := (bio.pages[loop]?).getD erasedPage

namespace FbContext

variable (G : Geometry)

/-- The write loop of `make_request` with its counter `loop`, an `u32`, and its trace. The loop
has `fuel` passes at most. -/
def countedLoop (bio : Bio) : ℕ → ℕ → FbContext → (Ret × FbContext) × List WriteEvent
  | 0, _, ctx => ((.hang, ctx), [])
  | fuel + 1, loop, ctx =>
      if loop < bio.pages.length then
        match ctx.wb.putPg (bio.lpa loop) (bio.page loop) with
        | some wb =>
            let rest := countedLoop bio fuel ((loop + 1) % 2 ^ 32) { ctx with wb := wb }
            (rest.1, .put (bio.lpa loop) (bio.page loop) :: rest.2)
        | none =>
            match ctx.wbFlush G with
            | (.ok, next) =>
                -- retry: the decrement wraps at 0, and the increment wraps back
                let rest := countedLoop bio fuel ((dec32 loop + 1) % 2 ^ 32) next
                (rest.1, .flush (ctx.wbFlushCalls G) :: rest.2)
            | failed => (failed, [.flush (ctx.wbFlushCalls G)])
      else ((.ok, ctx), [])

end FbContext

/-- The decrement of a retry is undone by the increment of the loop. -/
theorem retry_counter {loop : ℕ} (fits : loop < 2 ^ 32) : (dec32 loop + 1) % 2 ^ 32 = loop := by
  unfold dec32
  split_ifs <;> omega

section Loop

variable {G : Geometry} {garbage : Garbage} {capacity : ℕ} {ctx : FbContext} {bio : Bio} {loop : ℕ}

/-- What the loop does from page `loop` on. -/
structure LoopRun (G : Geometry) (garbage : Garbage) (capacity : ℕ) (bio : Bio) (loop : ℕ)
    (ctx : FbContext) (run : (Ret × FbContext) × List WriteEvent) : Prop where
  /-- The loop over the pages with a retry inside is this loop. -/
  result : run.1 = forEach (FbContext.putRequest G bio) (bio.requests.drop loop) ctx
  returns : run.1.1 ≠ .hang
  inv : BufferedInv G garbage capacity run.1.2
  ok_iff : run.1.1 = .ok ↔ ∀ event ∈ run.2, ∀ call ∈ event.ftlCalls, call.ret G = .ok
  idle : run.1.1 = .ok → run.1.2.wb.writingPgs = []
  content : run.1.1 = .ok →
    run.1.2.content G = (ctx.content G).write (bio.pairsOf (bio.requests.drop loop))
  events : run.1.1 = .ok → ∃ flushes : ℕ → List WriteEvent,
    (∀ page, flushes page = [] ∨ ∃ calls, flushes page = [.flush calls]) ∧
      run.2 = (List.range' loop (bio.pages.length - loop)).flatMap fun page =>
        flushes page ++ [.put (bio.lpa page) (bio.page page)]

theorem requests_drop (inside : loop < bio.pages.length) :
    bio.requests.drop loop = (loop, bio.lpa loop) :: bio.requests.drop (loop + 1) := by
  rw [List.drop_eq_getElem_cons (by simpa [Bio.requests] using inside)]
  simp [Bio.requests]

theorem countedLoop_put {fuel : ℕ} {wb : WriteBuffer PageData} (inside : loop < bio.pages.length)
    (count : bio.pages.length < 2 ^ 32)
    (put : ctx.wb.putPg (bio.lpa loop) (bio.page loop) = some wb) :
    ctx.countedLoop G bio (fuel + 1) loop =
      ((FbContext.countedLoop G bio fuel (loop + 1) { ctx with wb := wb }).1,
        .put (bio.lpa loop) (bio.page loop) ::
          (FbContext.countedLoop G bio fuel (loop + 1) { ctx with wb := wb }).2) := by
  have wrap : (loop + 1) % 2 ^ 32 = loop + 1 := Nat.mod_eq_of_lt (by omega)
  rw [FbContext.countedLoop, if_pos inside, put, wrap]

theorem countedLoop_flush {fuel : ℕ} {next : FbContext} (inside : loop < bio.pages.length)
    (count : bio.pages.length < 2 ^ 32)
    (full : ctx.wb.putPg (bio.lpa loop) (bio.page loop) = none)
    (flushed : ctx.wbFlush G = (.ok, next)) :
    ctx.countedLoop G bio (fuel + 1) loop =
      ((next.countedLoop G bio fuel loop).1,
        .flush (ctx.wbFlushCalls G) :: (next.countedLoop G bio fuel loop).2) := by
  have wrap := retry_counter (show loop < 2 ^ 32 by omega)
  rw [FbContext.countedLoop, if_pos inside, full, flushed, wrap]

theorem loopRun_end (inv : BufferedInv G garbage capacity ctx) (idle : ctx.wb.writingPgs = [])
    (behind : bio.pages.length ≤ loop) :
    LoopRun G garbage capacity bio loop ctx ((.ok, ctx), []) := by
  have none_ : bio.requests.drop loop = [] := List.drop_eq_nil_of_le (by simpa [Bio.requests])
  exact
    { result := by rw [none_]; rfl
      returns := by simp
      inv := inv
      ok_iff := by simp
      idle := fun _ => idle
      content := fun _ => by rw [none_]; rfl
      events := fun _ => ⟨fun _ => [], fun _ => Or.inl rfl, by
        rw [show bio.pages.length - loop = 0 by omega]
        rfl⟩ }

theorem BufferedInv.put (inv : BufferedInv G garbage capacity ctx) (idle : ctx.wb.writingPgs = [])
    {lpa : ℕ} {data : PageData} (inside : lpa < G.numLogPages) {wb : WriteBuffer PageData}
    (put : ctx.wb.putPg lpa data = some wb) :
    BufferedInv G garbage capacity { ctx with wb := wb } ∧ wb.writingPgs = [] ∧
      FbContext.content G { ctx with wb := wb } = (ctx.content G).write [(lpa, data)] := by
  rcases WriteBuffer.putPg_some inv.wbOk put with ⟨wbOk, content, stillIdle⟩
  refine ⟨⟨inv.reachable, wbOk, fun other present => ?_⟩, stillIdle idle, ?_⟩
  · by_cases same : other = lpa
    · exact same ▸ inside
    · rw [content, Function.update_of_ne same] at present
      exact inv.inRange other present
  · simp only [FbContext.content, content, Store.overlay_update_some]
    rfl

/-- A page is put, after some flushes or none, and the loop goes on with the next page. -/
theorem LoopRun.next {middle other : FbContext} {rest : (Ret × FbContext) × List WriteEvent}
    {flush : List WriteEvent} (inside : loop < bio.pages.length)
    (put : FbContext.putRequest G bio (loop, bio.lpa loop) ctx = (.ok, other))
    (same : middle.content G = ctx.content G)
    (content : other.content G = (middle.content G).write [(bio.lpa loop, bio.page loop)])
    (one : flush = [] ∨ ∃ calls, flush = [.flush calls])
    (flushOk : ∀ event ∈ flush, ∀ call ∈ event.ftlCalls, call.ret G = .ok)
    (run : LoopRun G garbage capacity bio (loop + 1) other rest) :
    LoopRun G garbage capacity bio loop ctx
      (rest.1, flush ++ .put (bio.lpa loop) (bio.page loop) :: rest.2) := by
  have step := requests_drop inside
  refine ⟨?_, run.returns, run.inv, ?_, run.idle, fun ok => ?_, fun ok => ?_⟩
  · rw [step, forEach_cons_of_ok (by rw [put]), put]
    exact run.result
  · rw [run.ok_iff]
    constructor
    · intro restOk event mem call called
      rcases List.mem_append.mp mem with early | late
      · exact flushOk event early call called
      · rcases List.mem_cons.mp late with rfl | later
        · simp [WriteEvent.ftlCalls] at called
        · exact restOk event later call called
    · exact fun allOk event mem => allOk event (by simp [mem])
  · have pairs : bio.pairsOf (bio.requests.drop loop) =
        [(bio.lpa loop, bio.page loop)] ++ bio.pairsOf (bio.requests.drop (loop + 1)) := by
      rw [step]
      rfl
    rw [pairs, Store.write_append, ← same, ← content]
    exact run.content ok
  · rcases run.events ok with ⟨flushes, shape, trace⟩
    refine ⟨Function.update flushes loop flush, fun page => ?_, ?_⟩
    · by_cases isLoop : page = loop
      · rw [isLoop, Function.update_self]
        exact one
      · rw [Function.update_of_ne isLoop]
        exact shape page
    · rw [show bio.pages.length - loop = (bio.pages.length - (loop + 1)) + 1 by omega,
        List.range'_succ, List.flatMap_cons, Function.update_self, List.append_assoc]
      simp only [List.singleton_append, trace]
      congr 2
      refine List.flatMap_congr fun page mem => ?_
      rw [List.mem_range'_1] at mem
      rw [Function.update_of_ne (by omega)]

/-- The loop ends, with one flush for a page at most, unless a write to flash fails. -/
theorem countedLoop_run (inv : BufferedInv G garbage capacity ctx)
    (idle : ctx.wb.writingPgs = []) (enough : nrLpInPp ≤ capacity)
    (count : bio.pages.length < 2 ^ 32)
    (inRange : ∀ page < bio.pages.length, bio.lpa page < G.numLogPages) (fuel : ℕ)
    (upTo : loop ≤ bio.pages.length) (passes : 2 * (bio.pages.length - loop) < fuel) :
    LoopRun G garbage capacity bio loop ctx (ctx.countedLoop G bio fuel loop) := by
  generalize left_eq : bio.pages.length - loop = left at passes
  induction left generalizing loop fuel ctx with
  | zero =>
      rcases fuel with _ | fuel
      · omega
      · have behind : ¬loop < bio.pages.length := by omega
        simpa [FbContext.countedLoop, behind] using loopRun_end inv idle (by omega)
  | succ left ih =>
      have inside : loop < bio.pages.length := by omega
      rcases fuel with _ | fuel
      · omega
      rcases put : ctx.wb.putPg (bio.lpa loop) (bio.page loop) with _ | wb
      · have flush := wbFlush_run inv idle
        rcases flushed : ctx.wbFlush G with ⟨_ | _ | _, next⟩
        · rw [flushed] at flush
          have free := flush.freePgs_ne_nil enough rfl
          have nextIdle := (flush.done rfl).1
          rcases retry : next.wb.putPg (bio.lpa loop) (bio.page loop) with _ | wb
          · exact absurd (WriteBuffer.putPg_eq_none.mp retry).2 free
          · rcases flush.inv.put nextIdle (inRange loop inside) retry with ⟨after, afterIdle, content⟩
            rcases fuel with _ | fuel
            · omega
            have rest : LoopRun G garbage capacity bio (loop + 1) { next with wb := wb }
                (FbContext.countedLoop G bio fuel (loop + 1) { next with wb := wb }) :=
              ih after afterIdle fuel (by omega) (by omega) (by omega)
            have request : FbContext.putRequest G bio (loop, bio.lpa loop) ctx =
                (.ok, { next with wb := wb }) := by
              unfold Bio.page at put retry
              simp [FbContext.putRequest, FbContext.putOrFlush, put, flushed, retry]
            have run := LoopRun.next inside request flush.content content
              (Or.inr ⟨ctx.wbFlushCalls G, rfl⟩) (by
                simpa [WriteEvent.ftlCalls] using flush.ok_iff.mp rfl) rest
            rw [countedLoop_flush inside count put flushed, countedLoop_put inside count retry]
            exact run
        · rw [flushed] at flush
          have request : FbContext.putRequest G bio (loop, bio.lpa loop) ctx = (.fail, next) := by
            unfold Bio.page at put
            simp [FbContext.putRequest, FbContext.putOrFlush, put, flushed]
          have run : LoopRun G garbage capacity bio loop ctx
              ((.fail, next), [.flush (ctx.wbFlushCalls G)]) :=
            { result := by
                rw [requests_drop inside, forEach_cons_of_not_ok (by rw [request]; simp), request]
              returns := by simp
              inv := flush.inv
              ok_iff := by simpa [WriteEvent.ftlCalls] using flush.ok_iff
              idle := by simp
              content := by simp
              events := by simp }
          simpa [FbContext.countedLoop, inside, put, flushed] using run
        · rw [flushed] at flush
          exact absurd rfl flush.returns
      · rcases inv.put idle (inRange loop inside) put with ⟨after, afterIdle, content⟩
        have rest : LoopRun G garbage capacity bio (loop + 1) { ctx with wb := wb }
            (FbContext.countedLoop G bio fuel (loop + 1) { ctx with wb := wb }) :=
          ih after afterIdle fuel (by omega) (by omega) (by omega)
        have request : FbContext.putRequest G bio (loop, bio.lpa loop) ctx =
            (.ok, { ctx with wb := wb }) := by
          unfold Bio.page at put
          simp [FbContext.putRequest, FbContext.putOrFlush, put]
        have run := LoopRun.next inside request rfl content (Or.inl rfl) (by simp) rest
        rw [countedLoop_put inside count put]
        exact run

end Loop

/-! ### The flush and the loop -/

/-- What a flush leaves behind when every page could be written to flash. -/
structure FlushEnds (G : Geometry) (ctx : FbContext) : Prop where
  returns : (ctx.wbFlush G).1 = .ok
  few : (ctx.wbFlush G).2.wb.bufPgs.length < nrLpInPp
  idle : (ctx.wbFlush G).2.wb.writingPgs = []
  free : (ctx.wbFlush G).2.wb.freePgs ≠ []
  /-- The pages that have left the buffered list were passed on, each once. -/
  passed : (ctx.wbFlushCalls G).flatMap FtlCall.pairs =
    (ctx.wb.bufPgs.take (nrLpInPp * (ctx.wbFlushCalls G).length)).map ctx.wb.entry
  left : (ctx.wbFlush G).2.wb.bufPgs =
    ctx.wb.bufPgs.drop (nrLpInPp * (ctx.wbFlushCalls G).length)
  distinct : (((ctx.wbFlushCalls G).flatMap FtlCall.pairs).map Prod.fst).Nodup

/-- What the write loop leaves behind when every page could be written to flash. -/
structure WriteLoopEnds (G : Geometry) (bio : Bio) (ctx : FbContext)
    (run : (Ret × FbContext) × List WriteEvent) : Prop where
  returns : run.1.1 = .ok
  result : run.1 = ctx.writeLoop G bio
  /-- Each page is put once, in order, after one flush or none. -/
  events : ∃ flushes : ℕ → List WriteEvent,
    (∀ page, flushes page = [] ∨ ∃ calls, flushes page = [.flush calls]) ∧
      run.2 = (List.range bio.pages.length).flatMap fun page =>
        flushes page ++ [.put (bio.lpa page) (bio.page page)]
  kept : ∀ lpa data, ctx.wb.content lpa = some data →
    (∀ page < bio.pages.length, bio.lpa page ≠ lpa) →
      run.1.2.wb.content lpa = some data ∨
        (run.1.2.wb.content lpa = none ∧ run.1.2.fb.flashData G lpa = some data)

section Ends

variable {G : Geometry} {garbage : Garbage} {capacity : ℕ} {ctx : FbContext} {bio : Bio}

theorem FlushEnds.of_run (inv : BufferedInv G garbage capacity ctx) (idle : ctx.wb.writingPgs = [])
    (enough : nrLpInPp ≤ capacity) (callsOk : ∀ call ∈ ctx.wbFlushCalls G, call.ret G = .ok) :
    FlushEnds G ctx := by
  have run := wbFlush_run inv idle
  have ok := run.ok_iff.mpr callsOk
  rcases run.done ok with ⟨nowIdle, left, few⟩
  refine ⟨ok, few, nowIdle, run.freePgs_ne_nil enough ok, run.passed, left, ?_⟩
  rw [run.passed]
  refine WriteBuffer.nodup_lpas inv.wbOk ?_ fun i mem => Or.inr (List.mem_of_mem_take mem)
  exact (WriteBuffer.nodup_bufPgs inv.wbOk).sublist (List.take_sublist _ _)

/-- What was buffered and is not overwritten is still readable from the same place or from
flash. -/
theorem LoopRun.kept {run : (Ret × FbContext) × List WriteEvent}
    (loop : LoopRun G garbage capacity bio 0 ctx run) (ok : run.1.1 = .ok) {lpa : ℕ} {data : PageData}
    (buffered : ctx.wb.content lpa = some data)
    (other : ∀ page < bio.pages.length, bio.lpa page ≠ lpa) :
    run.1.2.wb.content lpa = some data ∨
      (run.1.2.wb.content lpa = none ∧ run.1.2.fb.flashData G lpa = some data) := by
  have before : ctx.content G lpa = some data := by
    simp [FbContext.content, Store.overlay, buffered]
  have after : run.1.2.content G lpa = some data := by
    rw [loop.content ok, Store.write_of_not_mem, before]
    intro pair mem
    simp only [Bio.pairsOf, Bio.requests, List.drop_zero, List.mem_map, List.mem_range] at mem
    rcases mem with ⟨_, ⟨page, inside, rfl⟩, rfl⟩
    exact other page inside
  simp only [FbContext.content, Store.overlay] at after
  rcases held : run.1.2.wb.content lpa with _ | kept
  · rw [held] at after
    exact Or.inr ⟨rfl, after⟩
  · rw [held] at after
    exact Or.inl after

/-- For every capacity from that of a physical page on, every state of the buffer between two
bios and every write bio: as long as the writes to flash return 0, a flush ends with a free
entry and has passed every flushed page on once, and the loop ends with at most one flush for a
page and loses nothing. -/
theorem writeLoop_ends (inv : BufferedInv G garbage capacity ctx) (idle : ctx.wb.writingPgs = [])
    (enough : nrLpInPp ≤ capacity) (count : bio.pages.length < 2 ^ 32)
    (inRange : ∀ page < bio.pages.length, bio.lpa page < G.numLogPages) :
    ((∀ call ∈ ctx.wbFlushCalls G, call.ret G = .ok) → FlushEnds G ctx) ∧
    ∀ fuel, 2 * bio.pages.length < fuel →
      (∀ event ∈ (ctx.countedLoop G bio fuel 0).2, ∀ call ∈ event.ftlCalls, call.ret G = .ok) →
        WriteLoopEnds G bio ctx (ctx.countedLoop G bio fuel 0) := by
  refine ⟨FlushEnds.of_run inv idle enough, fun fuel passes callsOk => ?_⟩
  have run : LoopRun G garbage capacity bio 0 ctx (ctx.countedLoop G bio fuel 0) :=
    countedLoop_run inv idle enough count inRange fuel (Nat.zero_le _) passes
  have ok := run.ok_iff.mpr callsOk
  refine ⟨ok, run.result, ?_, fun lpa data buffered other => run.kept ok buffered other⟩
  rcases run.events ok with ⟨flushes, shape, trace⟩
  exact ⟨flushes, shape, by rw [trace, Nat.sub_zero, List.range_eq_range']⟩

theorem fillBuffer_served : (smallDevice.serveAll .threeBlocks [fillBuffer]).isSome := by
  decide +kernel

/-- The small device with a full write buffer. -/
@[irreducible]
def fullDevice : FbContext :=
  (smallDevice.serveAll .threeBlocks [fillBuffer]).get fillBuffer_served

theorem fullDevice_run :
    HostRun .threeBlocks .zeroed (fun _ => erasedPage) [fillBuffer] fullDevice := by
  apply smallDevice_run.serveAll
  · decide
  · unfold fullDevice
    exact (Option.some_get _).symm

/-- Two more pages. -/
def twoPages : Bio := pagesBio .write 8 [filledPage 1, filledPage 2]

/-- The first page finds the buffer full, waits for a flush of two physical pages, and is put when
it is tried again. -/
theorem writeLoop_ends_fullDevice :
    fullDevice.wb.freePgs = [] ∧
    ((fullDevice.countedLoop .threeBlocks twoPages 5 0).2.map fun event =>
      event.ftlCalls.length) = [2, 0, 0] ∧
    FlushEnds .threeBlocks fullDevice ∧
    WriteLoopEnds .threeBlocks twoPages fullDevice
      (fullDevice.countedLoop .threeBlocks twoPages 5 0) := by
  have full : fullDevice.wb.freePgs = [] ∧ fullDevice.wb.writingPgs = [] := by decide +kernel
  have short : twoPages.pages.length < 2 ^ 32 := by decide
  have ends := writeLoop_ends fullDevice_run.deviceRun.inv.1.buffered full.2 (by decide) short
    (by decide)
  refine ⟨full.1, by decide +kernel, ends.1 (by decide +kernel), ?_⟩
  exact ends.2 5 (by decide) (by decide +kernel)

end Ends

end FlashBench
