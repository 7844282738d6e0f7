import FlashBench.Flushing

/-!
# The steps of a request

The device invariant, and what the parts of a request do to the content: flushing does
not show, and putting a page into the write buffer, with or without a flush before it,
writes that page.
-/

namespace FlashBench

/-- The invariant of the whole device. -/
structure DeviceInv (G : Geometry) (garbage : Garbage) (ctx : FbContext) : Prop where
  reachable : Reachable G garbage ctx.fb
  wbOk : WbOk (nrLpInPp * G.numChips) ctx.wb
  inRange : ∀ lpa, ctx.wb.content lpa ≠ none → lpa < G.numLogPages

/-! ### Flushing -/

section Flushing

variable {G : Geometry} {garbage : Garbage} {ctx : FbContext}

/-- A flush has no effect on the content, whether it succeeds or fails. -/
structure FlushOutcome (G : Geometry) (garbage : Garbage) (ctx : FbContext)
    (result : Ret × FbContext) : Prop where
  returns : result.1 ≠ .hang
  inv : DeviceInv G garbage result.2
  content : result.2.content G = ctx.content G
  err : result.2.err = ctx.err
  done : result.1 = .ok →
    result.2.wb.writingPgs = [] ∧ result.2.wb.bufPgs.length < nrLpInPp

theorem DeviceInv.buffered (inv : DeviceInv G garbage ctx) :
    BufferedInv G garbage (nrLpInPp * G.numChips) ctx := ⟨inv.reachable, inv.wbOk, inv.inRange⟩

theorem wbFlush_spec (inv : DeviceInv G garbage ctx) (idle : ctx.wb.writingPgs = []) :
    FlushOutcome G garbage ctx (ctx.wbFlush G) := by
  have run := wbFlush_run inv.buffered idle
  exact
    { returns := run.returns
      inv := ⟨run.inv.reachable, run.inv.wbOk, run.inv.inRange⟩
      content := run.content
      err := run.err
      done := fun ok => ⟨(run.done ok).1, (run.done ok).2.2⟩ }

end Flushing

/-! ### The write loop -/

section Writing

variable {G : Geometry} {garbage : Garbage} {ctx : FbContext} {lpa : ℕ} {data : PageData}

/-- A part of a write request stores its pairs when it succeeds, and nothing but what it stored
so far when it fails. -/
structure PutOutcome (G : Geometry) (garbage : Garbage) (ctx : FbContext)
    (pairs : List (ℕ × PageData)) (result : Ret × FbContext) : Prop where
  returns : result.1 ≠ .hang
  inv : DeviceInv G garbage result.2
  err : result.2.err = ctx.err
  content : result.1 = .ok → result.2.content G = (ctx.content G).write pairs
  idle : result.1 = .ok → result.2.wb.writingPgs = []

theorem putOutcome_of_put (inv : DeviceInv G garbage ctx) (idle : ctx.wb.writingPgs = [])
    (inside : lpa < G.numLogPages) {wb : WriteBuffer PageData} (put : ctx.wb.putPg lpa data = some wb) :
    PutOutcome G garbage ctx [(lpa, data)] (.ok, { ctx with wb := wb }) := by
  rcases WriteBuffer.putPg_some inv.wbOk put with ⟨wbOk, content, stillIdle⟩
  refine ⟨by simp, ⟨inv.reachable, wbOk, fun other present => ?_⟩, rfl, fun _ => ?_,
    fun _ => stillIdle idle⟩
  · by_cases same : other = lpa
    · exact same ▸ inside
    · rw [content, Function.update_of_ne same] at present
      exact inv.inRange other present
  · simp only [FbContext.content, content, Store.overlay_update_some]
    rfl

theorem putPg_after_flush {flushed : FbContext} (inv : DeviceInv G garbage flushed)
    (idle : flushed.wb.writingPgs = []) (few : flushed.wb.bufPgs.length < nrLpInPp)
    (lpa : ℕ) (data : PageData) : ∃ wb, flushed.wb.putPg lpa data = some wb := by
  rcases retry : flushed.wb.putPg lpa data with _ | wb
  · have full := (WriteBuffer.putPg_eq_none.mp retry).2
    have lengths := inv.wbOk.lengths
    have := G.numChips_pos
    simp only [full, idle, List.length_nil, nrLpInPp] at lengths few
    omega
  · exact ⟨wb, rfl⟩

/-- One retry is enough. -/
theorem putOrFlush_spec (lpa : ℕ) (data : PageData) (inv : DeviceInv G garbage ctx)
    (idle : ctx.wb.writingPgs = [])
    (inside : lpa < G.numLogPages) :
    PutOutcome G garbage ctx [(lpa, data)] (ctx.putOrFlush G 2 lpa data) ∧
      ((ctx.putOrFlush G 2 lpa data).1 = .fail ↔
        ctx.wb.putPg lpa data = none ∧ (ctx.wbFlush G).1 = .fail) := by
  rcases put : ctx.wb.putPg lpa data with _ | wb
  · have outcome := wbFlush_spec inv idle
    simp only [FbContext.putOrFlush, put]
    generalize ctx.wbFlush G = flush at outcome ⊢
    rcases flush with ⟨_ | _ | _, flushed⟩
    · rcases outcome.done rfl with ⟨flushedIdle, few⟩
      rcases putPg_after_flush outcome.inv flushedIdle few lpa data with ⟨wb, retry⟩
      have again := putOutcome_of_put outcome.inv flushedIdle inside retry
      simp only at retry
      simp only [retry]
      exact ⟨⟨again.returns, again.inv, again.err.trans outcome.err,
        fun ok => by rw [again.content ok, outcome.content], again.idle⟩, by simp⟩
    · exact ⟨⟨outcome.returns, outcome.inv, outcome.err, by simp, by simp⟩, by simp⟩
    · exact absurd rfl outcome.returns
  · refine ⟨?_, ?_⟩
    · simpa [FbContext.putOrFlush, put] using putOutcome_of_put inv idle inside put
    · simp [FbContext.putOrFlush, put]

/-- The pairs of some pages of a write bio. -/
def Bio.pairsOf (bio : Bio) (requests : List (ℕ × ℕ)) : List (ℕ × PageData) :=
  requests.map fun request => (request.2, (bio.pages[request.1]?).getD erasedPage)

/-- The pages of a write bio with their LPAs. -/
def Bio.putPairs (bio : Bio) : List (ℕ × PageData) := bio.pairsOf bio.requests

theorem putRequests_spec (bio : Bio) (requests : List (ℕ × ℕ)) (inv : DeviceInv G garbage ctx)
    (idle : ctx.wb.writingPgs = []) (inside : ∀ request ∈ requests, request.2 < G.numLogPages) :
    PutOutcome G garbage ctx (bio.pairsOf requests)
      (forEach (FbContext.putRequest G bio) requests ctx) := by
  refine forEach_rule
    (fun rest other => ∃ passed, passed ++ rest = requests ∧
      PutOutcome G garbage ctx (bio.pairsOf passed) (.ok, other))
    (fun result => PutOutcome G garbage ctx (bio.pairsOf requests) result)
    (fun request rest other => ?_) (fun other => ?_)
    ⟨[], rfl, by simp, inv, rfl, fun _ => rfl, fun _ => idle⟩
  · rintro ⟨passed, all, soFar⟩
    have outcome := (putOrFlush_spec request.2
      ((bio.pages[request.1]?).getD erasedPage) soFar.inv (soFar.idle rfl)
      (inside request (by simp [← all]))).1
    refine ⟨fun ok => ⟨passed ++ [request], by simp [all], by simp, outcome.inv,
      outcome.err.trans soFar.err, fun _ => ?_, fun _ => outcome.idle ok⟩,
      fun notOk => ⟨outcome.returns, outcome.inv, outcome.err.trans soFar.err,
        fun ok => absurd ok notOk, fun ok => absurd ok notOk⟩⟩
    have before := soFar.content rfl
    simp only at before
    simp only [Bio.pairsOf, List.map_append, List.map_cons, List.map_nil, Store.write_append]
      at before ⊢
    rw [← before]
    exact outcome.content ok
  · rintro ⟨passed, all, soFar⟩
    rw [List.append_nil] at all
    rwa [all] at soFar

/-- A page of the bio needs a flush, and this flush fails. -/
def FlushFails (G : Geometry) (bio : Bio) (ctx : FbContext) : Prop :=
  ∃ passed request rest middle, bio.requests = passed ++ request :: rest ∧
    forEach (FbContext.putRequest G bio) passed ctx = (.ok, middle) ∧
    middle.wb.putPg request.2 ((bio.pages[request.1]?).getD erasedPage) = none ∧
    (middle.wbFlush G).1 = .fail

/-- The write loop of `make_request` fails exactly when a flush does. -/
theorem writeLoop_fail_iff (bio : Bio) (inv : DeviceInv G garbage ctx)
    (idle : ctx.wb.writingPgs = []) (inside : ∀ request ∈ bio.requests, request.2 < G.numLogPages) :
    (ctx.writeLoop G bio).1 = .fail ↔ FlushFails G bio ctx := by
  unfold FbContext.writeLoop FlushFails
  rw [forEach_eq_fail_iff]
  refine exists_congr fun passed => exists_congr fun request => exists_congr fun rest =>
    exists_congr fun middle => and_congr_right fun split => and_congr_right fun reached => ?_
  have before := putRequests_spec bio passed inv idle fun other mem =>
    inside other (by simp [split, mem])
  rw [reached] at before
  exact (putOrFlush_spec _ _ before.inv (before.idle rfl) (inside request (by simp [split]))).2

end Writing

/-! ### Discards -/

section Discards

variable {G : Geometry} {garbage : Garbage} {ctx : FbContext} {lpas : List ℕ}

/-- Passing the LPAs on in batches is the same as passing them on at once. -/
theorem discardMapped_eq (fb : Fb) (lpas : List ℕ) :
    fb.discardMapped G lpas = fb.delInvalidatePgs G lpas := by
  have batch : ∀ (pending : List ℕ) (fb : Fb),
      (lpas.foldl (Fb.discardStep G) (pending, fb)).2.delInvalidatePgs G
        (lpas.foldl (Fb.discardStep G) (pending, fb)).1 =
      fb.delInvalidatePgs G (pending ++ lpas) := by
    induction lpas with
    | nil => simp
    | cons lpa lpas ih =>
        intro pending fb
        rw [List.foldl_cons]
        by_cases full : pending.length = nrMaxLpasDiscard - 1
        · have step : Fb.discardStep G (pending, fb) lpa =
              ([], fb.delInvalidatePgs G (pending ++ [lpa])) := by
            exact if_pos full
          rw [step, ih]
          simp [Fb.delInvalidatePgs]
        · have step : Fb.discardStep G (pending, fb) lpa = (pending ++ [lpa], fb) := by
            exact if_neg full
          rw [step, ih]
          simp
  have all := batch [] fb
  rw [List.nil_append] at all
  unfold Fb.discardMapped
  simp only
  split_ifs with none
  · rw [none] at all
    exact all
  · exact all

theorem content_foldl_rmBufPg {capacity : ℕ} {wb : WriteBuffer PageData} (inv : WbOk capacity wb)
    (lpas : List ℕ) :
    WbOk capacity (lpas.foldl (fun wb lpa => wb.rmBufPg lpa) wb) ∧
      (lpas.foldl (fun wb lpa => wb.rmBufPg lpa) wb).content = wb.content.discard lpas ∧
      (wb.writingPgs = [] →
        (lpas.foldl (fun wb lpa => wb.rmBufPg lpa) wb).writingPgs = []) := by
  induction lpas generalizing wb with
  | nil => exact ⟨inv, rfl, fun idle => idle⟩
  | cons lpa lpas ih =>
      rcases WriteBuffer.rmBufPg_spec inv lpa with ⟨next, content, idle⟩
      rcases ih next with ⟨last, contents, stillIdle⟩
      exact ⟨last, by rw [List.foldl_cons, contents, content, Store.discard_cons],
        fun before => stillIdle (idle before)⟩

/-- `make_discard_request_page_mapping` removes its LPAs from the buffer and from flash. -/
theorem discardLpas_spec (inv : DeviceInv G garbage ctx) (inside : ∀ lpa ∈ lpas, lpa < G.numLogPages) :
    DeviceInv G garbage
        { ctx with
          wb := lpas.foldl (fun wb lpa => wb.rmBufPg lpa) ctx.wb
          fb := ctx.fb.discardMapped G lpas } ∧
      FbContext.content G
        { ctx with
          wb := lpas.foldl (fun wb lpa => wb.rmBufPg lpa) ctx.wb
          fb := ctx.fb.discardMapped G lpas } = (ctx.content G).discard lpas := by
  rcases content_foldl_rmBufPg inv.wbOk lpas with ⟨wbOk, content, _⟩
  have reachable := inv.reachable.exec (.invalidate lpas) inside
  rw [discardMapped_eq]
  refine ⟨⟨reachable, wbOk, fun lpa present => inv.inRange lpa ?_⟩, ?_⟩
  · rw [content, Store.discard_apply] at present
    split_ifs at present
    · exact absurd rfl present
    · exact present
  · simp only [FbContext.content, content, flashData_delInvalidatePgs ctx.fb inside,
      Store.overlay_discard]

end Discards

end FlashBench
