import FlashBench.PageMapping

/-!
# The block device

`make_request` and `fb_build_bio` of `main.c` and `fb_wb_flush`, over the whole
`fb_context_t`. A bio is the part of `struct bio` the driver reads; its segments
are whole pages. The outcome of the one allocation of a request is a parameter.

A read bio completes when the bus controllers have released all its pages; that
protocol is the subject of `FlashBench.ReadCompletion`. Here a read copies its
data, which happens before the operations are queued.
-/

namespace FlashBench

/-- The operation of a bio. -/
inductive ReqOp where
  | read
  | write
  | discard
  deriving DecidableEq, Repr

/-- The part of `struct bio` that the driver reads. -/
structure Bio where
  op : ReqOp
  /-- `REQ_PREFLUSH` is set. -/
  preflush : Bool
  /-- `bi_iter.bi_sector` -/
  biSector : ℕ
  /-- `bi_iter.bi_size` -/
  biSize : ℕ
  /-- The pages of the segments. -/
  pages : List PageData

/-- `fb_context_t`. -/
structure FbContext where
  err : Bool
  fb : Fb
  wb : WriteBuffer PageData

/-- What a request leaves behind. -/
structure BioResult where
  ctx : FbContext
  /-- The pages of the segments afterwards. -/
  pages : List PageData
  /-- `bi_error`, which is 0 when the bio is submitted. -/
  biError : ℤ
  /-- The request left `make_request` through `FAIL`. -/
  failExit : Bool

/-- `-ENODEV`. -/
abbrev eNoDev : ℤ := -19

/-- The LPA of a segment: `sec_start` is rounded down and advances by 8 sectors a segment. -/
def Bio.lpa (bio : Bio) (segment : ℕ) : ℕ :=
  ((Fb.maskSectors bio.biSector + 8 * segment) >>> 3) % 2 ^ 32

/-- The segments and LPAs of a bio. -/
def Bio.requests (bio : Bio) : List (ℕ × ℕ) :=
  (List.range bio.pages.length).map fun segment => (segment, bio.lpa segment)

namespace FbContext

variable (G : Geometry)

/-- `fb_init`: the device after creation; `NUM_PAGES_IN_WRITE_BUFFER` entries are buffered. The
error flag is what the memory of the context contains. -/
def create (garbage : Garbage) (wbData : ℕ → PageData) : Option FbContext :=
  (Fb.create G garbage).map fun fb =>
    { err := garbage.err, fb := fb, wb := .create (nrLpInPp * G.numChips) wbData }

/-! ### Flushing the write buffer -/

/-- The loop of `fb_wb_flush`; every pass writes `NR_LP_IN_PP` buffered pages. -/
def wbFlushLoop : ℕ → FbContext → Ret × FbContext
  | 0, ctx => (.hang, ctx)
  | passes + 1, ctx =>
      match ctx.wb.getPgsToWrite nrLpInPp with
      | (none, wb) => (.ok, { ctx with wb := wb })
      | (some pgs, wb) =>
          let lpas : Slot → ℕ := fun lp => ((pgs[(lp : ℕ)]?).map Prod.fst).getD pageUnmapped
          let pgBuf : Slot → PageData := fun lp => ((pgs[(lp : ℕ)]?).map Prod.snd).getD erasedPage
          match ctx.fb.makeWriteRequest G lpas pgBuf with
          | (.ok, fb) => wbFlushLoop passes { ctx with fb := fb, wb := wb.rmWrittenPgs }
          | (ret, fb) => (ret, { ctx with fb := fb, wb := wb })

/-- `fb_wb_flush`. Every pass takes entries out of the buffered list, so the loop cannot
take more passes than there are entries. -/
def wbFlush (ctx : FbContext) : Ret × FbContext := wbFlushLoop G (ctx.wb.nrEntries + 1) ctx

/-! ### Requests -/

/-- One segment of `fb_build_bio` for reads: a buffered page is copied at once, the others
are collected. -/
def buildReadPage (wb : WriteBuffer PageData) (state : List PageData × List (ℕ × ℕ))
    (request : ℕ × ℕ) : List PageData × List (ℕ × ℕ) :=
  match wb.getPgData request.2 with
  | some data => (state.1.set request.1 data, state.2)
  | none => (state.1, state.2 ++ [request])

/-- The segment loop of `fb_build_bio` for reads. -/
def buildReadBio (wb : WriteBuffer PageData) (bio : Bio) : List PageData × List (ℕ × ℕ) :=
  bio.requests.foldl (buildReadPage wb) (bio.pages, [])

/-- The issue loop of `make_request` for reads. -/
def issueReads (fb : Fb) (pages : List PageData) (requests : List (ℕ × ℕ)) : List PageData :=
  requests.foldl
    (fun pages request =>
      pages.set request.1
        (fb.makeReadRequest G request.2 ((pages[request.1]?).getD erasedPage)).2)
    pages

/-- One page of a write bio: put it, or flush and retry. A flush that leaves no entry free
has changed nothing, and then the retry never ends. -/
def putOrFlush : ℕ → ℕ → PageData → FbContext → Ret × FbContext
  | 0, _, _, ctx => (.hang, ctx)
  | retries + 1, lpa, data, ctx =>
      match ctx.wb.putPg lpa data with
      | some wb => (.ok, { ctx with wb := wb })
      | none =>
          match ctx.wbFlush G with
          | (.ok, ctx) => putOrFlush retries lpa data ctx
          | failed => failed

/-- One page of the write loop of `make_request`. -/
def putRequest (bio : Bio) (request : ℕ × ℕ) (ctx : FbContext) : Ret × FbContext :=
  ctx.putOrFlush G 2 request.2 ((bio.pages[request.1]?).getD erasedPage)

/-- The write loop of `make_request`. -/
def writeLoop (bio : Bio) (ctx : FbContext) : Ret × FbContext :=
  forEach (putRequest G bio) bio.requests ctx

/-- `make_discard_request_page_mapping`. -/
def makeDiscardRequest (bio : Bio) (ctx : FbContext) : FbContext :=
  let lpas := Fb.discardLpas bio.biSector bio.biSize
  { ctx with
    wb := lpas.foldl (fun wb lpa => wb.rmBufPg lpa) ctx.wb
    fb := ctx.fb.discardMapped G lpas }

/-- The exit `REQ_FINISH`. -/
def finish (ctx : FbContext) (pages : List PageData) : Option BioResult :=
  some { ctx := ctx, pages := pages, biError := 0, failExit := false }

/-- The exit `FAIL` with the value of `ret_value` on the way there. -/
def failWith (ctx : FbContext) (pages : List PageData) (retValue : ℤ) : Option BioResult :=
  some { ctx := { ctx with err := true }, pages := pages, biError := retValue, failExit := true }

/-- `make_request`; `none` when it never returns. `allocated` is the outcome of the
`vmalloc` in `fb_build_bio`. -/
def makeRequest (allocated : Bool) (bio : Bio) (ctx : FbContext) : Option BioResult :=
  if ctx.err then ctx.failWith bio.pages 0
  else if bio.preflush then ctx.finish bio.pages
  else
    match bio.op with
    | .discard => (ctx.makeDiscardRequest G bio).finish bio.pages
    | .read =>
        if allocated then
          let built := buildReadBio ctx.wb bio
          ctx.finish (issueReads G ctx.fb built.1 built.2)
        else ctx.failWith bio.pages eNoDev
    | .write =>
        if allocated then
          let ctx := { ctx with fb := ctx.fb.delInvalidatePgs G (bio.requests.map Prod.snd) }
          match ctx.writeLoop G bio with
          | (.ok, ctx) => ctx.finish bio.pages
          | (.fail, ctx) => ctx.failWith bio.pages 0
          | (.hang, _) => none
        else ctx.failWith bio.pages eNoDev

end FbContext

end FlashBench
