import FlashBench.BufferRefinement
import FlashBench.Durability

/-!
# Requests step by step

The mapping lock is held for one page or one batch at a time, so that background GC comes
between the steps of a request. `Progress` is where the thread of a request stands between
two steps. A step takes the mapping lock at most once.
-/

namespace FlashBench

/-- Where `make_request` stands. -/
inductive Progress where
  /-- The issue loop of a read, with the pages that it has filled and those still to do. -/
  | reading (pages : List PageData) (todo : List (ℕ × ℕ))
  /-- The batching loop of a discard. -/
  | discarding (pending todo : List ℕ)
  /-- The write loop. -/
  | putting (todo : List (ℕ × ℕ))
  /-- The write loop in `fb_wb_flush`, before `fb_get_pgs_to_write`. -/
  | flushing (todo : List (ℕ × ℕ))
  /-- In `fb_wb_flush`, before `make_write_request_page_mapping`. -/
  | writingOut (todo : List (ℕ × ℕ)) (lpas : Slot → ℕ) (pgBuf : Slot → PageData)
  /-- In `fb_wb_flush`, before `fb_rm_written_pgs`. -/
  | retiring (todo : List (ℕ × ℕ))
  | finished (pages : List PageData) (biError : ℤ) (failExit : Bool)

namespace Progress

variable (G : Geometry) (bio : Bio)

/-- The exit `FAIL`. -/
def failWith (ctx : FbContext) (retValue : ℤ) : FbContext × Progress :=
  ({ ctx with err := true }, .finished bio.pages retValue true)

/-- The beginning of `make_request`. -/
def start (allocated : Bool) (ctx : FbContext) : FbContext × Progress :=
  if ctx.err then failWith bio ctx 0
  else if bio.preflush then (ctx, .finished bio.pages 0 false)
  else
    match bio.op with
    | .discard =>
        let lpas := Fb.discardLpas bio.biSector bio.biSize
        ({ ctx with wb := lpas.foldl (fun wb lpa => wb.rmBufPg lpa) ctx.wb }, .discarding [] lpas)
    | .read =>
        if allocated then
          let built := FbContext.buildReadBio ctx.wb bio
          (ctx, .reading built.1 built.2)
        else failWith bio ctx FlashBench.eNoDev
    | .write =>
        if allocated then
          ({ ctx with fb := ctx.fb.delInvalidatePgs G (bio.requests.map Prod.snd) },
            .putting bio.requests)
        else failWith bio ctx FlashBench.eNoDev

/-- The next step; `none` when the request is done or never returns. -/
def step (ctx : FbContext) : Progress → Option (FbContext × Progress)
  | .reading pages [] => some (ctx, .finished pages 0 false)
  | .reading pages (request :: todo) =>
      let page := (pages[request.1]?).getD erasedPage
      some (ctx, .reading (pages.set request.1 (ctx.fb.makeReadRequest G request.2 page).2) todo)
  | .discarding pending [] =>
      let fb := if pending = [] then ctx.fb else ctx.fb.delInvalidatePgs G pending
      some ({ ctx with fb := fb }, .finished bio.pages 0 false)
  | .discarding pending (lpa :: todo) =>
      let state := Fb.discardStep G (pending, ctx.fb) lpa
      some ({ ctx with fb := state.2 }, .discarding state.1 todo)
  | .putting [] => some (ctx, .finished bio.pages 0 false)
  | .putting (request :: todo) =>
      match ctx.wb.putPg request.2 ((bio.pages[request.1]?).getD erasedPage) with
      | some wb => some ({ ctx with wb := wb }, .putting todo)
      | none => some (ctx, .flushing (request :: todo))
  | .flushing todo =>
      match ctx.wb.getPgsToWrite nrLpInPp with
      | (none, wb) => some ({ ctx with wb := wb }, .putting todo)
      | (some pgs, wb) =>
          let lpas : Slot → ℕ := fun lp => ((pgs[(lp : ℕ)]?).map Prod.fst).getD pageUnmapped
          let pgBuf : Slot → PageData := fun lp => ((pgs[(lp : ℕ)]?).map Prod.snd).getD erasedPage
          some ({ ctx with wb := wb }, .writingOut todo lpas pgBuf)
  | .writingOut todo lpas pgBuf =>
      match ctx.fb.makeWriteRequest G lpas pgBuf with
      | (.ok, fb) => some ({ ctx with fb := fb }, .retiring todo)
      | (.fail, fb) => some (failWith bio { ctx with fb := fb } 0)
      | (.hang, _) => none
  | .retiring todo => some ({ ctx with wb := ctx.wb.rmWrittenPgs }, .flushing todo)
  | .finished _ _ _ => none

/-- `trigger_bg_gc` between two steps. -/
def background (ctx : FbContext) : FbContext := { ctx with fb := (ctx.fb.triggerBgGc G).2 }

end Progress

/-! ### A request alone -/

section Alone

variable (G : Geometry) (bio : Bio)

/-- One step follows the other. -/
def StepsTo (before after : FbContext × Progress) : Prop :=
  Progress.step G bio before.1 before.2 = some after

/-- Any number of steps without background GC. -/
abbrev Steps := Relation.ReflTransGen (StepsTo G bio)

theorem steps_reading (ctx : FbContext) (pages : List PageData) (todo : List (ℕ × ℕ)) :
    Steps G bio (ctx, .reading pages todo)
      (ctx, .finished (FbContext.issueReads G ctx.fb pages todo) 0 false) := by
  induction todo generalizing pages with
  | nil => exact .single rfl
  | cons request todo ih => exact .head rfl (ih _)

theorem steps_discarding (ctx : FbContext) (pending todo : List ℕ) (fb : Fb) :
    Steps G bio ({ ctx with fb := fb }, .discarding pending todo)
      ({ ctx with
          fb := (fun state : List ℕ × Fb =>
            if state.1 = [] then state.2 else state.2.delInvalidatePgs G state.1)
              (todo.foldl (Fb.discardStep G) (pending, fb)) },
        .finished bio.pages 0 false) := by
  induction todo generalizing pending fb with
  | nil => exact .single rfl
  | cons lpa todo ih => exact .head rfl (ih _ _)

/-- The steps of `fb_wb_flush`. -/
theorem steps_flushing (passes : ℕ) (todo : List (ℕ × ℕ)) (ctx after : FbContext) :
    (ctx.wbFlushLoop G passes = (.ok, after) →
        Steps G bio (ctx, .flushing todo) (after, .putting todo)) ∧
      (ctx.wbFlushLoop G passes = (.fail, after) →
        Steps G bio (ctx, .flushing todo) (Progress.failWith bio after 0)) := by
  induction passes generalizing ctx with
  | zero => simp [FbContext.wbFlushLoop]
  | succ passes ih =>
      unfold FbContext.wbFlushLoop
      rcases taken : ctx.wb.getPgsToWrite nrLpInPp with ⟨_ | pgs, wb⟩
      · simp only [Prod.mk.injEq, true_and, reduceCtorEq, false_and, false_implies, and_true]
        rintro rfl
        exact .single (by simp [StepsTo, Progress.step, taken])
      · have take : StepsTo G bio (ctx, .flushing todo)
            ({ ctx with wb := wb }, .writingOut todo
              (fun lp => ((pgs[(lp : ℕ)]?).map Prod.fst).getD pageUnmapped)
              (fun lp => ((pgs[(lp : ℕ)]?).map Prod.snd).getD erasedPage)) := by
          simp [StepsTo, Progress.step, taken]
        simp only
        rcases written : ctx.fb.makeWriteRequest G
          (fun lp => ((pgs[(lp : ℕ)]?).map Prod.fst).getD pageUnmapped)
          (fun lp => ((pgs[(lp : ℕ)]?).map Prod.snd).getD erasedPage) with ⟨_ | _ | _, fb⟩
        · have write : StepsTo G bio ({ ctx with wb := wb }, .writingOut todo
                (fun lp => ((pgs[(lp : ℕ)]?).map Prod.fst).getD pageUnmapped)
                (fun lp => ((pgs[(lp : ℕ)]?).map Prod.snd).getD erasedPage))
              ({ ctx with fb := fb, wb := wb }, .retiring todo) := by
            simp [StepsTo, Progress.step, written]
          have retire : StepsTo G bio ({ ctx with fb := fb, wb := wb }, .retiring todo)
              ({ ctx with fb := fb, wb := wb.rmWrittenPgs }, .flushing todo) := rfl
          have begin_ : Steps G bio (ctx, .flushing todo)
              ({ ctx with fb := fb, wb := wb.rmWrittenPgs }, .flushing todo) :=
            .head take (.head write (.single retire))
          rcases ih { ctx with fb := fb, wb := wb.rmWrittenPgs } with ⟨ok, failed⟩
          exact ⟨fun ends => begin_.trans (ok ends), fun ends => begin_.trans (failed ends)⟩
        · simp only [Prod.mk.injEq, reduceCtorEq, false_and, false_implies, true_and]
          rintro rfl
          refine .head take (.single ?_)
          simp [StepsTo, Progress.step, written]
        · simp

/-- The steps that put one page. -/
theorem steps_putOrFlush (retries : ℕ) (request : ℕ × ℕ) (todo : List (ℕ × ℕ))
    (ctx after : FbContext) :
    (ctx.putOrFlush G retries request.2 ((bio.pages[request.1]?).getD erasedPage) = (.ok, after) →
        Steps G bio (ctx, .putting (request :: todo)) (after, .putting todo)) ∧
      (ctx.putOrFlush G retries request.2 ((bio.pages[request.1]?).getD erasedPage) =
          (.fail, after) →
        Steps G bio (ctx, .putting (request :: todo)) (Progress.failWith bio after 0)) := by
  induction retries generalizing ctx with
  | zero => simp [FbContext.putOrFlush]
  | succ retries ih =>
      unfold FbContext.putOrFlush
      rcases put : ctx.wb.putPg request.2 ((bio.pages[request.1]?).getD erasedPage) with _ | wb
      · have full :
              StepsTo G bio (ctx, .putting (request :: todo)) (ctx, .flushing (request :: todo)) := by
          simp [StepsTo, Progress.step, put]
        simp only
        rcases flush : ctx.wbFlush G with ⟨_ | _ | _, flushed⟩
        · have flushes := (steps_flushing G bio _ (request :: todo) ctx flushed).1 flush
          rcases ih flushed with ⟨ok, failed⟩
          exact ⟨fun ends => .head full (flushes.trans (ok ends)),
            fun ends => .head full (flushes.trans (failed ends))⟩
        · simp only [Prod.mk.injEq, reduceCtorEq, false_and, false_implies, true_and]
          rintro rfl
          exact .head full ((steps_flushing G bio _ (request :: todo) ctx flushed).2 flush)
        · simp
      · simp only [Prod.mk.injEq, true_and, reduceCtorEq, false_and, false_implies, and_true]
        rintro rfl
        refine .single ?_
        simp [StepsTo, Progress.step, put]

/-- The steps of the write loop. -/
theorem steps_putting (todo : List (ℕ × ℕ)) (ctx after : FbContext) :
    (forEach (FbContext.putRequest G bio) todo ctx = (.ok, after) →
        Steps G bio (ctx, .putting todo) (after, .finished bio.pages 0 false)) ∧
      (forEach (FbContext.putRequest G bio) todo ctx = (.fail, after) →
        Steps G bio (ctx, .putting todo) (Progress.failWith bio after 0)) := by
  induction todo generalizing ctx with
  | nil =>
      simp only [forEach_nil, Prod.mk.injEq, true_and, reduceCtorEq, false_and, false_implies,
        and_true]
      rintro rfl
      exact .single rfl
  | cons request todo ih =>
      unfold forEach
      have puts := steps_putOrFlush G bio 2 request todo ctx
      rcases put : FbContext.putRequest G bio request ctx with ⟨_ | _ | _, next⟩
      · rcases ih next with ⟨ok, failed⟩
        have first := (puts next).1 put
        exact ⟨fun ends => first.trans (ok ends), fun ends => first.trans (failed ends)⟩
      · simp only [Prod.mk.injEq, reduceCtorEq, false_and, false_implies, true_and]
        rintro rfl
        exact (puts next).2 put
      · simp

/-- The steps of a request that is left alone are those of `make_request`. -/
theorem steps_of_makeRequest {ctx : FbContext} {allocated : Bool} {result : BioResult}
    (served : ctx.makeRequest G allocated bio = some result) :
    Steps G bio (Progress.start G bio allocated ctx)
      (result.ctx, .finished result.pages result.biError result.failExit) := by
  unfold FbContext.makeRequest at served
  unfold Progress.start
  by_cases err : ctx.err
  · rw [if_pos err, FbContext.failWith, Option.some.injEq] at served
    subst served
    rw [if_pos err]
    exact .refl
  rw [if_neg err] at served ⊢
  by_cases flush : bio.preflush
  · rw [if_pos flush, FbContext.finish, Option.some.injEq] at served
    subst served
    rw [if_pos flush]
  rw [if_neg flush] at served ⊢
  rcases kind : bio.op with _ | _ | _ <;> simp only [kind] at served ⊢
  · cases allocated with
    | true =>
        simp only [if_true, FbContext.finish, Option.some.injEq] at served ⊢
        subst served
        exact steps_reading G bio _ _ _
    | false =>
        simp only [Bool.false_eq_true, if_false, FbContext.failWith, Option.some.injEq] at served ⊢
        subst served
        exact .refl
  · cases allocated with
    | true =>
        simp only [if_true, FbContext.writeLoop] at served ⊢
        have loop := steps_putting G bio bio.requests
          { ctx with fb := ctx.fb.delInvalidatePgs G (bio.requests.map Prod.snd) }
        generalize forEach (FbContext.putRequest G bio) bio.requests _ = wrote at served loop
        rcases wrote with ⟨_ | _ | _, after⟩
        · simp only [FbContext.finish, Option.some.injEq] at served
          subst served
          exact (loop after).1 rfl
        · simp only [FbContext.failWith, Option.some.injEq] at served
          subst served
          exact (loop after).2 rfl
        · simp at served
    | false =>
        simp only [Bool.false_eq_true, if_false, FbContext.failWith, Option.some.injEq] at served ⊢
        subst served
        exact .refl
  · simp only [FbContext.finish, Option.some.injEq] at served
    subst served
    exact steps_discarding G bio
      { ctx with
        wb := (Fb.discardLpas bio.biSector bio.biSize).foldl (fun wb lpa => wb.rmBufPg lpa) ctx.wb }
      [] _ ctx.fb

end Alone

/-! ### The invariant of a request -/

/-- What holds while the pages of a write are put. `disk` is the content before the request. -/
structure Writing (G : Geometry) (garbage : Garbage) (bio : Bio) (disk : Store ℕ PageData)
    (todo : List (ℕ × ℕ)) (ctx : FbContext) : Prop where
  inv : DeviceInv G garbage ctx
  noErr : ctx.err = false
  write : bio.op = .write
  inside : ∀ request ∈ todo, request.2 < G.numLogPages
  content : (ctx.content G).write (bio.pairsOf todo) = bio.effect disk

/-- What holds between two steps of a request. -/
inductive Serves (G : Geometry) (garbage : Garbage) (bio : Bio) (disk : Store ℕ PageData) :
    FbContext → Progress → Prop where
  | reading {ctx : FbContext} {pages : List PageData} {todo : List (ℕ × ℕ)}
      (inv : DeviceInv G garbage ctx) (noErr : ctx.err = false) (idle : ctx.wb.writingPgs = [])
      (read : bio.op = .read) (content : ctx.content G = disk)
      (filled : FbContext.issueReads G ctx.fb pages todo = bio.filled disk) :
      Serves G garbage bio disk ctx (.reading pages todo)
  | discarding {ctx : FbContext} {pending todo : List ℕ}
      (inv : DeviceInv G garbage ctx) (noErr : ctx.err = false) (idle : ctx.wb.writingPgs = [])
      (discard : bio.op = .discard) (inside : ∀ lpa ∈ pending ++ todo, lpa < G.numLogPages)
      (unbuffered : ∀ lpa ∈ pending ++ todo, ctx.wb.content lpa = none)
      (content : (ctx.content G).discard (pending ++ todo) = bio.effect disk) :
      Serves G garbage bio disk ctx (.discarding pending todo)
  | putting {ctx : FbContext} {todo : List (ℕ × ℕ)} (writing : Writing G garbage bio disk todo ctx)
      (idle : ctx.wb.writingPgs = []) : Serves G garbage bio disk ctx (.putting todo)
  | flushing {ctx : FbContext} {todo : List (ℕ × ℕ)} (writing : Writing G garbage bio disk todo ctx)
      (idle : ctx.wb.writingPgs = []) (more : todo ≠ []) :
      Serves G garbage bio disk ctx (.flushing todo)
  | writingOut {ctx : FbContext} {todo : List (ℕ × ℕ)} {lpas : Slot → ℕ} {pgBuf : Slot → PageData}
      (writing : Writing G garbage bio disk todo ctx) (more : todo ≠ [])
      (mapped : ∀ lp, lpas lp < G.numLogPages)
      (pairs : pagePairs (List.finRange nrLpInPp) lpas pgBuf =
        ctx.wb.writingPgs.map ctx.wb.entry) :
      Serves G garbage bio disk ctx (.writingOut todo lpas pgBuf)
  | retiring {ctx : FbContext} {todo : List (ℕ × ℕ)} (writing : Writing G garbage bio disk todo ctx)
      (more : todo ≠ [])
      (onFlash : ∀ pair ∈ ctx.wb.writingPgs.map ctx.wb.entry,
        ctx.fb.flashData G pair.1 = some pair.2) :
      Serves G garbage bio disk ctx (.retiring todo)
  | failed {ctx : FbContext} {pages : List PageData} {biError : ℤ} (inv : DeviceInv G garbage ctx)
      (err : ctx.err = true) : Serves G garbage bio disk ctx (.finished pages biError true)
  | finished {ctx : FbContext} {pages : List PageData} (inv : DeviceInv G garbage ctx)
      (noErr : ctx.err = false) (idle : ctx.wb.writingPgs = [])
      (content : ctx.content G = bio.effect disk) (filled : pages = bio.filled disk) :
      Serves G garbage bio disk ctx (.finished pages 0 false)

/-- The steps that putting one page may take: every pass of a flush is three steps. -/
def putCost (G : Geometry) : ℕ := 3 * G.numChips + 3

/-- The steps that are left. -/
def Progress.cost (G : Geometry) (bio : Bio) (ctx : FbContext) : Progress → ℕ
  | .reading _ todo => todo.length + 1
  | .discarding _ todo => todo.length + 1
  | .putting [] => 1
  | .putting (request :: todo) =>
      todo.length * putCost G + 1 +
        if (ctx.wb.putPg request.2 ((bio.pages[request.1]?).getD erasedPage)).isSome then 1
        else putCost G
  | .flushing todo =>
      (todo.length - 1) * putCost G + 3 * (ctx.wb.bufPgs.length / nrLpInPp) + 3
  | .writingOut todo _ _ =>
      (todo.length - 1) * putCost G + 3 * (ctx.wb.bufPgs.length / nrLpInPp) + 5
  | .retiring todo =>
      (todo.length - 1) * putCost G + 3 * (ctx.wb.bufPgs.length / nrLpInPp) + 4
  | .finished _ _ _ => 0

section Serving

variable {G : Geometry} {garbage : Garbage} {bio : Bio} {disk : Store ℕ PageData} {ctx : FbContext}
  {progress : Progress} {pages : List PageData} {todo : List (ℕ × ℕ)}

/-! #### Background GC -/

theorem DeviceInv.background (inv : DeviceInv G garbage ctx) :
    DeviceInv G garbage (Progress.background G ctx) :=
  ⟨inv.reachable.exec .backgroundGc trivial, inv.wbOk, inv.inRange⟩

theorem content_background (inv : DeviceInv G garbage ctx) (programmed : TargetsProgrammed G ctx.fb) :
    (Progress.background G ctx).content G = ctx.content G := by
  have same := flashData_triggerBgGc inv.reachable.inv programmed
  unfold FbContext.content
  simp only [Progress.background, same]

theorem Writing.background (writing : Writing G garbage bio disk todo ctx)
    (programmed : TargetsProgrammed G ctx.fb) :
    Writing G garbage bio disk todo (Progress.background G ctx) where
  inv := writing.inv.background
  noErr := writing.noErr
  write := writing.write
  inside := writing.inside
  content := by
    rw [content_background writing.inv programmed]
    exact writing.content

/-- Background GC between two steps does not disturb the request. -/
theorem Serves.background (serves : Serves G garbage bio disk ctx progress)
    (programmed : TargetsProgrammed G ctx.fb) :
    Serves G garbage bio disk (Progress.background G ctx) progress := by
  cases serves with
  | reading inv noErr idle read content filled =>
      have same := flashData_triggerBgGc inv.reachable.inv programmed
      refine .reading inv.background noErr idle read
        ((content_background inv programmed).trans content) ?_
      rw [issueReads_eq] at filled ⊢
      simp only [Progress.background, same]
      exact filled
  | discarding inv noErr idle discard inside unbuffered content =>
      refine .discarding inv.background noErr idle discard inside unbuffered ?_
      rw [content_background inv programmed]
      exact content
  | putting writing idle => exact .putting (writing.background programmed) idle
  | flushing writing idle more => exact .flushing (writing.background programmed) idle more
  | writingOut writing more mapped pairs =>
      exact .writingOut (writing.background programmed) more mapped pairs
  | retiring writing more onFlash =>
      refine .retiring (writing.background programmed) more fun pair mem => ?_
      have same := flashData_triggerBgGc writing.inv.reachable.inv programmed
      simp only [Progress.background, same]
      exact onFlash pair mem
  | failed inv err => exact .failed inv.background err
  | finished inv noErr idle content filled =>
      exact .finished inv.background noErr idle ((content_background inv programmed).trans content)
        filled

theorem cost_background (progress : Progress) :
    progress.cost G bio (Progress.background G ctx) = progress.cost G bio ctx := by
  cases progress <;> rfl

/-! #### Steps -/

/-- What the next step of a request does: it exists, keeps the invariant and leaves less to do. -/
def StepsOn (G : Geometry) (garbage : Garbage) (bio : Bio) (disk : Store ℕ PageData)
    (ctx : FbContext) (progress : Progress) : Prop :=
  ∃ after, Progress.step G bio ctx progress = some after ∧
    Serves G garbage bio disk after.1 after.2 ∧
      after.2.cost G bio after.1 < progress.cost G bio ctx

theorem stepsOn_reading (inv : DeviceInv G garbage ctx) (noErr : ctx.err = false)
    (idle : ctx.wb.writingPgs = []) (read : bio.op = .read) (content : ctx.content G = disk)
    (filled : FbContext.issueReads G ctx.fb pages todo = bio.filled disk) :
    StepsOn G garbage bio disk ctx (.reading pages todo) := by
  rcases todo with _ | ⟨request, todo⟩
  · refine ⟨_, rfl, .finished inv noErr idle ?_ filled, by simp [Progress.cost]⟩
    simp only [content, Bio.effect, read]
  · refine ⟨_, rfl, .reading inv noErr idle read content ?_, by simp [Progress.cost]⟩
    exact filled

theorem content_invalidate {lpas : List ℕ} (inside : ∀ lpa ∈ lpas, lpa < G.numLogPages)
    (unbuffered : ∀ lpa ∈ lpas, ctx.wb.content lpa = none) :
    FbContext.content G { ctx with fb := ctx.fb.delInvalidatePgs G lpas } =
      (ctx.content G).discard lpas := by
  have buffer : ctx.wb.content.discard lpas = ctx.wb.content := by
    funext lpa
    rw [Store.discard_apply]
    split_ifs with mem
    · exact (unbuffered lpa mem).symm
    · rfl
  unfold FbContext.content
  rw [flashData_delInvalidatePgs ctx.fb inside, ← Store.overlay_discard, buffer]

theorem stepsOn_discarding {pending todo : List ℕ} (inv : DeviceInv G garbage ctx)
    (noErr : ctx.err = false) (idle : ctx.wb.writingPgs = []) (discard : bio.op = .discard)
    (inside : ∀ lpa ∈ pending ++ todo, lpa < G.numLogPages)
    (unbuffered : ∀ lpa ∈ pending ++ todo, ctx.wb.content lpa = none)
    (content : (ctx.content G).discard (pending ++ todo) = bio.effect disk) :
    StepsOn G garbage bio disk ctx (.discarding pending todo) := by
  have filled : bio.pages = bio.filled disk := by simp [Bio.filled, discard]
  rcases todo with _ | ⟨lpa, todo⟩
  · rw [List.append_nil] at inside unbuffered content
    refine ⟨_, rfl, ?_, by simp [Progress.cost]⟩
    by_cases none_ : pending = []
    · subst none_
      exact .finished inv noErr idle content filled
    · simp only [if_neg none_]
      refine .finished ⟨inv.reachable.exec (.invalidate pending) inside, inv.wbOk, inv.inRange⟩ noErr
        idle ?_ filled
      rw [content_invalidate inside unbuffered]
      exact content
  · refine ⟨_, rfl, ?_, by simp [Progress.cost]⟩
    have split : pending ++ lpa :: todo = (pending ++ [lpa]) ++ todo := by simp
    rw [split] at inside unbuffered content
    by_cases full : pending.length = nrMaxLpasDiscard - 1
    · have step : Fb.discardStep G (pending, ctx.fb) lpa =
          ([], ctx.fb.delInvalidatePgs G (pending ++ [lpa])) := if_pos full
      have now : ∀ other ∈ pending ++ [lpa], other < G.numLogPages :=
        fun other mem => inside other (List.mem_append_left _ mem)
      simp only [step]
      refine .discarding ⟨inv.reachable.exec (.invalidate _) now, inv.wbOk, inv.inRange⟩ noErr idle
        discard (fun other mem => inside other (List.mem_append_right _ mem))
        (fun other mem => unbuffered other (List.mem_append_right _ mem)) ?_
      rw [content_invalidate now fun other mem => unbuffered other (List.mem_append_left _ mem)]
      rw [← content, List.nil_append]
      exact (List.foldl_append ..).symm
    · have step : Fb.discardStep G (pending, ctx.fb) lpa = (pending ++ [lpa], ctx.fb) := if_neg full
      simp only [step]
      exact .discarding inv noErr idle discard inside unbuffered content

theorem cost_putting_le (ctx : FbContext) (todo : List (ℕ × ℕ)) :
    (Progress.putting todo).cost G bio ctx ≤ todo.length * putCost G + 1 := by
  rcases todo with _ | ⟨request, todo⟩
  · simp [Progress.cost]
  · have positive : 1 ≤ putCost G := by simp [putCost]
    simp only [Progress.cost, List.length_cons, Nat.add_mul, Nat.one_mul]
    split_ifs <;> omega

theorem stepsOn_putting (writing : Writing G garbage bio disk todo ctx)
    (idle : ctx.wb.writingPgs = []) : StepsOn G garbage bio disk ctx (.putting todo) := by
  have filled : bio.pages = bio.filled disk := by simp [Bio.filled, writing.write]
  rcases todo with _ | ⟨request, todo⟩
  · refine ⟨_, rfl, .finished writing.inv writing.noErr idle ?_ filled, by simp [Progress.cost]⟩
    exact writing.content
  · rcases put : ctx.wb.putPg request.2 ((bio.pages[request.1]?).getD erasedPage) with _ | wb
    · refine ⟨(ctx, .flushing (request :: todo)), by simp [Progress.step, put],
        .flushing writing idle (by simp), ?_⟩
      have lengths := writing.inv.wbOk.lengths
      have passes : ctx.wb.bufPgs.length / nrLpInPp ≤ G.numChips := by
        apply Nat.div_le_of_le_mul
        omega
      simp only [Progress.cost, put, List.length_cons, Nat.add_sub_cancel, Option.isSome_none,
        Bool.false_eq_true, if_false, putCost]
      omega
    · have outcome := putOutcome_of_put writing.inv idle (writing.inside request (by simp)) put
      refine ⟨({ ctx with wb := wb }, .putting todo), by simp [Progress.step, put],
        .putting ⟨outcome.inv, writing.noErr, writing.write,
          fun other mem => writing.inside other (by simp [mem]), ?_⟩ (outcome.idle rfl), ?_⟩
      · rw [outcome.content rfl, ← writing.content]
        rfl
      · have less : (Progress.putting todo).cost G bio { ctx with wb := wb } ≤ _ := cost_putting_le _ _
        simp only [Progress.cost, put, Option.isSome_some, if_true] at less ⊢
        omega

theorem stepsOn_flushing (writing : Writing G garbage bio disk todo ctx)
    (idle : ctx.wb.writingPgs = []) (more : todo ≠ []) :
    StepsOn G garbage bio disk ctx (.flushing todo) := by
  have inv := writing.inv
  by_cases full : nrLpInPp ≤ ctx.wb.bufPgs.length
  · rcases WriteBuffer.takePgs_spec inv.wbOk full with ⟨taken, length, emitted, moved⟩
    have takes : ctx.wb.getPgsToWrite nrLpInPp =
        (some (taken.map ctx.wb.entry), (ctx.wb.takePgs nrLpInPp).2) := by
      unfold WriteBuffer.getPgsToWrite
      rw [if_pos (by rw [inv.wbOk.nrEntries_eq]; exact full)]
      simp only [emitted]
    generalize (ctx.wb.takePgs nrLpInPp).2 = wb at takes moved
    have mapped : ∀ pair ∈ taken.map ctx.wb.entry, pair.1 < G.numLogPages := by
      intro pair mem
      rcases List.mem_map.mp mem with ⟨i, iMem, rfl⟩
      refine inv.buffered.entry_inRange (Or.inr ?_)
      rw [moved.bufPgs]
      exact List.mem_append_left _ iMem
    have pairs := pagePairs_getElem (taken.map ctx.wb.entry) (by simpa using length)
      fun pair mem => (mapped pair mem).trans G.numLogPages_lt |>.ne
    have written : wb.writingPgs.map wb.entry = taken.map ctx.wb.entry := by
      rw [moved.writingPgs, idle, List.nil_append, moved.entry]
    have content : FbContext.content G { ctx with wb := wb } = ctx.content G := by
      simp only [FbContext.content, moved.content]
    have handed : Writing G garbage bio disk todo { ctx with wb := wb } := by
      refine ⟨⟨inv.reachable, moved.inv, fun lpa present => inv.inRange lpa ?_⟩, writing.noErr,
        writing.write, writing.inside, ?_⟩
      · rwa [moved.content] at present
      · rw [content]
        exact writing.content
    refine ⟨({ ctx with wb := wb }, .writingOut todo
      (fun lp => (((taken.map ctx.wb.entry)[(lp : ℕ)]?).map Prod.fst).getD pageUnmapped)
      (fun lp => (((taken.map ctx.wb.entry)[(lp : ℕ)]?).map Prod.snd).getD erasedPage)),
      by simp only [Progress.step, takes],
      .writingOut handed more (fun lp => ?_) (pairs.trans written.symm), ?_⟩
    · have inside : (lp : ℕ) < (taken.map ctx.wb.entry).length := by
        have := slot_lt lp
        simp only [List.length_map, length, nrLpInPp]
        omega
      simp only [List.getElem?_eq_getElem inside, Option.map_some, Option.getD_some]
      exact mapped _ (List.getElem_mem inside)
    · have split := congrArg List.length moved.bufPgs
      rw [List.length_append, length] at split
      simp only [Progress.cost, split]
      rw [Nat.add_comm nrLpInPp, Nat.add_div_right _ (by decide)]
      omega
  · have takes : ctx.wb.getPgsToWrite nrLpInPp = (none, ctx.wb) := by
      unfold WriteBuffer.getPgsToWrite
      rw [if_neg (by rw [inv.wbOk.nrEntries_eq]; exact full)]
    refine ⟨(ctx, .putting todo), by simp only [Progress.step, takes], .putting writing idle, ?_⟩
    rcases todo with _ | ⟨request, todo⟩
    · exact absurd rfl more
    · rcases putPg_after_flush inv idle (by omega) request.2
        ((bio.pages[request.1]?).getD erasedPage) with ⟨wb, put⟩
      simp only [Progress.cost, put, Option.isSome_some, if_true, List.length_cons,
        Nat.add_sub_cancel]
      omega

/-- The pages that are handed over are buffered, so that writing them to flash does not show. -/
theorem Writing.held (writing : Writing G garbage bio disk todo ctx) :
    ∀ pair ∈ ctx.wb.writingPgs.map ctx.wb.entry, ctx.wb.content pair.1 = some pair.2 := by
  intro pair mem
  rcases List.mem_map.mp mem with ⟨i, iMem, rfl⟩
  exact WriteBuffer.content_entry writing.inv.wbOk (Or.inl iMem)

theorem Writing.distinct (writing : Writing G garbage bio disk todo ctx) :
    ((ctx.wb.writingPgs.map ctx.wb.entry).map Prod.fst).Nodup :=
  WriteBuffer.nodup_lpas writing.inv.wbOk (WriteBuffer.nodup_writingPgs writing.inv.wbOk)
    fun _ mem => Or.inl mem

theorem stepsOn_writingOut {lpas : Slot → ℕ} {pgBuf : Slot → PageData}
    (writing : Writing G garbage bio disk todo ctx) (more : todo ≠ [])
    (mapped : ∀ lp, lpas lp < G.numLogPages)
    (pairs : pagePairs (List.finRange nrLpInPp) lpas pgBuf = ctx.wb.writingPgs.map ctx.wb.entry) :
    StepsOn G garbage bio disk ctx (.writingOut todo lpas pgBuf) := by
  have inv := writing.inv
  have outcome := writeOutcome_makeWriteRequest pgBuf inv.reachable.inv fun lp => Or.inr (mapped lp)
  have reachable := inv.reachable.exec (.write lpas pgBuf) mapped
  simp only [Command.exec] at reachable
  have returns := outcome.returns
  have flash := outcome.flashData_eq
  rcases written : ctx.fb.makeWriteRequest G lpas pgBuf with ⟨_ | _ | _, fb⟩
  · rw [written] at reachable flash
    simp only [if_true, pairs] at reachable flash
    refine ⟨({ ctx with fb := fb }, .retiring todo), by simp only [Progress.step, written],
      .retiring ⟨⟨reachable, inv.wbOk, inv.inRange⟩, writing.noErr, writing.write, writing.inside, ?_⟩
        more fun pair mem => ?_, by simp [Progress.cost]⟩
    · have content : FbContext.content G { ctx with fb := fb } = ctx.content G := by
        unfold FbContext.content
        rw [flash]
        exact Store.overlay_write writing.held
      rw [content]
      exact writing.content
    · rw [flash]
      exact Store.write_of_mem writing.distinct mem
  · rw [written] at reachable
    exact ⟨Progress.failWith bio { ctx with fb := fb } 0, by simp only [Progress.step, written],
      .failed ⟨reachable, inv.wbOk, inv.inRange⟩ rfl, by simp [Progress.cost, Progress.failWith]⟩
  · rw [written] at returns
    exact absurd rfl returns

theorem stepsOn_retiring (writing : Writing G garbage bio disk todo ctx) (more : todo ≠ [])
    (onFlash : ∀ pair ∈ ctx.wb.writingPgs.map ctx.wb.entry,
      ctx.fb.flashData G pair.1 = some pair.2) :
    StepsOn G garbage bio disk ctx (.retiring todo) := by
  have inv := writing.inv
  have removed := WriteBuffer.rmWrittenPgs_spec inv.wbOk
  have content : FbContext.content G { ctx with wb := ctx.wb.rmWrittenPgs } = ctx.content G := by
    unfold FbContext.content
    rw [removed.content]
    calc (ctx.wb.content.discard _).overlay (ctx.fb.flashData G)
        = (ctx.wb.content.discard _).overlay
            ((ctx.fb.flashData G).write (ctx.wb.writingPgs.map ctx.wb.entry)) := by
          rw [Store.write_of_present onFlash]
      _ = ctx.wb.content.overlay (ctx.fb.flashData G) :=
          Store.overlay_flush writing.distinct writing.held
  refine ⟨_, rfl, .flushing ⟨⟨inv.reachable, removed.inv, fun lpa present => inv.inRange lpa ?_⟩,
    writing.noErr, writing.write, writing.inside, by rw [content]; exact writing.content⟩
    removed.writingPgs more, by simp [Progress.cost, removed.bufPgs]⟩
  simp only [removed.content, Store.discard_apply] at present
  split_ifs at present
  · exact absurd rfl present
  · exact present

theorem Serves.step (serves : Serves G garbage bio disk ctx progress)
    (notFinished : ∀ pages biError failExit, progress ≠ .finished pages biError failExit) :
    StepsOn G garbage bio disk ctx progress := by
  cases serves with
  | reading inv noErr idle read content filled =>
      exact stepsOn_reading inv noErr idle read content filled
  | discarding inv noErr idle discard inside unbuffered content =>
      exact stepsOn_discarding inv noErr idle discard inside unbuffered content
  | putting writing idle => exact stepsOn_putting writing idle
  | flushing writing idle more => exact stepsOn_flushing writing idle more
  | writingOut writing more mapped pairs => exact stepsOn_writingOut writing more mapped pairs
  | retiring writing more onFlash => exact stepsOn_retiring writing more onFlash
  | failed _ _ => exact absurd rfl (notFinished _ _ _)
  | finished _ _ _ _ _ => exact absurd rfl (notFinished _ _ _)

/-! #### The beginning -/

/-- The steps that a request may take. -/
def Bio.maxSteps (G : Geometry) (bio : Bio) : ℕ :=
  match bio.op with
  | .read => bio.pages.length + 1
  | .write => bio.pages.length * putCost G + 1
  | .discard => (Fb.discardLpas bio.biSector bio.biSize).length + 1

/-- What the beginning of a request leaves to the steps. -/
def StartsOn (G : Geometry) (garbage : Garbage) (bio : Bio) (disk : Store ℕ PageData)
    (state : FbContext × Progress) : Prop :=
  Serves G garbage bio disk state.1 state.2 ∧ state.2.cost G bio state.1 ≤ bio.maxSteps G

theorem startsOn_failWith (inv : DeviceInv G garbage ctx) (retValue : ℤ) :
    StartsOn G garbage bio disk (Progress.failWith bio ctx retValue) :=
  ⟨.failed ⟨inv.reachable, inv.wbOk, inv.inRange⟩ rfl, Nat.zero_le _⟩

theorem length_requests (bio : Bio) : bio.requests.length = bio.pages.length := by
  simp [Bio.requests]

theorem startsOn_reading (inv : DeviceInv G garbage ctx) (noErr : ctx.err = false)
    (idle : ctx.wb.writingPgs = []) (inRange : bio.InRange G) (read : bio.op = .read) :
    StartsOn G garbage bio (ctx.content G) (ctx, .reading (FbContext.buildReadBio ctx.wb bio).1
      (FbContext.buildReadBio ctx.wb bio).2) := by
  constructor
  · refine .reading inv noErr idle read rfl ?_
    simp only [readPages_eq, Bio.filled, read]
    refine List.ext_getElem (by simp) fun segment _ inside => ?_
    simp only [List.getElem_mapIdx]
    rw [(inRange.lpa_eq (by simp [read]) (by simpa using inside)).1]
  · have shorter : (FbContext.buildReadBio ctx.wb bio).2.length ≤ bio.pages.length := by
      rw [buildReadBio_eq, ← length_requests]
      exact List.length_filter_le _ _
    simp only [Progress.cost, Bio.maxSteps, read]
    omega

theorem startsOn_putting (inv : DeviceInv G garbage ctx) (noErr : ctx.err = false)
    (idle : ctx.wb.writingPgs = []) (inRange : bio.InRange G) (write : bio.op = .write) :
    StartsOn G garbage bio (ctx.content G)
      ({ ctx with fb := ctx.fb.delInvalidatePgs G (bio.requests.map Prod.snd) },
        .putting bio.requests) := by
  have data : bio.op ≠ .discard := by simp [write]
  have inside := inRange.requests_lt data
  have insideKeys : ∀ lpa ∈ bio.requests.map Prod.snd, lpa < G.numLogPages := by
    intro lpa mem
    rcases List.mem_map.mp mem with ⟨request, requestMem, rfl⟩
    exact inside request requestMem
  constructor
  · refine .putting ⟨⟨inv.reachable.exec (.invalidate _) insideKeys, inv.wbOk, inv.inRange⟩, noErr,
      write, inside, ?_⟩ idle
    simp only [Bio.effect, write, ← inRange.putPairs_eq data]
    refine Store.write_congr fun lpa absent => ?_
    have notKey : lpa ∉ bio.requests.map Prod.snd := by
      intro mem
      rcases List.mem_map.mp mem with ⟨request, requestMem, same⟩
      exact absent _ (List.mem_map.mpr ⟨request, requestMem, rfl⟩) same
    simp only [FbContext.content, Store.overlay, flashData_delInvalidatePgs ctx.fb insideKeys,
      Store.discard_apply, if_neg notKey]
  · refine (cost_putting_le _ _).trans ?_
    simp only [Bio.maxSteps, write, length_requests, le_refl]

theorem startsOn_discarding (inv : DeviceInv G garbage ctx) (noErr : ctx.err = false)
    (idle : ctx.wb.writingPgs = []) (inRange : bio.InRange G) (discard : bio.op = .discard) :
    StartsOn G garbage bio (ctx.content G)
      ({ ctx with
          wb := (Fb.discardLpas bio.biSector bio.biSize).foldl (fun wb lpa => wb.rmBufPg lpa) ctx.wb },
        .discarding [] (Fb.discardLpas bio.biSector bio.biSize)) := by
  have inside := inRange.discardLpas_lt discard
  rcases content_foldl_rmBufPg inv.wbOk (Fb.discardLpas bio.biSector bio.biSize) with
    ⟨wbOk, content, stillIdle⟩
  refine ⟨.discarding ⟨inv.reachable, wbOk, fun lpa present => inv.inRange lpa ?_⟩ noErr
    (stillIdle idle) discard inside (fun lpa mem => ?_) ?_, by simp [Progress.cost, Bio.maxSteps, discard]⟩
  · rw [content, Store.discard_apply] at present
    split_ifs at present
    · exact absurd rfl present
    · exact present
  · rw [content, Store.discard_apply]
    exact if_pos mem
  · funext lpa
    simp only [List.nil_append, Store.discard_apply, FbContext.content, Store.overlay, content,
      Bio.effect, discard, inRange.mem_discardLpas discard]
    split_ifs <;> rfl

theorem startsOn (inv : DeviceInv G garbage ctx) (idle : ctx.wb.writingPgs = [])
    (inRange : bio.InRange G) (allocated : Bool) :
    StartsOn G garbage bio (ctx.content G) (Progress.start G bio allocated ctx) := by
  unfold Progress.start
  by_cases err : ctx.err
  · rw [if_pos err]
    exact startsOn_failWith inv _
  have noErr : ctx.err = false := eq_false_of_ne_true err
  rw [if_neg err, if_neg (by simp [inRange.preflush])]
  rcases kind : bio.op with _ | _ | _
  · simp only
    split_ifs
    · exact startsOn_reading inv noErr idle inRange kind
    · exact startsOn_failWith inv _
  · simp only
    split_ifs
    · exact startsOn_putting inv noErr idle inRange kind
    · exact startsOn_failWith inv _
  · exact startsOn_discarding inv noErr idle inRange kind

end Serving

/-! ### Runs -/

/-- The thread of a request, with the steps that it has taken. -/
structure RequestThread where
  bio : Bio
  progress : Progress
  steps : ℕ

/-- The states of the device between two steps, with the requests served so far. Background GC
runs between any two steps, and does not come to a FREE page. The device lock lets the next
request in when the one before is done; after a request that failed the run ends. -/
inductive SteppedRun (G : Geometry) (garbage : Garbage) (wbData : ℕ → PageData) :
    List Bio → FbContext → Option RequestThread → Prop where
  | create {ctx : FbContext} (created : FbContext.create G garbage wbData = some ctx) :
      SteppedRun G garbage wbData [] ctx none
  | start {bios : List Bio} {ctx : FbContext} (run : SteppedRun G garbage wbData bios ctx none)
      {bio : Bio} (inRange : bio.InRange G) (allocated : Bool) :
      SteppedRun G garbage wbData bios (Progress.start G bio allocated ctx).1
        (some ⟨bio, (Progress.start G bio allocated ctx).2, 0⟩)
  | step {bios : List Bio} {ctx : FbContext} {thread : RequestThread}
      (run : SteppedRun G garbage wbData bios ctx (some thread)) {after : FbContext × Progress}
      (stepped : Progress.step G thread.bio ctx thread.progress = some after) :
      SteppedRun G garbage wbData bios after.1
        (some ⟨thread.bio, after.2, thread.steps + 1⟩)
  | done {bios : List Bio} {ctx : FbContext} {bio : Bio} {pages : List PageData} {biError : ℤ}
      {steps : ℕ} (run : SteppedRun G garbage wbData bios ctx
        (some ⟨bio, .finished pages biError false, steps⟩)) :
      SteppedRun G garbage wbData (bios ++ [bio]) ctx none
  | backgroundGc {bios : List Bio} {ctx : FbContext} {thread : Option RequestThread}
      (run : SteppedRun G garbage wbData bios ctx thread) (programmed : TargetsProgrammed G ctx.fb) :
      SteppedRun G garbage wbData bios (Progress.background G ctx) thread

/-- What the host can tell of the device between two steps. -/
structure Undisturbed (G : Geometry) (garbage : Garbage) (bios : List Bio) (ctx : FbContext)
    (thread : Option RequestThread) : Prop where
  /-- Between two requests the content is the disk of the host. -/
  idle : thread = none → ctx.content G = hostDisk bios
  /-- A request never gets stuck, and takes a bounded number of steps. -/
  proceeds : ∀ request ∈ thread, request.steps ≤ request.bio.maxSteps G ∧
    ((∃ after, Progress.step G request.bio ctx request.progress = some after) ∨
      ∃ pages biError failExit, request.progress = .finished pages biError failExit)
  /-- A request that is done has its effect, and a read has copied the disk. -/
  done : ∀ request ∈ thread, ∀ pages biError,
    request.progress = .finished pages biError false →
      ctx.content G = request.bio.effect (hostDisk bios) ∧
        pages = request.bio.filled (hostDisk bios) ∧ biError = 0

section Runs

variable {G : Geometry} {garbage : Garbage} {wbData : ℕ → PageData} {bios : List Bio}
  {ctx : FbContext} {thread : Option RequestThread}

/-- What holds between two requests. -/
structure Idle (G : Geometry) (garbage : Garbage) (bios : List Bio) (ctx : FbContext) : Prop where
  inv : DeviceInv G garbage ctx
  idle : ctx.wb.writingPgs = []
  content : ctx.content G = hostDisk bios

theorem Idle.background (between : Idle G garbage bios ctx) (programmed : TargetsProgrammed G ctx.fb) :
    Idle G garbage bios (Progress.background G ctx) :=
  ⟨between.inv.background, between.idle,
    (content_background between.inv programmed).trans between.content⟩

/-- The invariant of a run. -/
def ThreadInv (G : Geometry) (garbage : Garbage) (bios : List Bio) (ctx : FbContext) :
    Option RequestThread → Prop
  | none => Idle G garbage bios ctx
  | some request => Serves G garbage request.bio (hostDisk bios) ctx request.progress ∧
      request.steps + request.progress.cost G request.bio ctx ≤ request.bio.maxSteps G

theorem Progress.notFinished_of_step {bio : Bio} {progress : Progress} {after : FbContext × Progress}
    (stepped : Progress.step G bio ctx progress = some after) (pages : List PageData) (biError : ℤ)
    (failExit : Bool) : progress ≠ .finished pages biError failExit := by
  rintro rfl
  simp [Progress.step] at stepped

theorem SteppedRun.inv (run : SteppedRun G garbage wbData bios ctx thread) :
    ThreadInv G garbage bios ctx thread := by
  induction run with
  | create created =>
      rcases DeviceInv.of_create created with ⟨inv, _, idle, buffered, flash⟩
      refine ⟨inv, idle, ?_⟩
      funext lpa
      simp [FbContext.content, Store.overlay, buffered, flash, hostDisk]
  | start _ inRange allocated before =>
      rcases startsOn before.inv before.idle inRange allocated with ⟨serves, bound⟩
      rw [before.content] at serves
      exact ⟨serves, by simpa using bound⟩
  | step _ stepped before =>
      rcases before with ⟨serves, bound⟩
      rcases serves.step (Progress.notFinished_of_step stepped) with ⟨after, same, next, less⟩
      rw [stepped, Option.some.injEq] at same
      subst same
      exact ⟨next, by simp only; omega⟩
  | done _ before =>
      cases before.1 with
      | finished inv noErr idle content filled =>
          exact ⟨inv, idle, by rw [hostDisk_concat]; exact content⟩
  | @backgroundGc _ _ thread _ programmed before =>
      cases thread with
      | none => exact Idle.background before programmed
      | some request =>
          refine ⟨before.1.background programmed, ?_⟩
          rw [cost_background]
          exact before.2

/-- Steps of the thread of a request that follow each other. -/
theorem SteppedRun.steps {bio : Bio} {progress : Progress} {steps : ℕ} {after : FbContext × Progress}
    (run : SteppedRun G garbage wbData bios ctx (some ⟨bio, progress, steps⟩))
    (follow : Steps G bio (ctx, progress) after) :
    ∃ steps, SteppedRun G garbage wbData bios after.1 (some ⟨bio, after.2, steps⟩) := by
  induction follow with
  | refl => exact ⟨steps, run⟩
  | tail _ stepped before =>
      rcases before with ⟨steps, run⟩
      exact ⟨steps + 1, run.step stepped⟩

/-- A run in which background GC waits for the requests is such a run. -/
theorem CollectedRun.stepped (run : CollectedRun G garbage wbData bios ctx) :
    SteppedRun G garbage wbData bios ctx none := by
  induction run with
  | create created => exact .create created
  | @request bios ctx _ bio inRange allocated result served succeeded before =>
      rcases (before.start inRange allocated).steps (steps_of_makeRequest G bio served) with
        ⟨steps, finished⟩
      rw [succeeded] at finished
      exact finished.done
  | backgroundGc _ programmed before => exact before.backgroundGc programmed

/-- So many steps of a request without background GC; `none` when it is done before. -/
def Progress.stepMany (G : Geometry) (bio : Bio) :
    ℕ → FbContext × Progress → Option (FbContext × Progress)
  | 0, state => some state
  | n + 1, state => (Progress.step G bio state.1 state.2).bind (stepMany G bio n)

theorem SteppedRun.stepMany {bio : Bio} {progress : Progress} {steps n : ℕ}
    {after : FbContext × Progress}
    (run : SteppedRun G garbage wbData bios ctx (some ⟨bio, progress, steps⟩))
    (stepped : Progress.stepMany G bio n (ctx, progress) = some after) :
    SteppedRun G garbage wbData bios after.1 (some ⟨bio, after.2, steps + n⟩) := by
  induction n generalizing ctx progress steps with
  | zero =>
      simp only [Progress.stepMany, Option.some.injEq] at stepped
      rw [← stepped]
      exact run
  | succ n ih =>
      rw [Progress.stepMany, Option.bind_eq_some_iff] at stepped
      rcases stepped with ⟨⟨next, progress⟩, first, rest⟩
      have run := ih (run.step first) rest
      rwa [Nat.add_assoc, Nat.add_comm 1] at run

/-- The request has left `make_request` through `REQ_FINISH`. -/
def Progress.succeeded : Progress → Bool
  | .finished _ _ failExit => !failExit
  | _ => false

theorem Progress.eq_of_succeeded {progress : Progress} (succeeded : progress.succeeded = true) :
    ∃ pages biError, progress = .finished pages biError false := by
  cases progress with
  | finished pages biError failExit =>
      cases failExit with
      | false => exact ⟨pages, biError, rfl⟩
      | true => simp [Progress.succeeded] at succeeded
  | reading | discarding | putting | flushing | writingOut | retiring =>
      simp [Progress.succeeded] at succeeded

/-- Requests between whose steps background GC runs have the effect that they have alone, and
take no more steps. -/
theorem preempted_requests (run : SteppedRun G garbage wbData bios ctx thread) :
    Undisturbed G garbage bios ctx thread := by
  have inv := run.inv
  cases thread with
  | none => exact ⟨fun _ => inv.content, by simp, by simp⟩
  | some request =>
      rcases inv with ⟨serves, bound⟩
      constructor
      · simp
      · intro other isRequest
        obtain rfl := Option.some.inj isRequest
        refine ⟨by omega, ?_⟩
        by_cases finished : ∃ pages biError failExit,
            request.progress = .finished pages biError failExit
        · exact Or.inr finished
        · rcases serves.step fun pages biError failExit same =>
            finished ⟨pages, biError, failExit, same⟩ with ⟨after, stepped, _⟩
          exact Or.inl ⟨after, stepped⟩
      · intro other isRequest pages biError finished
        obtain rfl := Option.some.inj isRequest
        rw [finished] at serves
        cases serves with
        | finished inv noErr idle content filled => exact ⟨content, filled, rfl⟩

/-- The read of ten pages when it has copied the first one from flash. -/
def begunRead : Option (FbContext × Progress) :=
  Progress.stepMany .threeBlocks readTen 1 (Progress.start .threeBlocks readTen true bufferedDevice)

theorem begunRead_isSome : begunRead.isSome := by decide +kernel

/-- Background GC moves that page and the three that the read has still to copy from flash. -/
def resumedRead : Option (FbContext × Progress) :=
  Progress.stepMany .threeBlocks readTen 4
    (Progress.background .threeBlocks (begunRead.get begunRead_isSome).1,
      (begunRead.get begunRead_isSome).2)

theorem resumedRead_succeeds : resumedRead.any (fun after => after.2.succeeded) := by decide +kernel

/-- The read ends after five steps and has copied the disk, though its pages moved under it. -/
theorem preempted_requests_readTen : ∃ ctx pages,
    Undisturbed .threeBlocks .zeroed bufferBios ctx
      (some ⟨readTen, .finished pages 0 false, 5⟩) ∧
    pages = readTen.filled (hostDisk bufferBios) := by
  have start := bufferedDevice_run.collected.stepped.start
    (show readTen.InRange .threeBlocks by decide) true
  have begun := start.stepMany (Option.some_get begunRead_isSome).symm
  have moved := begun.backgroundGc (by decide +kernel)
  rcases (Option.any_eq_true _ _).mp resumedRead_succeeds with ⟨after, read, succeeded⟩
  have resumed := moved.stepMany read
  rcases Progress.eq_of_succeeded succeeded with ⟨pages, biError, finished⟩
  rw [finished] at resumed
  have undisturbed := preempted_requests resumed
  rcases undisturbed.done _ rfl pages biError rfl with ⟨_, copied, rfl⟩
  exact ⟨_, pages, undisturbed, copied⟩

end Runs

end FlashBench
