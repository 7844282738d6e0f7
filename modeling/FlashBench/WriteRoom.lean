import FlashBench.HostRuns
import FlashBench.WriteSupply

/-!
# Room for a write

A flush programs pages on the chips in turn. As long as the chips whose turn it is have
pages left and no GC block is missing, no write to flash triggers a collection and none
fails. How many pages a write bio can need is known before it: the pages that are
buffered then and its own, four to a page. A bio that finds a free entry for each of its
pages needs none.
-/

namespace FlashBench

/-- The next `n` pages can be programmed without garbage collection. -/
structure HasRoom (G : Geometry) (fb : Fb) (n : ℕ) : Prop where
  supplied : Supplied G fb
  idle : ∀ c, G.HasChip c → fb.abm.actBlks c = none → (fb.ssdi.chips c).freeBlks = []
  room : ∀ c, G.HasChip c → (G.chipsAfter fb.getPrevBusChip n).count c ≤ fb.pagesLeft G c

/-- A write bio finds a free entry for each of its pages, or there is room for what it can make the
device flush. -/
def Bio.Fits (G : Geometry) (bio : Bio) (ctx : FbContext) : Prop :=
  bio.pages.length ≤ ctx.wb.freePgs.length ∨
    HasRoom G ctx.fb ((ctx.wb.bufPgs.length + bio.pages.length) / nrLpInPp)

/-! ### Writes to flash -/

section Pages

variable {G : Geometry} {fb other : Fb} {lpas : Slot → ℕ} {src : Slot → PageData} {n : ℕ}

/-- A chip that loses its active block has no free block. -/
theorem updateActBlk_idle (fb : Fb) (c : ChipId) {c' : ChipId}
    (idle : fb.abm.actBlks c' = none → (fb.ssdi.chips c').freeBlks = []) :
    (fb.updateActBlk c).abm.actBlks c' = none →
      ((fb.updateActBlk c).ssdi.chips c').freeBlks = [] := by
  have retired (fb : Fb) (b : BlockId) :
      (((fb.updBlock b (·.setActBlkFlag false)).setUsedBlk b).ssdi.chips c').freeBlks =
        (fb.ssdi.chips c').freeBlks := by
    by_cases same : c' = b.chip
    · simp [Fb.setUsedBlk, Fb.updChip, SsdInfo.updChip, Fb.updBlock, SsdInfo.updBlock,
        FlashChip.setUsedBlk, same]
    · simp [Fb.setUsedBlk, Fb.updChip, SsdInfo.updChip, Fb.updBlock, SsdInfo.updBlock, same]
  unfold Fb.updateActBlk
  rcases fb.getCurrActiveBlock c with _ | b
  · exact idle
  simp only
  split_ifs
  · have lists := retired fb b
    have slots : ((fb.updBlock b (·.setActBlkFlag false)).setUsedBlk b).abm = fb.abm := rfl
    generalize (fb.updBlock b (·.setActBlkFlag false)).setUsedBlk b = moved at lists slots ⊢
    rcases head : moved.getFreeBlock c with _ | next
    · intro nowIdle
      change Function.update moved.abm.actBlks c none c' = none at nowIdle
      change (moved.ssdi.chips c').freeBlks = []
      by_cases same : c' = c
      · rw [same]
        exact List.head?_eq_none_iff.mp head
      · rw [Function.update_of_ne same, slots] at nowIdle
        rw [lists, idle nowIdle]
    · intro nowIdle
      change Function.update moved.abm.actBlks c (some next) c' = none at nowIdle
      change ((moved.resetFreeBlk next).ssdi.chips c').freeBlks = []
      by_cases same : c' = c
      · simp [same] at nowIdle
      · rw [Function.update_of_ne same, slots] at nowIdle
        have before : (moved.ssdi.chips c').freeBlks = [] := by rw [lists, idle nowIdle]
        by_cases isOwner : c' = next.chip
        · subst isOwner
          simp [Fb.resetFreeBlk, Fb.record, Fb.updChip, SsdInfo.updChip, FlashChip.resetFreeBlk,
            before]
        · simp [Fb.resetFreeBlk, Fb.record, Fb.updChip, SsdInfo.updChip, isOwner, before]
  · exact idle

theorem programPage_idle (fb : Fb) (c : ChipId) (blk pg : ℕ) (lpas : Slot → ℕ)
    (src : Slot → PageData) {c' : ChipId}
    (idle : fb.abm.actBlks c' = none → (fb.ssdi.chips c').freeBlks = [])
    (nowIdle : (fb.programPage G c blk pg lpas src).abm.actBlks c' = none) :
    ((fb.programPage G c blk pg lpas src).ssdi.chips c').freeBlks = [] := by
  have frame := MappingFrame.mapLogicalToPhysical G (fb.vdeviceWrite ⟨c, blk⟩ pg src) lpas
    ⟨c, blk⟩ pg
  refine updateActBlk_idle _ c (fun isIdle => ?_) nowIdle
  refine (frame.freeBlks c').trans (idle ?_)
  rw [← isIdle]
  exact (congrFun (congrArg ActBlkMngr.actBlks frame.abm) c').symm

/-- The chip whose turn it is has an active block. -/
theorem HasRoom.active (room : HasRoom G fb (n + 1)) (inv : Inv G .rest fb) :
    ∃ blk, fb.abm.actBlks (fb.getNextBusChip G) = some ⟨fb.getNextBusChip G, blk⟩ := by
  have hasNext := hasChip_getNextBusChip inv.mruOk
  have left := room.room _ hasNext
  have first : 0 < (G.chipsAfter fb.getPrevBusChip (n + 1)).count (fb.getNextBusChip G) := by
    rw [Fb.getNextBusChip_eq]
    exact List.count_pos_iff.mpr List.mem_cons_self
  rcases active : fb.abm.actBlks (fb.getNextBusChip G) with _ | b
  · rw [pagesLeft_of_idle active, room.idle _ hasNext active, List.length_nil] at left
    omega
  · rcases inv.of_active hasNext active with ⟨own, _⟩
    exact ⟨b.noBlock, by rw [← own]⟩

/-- A write takes one page of the room. -/
theorem HasRoom.makeWriteRequest (room : HasRoom G fb (n + 1)) (inv : Inv G .rest fb)
    (lpasOk : ∀ lp, LpaOk G (lpas lp)) (src : Slot → PageData) :
    (fb.makeWriteRequest G lpas src).1 = .ok ∧
      HasRoom G (fb.makeWriteRequest G lpas src).2 n := by
  have hasNext := hasChip_getNextBusChip inv.mruOk
  rcases room.active inv with ⟨blk, active⟩
  have result : fb.makeWriteRequest G lpas src = (.ok, fb.programPage G (fb.getNextBusChip G) blk
      (G.numPagesPerBlock - (fb.ssdi.blocks ⟨fb.getNextBusChip G, blk⟩).nrFreePages) lpas src) := by
    rw [room.supplied.makeWriteRequest_eq inv]
    simp [Fb.allocAndProgram, Fb.allocNewPage, Fb.getCurrActiveBlock, active]
  rw [result]
  refine ⟨rfl, room.supplied.grows (.programPage G fb _ blk _ lpas src),
    fun c hasChip => programPage_idle fb _ blk _ lpas src (room.idle c hasChip),
    fun c hasChip => ?_⟩
  have turns : G.chipsAfter fb.getPrevBusChip (n + 1) =
      fb.getNextBusChip G :: G.chipsAfter (fb.getNextBusChip G) n := by
    rw [Fb.getNextBusChip_eq]
    rfl
  have left := room.room c hasChip
  rw [turns, List.count_cons] at left
  rw [(programPage_progress G fb _ blk _ lpas src).2,
    programPage_pagesLeft inv hasNext active rfl lpasOk src hasChip]
  split_ifs with same
  · subst same
    rw [if_pos (by simp)] at left
    omega
  · rw [if_neg (by simpa using Ne.symm same)] at left
    exact left

theorem HasRoom.delInvalidatePgs (room : HasRoom G fb n) (reqLpas : List ℕ) :
    HasRoom G (fb.delInvalidatePgs G reqLpas) n := by
  refine foldl_preserves (fun other => HasRoom G other n) (fun lpa _ other kept => ?_) room
  have frame := MappingFrame.invalidateLpg G other lpa
  refine ⟨kept.supplied.grows (.invalidateLpg G other lpa), fun c hasChip isIdle => ?_,
    fun c hasChip => ?_⟩
  · rw [frame.freeBlks]
    rw [frame.abm] at isIdle
    exact kept.idle c hasChip isIdle
  · rw [(SameProgress.invalidateLpg G other lpa).position, invalidateLpg_pagesLeft]
    exact kept.room c hasChip

end Pages

/-! ### The write loop -/

section Loop

variable {G : Geometry} {garbage : Garbage} {capacity n : ℕ} {ctx : FbContext} {bio : Bio}

/-- A put takes one free entry at most. -/
theorem WriteBuffer.putPg_freePgs {Data : Type} {wb other : WriteBuffer Data} {lpa : ℕ}
    {data : Data} (put : wb.putPg lpa data = some other) :
    wb.freePgs.length ≤ other.freePgs.length + 1 := by
  unfold WriteBuffer.putPg at put
  rcases found : wb.getBufPg lpa with _ | i
  · rcases head : wb.freePgs.head? with _ | i
    · simp [found, head] at put
    · simp only [found, head, Option.some.injEq] at put
      subst put
      have length := List.length_erase_of_mem (mem_of_head?_eq head)
      change wb.freePgs.length ≤ (wb.freePgs.erase i).length + 1
      omega
  · simp only [found, Option.some.injEq] at put
    subst put
    have same : (wb.resetPg i).freePgs = wb.freePgs := by
      unfold WriteBuffer.resetPg
      split_ifs <;> rfl
    change wb.freePgs.length ≤ (wb.resetPg i).freePgs.length + 1
    rw [same]
    omega

/-- With room for its pages a flush succeeds, and takes a page of the room for every four that it
writes. -/
theorem wbFlushLoop_room (passes : ℕ) (inv : BufferedInv G garbage capacity ctx)
    (idle : ctx.wb.writingPgs = []) (enough : ctx.wb.bufPgs.length < passes)
    (room : HasRoom G ctx.fb n) (fits : ctx.wb.bufPgs.length / nrLpInPp ≤ n) :
    (ctx.wbFlushLoop G passes).1 = .ok ∧
      ∃ m, HasRoom G (ctx.wbFlushLoop G passes).2.fb m ∧
        ctx.wb.bufPgs.length + nrLpInPp * m =
          (ctx.wbFlushLoop G passes).2.wb.bufPgs.length + nrLpInPp * n := by
  induction passes generalizing ctx n with
  | zero => omega
  | succ passes ih =>
      rcases Nat.lt_or_ge ctx.wb.bufPgs.length nrLpInPp with few | full
      · rw [(inv.flushEnds few passes).1]
        exact ⟨rfl, n, room, rfl⟩
      · rcases inv.flushTakes full with ⟨lpas, pgBuf, taken, wb, takes⟩
        have lpasOk : ∀ lp, LpaOk G (lpas lp) := fun lp => Or.inr (takes.inRange lp)
        simp only [nrLpInPp] at full fits
        obtain ⟨rest, rfl⟩ : ∃ rest, n = rest + 1 := ⟨n - 1, by omega⟩
        rcases room.makeWriteRequest inv.reachable.inv lpasOk pgBuf with ⟨ok, left⟩
        rcases writes : ctx.fb.makeWriteRequest G lpas pgBuf with ⟨ret, fb⟩
        rw [writes] at ok left
        obtain rfl : ret = .ok := ok
        rcases takes.written inv idle writes with ⟨⟨nextInv, _⟩, nextIdle, shorter⟩
        simp only [nrLpInPp] at shorter
        rw [takes.loop, writes]
        have fewer : wb.rmWrittenPgs.bufPgs.length < passes := by omega
        have fitsStill : wb.rmWrittenPgs.bufPgs.length / nrLpInPp ≤ rest := by
          simp only [nrLpInPp]
          omega
        rcases ih nextInv nextIdle fewer left fitsStill with ⟨flushes, m, roomLeft, account⟩
        refine ⟨flushes, m, roomLeft, ?_⟩
        simp only [nrLpInPp] at account ⊢
        omega

/-- A write bio that finds a free entry for each of its pages causes no flush. -/
theorem writeLoop_free (few : bio.pages.length ≤ ctx.wb.freePgs.length) :
    (ctx.writeLoop G bio).1 = .ok := by
  refine forEach_rule
    (fun rest other => rest.length ≤ other.wb.freePgs.length) (fun result => result.1 = .ok)
    (fun request rest other enough => ?_) (fun _ _ => rfl) (by simpa [Bio.requests] using few)
  rw [List.length_cons] at enough
  rcases put : other.wb.putPg request.2 ((bio.pages[request.1]?).getD erasedPage) with _ | wb
  · have full := (WriteBuffer.putPg_eq_none.mp put).2
    simp [full] at enough
  · have one := WriteBuffer.putPg_freePgs put
    simp only [FbContext.putRequest, FbContext.putOrFlush, put]
    refine ⟨fun _ => ?_, by simp⟩
    omega

/-- Nor does a flush fail while there is room for what is buffered and for the pages of the
bio. -/
theorem writeLoop_room (inv : DeviceInv G garbage ctx) (idle : ctx.wb.writingPgs = [])
    (inside : ∀ request ∈ bio.requests, request.2 < G.numLogPages)
    (room : HasRoom G ctx.fb ((ctx.wb.bufPgs.length + bio.pages.length) / nrLpInPp)) :
    (ctx.writeLoop G bio).1 = .ok := by
  refine forEach_rule
    (fun rest other => (∀ request ∈ rest, request.2 < G.numLogPages) ∧
      DeviceInv G garbage other ∧ other.wb.writingPgs = [] ∧
        ∃ m, HasRoom G other.fb m ∧ (other.wb.bufPgs.length + rest.length) / nrLpInPp ≤ m)
    (fun result => result.1 = .ok) (fun request rest other before => ?_) (fun _ _ => rfl)
    ⟨inside, inv, idle, _, room, by simp [Bio.requests]⟩
  rcases before with ⟨inRange, otherInv, otherIdle, m, left, fits⟩
  have requestIn := inRange request (by simp)
  have restIn : ∀ request ∈ rest, request.2 < G.numLogPages := fun request mem =>
    inRange request (by simp [mem])
  rw [List.length_cons] at fits
  -- what is buffered after a put
  have stored {middle : FbContext} (middleInv : DeviceInv G garbage middle)
      (middleIdle : middle.wb.writingPgs = []) {wb : WriteBuffer PageData}
      (put : middle.wb.putPg request.2 ((bio.pages[request.1]?).getD erasedPage) = some wb) :
      DeviceInv G garbage { middle with wb := wb } ∧ wb.writingPgs = [] ∧
        wb.bufPgs.length ≤ middle.wb.bufPgs.length + 1 := by
    have outcome := putOutcome_of_put middleInv middleIdle requestIn put
    have nowIdle : wb.writingPgs = [] := outcome.idle rfl
    refine ⟨outcome.inv, nowIdle, ?_⟩
    have lengths := middleInv.wbOk.lengths
    have lengthsAfter := outcome.inv.wbOk.lengths
    have one := WriteBuffer.putPg_freePgs put
    rw [middleIdle] at lengths
    simp only [nowIdle] at lengthsAfter
    omega
  rcases put : other.wb.putPg request.2 ((bio.pages[request.1]?).getD erasedPage) with _ | wb
  · have flushEnds := wbFlush_spec otherInv otherIdle
    have flush := wbFlushLoop_room (other.wb.nrEntries + 1) otherInv.buffered otherIdle
      (by rw [otherInv.wbOk.nrEntries_eq]; omega) left (by simp only [nrLpInPp] at fits ⊢; omega)
    change (other.wbFlush G).1 = .ok ∧ _ at flush
    simp only [FbContext.putRequest, FbContext.putOrFlush, put]
    unfold FbContext.wbFlush at flush flushEnds ⊢
    generalize FbContext.wbFlushLoop G (other.wb.nrEntries + 1) other = result
      at flush flushEnds ⊢
    rcases result with ⟨ret, flushed⟩
    rcases flush with ⟨rfl, k, roomLeft, account⟩
    rcases flushEnds.done rfl with ⟨flushedIdle, few⟩
    rcases putPg_after_flush flushEnds.inv flushedIdle few request.2
      ((bio.pages[request.1]?).getD erasedPage) with ⟨wb, retry⟩
    rcases stored flushEnds.inv flushedIdle retry with ⟨nextInv, nextIdle, length⟩
    simp only at account retry length
    simp only [retry]
    refine ⟨fun _ => ⟨restIn, nextInv, nextIdle, k, roomLeft, ?_⟩, by simp⟩
    simp only [nrLpInPp] at account fits ⊢
    omega
  · rcases stored otherInv otherIdle put with ⟨nextInv, nextIdle, length⟩
    simp only [FbContext.putRequest, FbContext.putOrFlush, put]
    refine ⟨fun _ => ⟨restIn, nextInv, nextIdle, m, left, ?_⟩, by simp⟩
    simp only [nrLpInPp] at fits ⊢
    omega

end Loop

end FlashBench
