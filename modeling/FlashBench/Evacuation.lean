import FlashBench.BlockLife

/-!
# Copying empties the victims

A sub-page once programmed stays VALID only as long as its LPA is not programmed
again. So `prog_valid_pgs_to_gc_blks` leaves no VALID sub-page among those whose LPAs
it was given, and a victim all of whose VALID sub-pages were read is reclaimed.
-/

namespace FlashBench

open PgStatus

section OnePage

variable {G : Geometry} {fb other : Fb} {b : BlockId} {c : ChipId} {blk pg : ℕ}
  {lpas : Slot → ℕ} {src : Slot → PageData} {l : Location}

/-- After some sub-pages of a page were mapped, an LPA is mapped to that page, or as before. -/
theorem l2p_foldl_mapLpa (slots : List Slot) (fb : Fb) (hasBlock : G.HasBlock b)
    (pg_lt : pg < G.numPagesPerBlock) (lpasOk : ∀ lp, LpaOk G (lpas lp)) {lpa : ℕ}
    (forward : l2p G (slots.foldl (fun fb lp => fb.mapLpa G (lpas lp) b pg lp) fb).mappings lpa =
      some l) :
    (l.block = b ∧ l.page = pg) ∨
      ((∀ lp ∈ slots, lpas lp ≠ lpa) ∧ l2p G fb.mappings lpa = some l) := by
  induction slots generalizing fb with
  | nil => exact Or.inr ⟨by simp, forward⟩
  | cons lp slots ih =>
      rw [List.foldl_cons] at forward
      rcases ih _ forward with inPage | ⟨others, before⟩
      · exact Or.inl inPage
      have inside : lpa < G.numLogPages := by
        by_contra outside
        simp [l2p, outside] at before
      rw [Fb.mapLpa_mappings] at before
      by_cases padding : lpas lp = pageUnmapped
      · rw [if_neg (by simp [padding])] at before
        refine Or.inr ⟨fun slot mem => ?_, before⟩
        rcases List.mem_cons.mp mem with rfl | rest
        · rw [padding]
          exact (inside.trans G.numLogPages_lt).ne'
        · exact others slot rest
      · have hasLocation : G.HasLocation ⟨b, pg, lp⟩ := ⟨hasBlock, pg_lt⟩
        rw [if_pos padding, l2p_update ((lpasOk lp).resolve_left padding),
          if_pos (physicalAddress_ne_pageUnmapped hasLocation),
          locate_physicalAddress hasLocation] at before
        by_cases same : lpa = lpas lp
        · subst same
          rw [Function.update_self, Option.some.injEq] at before
          exact Or.inl ⟨by rw [← before], by rw [← before]⟩
        · rw [Function.update_of_ne same] at before
          refine Or.inr ⟨fun slot mem => ?_, before⟩
          rcases List.mem_cons.mp mem with rfl | rest
          · exact fun equal => same equal.symm
          · exact others slot rest

theorem updateActBlk_counters (fb : Fb) (c : ChipId) (b : BlockId) :
    SameCounters (fb.ssdi.blocks b) ((fb.updateActBlk c).ssdi.blocks b) := by
  unfold Fb.updateActBlk
  rcases fb.getCurrActiveBlock c with _ | active
  · exact .rfl
  · simp only
    split_ifs
    · have retired := (Moves.setActBlkFlag fb active false).trans (.setUsedBlk _ active)
      rcases ((fb.updBlock active (·.setActBlkFlag false)).setUsedBlk active).getFreeBlock c with
        _ | next
      · exact retired.counters b
      · have opened := (Moves.resetFreeBlk ((fb.updBlock active
          (·.setActBlkFlag false)).setUsedBlk active) next).trans (.setActBlkFlag _ next true)
        exact (retired.counters b).trans (opened.counters b)
    · exact .rfl

theorem updateActBlk_nrFreePages (fb : Fb) (c : ChipId) (b : BlockId) :
    ((fb.updateActBlk c).ssdi.blocks b).nrFreePages = (fb.ssdi.blocks b).nrFreePages :=
  (updateActBlk_counters fb c b).nrFreePages

theorem programPage_nrFreePages (fb : Fb) (c : ChipId) (blk pg : ℕ) (lpas : Slot → ℕ)
    (src : Slot → PageData) (b : BlockId) :
    ((fb.programPage G c blk pg lpas src).ssdi.blocks b).nrFreePages =
      if b = ⟨c, blk⟩ then dec32 (fb.ssdi.blocks b).nrFreePages
      else (fb.ssdi.blocks b).nrFreePages := by
  have four : List.finRange nrLpInPp = [0, 1, 2, 3] := by decide
  unfold Fb.programPage Fb.mapLogicalToPhysical
  rw [updateActBlk_nrFreePages, four]
  simp only [List.foldl_cons, List.foldl_nil]
  change ((Fb.mapLpa G _ (lpas 3) ⟨c, blk⟩ pg 3).ssdi.blocks b).nrFreePages = _
  have second : ¬2 % nrLpInPp = 3 := by decide
  simp only [Fb.mapLpa_nrFreePages]
  simp [Fb.vdeviceWrite, Fb.record, second]

/-- What a page program does to a sub-page that is not FREE: it is never FREE again, and it
stays VALID only if its LPA is not among those programmed. -/
theorem programPage_survives (inv : Inv G .rest fb) (hasChip : G.HasChip c)
    (active : fb.abm.actBlks c = some ⟨c, blk⟩)
    (pg_eq : pg = G.numPagesPerBlock - (fb.ssdi.blocks ⟨c, blk⟩).nrFreePages)
    (lpasOk : ∀ lp, LpaOk G (lpas lp)) (src : Slot → PageData) (hasLocation : G.HasLocation l)
    (notFree : (fb.ssdi.pages l.block l.page).pageStatus l.slot ≠ free) :
    ((fb.programPage G c blk pg lpas src).ssdi.pages l.block l.page).pageStatus l.slot ≠ free ∧
    (((fb.programPage G c blk pg lpas src).ssdi.pages l.block l.page).pageStatus l.slot = valid →
      (fb.ssdi.pages l.block l.page).pageStatus l.slot = valid ∧
      ((fb.programPage G c blk pg lpas src).ssdi.pages l.block l.page).noLogicalPageAddr l.slot =
        (fb.ssdi.pages l.block l.page).noLogicalPageAddr l.slot ∧
      ∀ lp, lpas lp ≠ (fb.ssdi.pages l.block l.page).noLogicalPageAddr l.slot) := by
  have after := inv.programPage hasChip active pg_eq lpasOk src
  rcases inv.nextPage hasChip active pg_eq with ⟨_, hasBlock, pg_lt, isFree⟩
  constructor
  · intro nowFree
    have before := mt ((inv.blockOk l.block hasLocation.1).status_free l.page hasLocation.2
      l.slot).mpr notFree
    have behind := ((after.blockOk l.block hasLocation.1).status_free l.page hasLocation.2
      l.slot).mp nowFree
    have open_ := inv.active_nrFreePages_pos hasChip active (by simp)
    rw [programPage_nrFreePages] at behind
    split_ifs at behind with same
    · rw [same] at before
      rw [same, dec32_of_pos open_] at behind
      simp only [Phase.ofs_rest] at before behind
      omega
    · exact before behind
  · intro nowValid
    have forward := (after.mapOk.inverse _ l).mpr (p2l_eq_some.mpr ⟨hasLocation, nowValid, rfl⟩)
    have updated := updateActBlk_sameFlash (((fb.vdeviceWrite ⟨c, blk⟩ pg src).mapLogicalToPhysical G
      lpas ⟨c, blk⟩ pg).setPrevBusChip c) c
    change l2p G (Fb.updateActBlk _ c).mappings _ = _ at forward
    rw [updated.1] at forward
    rcases l2p_foldl_mapLpa (List.finRange nrLpInPp) (fb.vdeviceWrite ⟨c, blk⟩ pg src) hasBlock pg_lt
      lpasOk forward with ⟨sameBlock, samePage⟩ | ⟨others, before⟩
    · rw [sameBlock, samePage] at notFree
      exact absurd (isFree l.slot) notFree
    · rcases p2l_eq_some.mp ((inv.mapOk.inverse _ l).mp before) with ⟨_, isValid, address⟩
      exact ⟨isValid, address.symm, fun lp => by
        rw [address]
        exact others lp (List.mem_finRange lp)⟩

end OnePage

/-! ### Copying -/

/-- Sub-pages programmed in the first state are not FREE in the second one, and those that are
VALID have been VALID all along and carry none of the LPAs. -/
def Survives (G : Geometry) (fb other : Fb) (gone : ℕ → Prop) : Prop :=
  ∀ l, G.HasLocation l → (fb.ssdi.pages l.block l.page).pageStatus l.slot ≠ free →
    (other.ssdi.pages l.block l.page).pageStatus l.slot ≠ free ∧
    ((other.ssdi.pages l.block l.page).pageStatus l.slot = valid →
      (fb.ssdi.pages l.block l.page).pageStatus l.slot = valid ∧
      (other.ssdi.pages l.block l.page).noLogicalPageAddr l.slot =
        (fb.ssdi.pages l.block l.page).noLogicalPageAddr l.slot ∧
      ¬gone ((fb.ssdi.pages l.block l.page).noLogicalPageAddr l.slot))

/-- One more entry of each chip's spare blocks never hurts: a GC block stays, and so does a dirt
block. -/
structure SpareGrows (fb other : Fb) : Prop where
  gcBlks : ∀ c, (fb.gcm.gcBlks c).isSome → (other.gcm.gcBlks c).isSome
  dirtBlks : ∀ c, (fb.ssdi.chips c).dirtBlks ≠ [] → (other.ssdi.chips c).dirtBlks ≠ []

namespace SpareGrows

variable {G : Geometry} {fb other third : Fb}

theorem refl (fb : Fb) : SpareGrows fb fb := ⟨fun _ some_ => some_, fun _ some_ => some_⟩

theorem trans (first : SpareGrows fb other) (second : SpareGrows other third) :
    SpareGrows fb third :=
  ⟨fun c some_ => second.gcBlks c (first.gcBlks c some_),
    fun c some_ => second.dirtBlks c (first.dirtBlks c some_)⟩

theorem of_eq (gcBlks : other.gcm.gcBlks = fb.gcm.gcBlks)
    (dirtBlks : ∀ c, (other.ssdi.chips c).dirtBlks = (fb.ssdi.chips c).dirtBlks) :
    SpareGrows fb other :=
  ⟨fun c some_ => by rw [gcBlks]; exact some_, fun c some_ => by rw [dirtBlks]; exact some_⟩

theorem of_scratchOnly (same : ScratchOnly fb other) : SpareGrows fb other :=
  of_eq same.gcBlks fun c => by rw [same.ssdi]

theorem resetUsedBlk (fb : Fb) (b : BlockId) : SpareGrows fb (fb.resetUsedBlk b) := by
  refine of_eq rfl fun c => ?_
  by_cases same : c = b.chip
  · subst c
    simp [Fb.resetUsedBlk, Fb.record, Fb.updChip, SsdInfo.updChip, FlashChip.resetUsedBlk]
  · simp [Fb.resetUsedBlk, Fb.record, Fb.updChip, SsdInfo.updChip, same]

theorem setCurrGcBlock (fb : Fb) (c : ChipId) (b : BlockId) :
    SpareGrows fb (fb.setCurrGcBlock c (some b)) := by
  refine ⟨fun c' some_ => ?_, fun _ some_ => some_⟩
  change (Function.update fb.gcm.gcBlks c (some b) c').isSome
  by_cases same : c' = c
  · simp [same]
  · rwa [Function.update_of_ne same]

theorem setDirtBlk (fb : Fb) (b : BlockId) : SpareGrows fb (fb.setDirtBlk b) := by
  refine ⟨fun _ some_ => some_, fun c some_ => ?_⟩
  by_cases same : c = b.chip
  · subst c
    simp [Fb.setDirtBlk, Fb.updChip, SsdInfo.updChip, FlashChip.setDirtBlk]
  · simpa [Fb.setDirtBlk, Fb.updChip, SsdInfo.updChip, same] using some_

theorem invalidateLpg (G : Geometry) (fb : Fb) (lpa : ℕ) :
    SpareGrows fb (fb.invalidateLpg G lpa).2 := by
  have marked (l : Location) : SpareGrows fb (fb.markInvalid l) := of_eq rfl fun _ => rfl
  have unmapped (fb : Fb) : SpareGrows fb (fb.setMappedPpa lpa pageUnmapped) :=
    of_eq rfl fun _ => rfl
  rcases fb.invalidateLpg_cases G lpa with ⟨_, same⟩ | ⟨l, _, _, same | ⟨_, same⟩ | same⟩
  · rw [same]
    exact refl fb
  · rw [same]
    exact (marked l).trans (unmapped _)
  · rw [same]
    exact (((marked l).trans (resetUsedBlk _ _)).trans (setCurrGcBlock _ _ _)).trans (unmapped _)
  · rw [same]
    exact (((marked l).trans (resetUsedBlk _ _)).trans (setDirtBlk _ _)).trans (unmapped _)

theorem delInvalidatePgs (fb : Fb) (reqLpas : List ℕ) :
    SpareGrows fb (fb.delInvalidatePgs G reqLpas) :=
  foldl_preserves (SpareGrows fb) (fun lpa _ other grows =>
    grows.trans (invalidateLpg G other lpa)) (refl fb)

theorem updateActBlk (fb : Fb) (c : ChipId) : SpareGrows fb (fb.updateActBlk c) := by
  have lists {fb : Fb} {f : FlashChip → FlashChip} {c : ChipId}
      (keeps : ∀ chip, (f chip).dirtBlks = chip.dirtBlks) (c' : ChipId) :
      ((fb.updChip c f).ssdi.chips c').dirtBlks = (fb.ssdi.chips c').dirtBlks := by
    by_cases isC : c' = c
    · subst c'
      simp [Fb.updChip, SsdInfo.updChip, keeps]
    · simp [Fb.updChip, SsdInfo.updChip, isC]
  unfold Fb.updateActBlk
  rcases fb.getCurrActiveBlock c with _ | active
  · exact refl fb
  · simp only
    split_ifs
    · have retired : SpareGrows fb
          ((fb.updBlock active (·.setActBlkFlag false)).setUsedBlk active) :=
        of_eq rfl (lists (f := (·.setUsedBlk active)) (c := active.chip) fun _ => rfl)
      refine retired.trans ?_
      split
      · exact of_eq rfl fun _ => rfl
      · next b _ =>
        exact of_eq rfl (lists (f := (·.resetFreeBlk b)) (c := b.chip) fun _ => rfl)
    · exact refl fb

theorem programPage (G : Geometry) (fb : Fb) (c : ChipId) (blk pg : ℕ) (lpas : Slot → ℕ)
    (src : Slot → PageData) : SpareGrows fb (fb.programPage G c blk pg lpas src) := by
  have mapped : SpareGrows (fb.vdeviceWrite ⟨c, blk⟩ pg src)
      ((fb.vdeviceWrite ⟨c, blk⟩ pg src).mapLogicalToPhysical G lpas ⟨c, blk⟩ pg) := by
    refine foldl_preserves (SpareGrows _) (fun lp _ other grows => grows.trans ?_) (refl _)
    have cleared : SpareGrows other
        (if lpas lp ≠ pageUnmapped then (other.invalidateLpg G (lpas lp)).2 else other) := by
      split_ifs
      · exact invalidateLpg G other (lpas lp)
      · exact refl other
    rw [Fb.mapLpa_eq]
    refine cleared.trans ?_
    simp only
    split_ifs <;> exact of_eq rfl fun _ => rfl
  have written : SpareGrows fb (fb.vdeviceWrite ⟨c, blk⟩ pg src) := of_eq rfl fun _ => rfl
  have placed (fb : Fb) : SpareGrows fb (fb.setPrevBusChip c) := of_eq rfl fun _ => rfl
  exact ((written.trans mapped).trans (placed _)).trans (updateActBlk _ c)

end SpareGrows

section Copies

variable {G : Geometry} {start fb : Fb} {b : BlockId} {c : ChipId} {ptr : ℕ}

theorem Survives.trans {other third : Fb} {gone more : ℕ → Prop} (first : Survives G fb other gone)
    (second : Survives G other third more) :
    Survives G fb third fun lpa => gone lpa ∨ more lpa := by
  intro l hasLocation notFree
  rcases first l hasLocation notFree with ⟨stillNotFree, firstValid⟩
  rcases second l hasLocation stillNotFree with ⟨nowNotFree, secondValid⟩
  refine ⟨nowNotFree, fun isValid => ?_⟩
  rcases secondValid isValid with ⟨wasValid, address, notMore⟩
  rcases firstValid wasValid with ⟨startValid, startAddress, notGone⟩
  refine ⟨startValid, address.trans startAddress, ?_⟩
  rintro (gone | more)
  · exact notGone gone
  · exact notMore (by rw [startAddress]; exact more)

/-- What one page of copying does. -/
structure CopiedPage (G : Geometry) (start fb other : Fb) (ptr : ℕ) : Prop where
  copying : Copying G start other
  life : Life G other
  spare : SpareGrows fb other
  lpas : ∀ i < fb.gcm.nrPgsToCopy, other.gcm.lpasToCopy i = fb.gcm.lpasToCopy i
  survives : Survives G fb other fun lpa =>
    ∃ i < fb.gcm.nrPgsToCopy, ptr ≤ i ∧ i < ptr + nrLpInPp ∧ fb.gcm.lpasToCopy i = lpa

theorem CopiedPage.of_progPage (copying : Copying G start fb) (life : Life G fb)
    (inside : ptr < fb.gcm.nrPgsToCopy) (ok : (fb.progPage G ptr).1 = .ok) :
    CopiedPage G start fb (fb.progPage G ptr).2 ptr := by
  have next := copying.progPage inside
  have nextLife := life.progPage copying inside
  have inv := copying.inv
  have hasChip := hasChip_getNextBusChip inv.mruOk
  rcases alloc : fb.allocNewPage G (fb.getNextBusChip G) with ⟨_ | ⟨blk, pg⟩, other⟩
  · rw [Fb.progPage_of_none alloc] at ok
    simp at ok
  rcases inv.allocNewPage_of_some hasChip alloc with ⟨_, active, pg_eq⟩
  have same := life.allocNewPage_of_some hasChip alloc
  subst other
  have padded := inv.padLpasToCopy ptr (fb.gcm.nrPgsToCopy - ptr)
  have scratch := ScratchOnly.padLpasToCopy fb ptr (fb.gcm.nrPgsToCopy - ptr)
  rw [Fb.progPage_of_some alloc] at next nextLife ⊢
  refine ⟨next, nextLife, (SpareGrows.of_scratchOnly scratch).trans (.programPage G _ _ _ _ _ _),
    fun i i_lt => ?_, fun l hasLocation notFree => ?_⟩
  · rw [(SameScratch.programPage (G := G) _ _ _ _ _ _).lpasToCopy, padLpasToCopy_of_lt inside i_lt]
  · have programmed := programPage_survives padded hasChip (by simpa using active)
      (by simpa using pg_eq) (fun lp => padded.lpasOk (ptr + lp))
      (fun lp => (fb.padLpasToCopy ptr (fb.gcm.nrPgsToCopy - ptr)).gcm.dataToCopy (ptr + lp))
      hasLocation (by rw [scratch.ssdi]; exact notFree)
    refine ⟨programmed.1, fun isValid => ?_⟩
    have wasValid := programmed.2 isValid
    rw [scratch.ssdi] at wasValid
    refine ⟨wasValid.1, wasValid.2.1, ?_⟩
    rintro ⟨i, i_lt, ptr_le, i_near, address⟩
    refine wasValid.2.2 ⟨i - ptr, by omega⟩ ?_
    rw [← address, ← padLpasToCopy_of_lt inside i_lt]
    congr 1
    simp only
    omega

/-- The copying loop has passed the first `k` pages. -/
structure CopiedUpTo (G : Geometry) (fb other : Fb) (k : ℕ) : Prop where
  copying : Copying G fb other
  life : Life G other
  spare : SpareGrows fb other
  lpas : ∀ i < fb.gcm.nrPgsToCopy, other.gcm.lpasToCopy i = fb.gcm.lpasToCopy i
  survives : Survives G fb other fun lpa =>
    ∃ i < fb.gcm.nrPgsToCopy, i < nrLpInPp * k ∧ fb.gcm.lpasToCopy i = lpa

theorem CopiedUpTo.next {other : Fb} {k : ℕ} (copied : CopiedUpTo G fb other k)
    (inside : nrLpInPp * k < fb.gcm.nrPgsToCopy)
    (ok : (other.progPage G (nrLpInPp * k)).1 = .ok) :
    CopiedUpTo G fb (other.progPage G (nrLpInPp * k)).2 (k + 1) := by
  have count := copied.copying.nrPgsToCopy
  have page := CopiedPage.of_progPage copied.copying copied.life (by rw [count]; exact inside) ok
  refine ⟨page.copying, page.life, copied.spare.trans page.spare, fun i i_lt => ?_,
    fun l hasLocation notFree => ?_⟩
  · rw [page.lpas i (by rw [count]; exact i_lt), copied.lpas i i_lt]
  · have both := copied.survives.trans page.survives l hasLocation notFree
    refine ⟨both.1, fun isValid => ?_⟩
    rcases both.2 isValid with ⟨wasValid, address, notGone⟩
    refine ⟨wasValid, address, ?_⟩
    rintro ⟨i, i_lt, i_near, entry⟩
    refine notGone ?_
    by_cases before : i < nrLpInPp * k
    · exact Or.inl ⟨i, i_lt, before, entry⟩
    · refine Or.inr ⟨i, by rw [count]; exact i_lt, by omega, ?_, ?_⟩
      · simp only [nrLpInPp] at i_near ⊢
        omega
      · rw [copied.lpas i i_lt]
        exact entry

theorem CopiedUpTo.begin (inv : Inv G .rest fb) (life : Life G fb) (copies : CopiesMatch G fb) :
    CopiedUpTo G fb fb 0 where
  copying := ⟨inv, rfl, copies, rfl⟩
  life := life
  spare := .refl fb
  lpas _ _ := rfl
  survives _ _ notFree := ⟨notFree, fun isValid => ⟨isValid, rfl, by simp⟩⟩

/-- A programmed block all of whose VALID sub-pages were copied is reclaimed. -/
theorem CopiedUpTo.reclaimed {other : Fb} {k : ℕ} (copied : CopiedUpTo G fb other k)
    (all : fb.gcm.nrPgsToCopy ≤ nrLpInPp * k) (hasBlock : G.HasBlock b)
    (full : ∀ pg < G.numPagesPerBlock, (fb.ssdi.pages b pg).Full)
    (read : ∀ pg < G.numPagesPerBlock, ∀ lp, (fb.ssdi.pages b pg).pageStatus lp = valid →
      ∃ i < fb.gcm.nrPgsToCopy, fb.gcm.lpasToCopy i = (fb.ssdi.pages b pg).noLogicalPageAddr lp) :
    other.gcm.gcBlks b.chip = some b ∨ b ∈ (other.ssdi.chips b.chip).dirtBlks := by
  refine copied.life.reclaimed copied.copying.inv hasBlock fun pg pg_lt lp => ?_
  rcases copied.survives ⟨b, pg, lp⟩ ⟨hasBlock, pg_lt⟩ (full pg pg_lt lp) with ⟨notFree, survivor⟩
  rcases status : (other.ssdi.pages b pg).pageStatus lp with _ | _ | _
  · exact absurd status notFree
  · rcases survivor status with ⟨wasValid, _, notGone⟩
    rcases read pg pg_lt lp wasValid with ⟨i, i_lt, entry⟩
    exact absurd ⟨i, i_lt, by omega, entry⟩ notGone
  · rfl

end Copies

end FlashBench
