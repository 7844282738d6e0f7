import FlashBench.CommandInvariant
import FlashBench.Library.Store

/-!
# The flash content

`flashData` is what the device holds on flash: for every LPA the data of the
sub-page that the L2P table maps it to. The lemmas of this file say how each
operation changes it.
-/

namespace FlashBench

open PgStatus

namespace Fb

variable (G : Geometry)

/-- The data of an LPA on flash. -/
def flashData (fb : Fb) : Store ℕ PageData :=
  fun lpa => (l2p G fb.mappings lpa).map fun l => fb.vdev l.block l.page l.slot

end Fb

/-- The LPAs of a page with their data; padding carries none. -/
def pagePairs (slots : List Slot) (lpas : Slot → ℕ) (src : Slot → PageData) :
    List (ℕ × PageData) :=
  slots.filterMap fun lp => if lpas lp ≠ pageUnmapped then some (lpas lp, src lp) else none

theorem mem_pagePairs {slots : List Slot} {lpas : Slot → ℕ} {src : Slot → PageData}
    {pair : ℕ × PageData} :
    pair ∈ pagePairs slots lpas src ↔
      ∃ lp ∈ slots, lpas lp ≠ pageUnmapped ∧ pair = (lpas lp, src lp) := by
  simp [pagePairs, eq_comm]

section Content

variable {G : Geometry} {fb other : Fb} {b : BlockId} {c : ChipId} {blk pg lpa : ℕ}
  {lpas : Slot → ℕ} {src : Slot → PageData}

/-- `make_read_request_page_mapping` copies the flash data of an LPA and fails when there is
none. -/
theorem Fb.makeReadRequest_eq (fb : Fb) (lpa : ℕ) (pageBuffer : PageData) :
    fb.makeReadRequest G lpa pageBuffer =
      match fb.flashData G lpa with
      | none => (.fail, pageBuffer)
      | some data => (.ok, data) := by
  have single (slot : Slot) : (List.finRange nrLpInPp).filter (fun lp => decide (lp = slot)) =
      [slot] := by
    revert slot
    decide
  unfold makeReadRequest flashData
  rw [getMappedPhysicalAddress_eq]
  rcases l2p G fb.mappings lpa with _ | l
  · rfl
  · simp [vdeviceRead, single]

theorem flashData_congr (mappings : other.mappings = fb.mappings) (vdev : other.vdev = fb.vdev) :
    other.flashData G = fb.flashData G := by
  unfold Fb.flashData
  rw [mappings, vdev]

theorem Moves.flashData_eq (moves : Moves c fb other) : other.flashData G = fb.flashData G :=
  flashData_congr moves.mappings moves.vdev

/-- Writing to a block or page without VALID sub-pages does not show. -/
theorem flashData_of_vdev (inv : Inv G .rest fb) (mappings : other.mappings = fb.mappings)
    (vdev : ∀ l : Location, (fb.ssdi.pages l.block l.page).pageStatus l.slot = valid →
      other.vdev l.block l.page l.slot = fb.vdev l.block l.page l.slot) :
    other.flashData G = fb.flashData G := by
  funext lpa
  unfold Fb.flashData
  rw [mappings]
  rcases forward : l2p G fb.mappings lpa with _ | l
  · rfl
  · have back := (inv.mapOk.inverse lpa l).mp forward
    simp [vdev l (p2l_eq_some.mp back).2.1]

theorem Fb.invalidateLpg_mappings (fb : Fb) (lpa : ℕ) :
    (fb.invalidateLpg G lpa).2.mappings = Function.update fb.mappings lpa pageUnmapped := by
  rcases fb.invalidateLpg_cases G lpa with ⟨unmapped, same⟩ | ⟨l, _, _, same | ⟨_, same⟩ | same⟩
  · rw [same, ← unmapped, Function.update_eq_self]
  all_goals rw [same]; rfl

theorem flashData_invalidateLpg (fb : Fb) (inside : lpa < G.numLogPages) :
    (fb.invalidateLpg G lpa).2.flashData G = Function.update (fb.flashData G) lpa none := by
  funext other
  unfold Fb.flashData
  rw [fb.invalidateLpg_mappings, l2p_update inside, (MappingFrame.invalidateLpg G fb lpa).vdev]
  by_cases same : other = lpa
  · simp [same]
  · simp [same]

theorem flashData_delInvalidatePgs (fb : Fb) {reqLpas : List ℕ}
    (inside : ∀ lpa ∈ reqLpas, lpa < G.numLogPages) :
    (fb.delInvalidatePgs G reqLpas).flashData G = (fb.flashData G).discard reqLpas := by
  induction reqLpas generalizing fb with
  | nil => rfl
  | cons lpa rest ih =>
      change ((fb.invalidateLpg G lpa).2.delInvalidatePgs G rest).flashData G = _
      rw [ih _ fun other mem => inside other (by simp [mem]),
        flashData_invalidateLpg fb (inside lpa (by simp)), Store.discard_cons]

theorem Fb.mapLpa_mappings (fb : Fb) (lpa : ℕ) (b : BlockId) (pg : ℕ) (lp : Slot) :
    (fb.mapLpa G lpa b pg lp).mappings =
      if lpa ≠ pageUnmapped then Function.update fb.mappings lpa (physicalAddress ⟨b, pg, lp⟩)
      else fb.mappings := by
  rw [Fb.mapLpa_eq]
  by_cases padding : lpa = pageUnmapped
  · simp only [padding, ne_eq, not_true_eq_false, if_false]
    split_ifs <;> simp [Fb.fillSubPage, Fb.updBlock]
  · simp only [ne_eq, padding, not_false_eq_true, if_true]
    split_ifs <;> simp [Fb.fillSubPage, Fb.updBlock, padding, Fb.invalidateLpg_mappings]

theorem flashData_mapLpa (fb : Fb) (lp : Slot) (hasBlock : G.HasBlock b)
    (pg_lt : pg < G.numPagesPerBlock) (lpaOk : LpaOk G lpa) :
    (fb.mapLpa G lpa b pg lp).flashData G =
      if lpa ≠ pageUnmapped then
        Function.update (fb.flashData G) lpa (some (fb.vdev b pg lp))
      else fb.flashData G := by
  have vdev := (MappingFrame.mapLpa G fb lpa b pg lp).vdev
  have mappings := fb.mapLpa_mappings (G := G) lpa b pg lp
  have hasLocation : G.HasLocation ⟨b, pg, lp⟩ := ⟨hasBlock, pg_lt⟩
  by_cases padding : lpa = pageUnmapped
  · rw [if_neg (by simp [padding])] at mappings ⊢
    exact flashData_congr mappings vdev
  · have inside := lpaOk.resolve_left padding
    rw [if_pos padding] at mappings ⊢
    funext other
    unfold Fb.flashData
    rw [mappings, vdev, l2p_update inside, if_pos (physicalAddress_ne_pageUnmapped hasLocation),
      locate_physicalAddress hasLocation]
    by_cases same : other = lpa
    · simp [same]
    · simp [same]

theorem flashData_foldl_mapLpa (slots : List Slot) (fb : Fb) (hasBlock : G.HasBlock b)
    (pg_lt : pg < G.numPagesPerBlock) (lpasOk : ∀ lp, LpaOk G (lpas lp))
    (stored : fb.vdev b pg = src) :
    (slots.foldl (fun fb lp => fb.mapLpa G (lpas lp) b pg lp) fb).flashData G =
      (fb.flashData G).write (pagePairs slots lpas src) := by
  induction slots generalizing fb with
  | nil => rfl
  | cons lp slots ih =>
      have vdev := (MappingFrame.mapLpa G fb (lpas lp) b pg lp).vdev
      rw [List.foldl_cons, ih _ (by rw [vdev, stored]),
        flashData_mapLpa fb lp hasBlock pg_lt (lpasOk lp), stored]
      by_cases padding : lpas lp = pageUnmapped
      · simp [pagePairs, padding]
      · simp [pagePairs, padding, Store.write_cons]

theorem updateActBlk_sameFlash (fb : Fb) (c : ChipId) :
    (fb.updateActBlk c).mappings = fb.mappings ∧ (fb.updateActBlk c).vdev = fb.vdev := by
  unfold Fb.updateActBlk
  rcases fb.getCurrActiveBlock c with _ | b
  · exact ⟨rfl, rfl⟩
  · simp only
    split_ifs
    · split <;> exact ⟨rfl, rfl⟩
    · exact ⟨rfl, rfl⟩

theorem flashData_programPage (inv : Inv G .rest fb) (hasChip : G.HasChip c)
    (active : fb.abm.actBlks c = some ⟨c, blk⟩)
    (pg_eq : pg = G.numPagesPerBlock - (fb.ssdi.blocks ⟨c, blk⟩).nrFreePages)
    (lpasOk : ∀ lp, LpaOk G (lpas lp)) (src : Slot → PageData) :
    (fb.programPage G c blk pg lpas src).flashData G =
      (fb.flashData G).write (pagePairs (List.finRange nrLpInPp) lpas src) := by
  rcases inv.nextPage hasChip active pg_eq with ⟨_, hasBlock, pg_lt, isFree⟩
  have written : (fb.vdeviceWrite ⟨c, blk⟩ pg src).flashData G = fb.flashData G := by
    refine flashData_of_vdev inv rfl fun l isValid => ?_
    have different : ¬(l.block = ⟨c, blk⟩ ∧ l.page = pg) := by
      rintro ⟨sameBlock, samePage⟩
      rw [sameBlock, samePage, isFree] at isValid
      simp at isValid
    by_cases sameBlock : l.block = ⟨c, blk⟩
    · have otherPage : l.page ≠ pg := fun same => different ⟨sameBlock, same⟩
      simp [Fb.vdeviceWrite, Fb.record, sameBlock, otherPage]
    · simp [Fb.vdeviceWrite, Fb.record, sameBlock]
  have updated := updateActBlk_sameFlash (((fb.vdeviceWrite ⟨c, blk⟩ pg src).mapLogicalToPhysical G
    lpas ⟨c, blk⟩ pg).setPrevBusChip c) c
  have stored : (fb.vdeviceWrite ⟨c, blk⟩ pg src).vdev ⟨c, blk⟩ pg = src := by
    simp [Fb.vdeviceWrite]
  have mapped := flashData_foldl_mapLpa (List.finRange nrLpInPp)
    (fb.vdeviceWrite ⟨c, blk⟩ pg src) hasBlock pg_lt lpasOk stored
  rw [written] at mapped
  rw [← mapped]
  exact (flashData_congr updated.1 updated.2).trans (flashData_congr rfl rfl)

theorem flashData_allocNewPage (fb : Fb) (c : ChipId) :
    (fb.allocNewPage G c).2.flashData G = fb.flashData G := by
  unfold Fb.allocNewPage
  rcases fb.getCurrActiveBlock c with _ | b
  · rcases fb.getFreeBlock c with _ | b
    · rfl
    · exact flashData_congr rfl rfl
  · rfl

/-- Erasing a GC block does not show. -/
theorem flashData_eraseBlk (inv : Inv G .rest fb) (hasChip : G.HasChip b.chip)
    (reserved : fb.gcm.gcBlks b.chip = some b) :
    (fb.eraseBlk G b.chip b).flashData G = fb.flashData G := by
  refine flashData_of_vdev inv rfl fun l isValid => ?_
  have noValid := inv.gc_no_valid hasChip reserved
  have different : l.block ≠ b := by
    intro same
    exact noValid l.page (inv.mapOk.hasLocation l isValid).2 l.slot (same ▸ isValid)
  simp [Fb.eraseBlk, Fb.updBlock, Fb.initBlkInf, Fb.vdeviceErase, Fb.record, different]

end Content

/-! ### Steps that do not touch the flash -/

/-- The block information, the L2P table and the flash pages are the same. -/
structure SameFlash (fb other : Fb) : Prop where
  ssdi : other.ssdi = fb.ssdi
  mappings : other.mappings = fb.mappings
  vdev : other.vdev = fb.vdev

namespace SameFlash

variable {G : Geometry} {fb other third : Fb}

theorem refl (fb : Fb) : SameFlash fb fb := ⟨rfl, rfl, rfl⟩

theorem trans (first : SameFlash fb other) (second : SameFlash other third) :
    SameFlash fb third where
  ssdi := second.ssdi.trans first.ssdi
  mappings := second.mappings.trans first.mappings
  vdev := second.vdev.trans first.vdev

theorem flashData_eq (same : SameFlash fb other) : other.flashData G = fb.flashData G :=
  flashData_congr same.mappings same.vdev

end SameFlash

/-- The states differ in the scratch memory of the GC manager only. -/
structure ScratchOnly (fb other : Fb) : Prop where
  rest : other = { fb with gcm := other.gcm }
  gcBlks : other.gcm.gcBlks = fb.gcm.gcBlks

namespace ScratchOnly

variable {G : Geometry} {fb other third : Fb}

theorem refl (fb : Fb) : ScratchOnly fb fb := ⟨rfl, rfl⟩

theorem trans (first : ScratchOnly fb other) (second : ScratchOnly other third) :
    ScratchOnly fb third where
  rest := by
    rw [second.rest, first.rest]
  gcBlks := second.gcBlks.trans first.gcBlks

theorem ssdi (same : ScratchOnly fb other) : other.ssdi = fb.ssdi := by rw [same.rest]

theorem abm (same : ScratchOnly fb other) : other.abm = fb.abm := by rw [same.rest]

theorem vdev (same : ScratchOnly fb other) : other.vdev = fb.vdev := by rw [same.rest]

theorem mappings (same : ScratchOnly fb other) : other.mappings = fb.mappings := by
  rw [same.rest]

theorem sameFlash (same : ScratchOnly fb other) : SameFlash fb other :=
  ⟨same.ssdi, same.mappings, same.vdev⟩

theorem flashData_eq (same : ScratchOnly fb other) : other.flashData G = fb.flashData G :=
  same.sameFlash.flashData_eq

theorem initGcm (fb : Fb) : ScratchOnly fb fb.initGcm := ⟨rfl, rfl⟩

theorem padLpasToCopy (fb : Fb) (ptr nrPgsToProg : ℕ) :
    ScratchOnly fb (fb.padLpasToCopy ptr nrPgsToProg) := by
  unfold Fb.padLpasToCopy
  split_ifs
  · exact ⟨rfl, rfl⟩
  · exact refl fb

end ScratchOnly

namespace SameScratch

variable {G : Geometry} {fb other : Fb} {c : ChipId}

theorem updateActBlk (fb : Fb) (c : ChipId) : SameScratch fb (fb.updateActBlk c) := by
  unfold Fb.updateActBlk
  rcases fb.getCurrActiveBlock c with _ | b
  · exact refl fb
  · simp only
    split_ifs
    · split <;> exact ⟨rfl, rfl, rfl, rfl, rfl⟩
    · exact refl fb

theorem programPage (fb : Fb) (c : ChipId) (blk pg : ℕ) (lpas : Slot → ℕ)
    (src : Slot → PageData) : SameScratch fb (fb.programPage G c blk pg lpas src) := by
  have mapped := (MappingFrame.mapLogicalToPhysical G (fb.vdeviceWrite ⟨c, blk⟩ pg src) lpas
    ⟨c, blk⟩ pg).scratch
  have filled : SameScratch fb (((fb.vdeviceWrite ⟨c, blk⟩ pg src).mapLogicalToPhysical G lpas
      ⟨c, blk⟩ pg).setPrevBusChip c) :=
    ⟨mapped.vicBlks, mapped.firstValidPg, mapped.lpasToCopy, mapped.dataToCopy, mapped.nrPgsToCopy⟩
  exact filled.trans (updateActBlk _ c)

theorem allocNewPage (fb : Fb) (c : ChipId) : SameScratch fb (fb.allocNewPage G c).2 := by
  unfold Fb.allocNewPage
  rcases fb.getCurrActiveBlock c with _ | b
  · rcases fb.getFreeBlock c with _ | b
    · exact refl fb
    · exact ⟨rfl, rfl, rfl, rfl, rfl⟩
  · exact refl fb

end SameScratch

/-! ### Copying by garbage collection -/

/-- The pairs that garbage collection is about to program are what the flash holds. -/
def CopiesMatch (G : Geometry) (fb : Fb) : Prop :=
  ∀ i < fb.gcm.nrPgsToCopy,
    fb.flashData G (fb.gcm.lpasToCopy i) = some (fb.gcm.dataToCopy i)

/-- A state in the middle of copying: so far nothing has changed for the host. -/
structure Copying (G : Geometry) (start fb : Fb) : Prop where
  inv : Inv G .rest fb
  flashData_eq : fb.flashData G = start.flashData G
  copiesMatch : CopiesMatch G fb
  nrPgsToCopy : fb.gcm.nrPgsToCopy = start.gcm.nrPgsToCopy

section Copying

variable {G : Geometry} {start fb other : Fb} {ptr : ℕ}

theorem CopiesMatch.congr (copies : CopiesMatch G fb) (content : other.flashData G = fb.flashData G)
    (same : SameScratch fb other) : CopiesMatch G other := by
  unfold CopiesMatch
  rw [content, same.nrPgsToCopy, same.lpasToCopy, same.dataToCopy]
  exact copies

theorem padLpasToCopy_of_lt {i : ℕ} (inside : ptr < fb.gcm.nrPgsToCopy)
    (before : i < fb.gcm.nrPgsToCopy) :
    (fb.padLpasToCopy ptr (fb.gcm.nrPgsToCopy - ptr)).gcm.lpasToCopy i = fb.gcm.lpasToCopy i := by
  unfold Fb.padLpasToCopy
  split_ifs
  · exact storeAt_of_lt (by omega)
  · rfl

/-- The sub-pages behind the last entry are padding. -/
theorem padLpasToCopy_of_ge {lp : Slot} (inside : ptr < fb.gcm.nrPgsToCopy)
    (after : fb.gcm.nrPgsToCopy ≤ ptr + lp) :
    (fb.padLpasToCopy ptr (fb.gcm.nrPgsToCopy - ptr)).gcm.lpasToCopy (ptr + lp) = pageUnmapped := by
  have := slot_lt lp
  have partialPage : fb.gcm.nrPgsToCopy - ptr < nrLpInPp := by
    simp only [nrLpInPp]
    omega
  obtain ⟨k, k_eq⟩ := Nat.exists_eq_add_of_le after
  have within : k < (List.replicate (nrLpInPp - (fb.gcm.nrPgsToCopy - ptr)) pageUnmapped).length := by
    simp only [List.length_replicate, nrLpInPp]
    omega
  rw [Fb.padLpasToCopy, if_pos partialPage]
  change storeAt fb.gcm.lpasToCopy _ _ (ptr + (lp : ℕ)) = _
  rw [k_eq, show fb.gcm.nrPgsToCopy + k = ptr + (fb.gcm.nrPgsToCopy - ptr) + k by omega,
    storeAt_getElem within, List.getElem_replicate]

@[simp]
theorem padLpasToCopy_nrPgsToCopy (fb : Fb) (ptr nrPgsToProg : ℕ) :
    (fb.padLpasToCopy ptr nrPgsToProg).gcm.nrPgsToCopy = fb.gcm.nrPgsToCopy := by
  unfold Fb.padLpasToCopy
  split_ifs <;> rfl

@[simp]
theorem padLpasToCopy_dataToCopy (fb : Fb) (ptr nrPgsToProg : ℕ) :
    (fb.padLpasToCopy ptr nrPgsToProg).gcm.dataToCopy = fb.gcm.dataToCopy := by
  unfold Fb.padLpasToCopy
  split_ifs <;> rfl

/-- Copying one page changes nothing for the host: its pairs are on flash already. -/
theorem Copying.progPage (copying : Copying G start fb) (inside : ptr < fb.gcm.nrPgsToCopy) :
    Copying G start (fb.progPage G ptr).2 := by
  have nextInv := copying.inv.progPage ptr
  have hasChip := hasChip_getNextBusChip copying.inv.mruOk
  rcases alloc : fb.allocNewPage G (fb.getNextBusChip G) with ⟨_ | ⟨blk, pg⟩, other⟩
  · rw [Fb.progPage_of_none alloc, (Inv.allocNewPage_of_none alloc).1]
    exact copying
  rcases copying.inv.allocNewPage_of_some hasChip alloc with ⟨otherInv, active, pg_eq⟩
  have opened := flashData_allocNewPage (G := G) fb (fb.getNextBusChip G)
  have scratch := SameScratch.allocNewPage (G := G) fb (fb.getNextBusChip G)
  rw [alloc] at opened scratch
  simp only at opened scratch
  have copies := copying.copiesMatch.congr opened scratch
  rw [Fb.progPage_of_some alloc] at nextInv ⊢
  rw [← scratch.nrPgsToCopy] at nextInv inside ⊢
  have padded := ScratchOnly.padLpasToCopy other ptr (other.gcm.nrPgsToCopy - ptr)
  have paddedInv := otherInv.padLpasToCopy ptr (other.gcm.nrPgsToCopy - ptr)
  have paddedCopies : CopiesMatch G (other.padLpasToCopy ptr (other.gcm.nrPgsToCopy - ptr)) := by
    intro i before
    simp only [padLpasToCopy_nrPgsToCopy] at before
    rw [padLpasToCopy_of_lt inside before, padded.flashData_eq, padLpasToCopy_dataToCopy]
    exact copies i before
  have content := flashData_programPage paddedInv hasChip (by simpa using active)
    (by simpa using pg_eq) (fun lp => paddedInv.lpasOk (ptr + lp)) fun lp =>
      (other.padLpasToCopy ptr (other.gcm.nrPgsToCopy - ptr)).gcm.dataToCopy (ptr + lp)
  rw [Store.write_of_present ?_] at content
  · refine ⟨nextInv, ?_, ?_, ?_⟩
    · exact content.trans (padded.flashData_eq.trans (opened.trans copying.flashData_eq))
    · exact paddedCopies.congr content (.programPage _ _ _ _ _ _)
    · refine (SameScratch.programPage (G := G) _ _ _ _ _ _).nrPgsToCopy.trans ?_
      rw [padLpasToCopy_nrPgsToCopy, scratch.nrPgsToCopy, copying.nrPgsToCopy]
  · intro pair mem
    rcases mem_pagePairs.mp mem with ⟨lp, _, mapped, rfl⟩
    refine paddedCopies (ptr + lp) ?_
    rw [padLpasToCopy_nrPgsToCopy]
    by_contra outside
    exact mapped (padLpasToCopy_of_ge inside (by omega))

/-- `prog_valid_pgs_to_gc_blks` changes nothing for the host when the copies match the flash. -/
theorem Copying.progValidPgsToGcBlks (inv : Inv G .rest fb) (copies : CopiesMatch G fb) :
    Copying G fb (fb.progValidPgsToGcBlks G).2 := by
  refine forEach_preserves (Copying G fb) (fun ptr mem other copying => ?_) ⟨inv, rfl, copies, rfl⟩
  simp only [List.mem_map, List.mem_range, nrLpInPp] at mem
  rcases mem with ⟨k, k_lt, rfl⟩
  exact copying.progPage (by rw [copying.nrPgsToCopy]; omega)

end Copying

/-! ### The other steps of garbage collection -/

section Steps

variable {G : Geometry} {fb : Fb} {c : ChipId}

theorem flashData_prepareActBlk (inv : Inv G .rest fb) (hasChip : G.HasChip c) :
    (fb.prepareActBlk G c).2.flashData G = fb.flashData G := by
  unfold Fb.prepareActBlk Fb.getCurrActiveBlock Fb.getCurrGcBlock
  rcases fb.abm.actBlks c with _ | _
  · rcases reserved : fb.gcm.gcBlks c with _ | b
    · rfl
    · rcases inv.of_gc hasChip reserved with ⟨rfl, _⟩
      exact (flashData_congr rfl rfl).trans (flashData_eraseBlk inv hasChip reserved)
  · rfl

/-- A loop whose iterations keep the invariant and the content keeps both. -/
theorem forEach_keeps {Item : Type} {body : Item → Fb → Ret × Fb} {items : List Item}
    (step : ∀ item ∈ items, ∀ fb : Fb, Inv G .rest fb →
      Inv G .rest (body item fb).2 ∧ (body item fb).2.flashData G = fb.flashData G)
    (inv : Inv G .rest fb) : (forEach body items fb).2.flashData G = fb.flashData G := by
  refine (forEach_preserves
    (fun other => Inv G .rest other ∧ other.flashData G = fb.flashData G)
    (fun item mem other kept => ?_) ⟨inv, rfl⟩).2
  rcases step item mem other kept.1 with ⟨next, content⟩
  exact ⟨next, content.trans kept.2⟩

theorem flashData_prepareActBlks (inv : Inv G .rest fb) :
    (fb.prepareActBlks G).2.flashData G = fb.flashData G :=
  forEach_keeps (fun _ mem _ inv => ⟨inv.prepareActBlk (G.mem_chipsByChip.mp mem),
    flashData_prepareActBlk inv (G.mem_chipsByChip.mp mem)⟩) inv

theorem flashData_updateGcBlk (fb : Fb) (c : ChipId) :
    (fb.updateGcBlk c).2.flashData G = fb.flashData G := by
  unfold Fb.updateGcBlk
  rcases fb.getCurrGcBlock c with _ | _
  · rcases fb.getDirtBlock c with _ | _
    · simp only
      split_ifs <;> rfl
    · exact flashData_congr rfl rfl
  · rfl

theorem flashData_updateGcBlks (inv : Inv G .rest fb) :
    (fb.updateGcBlks G).2.flashData G = fb.flashData G :=
  forEach_keeps (fun c mem fb inv => ⟨inv.updateGcBlk (G.mem_chipsByBus.mp mem),
    flashData_updateGcBlk fb c⟩) inv

end Steps

end FlashBench
