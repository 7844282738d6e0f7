import FlashBench.HostRuns

/-!
# Discards

A discard request removes exactly the logical pages that lie wholly in its range, from
the write buffer and from the L2P table, in batches that fit into `lpas_to_discard` and
`delm->ppas`.
-/

namespace FlashBench

open PgStatus

/-- The logical page lies wholly in a range given by its first sector and its size in bytes. -/
def WholePage (biSector biSize lpa : ℕ) : Prop :=
  biSector ≤ 8 * lpa ∧ 8 * lpa + 8 ≤ biSector + biSize / 512

instance (biSector biSize lpa : ℕ) : Decidable (WholePage biSector biSize lpa) :=
  inferInstanceAs (Decidable (_ ∧ _))

/-! ### Batches -/

/-- The lists that the batching loop passes to `_fb_del_invalidate_pgs`, when it has stored
`pending` in `lpas_to_discard` so far. -/
def discardCalls : List ℕ → List ℕ → List (List ℕ)
  | pending, [] => if pending = [] then [] else [pending]
  | pending, lpa :: lpas =>
      if pending.length = nrMaxLpasDiscard - 1 then (pending ++ [lpa]) :: discardCalls [] lpas
      else discardCalls (pending ++ [lpa]) lpas

/-- `_fb_del_invalidate_pgs` with the entries of `delm->ppas` that it fills. -/
def Fb.delInvalidateWithPpas (G : Geometry) (fb : Fb) (reqLpas : List ℕ) : List ℕ × Fb :=
  reqLpas.foldl (fun state lpa =>
    (state.1 ++ [(state.2.invalidateLpg G lpa).1], (state.2.invalidateLpg G lpa).2)) ([], fb)

section Batches

variable {G : Geometry}

/-- `_fb_del_invalidate_pgs` uses as many entries of `delm->ppas` as it gets LPAs. -/
theorem delInvalidateWithPpas_spec (fb : Fb) (reqLpas : List ℕ) :
    (fb.delInvalidateWithPpas G reqLpas).2 = fb.delInvalidatePgs G reqLpas ∧
      (fb.delInvalidateWithPpas G reqLpas).1.length = reqLpas.length := by
  suffices loop : ∀ (ppas : List ℕ) (fb : Fb),
      (reqLpas.foldl (fun state lpa => (state.1 ++ [(state.2.invalidateLpg G lpa).1],
        (state.2.invalidateLpg G lpa).2)) (ppas, fb)).2 = fb.delInvalidatePgs G reqLpas ∧
      (reqLpas.foldl (fun state lpa => (state.1 ++ [(state.2.invalidateLpg G lpa).1],
        (state.2.invalidateLpg G lpa).2)) (ppas, fb)).1.length = ppas.length + reqLpas.length by
    have all := loop [] fb
    rwa [List.length_nil, Nat.zero_add] at all
  induction reqLpas with
  | nil => exact fun ppas fb => ⟨rfl, rfl⟩
  | cons lpa reqLpas ih =>
      intro ppas fb
      rcases ih (ppas ++ [(fb.invalidateLpg G lpa).1]) (fb.invalidateLpg G lpa).2 with
        ⟨state, length⟩
      refine ⟨state, length.trans ?_⟩
      simp only [List.length_append, List.length_cons, List.length_nil]
      omega

theorem length_discardCalls {pending lpas call : List ℕ} (room : pending.length < nrMaxLpasDiscard)
    (mem : call ∈ discardCalls pending lpas) : call.length ≤ nrMaxLpasDiscard := by
  induction lpas generalizing pending with
  | nil =>
      unfold discardCalls at mem
      split_ifs at mem
      · simp at mem
      · rw [List.mem_singleton.mp mem]
        exact room.le
  | cons lpa lpas ih =>
      unfold discardCalls at mem
      split_ifs at mem with full
      · rcases List.mem_cons.mp mem with rfl | rest
        · rw [List.length_append, List.length_singleton]
          omega
        · exact ih (by simp) rest
      · refine ih ?_ mem
        rw [List.length_append, List.length_singleton]
        omega

/-- The batches are what `make_discard_request_page_mapping` invalidates. -/
theorem discardMapped_eq_foldl (fb : Fb) (lpas : List ℕ) :
    fb.discardMapped G lpas =
      (discardCalls [] lpas).foldl (fun fb call => fb.delInvalidatePgs G call) fb := by
  suffices loop : ∀ (pending : List ℕ) (fb : Fb),
      (let state := lpas.foldl (Fb.discardStep G) (pending, fb)
        if state.1 = [] then state.2 else state.2.delInvalidatePgs G state.1) =
      (discardCalls pending lpas).foldl (fun fb call => fb.delInvalidatePgs G call) fb from
    loop [] fb
  induction lpas with
  | nil =>
      intro pending fb
      by_cases none : pending = [] <;> simp [discardCalls, none]
  | cons lpa lpas ih =>
      intro pending fb
      unfold discardCalls
      rw [List.foldl_cons]
      split_ifs with full
      · rw [show Fb.discardStep G (pending, fb) lpa =
          ([], fb.delInvalidatePgs G (pending ++ [lpa])) from if_pos full]
        exact ih [] _
      · rw [show Fb.discardStep G (pending, fb) lpa = (pending ++ [lpa], fb) from if_neg full]
        exact ih _ fb

end Batches

/-! ### The write buffer -/

section Buffer

variable {capacity lpa : ℕ} {wb : WriteBuffer PageData}

theorem pgs_resetPg {i j : ℕ} (wb : WriteBuffer PageData) (different : j ≠ i) :
    (wb.resetPg i).pgs j = wb.pgs j := by
  unfold WriteBuffer.resetPg
  split_ifs
  · exact Function.update_of_ne different _ _
  · rfl

/-- `fb_rm_buf_pg` takes out the entry of its LPA and leaves the others alone. -/
theorem rmBufPg_frame (inv : WbOk capacity wb) (lpa : ℕ) :
    (wb.rmBufPg lpa).hashPgs = Function.update wb.hashPgs lpa none ∧
      ∀ j, wb.hashPgs lpa ≠ some j → (wb.rmBufPg lpa).pgs j = wb.pgs j := by
  unfold WriteBuffer.rmBufPg WriteBuffer.getBufPg
  rcases found : wb.hashPgs lpa with _ | i
  · have same := Function.update_eq_self lpa wb.hashPgs
    rw [found] at same
    exact ⟨same.symm, fun _ _ => rfl⟩
  · have lpa_eq : ((wb.resetPg i).pgs i).lpa = lpa := by
      have same := congrFun (WriteBuffer.entry_resetPg wb i) i
      rw [← (inv.held_of_hash found).2]
      exact congrArg Prod.fst same
    refine ⟨?_, fun j different => ?_⟩
    · change Function.update (wb.resetPg i).hashPgs ((wb.resetPg i).pgs i).lpa none = _
      rw [lpa_eq, WriteBuffer.hashPgs_resetPg]
    · exact pgs_resetPg wb fun same => different (by rw [same])

theorem foldl_rmBufPg_frame (inv : WbOk capacity wb) (lpas : List ℕ) :
    (∀ lpa, (lpas.foldl (fun wb lpa => wb.rmBufPg lpa) wb).hashPgs lpa =
      if lpa ∈ lpas then none else wb.hashPgs lpa) ∧
      ∀ lpa ∉ lpas, ∀ i, wb.hashPgs lpa = some i →
        (lpas.foldl (fun wb lpa => wb.rmBufPg lpa) wb).pgs i = wb.pgs i := by
  induction lpas generalizing wb with
  | nil => exact ⟨fun _ => rfl, fun _ _ _ _ => rfl⟩
  | cons first lpas ih =>
      rcases rmBufPg_frame inv first with ⟨hash, pgs⟩
      rcases ih (WriteBuffer.rmBufPg_spec inv first).1 with ⟨hashes, entries⟩
      refine ⟨fun lpa => ?_, fun lpa outside i found => ?_⟩
      · rw [List.foldl_cons, hashes, hash]
        by_cases same : lpa = first
        · simp [same]
        · simp [same]
      · rw [List.mem_cons, not_or] at outside
        rw [List.foldl_cons, entries lpa outside.2 i (by
          rw [hash, Function.update_of_ne outside.1, found])]
        refine pgs i fun sameEntry => outside.1 ?_
        rw [← (inv.held_of_hash found).2, ← (inv.held_of_hash sameEntry).2]

end Buffer

/-! ### Sub-pages -/

section SubPages

variable {G : Geometry} {fb : Fb} {l : Location} {lpa : ℕ}

/-- `invalidate_lpg` changes the status of the sub-page of its LPA. -/
theorem invalidateLpg_status (inv : Inv G .rest fb) (inside : lpa < G.numLogPages) (l : Location) :
    (((fb.invalidateLpg G lpa).2.ssdi.pages l.block l.page).pageStatus l.slot =
      if (fb.ssdi.pages l.block l.page).pageStatus l.slot = valid ∧
          (fb.ssdi.pages l.block l.page).noLogicalPageAddr l.slot = lpa then invalid
      else (fb.ssdi.pages l.block l.page).pageStatus l.slot) ∧
      ((fb.invalidateLpg G lpa).2.ssdi.pages l.block l.page).noLogicalPageAddr l.slot =
        (fb.ssdi.pages l.block l.page).noLogicalPageAddr l.slot := by
  by_cases isMapped : fb.mappings lpa = pageUnmapped
  · rw [Fb.invalidateLpg_of_unmapped G isMapped, if_neg]
    · exact ⟨rfl, rfl⟩
    · rintro ⟨isValid, rfl⟩
      have hasLocation := inv.mapOk.hasLocation l isValid
      rw [(inv.mapOk.of_valid isValid).2] at isMapped
      exact physicalAddress_ne_pageUnmapped hasLocation isMapped
  · rcases inv.mapOk.mapped inside isMapped with ⟨target, hasLocation, address, forward, isValid, own⟩
    have pages : (fb.invalidateLpg G lpa).2.ssdi.pages = (fb.markInvalid target).ssdi.pages := by
      rcases fb.invalidateLpg_cases G lpa with ⟨unmapped, _⟩ | ⟨other, _, place, result⟩
      · exact absurd unmapped isMapped
      · have same : other = target := by rw [place, address, locate_physicalAddress hasLocation]
        rw [same] at result
        rcases result with result | ⟨_, result⟩ | result <;> rw [result] <;> rfl
    rw [pages]
    by_cases same : l = target
    · subst l
      rw [if_pos ⟨isValid, own⟩]
      simp [Fb.markInvalid, FlashPage.afterInvalidate, FlashPage.setPgStatus,
        FlashPage.incNrInvalidLps]
    · rw [if_neg]
      · unfold Fb.markInvalid
        by_cases sameBlock : l.block = target.block
        · by_cases samePage : l.page = target.page
          · have otherSlot : l.slot ≠ target.slot := by
              intro sameSlot
              apply same
              cases l
              cases target
              simp_all
            simp [sameBlock, samePage, FlashPage.afterInvalidate, FlashPage.setPgStatus,
              FlashPage.incNrInvalidLps, otherSlot]
          · simp [sameBlock, samePage]
        · simp [sameBlock]
      · rintro ⟨alsoValid, alsoOwn⟩
        have other := (inv.mapOk.of_valid alsoValid).2
        rw [alsoOwn, address] at other
        have located := congrArg locate other
        rw [locate_physicalAddress hasLocation,
          locate_physicalAddress (inv.mapOk.hasLocation l alsoValid)] at located
        exact same located.symm

theorem delInvalidatePgs_status (inv : Inv G .rest fb) {lpas : List ℕ}
    (inside : ∀ lpa ∈ lpas, lpa < G.numLogPages) (l : Location) :
    (((fb.delInvalidatePgs G lpas).ssdi.pages l.block l.page).pageStatus l.slot =
      if (fb.ssdi.pages l.block l.page).pageStatus l.slot = valid ∧
          (fb.ssdi.pages l.block l.page).noLogicalPageAddr l.slot ∈ lpas then invalid
      else (fb.ssdi.pages l.block l.page).pageStatus l.slot) ∧
      ((fb.delInvalidatePgs G lpas).ssdi.pages l.block l.page).noLogicalPageAddr l.slot =
        (fb.ssdi.pages l.block l.page).noLogicalPageAddr l.slot := by
  induction lpas generalizing fb with
  | nil => simp [Fb.delInvalidatePgs]
  | cons lpa lpas ih =>
      rcases invalidateLpg_status inv (inside lpa (by simp)) l with ⟨status, address⟩
      rcases ih (inv.invalidateLpgAtRest (inside lpa (by simp)))
        (fun other mem => inside other (by simp [mem])) with ⟨rest, restAddress⟩
      change (((fb.invalidateLpg G lpa).2.delInvalidatePgs G lpas).ssdi.pages l.block
        l.page).pageStatus l.slot = _ ∧ (((fb.invalidateLpg G lpa).2.delInvalidatePgs G
          lpas).ssdi.pages l.block l.page).noLogicalPageAddr l.slot = _
      refine ⟨?_, restAddress.trans address⟩
      rw [rest, address, status]
      by_cases isValid : (fb.ssdi.pages l.block l.page).pageStatus l.slot = valid
      · by_cases first : (fb.ssdi.pages l.block l.page).noLogicalPageAddr l.slot = lpa
        · simp [isValid, first]
        · simp [isValid, first]
      · simp [isValid]

theorem delInvalidatePgs_mappings (fb : Fb) (lpas : List ℕ) (lpa : ℕ) :
    (fb.delInvalidatePgs G lpas).mappings lpa =
      if lpa ∈ lpas then pageUnmapped else fb.mappings lpa := by
  induction lpas generalizing fb with
  | nil => rfl
  | cons first lpas ih =>
      change ((fb.invalidateLpg G first).2.delInvalidatePgs G lpas).mappings lpa = _
      rw [ih, fb.invalidateLpg_mappings]
      by_cases same : lpa = first
      · simp [same]
      · simp [same]

end SubPages

/-! ### The whole request -/

/-- What a discard leaves behind. -/
structure DiscardExact (G : Geometry) (biSector biSize : ℕ) (ctx after : FbContext) : Prop where
  buffered : ∀ lpa, after.wb.hashPgs lpa =
    if WholePage biSector biSize lpa then none else ctx.wb.hashPgs lpa
  entries : ∀ lpa, ¬WholePage biSector biSize lpa → ∀ i, ctx.wb.hashPgs lpa = some i →
    after.wb.pgs i = ctx.wb.pgs i
  mappings : ∀ lpa, after.fb.mappings lpa =
    if WholePage biSector biSize lpa then pageUnmapped else ctx.fb.mappings lpa
  status : ∀ l, G.HasLocation l → (after.fb.ssdi.pages l.block l.page).pageStatus l.slot =
    if (ctx.fb.ssdi.pages l.block l.page).pageStatus l.slot = valid ∧
      WholePage biSector biSize ((ctx.fb.ssdi.pages l.block l.page).noLogicalPageAddr l.slot)
    then invalid else (ctx.fb.ssdi.pages l.block l.page).pageStatus l.slot
  lpas : ∀ l, G.HasLocation l → (after.fb.ssdi.pages l.block l.page).noLogicalPageAddr l.slot =
    (ctx.fb.ssdi.pages l.block l.page).noLogicalPageAddr l.slot
  /-- The calls of `_fb_del_invalidate_pgs` pass on the first entries of `lpas_to_discard`, and
  each fills as many entries of `delm->ppas`. -/
  batches : after.fb = (discardCalls [] (Fb.discardLpas biSector biSize)).foldl
    (fun fb call => (fb.delInvalidateWithPpas G call).2) ctx.fb
  batchLength : ∀ call ∈ discardCalls [] (Fb.discardLpas biSector biSize),
    call.length ≤ nrMaxLpasDiscard ∧
      ∀ fb : Fb, (fb.delInvalidateWithPpas G call).1.length ≤ nrMaxLpasDiscard

/-- In every state of the device a discard within the device removes exactly the logical pages
that lie wholly in its range. -/
theorem discardExact_of_reachable {G : Geometry} {garbage : Garbage} {capacity : ℕ}
    {ctx : FbContext} (reachable : Reachable G garbage ctx.fb) (wbOk : WbOk capacity ctx.wb)
    (bio : Bio) (within : bio.biSector + bio.biSize / 512 ≤ 8 * G.capacityInPages) :
    DiscardExact G bio.biSector bio.biSize ctx (ctx.makeDiscardRequest G bio) := by
  have fits := capacityInPages_lt G
  have whole (lpa : ℕ) : lpa ∈ Fb.discardLpas bio.biSector bio.biSize ↔
      WholePage bio.biSector bio.biSize lpa := mem_discardLpas (by omega)
  have inside : ∀ lpa ∈ Fb.discardLpas bio.biSector bio.biSize, lpa < G.numLogPages := by
    intro lpa mem
    have covered := (whole lpa).mp mem
    have := G.capacityInPages_le
    unfold WholePage at covered
    omega
  have inv := reachable.inv
  rcases foldl_rmBufPg_frame wbOk (Fb.discardLpas bio.biSector bio.biSize) with ⟨hash, pgs⟩
  have flash : (ctx.makeDiscardRequest G bio).fb =
      ctx.fb.delInvalidatePgs G (Fb.discardLpas bio.biSector bio.biSize) := discardMapped_eq _ _
  exact
    { buffered := fun lpa => by
        rw [← if_congr (whole lpa) rfl rfl]
        exact hash lpa
      entries := fun lpa outside i found => pgs lpa (mt (whole lpa).mp outside) i found
      mappings := fun lpa => by
        rw [flash, delInvalidatePgs_mappings, if_congr (whole lpa) rfl rfl]
      status := fun l _ => by
        rw [flash, (delInvalidatePgs_status inv inside l).1]
        exact if_congr (and_congr_right fun _ => whole _) rfl rfl
      lpas := fun l _ => by rw [flash, (delInvalidatePgs_status inv inside l).2]
      batches := by
        refine (discardMapped_eq_foldl _ _).trans ?_
        congr 1
        funext fb call
        exact ((delInvalidateWithPpas_spec fb call).1).symm
      batchLength := fun call mem => by
        have short := length_discardCalls (by simp) mem
        exact ⟨short, fun fb => (delInvalidateWithPpas_spec fb call).2.trans_le short⟩ }

/-- A discard from the middle of LPA 1 to the middle of LPA 8 removes LPAs 2 to 5 from the write
buffer and LPAs 6 and 7 from the table. It leaves LPA 1 on flash and LPA 8 in the buffer. -/
theorem discardExact_bufferedDevice :
    Fb.discardLpas 12 28672 = [2, 3, 4, 5, 6, 7] ∧
    ((bufferedDevice.wb.hashPgs 5).isSome ∧ (bufferedDevice.wb.hashPgs 8).isSome) ∧
    (bufferedDevice.fb.mappings 1 ≠ pageUnmapped ∧ bufferedDevice.fb.mappings 6 ≠ pageUnmapped) ∧
    DiscardExact .threeBlocks 12 28672 bufferedDevice
      (bufferedDevice.makeDiscardRequest .threeBlocks ⟨.discard, false, 12, 28672, []⟩) := by
  have inv := bufferedDevice_run.deviceRun.inv.1
  refine ⟨by decide, by decide +kernel, by decide +kernel, ?_⟩
  exact discardExact_of_reachable inv.reachable inv.wbOk ⟨.discard, false, 12, 28672, []⟩ (by decide)

end FlashBench
