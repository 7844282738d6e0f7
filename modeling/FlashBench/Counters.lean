import Mathlib.Data.Fintype.Card
import FlashBench.Library.Counting
import FlashBench.PageMappingFunction

/-!
# The counters of a block

`BlockOk` states what the counters of one block count. Its parameter `ofs` is the
number of sub-pages already mapped on the page that is being filled, and 0 for a
block at rest, so that the statement also covers the states inside
`map_logical_to_physical`.

The number of sub-pages filled so far is a cursor: a sub-page is FREE exactly
when it lies at or behind it.
-/

namespace FlashBench

open PgStatus

/-- The sub-pages of a block. -/
def subPages (G : Geometry) : Finset (ℕ × Slot) :=
  Finset.range G.numPagesPerBlock ×ˢ Finset.univ

/-- Status of a sub-page. -/
def statusAt (pages : ℕ → FlashPage) (subPage : ℕ × Slot) : PgStatus :=
  (pages subPage.1).pageStatus subPage.2

/-- Every sub-page of the page is INVALID. -/
def FlashPage.Dead (page : FlashPage) : Prop := ∀ lp, page.pageStatus lp = invalid

instance (page : FlashPage) : Decidable page.Dead := inferInstanceAs (Decidable (∀ _, _))

/-- The number of sub-pages of a page with a status. -/
def FlashPage.nrSubPages (page : FlashPage) (status : PgStatus) : ℕ :=
  labelCount Finset.univ page.pageStatus status

/-- The number of sub-pages of a block with a status. -/
def nrSubPages (G : Geometry) (pages : ℕ → FlashPage) (status : PgStatus) : ℕ :=
  labelCount (subPages G) (statusAt pages) status

/-- The number of pages of a block all of whose sub-pages are INVALID. -/
def nrDeadPages (G : Geometry) (pages : ℕ → FlashPage) : ℕ :=
  labelCount (Finset.range G.numPagesPerBlock) (fun pg => decide (pages pg).Dead) true

/-- The counters of a block agree with the statuses of its pages. -/
structure BlockOk (G : Geometry) (ofs : ℕ) (block : FlashBlock) (pages : ℕ → FlashPage) :
    Prop where
  nrFreePages_le : block.nrFreePages ≤ G.numPagesPerBlock
  status_free : ∀ pg < G.numPagesPerBlock, ∀ lp : Slot,
    (pages pg).pageStatus lp = free ↔
      4 * (G.numPagesPerBlock - block.nrFreePages) + ofs ≤ 4 * pg + lp
  page_invalid : ∀ pg < G.numPagesPerBlock,
    (pages pg).nrInvalidLogPages = (pages pg).nrSubPages invalid
  nrValidLogPages_eq : block.nrValidLogPages = nrSubPages G pages valid
  nrInvalidLogPages_eq : block.nrInvalidLogPages = nrSubPages G pages invalid
  nrInvalidPages_le : block.nrInvalidPages ≤ nrDeadPages G pages
  programmed_eq :
    block.nrValidPages + block.nrInvalidPages = G.numPagesPerBlock - block.nrFreePages

/-- No page of the block has died without being counted. -/
def BlockExact (G : Geometry) (block : FlashBlock) (pages : ℕ → FlashPage) : Prop :=
  block.nrInvalidPages = nrDeadPages G pages

theorem FlashPage.nrSubPages_invalid_eq_iff {page : FlashPage} :
    page.nrSubPages invalid = nrLpInPp ↔ page.Dead := by
  have whole := labelCount_eq_card_iff (Finset.univ : Finset Slot) page.pageStatus invalid
  rw [Finset.card_univ, Fintype.card_fin] at whole
  simpa [nrSubPages, Dead] using whole

@[simp]
theorem mem_subPages {G : Geometry} {pg : ℕ} {lp : Slot} :
    (pg, lp) ∈ subPages G ↔ pg < G.numPagesPerBlock := by
  simp [subPages]

namespace BlockOk

variable {G : Geometry} {ofs : ℕ} {block : FlashBlock} {pages : ℕ → FlashPage}

theorem congr {other : FlashBlock} (ok : BlockOk G ofs block pages)
    (freePages : other.nrFreePages = block.nrFreePages)
    (validLogPages : other.nrValidLogPages = block.nrValidLogPages)
    (invalidLogPages : other.nrInvalidLogPages = block.nrInvalidLogPages)
    (validPages : other.nrValidPages = block.nrValidPages)
    (invalidPages : other.nrInvalidPages = block.nrInvalidPages) :
    BlockOk G ofs other pages where
  nrFreePages_le := by rw [freePages]; exact ok.nrFreePages_le
  status_free := by rw [freePages]; exact ok.status_free
  page_invalid := ok.page_invalid
  nrValidLogPages_eq := by rw [validLogPages]; exact ok.nrValidLogPages_eq
  nrInvalidLogPages_eq := by rw [invalidLogPages]; exact ok.nrInvalidLogPages_eq
  nrInvalidPages_le := by rw [invalidPages]; exact ok.nrInvalidPages_le
  programmed_eq := by rw [validPages, invalidPages, freePages]; exact ok.programmed_eq

theorem setActBlkFlag (ok : BlockOk G ofs block pages) (flag : Bool) :
    BlockOk G ofs (block.setActBlkFlag flag) pages :=
  ok.congr rfl rfl rfl rfl rfl

theorem setRsvBlkFlag (ok : BlockOk G ofs block pages) (flag : Bool) :
    BlockOk G ofs (block.setRsvBlkFlag flag) pages :=
  ok.congr rfl rfl rfl rfl rfl

theorem status_ne_free (ok : BlockOk G ofs block pages) {pg : ℕ} {lp : Slot}
    (pg_lt : pg < G.numPagesPerBlock - block.nrFreePages) : (pages pg).pageStatus lp ≠ free := by
  intro isFree
  have behind := (ok.status_free pg (by omega) lp).mp isFree
  have := slot_lt lp
  omega

/-- Before the page that is being filled, every page is programmed: a dead page lies there. -/
theorem lt_of_dead (ok : BlockOk G ofs block pages) (ofs_lt : ofs < 4) {pg : ℕ}
    (pg_lt : pg < G.numPagesPerBlock) (dead : (pages pg).Dead) :
    pg < G.numPagesPerBlock - block.nrFreePages := by
  by_contra notBefore
  have last := dead ⟨3, by decide⟩
  have notFree : (pages pg).pageStatus ⟨3, by decide⟩ ≠ free := by simp [last]
  have cursor := mt (ok.status_free pg pg_lt ⟨3, by decide⟩).mpr notFree
  simp only at cursor
  omega

/-- While a programmed page is alive, the dead pages are among the others. -/
theorem nrDeadPages_lt (ok : BlockOk G ofs block pages) (ofs_lt : ofs < 4) {pg : ℕ}
    (pg_lt : pg < G.numPagesPerBlock - block.nrFreePages) (alive : ¬(pages pg).Dead) :
    nrDeadPages G pages < G.numPagesPerBlock - block.nrFreePages := by
  have inside : (Finset.range G.numPagesPerBlock).filter
      (fun pg => (fun pg => decide (pages pg).Dead) pg = true) ⊆
        (Finset.range (G.numPagesPerBlock - block.nrFreePages)).erase pg := by
    intro other otherMem
    simp only [Finset.mem_filter, Finset.mem_range, decide_eq_true_eq] at otherMem
    refine Finset.mem_erase.mpr ⟨?_, Finset.mem_range.mpr
      (ok.lt_of_dead ofs_lt otherMem.1 otherMem.2)⟩
    rintro rfl
    exact alive otherMem.2
  have count := Finset.card_le_card inside
  rw [Finset.card_erase_of_mem (Finset.mem_range.mpr pg_lt), Finset.card_range] at count
  calc nrDeadPages G pages ≤ G.numPagesPerBlock - block.nrFreePages - 1 := count
    _ < G.numPagesPerBlock - block.nrFreePages := by omega

/-- A block all of whose pages have been counted as dead is full, and every sub-page
is INVALID. -/
theorem all_dead (ok : BlockOk G ofs block pages)
    (full : block.nrInvalidPages = G.numPagesPerBlock) :
    ∀ pg < G.numPagesPerBlock, (pages pg).Dead := by
  have atLeast := ok.nrInvalidPages_le
  have atMost := labelCount_le_card (Finset.range G.numPagesPerBlock)
    (fun pg => decide (pages pg).Dead) true
  rw [Finset.card_range] at atMost
  have whole : nrDeadPages G pages = (Finset.range G.numPagesPerBlock).card := by
    rw [Finset.card_range]
    unfold nrDeadPages at atLeast ⊢
    omega
  intro pg pg_lt
  simpa using (labelCount_eq_card_iff _ _ _).mp whole pg (Finset.mem_range.mpr pg_lt)

theorem nrFreePages_eq_zero (ok : BlockOk G ofs block pages)
    (full : block.nrInvalidPages = G.numPagesPerBlock) : block.nrFreePages = 0 := by
  have := ok.programmed_eq
  have := ok.nrFreePages_le
  have := G.numPagesPerBlock_pos
  omega

/-- A block without VALID sub-pages, as the block counter shows. -/
theorem no_valid (ok : BlockOk G ofs block pages) (noValid : block.nrValidLogPages = 0)
    {pg : ℕ} (pg_lt : pg < G.numPagesPerBlock) (lp : Slot) :
    (pages pg).pageStatus lp ≠ valid := by
  have none := ok.nrValidLogPages_eq
  rw [noValid] at none
  exact labelCount_eq_zero_iff.mp none.symm (pg, lp) (mem_subPages.mpr pg_lt)

theorem nrValidLogPages_eq_zero_of_all_dead (ok : BlockOk G ofs block pages)
    (dead : ∀ pg < G.numPagesPerBlock, (pages pg).Dead) : block.nrValidLogPages = 0 := by
  rw [ok.nrValidLogPages_eq]
  refine labelCount_eq_zero_iff.mpr ?_
  rintro ⟨pg, lp⟩ member
  simp [statusAt, dead pg (mem_subPages.mp member) lp]

end BlockOk

/-! ### What the functions do to one block -/

/-- The block record after `invalidate_lpg`, apart from the reserved flag. -/
def FlashBlock.afterInvalidate (block : FlashBlock) (pageDies : Bool) : FlashBlock :=
  let block := block.incNrInvalidLps.decNrValidLps
  if pageDies then block.decNrValidPgs.incNrInvalidPgs else block

/-- The page record after `invalidate_lpg`. -/
def FlashPage.afterInvalidate (page : FlashPage) (lp : Slot) : FlashPage :=
  (page.setPgStatus lp invalid).incNrInvalidLps

/-- The block record after the status of a sub-page was set by
`__map_logical_to_physical`: VALID for an LPA, INVALID for padding. -/
def FlashBlock.afterFill (block : FlashBlock) (lpa : ℕ) : FlashBlock :=
  if lpa ≠ pageUnmapped then block.incNrValidLps else block.incNrInvalidLps

/-- The page record after `__map_logical_to_physical`. -/
def FlashPage.afterFill (page : FlashPage) (lp : Slot) (lpa : ℕ) : FlashPage :=
  (if lpa ≠ pageUnmapped then page.setPgStatus lp valid
    else page.incNrInvalidLps.setPgStatus lp invalid).setMappedLpa lp lpa

/-- The status that `__map_logical_to_physical` gives a sub-page. -/
def fillStatus (lpa : ℕ) : PgStatus := if lpa ≠ pageUnmapped then valid else invalid

/-- The block record after `__map_logical_to_physical` completed a page. -/
def FlashBlock.afterClose (block : FlashBlock) : FlashBlock := block.incNrValidPgs.decNrFreePgs

section OneBlock

variable {G : Geometry} {ofs : ℕ} {block : FlashBlock} {pages : ℕ → FlashPage} {pg : ℕ} {lp : Slot}

/-- The statuses after one page of a block was replaced by one that differs in one slot. -/
theorem statusAt_update (pages : ℕ → FlashPage) {newPage : FlashPage}
    (rest : ∀ other ≠ lp, newPage.pageStatus other = (pages pg).pageStatus other)
    {subPage : ℕ × Slot} (different : subPage ≠ (pg, lp)) :
    statusAt (Function.update pages pg newPage) subPage = statusAt pages subPage := by
  rcases subPage with ⟨page, slot⟩
  by_cases samePage : page = pg
  · subst page
    have : slot ≠ lp := fun same => different (by rw [same])
    simp [statusAt, rest slot this]
  · simp [statusAt, samePage]

theorem nrSubPages_update_gain {newPage : FlashPage} (status : PgStatus)
    (pg_lt : pg < G.numPagesPerBlock)
    (rest : ∀ other ≠ lp, newPage.pageStatus other = (pages pg).pageStatus other)
    (old : (pages pg).pageStatus lp ≠ status) (new : newPage.pageStatus lp = status) :
    nrSubPages G (Function.update pages pg newPage) status = nrSubPages G pages status + 1 :=
  labelCount_gain (pg, lp) (mem_subPages.mpr pg_lt)
    (fun _ _ different => statusAt_update pages rest different) old (by simpa [statusAt] using new)

theorem nrSubPages_update_loss {newPage : FlashPage} (status : PgStatus)
    (pg_lt : pg < G.numPagesPerBlock)
    (rest : ∀ other ≠ lp, newPage.pageStatus other = (pages pg).pageStatus other)
    (old : (pages pg).pageStatus lp = status) (new : newPage.pageStatus lp ≠ status) :
    nrSubPages G pages status = nrSubPages G (Function.update pages pg newPage) status + 1 :=
  labelCount_loss (pg, lp) (mem_subPages.mpr pg_lt)
    (fun _ _ different => statusAt_update pages rest different) old (by simpa [statusAt] using new)

theorem nrSubPages_update_same {newPage : FlashPage} {status : PgStatus}
    (pg_lt : pg < G.numPagesPerBlock)
    (rest : ∀ other ≠ lp, newPage.pageStatus other = (pages pg).pageStatus other)
    (old : (pages pg).pageStatus lp ≠ status) (new : newPage.pageStatus lp ≠ status) :
    nrSubPages G (Function.update pages pg newPage) status = nrSubPages G pages status :=
  labelCount_same (pg, lp) (mem_subPages.mpr pg_lt)
    (fun _ _ different => statusAt_update pages rest different) old (by simpa [statusAt] using new)

theorem nrSubPages_setPgStatus_gain (page : FlashPage) (lp : Slot) (status : PgStatus)
    (old : page.pageStatus lp ≠ status) :
    (page.setPgStatus lp status).nrSubPages status = page.nrSubPages status + 1 :=
  labelCount_gain lp (Finset.mem_univ lp)
    (fun _ _ different => by simp [FlashPage.setPgStatus, different]) old
    (by simp [FlashPage.setPgStatus])

theorem nrSubPages_setPgStatus_same {page : FlashPage} {status other : PgStatus}
    (old : page.pageStatus lp ≠ other) (new : status ≠ other) :
    (page.setPgStatus lp status).nrSubPages other = page.nrSubPages other :=
  labelCount_same lp (Finset.mem_univ lp)
    (fun _ _ different => by simp [FlashPage.setPgStatus, different]) old
    (by simpa [FlashPage.setPgStatus] using new)

theorem nrDeadPages_update_of_dead {newPage : FlashPage} (pg_lt : pg < G.numPagesPerBlock)
    (alive : ¬(pages pg).Dead) (dead : newPage.Dead) :
    nrDeadPages G (Function.update pages pg newPage) = nrDeadPages G pages + 1 :=
  labelCount_gain pg (Finset.mem_range.mpr pg_lt)
    (fun _ _ different => by simp [different]) (by simpa using alive) (by simpa using dead)

theorem nrDeadPages_update_of_alive {newPage : FlashPage} (pg_lt : pg < G.numPagesPerBlock)
    (alive : ¬(pages pg).Dead) (stillAlive : ¬newPage.Dead) :
    nrDeadPages G (Function.update pages pg newPage) = nrDeadPages G pages :=
  labelCount_same pg (Finset.mem_range.mpr pg_lt)
    (fun _ _ different => by simp [different]) (by simpa using alive) (by simpa using stillAlive)

theorem not_dead_of_status {page : FlashPage} (lp : Slot) (status : page.pageStatus lp ≠ invalid) :
    ¬page.Dead :=
  fun dead => status (dead lp)

/-- `invalidate_lpg` counts the death of a page exactly when the page dies. -/
theorem BlockOk.pageDies_iff (ok : BlockOk G ofs block pages) (pg_lt : pg < G.numPagesPerBlock)
    (isValid : (pages pg).pageStatus lp = valid) :
    ((pages pg).afterInvalidate lp).nrInvalidLogPages = nrLpInPp ↔
      ((pages pg).afterInvalidate lp).Dead := by
  have count : ((pages pg).afterInvalidate lp).nrInvalidLogPages =
      ((pages pg).setPgStatus lp invalid).nrSubPages invalid := by
    rw [nrSubPages_setPgStatus_gain _ _ _ (by simp [isValid]), ← ok.page_invalid pg pg_lt]
    rfl
  rw [count]
  exact FlashPage.nrSubPages_invalid_eq_iff

theorem BlockOk.invalidate (ok : BlockOk G ofs block pages) (ofs_lt : ofs < 4)
    (pg_lt : pg < G.numPagesPerBlock) (isValid : (pages pg).pageStatus lp = valid) {dies : Bool}
    (dies_eq : dies = decide ((pages pg).afterInvalidate lp).Dead) :
    BlockOk G ofs (block.afterInvalidate dies)
      (Function.update pages pg ((pages pg).afterInvalidate lp)) := by
  have rest : ∀ other ≠ lp,
      ((pages pg).afterInvalidate lp).pageStatus other = (pages pg).pageStatus other := by
    intro other different
    simp [FlashPage.afterInvalidate, FlashPage.setPgStatus, FlashPage.incNrInvalidLps, different]
  have now : ((pages pg).afterInvalidate lp).pageStatus lp = invalid := by
    simp [FlashPage.afterInvalidate, FlashPage.setPgStatus, FlashPage.incNrInvalidLps]
  have alive : ¬(pages pg).Dead := not_dead_of_status lp (by simp [isValid])
  have validCount := nrSubPages_update_loss valid pg_lt rest isValid (by simp [now])
  have invalidCount := nrSubPages_update_gain invalid pg_lt rest (by simp [isValid]) now
  have counts : ∀ dies, (block.afterInvalidate dies).nrFreePages = block.nrFreePages ∧
      (block.afterInvalidate dies).nrValidLogPages = dec32 block.nrValidLogPages ∧
      (block.afterInvalidate dies).nrInvalidLogPages = block.nrInvalidLogPages + 1 := by
    intro dies
    cases dies <;> exact ⟨rfl, rfl, rfl⟩
  rcases counts dies with ⟨freePages, validLogPages, invalidLogPages⟩
  refine
    { nrFreePages_le := by rw [freePages]; exact ok.nrFreePages_le
      status_free := ?_
      page_invalid := ?_
      nrValidLogPages_eq := ?_
      nrInvalidLogPages_eq := ?_
      nrInvalidPages_le := ?_
      programmed_eq := ?_ }
  · intro page page_lt slot
    rw [freePages, ← ok.status_free page page_lt slot]
    by_cases same : (page, slot) = (pg, lp)
    · simp only [Prod.mk.injEq] at same
      rcases same with ⟨rfl, rfl⟩
      simp [now, isValid]
    · have := statusAt_update pages rest same
      simp only [statusAt] at this
      rw [this]
  · intro page page_lt
    by_cases same : page = pg
    · subst page
      have := nrSubPages_setPgStatus_gain (pages pg) lp invalid (by simp [isValid])
      rw [Function.update_self]
      change (pages pg).nrInvalidLogPages + 1 = ((pages pg).setPgStatus lp invalid).nrSubPages invalid
      rw [this, ok.page_invalid pg pg_lt]
    · rw [Function.update_of_ne same]
      exact ok.page_invalid page page_lt
  · rw [validLogPages, dec32_of_pos, ok.nrValidLogPages_eq]
    · omega
    · rw [ok.nrValidLogPages_eq]
      omega
  · rw [invalidLogPages, ok.nrInvalidLogPages_eq, invalidCount]
  · have before := ok.nrInvalidPages_le
    cases dies with
    | false =>
        rw [nrDeadPages_update_of_alive pg_lt alive (by simpa using dies_eq.symm)]
        exact before
    | true =>
        rw [nrDeadPages_update_of_dead pg_lt alive (by simpa using dies_eq.symm)]
        exact Nat.add_le_add_right before 1
  · have before := ok.programmed_eq
    rw [freePages]
    cases dies with
    | false => exact before
    | true =>
        -- the page was complete and counted as valid, so the decrement does not wrap
        have dead : ((pages pg).afterInvalidate lp).Dead := by simpa using dies_eq.symm
        have programmed : pg < G.numPagesPerBlock - block.nrFreePages := by
          by_contra notBefore
          have last : (pages pg).pageStatus ⟨3, by decide⟩ ≠ free := by
            by_cases sameSlot : (⟨3, by decide⟩ : Slot) = lp
            · simp [sameSlot, isValid]
            · rw [← rest _ sameSlot, dead]
              simp
          have cursor := mt (ok.status_free pg pg_lt ⟨3, by decide⟩).mpr last
          simp only at cursor
          omega
        have fewer := ok.nrDeadPages_lt ofs_lt programmed alive
        have atMost := ok.nrInvalidPages_le
        change dec32 block.nrValidPages + (block.nrInvalidPages + 1) = _
        rw [dec32_of_pos (by omega)]
        omega

theorem BlockExact.invalidate (exact_ : BlockExact G block pages) (pg_lt : pg < G.numPagesPerBlock)
    (isValid : (pages pg).pageStatus lp = valid) {dies : Bool}
    (dies_eq : dies = decide ((pages pg).afterInvalidate lp).Dead) :
    BlockExact G (block.afterInvalidate dies)
      (Function.update pages pg ((pages pg).afterInvalidate lp)) := by
  have alive : ¬(pages pg).Dead := not_dead_of_status lp (by simp [isValid])
  unfold BlockExact at exact_ ⊢
  cases dies with
  | false =>
      rw [nrDeadPages_update_of_alive pg_lt alive (by simpa using dies_eq.symm)]
      exact exact_
  | true =>
      rw [nrDeadPages_update_of_dead pg_lt alive (by simpa using dies_eq.symm)]
      exact congrArg (· + 1) exact_

theorem FlashPage.afterFill_pageStatus (page : FlashPage) (lpa : ℕ) :
    (page.afterFill lp lpa).pageStatus = Function.update page.pageStatus lp (fillStatus lpa) := by
  by_cases mapped : lpa = pageUnmapped <;>
    simp [afterFill, fillStatus, mapped, setPgStatus, setMappedLpa, incNrInvalidLps]

theorem FlashPage.afterFill_nrInvalidLogPages (page : FlashPage) (lpa : ℕ) :
    (page.afterFill lp lpa).nrInvalidLogPages =
      page.nrInvalidLogPages + (if fillStatus lpa = invalid then 1 else 0) := by
  by_cases mapped : lpa = pageUnmapped <;>
    simp [afterFill, fillStatus, mapped, setPgStatus, setMappedLpa, incNrInvalidLps]

theorem fillStatus_ne_free (lpa : ℕ) : fillStatus lpa ≠ free := by
  unfold fillStatus
  split_ifs <;> simp

/-- Replacing a page that is alive does not lower the count of dead pages. -/
theorem nrDeadPages_le_update {newPage : FlashPage} (alive : ¬(pages pg).Dead) :
    nrDeadPages G pages ≤ nrDeadPages G (Function.update pages pg newPage) := by
  unfold nrDeadPages labelCount
  refine Finset.card_le_card fun other otherMem => ?_
  simp only [Finset.mem_filter, Finset.mem_range, decide_eq_true_eq] at otherMem ⊢
  have different : other ≠ pg := fun same => alive (same ▸ otherMem.2)
  exact ⟨otherMem.1, by rw [Function.update_of_ne different]; exact otherMem.2⟩

theorem BlockOk.fill (ok : BlockOk G lp block pages) (open_ : 0 < block.nrFreePages)
    (pg_eq : pg = G.numPagesPerBlock - block.nrFreePages) (lpa : ℕ) :
    BlockOk G (lp + 1) (block.afterFill lpa)
      (Function.update pages pg ((pages pg).afterFill lp lpa)) := by
  have nrFree_le := ok.nrFreePages_le
  have pg_lt : pg < G.numPagesPerBlock := by omega
  have isFree : (pages pg).pageStatus lp = free :=
    (ok.status_free pg pg_lt lp).mpr (by omega)
  have alive : ¬(pages pg).Dead := not_dead_of_status lp (by simp [isFree])
  have rest : ∀ other ≠ lp,
      ((pages pg).afterFill lp lpa).pageStatus other = (pages pg).pageStatus other := by
    intro other different
    rw [FlashPage.afterFill_pageStatus, Function.update_of_ne different]
  have now : ((pages pg).afterFill lp lpa).pageStatus lp = fillStatus lpa := by
    rw [FlashPage.afterFill_pageStatus, Function.update_self]
  have counts : (block.afterFill lpa).nrFreePages = block.nrFreePages ∧
      (block.afterFill lpa).nrValidPages = block.nrValidPages ∧
      (block.afterFill lpa).nrInvalidPages = block.nrInvalidPages := by
    unfold FlashBlock.afterFill
    split_ifs <;> exact ⟨rfl, rfl, rfl⟩
  rcases counts with ⟨freePages, validPages, invalidPages⟩
  have statusCount (status : PgStatus) (used : status ≠ free) :
      nrSubPages G (Function.update pages pg ((pages pg).afterFill lp lpa)) status =
        nrSubPages G pages status + (if fillStatus lpa = status then 1 else 0) := by
    have old : (pages pg).pageStatus lp ≠ status := by rw [isFree]; exact used.symm
    split_ifs with same
    · exact nrSubPages_update_gain status pg_lt rest old (now.trans same)
    · exact nrSubPages_update_same pg_lt rest old (by rw [now]; exact same)
  refine
    { nrFreePages_le := by rw [freePages]; exact nrFree_le
      status_free := ?_
      page_invalid := ?_
      nrValidLogPages_eq := ?_
      nrInvalidLogPages_eq := ?_
      nrInvalidPages_le := by
        rw [invalidPages]
        exact ok.nrInvalidPages_le.trans (nrDeadPages_le_update alive)
      programmed_eq := by rw [validPages, invalidPages, freePages]; exact ok.programmed_eq }
  · intro page page_lt slot
    rw [freePages]
    have before := ok.status_free page page_lt slot
    have := slot_lt slot
    have := slot_lt lp
    by_cases same : (page, slot) = (pg, lp)
    · simp only [Prod.mk.injEq] at same
      rcases same with ⟨rfl, rfl⟩
      simp only [Function.update_self, now, fillStatus_ne_free, false_iff]
      omega
    · have unchanged := statusAt_update pages rest same
      simp only [statusAt] at unchanged
      rw [unchanged, before]
      have apart : 4 * page + (slot : ℕ) ≠ 4 * pg + lp := by
        intro equal
        exact same (Prod.ext (by simp only; omega) (Fin.ext (by simp only; omega)))
      omega
  · intro page page_lt
    by_cases same : page = pg
    · subst page
      rw [Function.update_self, FlashPage.afterFill_nrInvalidLogPages, ok.page_invalid pg pg_lt]
      have asSet : ((pages pg).afterFill lp lpa).nrSubPages invalid =
          ((pages pg).setPgStatus lp (fillStatus lpa)).nrSubPages invalid := by
        unfold FlashPage.nrSubPages
        rw [FlashPage.afterFill_pageStatus]
        rfl
      rw [asSet]
      split_ifs with padding
      · rw [padding, nrSubPages_setPgStatus_gain _ _ _ (by simp [isFree])]
      · rw [nrSubPages_setPgStatus_same (by simp [isFree]) padding]
        rfl
    · rw [Function.update_of_ne same]
      exact ok.page_invalid page page_lt
  · rw [statusCount valid (by simp), ← ok.nrValidLogPages_eq]
    by_cases padding : lpa = pageUnmapped <;>
      simp [FlashBlock.afterFill, fillStatus, padding, FlashBlock.incNrValidLps,
        FlashBlock.incNrInvalidLps]
  · rw [statusCount invalid (by simp), ← ok.nrInvalidLogPages_eq]
    by_cases padding : lpa = pageUnmapped <;>
      simp [FlashBlock.afterFill, fillStatus, padding, FlashBlock.incNrValidLps,
        FlashBlock.incNrInvalidLps]

/-- After the last sub-page of a page the block counts the page as programmed. -/
theorem BlockOk.close (ok : BlockOk G 4 block pages) (open_ : 0 < block.nrFreePages) :
    BlockOk G 0 block.afterClose pages := by
  have freePages : block.afterClose.nrFreePages = block.nrFreePages - 1 := dec32_of_pos open_
  have nrFree_le := ok.nrFreePages_le
  have programmed := ok.programmed_eq
  exact
    { nrFreePages_le := by omega
      status_free := by
        intro page page_lt slot
        rw [freePages, ok.status_free page page_lt slot]
        omega
      page_invalid := ok.page_invalid
      nrValidLogPages_eq := ok.nrValidLogPages_eq
      nrInvalidLogPages_eq := ok.nrInvalidLogPages_eq
      nrInvalidPages_le := ok.nrInvalidPages_le
      programmed_eq := by
        rw [freePages]
        change block.nrValidPages + 1 + block.nrInvalidPages = _
        omega }

end OneBlock

section Erased

variable {G : Geometry} {block : FlashBlock} {pages : ℕ → FlashPage}

theorem BlockOk.erased (erased : ∀ pg < G.numPagesPerBlock, pages pg = .initial)
    (freePages : block.nrFreePages = G.numPagesPerBlock)
    (validPages : block.nrValidPages = 0) (invalidPages : block.nrInvalidPages = 0)
    (validLogPages : block.nrValidLogPages = 0) (invalidLogPages : block.nrInvalidLogPages = 0) :
    BlockOk G 0 block pages := by
  have allFree : ∀ pg < G.numPagesPerBlock, ∀ lp, (pages pg).pageStatus lp = free := by
    intro pg pg_lt lp
    rw [erased pg pg_lt]
    rfl
  have none (status : PgStatus) (used : status ≠ free) : nrSubPages G pages status = 0 := by
    refine labelCount_eq_zero_iff.mpr ?_
    rintro ⟨pg, lp⟩ member
    simp only [statusAt, allFree pg (mem_subPages.mp member) lp]
    exact used.symm
  exact
    { nrFreePages_le := freePages.le
      status_free := by
        intro pg pg_lt lp
        simp only [allFree pg pg_lt lp, true_iff]
        omega
      page_invalid := by
        intro pg pg_lt
        rw [erased pg pg_lt]
        exact (labelCount_eq_zero_iff.mpr (by simp [FlashPage.initial])).symm
      nrValidLogPages_eq := by rw [validLogPages, none valid (by simp)]
      nrInvalidLogPages_eq := by rw [invalidLogPages, none invalid (by simp)]
      nrInvalidPages_le := by omega
      programmed_eq := by omega }

theorem BlockOk.initial : BlockOk G 0 (.initial G) fun _ => .initial :=
  .erased (fun _ _ => rfl) rfl rfl rfl rfl rfl

theorem BlockExact.erased (erased : ∀ pg < G.numPagesPerBlock, pages pg = .initial)
    (invalidPages : block.nrInvalidPages = 0) : BlockExact G block pages := by
  unfold BlockExact nrDeadPages
  rw [invalidPages, labelCount_eq_zero_iff.mpr]
  intro pg member
  rw [erased pg (Finset.mem_range.mp member)]
  decide

end Erased

end FlashBench
