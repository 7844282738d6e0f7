import FlashBench.Counters
import FlashBench.Library.InversePair

/-!
# The L2P table and the reverse map

Both maps are read as partial maps between LPAs and sub-pages. `MapOk` states that
they are inverse to each other and that the table holds addresses of existing
sub-pages only.
-/

namespace FlashBench

open PgStatus

/-- The LPA of a VALID sub-page. -/
def FlashPage.entry (page : FlashPage) (lp : Slot) : Option ℕ :=
  if page.pageStatus lp = valid then some (page.noLogicalPageAddr lp) else none

/-- The L2P table as a partial map. -/
def l2p (G : Geometry) (mappings : ℕ → ℕ) (lpa : ℕ) : Option Location :=
  if lpa < G.numLogPages ∧ mappings lpa ≠ pageUnmapped then some (locate (mappings lpa)) else none

/-- The reverse map kept in the pages as a partial map. -/
def p2l (G : Geometry) (pages : BlockId → ℕ → FlashPage) (l : Location) : Option ℕ :=
  if G.HasLocation l then (pages l.block l.page).entry l.slot else none

/-- The L2P table and the reverse map describe the same pairs, over the sub-pages of the
device. -/
structure MapOk (G : Geometry) (mappings : ℕ → ℕ) (pages : BlockId → ℕ → FlashPage) :
    Prop where
  inverse : InversePair (l2p G mappings) (p2l G pages)
  encoded : ∀ lpa < G.numLogPages, mappings lpa ≠ pageUnmapped →
    ∃ l, G.HasLocation l ∧ mappings lpa = physicalAddress l
  hasLocation : ∀ l : Location, (pages l.block l.page).pageStatus l.slot = valid →
    G.HasLocation l

theorem Fb.getMappedPhysicalAddress_eq (G : Geometry) (fb : Fb) (lpa : ℕ) :
    fb.getMappedPhysicalAddress G lpa = l2p G fb.mappings lpa := by
  unfold getMappedPhysicalAddress l2p
  by_cases inside : lpa < G.numLogPages <;> by_cases mapped : fb.mappings lpa = pageUnmapped <;>
    simp [inside, mapped]

section Pages

variable {G : Geometry} {mappings : ℕ → ℕ} {pages : BlockId → ℕ → FlashPage} {lpa : ℕ}
  {l : Location}

theorem FlashPage.entry_eq_some {page : FlashPage} {lp : Slot} :
    page.entry lp = some lpa ↔ page.pageStatus lp = valid ∧ page.noLogicalPageAddr lp = lpa := by
  by_cases isValid : page.pageStatus lp = valid <;> simp [entry, isValid]

theorem p2l_eq_some :
    p2l G pages l = some lpa ↔ G.HasLocation l ∧
      (pages l.block l.page).pageStatus l.slot = valid ∧
        (pages l.block l.page).noLogicalPageAddr l.slot = lpa := by
  by_cases exists_ : G.HasLocation l <;> simp [p2l, exists_, FlashPage.entry_eq_some]

theorem l2p_eq_none (inside : lpa < G.numLogPages) :
    l2p G mappings lpa = none ↔ mappings lpa = pageUnmapped := by
  simp [l2p, inside]

/-- Replacing one page changes the reverse map at the changed sub-page only. -/
theorem p2l_update (exists_ : G.HasLocation l) {newPage : FlashPage} {entry : Option ℕ}
    (entries : newPage.entry = Function.update (pages l.block l.page).entry l.slot entry) :
    p2l G (Function.update pages l.block (Function.update (pages l.block) l.page newPage)) =
      Function.update (p2l G pages) l entry := by
  funext other
  by_cases same : other = l
  · subst other
    simp [p2l, exists_, entries]
  · rw [Function.update_of_ne same]
    rcases other with ⟨block, page, slot⟩
    rcases l with ⟨block', page', slot'⟩
    by_cases sameBlock : block = block'
    · subst block
      by_cases samePage : page = page'
      · subst page
        have : slot ≠ slot' := fun sameSlot => same (by rw [sameSlot])
        simp [p2l, entries, this]
      · simp [p2l, samePage]
    · simp [p2l, sameBlock]

theorem FlashPage.entry_afterInvalidate (page : FlashPage) (lp : Slot) :
    (page.afterInvalidate lp).entry = Function.update page.entry lp none := by
  funext slot
  by_cases same : slot = lp
  · subst slot
    simp [entry, afterInvalidate, setPgStatus, incNrInvalidLps]
  · simp [entry, afterInvalidate, setPgStatus, incNrInvalidLps, same]

theorem FlashPage.entry_afterFill (page : FlashPage) (lp : Slot) (lpa : ℕ) :
    (page.afterFill lp lpa).entry =
      Function.update page.entry lp (if lpa ≠ pageUnmapped then some lpa else none) := by
  funext slot
  by_cases same : slot = lp
  · subst slot
    by_cases padding : lpa = pageUnmapped <;>
      simp [entry, afterFill, setPgStatus, setMappedLpa, incNrInvalidLps, padding]
  · by_cases padding : lpa = pageUnmapped <;>
      simp [entry, afterFill, setPgStatus, setMappedLpa, incNrInvalidLps, padding, same]

theorem l2p_update (inside : lpa < G.numLogPages) (ppa : ℕ) :
    l2p G (Function.update mappings lpa ppa) =
      Function.update (l2p G mappings) lpa
        (if ppa ≠ pageUnmapped then some (locate ppa) else none) := by
  funext other
  by_cases same : other = lpa
  · subst other
    simp [l2p, inside]
  · simp [l2p, same]

end Pages

namespace MapOk

variable {G : Geometry} {mappings : ℕ → ℕ} {pages : BlockId → ℕ → FlashPage} {lpa : ℕ}
  {l : Location}

theorem mapped (ok : MapOk G mappings pages) (inside : lpa < G.numLogPages)
    (isMapped : mappings lpa ≠ pageUnmapped) :
    ∃ l, G.HasLocation l ∧ mappings lpa = physicalAddress l ∧ l2p G mappings lpa = some l ∧
      (pages l.block l.page).pageStatus l.slot = valid ∧
        (pages l.block l.page).noLogicalPageAddr l.slot = lpa := by
  rcases ok.encoded lpa inside isMapped with ⟨l, exists_, address⟩
  have forward : l2p G mappings lpa = some l := by
    simp [l2p, inside, address, locate_physicalAddress exists_,
      physicalAddress_ne_pageUnmapped exists_]
  exact ⟨l, exists_, address, forward, (p2l_eq_some.mp ((ok.inverse lpa l).mp forward)).2⟩

theorem of_valid (ok : MapOk G mappings pages)
    (isValid : (pages l.block l.page).pageStatus l.slot = valid) :
    (pages l.block l.page).noLogicalPageAddr l.slot < G.numLogPages ∧
      mappings ((pages l.block l.page).noLogicalPageAddr l.slot) = physicalAddress l := by
  have forward := (ok.inverse _ l).mpr (p2l_eq_some.mpr ⟨ok.hasLocation l isValid, isValid, rfl⟩)
  by_cases condition : (pages l.block l.page).noLogicalPageAddr l.slot < G.numLogPages ∧
      mappings ((pages l.block l.page).noLogicalPageAddr l.slot) ≠ pageUnmapped
  · refine ⟨condition.1, ?_⟩
    rcases ok.mapped condition.1 condition.2 with ⟨other, _, address, otherForward, _⟩
    have same : other = l := by simpa [otherForward] using forward
    rw [address, same]
  · simp [l2p, condition] at forward

/-- The table without any entry and pages without any VALID sub-page. -/
theorem unmapped (noMapping : ∀ lpa, mappings lpa = pageUnmapped)
    (noValid : ∀ b pg lp, (pages b pg).pageStatus lp ≠ valid) :
    MapOk G mappings pages where
  inverse := by
    have forward : l2p G mappings = fun _ => none := by
      funext lpa
      simp [l2p, noMapping]
    have backward : p2l G pages = fun _ => none := by
      funext l
      simp [p2l, FlashPage.entry, noValid]
    rw [forward, backward]
    exact .empty
  encoded lpa _ isMapped := absurd (noMapping lpa) isMapped
  hasLocation l isValid := absurd isValid (noValid _ _ _)

/-- Changing one existing page adds no VALID sub-page outside the device. -/
theorem hasLocation_update (ok : MapOk G mappings pages) (exists_ : G.HasLocation l)
    (newPage : FlashPage) (other : Location)
    (isValid : (Function.update pages l.block (Function.update (pages l.block) l.page newPage)
      other.block other.page).pageStatus other.slot = valid) : G.HasLocation other := by
  by_cases samePage : other.block = l.block ∧ other.page = l.page
  · rcases samePage with ⟨sameBlock, samePage⟩
    exact ⟨sameBlock ▸ exists_.1, samePage ▸ exists_.2⟩
  · refine ok.hasLocation other ?_
    by_cases sameBlock : other.block = l.block
    · have different : other.page ≠ l.page := fun same => samePage ⟨sameBlock, same⟩
      rwa [sameBlock, Function.update_self, Function.update_of_ne different, ← sameBlock] at isValid
    · rwa [Function.update_of_ne sameBlock] at isValid

theorem invalidate (ok : MapOk G mappings pages) (inside : lpa < G.numLogPages)
    (exists_ : G.HasLocation l) (forward : l2p G mappings lpa = some l) :
    MapOk G (Function.update mappings lpa pageUnmapped)
      (Function.update pages l.block (Function.update (pages l.block) l.page
        ((pages l.block l.page).afterInvalidate l.slot))) where
  inverse := by
    rw [l2p_update inside, p2l_update exists_ (FlashPage.entry_afterInvalidate _ _)]
    exact ok.inverse.clear forward
  encoded other otherInside otherMapped := by
    have different : other ≠ lpa := fun same => otherMapped (by simp [same])
    rw [Function.update_of_ne different] at otherMapped ⊢
    exact ok.encoded other otherInside otherMapped
  hasLocation := hasLocation_update ok exists_ _

theorem assign (ok : MapOk G mappings pages) (inside : lpa < G.numLogPages)
    (freeLpa : mappings lpa = pageUnmapped) (exists_ : G.HasLocation l)
    (freeSubPage : (pages l.block l.page).pageStatus l.slot ≠ valid) :
    MapOk G (Function.update mappings lpa (physicalAddress l))
      (Function.update pages l.block (Function.update (pages l.block) l.page
        ((pages l.block l.page).afterFill l.slot lpa))) where
  inverse := by
    have real : lpa ≠ pageUnmapped := (inside.trans G.numLogPages_lt).ne
    rw [l2p_update inside, p2l_update exists_ (FlashPage.entry_afterFill _ _ _),
      if_pos real, if_pos (physicalAddress_ne_pageUnmapped exists_),
      locate_physicalAddress exists_]
    exact ok.inverse.assign ((l2p_eq_none inside).mpr freeLpa)
      (by simp [p2l, FlashPage.entry, freeSubPage])
  encoded other otherInside otherMapped := by
    by_cases same : other = lpa
    · exact ⟨l, exists_, by simp [same]⟩
    · rw [Function.update_of_ne same] at otherMapped ⊢
      exact ok.encoded other otherInside otherMapped
  hasLocation := hasLocation_update ok exists_ _

theorem pad (ok : MapOk G mappings pages) (exists_ : G.HasLocation l)
    (freeSubPage : (pages l.block l.page).pageStatus l.slot ≠ valid) :
    MapOk G mappings
      (Function.update pages l.block (Function.update (pages l.block) l.page
        ((pages l.block l.page).afterFill l.slot pageUnmapped))) where
  inverse := by
    have before : p2l G pages l = none := by simp [p2l, FlashPage.entry, freeSubPage]
    rw [p2l_update exists_ (FlashPage.entry_afterFill _ _ _), if_neg (by simp), ← before,
      Function.update_eq_self]
    exact ok.inverse
  encoded := ok.encoded
  hasLocation := hasLocation_update ok exists_ _

/-- Replace the pages of a block without VALID sub-pages by others without any. -/
theorem replace (ok : MapOk G mappings pages) {b : BlockId} {newPages : ℕ → FlashPage}
    (noValid : ∀ pg < G.numPagesPerBlock, ∀ lp, (pages b pg).pageStatus lp ≠ valid)
    (stillNone : ∀ pg lp, (newPages pg).pageStatus lp ≠ valid) :
    MapOk G mappings (Function.update pages b newPages) where
  inverse := by
    have same : p2l G (Function.update pages b newPages) = p2l G pages := by
      funext l
      by_cases inBlock : l.block = b
      · by_cases exists_ : G.HasLocation l
        · simp [p2l, FlashPage.entry, exists_, inBlock, noValid l.page exists_.2,
            stillNone l.page]
        · simp [p2l, exists_]
      · simp [p2l, inBlock]
    rw [same]
    exact ok.inverse
  encoded := ok.encoded
  hasLocation l isValid := by
    by_cases inBlock : l.block = b
    · rw [inBlock, Function.update_self] at isValid
      exact absurd isValid (stillNone _ _)
    · rw [Function.update_of_ne inBlock] at isValid
      exact ok.hasLocation l isValid

/-- No LPA is mapped into a block without VALID sub-pages. -/
theorem not_mapped_into (ok : MapOk G mappings pages) {b : BlockId}
    (noValid : ∀ pg < G.numPagesPerBlock, ∀ lp, (pages b pg).pageStatus lp ≠ valid)
    (forward : l2p G mappings lpa = some l) : l.block ≠ b := by
  rintro rfl
  rcases p2l_eq_some.mp ((ok.inverse lpa l).mp forward) with ⟨exists_, isValid, _⟩
  exact noValid l.page exists_.2 l.slot isValid

end MapOk

end FlashBench
