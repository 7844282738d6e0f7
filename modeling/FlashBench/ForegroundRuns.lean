import FlashBench.BlockLife

/-!
# Runs without background garbage collection

On the foreground path every command programs pages whose first sub-page carries an
LPA. So no page is lost there: all counters are exact, and a block whose last VALID
sub-page dies is in the GC slot or in the dirt list of its chip from then on.
-/

namespace FlashBench

open PgStatus

/-- Everything but background garbage collection is allowed. -/
def Foreground (_ : Fb) (command : Command) : Prop := command ≠ .backgroundGc

instance (fb : Fb) (command : Command) : Decidable (Foreground fb command) :=
  match command with
  | .write _ _ => isTrue (by simp [Foreground])
  | .invalidate _ => isTrue (by simp [Foreground])
  | .foregroundGc => isTrue (by simp [Foreground])
  | .backgroundGc => isFalse (by simp [Foreground])

/-- The pages counted by `nr_valid_pages`: programmed, and with a sub-page that is not INVALID. -/
def nrLivePages (G : Geometry) (block : FlashBlock) (pages : ℕ → FlashPage) : ℕ :=
  labelCount (Finset.range (G.numPagesPerBlock - block.nrFreePages))
    (fun pg => decide (pages pg).Dead) false

/-- The counters of a block and of its pages are what they count. -/
structure CountersExact (G : Geometry) (block : FlashBlock) (pages : ℕ → FlashPage) : Prop where
  page_invalid : ∀ pg < G.numPagesPerBlock,
    (pages pg).nrInvalidLogPages = (pages pg).nrSubPages invalid
  nrValidLogPages_eq : block.nrValidLogPages = nrSubPages G pages valid
  nrInvalidLogPages_eq : block.nrInvalidLogPages = nrSubPages G pages invalid
  programmed : ∀ pg < G.numPagesPerBlock - block.nrFreePages, ∀ lp,
    (pages pg).pageStatus lp ≠ free
  notProgrammed : ∀ pg < G.numPagesPerBlock, G.numPagesPerBlock - block.nrFreePages ≤ pg →
    ∀ lp, (pages pg).pageStatus lp = free
  nrInvalidPages_eq : block.nrInvalidPages = nrDeadPages G pages
  nrValidPages_eq : block.nrValidPages = nrLivePages G block pages
  /-- A counter that had been decremented at 0 would be far above these bounds. -/
  noUnderflow : block.nrFreePages ≤ G.numPagesPerBlock ∧
    block.nrValidPages + block.nrInvalidPages ≤ G.numPagesPerBlock ∧
    block.nrValidLogPages + block.nrInvalidLogPages ≤ G.numPagesPerBlock * nrLpInPp

section Counters

variable {G : Geometry} {garbage : Garbage} {fb : Fb} {c : ChipId} {b : BlockId}
  {block : FlashBlock} {pages : ℕ → FlashPage}

theorem nrLivePages_add_nrDeadPages (ok : BlockOk G 0 block pages) :
    nrLivePages G block pages + nrDeadPages G pages = G.numPagesPerBlock - block.nrFreePages := by
  have dead : nrDeadPages G pages = labelCount
      (Finset.range (G.numPagesPerBlock - block.nrFreePages)) (fun pg => decide (pages pg).Dead)
      true := by
    unfold nrDeadPages labelCount
    congr 1
    ext pg
    simp only [Finset.mem_filter, Finset.mem_range, decide_eq_true_eq]
    constructor
    · rintro ⟨pg_lt, isDead⟩
      exact ⟨ok.lt_of_dead (by omega) pg_lt isDead, isDead⟩
    · rintro ⟨pg_lt, isDead⟩
      exact ⟨by omega, isDead⟩
  rw [dead, nrLivePages, labelCount_add_eq_card _ _ (by simp) fun pg _ => ?_, Finset.card_range]
  by_cases isDead : (pages pg).Dead <;> simp [isDead]

theorem nrSubPages_valid_add_invalid_le (G : Geometry) (pages : ℕ → FlashPage) :
    nrSubPages G pages valid + nrSubPages G pages invalid ≤ G.numPagesPerBlock * nrLpInPp := by
  have whole : (subPages G).card = G.numPagesPerBlock * nrLpInPp := by
    simp [subPages]
  rw [← whole, nrSubPages, nrSubPages, labelCount, labelCount, ← Finset.card_union_of_disjoint]
  · exact Finset.card_le_card (Finset.union_subset (Finset.filter_subset _ _)
      (Finset.filter_subset _ _))
  · apply Finset.disjoint_filter.mpr
    intro subPage _ isValid
    simp [isValid]

theorem CountersExact.of_blockOk (ok : BlockOk G 0 block pages)
    (exact_ : BlockExact G block pages) : CountersExact G block pages where
  page_invalid := ok.page_invalid
  nrValidLogPages_eq := ok.nrValidLogPages_eq
  nrInvalidLogPages_eq := ok.nrInvalidLogPages_eq
  programmed pg pg_lt lp := ok.status_ne_free pg_lt
  notProgrammed pg pg_lt behind lp := (ok.status_free pg pg_lt lp).mpr (by omega)
  nrInvalidPages_eq := exact_
  nrValidPages_eq := by
    have total := nrLivePages_add_nrDeadPages ok
    have programmed := ok.programmed_eq
    rw [exact_] at programmed
    omega
  noUnderflow := by
    refine ⟨ok.nrFreePages_le, ?_, ?_⟩
    · rw [ok.programmed_eq]
      omega
    · rw [ok.nrValidLogPages_eq, ok.nrInvalidLogPages_eq]
      exact nrSubPages_valid_add_invalid_le G pages

/-- No page is lost on the foreground path. -/
theorem Run.life (run : Run G garbage Foreground fb) : Life G fb := by
  induction run with
  | create created => exact .of_created (Created.of_create created)
  | exec run command inRange isAllowed ih =>
      have inv := run.reachable.inv
      cases command with
      | write lpas src => exact ih.makeWriteRequest inv inRange
      | invalidate lpas => exact ih.delInvalidatePgs inv inRange
      | foregroundGc => exact ih.triggerGcPageMapping inv
      | backgroundGc => exact absurd rfl isAllowed

/-- On the foreground path all counters of all blocks are exact, used blocks hold a sub-page
that is not INVALID, and every block that holds none has been reclaimed. -/
theorem countersExact_of_run (run : Run G garbage Foreground fb) :
    (∀ b, G.HasBlock b → CountersExact G (fb.ssdi.blocks b) (fb.ssdi.pages b)) ∧
    (∀ c, G.HasChip c → ∀ b ∈ (fb.ssdi.chips c).usedBlks,
      ∃ pg < G.numPagesPerBlock, ∃ lp, (fb.ssdi.pages b pg).pageStatus lp ≠ invalid) ∧
    ∀ b, G.HasBlock b → (∀ pg < G.numPagesPerBlock, (fb.ssdi.pages b pg).Dead) →
      fb.gcm.gcBlks b.chip = some b ∨ b ∈ (fb.ssdi.chips b.chip).dirtBlks := by
  have inv := run.reachable.inv
  have life := run.life
  refine ⟨fun b hasBlock => ?_, fun c hasChip b used => ?_, fun b hasBlock dead => ?_⟩
  · exact .of_blockOk (inv.blockOk b hasBlock) (life.exact_ b hasBlock)
  · have hasBlock := (inv.hasBlock_of_mem hasChip .used used).2
    rcases life.exists_alive hasChip hasBlock used with ⟨pg, pg_lt, alive⟩
    unfold FlashPage.Dead at alive
    push Not at alive
    exact ⟨pg, pg_lt, alive⟩
  · exact life.reclaimed inv hasBlock dead

/-- The counters after a collection: two sub-pages of block 2 have been overwritten, and block 1
has been erased and filled again. -/
theorem countersExact_collectedFb :
    (collectedFb.ssdi.blocks
      ⟨⟨0, 0⟩, 2⟩).nrInvalidLogPages = 2 ∧
    CountersExact .threeBlocks (collectedFb.ssdi.blocks ⟨⟨0, 0⟩, 2⟩)
      (collectedFb.ssdi.pages ⟨⟨0, 0⟩, 2⟩) ∧
    CountersExact .threeBlocks (collectedFb.ssdi.blocks ⟨⟨0, 0⟩, 1⟩)
      (collectedFb.ssdi.pages ⟨⟨0, 0⟩, 1⟩) := by
  have run : Run .threeBlocks .zeroed Foreground collectedFb := by
    unfold collectedFb
    apply (Run.create threeBlocksFb_created).execAll
    decide
  have exact_ := (countersExact_of_run run).1
  exact ⟨by decide +kernel, exact_ ⟨⟨0, 0⟩, 2⟩ (by decide), exact_ ⟨⟨0, 0⟩, 1⟩ (by decide)⟩

end Counters

end FlashBench
