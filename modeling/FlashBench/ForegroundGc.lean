import Mathlib.Algebra.BigOperators.Group.List.Basic
import FlashBench.Content

/-!
# The foreground garbage collection

`set_vic_blks` picks used blocks, and these have no FREE sub-page. So the sub-pages
that are not INVALID, which the sweep counts, are the VALID ones, which it collects:
one sweep reads them all, and LPAs and data stay aligned. Nothing that the foreground
garbage collection does is visible to the host.
-/

namespace FlashBench

open PgStatus

/-! ### The content of a page -/

section PageContent

variable {G : Geometry} {page : FlashPage} {pages : ℕ → FlashPage}

/-- No sub-page is FREE. -/
def FlashPage.Full (page : FlashPage) : Prop := ∀ lp, page.pageStatus lp ≠ free

instance (page : FlashPage) : Decidable page.Full := inferInstanceAs (Decidable (∀ _, _))

theorem validSlots_length (page : FlashPage) : page.validSlots.length = page.nrSubPages valid := by
  have nodup : page.validSlots.Nodup := (List.nodup_finRange _).filter _
  rw [← List.toFinset_card_of_nodup nodup]
  unfold FlashPage.nrSubPages labelCount
  congr 1
  ext lp
  simp [FlashPage.validSlots]

theorem FlashPage.Full.nrPgsToRead (full : page.Full)
    (counted : page.nrInvalidLogPages = page.nrSubPages invalid) :
    nrLpInPp - page.nrInvalidLogPages = page.validSlots.length := by
  have total := labelCount_add_eq_card Finset.univ page.pageStatus
    (show valid ≠ invalid by simp) fun lp _ => by
      have notFree := full lp
      generalize page.pageStatus lp = status at notFree ⊢
      cases status <;> simp at notFree ⊢
  rw [Finset.card_univ, Fintype.card_fin] at total
  rw [validSlots_length, counted]
  unfold FlashPage.nrSubPages
  omega

theorem nrSubPages_valid_eq_sum (G : Geometry) (pages : ℕ → FlashPage) :
    nrSubPages G pages valid =
      ((List.range G.numPagesPerBlock).map fun pg => (pages pg).validSlots.length).sum := by
  have pagesOf : Finset.range G.numPagesPerBlock = (List.range G.numPagesPerBlock).toFinset := by
    ext pg
    simp
  unfold nrSubPages subPages
  rw [labelCount_product, pagesOf, List.sum_toFinset _ List.nodup_range]
  simp only [validSlots_length]
  rfl

/-- The LPAs and the data of the VALID sub-pages of a page. -/
def Fb.pageContent (fb : Fb) (b : BlockId) (pg : ℕ) : List (ℕ × PageData) :=
  (fb.ssdi.pages b pg).validSlots.map fun lp =>
    ((fb.ssdi.pages b pg).noLogicalPageAddr lp, fb.vdev b pg lp)

theorem flashData_of_mem_pageContent {fb : Fb} {b : BlockId} {pg : ℕ} {pair : ℕ × PageData}
    (inv : Inv G .rest fb) (mem : pair ∈ fb.pageContent b pg) :
    fb.flashData G pair.1 = some pair.2 := by
  simp only [Fb.pageContent, List.mem_map, FlashPage.validSlots, List.mem_filter,
    decide_eq_true_eq] at mem
  rcases mem with ⟨lp, ⟨_, isValid⟩, rfl⟩
  have forward := (inv.mapOk.inverse _ ⟨b, pg, lp⟩).mpr
    (p2l_eq_some.mpr ⟨inv.mapOk.hasLocation ⟨b, pg, lp⟩ isValid, isValid, rfl⟩)
  simp only at forward
  simp [Fb.flashData, forward]

end PageContent

/-! ### Sweeps -/

/-- What a read sweep has read so far. -/
structure Collected (start : Fb) (pairs : List (ℕ × PageData)) (sweep : Fb.Sweep) : Prop where
  sameFlash : SameFlash start sweep.fb
  vicBlks : sweep.fb.gcm.vicBlks = start.gcm.vicBlks
  firstValidPg : sweep.fb.gcm.firstValidPg = start.gcm.firstValidPg
  nrReadPgs : sweep.nrReadPgs = pairs.length
  ptrLpa : sweep.ptrLpa = pairs.length
  ptrData : sweep.ptrData = pairs.length
  lpas : BeginsWith sweep.fb.gcm.lpasToCopy (pairs.map Prod.fst)
  data : BeginsWith sweep.fb.gcm.dataToCopy (pairs.map Prod.snd)

section Sweeps

variable {G : Geometry} {start fb : Fb} {pairs : List (ℕ × PageData)} {sweep : Fb.Sweep}
  {b : BlockId} {c : ChipId} {pg : ℕ}

theorem collected_start (fb : Fb) : Collected fb [] ⟨fb, 0, 0, 0⟩ where
  sameFlash := .refl fb
  vicBlks := rfl
  firstValidPg := rfl
  nrReadPgs := rfl
  ptrLpa := rfl
  ptrData := rfl
  lpas := beginsWith_nil _
  data := beginsWith_nil _

theorem Collected.readVicPage (collected : Collected start pairs sweep)
    (full : (start.ssdi.pages b pg).Full)
    (counted : (start.ssdi.pages b pg).nrInvalidLogPages =
      (start.ssdi.pages b pg).nrSubPages invalid) :
    Collected start (pairs ++ start.pageContent b pg) (Fb.readVicPage b b pg sweep) := by
  have toRead := full.nrPgsToRead counted
  have length : (start.pageContent b pg).length = (start.ssdi.pages b pg).validSlots.length := by
    simp [Fb.pageContent]
  have lpas := collected.lpas.append ((start.pageContent b pg).map Prod.fst)
  have data := collected.data.append ((start.pageContent b pg).map Prod.snd)
  rw [List.length_map, ← List.map_append] at lpas data
  have ssdi := collected.sameFlash.ssdi
  have vdev := collected.sameFlash.vdev
  exact
    { sameFlash := collected.sameFlash.trans ⟨rfl, rfl, rfl⟩
      vicBlks := collected.vicBlks
      firstValidPg := collected.firstValidPg
      nrReadPgs := by
        simp only [Fb.readVicPage, ssdi, collected.nrReadPgs, List.length_append, length, toRead]
      ptrLpa := by
        simp only [Fb.readVicPage, ssdi, collected.ptrLpa, List.length_append, length,
          List.length_map]
      ptrData := by
        simp only [Fb.readVicPage, ssdi, collected.ptrData, List.length_append, length, toRead]
      lpas := by
        simpa [Fb.readVicPage, ssdi, collected.ptrLpa, Fb.pageContent, Function.comp_def] using lpas
      data := by
        simpa [Fb.readVicPage, ssdi, vdev, collected.ptrData, Fb.pageContent, Function.comp_def,
          Fb.vdeviceRead, FlashPage.validSlots] using data }

/-- The victims are used blocks of their chips. -/
def VictimsUsed (G : Geometry) (fb : Fb) : Prop :=
  ∀ c, G.HasChip c → ∀ b, fb.gcm.vicBlks c = some b → b ∈ (fb.ssdi.chips c).usedBlks

/-- The content of one page of the victim of a chip. -/
def Fb.vicContent (fb : Fb) (pg : ℕ) (c : ChipId) : List (ℕ × PageData) :=
  match fb.gcm.vicBlks c with
  | none => []
  | some b => fb.pageContent b pg

/-- The content of all victims, in the order of the sweep. -/
def Fb.victimContent (G : Geometry) (fb : Fb) : List (ℕ × PageData) :=
  (List.range G.numPagesPerBlock).flatMap fun pg => G.chipsByChip.flatMap (fb.vicContent pg)

/-- The VALID sub-pages of the victim of a chip, as its counter shows. -/
def Fb.vicSize (fb : Fb) (c : ChipId) : ℕ :=
  match fb.gcm.vicBlks c with
  | none => 0
  | some b => (fb.ssdi.blocks b).nrValidLogPages

theorem Inv.used_full (inv : Inv G .rest fb) (hasChip : G.HasChip c)
    (used : b ∈ (fb.ssdi.chips c).usedBlks) (pg_lt : pg < G.numPagesPerBlock) :
    b.chip = c ∧ G.HasBlock b ∧ (fb.ssdi.pages b pg).Full := by
  rcases inv.hasBlock_of_mem hasChip .used used with ⟨own, hasBlock⟩
  have noFree : (fb.ssdi.blocks b).nrFreePages = 0 :=
    (inv.chipOk c hasChip).placeOk .used b used
  exact ⟨own, hasBlock, fun lp => (inv.blockOk b hasBlock).status_ne_free (by omega)⟩

theorem Collected.sweepPage (inv : Inv G .rest start) (victims : VictimsUsed G start)
    (hasChip : G.HasChip c) (pg_lt : pg < G.numPagesPerBlock)
    (collected : Collected start pairs sweep) :
    Collected start (pairs ++ start.vicContent pg c) (Fb.sweepPage pg sweep c) := by
  unfold Fb.sweepPage Fb.getVicBlk Fb.vicContent
  rw [collected.vicBlks]
  rcases victim : start.gcm.vicBlks c with _ | b
  · simpa using collected
  rcases inv.used_full hasChip (victims c hasChip b victim) pg_lt with ⟨rfl, hasBlock, full⟩
  have counted := (inv.blockOk b hasBlock).page_invalid pg pg_lt
  simp only [collected.sameFlash.ssdi]
  split_ifs with some_
  · exact collected.readVicPage full counted
  · rw [full.nrPgsToRead counted, not_lt, Nat.le_zero, List.length_eq_zero_iff] at some_
    simpa [Fb.pageContent, some_] using collected

theorem Collected.sweepOnce (inv : Inv G .rest start) (victims : VictimsUsed G start)
    (collected : Collected start pairs sweep) :
    Collected start (pairs ++ start.victimContent G) (Fb.sweepOnce G sweep) := by
  refine foldl_collects (Collected start) _ (fun pg pg_mem sweep pairs collected => ?_) collected
  refine foldl_collects (Collected start) _ (fun c c_mem sweep pairs collected => ?_) collected
  exact collected.sweepPage inv victims (G.mem_chipsByChip.mp c_mem) (List.mem_range.mp pg_mem)

theorem sum_map_sum_comm {Row Column : Type*} (rows : List Row) (columns : List Column)
    (size : Row → Column → ℕ) :
    (rows.map fun row => (columns.map (size row)).sum).sum =
      (columns.map fun column => (rows.map (size · column)).sum).sum := by
  induction rows with
  | nil => simp
  | cons row rows ih => simp [ih, List.sum_map_add]

theorem chipsByChip_perm (G : Geometry) : G.chipsByChip.Perm G.chipsByBus :=
  (List.perm_ext_iff_of_nodup G.nodup_chipsByChip G.nodup_chipsByBus).mpr fun c => by simp

theorem length_victimContent (inv : Inv G .rest fb) (victims : VictimsUsed G fb) :
    (fb.victimContent G).length = (G.chipsByBus.map fb.vicSize).sum := by
  have size (c : ChipId) (hasChip : G.HasChip c) :
      ((List.range G.numPagesPerBlock).map fun pg => (fb.vicContent pg c).length).sum =
        fb.vicSize c := by
    unfold Fb.vicContent Fb.vicSize
    rcases victim : fb.gcm.vicBlks c with _ | b
    · simp
    · have hasBlock := (inv.hasBlock_of_mem hasChip .used (victims c hasChip b victim)).2
      simp only
      rw [(inv.blockOk b hasBlock).nrValidLogPages_eq, nrSubPages_valid_eq_sum]
      simp [Fb.pageContent]
  unfold Fb.victimContent
  simp only [List.length_flatMap]
  rw [sum_map_sum_comm, ((chipsByChip_perm G).map _).sum_eq]
  congr 1
  exact List.map_congr_left fun c mem => size c (G.mem_chipsByBus.mp mem)

theorem flashData_of_mem_victimContent (inv : Inv G .rest fb) {pair : ℕ × PageData}
    (mem : pair ∈ fb.victimContent G) : fb.flashData G pair.1 = some pair.2 := by
  simp only [Fb.victimContent, Fb.vicContent, List.mem_flatMap] at mem
  rcases mem with ⟨pg, _, c, _, mem⟩
  split at mem
  · simp at mem
  · exact flashData_of_mem_pageContent inv mem

theorem sweepOnce_nrPgsToCopy (sweep : Fb.Sweep) :
    (Fb.sweepOnce G sweep).fb.gcm.nrPgsToCopy = sweep.fb.gcm.nrPgsToCopy := by
  refine foldl_preserves (fun after : Fb.Sweep =>
    after.fb.gcm.nrPgsToCopy = sweep.fb.gcm.nrPgsToCopy) (fun pg _ middle same => ?_) rfl
  refine foldl_preserves (fun after : Fb.Sweep =>
    after.fb.gcm.nrPgsToCopy = sweep.fb.gcm.nrPgsToCopy) (fun c _ inner same => ?_) same
  rw [← same]
  unfold Fb.sweepPage
  split
  · rfl
  · split_ifs <;> rfl

theorem ScratchOnly.sweepOnce (sweep : Fb.Sweep) :
    ScratchOnly sweep.fb (Fb.sweepOnce G sweep).fb := by
  refine foldl_preserves (fun after : Fb.Sweep => ScratchOnly sweep.fb after.fb)
    (fun pg _ middle same => ?_) (.refl _)
  refine foldl_preserves (fun after : Fb.Sweep => ScratchOnly sweep.fb after.fb)
    (fun c _ inner same => ?_) same
  unfold Fb.sweepPage
  split
  · exact same
  · split_ifs
    · exact same.trans ⟨rfl, rfl⟩
    · exact same

theorem ScratchOnly.sweepLoop (sweep : Fb.Sweep) (passes : ℕ) :
    ScratchOnly sweep.fb (Fb.sweepLoop G passes sweep).2.fb := by
  induction passes generalizing sweep with
  | zero =>
      unfold Fb.sweepLoop
      split_ifs <;> exact .refl _
  | succ passes ih =>
      unfold Fb.sweepLoop
      split_ifs
      · exact (ScratchOnly.sweepOnce sweep).trans (ih _)
      · exact .refl _

theorem ScratchOnly.getValidPgsInVicBlks (fb : Fb) :
    ScratchOnly fb (fb.getValidPgsInVicBlks G).2 :=
  ScratchOnly.sweepLoop ⟨fb, 0, 0, 0⟩ _

/-- What a read loop leaves behind: the pairs it read are ready to be programmed. -/
structure CopiesRead (start fb : Fb) (pairs : List (ℕ × PageData)) : Prop where
  sameFlash : SameFlash start fb
  nrPgsToCopy : fb.gcm.nrPgsToCopy = pairs.length
  lpas : BeginsWith fb.gcm.lpasToCopy (pairs.map Prod.fst)
  data : BeginsWith fb.gcm.dataToCopy (pairs.map Prod.snd)

theorem CopiesRead.get (read : CopiesRead start fb pairs) {i : ℕ}
    (inside : i < fb.gcm.nrPgsToCopy) :
    (fb.gcm.lpasToCopy i, fb.gcm.dataToCopy i) ∈ pairs := by
  rw [read.nrPgsToCopy] at inside
  rw [read.lpas i (by simpa using inside), read.data i (by simpa using inside)]
  simp

theorem CopiesRead.exists_of_mem (read : CopiesRead start fb pairs) {pair : ℕ × PageData}
    (mem : pair ∈ pairs) : ∃ i < fb.gcm.nrPgsToCopy, fb.gcm.lpasToCopy i = pair.1 := by
  rcases List.mem_iff_getElem.mp mem with ⟨i, i_lt, pair_eq⟩
  refine ⟨i, by rw [read.nrPgsToCopy]; exact i_lt, ?_⟩
  rw [read.lpas i (by simpa using i_lt), List.getElem_map, pair_eq]

theorem CopiesRead.copiesMatch (read : CopiesRead start fb pairs)
    (stored : ∀ pair ∈ pairs, start.flashData G pair.1 = some pair.2) : CopiesMatch G fb := by
  intro i inside
  rw [read.sameFlash.flashData_eq]
  exact stored _ (read.get inside)

/-- When the victims are used blocks and `nr_pgs_to_copy` is what they hold, the sweep ends
after at most one pass. -/
theorem getValidPgsInVicBlks_spec (inv : Inv G .rest fb) (victims : VictimsUsed G fb)
    (total : fb.gcm.nrPgsToCopy = (G.chipsByBus.map fb.vicSize).sum) :
    (fb.getValidPgsInVicBlks G).1 = .ok ∧
      CopiesRead fb (fb.getValidPgsInVicBlks G).2 (fb.victimContent G) := by
  rw [← length_victimContent inv victims] at total
  have pass := (collected_start fb).sweepOnce inv victims
  have unchanged : (Fb.sweepOnce G ⟨fb, 0, 0, 0⟩).fb.gcm.nrPgsToCopy = fb.gcm.nrPgsToCopy :=
    sweepOnce_nrPgsToCopy ⟨fb, 0, 0, 0⟩
  rw [List.nil_append] at pass
  unfold Fb.getValidPgsInVicBlks
  rcases toCopy : fb.gcm.nrPgsToCopy with _ | passes
  · have empty : fb.victimContent G = [] := List.length_eq_zero_iff.mp (by omega)
    simp only [Fb.sweepLoop, toCopy, lt_irrefl, if_false, true_and]
    exact ⟨.refl fb, by rw [toCopy, empty]; rfl, by rw [empty]; exact beginsWith_nil _,
      by rw [empty]; exact beginsWith_nil _⟩
  · have ended (passes : ℕ) : Fb.sweepLoop G passes (Fb.sweepOnce G ⟨fb, 0, 0, 0⟩) =
        (.ok, Fb.sweepOnce G ⟨fb, 0, 0, 0⟩) := by
      have done : ¬(Fb.sweepOnce G ⟨fb, 0, 0, 0⟩).nrReadPgs <
          (Fb.sweepOnce G ⟨fb, 0, 0, 0⟩).fb.gcm.nrPgsToCopy := by
        rw [pass.nrReadPgs, unchanged]
        omega
      rcases passes with _ | passes <;> simp only [Fb.sweepLoop, done, if_false]
    have begun : 0 < fb.gcm.nrPgsToCopy := by omega
    simp only [Fb.sweepLoop, begun, if_true, ended, true_and]
    exact ⟨pass.sameFlash, unchanged.trans total, pass.lpas, pass.data⟩

end Sweeps

/-! ### The choice of victims -/

section Victims

variable {G : Geometry} {start fb : Fb} {b : BlockId} {c : ChipId}

theorem mem_of_mostInvalidBlk {blks : List BlockId} {best : Option BlockId} {most : ℕ}
    (found : fb.mostInvalidBlk blks best most = some b) : b ∈ blks ∨ best = some b := by
  induction blks generalizing best most with
  | nil => exact Or.inr found
  | cons blki rest ih =>
      simp only [Fb.mostInvalidBlk] at found
      split_ifs at found
      · rcases ih found with inRest | same
        · exact Or.inl (by simp [inRest])
        · simp only [Option.some.injEq] at same
          exact Or.inl (by simp [same])
      · rcases ih found with inRest | same
        · exact Or.inl (by simp [inRest])
        · exact Or.inr same

theorem mostInvalidBlk_congr {other : Fb} {blks : List BlockId}
    (same : ∀ b ∈ blks, other.ssdi.blocks b = fb.ssdi.blocks b) (best : Option BlockId) (most : ℕ) :
    other.mostInvalidBlk blks best most = fb.mostInvalidBlk blks best most := by
  induction blks generalizing best most with
  | nil => rfl
  | cons blki blks ih =>
      have others := ih fun b mem => same b (by simp [mem])
      simp only [Fb.mostInvalidBlk, same blki (by simp), others]

/-- A victim of the greedy choice that holds VALID sub-pages is a used block. -/
theorem selectVicBlkGreedy_used (inv : Inv G .rest fb) (hasChip : G.HasChip c)
    (found : fb.selectVicBlkGreedy c = some b)
    (holds : (fb.ssdi.blocks b).nrValidLogPages ≠ 0) : b ∈ (fb.ssdi.chips c).usedBlks := by
  unfold Fb.selectVicBlkGreedy at found
  rcases head : fb.getDirtBlock c with _ | dirt
  · rw [head] at found
    simpa using mem_of_mostInvalidBlk found
  · rw [head] at found
    simp only [Option.some.injEq] at found
    subst found
    have isDirt := (inv.chipOk c hasChip).placeOk .dirt dirt (mem_of_head?_eq head)
    exact absurd isDirt.2 holds

/-- What one iteration of `set_vic_blks` does when it succeeds: it chooses the victim of the
chip and counts its VALID sub-pages. -/
theorem setVicBlkOf_ok (inv : Inv G .rest fb) (hasChip : G.HasChip c)
    (ok : (fb.setVicBlkOf G c).1 = .ok) :
    ScratchOnly fb (fb.setVicBlkOf G c).2 ∧
      (∀ other ≠ c, (fb.setVicBlkOf G c).2.gcm.vicBlks other = fb.gcm.vicBlks other) ∧
      (∀ b, (fb.setVicBlkOf G c).2.gcm.vicBlks c = some b → b ∈ (fb.ssdi.chips c).usedBlks) ∧
      (fb.setVicBlkOf G c).2.gcm.nrPgsToCopy =
        fb.gcm.nrPgsToCopy + (fb.setVicBlkOf G c).2.vicSize c := by
  unfold Fb.setVicBlkOf at ok ⊢
  split_ifs at ok ⊢
  · refine ⟨⟨rfl, rfl⟩, fun other different => ?_, ?_, ?_⟩
    · simp [Fb.setVicBlk, different]
    · simp [Fb.setVicBlk]
    · simp [Fb.setVicBlk, Fb.vicSize]
  · rcases found : fb.selectVicBlkGreedy c with _ | b
    · simp [found] at ok
    · simp only
      split_ifs with empty
      · refine ⟨⟨rfl, rfl⟩, fun other different => ?_, ?_, ?_⟩
        · simp [Fb.setVicBlk, different]
        · simp [Fb.setVicBlk]
        · simp [Fb.setVicBlk, Fb.vicSize]
      · refine ⟨⟨rfl, rfl⟩, fun other different => ?_, fun victim chosen => ?_, ?_⟩
        · simp [Fb.setVicBlk, Fb.setFirstValidPg, different]
        · have same : b = victim := by simpa [Fb.setVicBlk, Fb.setFirstValidPg] using chosen
          rw [← same]
          exact selectVicBlkGreedy_used inv hasChip found empty
        · simp [Fb.setVicBlk, Fb.setFirstValidPg, Fb.vicSize]

/-- The chips that `set_vic_blks` has passed have their victims. -/
structure VictimsPicked (start fb : Fb) (passed : List ChipId) : Prop where
  scratchOnly : ScratchOnly start fb
  used : ∀ c ∈ passed, ∀ b, fb.gcm.vicBlks c = some b → b ∈ (fb.ssdi.chips c).usedBlks
  nrPgsToCopy : fb.gcm.nrPgsToCopy = (passed.map fb.vicSize).sum

theorem VictimsPicked.next {passed : List ChipId} (picked : VictimsPicked start fb passed)
    (inv : Inv G .rest fb) (hasChip : G.HasChip c) (new : c ∉ passed)
    (ok : (fb.setVicBlkOf G c).1 = .ok) :
    VictimsPicked start (fb.setVicBlkOf G c).2 (passed ++ [c]) := by
  rcases setVicBlkOf_ok inv hasChip ok with ⟨scratch, others, chosen, count⟩
  have ssdi := scratch.ssdi
  have sizes : passed.map (fb.setVicBlkOf G c).2.vicSize = passed.map fb.vicSize := by
    refine List.map_congr_left fun other mem => ?_
    have different : other ≠ c := by
      rintro rfl
      exact new mem
    unfold Fb.vicSize
    rw [others other different, ssdi]
  refine ⟨picked.scratchOnly.trans scratch, fun other mem b victim => ?_, ?_⟩
  · rw [ssdi]
    by_cases same : other = c
    · subst other
      exact chosen b victim
    · rw [others other same] at victim
      exact picked.used other (by simpa [same] using mem) b victim
  · rw [count, picked.nrPgsToCopy, List.map_append, List.sum_append, sizes]
    simp

theorem ScratchOnly.setVicBlkOf (fb : Fb) (c : ChipId) :
    ScratchOnly fb (fb.setVicBlkOf G c).2 := by
  unfold Fb.setVicBlkOf
  split_ifs
  · exact ⟨rfl, rfl⟩
  · rcases fb.selectVicBlkGreedy c with _ | b
    · exact refl fb
    · simp only
      split_ifs <;> exact ⟨rfl, rfl⟩

theorem ScratchOnly.setVicBlks (fb : Fb) : ScratchOnly fb (fb.setVicBlks G).2 :=
  forEach_preserves (ScratchOnly fb) (fun c _ other same => same.trans (setVicBlkOf other c))
    (refl fb)

theorem setVicBlks_ok (inv : Inv G .rest fb) (zero : fb.gcm.nrPgsToCopy = 0) :
    (fb.setVicBlks G).1 = .ok → VictimsPicked fb (fb.setVicBlks G).2 G.chipsByBus := by
  refine forEach_rule
    (fun rest other => Inv G .rest other ∧
      ∃ passed, passed ++ rest = G.chipsByBus ∧ VictimsPicked fb other passed)
    (fun result => result.1 = .ok → VictimsPicked fb result.2 G.chipsByBus)
    (fun c rest other => ?_) (fun other => ?_) ⟨inv, [], rfl, .refl fb, by simp, by simp [zero]⟩
  · rintro ⟨otherInv, passed, all, picked⟩
    have nodup := G.nodup_chipsByBus
    rw [← all, List.nodup_append] at nodup
    have hasChip : G.HasChip c := G.mem_chipsByBus.mp (by simp [← all])
    have new : c ∉ passed := fun mem => nodup.2.2 c mem c (by simp) rfl
    exact ⟨fun ok => ⟨otherInv.setVicBlkOf, passed ++ [c], by simp [all],
      picked.next otherInv hasChip new ok⟩, fun notOk ok => absurd ok notOk⟩
  · rintro ⟨_, passed, all, picked⟩ _
    rw [List.append_nil] at all
    rwa [all] at picked

theorem VictimsPicked.victimsUsed (picked : VictimsPicked start fb G.chipsByBus) :
    VictimsUsed G fb :=
  fun c hasChip b victim => picked.used c (G.mem_chipsByBus.mpr hasChip) b victim

end Victims

/-! ### The whole collection -/

section Collection

variable {G : Geometry} {fb : Fb}

theorem prepareActBlks_nrPgsToCopy (fb : Fb) :
    (fb.prepareActBlks G).2.gcm.nrPgsToCopy = fb.gcm.nrPgsToCopy := by
  refine forEach_preserves (fun other : Fb => other.gcm.nrPgsToCopy = fb.gcm.nrPgsToCopy)
    (fun c _ other same => ?_) rfl
  rw [← same]
  unfold Fb.prepareActBlk
  split
  · rfl
  · split <;> rfl

theorem prepareActBlks_ne_hang (fb : Fb) : (fb.prepareActBlks G).1 ≠ .hang :=
  forEach_ne_hang fun c other => by
    unfold Fb.prepareActBlk
    split
    · simp
    · split <;> simp

theorem setVicBlks_ne_hang (fb : Fb) : (fb.setVicBlks G).1 ≠ .hang :=
  forEach_ne_hang fun c other => by
    unfold Fb.setVicBlkOf
    split_ifs
    · simp
    · rcases other.selectVicBlkGreedy c with _ | b
      · simp
      · simp only
        split_ifs <;> simp

theorem progValidPgsToGcBlks_ne_hang (fb : Fb) : (fb.progValidPgsToGcBlks G).1 ≠ .hang :=
  forEach_ne_hang fun ptr other => by
    rcases alloc : other.allocNewPage G (other.getNextBusChip G) with ⟨_ | ⟨blk, pg⟩, opened⟩
    · simp [Fb.progPage_of_none alloc]
    · simp [Fb.progPage_of_some alloc]

theorem updateGcBlks_ne_hang (fb : Fb) : (fb.updateGcBlks G).1 ≠ .hang :=
  forEach_ne_hang fun c other => by
    unfold Fb.updateGcBlk
    split
    · simp
    · split
      · split_ifs <;> simp
      · simp

/-- `trigger_gc_page_mapping` returns, and it changes nothing for the host, whether it succeeds
or fails. -/
theorem flashData_triggerGcPageMapping (inv : Inv G .rest fb) :
    (fb.triggerGcPageMapping G).1 ≠ .hang ∧
      (fb.triggerGcPageMapping G).2.flashData G = fb.flashData G := by
  have zero : (fb.initGcm.prepareActBlks G).2.gcm.nrPgsToCopy = 0 := prepareActBlks_nrPgsToCopy _
  have prepared := flashData_prepareActBlks inv.initGcm
  rw [(ScratchOnly.initGcm fb).flashData_eq] at prepared
  refine andThen_rule (fun result => result.1 ≠ .hang ∧ result.2.flashData G = fb.flashData G)
    (fun _ => ⟨prepareActBlks_ne_hang _, prepared⟩) fun _ => ?_
  have preparedInv := inv.initGcm.prepareActBlks
  rw [← prepared]
  generalize (fb.initGcm.prepareActBlks G).2 = fb at preparedInv zero ⊢
  have picked := (ScratchOnly.setVicBlks (G := G) fb).flashData_eq (G := G)
  refine andThen_rule (fun result => result.1 ≠ .hang ∧ result.2.flashData G = fb.flashData G)
    (fun _ => ⟨setVicBlks_ne_hang fb, picked⟩) fun ok => ?_
  have victims := setVicBlks_ok preparedInv zero ok
  have pickedInv := preparedInv.setVicBlks
  rw [← picked]
  generalize (fb.setVicBlks G).2 = fb at pickedInv victims ⊢
  rcases getValidPgsInVicBlks_spec pickedInv victims.victimsUsed victims.nrPgsToCopy with
    ⟨readOk, read⟩
  have readInv := pickedInv.getValidPgsInVicBlks
  have copies := read.copiesMatch fun pair mem => flashData_of_mem_victimContent pickedInv mem
  rw [andThen_of_ok readOk, ← read.sameFlash.flashData_eq]
  generalize (fb.getValidPgsInVicBlks G).2 = fb at readInv copies ⊢
  have copying := Copying.progValidPgsToGcBlks readInv copies
  refine andThen_rule (fun result => result.1 ≠ .hang ∧ result.2.flashData G = fb.flashData G)
    (fun _ => ⟨progValidPgsToGcBlks_ne_hang fb, copying.flashData_eq⟩) fun _ => ?_
  exact ⟨updateGcBlks_ne_hang _,
    (flashData_updateGcBlks copying.inv).trans copying.flashData_eq⟩

end Collection

/-! ### Host writes -/

section HostWrites

variable {G : Geometry} {fb other : Fb} {lpas : Slot → ℕ} {src : Slot → PageData}

theorem isFgcNeeded_eq_false {c : ChipId}
    (notNeeded : (fb.gcm.gcBlks c).isSome ∨ (fb.getFreeBlock c).isSome) :
    fb.isFgcNeeded G c = false := by
  have test : ((fb.getCurrGcBlock c).isNone && (fb.getFreeBlock c).isNone) = false := by
    unfold Fb.getCurrGcBlock
    rcases notNeeded with reserved | free
    · simp [Option.isNone_eq_false_iff.mpr reserved]
    · simp [Option.isNone_eq_false_iff.mpr free]
  simp [Fb.isFgcNeeded, test]

/-- A host write stores its pairs when it succeeds, and nothing when it fails. -/
structure WriteOutcome (G : Geometry) (fb : Fb) (lpas : Slot → ℕ) (src : Slot → PageData)
    (result : Ret × Fb) : Prop where
  returns : result.1 ≠ .hang
  flashData_eq : result.2.flashData G =
    if result.1 = .ok then (fb.flashData G).write (pagePairs (List.finRange nrLpInPp) lpas src)
    else fb.flashData G

theorem WriteOutcome.congr {result : Ret × Fb} (outcome : WriteOutcome G other lpas src result)
    (content : other.flashData G = fb.flashData G) : WriteOutcome G fb lpas src result :=
  ⟨outcome.returns, by rw [outcome.flashData_eq, content]⟩

theorem writeOutcome_of_alloc (inv : Inv G .rest fb) {blk pg : ℕ}
    (alloc : fb.allocNewPage G (fb.getNextBusChip G) = (some (blk, pg), other))
    (lpasOk : ∀ lp, LpaOk G (lpas lp)) :
    WriteOutcome G fb lpas src
      (.ok, other.programPage G (fb.getNextBusChip G) blk pg lpas src) := by
  have hasChip := hasChip_getNextBusChip inv.mruOk
  rcases inv.allocNewPage_of_some hasChip alloc with ⟨next, active, pg_eq⟩
  have opened := flashData_allocNewPage (G := G) fb (fb.getNextBusChip G)
  rw [alloc] at opened
  exact ⟨by simp, by rw [flashData_programPage next hasChip active pg_eq lpasOk src, opened]; simp⟩

theorem writeOutcome_allocOrFail (inv : Inv G .rest fb) (lpasOk : ∀ lp, LpaOk G (lpas lp)) :
    WriteOutcome G fb lpas src (fb.allocOrFail G lpas src) := by
  rcases alloc : fb.allocNewPage G (fb.getNextBusChip G) with ⟨_ | ⟨blk, pg⟩, other⟩
  · have same := (Inv.allocNewPage_of_none alloc).1
    exact ⟨by simp [Fb.allocOrFail, alloc], by simp [Fb.allocOrFail, alloc, same]⟩
  · simpa [Fb.allocOrFail, alloc] using writeOutcome_of_alloc inv alloc lpasOk

theorem writeOutcome_afterGc (inv : Inv G .rest fb) {next : Fb → Ret × Fb}
    (written : ∀ fb, Inv G .rest fb → WriteOutcome G fb lpas src (next fb)) :
    WriteOutcome G fb lpas src (andThen (fb.triggerGcPageMapping G) next) := by
  rcases flashData_triggerGcPageMapping inv with ⟨returns, content⟩
  exact andThen_rule _ (fun notOk => ⟨returns, by rw [if_neg notOk, content]⟩)
    fun _ => (written _ inv.triggerGcPageMapping).congr content

theorem writeOutcome_allocAndProgram (inv : Inv G .rest fb) (lpasOk : ∀ lp, LpaOk G (lpas lp)) :
    WriteOutcome G fb lpas src (fb.allocAndProgram G lpas src) := by
  rcases alloc : fb.allocNewPage G (fb.getNextBusChip G) with ⟨_ | ⟨blk, pg⟩, other⟩
  · have same := (Inv.allocNewPage_of_none alloc).1
    simpa [Fb.allocAndProgram, alloc, same] using
      writeOutcome_afterGc inv fun fb inv => writeOutcome_allocOrFail inv lpasOk
  · simpa [Fb.allocAndProgram, alloc] using writeOutcome_of_alloc inv alloc lpasOk

/-- `make_write_request_page_mapping` returns, and it stores its pairs or fails without effect
on the content. -/
theorem writeOutcome_makeWriteRequest (src : Slot → PageData) (inv : Inv G .rest fb)
    (lpasOk : ∀ lp, LpaOk G (lpas lp)) :
    WriteOutcome G fb lpas src (fb.makeWriteRequest G lpas src) := by
  unfold Fb.makeWriteRequest
  split_ifs
  · exact writeOutcome_afterGc inv fun fb inv => writeOutcome_allocAndProgram inv lpasOk
  · exact writeOutcome_allocAndProgram inv lpasOk

end HostWrites

end FlashBench
