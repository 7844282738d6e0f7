import FlashBench.Evacuation
import FlashBench.Striping

/-!
# The pages left on a chip

The pages that can be programmed on a chip before something is erased there: those of
its free blocks and the rest of its active block. A page program takes one of them on
its own chip and none on any other.
-/

namespace FlashBench

/-- The pages that can be programmed on a chip before a block is erased. -/
def Fb.pagesLeft (G : Geometry) (fb : Fb) (c : ChipId) : ℕ :=
  G.numPagesPerBlock * (fb.ssdi.chips c).freeBlks.length +
    match fb.abm.actBlks c with
    | none => 0
    | some b => (fb.ssdi.blocks b).nrFreePages

section PagesLeft

variable {G : Geometry} {fb other : Fb} {b : BlockId} {c : ChipId} {blk pg : ℕ}

theorem pagesLeft_of_idle (idle : fb.abm.actBlks c = none) :
    fb.pagesLeft G c = G.numPagesPerBlock * (fb.ssdi.chips c).freeBlks.length := by
  simp [Fb.pagesLeft, idle]

theorem pagesLeft_of_active (active : fb.abm.actBlks c = some b) :
    fb.pagesLeft G c = G.numPagesPerBlock * (fb.ssdi.chips c).freeBlks.length +
      (fb.ssdi.blocks b).nrFreePages := by
  simp [Fb.pagesLeft, active]

theorem pagesLeft_congr (actBlks : other.abm.actBlks c = fb.abm.actBlks c)
    (freeBlks : (other.ssdi.chips c).freeBlks = (fb.ssdi.chips c).freeBlks)
    (nrFreePages : ∀ b, fb.abm.actBlks c = some b →
      (other.ssdi.blocks b).nrFreePages = (fb.ssdi.blocks b).nrFreePages) :
    other.pagesLeft G c = fb.pagesLeft G c := by
  rcases active : fb.abm.actBlks c with _ | b
  · rw [pagesLeft_of_idle active, pagesLeft_of_idle (actBlks.trans active), freeBlks]
  · rw [pagesLeft_of_active active, pagesLeft_of_active (actBlks.trans active), freeBlks,
      nrFreePages b active]

/-- A chip whose free blocks do not lie idle has pages left as long as it has an active block. -/
theorem Life.pagesLeft_pos_iff (life : Life G fb) (inv : Inv G .rest fb) (hasChip : G.HasChip c) :
    0 < fb.pagesLeft G c ↔ (fb.abm.actBlks c).isSome := by
  rcases active : fb.abm.actBlks c with _ | b
  · rw [pagesLeft_of_idle active, life.idle c hasChip active]
    simp
  · have open_ := inv.active_nrFreePages_pos hasChip active (by simp)
    rw [pagesLeft_of_active active]
    simp only [Option.isSome_some, iff_true]
    omega

theorem Moves.pagesLeft_of_ne (moves : Moves c fb other) {c' : ChipId} (different : c' ≠ c) :
    other.pagesLeft G c' = fb.pagesLeft G c' := by
  rcases moves.otherChips c' different with ⟨chips, actBlks, _⟩
  apply pagesLeft_congr actBlks
  · rw [chips]
  · intro b _
    exact (moves.counters b).nrFreePages

/-- `update_act_blk` replaces a full active block by a free one: no page is gained or lost. -/
theorem updateActBlk_pagesLeft (inv : Inv G (.filled b) fb) (c : ChipId) :
    (fb.updateActBlk b.chip).pagesLeft G c = fb.pagesLeft G c := by
  rcases inv.phaseOk b rfl with ⟨hasBlock, active⟩
  unfold Fb.updateActBlk Fb.getCurrActiveBlock
  simp only [active]
  split_ifs with full
  · have retired := (Moves.setActBlkFlag fb b false).trans (.setUsedBlk _ b)
    have freeBlks : (((fb.updBlock b (·.setActBlkFlag false)).setUsedBlk b).ssdi.chips
        b.chip).freeBlks = (fb.ssdi.chips b.chip).freeBlks := by
      simp [Fb.setUsedBlk, Fb.updChip, SsdInfo.updChip, Fb.updBlock, SsdInfo.updBlock,
        FlashChip.setUsedBlk]
    have before : fb.pagesLeft G b.chip =
        G.numPagesPerBlock * (fb.ssdi.chips b.chip).freeBlks.length := by
      rw [pagesLeft_of_active active, full, Nat.add_zero]
    generalize (fb.updBlock b (·.setActBlkFlag false)).setUsedBlk b = moved at retired freeBlks ⊢
    rcases head : moved.getFreeBlock b.chip with _ | next
    · have closed := retired.trans (Moves.setCurrActiveBlock_none moved b.chip)
      by_cases same : c = b.chip
      · subst c
        rw [before, pagesLeft_of_idle (Function.update_self _ _ _)]
        exact congrArg (G.numPagesPerBlock * ·.length) freeBlks
      · exact closed.pagesLeft_of_ne same
    · have mem : next ∈ (fb.ssdi.chips b.chip).freeBlks := by
        rw [← freeBlks]
        exact mem_of_head?_eq head
      have own := (inv.hasBlock_of_mem hasBlock.1 .free mem).1
      have fresh : (fb.ssdi.blocks next).nrFreePages = G.numPagesPerBlock :=
        (inv.chipOk b.chip hasBlock.1).placeOk .free next mem
      have opened : Moves b.chip fb
          ((moved.resetFreeBlk next).setCurrActiveBlock b.chip (some next)) := by
        rw [← own]
        rw [← own] at retired
        exact (retired.trans (.resetFreeBlk moved next)).trans (.setCurrActiveBlock_some _ next)
      by_cases same : c = b.chip
      · subst c
        have rest : (((moved.resetFreeBlk next).setCurrActiveBlock b.chip (some next)).ssdi.chips
            b.chip).freeBlks = (fb.ssdi.chips b.chip).freeBlks.erase next := by
          rw [← freeBlks, ← own]
          simp [Fb.setCurrActiveBlock, Fb.updBlock, SsdInfo.updBlock, Fb.resetFreeBlk, Fb.record,
            Fb.updChip, SsdInfo.updChip, FlashChip.resetFreeBlk]
        have nowActive : ((moved.resetFreeBlk next).setCurrActiveBlock b.chip
            (some next)).abm.actBlks b.chip = some next := Function.update_self _ _ _
        have length := List.length_erase_of_mem mem
        have pos := List.length_pos_of_mem mem
        rw [before, pagesLeft_of_active nowActive, rest, (opened.counters next).nrFreePages, fresh,
          length]
        obtain ⟨n, n_eq⟩ := Nat.exists_eq_add_of_lt pos
        rw [n_eq]
        simp [Nat.mul_add]
      · exact opened.pagesLeft_of_ne same
  · rfl

/-- Programming the next page of the active block takes one page of the chip. -/
theorem programPage_pagesLeft (inv : Inv G .rest fb) (hasChip : G.HasChip c)
    (active : fb.abm.actBlks c = some ⟨c, blk⟩)
    (pg_eq : pg = G.numPagesPerBlock - (fb.ssdi.blocks ⟨c, blk⟩).nrFreePages) {lpas : Slot → ℕ}
    (lpasOk : ∀ lp, LpaOk G (lpas lp)) (src : Slot → PageData) {c' : ChipId}
    (hasChip' : G.HasChip c') : (fb.programPage G c blk pg lpas src).pagesLeft G c' =
      if c' = c then fb.pagesLeft G c - 1 else fb.pagesLeft G c' := by
  have open_ := inv.active_nrFreePages_pos hasChip active (by simp)
  have written := inv.vdeviceWrite hasChip active pg_eq src
  have mapped := written.mapLogicalToPhysical pg_eq lpasOk
  have placed := mapped.setPrevBusChip hasChip
  have frame := MappingFrame.mapLogicalToPhysical G (fb.vdeviceWrite ⟨c, blk⟩ pg src) lpas
    ⟨c, blk⟩ pg
  have counts (b : BlockId) := programPage_nrFreePages (G := G) fb c blk pg lpas src b
  have kept := updateActBlk_pagesLeft placed c'
  unfold Fb.programPage at counts ⊢
  simp only [updateActBlk_nrFreePages] at counts
  rw [kept]
  have actBlks : (((fb.vdeviceWrite ⟨c, blk⟩ pg src).mapLogicalToPhysical G lpas ⟨c, blk⟩
      pg).setPrevBusChip c).abm.actBlks c' = fb.abm.actBlks c' := congrFun (congrArg
        ActBlkMngr.actBlks frame.abm) c'
  have freeBlks : ((((fb.vdeviceWrite ⟨c, blk⟩ pg src).mapLogicalToPhysical G lpas ⟨c, blk⟩
      pg).setPrevBusChip c).ssdi.chips c').freeBlks = (fb.ssdi.chips c').freeBlks :=
    frame.freeBlks c'
  generalize ((fb.vdeviceWrite ⟨c, blk⟩ pg src).mapLogicalToPhysical G lpas ⟨c, blk⟩
    pg).setPrevBusChip c = filled at counts actBlks freeBlks ⊢
  split_ifs with same
  · subst c'
    rw [pagesLeft_of_active active, pagesLeft_of_active (actBlks.trans active), freeBlks, counts,
      if_pos rfl, dec32_of_pos open_]
    omega
  · apply pagesLeft_congr actBlks freeBlks
    intro b isActive
    rw [counts, if_neg]
    rintro rfl
    exact same (inv.of_active hasChip' isActive).1.symm

theorem Life.allocNewPage_isSome_iff (life : Life G fb) (inv : Inv G .rest fb)
    (hasChip : G.HasChip c) : (fb.allocNewPage G c).1.isSome ↔ 0 < fb.pagesLeft G c := by
  rw [life.pagesLeft_pos_iff inv hasChip]
  unfold Fb.allocNewPage Fb.getCurrActiveBlock Fb.getFreeBlock
  rcases active : fb.abm.actBlks c with _ | b
  · simp [life.idle c hasChip active]
  · simp

/-- One page of `prog_valid_pgs_to_gc_blks` takes a page of the next chip. -/
theorem Life.progPage_ok_iff (life : Life G fb) (inv : Inv G .rest fb) (ptr : ℕ) :
    (fb.progPage G ptr).1 = .ok ↔ 0 < fb.pagesLeft G (fb.getNextBusChip G) := by
  rw [← life.allocNewPage_isSome_iff inv (hasChip_getNextBusChip inv.mruOk)]
  rcases alloc : fb.allocNewPage G (fb.getNextBusChip G) with ⟨_ | ⟨blk, pg⟩, other⟩
  · simp [Fb.progPage_of_none alloc]
  · simp [Fb.progPage_of_some alloc]

theorem Life.progPage_pagesLeft (life : Life G fb) (inv : Inv G .rest fb) {ptr : ℕ}
    (ok : (fb.progPage G ptr).1 = .ok) {c' : ChipId} (hasChip' : G.HasChip c') :
    (fb.progPage G ptr).2.pagesLeft G c' =
      if c' = fb.getNextBusChip G then fb.pagesLeft G (fb.getNextBusChip G) - 1
      else fb.pagesLeft G c' := by
  have hasChip := hasChip_getNextBusChip inv.mruOk
  rcases alloc : fb.allocNewPage G (fb.getNextBusChip G) with ⟨_ | ⟨blk, pg⟩, other⟩
  · rw [Fb.progPage_of_none alloc] at ok
    simp at ok
  rcases inv.allocNewPage_of_some hasChip alloc with ⟨_, active, pg_eq⟩
  have same := life.allocNewPage_of_some hasChip alloc
  subst other
  have padded := inv.padLpasToCopy ptr (fb.gcm.nrPgsToCopy - ptr)
  have scratch := ScratchOnly.padLpasToCopy fb ptr (fb.gcm.nrPgsToCopy - ptr)
  have kept (c : ChipId) : (fb.padLpasToCopy ptr (fb.gcm.nrPgsToCopy - ptr)).pagesLeft G c =
      fb.pagesLeft G c := by
    apply pagesLeft_congr
    · rw [scratch.abm]
    · rw [scratch.ssdi]
    · intro b _
      rw [scratch.ssdi]
  rw [Fb.progPage_of_some alloc]
  simp only
  rw [programPage_pagesLeft padded hasChip (by simpa using active) (by simpa using pg_eq)
    (fun lp => padded.lpasOk (ptr + lp)) _ hasChip', kept, kept]

theorem progPage_progress {ptr : ℕ} (ok : (fb.progPage G ptr).1 = .ok) :
    (fb.progPage G ptr).2.programs = fb.programs ++ [fb.getNextBusChip G] ∧
      (fb.progPage G ptr).2.getPrevBusChip = fb.getNextBusChip G := by
  have opened := SameProgress.allocNewPage (G := G) fb (fb.getNextBusChip G)
  rcases alloc : fb.allocNewPage G (fb.getNextBusChip G) with ⟨_ | ⟨blk, pg⟩, other⟩
  · rw [Fb.progPage_of_none alloc] at ok
    simp at ok
  · rw [alloc] at opened
    have padded := opened.trans (.of_scratchOnly
      (.padLpasToCopy other ptr (fb.gcm.nrPgsToCopy - ptr)))
    rw [Fb.progPage_of_some alloc, ← padded.programs]
    exact programPage_progress G _ _ _ _ _ _

end PagesLeft

/-! ### Copying takes the chips in turn -/

section Copying

variable {G : Geometry} {fb other : Fb} {c : ChipId} {k : ℕ}

theorem chipsAfter_add (G : Geometry) (c : ChipId) (m n : ℕ) :
    G.chipsAfter c (m + n) = G.chipsAfter c m ++ G.chipsAfter (G.nextChip^[m] c) n := by
  unfold Geometry.chipsAfter
  rw [List.iterate_add, ← Function.iterate_succ_apply, Function.iterate_succ_apply']

theorem chipsAfter_succ (G : Geometry) (c : ChipId) (n : ℕ) :
    G.chipsAfter c (n + 1) = G.chipsAfter c n ++ [G.nextChip^[n + 1] c] := by
  rw [chipsAfter_add, Function.iterate_succ_apply']
  rfl

theorem count_chipsAfter_mono (G : Geometry) (c other : ChipId) {m n : ℕ} (m_le : m ≤ n) :
    (G.chipsAfter c m).count other ≤ (G.chipsAfter c n).count other := by
  rw [← Nat.add_sub_cancel' m_le, chipsAfter_add, List.count_append]
  exact Nat.le_add_right _ _

theorem count_chipsAfter_rounds {start : ChipId} (startChip : G.HasChip start)
    (hasChip : G.HasChip c) (n : ℕ) : (G.chipsAfter start (G.numChips * n)).count c = n := by
  induction n with
  | zero => rfl
  | succ n ih =>
      have round : (G.chipsAfter start G.numChips).count c = 1 :=
        List.count_eq_one_of_mem (G.nodup_chipsAfter startChip le_rfl)
          ((G.mem_chipsAfter startChip).mpr hasChip)
      rw [Nat.mul_succ, Nat.add_comm, chipsAfter_add, G.iterate_numChips startChip,
        List.count_append, round, ih, Nat.add_comm]

/-- The number of pages that `prog_valid_pgs_to_gc_blks` programs. -/
def Fb.nrPgsToProg (fb : Fb) : ℕ := (fb.gcm.nrPgsToCopy + (nrLpInPp - 1)) / nrLpInPp

/-- The copying loop has programmed `k` pages, one on each of the next `k` chips. -/
structure CopiedInTurn (G : Geometry) (fb other : Fb) (k : ℕ) : Prop where
  upTo : CopiedUpTo G fb other k
  programs : other.programs = fb.programs ++ G.chipsAfter fb.getPrevBusChip k
  position : other.getPrevBusChip = G.nextChip^[k] fb.getPrevBusChip
  pagesLeft : ∀ c, G.HasChip c →
    other.pagesLeft G c + (G.chipsAfter fb.getPrevBusChip k).count c = fb.pagesLeft G c

theorem CopiedInTurn.getNextBusChip_eq (copied : CopiedInTurn G fb other k) :
    other.getNextBusChip G = G.nextChip^[k + 1] fb.getPrevBusChip := by
  rw [Fb.getNextBusChip_eq, copied.position, Function.iterate_succ_apply']

theorem CopiedInTurn.next (copied : CopiedInTurn G fb other k)
    (inside : nrLpInPp * k < fb.gcm.nrPgsToCopy)
    (ok : (other.progPage G (nrLpInPp * k)).1 = .ok) :
    CopiedInTurn G fb (other.progPage G (nrLpInPp * k)).2 (k + 1) := by
  have inv := copied.upTo.copying.inv
  have life := copied.upTo.life
  have room := (life.progPage_ok_iff inv _).mp ok
  rcases progPage_progress ok with ⟨programs, position⟩
  refine ⟨copied.upTo.next inside ok, ?_, ?_, ?_⟩
  · rw [programs, copied.programs, copied.getNextBusChip_eq, List.append_assoc, chipsAfter_succ]
  · rw [position, copied.getNextBusChip_eq]
  · intro c hasChip
    have before := copied.pagesLeft c hasChip
    rw [life.progPage_pagesLeft inv ok hasChip, chipsAfter_succ, List.count_append,
      ← copied.getNextBusChip_eq]
    by_cases same : c = other.getNextBusChip G
    · subst c
      rw [if_pos rfl, List.count_singleton_self]
      omega
    · rw [if_neg same, List.count_singleton, if_neg]
      · exact before
      · simpa using Ne.symm same

/-- `prog_valid_pgs_to_gc_blks` succeeds exactly when every chip has as many pages left as its
turns come; it takes that many. -/
theorem progValidPgsToGcBlks_inTurn (inv : Inv G .rest fb) (life : Life G fb)
    (copies : CopiesMatch G fb) :
    ((fb.progValidPgsToGcBlks G).1 = .ok →
      CopiedInTurn G fb (fb.progValidPgsToGcBlks G).2 fb.nrPgsToProg) ∧
    ((fb.progValidPgsToGcBlks G).1 ≠ .ok → ∃ c, G.HasChip c ∧
      fb.pagesLeft G c < (G.chipsAfter fb.getPrevBusChip fb.nrPgsToProg).count c) := by
  have start : CopiedInTurn G fb fb 0 :=
    ⟨.begin inv life copies, (List.append_nil _).symm, rfl, fun _ _ => rfl⟩
  unfold Fb.progValidPgsToGcBlks
  have pages_eq : (fb.gcm.nrPgsToCopy + (nrLpInPp - 1)) / nrLpInPp = fb.nrPgsToProg := rfl
  rw [pages_eq]
  refine forEach_rule
    (fun rest other => ∃ k ≤ fb.nrPgsToProg,
      rest = (List.range' k (fb.nrPgsToProg - k)).map (nrLpInPp * ·) ∧ CopiedInTurn G fb other k)
    (fun result => (result.1 = .ok → CopiedInTurn G fb result.2 fb.nrPgsToProg) ∧
      (result.1 ≠ .ok → ∃ c, G.HasChip c ∧
        fb.pagesLeft G c < (G.chipsAfter fb.getPrevBusChip fb.nrPgsToProg).count c)) ?_ ?_
    ⟨0, Nat.zero_le _, by rw [Nat.sub_zero, List.range_eq_range'], start⟩
  · rintro ptr rest other ⟨k, k_le, items, copied⟩
    rcases Nat.lt_or_ge k fb.nrPgsToProg with k_lt | done
    · rw [show fb.nrPgsToProg - k = (fb.nrPgsToProg - (k + 1)) + 1 by omega, List.range'_succ,
        List.map_cons, List.cons.injEq] at items
      rcases items with ⟨rfl, rfl⟩
      have inside : nrLpInPp * k < fb.gcm.nrPgsToCopy := by
        simp only [nrLpInPp] at pages_eq ⊢
        omega
      refine ⟨fun ok => ⟨k + 1, k_lt, rfl, copied.next inside ok⟩, fun notOk => ?_⟩
      refine ⟨fun ok => absurd ok notOk, fun _ => ?_⟩
      have inv := copied.upTo.copying.inv
      have hasChip := hasChip_getNextBusChip inv.mruOk
      have noRoom := mt (copied.upTo.life.progPage_ok_iff inv _).mpr notOk
      have before := copied.pagesLeft _ hasChip
      have turns := count_chipsAfter_mono G fb.getPrevBusChip (other.getNextBusChip G) k_lt
      rw [Nat.succ_eq_add_one, chipsAfter_succ, List.count_append, ← copied.getNextBusChip_eq,
        List.count_singleton_self] at turns
      exact ⟨_, hasChip, by omega⟩
    · rw [show fb.nrPgsToProg - k = 0 by omega] at items
      simp at items
  · rintro other ⟨k, k_le, items, copied⟩
    have done : fb.nrPgsToProg - k = 0 := by simpa using items.symm
    refine ⟨fun _ => ?_, fun notOk => absurd rfl notOk⟩
    rwa [show fb.nrPgsToProg = k by omega]

end Copying

end FlashBench
