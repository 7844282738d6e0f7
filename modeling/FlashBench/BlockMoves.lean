import FlashBench.Invariant

/-!
# The life cycle of a block

One lemma for each way in which a block goes from one place of its chip to another.
-/

namespace FlashBench

section Flags

variable {blocks : BlockId → FlashBlock} {block : FlashBlock} {b member : BlockId}
  {flag : FlashBlock → Bool} {slot : Option BlockId}

theorem flag_enter (before : flag (blocks member) = true ↔ none = some member)
    (now : flag block = true) :
    flag (Function.update blocks b block member) = true ↔ some b = some member := by
  by_cases same : member = b
  · subst member
    simp [now]
  · simp only [Function.update_of_ne same, before, Option.some.injEq]
    simp [Ne.symm same]

theorem flag_leave (before : flag (blocks member) = true ↔ some b = some member)
    (now : flag block = false) :
    flag (Function.update blocks b block member) = true ↔ none = some member := by
  by_cases same : member = b
  · subst member
    simp [now]
  · simp only [Function.update_of_ne same, before, Option.some.injEq]
    simp [Ne.symm same]

theorem flag_stay (before : flag (blocks member) = true ↔ slot = some member)
    (now : flag block = flag (blocks b)) :
    flag (Function.update blocks b block member) = true ↔ slot = some member := by
  by_cases same : member = b
  · subst member
    rw [Function.update_self, now]
    exact before
  · rw [Function.update_of_ne same]
    exact before

end Flags

namespace ChipOk

variable {G : Geometry} {phase : Phase} {c : ChipId} {b : BlockId} {blocks : BlockId → FlashBlock}
  {chip : FlashChip} {act gc : Option BlockId} {block : FlashBlock}

theorem placeOk_update (ok : ChipOk G phase c blocks chip act gc)
    (same : SameCounters (blocks b) block) (place : Place) {member : BlockId}
    (mem : member ∈ chip.holds act gc place) :
    PlaceOk G phase member (Function.update blocks b block member) place := by
  have before := ok.placeOk place member mem
  by_cases isB : member = b
  · subst member
    rw [Function.update_self]
    exact before.congr same.nrFreePages same.nrValidLogPages
  · rw [Function.update_of_ne isB]
    exact before

theorem freeToActive (ok : ChipOk G .rest c blocks chip none gc) (mem : b ∈ chip.freeBlks) :
    ChipOk G .rest c (Function.update blocks b ((blocks b).setActBlkFlag true))
      (chip.resetFreeBlk b) (some b) gc where
  partition := ok.partition.freeToActive mem
  placeOk place member memberMem := by
    have same : SameCounters (blocks b) ((blocks b).setActBlkFlag true) := ⟨rfl, rfl, rfl, rfl, rfl⟩
    cases place with
    | free => exact ok.placeOk_update same .free (List.mem_of_mem_erase memberMem)
    | active =>
        simp only [FlashChip.holds, Option.toList_some, List.mem_singleton] at memberMem
        subst member
        intro _
        have fresh : (blocks b).nrFreePages = G.numPagesPerBlock := ok.placeOk .free b mem
        rw [Function.update_self]
        change 0 < (blocks b).nrFreePages
        rw [fresh]
        exact G.numPagesPerBlock_pos
    | used => exact ok.placeOk_update same .used memberMem
    | dirt => exact ok.placeOk_update same .dirt memberMem
    | gc => exact ok.placeOk_update same .gc memberMem
  activeFlag member own member_lt := flag_enter (ok.activeFlag member own member_lt) rfl
  reservedFlag member own member_lt := flag_stay (ok.reservedFlag member own member_lt) rfl

theorem freeToGc (ok : ChipOk G phase c blocks chip act none) (mem : b ∈ chip.freeBlks)
    (noValid : (blocks b).nrValidLogPages = 0) :
    ChipOk G phase c (Function.update blocks b ((blocks b).setRsvBlkFlag true))
      (chip.resetFreeBlk b) act (some b) where
  partition := ok.partition.freeToGc mem
  placeOk place member memberMem := by
    have same : SameCounters (blocks b) ((blocks b).setRsvBlkFlag true) := ⟨rfl, rfl, rfl, rfl, rfl⟩
    cases place with
    | free => exact ok.placeOk_update same .free (List.mem_of_mem_erase memberMem)
    | gc =>
        simp only [FlashChip.holds, Option.toList_some, List.mem_singleton] at memberMem
        subst member
        simpa [PlaceOk, FlashBlock.setRsvBlkFlag] using noValid
    | used => exact ok.placeOk_update same .used memberMem
    | dirt => exact ok.placeOk_update same .dirt memberMem
    | active => exact ok.placeOk_update same .active memberMem
  activeFlag member own member_lt := flag_stay (ok.activeFlag member own member_lt) rfl
  reservedFlag member own member_lt := flag_enter (ok.reservedFlag member own member_lt) rfl

theorem activeToUsed (ok : ChipOk G (.filled b) c blocks chip (some b) gc)
    (full : (blocks b).nrFreePages = 0) :
    ChipOk G .rest c (Function.update blocks b ((blocks b).setActBlkFlag false))
      (chip.setUsedBlk b) none gc where
  partition := ok.partition.activeToUsed
  placeOk place member memberMem := by
    have same : SameCounters (blocks b) ((blocks b).setActBlkFlag false) := ⟨rfl, rfl, rfl, rfl, rfl⟩
    cases place with
    | free => exact ok.placeOk_update same .free memberMem
    | used =>
        simp only [FlashChip.holds, FlashChip.setUsedBlk, List.mem_append,
          List.mem_singleton] at memberMem
        rcases memberMem with memberMem | rfl
        · exact ok.placeOk_update same .used memberMem
        · simpa [PlaceOk, FlashBlock.setActBlkFlag] using full
    | dirt => exact ok.placeOk_update same .dirt memberMem
    | active => simp [FlashChip.holds] at memberMem
    | gc => exact ok.placeOk_update same .gc memberMem
  activeFlag member own member_lt := flag_leave (ok.activeFlag member own member_lt) rfl
  reservedFlag member own member_lt := flag_stay (ok.reservedFlag member own member_lt) rfl

theorem settle (ok : ChipOk G (.filled b) c blocks chip act gc)
    (open_ : 0 < (blocks b).nrFreePages) : ChipOk G .rest c blocks chip act gc :=
  { ok with
    placeOk := fun place member memberMem => by
      have before := ok.placeOk place member memberMem
      cases place with
      | active =>
          intro _
          by_cases isB : member = b
          · rw [isB]
            exact open_
          · exact before fun same => isB (by simpa using same.symm)
      | free => exact before
      | used => exact before
      | dirt => exact before
      | gc => exact before }

theorem usedToGc (ok : ChipOk G phase c blocks chip act none) (mem : b ∈ chip.usedBlks)
    (noValid : (blocks b).nrValidLogPages = 0) :
    ChipOk G phase c (Function.update blocks b ((blocks b).setRsvBlkFlag true))
      (chip.resetUsedBlk b) act (some b) where
  partition := ok.partition.usedToGc mem
  placeOk place member memberMem := by
    have same : SameCounters (blocks b) ((blocks b).setRsvBlkFlag true) := ⟨rfl, rfl, rfl, rfl, rfl⟩
    cases place with
    | used => exact ok.placeOk_update same .used (List.mem_of_mem_erase memberMem)
    | gc =>
        simp only [FlashChip.holds, Option.toList_some, List.mem_singleton] at memberMem
        subst member
        simpa [PlaceOk, FlashBlock.setRsvBlkFlag] using noValid
    | free => exact ok.placeOk_update same .free memberMem
    | dirt => exact ok.placeOk_update same .dirt memberMem
    | active => exact ok.placeOk_update same .active memberMem
  activeFlag member own member_lt := flag_stay (ok.activeFlag member own member_lt) rfl
  reservedFlag member own member_lt := flag_enter (ok.reservedFlag member own member_lt) rfl

theorem usedToDirt (ok : ChipOk G phase c blocks chip act gc) (mem : b ∈ chip.usedBlks)
    (noValid : (blocks b).nrValidLogPages = 0) :
    ChipOk G phase c blocks ((chip.resetUsedBlk b).setDirtBlk b) act gc :=
  { ok with
    partition := ok.partition.usedToDirt mem
    placeOk := fun place member memberMem => by
      cases place with
      | used => exact ok.placeOk .used member (List.mem_of_mem_erase memberMem)
      | dirt =>
          simp only [FlashChip.holds, FlashChip.resetUsedBlk, FlashChip.setDirtBlk,
            List.mem_append, List.mem_singleton] at memberMem
          rcases memberMem with memberMem | rfl
          · exact ok.placeOk .dirt member memberMem
          · exact ⟨ok.placeOk .used member mem, noValid⟩
      | free => exact ok.placeOk .free member memberMem
      | active => exact ok.placeOk .active member memberMem
      | gc => exact ok.placeOk .gc member memberMem }

theorem dirtToGc (ok : ChipOk G phase c blocks chip act none) (mem : b ∈ chip.dirtBlks) :
    ChipOk G phase c (Function.update blocks b ((blocks b).setRsvBlkFlag true))
      (chip.resetDirtBlk b) act (some b) where
  partition := ok.partition.dirtToGc mem
  placeOk place member memberMem := by
    have same : SameCounters (blocks b) ((blocks b).setRsvBlkFlag true) := ⟨rfl, rfl, rfl, rfl, rfl⟩
    cases place with
    | dirt => exact ok.placeOk_update same .dirt (List.mem_of_mem_erase memberMem)
    | gc =>
        simp only [FlashChip.holds, Option.toList_some, List.mem_singleton] at memberMem
        subst member
        simpa [PlaceOk, FlashBlock.setRsvBlkFlag] using (ok.placeOk .dirt b mem).2
    | free => exact ok.placeOk_update same .free memberMem
    | used => exact ok.placeOk_update same .used memberMem
    | active => exact ok.placeOk_update same .active memberMem
  activeFlag member own member_lt := flag_stay (ok.activeFlag member own member_lt) rfl
  reservedFlag member own member_lt := flag_enter (ok.reservedFlag member own member_lt) rfl

theorem gcToActive (ok : ChipOk G .rest c blocks chip none (some b))
    (nrFreePages : block.nrFreePages = G.numPagesPerBlock) (active : block.isActiveBlock = true)
    (reserved : block.isReservedBlock = false) :
    ChipOk G .rest c (Function.update blocks b block) chip (some b) none where
  partition := ok.partition.gcToActive
  placeOk place member memberMem := by
    have others : ∀ place ≠ Place.gc, ∀ member ∈ chip.holds none (some b) place,
        PlaceOk G .rest member (Function.update blocks b block member) place := by
      intro place notGc member memberMem
      have different : member ≠ b := fun same =>
        notGc (ok.partition.unique memberMem .gc (by simp [FlashChip.holds, same]))
      rw [Function.update_of_ne different]
      exact ok.placeOk place member memberMem
    cases place with
    | active =>
        simp only [FlashChip.holds, Option.toList_some, List.mem_singleton] at memberMem
        subst member
        intro _
        rw [Function.update_self, nrFreePages]
        exact G.numPagesPerBlock_pos
    | gc => simp [FlashChip.holds] at memberMem
    | free => exact others .free (by simp) member memberMem
    | used => exact others .used (by simp) member memberMem
    | dirt => exact others .dirt (by simp) member memberMem
  activeFlag member own member_lt := flag_enter (ok.activeFlag member own member_lt) active
  reservedFlag member own member_lt := flag_leave (ok.reservedFlag member own member_lt) reserved

theorem gcToFree (ok : ChipOk G .rest c blocks chip act (some b))
    (nrFreePages : block.nrFreePages = G.numPagesPerBlock) (active : block.isActiveBlock = false)
    (reserved : block.isReservedBlock = false) :
    ChipOk G .rest c (Function.update blocks b block) (chip.setFreeBlk b) act none where
  partition := ok.partition.gcToFree
  placeOk place member memberMem := by
    have others : ∀ place ≠ Place.gc, ∀ member ∈ chip.holds act (some b) place,
        PlaceOk G .rest member (Function.update blocks b block member) place := by
      intro place notGc member memberMem
      have different : member ≠ b := fun same =>
        notGc (ok.partition.unique memberMem .gc (by simp [FlashChip.holds, same]))
      rw [Function.update_of_ne different]
      exact ok.placeOk place member memberMem
    cases place with
    | free =>
        simp only [FlashChip.holds, FlashChip.setFreeBlk, List.mem_append,
          List.mem_singleton] at memberMem
        rcases memberMem with memberMem | rfl
        · exact others .free (by simp) member memberMem
        · simpa [PlaceOk] using nrFreePages
    | gc => simp [FlashChip.holds] at memberMem
    | active => exact others .active (by simp) member memberMem
    | used => exact others .used (by simp) member memberMem
    | dirt => exact others .dirt (by simp) member memberMem
  activeFlag member own member_lt := by
    have inGc : b ∈ chip.holds act (some b) .gc := by simp [FlashChip.holds]
    have notActive : act ≠ some b := fun same =>
      absurd (ok.partition.unique inGc .active (by simp [FlashChip.holds, same]))
        (by simp)
    have wasInactive : (blocks b).isActiveBlock = false := by
      rcases ok.partition.of_mem .gc inGc with ⟨ownB, b_lt⟩
      have before := ok.activeFlag b ownB b_lt
      simpa [notActive] using before
    exact flag_stay (ok.activeFlag member own member_lt) (active.trans wasInactive.symm)
  reservedFlag member own member_lt := flag_leave (ok.reservedFlag member own member_lt) reserved

/-- The counters of a block of the chip change in a way that suits its place. -/
theorem recount (ok : ChipOk G phase c blocks chip act gc) (block : FlashBlock)
    (active : block.isActiveBlock = (blocks b).isActiveBlock)
    (reserved : block.isReservedBlock = (blocks b).isReservedBlock)
    {newPhase : Phase}
    (samePhase : ∀ member ≠ b, phase = .filled member → newPhase = .filled member)
    (suits : ∀ place, b ∈ chip.holds act gc place → PlaceOk G newPhase b block place) :
    ChipOk G newPhase c (Function.update blocks b block) chip act gc where
  partition := ok.partition
  placeOk place member memberMem := by
    by_cases isB : member = b
    · subst member
      rw [Function.update_self]
      exact suits place memberMem
    · rw [Function.update_of_ne isB]
      have before := ok.placeOk place member memberMem
      cases place with
      | active => exact fun notFilled => before fun same => notFilled (samePhase member isB same)
      | free => exact before
      | used => exact before
      | dirt => exact before
      | gc => exact before
  activeFlag member own member_lt := flag_stay (ok.activeFlag member own member_lt) active
  reservedFlag member own member_lt := flag_stay (ok.reservedFlag member own member_lt) reserved

end ChipOk

end FlashBench
