import Mathlib.Data.Fin.VecNotation
import FlashBench.Supply

/-!
# The trigger of the foreground garbage collection

`is_fgc_needed` goes over the chips from a position on, but the test in its loops is about the
position and not about the chip that they are at. It sees a chip without a block to open only
when it starts there. As long as every chip has a GC block the difference does not show.
-/

namespace FlashBench

/-- The chip has no block that could be opened. -/
def Fb.LacksBlocks (fb : Fb) (c : ChipId) : Prop :=
  fb.getCurrGcBlock c = none ∧ fb.getFreeBlock c = none

/-- The loops of `is_fgc_needed` come to the chip. -/
def Geometry.Scanned (G : Geometry) (start c : ChipId) : Prop :=
  (start.chip ≤ c.chip ∧ c.chip < G.numChipsPerBus) ∧ start.bus ≤ c.bus ∧ c.bus < G.numBuses

/-- The trigger looks at every chip that it goes over. -/
def ScanExact (G : Geometry) (fb : Fb) (start : ChipId) : Prop :=
  fb.isFgcNeeded G start = true ↔ ∃ c, G.Scanned start c ∧ fb.LacksBlocks c

section Scan

variable {G : Geometry} {garbage : Garbage} {fb : Fb} {start c : ChipId}

/-- The starting chip is among those of a scan that is not empty. -/
theorem scanned_start (scanned : G.Scanned start c) : G.Scanned start start := by
  rcases scanned with ⟨⟨chip_le, chip_lt⟩, bus_le, bus_lt⟩
  exact ⟨⟨Nat.le_refl _, by omega⟩, Nat.le_refl _, by omega⟩

theorem isFgcNeeded_iff :
    fb.isFgcNeeded G start = true ↔ G.Scanned start start ∧ fb.LacksBlocks start := by
  simp only [Fb.isFgcNeeded, List.any_eq_true, List.mem_range', Bool.and_eq_true,
    Option.isNone_iff_eq_none]
  constructor
  · rintro ⟨chip, ⟨chipLoop, chipInside, rfl⟩, bus, ⟨busLoop, busInside, rfl⟩, lacks⟩
    exact ⟨⟨⟨Nat.le_refl _, by omega⟩, Nat.le_refl _, by omega⟩, lacks⟩
  · rintro ⟨⟨⟨_, chip_lt⟩, _, bus_lt⟩, lacks⟩
    exact ⟨start.chip, ⟨0, by omega, by omega⟩, start.bus, ⟨0, by omega, by omega⟩, lacks⟩

/-- The trigger misses chips exactly when one of those that it goes over has no block to open
and the one it starts from has. -/
theorem scanExact_iff (G : Geometry) (fb : Fb) (start : ChipId) : ScanExact G fb start ↔
    fb.LacksBlocks start ∨ ∀ c, G.Scanned start c → c ≠ start → ¬fb.LacksBlocks c := by
  unfold ScanExact
  rw [isFgcNeeded_iff]
  constructor
  · intro exact_
    rw [Classical.or_iff_not_imp_left]
    intro startHas c scanned _ lacks
    exact startHas (exact_.mpr ⟨c, scanned, lacks⟩).2
  · intro condition
    constructor
    · rintro ⟨scanned, lacks⟩
      exact ⟨start, scanned, lacks⟩
    · rintro ⟨c, scanned, lacks⟩
      refine ⟨scanned_start scanned, ?_⟩
      rcases condition with lacksStart | others
      · exact lacksStart
      · by_cases same : c = start
        · rwa [← same]
        · exact absurd lacks (others c scanned same)

/-- In runs of foreground commands that return 0 the trigger never misses a chip. -/
theorem scanExact_of_run (run : Run G garbage (ForegroundOk G) fb) (start : ChipId) :
    ScanExact G fb start := by
  rw [scanExact_iff]
  right
  intro c scanned _ lacks
  have reserved := run.supplied c ⟨scanned.2.2, scanned.1.2⟩
  rw [show fb.gcm.gcBlks c = none from lacks.1] at reserved
  simp at reserved

end Scan

/-- One bus with two chips of two blocks of one page each. -/
def Geometry.twoBlocks : Geometry := .ofSizes 1 2 2 1 (by decide)

/-- The device with two blocks on each chip after its creation. -/
def twoBlocksFb : Fb :=
  (Fb.create .twoBlocks .zeroed).get (Fb.create_isSome .twoBlocks .zeroed (by decide))

theorem twoBlocksFb_created : Fb.create .twoBlocks .zeroed = some twoBlocksFb :=
  (Option.some_get _).symm

/-- Background GC opens the last block of both chips, a write fills one of them, and a discard
gives the other chip a GC block back. -/
def divergeChips : List Command :=
  [.write ![0, 1, 2, 3] fun _ => filledPage 0, .backgroundGc,
    .write ![4, 5, 6, 7] fun _ => filledPage 1, .invalidate [0, 1, 2, 3]]

/-- In a state of a run the next write starts at chip 0, which has a GC block, and the trigger
misses chip 1, which has no block to open. -/
theorem not_scanExact :
    Reachable .twoBlocks .zeroed (Command.execAll .twoBlocks twoBlocksFb divergeChips) ∧
      (Command.execAll .twoBlocks twoBlocksFb divergeChips).getNextBusChip .twoBlocks = ⟨0, 0⟩ ∧
      ¬ScanExact .twoBlocks (Command.execAll .twoBlocks twoBlocksFb divergeChips) ⟨0, 0⟩ := by
  have needed : (Command.execAll .twoBlocks twoBlocksFb divergeChips).isFgcNeeded .twoBlocks
      ⟨0, 0⟩ = false := by decide +kernel
  have noGcBlock : (Command.execAll .twoBlocks twoBlocksFb divergeChips).getCurrGcBlock
      ⟨0, 1⟩ = none := by decide +kernel
  have noFreeBlock : (Command.execAll .twoBlocks twoBlocksFb divergeChips).getFreeBlock
      ⟨0, 1⟩ = none := by decide +kernel
  refine ⟨?_, by decide +kernel, ?_⟩
  · apply (Reachable.create twoBlocksFb_created).execAll
    decide
  · intro scan
    have found := scan.mpr ⟨⟨0, 1⟩, ⟨by decide, by decide⟩, noGcBlock, noFreeBlock⟩
    rw [needed] at found
    simp at found

end FlashBench
