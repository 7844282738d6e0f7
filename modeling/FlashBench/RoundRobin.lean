import Mathlib.Algebra.Order.Group.Nat
import Mathlib.Data.Nat.ModEq
import FlashBench.GcPageMapping

/-!
# The round-robin order of the chips

`get_next_bus_chip` goes through the chips bus by bus. Numbered in this order, the
next chip is the next number modulo `NUM_CHIPS`, so `NUM_CHIPS` steps from any
position visit every chip once.
-/

namespace FlashBench

namespace Geometry

variable (G : Geometry) {c : ChipId}

/-- The chip after a chip. -/
def nextChip (c : ChipId) : ChipId :=
  if c.bus = G.numBuses - 1 then ⟨0, if c.chip = G.numChipsPerBus - 1 then 0 else c.chip + 1⟩
  else ⟨c.bus + 1, c.chip⟩

/-- The number of a chip in the round-robin order. -/
def chipIndex (c : ChipId) : ℕ := c.chip * G.numBuses + c.bus

/-- The `n` chips after a chip. -/
def chipsAfter (c : ChipId) (n : ℕ) : List ChipId := List.iterate G.nextChip (G.nextChip c) n

theorem numChips_pos : 0 < G.numChips := Nat.mul_pos G.numBuses_pos G.numChipsPerBus_pos

theorem chipIndex_lt (hasChip : G.HasChip c) : G.chipIndex c < G.numChips := by
  rcases hasChip with ⟨bus_lt, chip_lt⟩
  calc G.chipIndex c < (c.chip + 1) * G.numBuses := by
        rw [chipIndex, Nat.add_mul]
        omega
    _ ≤ G.numChipsPerBus * G.numBuses := Nat.mul_le_mul_right _ chip_lt
    _ = G.numChips := Nat.mul_comm _ _

theorem chipIndex_inj {other : ChipId} (hasChip : G.HasChip c) (otherChip : G.HasChip other)
    (same : G.chipIndex c = G.chipIndex other) : c = other := by
  rcases c with ⟨bus, chip⟩
  rcases other with ⟨bus', chip'⟩
  have bus_lt : bus < G.numBuses := hasChip.1
  have bus_lt' : bus' < G.numBuses := otherChip.1
  have buses : (bus + chip * G.numBuses) % G.numBuses = (bus' + chip' * G.numBuses) % G.numBuses := by
    rw [Nat.add_comm bus, Nat.add_comm bus']
    exact congrArg (· % G.numBuses) same
  have chips : (bus + chip * G.numBuses) / G.numBuses = (bus' + chip' * G.numBuses) / G.numBuses := by
    rw [Nat.add_comm bus, Nat.add_comm bus']
    exact congrArg (· / G.numBuses) same
  rw [Nat.add_mul_mod_self_right, Nat.add_mul_mod_self_right, Nat.mod_eq_of_lt bus_lt,
    Nat.mod_eq_of_lt bus_lt'] at buses
  rw [Nat.add_mul_div_right _ _ G.numBuses_pos, Nat.add_mul_div_right _ _ G.numBuses_pos,
    Nat.div_eq_of_lt bus_lt, Nat.div_eq_of_lt bus_lt', Nat.zero_add, Nat.zero_add] at chips
  rw [buses, chips]

theorem hasChip_nextChip (hasChip : G.HasChip c) : G.HasChip (G.nextChip c) := by
  have := G.numBuses_pos
  have := G.numChipsPerBus_pos
  rcases hasChip with ⟨bus_lt, chip_lt⟩
  unfold nextChip HasChip
  split_ifs <;> simp only <;> omega

/-- The next chip has the next number, and after the last one comes number 0. -/
theorem chipIndex_nextChip (hasChip : G.HasChip c) :
    G.chipIndex (G.nextChip c) = (G.chipIndex c + 1) % G.numChips := by
  have index_lt := G.chipIndex_lt hasChip
  rcases hasChip with ⟨bus_lt, chip_lt⟩
  by_cases lastBus : c.bus = G.numBuses - 1
  · by_cases lastChip : c.chip = G.numChipsPerBus - 1
    · have whole : G.chipIndex c + 1 = G.numChips := by
        have oneMore : c.chip + 1 = G.numChipsPerBus := by omega
        calc G.chipIndex c + 1 = (c.chip + 1) * G.numBuses := by
              rw [chipIndex, Nat.add_mul]
              omega
          _ = G.numChips := by rw [oneMore, numChips, Nat.mul_comm]
      rw [whole, Nat.mod_self, nextChip, if_pos lastBus, if_pos lastChip, chipIndex]
      simp
    · have next : G.chipIndex (G.nextChip c) = G.chipIndex c + 1 := by
        simp only [nextChip, if_pos lastBus, if_neg lastChip, chipIndex, Nat.add_mul]
        omega
      have inside := G.chipIndex_lt (c := G.nextChip c) (G.hasChip_nextChip ⟨bus_lt, chip_lt⟩)
      rw [next] at inside ⊢
      rw [Nat.mod_eq_of_lt inside]
  · have next : G.chipIndex (G.nextChip c) = G.chipIndex c + 1 := by
      simp only [nextChip, if_neg lastBus, chipIndex]
      omega
    have inside := G.chipIndex_lt (c := G.nextChip c) (G.hasChip_nextChip ⟨bus_lt, chip_lt⟩)
    rw [next] at inside ⊢
    rw [Nat.mod_eq_of_lt inside]

theorem hasChip_iterate (hasChip : G.HasChip c) (n : ℕ) : G.HasChip (G.nextChip^[n] c) := by
  induction n generalizing c with
  | zero => exact hasChip
  | succ n ih => exact ih (G.hasChip_nextChip hasChip)

theorem chipIndex_iterate (hasChip : G.HasChip c) (n : ℕ) :
    G.chipIndex (G.nextChip^[n] c) = (G.chipIndex c + n) % G.numChips := by
  induction n generalizing c with
  | zero => exact (Nat.mod_eq_of_lt (G.chipIndex_lt hasChip)).symm
  | succ n ih =>
      rw [Function.iterate_succ_apply, ih (G.hasChip_nextChip hasChip), G.chipIndex_nextChip hasChip,
        Nat.mod_add_mod]
      congr 1
      omega

theorem hasChip_of_mem_chipsAfter {n : ℕ} {other : ChipId} (hasChip : G.HasChip c)
    (mem : other ∈ G.chipsAfter c n) : G.HasChip other := by
  rcases List.mem_iterate.mp mem with ⟨m, _, rfl⟩
  exact G.hasChip_iterate (G.hasChip_nextChip hasChip) m

theorem nodup_chipsAfter (hasChip : G.HasChip c) {n : ℕ} (n_le : n ≤ G.numChips) :
    (G.chipsAfter c n).Nodup := by
  have next := G.hasChip_nextChip hasChip
  rw [chipsAfter, ← List.range_map_iterate]
  refine List.Nodup.map_on (fun i i_mem j j_mem same => ?_) List.nodup_range
  rw [List.mem_range] at i_mem j_mem
  have indices := congrArg G.chipIndex same
  rw [G.chipIndex_iterate next, G.chipIndex_iterate next] at indices
  have congruent : i ≡ j [MOD G.numChips] := Nat.ModEq.add_left_cancel' _ indices
  exact congruent.eq_of_lt_of_lt (by omega) (by omega)

end Geometry

theorem Fb.getNextBusChip_eq (fb : Fb) (G : Geometry) :
    fb.getNextBusChip G = G.nextChip fb.getPrevBusChip := rfl

theorem length_chipsByBus (G : Geometry) : G.chipsByBus.length = G.numChips := by
  simp [Geometry.chipsByBus, Geometry.numChips]

theorem Geometry.chipsAfter_perm (G : Geometry) {c : ChipId} (hasChip : G.HasChip c) :
    (G.chipsAfter c G.numChips).Perm G.chipsByBus := by
  apply (G.nodup_chipsAfter hasChip le_rfl).subperm ?_ |>.perm_of_length_le
  · rw [length_chipsByBus, chipsAfter, List.length_iterate]
  · intro other mem
    exact G.mem_chipsByBus.mpr (G.hasChip_of_mem_chipsAfter hasChip mem)

theorem Geometry.mem_chipsAfter (G : Geometry) {c other : ChipId} (hasChip : G.HasChip c) :
    other ∈ G.chipsAfter c G.numChips ↔ G.HasChip other := by
  rw [(G.chipsAfter_perm hasChip).mem_iff, G.mem_chipsByBus]

end FlashBench
