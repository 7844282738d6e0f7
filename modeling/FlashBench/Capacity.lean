import FlashBench.Geometry

/-!
# The sizes of a device

Three places compute how many logical pages a device has: `NUM_LOG_PAGES` in Rust, the
capacity that `create_vdevice` advertises, and the number of entries of the L2P table, which
`create_page_mapping_table` computes in C with the type `int`. The table has `NUM_LOG_PAGES`
entries, as everywhere else in this development, exactly when the device is smaller than 2 GiB.

`usize` has 64 bits, so the Rust products do not overflow for any geometry that the address
format admits.
-/

namespace FlashBench

/-- `PHYSICAL_PAGE_SIZE` in bytes. -/
abbrev physicalPageSize : ℕ := logicalPageSize * nrLpInPp

/-- The hardware configuration of a device, whatever it is. -/
structure DeviceSizes where
  numBuses : ℕ
  numChipsPerBus : ℕ
  numBlocksPerChip : ℕ
  numPagesPerBlock : ℕ
  deriving DecidableEq, Repr

/-- An `int` of C: the build makes an overflow wrap around. -/
def int32 (x : ℤ) : ℤ := x.bmod (2 ^ 32)

namespace DeviceSizes

/-- The sizes that the physical address format admits. -/
structure Admissible (S : DeviceSizes) : Prop where
  numBuses_pos : 0 < S.numBuses
  numBuses_le : S.numBuses ≤ 16
  numChipsPerBus_pos : 0 < S.numChipsPerBus
  numChipsPerBus_le : S.numChipsPerBus ≤ 16
  numBlocksPerChip_pos : 0 < S.numBlocksPerChip
  numBlocksPerChip_le : S.numBlocksPerChip ≤ 4096
  numPagesPerBlock_pos : 0 < S.numPagesPerBlock
  numPagesPerBlock_le : S.numPagesPerBlock * nrLpInPp ≤ 4096

variable (S : DeviceSizes)

/-- `NUM_CHIPS` -/
def numChips : ℕ := S.numBuses * S.numChipsPerBus

/-- `NUM_BLOCKS` -/
def numBlocks : ℕ := S.numChips * S.numBlocksPerChip

/-- `NUM_PAGES` -/
def numPages : ℕ := S.numBlocks * S.numPagesPerBlock

/-- `NUM_LOG_PAGES` -/
def numLogPages : ℕ := S.numPages * nrLpInPp * cfactorPercent / 100

/-- `nr_entries` of `create_page_mapping_table`. -/
def nrEntries : ℕ :=
  let product := int32 (int32 (int32 (int32 (S.numBuses * S.numChipsPerBus) *
    S.numBlocksPerChip) * S.numPagesPerBlock) * physicalPageSize)
  ((int32 (product.tdiv logicalPageSize * cfactorPercent)).tdiv 100 % 2 ^ 32).toNat

/-- `is_valid_address_range` -/
def isValidAddressRange (logicalPageAddress : ℕ) : Bool :=
  logicalPageAddress < S.numLogPages % 2 ^ 32

/-- `CAPATICY_PER_BUS` of `create_vdevice`. -/
def capacityPerBus : ℕ :=
  S.numChipsPerBus * S.numBlocksPerChip * S.numPagesPerBlock * physicalPageSize

/-- `device_capacity` of `create_vdevice`. -/
def deviceCapacity : ℕ := S.numBuses * S.capacityPerBus

/-- `logical_capacity` of `create_vdevice`. -/
def logicalCapacity : ℕ := S.numPages * cfactorPercent / 100 * physicalPageSize

/-- The capacities agree: the table has an entry for each LPA that passes the range check, and
for each one that the device advertises. -/
structure CapacitiesAgree : Prop where
  nrEntries_eq : S.nrEntries = S.numLogPages
  valid_iff : ∀ lpa, S.isValidAddressRange lpa = true ↔ lpa < S.nrEntries
  advertised : ∀ lpa < S.logicalCapacity / logicalPageSize, lpa < S.nrEntries

section Capacities

variable {S : DeviceSizes}

theorem Admissible.numPages_le (admissible : S.Admissible) : S.numPages ≤ 2 ^ 30 := by
  have pages : S.numPagesPerBlock ≤ 1024 := by
    have := admissible.numPagesPerBlock_le
    simp only [nrLpInPp] at this
    omega
  calc
    S.numPages = S.numBuses * S.numChipsPerBus * S.numBlocksPerChip * S.numPagesPerBlock := rfl
    _ ≤ 16 * 16 * 4096 * 1024 :=
      Nat.mul_le_mul (Nat.mul_le_mul (Nat.mul_le_mul admissible.numBuses_le
        admissible.numChipsPerBus_le) admissible.numBlocksPerChip_le) pages
    _ = 2 ^ 30 := by norm_num

theorem logicalCapacity_div : S.logicalCapacity / logicalPageSize =
    S.numPages * cfactorPercent / 100 * nrLpInPp := by
  unfold logicalCapacity physicalPageSize
  rw [Nat.mul_comm logicalPageSize, ← Nat.mul_assoc]
  exact Nat.mul_div_cancel _ (by decide)

theorem logicalCapacity_div_le : S.logicalCapacity / logicalPageSize ≤ S.numLogPages := by
  rw [logicalCapacity_div, numLogPages]
  simp only [nrLpInPp, cfactorPercent]
  omega

/-- The table only depends on the number of pages modulo 2^18, which is 4 GiB of them. -/
theorem nrEntries_eq : S.nrEntries =
    (((S.numPages : ℤ).bmod (2 ^ 18) * 360).tdiv 100 % 2 ^ 32).toNat := by
  have product : int32 (int32 (int32 (int32 (S.numBuses * S.numChipsPerBus) *
      S.numBlocksPerChip) * S.numPagesPerBlock) * physicalPageSize) =
      (S.numPages : ℤ).bmod (2 ^ 18) * 4 * logicalPageSize := by
    have cast : (S.numPages : ℤ) =
        S.numBuses * S.numChipsPerBus * S.numBlocksPerChip * S.numPagesPerBlock := by
      simp only [numPages, numBlocks, numChips, Nat.cast_mul]
    simp only [int32, Int.bmod_mul_bmod, ← cast]
    simp only [physicalPageSize, logicalPageSize, nrLpInPp]
    rw [Int.bmod_def, Int.bmod_def]
    omega
  have small : int32 ((S.numPages : ℤ).bmod (2 ^ 18) * 4 * cfactorPercent) =
      (S.numPages : ℤ).bmod (2 ^ 18) * 360 := by
    have lower := Int.le_bmod (x := S.numPages) (m := 2 ^ 18) (by decide)
    have upper := Int.bmod_lt (x := S.numPages) (m := 2 ^ 18) (by decide)
    simp only [int32, cfactorPercent]
    rw [Int.bmod_eq_of_le] <;> omega
  unfold nrEntries
  simp only [product]
  rw [Int.mul_tdiv_cancel _ (by decide), small]

theorem numLogPages_eq : S.numLogPages = S.numPages * 360 / 100 := by
  simp only [numLogPages, nrLpInPp, cfactorPercent]
  omega

theorem nrEntries_of_small (small : S.numPages < 2 ^ 17) : S.nrEntries = S.numLogPages := by
  have same : (S.numPages : ℤ).bmod (2 ^ 18) = S.numPages := by
    apply Int.bmod_eq_of_le <;> omega
  have quotient : ((S.numPages : ℤ) * 360).tdiv 100 = (S.numLogPages : ℕ) := by
    rw [Int.tdiv_eq_ediv_of_nonneg (by omega), numLogPages_eq]
    simp
  have few : S.numLogPages < 2 ^ 32 := by
    rw [numLogPages_eq]
    omega
  rw [nrEntries_eq, same, quotient]
  omega

/-- From 2 GiB on the table is too small, or its size is a negative number taken as a `u32`. -/
theorem nrEntries_of_large (large : 2 ^ 17 ≤ S.numPages) (pages_le : S.numPages ≤ 2 ^ 30) :
    S.nrEntries ≠ S.numLogPages := by
  have lower := Int.le_bmod (x := S.numPages) (m := 2 ^ 18) (by decide)
  have upper := Int.bmod_lt (x := S.numPages) (m := 2 ^ 18) (by decide)
  have many : 471859 ≤ S.numLogPages ∧ S.numLogPages < 4000000000 := by
    rw [numLogPages_eq]
    omega
  rw [nrEntries_eq]
  generalize (S.numPages : ℤ).bmod (2 ^ 18) = rest at lower upper ⊢
  rcases Int.le_total 0 rest with nonneg | nonpos
  · have quotient : (rest * 360).tdiv 100 = rest * 360 / 100 :=
      Int.tdiv_eq_ediv_of_nonneg (by omega)
    have few : 0 ≤ (rest * 360).tdiv 100 ∧ (rest * 360).tdiv 100 < 471859 := by
      rw [quotient]
      omega
    omega
  · have quotient : (rest * 360).tdiv 100 = -(-rest * 360 / 100) := by
      rw [← Int.tdiv_eq_ediv_of_nonneg (by omega), Int.neg_mul, Int.neg_tdiv, Int.neg_neg]
    have negative : -471860 ≤ (rest * 360).tdiv 100 ∧ (rest * 360).tdiv 100 ≤ 0 := by
      rw [quotient]
      omega
    omega

end Capacities

end DeviceSizes

/-- The sizes of a geometry. -/
def Geometry.sizes (G : Geometry) : DeviceSizes :=
  ⟨G.numBuses, G.numChipsPerBus, G.numBlocksPerChip, G.numPagesPerBlock⟩

/-- The L2P table of a device below 2 GiB has an entry for each LPA of the geometry. -/
theorem Geometry.nrEntries_sizes {G : Geometry} (small : G.numPages * physicalPageSize < 2 ^ 31) :
    G.sizes.nrEntries = G.numLogPages := by
  apply DeviceSizes.nrEntries_of_small
  simp only [physicalPageSize, logicalPageSize, nrLpInPp] at small
  change G.numPages < 2 ^ 17
  omega

namespace DeviceSizes

/-- The capacities of an admissible device agree exactly when it holds less than 2 GiB. -/
theorem capacitiesAgree_iff {S : DeviceSizes} (admissible : S.Admissible) :
    S.CapacitiesAgree ↔ S.numPages * physicalPageSize < 2 ^ 31 := by
  have bytes : S.numPages * physicalPageSize < 2 ^ 31 ↔ S.numPages < 2 ^ 17 := by
    simp only [physicalPageSize, logicalPageSize, nrLpInPp]
    omega
  rw [bytes]
  constructor
  · intro agree
    by_contra large
    exact nrEntries_of_large (by omega) admissible.numPages_le agree.nrEntries_eq
  · intro small
    have entries := nrEntries_of_small small
    have pages_le := admissible.numPages_le
    have u32 : S.numLogPages < 2 ^ 32 := by
      simp only [numLogPages, nrLpInPp, cfactorPercent]
      omega
    refine ⟨entries, fun lpa => ?_, fun lpa advertised => ?_⟩
    · rw [entries, isValidAddressRange, Nat.mod_eq_of_lt u32, decide_eq_true_eq]
    · rw [entries]
      exact advertised.trans_le logicalCapacity_div_le

/-- The configured sizes. -/
theorem capacitiesAgree_configured : Geometry.configured.sizes.CapacitiesAgree :=
  (capacitiesAgree_iff ⟨by decide, by decide, by decide, by decide, by decide, by decide,
    by decide, by decide⟩).mpr (by decide)

/-- With four chips and twice as many blocks in each, the table has 1843 entries for 945561
logical pages. -/
theorem not_capacitiesAgree : ¬CapacitiesAgree ⟨1, 4, 342, 192⟩ := by
  intro agree
  have same := agree.nrEntries_eq
  revert same
  decide

end DeviceSizes

end FlashBench
