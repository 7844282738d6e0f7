import Mathlib

/-!
# Byte memory

A memory assigns a byte to every address. Copying, filling and storing a word write a range of
addresses and leave the others alone. Records of one size that lie one after another tile their
range, and so do records of records.
-/

namespace FlashBench

/-- The byte at each address. -/
abbrev Memory := ℕ → UInt8

/-- The addresses of some bytes from an address on. -/
def byteRange (address length : ℕ) : Set ℕ := Set.Ico address (address + length)

section Ranges

variable {address base length size count i j : ℕ}

@[simp]
theorem mem_byteRange : i ∈ byteRange address length ↔ address ≤ i ∧ i < address + length := Iff.rfl

theorem byteRange_subset {inner innerLength : ℕ} (lower : address ≤ inner)
    (upper : inner + innerLength ≤ address + length) :
    byteRange inner innerLength ⊆ byteRange address length :=
  Set.Ico_subset_Ico lower upper

theorem record_subset (inside : i < count) :
    byteRange (base + i * size) size ⊆ byteRange base (count * size) := by
  have bound : (i + 1) * size ≤ count * size := Nat.mul_le_mul_right size inside
  rw [Nat.add_mul, Nat.one_mul] at bound
  apply byteRange_subset <;> omega

theorem record_disjoint (different : i ≠ j) :
    Disjoint (byteRange (base + i * size) size) (byteRange (base + j * size) size) := by
  have apart (low high : ℕ) (order : low < high) :
      Disjoint (byteRange (base + low * size) size) (byteRange (base + high * size) size) := by
    have bound : (low + 1) * size ≤ high * size := Nat.mul_le_mul_right size order
    rw [Nat.add_mul, Nat.one_mul] at bound
    rw [Set.disjoint_left]
    intro a inLow inHigh
    rw [mem_byteRange] at inLow inHigh
    omega
  rcases Nat.lt_or_gt_of_ne different with order | order
  · exact apart i j order
  · exact (apart j i order).symm

/-- Records that lie one after another tile their range. -/
theorem iUnion_record (base size count : ℕ) :
    (⋃ i < count, byteRange (base + i * size) size) = byteRange base (count * size) := by
  apply Set.Subset.antisymm
  · exact Set.iUnion₂_subset fun i inside => record_subset inside
  · intro a inside
    rw [mem_byteRange] at inside
    have offset_lt : a - base < count * size := by omega
    have size_pos : 0 < size := by
      apply Nat.pos_of_ne_zero
      rintro rfl
      omega
    have split := Nat.div_add_mod (a - base) size
    have rest_lt := Nat.mod_lt (a - base) size_pos
    rw [Nat.mul_comm] at split
    rw [Set.mem_iUnion₂]
    refine ⟨(a - base) / size, ?_, ?_⟩
    · exact Nat.div_lt_of_lt_mul (by rwa [Nat.mul_comm])
    · rw [mem_byteRange]
      omega

/-- A mixed radix number determines its two digits. -/
theorem digits_injective {high low otherHigh otherLow radix : ℕ} (low_lt : low < radix)
    (otherLow_lt : otherLow < radix) (same : high * radix + low = otherHigh * radix + otherLow) :
    high = otherHigh ∧ low = otherLow := by
  have lows : low = otherLow := by
    have rests := congrArg (· % radix) same
    simp only [Nat.mul_add_mod'] at rests
    rwa [Nat.mod_eq_of_lt low_lt, Nat.mod_eq_of_lt otherLow_lt] at rests
  subst lows
  refine ⟨?_, rfl⟩
  apply Nat.eq_of_mul_eq_mul_right (Nat.zero_lt_of_lt low_lt)
  omega

end Ranges

namespace Memory

variable {memory other source : Memory} {a dest src length offset width value : ℕ} {byte : UInt8}

/-- `memcpy` from another memory. -/
def copy (memory : Memory) (dest : ℕ) (source : Memory) (src length : ℕ) : Memory := fun a =>
  if dest ≤ a ∧ a < dest + length then source (src + (a - dest)) else memory a

/-- `memset`. -/
def fill (memory : Memory) (dest : ℕ) (byte : UInt8) (length : ℕ) : Memory := fun a =>
  if dest ≤ a ∧ a < dest + length then byte else memory a

/-- Store a little-endian word of some bytes. -/
def store (memory : Memory) (dest width value : ℕ) : Memory := fun a =>
  if dest ≤ a ∧ a < dest + width then UInt8.ofNat (value / 256 ^ (a - dest)) else memory a

/-- Load a little-endian word of some bytes. -/
def load (memory : Memory) (src : ℕ) : ℕ → ℕ
  | 0 => 0
  | width + 1 => (memory src).toNat + 256 * memory.load (src + 1) width

theorem copy_add (inside : offset < length) :
    memory.copy dest source src length (dest + offset) = source (src + offset) := by
  simp [copy, inside]

theorem copy_of_notMem (outside : a ∉ byteRange dest length) :
    memory.copy dest source src length a = memory a :=
  if_neg outside

theorem fill_of_mem (inside : a ∈ byteRange dest length) : memory.fill dest byte length a = byte :=
  if_pos inside

theorem fill_of_notMem (outside : a ∉ byteRange dest length) :
    memory.fill dest byte length a = memory a :=
  if_neg outside

theorem load_congr (same : ∀ a ∈ byteRange src width, other a = memory a) :
    other.load src width = memory.load src width := by
  induction width generalizing src with
  | zero => rfl
  | succ width ih =>
      have first : other src = memory src := by
        apply same
        rw [mem_byteRange]
        omega
      have rest : other.load (src + 1) width = memory.load (src + 1) width := by
        apply ih
        intro a inside
        apply same
        rw [mem_byteRange] at inside ⊢
        omega
      rw [load, load, first, rest]

/-- A word that fits is loaded as it was stored. -/
theorem load_store (fits : value < 256 ^ width) :
    (memory.store dest width value).load dest width = value := by
  induction width generalizing dest value with
  | zero =>
      rw [load]
      omega
  | succ width ih =>
      have rest : (memory.store dest (width + 1) value).load (dest + 1) width =
          (memory.store (dest + 1) width (value / 256)).load (dest + 1) width := by
        apply load_congr
        intro a inside
        rw [mem_byteRange] at inside
        have next : a - dest = a - (dest + 1) + 1 := by omega
        have here : dest ≤ a ∧ a < dest + (width + 1) := by omega
        rw [store, store, if_pos here, if_pos inside, next, Nat.pow_succ', Nat.div_div_eq_div_mul]
      have first : (memory.store dest (width + 1) value dest).toNat = value % 256 := by
        simp [store]
      rw [load, rest, first, ih]
      · exact Nat.mod_add_div value 256
      · rw [Nat.pow_succ] at fits
        exact Nat.div_lt_of_lt_mul (by rwa [Nat.mul_comm])

end Memory

end FlashBench
