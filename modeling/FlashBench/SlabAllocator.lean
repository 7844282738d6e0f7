import FlashBench.Library.Alignment
import FlashBench.Library.Memory

/-!
# The slab allocator

`alloc.rs`: the global allocator of the Rust part over `__kmalloc`. Blocks with an alignment
above `KMALLOC_ALIGN` are padded, and the address of the block is saved behind the memory that
the caller gets. Sums of `usize` wrap around.
-/

namespace FlashBench

/-- `KMALLOC_ALIGN`, the alignment of `u64`. -/
def kmallocAlign : ℕ := 8

/-- `size_of::<usize>()` -/
def sizeOfUsize : ℕ := 8

/-- `Layout`: a size, which `alloc` assumes not to be 0, and a power of two. -/
structure Layout where
  size : ℕ
  align : ℕ
  size_pos : 0 < size
  align_pow : ∃ k, align = 2 ^ k

namespace SlabAllocator

/-- What `alloc` does: the size that it asks `__kmalloc` for, the pointer that it returns and the
address and the value of its store. -/
structure Allocation where
  requested : ℕ
  ptr : ℕ
  stored : Option (ℕ × ℕ)
  deriving DecidableEq

/-- `SlabAllocator::alloc` when `__kmalloc` returns `addr`. -/
def alloc (layout : Layout) (addr : ℕ) : Allocation :=
  if layout.align ≤ kmallocAlign then ⟨layout.size, addr, none⟩
  else
    let pad := layout.align - kmallocAlign + sizeOfUsize
    let aligned := (addr + layout.align - 1) % 2 ^ 64 &&& (2 ^ 64 - 1 - (layout.align - 1))
    ⟨(layout.size + pad) % 2 ^ 64, aligned, some ((aligned + layout.size) % 2 ^ 64, addr)⟩

/-- The memory after the store of `alloc`. -/
def Allocation.memory (allocation : Allocation) (memory : Memory) : Memory :=
  match allocation.stored with
  | none => memory
  | some (slot, value) => memory.store slot sizeOfUsize value

/-- `SlabAllocator::dealloc`: the address that it passes to `kfree`. -/
def dealloc (layout : Layout) (ptr : ℕ) (memory : Memory) : ℕ :=
  if layout.align ≤ kmallocAlign then ptr
  else memory.load ((ptr + layout.size) % 2 ^ 64) sizeOfUsize

/-- The sums that `alloc` computes for a padded block do not overflow. -/
structure SumsFit (layout : Layout) (addr : ℕ) : Prop where
  requested_lt : layout.size + (layout.align - kmallocAlign + sizeOfUsize) < 2 ^ 64
  addr_lt : addr + layout.align < 2 ^ 64
  slot_lt : alignUp addr layout.align + layout.size < 2 ^ 64

/-- The memory that the caller gets and the saved pointer lie apart in an aligned block, and
`dealloc` finds the address of the block whatever the caller has written. -/
structure AllocSound (layout : Layout) (addr : ℕ) : Prop where
  null : addr = 0 → (alloc layout addr).ptr = 0 ∧ (alloc layout addr).stored = none
  aligned : addr ≠ 0 → layout.align ∣ (alloc layout addr).ptr
  inside : addr ≠ 0 → byteRange (alloc layout addr).ptr layout.size ⊆
    byteRange addr (alloc layout addr).requested
  saved : addr ≠ 0 → kmallocAlign < layout.align →
    (alloc layout addr).stored = some ((alloc layout addr).ptr + layout.size, addr) ∧
      Disjoint (byteRange (alloc layout addr).ptr layout.size)
        (byteRange ((alloc layout addr).ptr + layout.size) sizeOfUsize) ∧
      byteRange ((alloc layout addr).ptr + layout.size) sizeOfUsize ⊆
        byteRange addr (alloc layout addr).requested
  freed : addr ≠ 0 → ∀ memory after : Memory,
    (∀ a ∉ byteRange (alloc layout addr).ptr layout.size,
      after a = (alloc layout addr).memory memory a) →
    dealloc layout (alloc layout addr).ptr after = addr

section Sound

variable {layout : Layout} {addr : ℕ}

theorem align_pos (layout : Layout) : 0 < layout.align := by
  rcases layout.align_pow with ⟨k, align_eq⟩
  rw [align_eq]
  exact Nat.two_pow_pos k

/-- Powers of two divide each other. -/
theorem dvd_kmallocAlign (small : layout.align ≤ kmallocAlign) : layout.align ∣ kmallocAlign := by
  rcases layout.align_pow with ⟨k, align_eq⟩
  rw [align_eq] at small ⊢
  have k_le : k ≤ 3 := (Nat.pow_le_pow_iff_right (by decide : 1 < 2)).mp small
  exact Nat.pow_dvd_pow 2 k_le

theorem kmallocAlign_dvd (large : kmallocAlign < layout.align) : kmallocAlign ∣ layout.align := by
  rcases layout.align_pow with ⟨k, align_eq⟩
  rw [align_eq] at large ⊢
  have k_ge : 3 < k := (Nat.pow_lt_pow_iff_right (by decide : 1 < 2)).mp large
  exact Nat.pow_dvd_pow 2 k_ge.le

theorem alloc_small (small : layout.align ≤ kmallocAlign) :
    alloc layout addr = ⟨layout.size, addr, none⟩ := if_pos small

/-- Without overflow a padded block has the alignment of the layout more than its size, and the
pointer is the address rounded up. -/
theorem alloc_large (large : kmallocAlign < layout.align) (fit : SumsFit layout addr) :
    alloc layout addr = ⟨layout.size + layout.align, alignUp addr layout.align,
      some (alignUp addr layout.align + layout.size, addr)⟩ := by
  have align_pos := align_pos layout
  have rounded : (addr + layout.align - 1) % 2 ^ 64 &&& (2 ^ 64 - 1 - (layout.align - 1)) =
      alignUp addr layout.align := by
    have addr_lt := fit.addr_lt
    rcases layout.align_pow with ⟨k, align_eq⟩
    have k_lt : k < 64 := by
      apply (Nat.pow_lt_pow_iff_right (by decide : 1 < 2)).mp
      omega
    have complement : 2 ^ 64 - 1 - (layout.align - 1) = 2 ^ 64 - 2 ^ k := by omega
    have sum_lt : addr + layout.align - 1 < 2 ^ 64 := by omega
    rw [Nat.mod_eq_of_lt sum_lt, complement, and_highBits_eq sum_lt k_lt.le, alignUp, align_eq]
  have padding : layout.align - kmallocAlign + sizeOfUsize = layout.align :=
    Nat.sub_add_cancel large.le
  have requested_lt := fit.requested_lt
  rw [padding] at requested_lt
  rw [alloc, if_neg (Nat.not_le.mpr large)]
  simp only [rounded, padding, Nat.mod_eq_of_lt requested_lt, Nat.mod_eq_of_lt fit.slot_lt]

/-- The slot ends where the block does at the latest. -/
theorem slot_le (large : kmallocAlign < layout.align) (onGrid : kmallocAlign ∣ addr) :
    alignUp addr layout.align + layout.size + sizeOfUsize ≤
      addr + (layout.size + layout.align) := by
  have shift := alignUp_add_le (align_pos layout) onGrid (kmallocAlign_dvd large)
  simp only [kmallocAlign, sizeOfUsize] at shift ⊢
  omega

theorem allocSound_small (small : layout.align ≤ kmallocAlign) (onGrid : kmallocAlign ∣ addr) :
    AllocSound layout addr := by
  have result : alloc layout addr = ⟨layout.size, addr, none⟩ := alloc_small small
  constructor
  · intro null
    rw [result]
    exact ⟨null, rfl⟩
  · intro _
    rw [result]
    exact (dvd_kmallocAlign small).trans onGrid
  · intro _
    rw [result]
  · intro _ large
    exact absurd small (Nat.not_le.mpr large)
  · intro _ memory after _
    rw [result, dealloc, if_pos small]

theorem allocSound_large (large : kmallocAlign < layout.align) (onGrid : kmallocAlign ∣ addr)
    (fit : SumsFit layout addr) (notNull : addr ≠ 0) : AllocSound layout addr := by
  have result := alloc_large large fit
  have lower : addr ≤ alignUp addr layout.align := le_alignUp (align_pos layout)
  have upper := slot_le large onGrid
  have addr_lt : addr < 256 ^ sizeOfUsize := (Nat.le_add_right _ _).trans_lt fit.addr_lt
  have apart : Disjoint (byteRange (alignUp addr layout.align) layout.size)
      (byteRange (alignUp addr layout.align + layout.size) sizeOfUsize) := by
    rw [Set.disjoint_left]
    intro a inBlock inSlot
    rw [mem_byteRange] at inBlock inSlot
    omega
  constructor
  · intro null
    exact absurd null notNull
  · intro _
    rw [result]
    exact dvd_alignUp
  · intro _
    rw [result]
    exact byteRange_subset lower ((Nat.le_add_right _ _).trans upper)
  · intro _ _
    rw [result]
    exact ⟨rfl, apart, byteRange_subset (lower.trans (Nat.le_add_right _ _)) upper⟩
  · intro _ memory after kept
    rw [result] at kept ⊢
    simp only [Allocation.memory] at kept
    rw [dealloc, if_neg (Nat.not_le.mpr large), Nat.mod_eq_of_lt fit.slot_lt]
    calc
      after.load (alignUp addr layout.align + layout.size) sizeOfUsize
          = (memory.store (alignUp addr layout.align + layout.size) sizeOfUsize addr).load
              (alignUp addr layout.align + layout.size) sizeOfUsize := by
        apply Memory.load_congr
        intro a inSlot
        apply kept
        exact Set.disjoint_right.mp apart inSlot
      _ = addr := Memory.load_store addr_lt

/-- The allocator is sound exactly when `__kmalloc` has returned a block or nothing is stored
in it. -/
theorem allocSound_iff (onGrid : kmallocAlign ∣ addr)
    (fit : kmallocAlign < layout.align → SumsFit layout addr) :
    AllocSound layout addr ↔ layout.align ≤ kmallocAlign ∨ addr ≠ 0 := by
  constructor
  · intro sound
    rw [Classical.or_iff_not_imp_left]
    intro notSmall null
    have large : kmallocAlign < layout.align := Nat.not_le.mp notSmall
    have nothing := (sound.null null).2
    rw [alloc_large large (fit large)] at nothing
    simp at nothing
  · rintro (small | notNull)
    · exact allocSound_small small onGrid
    · by_cases small : layout.align ≤ kmallocAlign
      · exact allocSound_small small onGrid
      · have large : kmallocAlign < layout.align := Nat.not_le.mp small
        exact allocSound_large large onGrid (fit large) notNull

end Sound

/-- One byte on a boundary of 16. -/
def oneByte : Layout := ⟨1, 16, Nat.one_pos, 4, rfl⟩

theorem allocSound_oneByte : AllocSound oneByte 0xffff888000000008 := by
  have fit : SumsFit oneByte 0xffff888000000008 := ⟨by decide, by decide, by decide⟩
  exact (allocSound_iff (by decide) fun _ => fit).mpr (Or.inr (by decide))

/-- When `__kmalloc` has no memory the store goes to the address that is the size of the
layout. -/
theorem not_allocSound : ¬AllocSound oneByte 0 := by
  intro sound
  have stored : (alloc oneByte 0).stored = some (1, 0) := by decide
  have nothing := (sound.null rfl).2
  rw [stored] at nothing
  simp at nothing

end SlabAllocator

end FlashBench
