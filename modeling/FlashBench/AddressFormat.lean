import FlashBench.Content

/-!
# The address format

The format at the extreme of every field, apart from any geometry. Sub-pages and words of 32
bits correspond one to one, so the value `PAGE_UNMAPPED` is the address of a sub-page, too: of
the last one. Every reader of the L2P table takes an LPA on that sub-page for unmapped.
-/

namespace FlashBench

/-- The word stored for a sub-page decodes to it, belongs to no other sub-page, and is not taken
for the absence of a mapping. -/
structure AddressExact (location : Location) : Prop where
  stored : ∀ (G : Geometry) (fb : Fb) (lpa : ℕ), lpa ≠ pageUnmapped →
    (fb.mapLpa G lpa location.block location.page location.slot).getMappedPpa lpa =
      physicalAddress location
  decodes : locate (physicalAddress location) = location
  distinct : ∀ other : Location, other.InFormat →
    physicalAddress other = physicalAddress location → other = location
  isMapping : physicalAddress location ≠ pageUnmapped

theorem getMappedPpa_mapLpa (G : Geometry) (fb : Fb) {lpa : ℕ} (real : lpa ≠ pageUnmapped)
    (location : Location) :
    (fb.mapLpa G lpa location.block location.page location.slot).getMappedPpa lpa =
      physicalAddress location := by
  unfold Fb.getMappedPpa
  rw [Fb.mapLpa_mappings, if_pos real, Function.update_self]

theorem locate_inFormat (address : ℕ) : (locate address).InFormat := by
  rw [locate, convertToSsdLayout_eq]
  refine ⟨?_, ?_, ?_, ?_⟩
  · exact Nat.mod_lt _ (by decide)
  · exact Nat.mod_lt _ (by decide)
  · exact Nat.mod_lt _ (by decide)
  · rw [packedPage_eq]
    simp only [SsdLayout.location, slotOfPage_val, Nat.shiftRight_eq_div_pow, lpPageShift]
    omega

/-- Every word is the address of the sub-page that it decodes to. -/
theorem physicalAddress_locate {address : ℕ} (fits : address < 2 ^ 32) :
    physicalAddress (locate address) = address := by
  rw [(locate_inFormat address).physicalAddress_eq, locate, convertToSsdLayout_eq]
  simp only [SsdLayout.location, SsdLayout.blockId, slotOfPage_val, Nat.shiftRight_eq_div_pow,
    lpPageShift]
  omega

/-- Addresses round-trip in the whole format, and all but the last one mark a mapping. -/
theorem addressExact_iff {location : Location} (inFormat : location.InFormat) :
    (AddressExact location ↔ location ≠ lastSubPage) ∧
      ∀ address < 2 ^ 32,
        (locate address).InFormat ∧ physicalAddress (locate address) = address := by
  constructor
  · constructor
    · intro exact_ last
      exact exact_.isMapping (inFormat.physicalAddress_eq_pageUnmapped_iff.mpr last)
    · intro notLast
      constructor
      · intro G fb lpa real
        exact getMappedPpa_mapLpa G fb real location
      · exact inFormat.locate_physicalAddress
      · intro other otherInFormat same
        rw [← otherInFormat.locate_physicalAddress, same, inFormat.locate_physicalAddress]
      · intro collision
        exact notLast (inFormat.physicalAddress_eq_pageUnmapped_iff.mp collision)
  · intro address fits
    exact ⟨locate_inFormat address, physicalAddress_locate fits⟩

/-- The sub-page before the last one. -/
theorem addressExact_beforeLast : AddressExact ⟨⟨⟨15, 15⟩, 4095⟩, 1023, 2⟩ :=
  (addressExact_iff ⟨by decide, by decide, by decide, by decide⟩).1.mpr (by decide)

/-- The last sub-page of the format has the address `PAGE_UNMAPPED`. -/
theorem not_addressExact : lastSubPage.InFormat ∧ ¬AddressExact lastSubPage := by
  refine ⟨⟨by decide, by decide, by decide, by decide⟩, fun exact_ => ?_⟩
  apply exact_.isMapping
  decide

end FlashBench
