import Mathlib.Logic.Function.Basic

/-!
# Mutually inverse partial maps

A table and its reverse table describe the same partial bijection when each is
the inverse of the other. Clearing a pair and adding a fresh pair keep them so.
-/

namespace FlashBench

universe u v

section InversePair

variable {Key : Type u} {Place : Type v}

/-- The two partial maps are inverse to each other. -/
def InversePair (forward : Key → Option Place) (backward : Place → Option Key) : Prop :=
  ∀ key place, forward key = some place ↔ backward place = some key

namespace InversePair

variable {forward : Key → Option Place} {backward : Place → Option Key}

theorem empty : InversePair (fun _ : Key => none) (fun _ : Place => none) := by
  intro key place
  simp

theorem forward_injective (inverse : InversePair forward backward) {left right : Key} {place : Place}
    (leftPlace : forward left = some place) (rightPlace : forward right = some place) :
    left = right := by
  have leftKey := (inverse left place).mp leftPlace
  have rightKey := (inverse right place).mp rightPlace
  simpa [leftKey] using rightKey

theorem backward_injective (inverse : InversePair forward backward) {left right : Place} {key : Key}
    (leftKey : backward left = some key) (rightKey : backward right = some key) :
    left = right := by
  have leftPlace := (inverse key left).mpr leftKey
  have rightPlace := (inverse key right).mpr rightKey
  simpa [leftPlace] using rightPlace

variable [DecidableEq Key] [DecidableEq Place]

theorem clear (inverse : InversePair forward backward) {key : Key} {place : Place}
    (paired : forward key = some place) :
    InversePair (Function.update forward key none) (Function.update backward place none) := by
  intro otherKey otherPlace
  have back := (inverse key place).mp paired
  by_cases sameKey : otherKey = key
  · subst otherKey
    by_cases samePlace : otherPlace = place
    · simp [samePlace]
    · have : backward otherPlace ≠ some key := fun found =>
        samePlace (inverse.backward_injective found back)
      simp [samePlace, this]
  · by_cases samePlace : otherPlace = place
    · subst otherPlace
      have : forward otherKey ≠ some place := fun found =>
        sameKey (inverse.forward_injective found paired)
      simp [sameKey, this]
    · simpa [sameKey, samePlace] using inverse otherKey otherPlace

theorem assign (inverse : InversePair forward backward) {key : Key} {place : Place}
    (freeKey : forward key = none) (freePlace : backward place = none) :
    InversePair (Function.update forward key (some place))
      (Function.update backward place (some key)) := by
  intro otherKey otherPlace
  by_cases sameKey : otherKey = key
  · subst otherKey
    by_cases samePlace : otherPlace = place
    · simp [samePlace]
    · have : backward otherPlace ≠ some key := fun found => by
        have := (inverse key otherPlace).mpr found
        simp [freeKey] at this
      simp [samePlace, this, Ne.symm samePlace]
  · by_cases samePlace : otherPlace = place
    · subst otherPlace
      have : forward otherKey ≠ some place := fun found => by
        have := (inverse otherKey place).mp found
        simp [freePlace] at this
      simp [sameKey, this, Ne.symm sameKey]
    · simpa [sameKey, samePlace] using inverse otherKey otherPlace

end InversePair

end InversePair

end FlashBench
