import Mathlib.Algebra.Order.Ring.Nat
import Mathlib.Logic.Relation
import Mathlib.Tactic.Ring

/-!
# What it costs to clean a log

A log is written page by page. When no page is left, a cleaning makes `capacity` pages
available and moves what is still alive in them, at most `copyMax` pages of it. Every
cleaning is preceded by as many programs as it makes pages available, so that the copies
are at most the share `copyMax / capacity` of all programs, whatever is written and when.
-/

namespace FlashBench

namespace LogCleaning

/-- The pages left in a log, and those programmed since its beginning: for its user and by
cleanings. -/
structure LogUse where
  left : ℕ
  written : ℕ
  copied : ℕ

/-- All pages programmed. -/
def LogUse.programmed (use : LogUse) : ℕ := use.written + use.copied

/-- One page is written, or a full log is cleaned. -/
inductive LogStep (capacity copyMax : ℕ) : LogUse → LogUse → Prop where
  | write (left written copied : ℕ) :
      LogStep capacity copyMax ⟨left + 1, written, copied⟩ ⟨left, written + 1, copied⟩
  | clean (written copied : ℕ) {left copies : ℕ} (few : copies ≤ copyMax)
      (opened : left + copies = capacity) :
      LogStep capacity copyMax ⟨0, written, copied⟩ ⟨left, written, copied + copies⟩

/-- Any number of steps. -/
abbrev LogSteps (capacity copyMax : ℕ) : LogUse → LogUse → Prop :=
  Relation.ReflTransGen (LogStep capacity copyMax)

/-- The accounts of a log that began with `start` pages after some cleanings. -/
structure Accounts (capacity copyMax start : ℕ) (use : LogUse) (cleanings : ℕ) : Prop where
  pages : use.left + use.programmed = start + capacity * cleanings
  copied_le : use.copied ≤ copyMax * cleanings
  /-- A cleaning makes no more pages available than have been used up before it. -/
  cleanings_le : capacity * cleanings ≤ use.programmed

variable {capacity copyMax start : ℕ} {use next : LogUse} {cleanings : ℕ}

theorem Accounts.begin (capacity copyMax start : ℕ) :
    Accounts capacity copyMax start ⟨start, 0, 0⟩ 0 where
  pages := by simp [LogUse.programmed]
  copied_le := Nat.zero_le _
  cleanings_le := Nat.zero_le _

theorem Accounts.step (accounts : Accounts capacity copyMax start use cleanings)
    (enough : capacity ≤ start) (step : LogStep capacity copyMax use next) :
    ∃ cleanings, Accounts capacity copyMax start next cleanings := by
  rcases accounts with ⟨pages, copied_le, cleanings_le⟩
  cases step with
  | write left written copied =>
      simp only [LogUse.programmed] at pages cleanings_le
      refine ⟨cleanings, ?_, copied_le, ?_⟩
      · simp only [LogUse.programmed]
        omega
      · simp only [LogUse.programmed]
        omega
  | clean written copied few opened =>
      simp only [LogUse.programmed] at pages cleanings_le
      simp only at copied_le
      refine ⟨cleanings + 1, ?_, ?_, ?_⟩
      · simp only [LogUse.programmed, Nat.mul_succ]
        omega
      · simp only [Nat.mul_succ]
        omega
      · simp only [LogUse.programmed, Nat.mul_succ]
        omega

theorem accounts_of_steps (enough : capacity ≤ start)
    (steps : LogSteps capacity copyMax ⟨start, 0, 0⟩ use) :
    ∃ cleanings, Accounts capacity copyMax start use cleanings := by
  induction steps with
  | refl => exact ⟨0, .begin capacity copyMax start⟩
  | tail _ step before =>
      rcases before with ⟨cleanings, accounts⟩
      exact accounts.step enough step

/-- The copies are at most the share `copyMax / capacity` of all programs. -/
theorem copied_le_of_steps (enough : capacity ≤ start)
    (steps : LogSteps capacity copyMax ⟨start, 0, 0⟩ use) :
    capacity * use.copied ≤ copyMax * use.programmed := by
  rcases accounts_of_steps enough steps with ⟨cleanings, accounts⟩
  calc capacity * use.copied
      ≤ capacity * (copyMax * cleanings) := Nat.mul_le_mul_left _ accounts.copied_le
    _ = copyMax * (capacity * cleanings) := by ring
    _ ≤ copyMax * use.programmed := Nat.mul_le_mul_left _ accounts.cleanings_le

/-- Hence what is written for the user bounds all programs. -/
theorem programmed_le_of_steps (enough : capacity ≤ start)
    (steps : LogSteps capacity copyMax ⟨start, 0, 0⟩ use) :
    (capacity - copyMax) * use.programmed ≤ capacity * use.written := by
  have copied_le := copied_le_of_steps enough steps
  have parts : capacity * use.programmed = capacity * use.written + capacity * use.copied :=
    Nat.mul_add _ _ _
  rw [Nat.sub_mul]
  omega

end LogCleaning

end FlashBench
