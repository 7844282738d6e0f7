import FlashBench.MapTable

/-!
# The discipline of the flash commands

`EventOk` states what has to hold when an operation of the history was carried
out, in terms of the state at that moment and of the operations before it. The
history is ordered from the newest to the oldest operation.
-/

namespace FlashBench

/-- The pages of a block that were programmed since its last erase, newest first. -/
def programmed (b : BlockId) : List Event → List ℕ
  | [] => []
  | event :: earlier =>
      match event.op with
      | .write block page =>
          if block = b then page :: programmed b earlier else programmed b earlier
      | .erase block => if block = b then [] else programmed b earlier
      | _ => programmed b earlier

/-- The pages `n - 1, ..., 1, 0`. -/
def pagesBelow (n : ℕ) : List ℕ := (List.range n).reverse

theorem pagesBelow_succ (n : ℕ) : pagesBelow (n + 1) = n :: pagesBelow n := by
  simp [pagesBelow, List.range_succ]

/-- The condition under which an operation is allowed. -/
def EventOk (G : Geometry) (event : Event) (earlier : List Event) : Prop :=
  match event.op with
  | .write b pg =>
      G.HasBlock b ∧ pg < G.numPagesPerBlock ∧ programmed b earlier = pagesBelow pg ∧
        ∀ lp, (event.ssdi.pages b pg).pageStatus lp = .free
  | .erase b =>
      G.HasBlock b ∧
        (∀ pg < G.numPagesPerBlock, ∀ lp, (event.ssdi.pages b pg).pageStatus lp ≠ .valid) ∧
          ∀ lpa l, l2p G event.mappings lpa = some l → l.block ≠ b
  | .resetFree b => b ∈ (event.ssdi.chips b.chip).freeBlks
  | .resetUsed b => b ∈ (event.ssdi.chips b.chip).usedBlks
  | .resetDirt b => b ∈ (event.ssdi.chips b.chip).dirtBlks

/-- Every operation of the history was allowed. -/
def HistoryOk (G : Geometry) : List Event → Prop
  | [] => True
  | event :: earlier => EventOk G event earlier ∧ HistoryOk G earlier

theorem HistoryOk.eventOk {G : Geometry} {event : Event} {later earlier : List Event}
    (ok : HistoryOk G (later ++ event :: earlier)) : EventOk G event earlier := by
  induction later with
  | nil => exact ok.1
  | cons newest later ih => exact ih ok.2

end FlashBench
