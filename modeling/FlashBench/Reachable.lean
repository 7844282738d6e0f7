import Mathlib.Data.Fin.VecNotation
import FlashBench.Creation

/-!
# Runs of the flash translation layer

A run starts with creation and goes on with host writes, invalidations (the early
invalidation of a write request and discards), foreground and background garbage
collection in any order. Commands may fail; the run goes on from the state they
leave behind.
-/

namespace FlashBench

/-- What the host and the background thread ask of the flash translation layer. -/
inductive Command where
  /-- `make_write_request_page_mapping` -/
  | write (lpas : Slot → ℕ) (src : Slot → PageData)
  /-- `_fb_del_invalidate_pgs`, for a write request or a discard -/
  | invalidate (lpas : List ℕ)
  /-- `trigger_gc_page_mapping` -/
  | foregroundGc
  /-- `trigger_bg_gc` -/
  | backgroundGc

namespace Command

/-- Every LPA of the command is an entry of the L2P table. -/
def InRange (G : Geometry) : Command → Prop
  | write lpas _ => ∀ lp, lpas lp < G.numLogPages
  | invalidate lpas => ∀ lpa ∈ lpas, lpa < G.numLogPages
  | foregroundGc => True
  | backgroundGc => True

/-- Carry out a command. -/
def exec (G : Geometry) (fb : Fb) : Command → Ret × Fb
  | write lpas src => fb.makeWriteRequest G lpas src
  | invalidate lpas => (.ok, fb.delInvalidatePgs G lpas)
  | foregroundGc => fb.triggerGcPageMapping G
  | backgroundGc => fb.triggerBgGc G

instance (G : Geometry) (command : Command) : Decidable (command.InRange G) :=
  match command with
  | write _ _ => inferInstanceAs (Decidable (∀ _, _))
  | invalidate _ => inferInstanceAs (Decidable (∀ _ ∈ _, _))
  | foregroundGc => .isTrue trivial
  | backgroundGc => .isTrue trivial

/-- Carry out commands one after another, whatever they return. -/
def execAll (G : Geometry) (fb : Fb) (commands : List Command) : Fb :=
  commands.foldl (fun fb command => (command.exec G fb).2) fb

end Command

/-- The states of all runs. Commands may fail. -/
inductive Reachable (G : Geometry) (garbage : Garbage) : Fb → Prop where
  | create {fb : Fb} (created : Fb.create G garbage = some fb) : Reachable G garbage fb
  | exec {fb : Fb} (reachable : Reachable G garbage fb) (command : Command)
      (inRange : command.InRange G) : Reachable G garbage (command.exec G fb).2

theorem Reachable.execAll {G : Geometry} {garbage : Garbage} {fb : Fb}
    (reachable : Reachable G garbage fb) {commands : List Command}
    (inRange : ∀ command ∈ commands, command.InRange G) :
    Reachable G garbage (Command.execAll G fb commands) :=
  foldl_preserves (Reachable G garbage)
    (fun command mem _ reachable => reachable.exec command (inRange command mem)) reachable

theorem Inv.exec {G : Geometry} {fb : Fb} (inv : Inv G .rest fb) (command : Command)
    (inRange : command.InRange G) : Inv G .rest (command.exec G fb).2 := by
  cases command with
  | write lpas src => exact inv.makeWriteRequest (fun lp => Or.inr (inRange lp)) src
  | invalidate lpas => exact inv.delInvalidatePgs inRange
  | foregroundGc => exact inv.triggerGcPageMapping
  | backgroundGc => exact inv.triggerBgGc

/-- The invariant holds in every state of every run. -/
theorem Reachable.inv {G : Geometry} {garbage : Garbage} {fb : Fb}
    (reachable : Reachable G garbage fb) : Inv G .rest fb := by
  induction reachable with
  | create created => exact (Created.of_create created).inv
  | exec _ command inRange ih => exact ih.exec command inRange

/-- The states of the runs whose commands are allowed in the state in which they are given. -/
inductive Run (G : Geometry) (garbage : Garbage) (allowed : Fb → Command → Prop) : Fb → Prop where
  | create {fb : Fb} (created : Fb.create G garbage = some fb) : Run G garbage allowed fb
  | exec {fb : Fb} (run : Run G garbage allowed fb) (command : Command)
      (inRange : command.InRange G) (isAllowed : allowed fb command) :
      Run G garbage allowed (command.exec G fb).2

theorem Run.reachable {G : Geometry} {garbage : Garbage} {allowed : Fb → Command → Prop} {fb : Fb}
    (run : Run G garbage allowed fb) : Reachable G garbage fb := by
  induction run with
  | create created => exact .create created
  | exec _ command inRange _ ih => exact ih.exec command inRange

theorem Run.mono {G : Geometry} {garbage : Garbage} {allowed wider : Fb → Command → Prop} {fb : Fb}
    (run : Run G garbage allowed fb) (weaker : ∀ fb command, allowed fb command → wider fb command) :
    Run G garbage wider fb := by
  induction run with
  | create created => exact .create created
  | exec _ command inRange isAllowed ih => exact ih.exec command inRange (weaker _ _ isAllowed)

/-- Each command is allowed in the state that the ones before it lead to. -/
def Command.AllAllowed (G : Geometry) (allowed : Fb → Command → Prop) : Fb → List Command → Prop
  | _, [] => True
  | fb, command :: rest =>
      (command.InRange G ∧ allowed fb command) ∧
        Command.AllAllowed G allowed (command.exec G fb).2 rest

instance Command.decidableAllAllowed (G : Geometry) (allowed : Fb → Command → Prop)
    [∀ fb command, Decidable (allowed fb command)] :
    (fb : Fb) → (commands : List Command) → Decidable (Command.AllAllowed G allowed fb commands)
  | _, [] => .isTrue trivial
  | fb, command :: rest =>
      have := Command.decidableAllAllowed G allowed (command.exec G fb).2 rest
      inferInstanceAs (Decidable (_ ∧ _))

theorem Run.execAll {G : Geometry} {garbage : Garbage} {allowed : Fb → Command → Prop} {fb : Fb}
    (run : Run G garbage allowed fb) {commands : List Command}
    (allAllowed : Command.AllAllowed G allowed fb commands) :
    Run G garbage allowed (Command.execAll G fb commands) := by
  induction commands generalizing fb with
  | nil => exact run
  | cons command rest ih =>
      rcases allAllowed with ⟨⟨inRange, isAllowed⟩, others⟩
      exact ih (run.exec command inRange isAllowed) others

/-- The device as configured after its creation. -/
@[irreducible]
def newFb : Fb :=
  (Fb.create .configured .zeroed).get (Fb.create_isSome .configured .zeroed (by decide))

theorem newFb_created : Fb.create .configured .zeroed = some newFb := by
  unfold newFb
  exact (Option.some_get _).symm

/-- One bus with two chips of three blocks of one page each. -/
def Geometry.threeBlocks : Geometry := .ofSizes 1 2 3 1 (by decide)

/-- The device with three blocks on each chip after its creation. -/
def threeBlocksFb : Fb :=
  (Fb.create .threeBlocks .zeroed).get (Fb.create_isSome .threeBlocks .zeroed (by decide))

theorem threeBlocksFb_created : Fb.create .threeBlocks .zeroed = some threeBlocksFb :=
  (Option.some_get _).symm

/-- Two blocks of each chip are filled, and half of the first ones is written once more. -/
def fillBlocks : List Command :=
  [.write ![0, 1, 2, 3] fun _ => filledPage 0, .write ![4, 5, 6, 7] fun _ => filledPage 0,
    .write ![0, 1, 8, 9] fun _ => filledPage 1, .write ![4, 5, 10, 11] fun _ => filledPage 1]

/-- The next write finds no page, so the first blocks are collected: their other half is copied
to one of the erased GC blocks. -/
def collectBlocks : List Command := fillBlocks ++ [.write ![0, 1, 12, 13] fun _ => filledPage 2]

/-- The device before the collection of the first blocks. -/
@[irreducible]
def filledFb : Fb := Command.execAll .threeBlocks threeBlocksFb fillBlocks

/-- The device after the collection of the first blocks. -/
@[irreducible]
def collectedFb : Fb := Command.execAll .threeBlocks threeBlocksFb collectBlocks

theorem filledFb_reachable : Reachable .threeBlocks .zeroed filledFb := by
  unfold filledFb
  apply (Reachable.create threeBlocksFb_created).execAll
  decide

theorem collectedFb_reachable : Reachable .threeBlocks .zeroed collectedFb := by
  unfold collectedFb
  apply (Reachable.create threeBlocksFb_created).execAll
  decide

end FlashBench
