import FlashBench.BusController
import FlashBench.ReadBio

/-!
# Read requests

Read requests on top of the bus controllers: any number of bios, each with its own submitter,
and any number of buses, whose threads return the bios of the chips that they release. The
submitters run next to each other here, so the runs contain those that the device lock allows.

A pointer to a descriptor is a bio together with the page that the operation reads; the page is
a ghost. Within `release_busy_lock`, the decrement, `bio_endio`, `vfree` and the reset of the
pointer are steps of their own.
-/

namespace FlashBench

/-- What comes next in `release_busy_lock` for a chip with a bio. -/
inductive ReleaseStage where
  | dec
  | endio
  | free
  | clear
  deriving DecidableEq

/-- Bus controllers, how far each thread is with the bio it returns, and bios. -/
structure ReadSystem where
  buses : ℕ → BusController (ℕ × ℕ)
  stages : ℕ → ReleaseStage
  bios : ℕ → ReadBio

/-- What may happen next. -/
inductive ReadAction where
  /-- `fb_build_bio` -/
  | build (bio : ℕ) (hits : List Bool)
  /-- a step of `make_request`: where the page is that it looks up, if it is mapped -/
  | submit (bio : ℕ) (place : Option (ℕ × ℕ))
  /-- an attempt to put another operation into a queue -/
  | put (bus chip : ℕ) (operation : FbDevOp)
  /-- a step of the thread of a bus -/
  | thread (bus time : ℕ) (stop : Bool)

namespace ReadSystem

/-- Before the first request. -/
def create (numMaxEntriesPerChip : ℕ) (oprList : ℕ → ℕ → ℕ → FbOperation (ℕ × ℕ)) :
    ReadSystem where
  buses := fun bus => .create numMaxEntriesPerChip (oprList bus)
  stages := fun _ => .dec
  bios := fun _ => .unbuilt

/-- Change a request. -/
def setBio (bio : ℕ) (next : ReadBio) (sys : ReadSystem) : ReadSystem :=
  { sys with bios := Function.update sys.bios bio next }

/-- Change where the thread of a bus is in the return of a request. -/
def setStage (bus : ℕ) (stage : ReleaseStage) (sys : ReadSystem) : ReadSystem :=
  { sys with stages := Function.update sys.stages bus stage }

/-- Change a bus controller. -/
def setBus (bus : ℕ) (next : BusController (ℕ × ℕ)) (sys : ReadSystem) : ReadSystem :=
  { sys with buses := Function.update sys.buses bus next }

/-- The operation that reads a page. -/
def readEntry (bio page : ℕ) : FbOperation (ℕ × ℕ) := ⟨.opRead, some (bio, page)⟩

/-- One attempt of `fb_issue_operation` for a page. -/
def issue (bio page : ℕ) (place : ℕ × ℕ) (sys : ReadSystem) : ReadSystem :=
  let bus := sys.buses place.1
  if ((bus.oprQueues place.2).putEntry (readEntry bio page)).1 then
    (sys.setBus place.1 (bus.put place.2 (readEntry bio page))).setBio bio
      (((sys.bios bio).place page (.queued place)).goto (.loop (page + 1)))
  else sys

/-- One step of `make_request`. -/
def submitStep (bio : ℕ) (place : Option (ℕ × ℕ)) (sys : ReadSystem) : ReadSystem :=
  let fbio := sys.bios bio
  match fbio.submit with
  | .unbuilt => sys
  | .test => sys.setBio bio fbio.test
  | .endioEmpty => sys.setBio bio ((fbio.callEndio .submitter).goto .freeEmpty)
  | .freeEmpty => sys.setBio bio (fbio.callFree.goto .finished)
  | .loop page =>
      if page < fbio.total then
        match place with
        | none => sys.setBio bio (fbio.access.goto (.dec page))
        | some place => sys.setBio bio (fbio.access.goto (.issue page place))
      else sys.setBio bio (fbio.goto .finished)
  | .issue page place => sys.issue bio page place
  | .dec page =>
      let next := fbio.decReqCount .submitter page
      sys.setBio bio (next.goto (if next.reqCount = 0 then .endio page else .loop (page + 1)))
  | .endio page => sys.setBio bio ((fbio.callEndio .submitter).goto (.free page))
  | .free page => sys.setBio bio (fbio.callFree.goto (.loop (page + 1)))
  | .finished => sys

/-- A step of a thread that does not touch a bio. -/
def advance (numChipsPerBus bus time : ℕ) (stop : Bool) (sys : ReadSystem) : ReadSystem :=
  sys.setBus bus ((sys.buses bus).threadStep numChipsPerBus time stop)

/-- The page of an operation is being read. -/
def markBusy (place : ℕ × ℕ) (entry : FbOperation (ℕ × ℕ)) (sys : ReadSystem) : ReadSystem :=
  match entry.ptrFbBio with
  | none => sys
  | some (bio, page) => sys.setBio bio ((sys.bios bio).place page (.busy place))

/-- One step of `release_busy_lock` for a chip with a bio. -/
def returnStep (numChipsPerBus bus time : ℕ) (stop : Bool) (bio page : ℕ) (sys : ReadSystem) :
    ReadSystem :=
  match sys.stages bus with
  | .dec =>
      let next := (sys.bios bio).decReqCount (.bus bus) page
      (sys.setBio bio next).setStage bus (if next.reqCount = 0 then .endio else .clear)
  | .endio => (sys.setBio bio ((sys.bios bio).callEndio (.bus bus))).setStage bus .free
  | .free => (sys.setBio bio (sys.bios bio).callFree).setStage bus .clear
  | .clear => (sys.advance numChipsPerBus bus time stop).setStage bus .dec

/-- One step of the thread of a bus. -/
def threadStep (numChipsPerBus bus time : ℕ) (stop : Bool) (sys : ReadSystem) : ReadSystem :=
  match (sys.buses bus).pc with
  | .acquire chip entry => (sys.advance numChipsPerBus bus time stop).markBusy (bus, chip) entry
  | .returnBio chip _ =>
      match ((sys.buses bus).chipBusies chip).ptrFbBio with
      | none => sys.advance numChipsPerBus bus time stop
      | some (bio, page) => sys.returnStep numChipsPerBus bus time stop bio page
  | _ => sys.advance numChipsPerBus bus time stop

/-- One step of the system. -/
def step (numChipsPerBus : ℕ) (sys : ReadSystem) : ReadAction → ReadSystem
  | .build bio hits =>
      if (sys.bios bio).submit = .unbuilt then sys.setBio bio (.build hits) else sys
  | .submit bio place => sys.submitStep bio place
  | .put bus chip operation => sys.setBus bus ((sys.buses bus).put chip ⟨operation, none⟩)
  | .thread bus time stop => sys.threadStep numChipsPerBus bus time stop

/-! ### Views of the system -/

/-- The pages whose reads wait in the queue of a chip. -/
def reads (sys : ReadSystem) (place : ℕ × ℕ) : List (ℕ × ℕ) :=
  ((sys.buses place.1).pending place.2).filterMap FbOperation.ptrFbBio

/-- The page that a chip reads, until its bio is decremented. -/
def owes (sys : ReadSystem) (place : ℕ × ℕ) : Option (ℕ × ℕ) :=
  if (sys.buses place.1).pc.returns place.2 = true ∧ sys.stages place.1 ≠ .dec then none
  else ((sys.buses place.1).chipBusies place.2).ptrFbBio

/-- The bio that the thread of a bus returns. -/
def returning (sys : ReadSystem) (bus : ℕ) : Option ℕ :=
  match (sys.buses bus).pc with
  | .returnBio chip _ => ((sys.buses bus).chipBusies chip).ptrFbBio.map Prod.fst
  | _ => none

/-- The bio for which the thread of a bus is about to call `bio_endio`. -/
def endioOf (sys : ReadSystem) (bus : ℕ) : Option ℕ :=
  if sys.stages bus = .endio then sys.returning bus else none

/-- The bio that the thread of a bus is about to free. -/
def freeOf (sys : ReadSystem) (bus : ℕ) : Option ℕ :=
  if sys.stages bus = .free then sys.returning bus else none

end ReadSystem

/-- The states of all runs, whatever the threads do and whatever the clock shows. -/
inductive ReadRun (numChipsPerBus numMaxEntriesPerChip : ℕ) : ReadSystem → Prop where
  | create (oprList : ℕ → ℕ → ℕ → FbOperation (ℕ × ℕ)) :
      ReadRun numChipsPerBus numMaxEntriesPerChip (.create numMaxEntriesPerChip oprList)
  | step {sys : ReadSystem} (run : ReadRun numChipsPerBus numMaxEntriesPerChip sys)
      (action : ReadAction) :
      ReadRun numChipsPerBus numMaxEntriesPerChip (sys.step numChipsPerBus action)

end FlashBench
