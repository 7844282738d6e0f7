import FlashBench.ReadLinks
import FlashBench.ReadSystem

/-!
# Read completion

Every read bio is completed exactly once. The invariant of the system links the bios to the
bus controllers, whose own invariant says that a chip takes the operations of its queue one
after another.
-/

namespace FlashBench

/-- The invariant of the system. -/
structure ReadInv (numChipsPerBus capacity : ℕ) (sys : ReadSystem) : Prop where
  busInv : ∀ bus, BusInv numChipsPerBus capacity (sys.buses bus)
  bioOk : ∀ bio, ReadBioOk (sys.bios bio)
  nodup : ∀ place, (sys.reads place).Nodup
  linked : Linked sys.reads sys.owes sys.endioOf sys.freeOf sys.bios
  stageOk : ∀ bus, sys.stages bus ≠ .dec → (sys.returning bus).isSome

namespace ReadInv

variable {numChipsPerBus capacity bio bus chip : ℕ} {sys : ReadSystem}

theorem create (room : 1 ≤ capacity) (oprList : ℕ → ℕ → ℕ → FbOperation (ℕ × ℕ)) :
    ReadInv numChipsPerBus capacity (.create capacity oprList) := by
  constructor
  case busInv => exact fun bus => .create room _
  case bioOk => exact fun _ => .unbuilt
  case nodup => exact fun _ => List.nodup_nil
  case linked =>
    constructor
    · exact fun _ _ _ => iff_of_false (by simp [ReadSystem.create, ReadBio.unbuilt])
        List.not_mem_nil
    · exact fun _ _ _ => iff_of_false (by simp [ReadSystem.create, ReadBio.unbuilt])
        (by simp [ReadSystem.owes, ReadSystem.create, BusController.create, ChipBusy.idle])
    · exact fun _ _ => iff_of_false (by simp [ReadSystem.create, ReadBio.unbuilt])
        (by simp [ReadSystem.endioOf, ReadSystem.create])
    · exact fun _ _ => iff_of_false (by simp [ReadSystem.create, ReadBio.unbuilt])
        (by simp [ReadSystem.freeOf, ReadSystem.create])
  case stageOk => exact fun _ notDec => absurd rfl notDec

theorem setBio_bioOk (inv : ReadInv numChipsPerBus capacity sys) {next : ReadBio}
    (ok : ReadBioOk next) (other : ℕ) : ReadBioOk ((sys.setBio bio next).bios other) := by
  by_cases same : other = bio
  · simpa [ReadSystem.setBio, same] using ok
  · simpa [ReadSystem.setBio, same] using inv.bioOk other

theorem setBio (inv : ReadInv numChipsPerBus capacity sys) {next : ReadBio}
    (ok : ReadBioOk next) (linked : Linked sys.reads sys.owes sys.endioOf sys.freeOf
      (Function.update sys.bios bio next)) :
    ReadInv numChipsPerBus capacity (sys.setBio bio next) where
  busInv := inv.busInv
  bioOk := inv.setBio_bioOk ok
  nodup := inv.nodup
  linked := linked
  stageOk := inv.stageOk

/-! ### Submitters -/

theorem build (inv : ReadInv numChipsPerBus capacity sys)
    (fresh : (sys.bios bio).submit = .unbuilt) (hits : List Bool) :
    ReadInv numChipsPerBus capacity (sys.setBio bio (.build hits)) := by
  have ok := inv.bioOk bio
  have counting : (sys.bios bio).duty = .counting :=
    ok.counting_iff.mpr (Or.inr (by rw [fresh]; rfl))
  apply inv.setBio (.build hits)
  apply inv.linked.keep
  · funext page
    have waiting := ok.waiting_iff page
    rw [fresh] at waiting
    exact (waiting.mpr (Nat.zero_le page)).symm
  · intro bus
    rw [counting]
    rfl
  · intro bus
    rw [counting]
    rfl

theorem submitterKeeps (inv : ReadInv numChipsPerBus capacity sys) {next : ReadBio}
    (ok : ReadBioOk next) (status : next.status = (sys.bios bio).status)
    (before : ∀ bus, (sys.bios bio).duty ≠ .toEndio (.bus bus) ∧
      (sys.bios bio).duty ≠ .toFree (.bus bus))
    (after : ∀ bus, next.duty ≠ .toEndio (.bus bus) ∧ next.duty ≠ .toFree (.bus bus)) :
    ReadInv numChipsPerBus capacity (sys.setBio bio next) := by
  apply inv.setBio ok
  apply inv.linked.keep status
  · exact fun bus => iff_of_false (after bus).1 (before bus).1
  · exact fun bus => iff_of_false (after bus).2 (before bus).2

theorem test (inv : ReadInv numChipsPerBus capacity sys)
    (position : (sys.bios bio).submit = .test) :
    ReadInv numChipsPerBus capacity (sys.setBio bio (sys.bios bio).test) := by
  have ok := inv.bioOk bio
  have counting : (sys.bios bio).duty = .counting :=
    ok.counting_iff.mpr (Or.inr (by rw [position]; rfl))
  apply inv.submitterKeeps (ok.test position)
  · unfold ReadBio.test
    split_ifs <;> rfl
  · simp [counting]
  · unfold ReadBio.test
    split_ifs
    · simp
    · simp [ReadBio.access, counting]

theorem endioSubmitter (inv : ReadInv numChipsPerBus capacity sys) {submit : SubmitPc}
    (duty : (sys.bios bio).duty = .toEndio .submitter)
    (ok : ReadBioOk (((sys.bios bio).callEndio .submitter).goto submit)) :
    ReadInv numChipsPerBus capacity
      (sys.setBio bio (((sys.bios bio).callEndio .submitter).goto submit)) := by
  apply inv.submitterKeeps ok
  · rfl
  · simp [duty]
  · simp [ReadBio.goto, ReadBio.callEndio]

theorem freeSubmitter (inv : ReadInv numChipsPerBus capacity sys) {submit : SubmitPc}
    (duty : (sys.bios bio).duty = .toFree .submitter)
    (ok : ReadBioOk ((sys.bios bio).callFree.goto submit)) :
    ReadInv numChipsPerBus capacity (sys.setBio bio ((sys.bios bio).callFree.goto submit)) := by
  apply inv.submitterKeeps ok
  · rfl
  · simp [duty]
  · simp [ReadBio.goto, ReadBio.callFree]

/-- An attempt to put an operation leaves the chips of a bus alone. -/
theorem views_put (sys : ReadSystem) (bus chip : ℕ) (entry : FbOperation (ℕ × ℕ)) :
    (sys.setBus bus ((sys.buses bus).put chip entry)).owes = sys.owes ∧
    (sys.setBus bus ((sys.buses bus).put chip entry)).returning = sys.returning := by
  constructor
  · funext place
    unfold ReadSystem.owes ReadSystem.setBus
    by_cases same : place.1 = bus
    · simp [same, BusController.put]
    · simp [same]
  · funext other
    unfold ReadSystem.returning ReadSystem.setBus
    by_cases same : other = bus
    · simp [same, BusController.put]
    · simp [same]

theorem reads_put (inv : ReadInv numChipsPerBus capacity sys) {entry : FbOperation (ℕ × ℕ)}
    (stored : (((sys.buses bus).oprQueues chip).putEntry entry).1 = true) :
    (sys.setBus bus ((sys.buses bus).put chip entry)).reads =
      Function.update sys.reads (bus, chip)
        (sys.reads (bus, chip) ++ entry.ptrFbBio.toList) := by
  have pending := (inv.busInv bus).pending_put stored
  have appended : (Function.update (sys.buses bus).pending chip
      ((sys.buses bus).pending chip ++ [entry]) chip).filterMap FbOperation.ptrFbBio =
        sys.reads (bus, chip) ++ entry.ptrFbBio.toList := by
    rw [Function.update_self, List.filterMap_append]
    cases pointer : entry.ptrFbBio <;> simp [pointer, ReadSystem.reads]
  funext place
  by_cases sameBus : place.1 = bus
  · by_cases sameChip : place.2 = chip
    · have own : place = (bus, chip) := Prod.ext sameBus sameChip
      subst own
      rw [Function.update_self, ← appended, ← pending]
      simp [ReadSystem.reads, ReadSystem.setBus]
    · have other : place ≠ (bus, chip) := fun equal => sameChip (by rw [equal])
      rw [Function.update_of_ne other]
      simp [ReadSystem.reads, ReadSystem.setBus, sameBus, pending, sameChip]
  · have other : place ≠ (bus, chip) := fun equal => sameBus (by rw [equal])
    rw [Function.update_of_ne other]
    simp [ReadSystem.reads, ReadSystem.setBus, sameBus]

theorem busInv_setBus (inv : ReadInv numChipsPerBus capacity sys)
    {next : BusController (ℕ × ℕ)} (nextInv : BusInv numChipsPerBus capacity next) (other : ℕ) :
    BusInv numChipsPerBus capacity ((sys.setBus bus next).buses other) := by
  by_cases same : other = bus
  · simpa [ReadSystem.setBus, same] using nextInv
  · simpa [ReadSystem.setBus, same] using inv.busInv other

theorem putOther (inv : ReadInv numChipsPerBus capacity sys) (operation : FbDevOp) :
    ReadInv numChipsPerBus capacity
      (sys.setBus bus ((sys.buses bus).put chip ⟨operation, none⟩)) := by
  rcases views_put sys bus chip ⟨operation, none⟩ with ⟨owes, returning⟩
  have reads : (sys.setBus bus ((sys.buses bus).put chip ⟨operation, none⟩)).reads =
      sys.reads := by
    cases stored : (((sys.buses bus).oprQueues chip).putEntry ⟨operation, none⟩).1 with
    | true => rw [inv.reads_put stored, Option.toList_none, List.append_nil, Function.update_eq_self]
    | false =>
        have unchanged := ((inv.busInv bus).queueDelivers chip).put_failed _ stored
        rw [unchanged]
        simp [ReadSystem.setBus]
  constructor
  case busInv => exact inv.busInv_setBus ((inv.busInv bus).put chip _)
  case bioOk => exact inv.bioOk
  case nodup =>
    rw [reads]
    exact inv.nodup
  case linked =>
    unfold ReadSystem.endioOf ReadSystem.freeOf
    rw [reads, owes, returning]
    exact inv.linked
  case stageOk =>
    rw [returning]
    exact inv.stageOk

theorem issue (inv : ReadInv numChipsPerBus capacity sys) {page : ℕ} {place : ℕ × ℕ}
    (position : (sys.bios bio).submit = .issue page place) :
    ReadInv numChipsPerBus capacity (sys.issue bio page place) := by
  have ok := inv.bioOk bio
  have isOpen : page ∈ (sys.bios bio).openPages := by
    apply ok.current_mem
    · rw [position]
      rfl
    · rw [position]
      rfl
  have page_lt := (ReadBio.mem_openPages_iff.mp isOpen).1
  have waiting : (sys.bios bio).status page = .waiting :=
    (ok.waiting_iff page).mpr (by rw [position]; exact le_rfl)
  have next : (sys.bios bio).submit.next (sys.bios bio).total = page := by
    rw [position]
    rfl
  rcases views_put sys place.1 place.2 (ReadSystem.readEntry bio page) with ⟨owes, returning⟩
  unfold ReadSystem.issue
  simp only
  split_ifs with stored
  · have reads := inv.reads_put stored
    have nextOk : ReadBioOk
        (((sys.bios bio).place page (.queued place)).goto (.loop (page + 1))) := by
      apply ok.place isOpen
      · simp
      · simp
      · rw [position]
        rfl
      · rw [position]
        rfl
      · intro other different
        rw [next]
        change page + 1 ≤ other ↔ page ≤ other
        omega
      · exact Nat.lt_succ_self page
      · exact page_lt
      · simp [SubmitPc.current]
      · simp [SubmitPc.isEmptyBranch]
    have linked := inv.linked.enqueue waiting
      (show (((sys.bios bio).place page (.queued place)).goto (.loop (page + 1))).status =
        Function.update (sys.bios bio).status page (.queued place) from rfl) rfl
    constructor
    case busInv => exact inv.busInv_setBus ((inv.busInv place.1).put place.2 _)
    case bioOk =>
      intro other
      by_cases same : other = bio
      · simpa [ReadSystem.setBio, same] using nextOk
      · simpa [ReadSystem.setBio, ReadSystem.setBus, same] using inv.bioOk other
    case nodup =>
      intro other
      change ((sys.setBus place.1 _).reads other).Nodup
      rw [reads]
      by_cases same : other = place
      · subst same
        rw [Function.update_self]
        refine List.nodup_append.mpr ⟨inv.nodup other, List.nodup_singleton _, ?_⟩
        intro read mem added inSingleton equal
        rw [equal, List.mem_singleton.mp inSingleton, ← inv.linked.queued_iff, waiting] at mem
        cases mem
      · rw [Function.update_of_ne same]
        exact inv.nodup other
    case linked =>
      change Linked (sys.setBus place.1 _).reads (sys.setBus place.1 _).owes
        (sys.setBus place.1 _).endioOf (sys.setBus place.1 _).freeOf _
      unfold ReadSystem.endioOf ReadSystem.freeOf
      rw [reads, owes, returning]
      exact linked
    case stageOk =>
      change ∀ other, sys.stages other ≠ .dec → ((sys.setBus place.1 _).returning other).isSome
      rw [returning]
      exact inv.stageOk
  · exact inv

theorem takeUp (inv : ReadInv numChipsPerBus capacity sys) {page : ℕ}
    (position : (sys.bios bio).submit = .loop page) (page_lt : page < (sys.bios bio).total)
    {submit : SubmitPc} (current : submit.current = some page)
    (next : submit.next (sys.bios bio).total = page) (plain : submit.beforeTest = false ∧
      submit.atEndio = false ∧ submit.atFree = false ∧ submit.isEmptyBranch = false) :
    ReadInv numChipsPerBus capacity (sys.setBio bio ((sys.bios bio).access.goto submit)) := by
  have ok := inv.bioOk bio
  have counting := ok.duty_of_mem (ok.loop_mem position page_lt)
  apply inv.submitterKeeps (ok.takeUp position page_lt current next plain)
  · rfl
  · simp [counting]
  · simp [ReadBio.goto, ReadBio.access, counting]

theorem decSubmitter (inv : ReadInv numChipsPerBus capacity sys) {page : ℕ}
    (position : (sys.bios bio).submit = .dec page) :
    ReadInv numChipsPerBus capacity (sys.setBio bio
      (((sys.bios bio).decReqCount .submitter page).goto
        (if ((sys.bios bio).decReqCount .submitter page).reqCount = 0 then .endio page
          else .loop (page + 1)))) := by
  have ok := inv.bioOk bio
  have isOpen : page ∈ (sys.bios bio).openPages := by
    apply ok.current_mem
    · rw [position]
      rfl
    · rw [position]
      rfl
  have waiting : (sys.bios bio).status page = .waiting :=
    (ok.waiting_iff page).mpr (by rw [position]; exact le_rfl)
  have counting := ok.duty_of_mem isOpen
  have duty := ok.decReqCount_duty isOpen .submitter
  apply inv.setBio (ok.decReqCount_submitter position)
  apply inv.linked.decSubmitter waiting rfl counting
  change ((sys.bios bio).decReqCount .submitter page).duty = _ ∨
    ((sys.bios bio).decReqCount .submitter page).duty = _
  split_ifs at duty
  · exact Or.inl duty
  · exact Or.inr duty

/-- Every step of a submitter keeps the invariant. -/
theorem submitStep (inv : ReadInv numChipsPerBus capacity sys) (bio : ℕ)
    (place : Option (ℕ × ℕ)) :
    ReadInv numChipsPerBus capacity (sys.submitStep bio place) := by
  have ok := inv.bioOk bio
  have toEndio := ok.toEndio_iff
  have toFree := ok.toFree_iff
  have total_eq_zero := ok.total_eq_zero
  unfold ReadSystem.submitStep
  cases position : (sys.bios bio).submit <;> rw [position] at toEndio toFree total_eq_zero <;>
    simp only [position]
  case unbuilt => exact inv
  case finished => exact inv
  case test => exact inv.test position
  case issue page place => exact inv.issue position
  case dec page => exact inv.decSubmitter position
  case loop page =>
    split_ifs with page_lt
    · cases place with
      | none => exact inv.takeUp position page_lt rfl rfl ⟨rfl, rfl, rfl, rfl⟩
      | some place => exact inv.takeUp position page_lt rfl rfl ⟨rfl, rfl, rfl, rfl⟩
    · apply inv.setBio (ok.finish position page_lt)
      apply inv.linked.keep
      · rfl
      · exact fun _ => Iff.rfl
      · exact fun _ => Iff.rfl
  case endioEmpty =>
    have duty := toEndio.mpr rfl
    apply inv.endioSubmitter duty
    apply ok.callEndio duty
    · rw [position]
      rfl
    · rfl
    · rfl
    · simp [SubmitPc.atFree]
    · simp [SubmitPc.current]
    · exact fun _ => total_eq_zero rfl
  case freeEmpty =>
    have duty := toFree.mpr rfl
    apply inv.freeSubmitter duty
    apply ok.callFree duty
    · rw [position]
      exact total_eq_zero rfl
    · rfl
    · rfl
    · rfl
    · simp [SubmitPc.current]
    · simp [SubmitPc.isEmptyBranch]
  case endio page =>
    have duty := toEndio.mpr rfl
    apply inv.endioSubmitter duty
    apply ok.callEndio duty
    · rw [position]
      rfl
    · rfl
    · rfl
    · simp [SubmitPc.atFree]
    · simp [SubmitPc.current]
    · simp [SubmitPc.isEmptyBranch]
  case free page =>
    have duty := toFree.mpr rfl
    apply inv.freeSubmitter duty
    apply ok.callFree duty
    · rw [position]
      rfl
    · rfl
    · rfl
    · rfl
    · simp [SubmitPc.current]
    · simp [SubmitPc.isEmptyBranch]

/-! ### Threads -/

theorem views_advance (stage : sys.stages bus = .dec) (next : BusController (ℕ × ℕ)) :
    (sys.setBus bus next).endioOf = sys.endioOf ∧ (sys.setBus bus next).freeOf = sys.freeOf ∧
    ∀ place, (sys.setBus bus next).owes place =
      if place.1 = bus then (next.chipBusies place.2).ptrFbBio else sys.owes place := by
  refine ⟨?_, ?_, fun place => ?_⟩
  · funext other
    unfold ReadSystem.endioOf ReadSystem.returning ReadSystem.setBus
    by_cases same : other = bus
    · simp [same, stage]
    · simp [same]
  · funext other
    unfold ReadSystem.freeOf ReadSystem.returning ReadSystem.setBus
    by_cases same : other = bus
    · simp [same, stage]
    · simp [same]
  · unfold ReadSystem.owes ReadSystem.setBus
    by_cases same : place.1 = bus
    · simp [same, stage]
    · simp [same]

theorem stage_eq_dec (inv : ReadInv numChipsPerBus capacity sys)
    (nothing : sys.returning bus = none) : sys.stages bus = .dec := by
  by_contra notDec
  have some_ := inv.stageOk bus notDec
  rw [nothing] at some_
  cases some_

theorem stageOk_setBus (inv : ReadInv numChipsPerBus capacity sys)
    (stage : sys.stages bus = .dec) (next : BusController (ℕ × ℕ)) (other : ℕ)
    (notDec : sys.stages other ≠ .dec) : ((sys.setBus bus next).returning other).isSome := by
  have different : other ≠ bus := by
    intro same
    rw [same] at notDec
    exact notDec stage
  have kept := inv.stageOk other notDec
  simpa [ReadSystem.returning, ReadSystem.setBus, different] using kept

theorem advanceQuiet (inv : ReadInv numChipsPerBus capacity sys)
    (nothing : sys.returning bus = none) {next : BusController (ℕ × ℕ)}
    (nextInv : BusInv numChipsPerBus capacity next)
    (pending : ∀ chip, (next.pending chip).filterMap FbOperation.ptrFbBio =
      ((sys.buses bus).pending chip).filterMap FbOperation.ptrFbBio)
    (pointers : ∀ chip, (next.chipBusies chip).ptrFbBio =
      ((sys.buses bus).chipBusies chip).ptrFbBio) :
    ReadInv numChipsPerBus capacity (sys.setBus bus next) := by
  have stage := inv.stage_eq_dec nothing
  rcases views_advance stage next with ⟨endioOf, freeOf, owesOf⟩
  have reads : (sys.setBus bus next).reads = sys.reads := by
    funext place
    unfold ReadSystem.reads ReadSystem.setBus
    by_cases same : place.1 = bus
    · simp [same, pending]
    · simp [same]
  have owes : (sys.setBus bus next).owes = sys.owes := by
    funext place
    rw [owesOf]
    split_ifs with same
    · rw [pointers, ← same]
      unfold ReadSystem.owes
      rw [same, stage]
      simp
    · rfl
  constructor
  case busInv => exact inv.busInv_setBus nextInv
  case bioOk => exact inv.bioOk
  case nodup =>
    rw [reads]
    exact inv.nodup
  case linked =>
    rw [reads, owes, endioOf, freeOf]
    exact inv.linked
  case stageOk => exact fun other => inv.stageOk_setBus stage next other

theorem reads_acquire {next : BusController (ℕ × ℕ)} {rest : List (FbOperation (ℕ × ℕ))}
    (pending : next.pending = Function.update (sys.buses bus).pending chip rest) :
    (sys.setBus bus next).reads =
      Function.update sys.reads (bus, chip) (rest.filterMap FbOperation.ptrFbBio) := by
  funext place
  unfold ReadSystem.reads ReadSystem.setBus
  by_cases sameBus : place.1 = bus
  · by_cases sameChip : place.2 = chip
    · have own : place = (bus, chip) := Prod.ext sameBus sameChip
      subst own
      simp [pending]
    · have other : place ≠ (bus, chip) := fun equal => sameChip (by rw [equal])
      simp [sameBus, pending, sameChip, other]
  · have other : place ≠ (bus, chip) := fun equal => sameBus (by rw [equal])
    simp [sameBus, other]

theorem owes_acquire (stage : sys.stages bus = .dec) {next : BusController (ℕ × ℕ)}
    {busy : ChipBusy (ℕ × ℕ)}
    (busies : next.chipBusies = Function.update (sys.buses bus).chipBusies chip busy) :
    (sys.setBus bus next).owes = Function.update sys.owes (bus, chip) busy.ptrFbBio := by
  funext place
  rw [(views_advance stage next).2.2, busies]
  by_cases sameBus : place.1 = bus
  · by_cases sameChip : place.2 = chip
    · have own : place = (bus, chip) := Prod.ext sameBus sameChip
      subst own
      rw [if_pos rfl, Function.update_self, Function.update_self]
    · have other : place ≠ (bus, chip) := fun equal => sameChip (by rw [equal])
      rw [if_pos sameBus, Function.update_of_ne sameChip, Function.update_of_ne other]
      unfold ReadSystem.owes
      rw [sameBus, stage]
      simp
  · have other : place ≠ (bus, chip) := fun equal => sameBus (by rw [equal])
    rw [if_neg sameBus, Function.update_of_ne other]

theorem acquireRead (inv : ReadInv numChipsPerBus capacity sys) {page : ℕ}
    {next : BusController (ℕ × ℕ)} {entry : FbOperation (ℕ × ℕ)}
    {rest : List (FbOperation (ℕ × ℕ))} {busy : ChipBusy (ℕ × ℕ)}
    (nextInv : BusInv numChipsPerBus capacity next) (stage : sys.stages bus = .dec)
    (first : (sys.buses bus).pending chip = entry :: rest)
    (pending : next.pending = Function.update (sys.buses bus).pending chip rest)
    (idle : ((sys.buses bus).chipBusies chip).ptrFbBio = none)
    (busies : next.chipBusies = Function.update (sys.buses bus).chipBusies chip busy)
    (pointer : entry.ptrFbBio = some (bio, page)) (taken : busy.ptrFbBio = some (bio, page)) :
    ReadInv numChipsPerBus capacity
      ((sys.setBus bus next).setBio bio ((sys.bios bio).place page (.busy (bus, chip)))) := by
  have ok := inv.bioOk bio
  have reads_eq : sys.reads (bus, chip) = (bio, page) :: rest.filterMap FbOperation.ptrFbBio := by
    unfold ReadSystem.reads
    rw [first, List.filterMap_cons, pointer]
  have noOwes : sys.owes (bus, chip) = none := by
    unfold ReadSystem.owes
    rw [idle, stage]
    simp
  have queued : (sys.bios bio).status page = .queued (bus, chip) := by
    rw [inv.linked.queued_iff, reads_eq]
    exact List.mem_cons_self
  have isOpen : page ∈ (sys.bios bio).openPages :=
    ok.mem_openPages (by simp [queued]) (by simp [queued])
  have behind : ¬(sys.bios bio).submit.next (sys.bios bio).total ≤ page :=
    mt (ok.waiting_iff page).mpr (by simp [queued])
  have stays : ReadBioOk
      (((sys.bios bio).place page (.busy (bus, chip))).goto (sys.bios bio).submit) :=
    ok.place isOpen (by simp) (by simp) rfl rfl (fun _ _ => Iff.rfl) (by omega) ok.next_le
      ok.current_lt ok.total_eq_zero
  have nextOk : ReadBioOk ((sys.bios bio).place page (.busy (bus, chip))) := stays
  have linked := inv.linked.dequeue reads_eq (inv.nodup _) noOwes
    (show ((sys.bios bio).place page (.busy (bus, chip))).status =
      Function.update (sys.bios bio).status page (.busy (bus, chip)) from rfl) rfl
  rcases views_advance stage next with ⟨endioOf, freeOf, _⟩
  constructor
  case busInv => exact inv.busInv_setBus nextInv
  case bioOk =>
    intro other
    by_cases same : other = bio
    · simpa [ReadSystem.setBio, same] using nextOk
    · simpa [ReadSystem.setBio, ReadSystem.setBus, same] using inv.bioOk other
  case nodup =>
    intro place
    change ((sys.setBus bus next).reads place).Nodup
    rw [reads_acquire pending]
    by_cases same : place = (bus, chip)
    · rw [same, Function.update_self]
      have nodup := inv.nodup (bus, chip)
      rw [reads_eq] at nodup
      exact (List.nodup_cons.mp nodup).2
    · rw [Function.update_of_ne same]
      exact inv.nodup place
  case linked =>
    change Linked (sys.setBus bus next).reads (sys.setBus bus next).owes
      (sys.setBus bus next).endioOf (sys.setBus bus next).freeOf _
    rw [reads_acquire pending, owes_acquire stage busies, taken, endioOf, freeOf]
    exact linked
  case stageOk => exact fun other => inv.stageOk_setBus stage next other

theorem acquire (inv : ReadInv numChipsPerBus capacity sys) {entry : FbOperation (ℕ × ℕ)}
    (position : (sys.buses bus).pc = .acquire chip entry) (time : ℕ) (stop : Bool) :
    ReadInv numChipsPerBus capacity
      ((sys.advance numChipsPerBus bus time stop).markBusy (bus, chip) entry) := by
  have busInv := inv.busInv bus
  have nextInv := busInv.threadStep time stop
  have nothing : sys.returning bus = none := by
    unfold ReadSystem.returning
    rw [position]
  rcases busInv.threadStep_acquire position time stop with ⟨⟨rest, first, pending⟩, idle, busies⟩
  unfold ReadSystem.markBusy
  cases pointer : entry.ptrFbBio with
  | none =>
      apply inv.advanceQuiet nothing nextInv
      · intro target
        rw [pending]
        by_cases same : target = chip
        · rw [same, Function.update_self, first, List.filterMap_cons, pointer]
        · rw [Function.update_of_ne same]
      · intro target
        rw [busies]
        by_cases same : target = chip
        · rw [same, Function.update_self, idle]
          exact pointer
        · rw [Function.update_of_ne same]
  | some read =>
      exact inv.acquireRead nextInv (inv.stage_eq_dec nothing) first pending idle busies pointer
        pointer

theorem views_setStage (sys : ReadSystem) (bus : ℕ) (stage : ReleaseStage) :
    (sys.setStage bus stage).endioOf =
      Function.update sys.endioOf bus (if stage = .endio then sys.returning bus else none) ∧
    (sys.setStage bus stage).freeOf =
      Function.update sys.freeOf bus (if stage = .free then sys.returning bus else none) := by
  constructor
  · funext other
    unfold ReadSystem.endioOf ReadSystem.returning ReadSystem.setStage
    by_cases same : other = bus
    · simp [same]
    · simp [same]
  · funext other
    unfold ReadSystem.freeOf ReadSystem.returning ReadSystem.setStage
    by_cases same : other = bus
    · simp [same]
    · simp [same]

/-- Once a page is counted down, further steps of the release owe nothing. -/
theorem owes_setStage (notDec : sys.stages bus ≠ .dec) {stage : ReleaseStage}
    (nextNotDec : stage ≠ .dec) : (sys.setStage bus stage).owes = sys.owes := by
  funext place
  unfold ReadSystem.owes ReadSystem.setStage
  by_cases same : place.1 = bus
  · simp [same, notDec, nextNotDec]
  · simp [same]

theorem setBioStage (inv : ReadInv numChipsPerBus capacity sys) {next : ReadBio}
    {stage : ReleaseStage} (ok : ReadBioOk next) (returning : sys.returning bus = some bio)
    (linked : Linked sys.reads (sys.setStage bus stage).owes (sys.setStage bus stage).endioOf
      (sys.setStage bus stage).freeOf (Function.update sys.bios bio next)) :
    ReadInv numChipsPerBus capacity ((sys.setBio bio next).setStage bus stage) where
  busInv := inv.busInv
  bioOk := inv.setBio_bioOk ok
  nodup := inv.nodup
  linked := linked
  stageOk other notDec := by
    change (sys.returning other).isSome
    by_cases same : other = bus
    · rw [same, returning]
      rfl
    · apply inv.stageOk other
      change Function.update sys.stages bus stage other ≠ .dec at notDec
      rwa [Function.update_of_ne same] at notDec

theorem returnDec (inv : ReadInv numChipsPerBus capacity sys) {now page : ℕ}
    (position : (sys.buses bus).pc = .returnBio chip now)
    (pointer : ((sys.buses bus).chipBusies chip).ptrFbBio = some (bio, page))
    (returning : sys.returning bus = some bio) (stage : sys.stages bus = .dec) :
    ReadInv numChipsPerBus capacity
      ((sys.setBio bio ((sys.bios bio).decReqCount (.bus bus) page)).setStage bus
        (if ((sys.bios bio).decReqCount (.bus bus) page).reqCount = 0 then .endio
          else .clear)) := by
  have ok := inv.bioOk bio
  have owed : sys.owes (bus, chip) = some (bio, page) := by
    unfold ReadSystem.owes
    rw [stage]
    simpa using pointer
  have busy : (sys.bios bio).status page = .busy (bus, chip) :=
    (inv.linked.busy_iff bio page (bus, chip)).mpr owed
  have isOpen : page ∈ (sys.bios bio).openPages :=
    ok.mem_openPages (by simp [busy]) (by simp [busy])
  have nextOk := ok.decReqCount_bus isOpen (by simp [busy]) bus
  have duty := ok.decReqCount_duty isOpen (.bus bus)
  have noEndio : sys.endioOf bus = none := by
    unfold ReadSystem.endioOf
    rw [stage]
    simp
  have noFree : sys.freeOf bus = none := by
    unfold ReadSystem.freeOf
    rw [stage]
    simp
  have linked := inv.linked.decBus owed noEndio
    (show ((sys.bios bio).decReqCount (.bus bus) page).status =
      Function.update (sys.bios bio).status page .done from rfl) (ok.duty_of_mem isOpen) duty
  have owes {nextStage : ReleaseStage} (notDec : nextStage ≠ .dec) :
      (sys.setStage bus nextStage).owes = Function.update sys.owes (bus, chip) none := by
    funext place
    unfold ReadSystem.owes ReadSystem.setStage
    by_cases sameBus : place.1 = bus
    · by_cases sameChip : place.2 = chip
      · have own : place = (bus, chip) := Prod.ext sameBus sameChip
        subst own
        simp [position, BusPc.returns, notDec]
      · have other : place ≠ (bus, chip) := fun equal => sameChip (by rw [equal])
        have notReturned : chip ≠ place.2 := fun equal => sameChip equal.symm
        simp [sameBus, position, BusPc.returns, other, notReturned]
    · have other : place ≠ (bus, chip) := fun equal => sameBus (by rw [equal])
      simp [sameBus, other]
  have freeSame : Function.update sys.freeOf bus none = sys.freeOf := by
    rw [← noFree, Function.update_eq_self]
  apply inv.setBioStage nextOk returning
  by_cases zero : ((sys.bios bio).decReqCount (.bus bus) page).reqCount = 0
  · rw [if_pos zero] at linked ⊢
    rw [owes (by simp), (views_setStage sys bus .endio).1, (views_setStage sys bus .endio).2,
      returning]
    simpa [freeSame] using linked
  · rw [if_neg zero] at linked ⊢
    rw [owes (by simp), (views_setStage sys bus .clear).1, (views_setStage sys bus .clear).2]
    simpa [freeSame] using linked

theorem returnEndio (inv : ReadInv numChipsPerBus capacity sys)
    (returning : sys.returning bus = some bio) (stage : sys.stages bus = .endio) :
    ReadInv numChipsPerBus capacity
      ((sys.setBio bio ((sys.bios bio).callEndio (.bus bus))).setStage bus .free) := by
  have ok := inv.bioOk bio
  have own : sys.endioOf bus = some bio := by
    unfold ReadSystem.endioOf
    rw [stage, if_pos rfl, returning]
  have noFree : sys.freeOf bus = none := by
    unfold ReadSystem.freeOf
    rw [stage]
    simp
  have duty : (sys.bios bio).duty = .toEndio (.bus bus) :=
    (inv.linked.toEndio_iff bio bus).mpr own
  have afterTest := (ok.no_openPages (by simp [duty])).2
  have notEndio : (sys.bios bio).submit.atEndio = false := by
    rw [← Bool.not_eq_true, ← ok.toEndio_iff, duty]
    simp
  have notFree : ¬(sys.bios bio).submit.atFree = true := by
    rw [← ok.toFree_iff, duty]
    simp
  have stays : ReadBioOk
      (((sys.bios bio).callEndio (.bus bus)).goto (sys.bios bio).submit) :=
    ok.callEndio duty rfl afterTest notEndio (iff_of_false (by simp) notFree)
      ok.current_lt ok.total_eq_zero
  have nextOk : ReadBioOk ((sys.bios bio).callEndio (.bus bus)) := stays
  have linked := inv.linked.endioBus own noFree
    (show ((sys.bios bio).callEndio (.bus bus)).status = (sys.bios bio).status from rfl) rfl
  apply inv.setBioStage nextOk returning
  rw [owes_setStage (by simp [stage]) (by simp), (views_setStage sys bus .free).1,
    (views_setStage sys bus .free).2, returning]
  exact linked

theorem returnFree (inv : ReadInv numChipsPerBus capacity sys)
    (returning : sys.returning bus = some bio) (stage : sys.stages bus = .free) :
    ReadInv numChipsPerBus capacity
      ((sys.setBio bio (sys.bios bio).callFree).setStage bus .clear) := by
  have ok := inv.bioOk bio
  have own : sys.freeOf bus = some bio := by
    unfold ReadSystem.freeOf
    rw [stage, if_pos rfl, returning]
  have noEndio : sys.endioOf bus = none := by
    unfold ReadSystem.endioOf
    rw [stage]
    simp
  have duty : (sys.bios bio).duty = .toFree (.bus bus) :=
    (inv.linked.toFree_iff bio bus).mpr own
  have afterTest := (ok.no_openPages (by simp [duty])).2
  have notEndio : (sys.bios bio).submit.atEndio = false := by
    rw [← Bool.not_eq_true, ← ok.toEndio_iff, duty]
    simp
  have notFree : (sys.bios bio).submit.atFree = false := by
    rw [← Bool.not_eq_true, ← ok.toFree_iff, duty]
    simp
  have stays : ReadBioOk ((sys.bios bio).callFree.goto (sys.bios bio).submit) :=
    ok.callFree duty rfl afterTest notEndio notFree ok.current_lt ok.total_eq_zero
  have nextOk : ReadBioOk (sys.bios bio).callFree := stays
  have linked := inv.linked.freeBus own
    (show (sys.bios bio).callFree.status = (sys.bios bio).status from rfl) rfl
  have endioSame : Function.update sys.endioOf bus none = sys.endioOf := by
    rw [← noEndio, Function.update_eq_self]
  apply inv.setBioStage nextOk returning
  rw [owes_setStage (by simp [stage]) (by simp), (views_setStage sys bus .clear).1,
    (views_setStage sys bus .clear).2]
  simpa [endioSame] using linked

theorem returnClear (inv : ReadInv numChipsPerBus capacity sys) {now : ℕ}
    (position : (sys.buses bus).pc = .returnBio chip now) (stage : sys.stages bus = .clear)
    (time : ℕ) (stop : Bool) :
    ReadInv numChipsPerBus capacity
      ((sys.advance numChipsPerBus bus time stop).setStage bus .dec) := by
  have busInv := inv.busInv bus
  rcases busInv.threadStep_returnBio position time stop with ⟨pending, busies⟩
  have nextInv := busInv.threadStep time stop
  have reads : (sys.advance numChipsPerBus bus time stop).reads = sys.reads := by
    funext place
    unfold ReadSystem.reads ReadSystem.advance ReadSystem.setBus
    by_cases same : place.1 = bus
    · simp [same, pending]
    · simp [same]
  have owes : ((sys.advance numChipsPerBus bus time stop).setStage bus .dec).owes =
      sys.owes := by
    funext place
    unfold ReadSystem.owes ReadSystem.advance ReadSystem.setBus ReadSystem.setStage
    by_cases sameBus : place.1 = bus
    · by_cases sameChip : place.2 = chip
      · simp [sameBus, sameChip, busies, position, BusPc.returns, stage]
      · have notReturned : chip ≠ place.2 := fun equal => sameChip equal.symm
        simp [sameBus, busies, sameChip, position, BusPc.returns, notReturned]
    · simp [sameBus]
  have endioOf : ((sys.advance numChipsPerBus bus time stop).setStage bus .dec).endioOf =
      sys.endioOf := by
    funext other
    unfold ReadSystem.endioOf ReadSystem.returning ReadSystem.advance ReadSystem.setBus
      ReadSystem.setStage
    by_cases same : other = bus
    · simp [same, stage]
    · simp [same]
  have freeOf : ((sys.advance numChipsPerBus bus time stop).setStage bus .dec).freeOf =
      sys.freeOf := by
    funext other
    unfold ReadSystem.freeOf ReadSystem.returning ReadSystem.advance ReadSystem.setBus
      ReadSystem.setStage
    by_cases same : other = bus
    · simp [same, stage]
    · simp [same]
  constructor
  case busInv => exact inv.busInv_setBus nextInv
  case bioOk => exact inv.bioOk
  case nodup =>
    intro place
    change ((sys.advance numChipsPerBus bus time stop).reads place).Nodup
    rw [reads]
    exact inv.nodup place
  case linked =>
    change Linked (sys.advance numChipsPerBus bus time stop).reads _ _ _ sys.bios
    rw [reads, owes, endioOf, freeOf]
    exact inv.linked
  case stageOk =>
    intro other notDec
    by_cases same : other = bus
    · exact absurd (by simp [ReadSystem.setStage, same]) notDec
    · have kept := inv.stageOk other
        (by simpa [ReadSystem.setStage, ReadSystem.advance, ReadSystem.setBus, same]
          using notDec)
      simpa [ReadSystem.returning, ReadSystem.setStage, ReadSystem.advance,
        ReadSystem.setBus, same] using kept

theorem returnStep (inv : ReadInv numChipsPerBus capacity sys) {now page : ℕ}
    (position : (sys.buses bus).pc = .returnBio chip now)
    (pointer : ((sys.buses bus).chipBusies chip).ptrFbBio = some (bio, page))
    (time : ℕ) (stop : Bool) :
    ReadInv numChipsPerBus capacity
      (sys.returnStep numChipsPerBus bus time stop bio page) := by
  have returning : sys.returning bus = some bio := by
    unfold ReadSystem.returning
    rw [position]
    simp [pointer]
  unfold ReadSystem.returnStep
  cases stage : sys.stages bus with
  | dec => exact inv.returnDec position pointer returning stage
  | endio => exact inv.returnEndio returning stage
  | free => exact inv.returnFree returning stage
  | clear => exact inv.returnClear position stage time stop

/-- Every step of a thread keeps the invariant. -/
theorem threadStep (inv : ReadInv numChipsPerBus capacity sys) (bus time : ℕ) (stop : Bool) :
    ReadInv numChipsPerBus capacity (sys.threadStep numChipsPerBus bus time stop) := by
  have busInv := inv.busInv bus
  have nextInv := busInv.threadStep time stop
  have quiet (notAcquire : ∀ chip entry, (sys.buses bus).pc ≠ .acquire chip entry)
      (notReturn : ∀ chip now, (sys.buses bus).pc ≠ .returnBio chip now) :
      ReadInv numChipsPerBus capacity (sys.advance numChipsPerBus bus time stop) := by
    rcases busInv.threadStep_quiet notAcquire notReturn time stop with ⟨pending, pointers⟩
    apply inv.advanceQuiet ?_ nextInv ?_ pointers
    · unfold ReadSystem.returning
      cases position : (sys.buses bus).pc with
      | returnBio chip now => exact absurd position (notReturn chip now)
      | _ => rfl
    · intro chip
      rw [pending]
  unfold ReadSystem.threadStep
  cases position : (sys.buses bus).pc <;> rw [position] at quiet <;> simp only
  case acquire chip entry => exact inv.acquire position time stop
  case returnBio chip now =>
    cases pointer : ((sys.buses bus).chipBusies chip).ptrFbBio with
    | some read => exact inv.returnStep position pointer time stop
    | none =>
        rcases busInv.threadStep_returnBio position time stop with ⟨pending, busies⟩
        apply inv.advanceQuiet ?_ nextInv
        · intro target
          rw [pending]
        · intro target
          rw [busies]
          by_cases same : target = chip
          · rw [same, Function.update_self, pointer]
          · rw [Function.update_of_ne same]
        · unfold ReadSystem.returning
          rw [position]
          simp [pointer]
  all_goals exact quiet (by simp) (by simp)

theorem step (inv : ReadInv numChipsPerBus capacity sys) (action : ReadAction) :
    ReadInv numChipsPerBus capacity (sys.step numChipsPerBus action) := by
  cases action with
  | build bio hits =>
      unfold ReadSystem.step
      simp only
      split_ifs with fresh
      · exact inv.build fresh hits
      · exact inv
  | submit bio place => exact inv.submitStep bio place
  | put bus chip operation => exact inv.putOther operation
  | thread bus time stop => exact inv.threadStep bus time stop

end ReadInv

/-- The invariant holds in every run. -/
theorem ReadRun.inv {numChipsPerBus capacity : ℕ} {sys : ReadSystem}
    (run : ReadRun numChipsPerBus capacity sys) (room : 1 ≤ capacity) :
    ReadInv numChipsPerBus capacity sys := by
  induction run with
  | create oprList => exact .create room oprList
  | step _ action inv => exact inv.step action

/-! ### Exactly once -/

/-- Nobody is at work on a bio: its submitter has finished, and no chip has a pointer to it. -/
structure Settled (sys : ReadSystem) (bio : ℕ) : Prop where
  submitted : (sys.bios bio).submit = .finished
  released : ∀ bus chip page,
    ((sys.buses bus).chipBusies chip).ptrFbBio ≠ some (bio, page)

/-- A read bio is completed exactly once. -/
structure CompletesOnce (sys : ReadSystem) (bio : ℕ) : Prop where
  endios_le : (sys.bios bio).endios ≤ 1
  frees_le : (sys.bios bio).frees ≤ 1
  afterAll : 0 < (sys.bios bio).endios ∨ 0 < (sys.bios bio).frees →
    ∀ page < (sys.bios bio).total, (sys.bios bio).status page = .done
  called : (sys.bios bio).submit.beforeTest = false →
    (∀ page < (sys.bios bio).total, (sys.bios bio).status page = .done) →
      (sys.bios bio).endios = 1 ∨ (sys.bios bio).submit.atEndio = true ∨
        ∃ bus, sys.endioOf bus = some bio
  settled : Settled sys bio →
    (∀ page < (sys.bios bio).total, (sys.bios bio).status page = .done) →
      (sys.bios bio).endios = 1 ∧ (sys.bios bio).frees = 1
  safe : (sys.bios bio).usedAfterFree = false

/-- The bio that a thread completes is in the chip that it releases. -/
theorem ReadSystem.pointer_of_returning {sys : ReadSystem} {bio bus : ℕ}
    (returning : sys.returning bus = some bio) :
    ∃ chip page, ((sys.buses bus).chipBusies chip).ptrFbBio = some (bio, page) := by
  unfold ReadSystem.returning at returning
  cases position : (sys.buses bus).pc <;> simp only [position, reduceCtorEq] at returning
  case returnBio chip now =>
    rcases Option.map_eq_some_iff.mp returning with ⟨⟨found, page⟩, pointer, rfl⟩
    exact ⟨chip, page, pointer⟩

/-- Every read bio is completed exactly once, after all its pages and before nothing. -/
theorem completesOnce_of_run {numChipsPerBus numMaxEntriesPerChip : ℕ} {sys : ReadSystem}
    (run : ReadRun numChipsPerBus numMaxEntriesPerChip sys) (room : 1 ≤ numMaxEntriesPerChip)
    (bio : ℕ) : CompletesOnce sys bio := by
  have inv := run.inv room
  have ok := inv.bioOk bio
  have endios := ok.endios_eq
  have frees := ok.frees_eq
  have done_iff : (∀ page < (sys.bios bio).total, (sys.bios bio).status page = .done) ↔
      ¬(sys.bios bio).openPages.Nonempty := by
    rw [Finset.not_nonempty_iff_eq_empty, Finset.eq_empty_iff_forall_notMem]
    simp only [ReadBio.mem_openPages_iff, not_and, not_not]
  have notCounting (afterTest : (sys.bios bio).submit.beforeTest = false)
      (done : ∀ page < (sys.bios bio).total, (sys.bios bio).status page = .done) :
      (sys.bios bio).duty ≠ .counting := by
    rw [ne_eq, ok.counting_iff, not_or, afterTest]
    exact ⟨done_iff.mp done, by simp⟩
  constructor
  case endios_le =>
    rw [endios]
    cases (sys.bios bio).duty <;> simp [Duty.endios]
  case frees_le =>
    rw [frees]
    cases (sys.bios bio).duty <;> simp [Duty.frees]
  case afterAll =>
    intro some_
    rw [endios, frees] at some_
    apply done_iff.mpr
    refine (ok.no_openPages ?_).1
    intro counting
    rw [counting] at some_
    rcases some_ with called | freed
    · exact absurd called (by decide)
    · exact absurd freed (by decide)
  case called =>
    intro afterTest done
    have started := notCounting afterTest done
    rw [endios]
    cases duty : (sys.bios bio).duty with
    | counting => exact absurd duty started
    | toEndio agent =>
        cases agent with
        | submitter => exact Or.inr (Or.inl (ok.toEndio_iff.mp duty))
        | bus bus => exact Or.inr (Or.inr ⟨bus, (inv.linked.toEndio_iff bio bus).mp duty⟩)
    | toFree agent => exact Or.inl rfl
    | completed => exact Or.inl rfl
  case settled =>
    intro quiet done
    have position := quiet.submitted
    have started := notCounting (by rw [position]; rfl) done
    have nobody (bus : ℕ) : sys.returning bus ≠ some bio := by
      intro returning
      rcases ReadSystem.pointer_of_returning returning with ⟨chip, page, pointer⟩
      exact quiet.released bus chip page pointer
    rw [endios, frees]
    cases duty : (sys.bios bio).duty with
    | counting => exact absurd duty started
    | toEndio agent =>
        cases agent with
        | submitter =>
            have atEndio := ok.toEndio_iff.mp duty
            rw [position] at atEndio
            cases atEndio
        | bus bus =>
            have own := (inv.linked.toEndio_iff bio bus).mp duty
            unfold ReadSystem.endioOf at own
            split_ifs at own
            exact absurd own (nobody bus)
    | toFree agent =>
        cases agent with
        | submitter =>
            have atFree := ok.toFree_iff.mp duty
            rw [position] at atFree
            cases atFree
        | bus bus =>
            have own := (inv.linked.toFree_iff bio bus).mp duty
            unfold ReadSystem.freeOf at own
            split_ifs at own
            exact absurd own (nobody bus)
    | completed => exact ⟨rfl, rfl⟩
  case safe => exact ok.safe

/-- Some steps of the system. -/
def ReadSystem.steps (numChipsPerBus : ℕ) (sys : ReadSystem) (actions : List ReadAction) :
    ReadSystem :=
  actions.foldl (ReadSystem.step numChipsPerBus) sys

theorem ReadRun.steps {numChipsPerBus numMaxEntriesPerChip : ℕ} {sys : ReadSystem}
    (run : ReadRun numChipsPerBus numMaxEntriesPerChip sys) (actions : List ReadAction) :
    ReadRun numChipsPerBus numMaxEntriesPerChip (sys.steps numChipsPerBus actions) := by
  induction actions generalizing sys with
  | nil => exact run
  | cons action actions ih => exact ih (run.step action)

/-- A read of four pages: one in the write buffer, one unmapped and one on each of two buses. The
submitter leaves while both buses still read, and the thread of the second one completes it. -/
def completedRead : ReadSystem :=
  (ReadSystem.create 1 fun _ _ _ => ⟨.opRead, none⟩).steps 1 <|
    [.build 0 [true, false, false, false], .submit 0 none, .submit 0 none, .submit 0 none,
      .submit 0 (some (0, 0)), .submit 0 none, .submit 0 (some (1, 0))] ++
    -- the first bus acquires its chip before the last page is put
    List.replicate 8 (.thread 0 1000 false) ++ [.submit 0 none, .submit 0 none] ++
    List.replicate 8 (.thread 1 1000 false) ++
    -- both threads release their chips
    List.replicate 4 (.thread 0 1080 false) ++ List.replicate 6 (.thread 1 1080 false)

theorem completesOnce_completedRead :
    ((completedRead.bios 0).endios = 1 ∧ (completedRead.bios 0).frees = 1) ∧
    (completedRead.bios 0).usedAfterFree = false ∧ CompletesOnce completedRead 0 :=
  ⟨⟨rfl, rfl⟩, rfl, completesOnce_of_run ((ReadRun.create _).steps _) (Nat.le_refl 1) 0⟩

end FlashBench
