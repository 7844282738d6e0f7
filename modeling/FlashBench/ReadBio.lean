import Mathlib.Data.Finset.Card
import Mathlib.Data.Finset.Range
import FlashBench.SsdInfo

/-!
# Read bios

The descriptor `struct fb_bio_t` of a read, as `make_request` and the bus controllers share
it: its count of pages, the calls of `bio_endio` and `vfree` for it, and where the loop of
`make_request` is. `status` and `duty` are ghosts: what happened to each page, and who still
has to complete the bio once its count is 0.
-/

namespace FlashBench

/-- Who works on a bio: its submitter or the thread of a bus. -/
inductive Agent where
  | submitter
  | bus (bus : ℕ)
  deriving DecidableEq

/-- How far the completion of a bio is. -/
inductive Duty where
  | counting
  | toEndio (agent : Agent)
  | toFree (agent : Agent)
  | completed
  deriving DecidableEq

/-- Where a page of a bio is that the write buffer does not hold; a place is a bus and one of
its chips. -/
inductive PageStatus where
  | waiting
  | queued (place : ℕ × ℕ)
  | busy (place : ℕ × ℕ)
  | done
  deriving DecidableEq

/-- Where `make_request` is. -/
inductive SubmitPc where
  | unbuilt
  /-- the test of `req_count` after the bio is built -/
  | test
  | endioEmpty
  | freeEmpty
  /-- the loop test for a page -/
  | loop (page : ℕ)
  /-- `fb_issue_operation` for a page, at a chip -/
  | issue (page : ℕ) (place : ℕ × ℕ)
  /-- `dec_bio_req_count` for a page that is unmapped -/
  | dec (page : ℕ)
  | endio (page : ℕ)
  | free (page : ℕ)
  | finished
  deriving DecidableEq

namespace SubmitPc

/-- The first page that has not been looked at. -/
def next (total : ℕ) : SubmitPc → ℕ
  | unbuilt => 0
  | test => 0
  | endioEmpty => 0
  | freeEmpty => 0
  | loop page => page
  | issue page _ => page
  | dec page => page
  | endio page => page + 1
  | free page => page + 1
  | finished => total

/-- The page that is being worked on. -/
def current : SubmitPc → Option ℕ
  | issue page _ => some page
  | dec page => some page
  | _ => none

/-- `bio_endio` comes next. -/
def atEndio : SubmitPc → Bool
  | endioEmpty => true
  | endio _ => true
  | _ => false

/-- `fb_destroy_bio` comes next. -/
def atFree : SubmitPc → Bool
  | freeEmpty => true
  | free _ => true
  | _ => false

/-- The bio may be complete only after the test. -/
def beforeTest : SubmitPc → Bool
  | unbuilt => true
  | test => true
  | _ => false

/-- The branch for a bio without pages to read. -/
def isEmptyBranch : SubmitPc → Bool
  | endioEmpty => true
  | freeEmpty => true
  | _ => false

end SubmitPc

/-- `struct fb_bio_t` of a read with the position of its submitter; `total` is the variable
`req_count` of `make_request`. -/
structure ReadBio where
  reqCount : ℕ
  total : ℕ
  submit : SubmitPc
  endios : ℕ
  frees : ℕ
  usedAfterFree : Bool
  status : ℕ → PageStatus
  duty : Duty

namespace ReadBio

/-- Before `fb_build_bio`. -/
def unbuilt : ReadBio where
  reqCount := 0
  total := 0
  submit := .unbuilt
  endios := 0
  frees := 0
  usedAfterFree := false
  status := fun _ => .waiting
  duty := .counting

/-- `fb_build_bio`; `hits` tells which pages were read from the write buffer. -/
def build (hits : List Bool) : ReadBio :=
  { unbuilt with
    reqCount := hits.count false
    total := hits.count false
    submit := .test }

/-- A use of the descriptor. -/
def access (bio : ReadBio) : ReadBio :=
  { bio with usedAfterFree := bio.usedAfterFree || 0 < bio.frees }

/-- `dec_bio_req_count` after a page. -/
def decReqCount (agent : Agent) (page : ℕ) (bio : ReadBio) : ReadBio :=
  { bio.access with
    reqCount := dec32 bio.reqCount
    status := Function.update bio.status page .done
    duty := if dec32 bio.reqCount = 0 then .toEndio agent else bio.duty }

/-- `bio_endio(fbio->bio)`. -/
def callEndio (agent : Agent) (bio : ReadBio) : ReadBio :=
  { bio.access with
    endios := bio.endios + 1
    duty := .toFree agent }

/-- `fb_destroy_bio` and `vfree`. -/
def callFree (bio : ReadBio) : ReadBio :=
  { bio with
    frees := bio.frees + 1
    duty := .completed }

/-- The submitter goes on. -/
def goto (submit : SubmitPc) (bio : ReadBio) : ReadBio := { bio with submit := submit }

/-- A page changes its place. -/
def place (page : ℕ) (status : PageStatus) (bio : ReadBio) : ReadBio :=
  { bio with status := Function.update bio.status page status }

/-- The test of `make_request`. -/
def test (bio : ReadBio) : ReadBio :=
  if bio.reqCount = 0 then
    { bio.access with submit := .endioEmpty, duty := .toEndio .submitter }
  else { bio.access with submit := .loop 0 }

/-- The pages that have not been read or found unmapped. -/
def openPages (bio : ReadBio) : Finset ℕ :=
  (Finset.range bio.total).filter fun page => bio.status page ≠ .done

theorem mem_openPages_iff {bio : ReadBio} {page : ℕ} :
    page ∈ bio.openPages ↔ page < bio.total ∧ bio.status page ≠ .done := by
  simp [openPages]

end ReadBio

/-- How often `bio_endio` has been called. -/
def Duty.endios : Duty → ℕ
  | toFree _ => 1
  | completed => 1
  | _ => 0

/-- How often the descriptor has been freed. -/
def Duty.frees : Duty → ℕ
  | completed => 1
  | _ => 0

/-- The invariant of a bio. -/
structure ReadBioOk (bio : ReadBio) : Prop where
  reqCount_eq : bio.reqCount = bio.openPages.card
  safe : bio.usedAfterFree = false
  endios_eq : bio.endios = bio.duty.endios
  frees_eq : bio.frees = bio.duty.frees
  counting_iff : bio.duty = .counting ↔
    bio.openPages.Nonempty ∨ bio.submit.beforeTest = true
  toEndio_iff : bio.duty = .toEndio .submitter ↔ bio.submit.atEndio = true
  toFree_iff : bio.duty = .toFree .submitter ↔ bio.submit.atFree = true
  waiting_iff : ∀ page, bio.status page = .waiting ↔ bio.submit.next bio.total ≤ page
  next_le : bio.submit.next bio.total ≤ bio.total
  current_lt : ∀ page, bio.submit.current = some page → page < bio.total
  total_eq_zero : bio.submit.isEmptyBranch = true → bio.total = 0

namespace ReadBioOk

variable {bio : ReadBio} {page : ℕ}

theorem unbuilt : ReadBioOk .unbuilt := by
  constructor <;> simp [ReadBio.unbuilt, ReadBio.openPages, Duty.endios, Duty.frees,
    SubmitPc.beforeTest, SubmitPc.atEndio, SubmitPc.atFree, SubmitPc.next, SubmitPc.current,
    SubmitPc.isEmptyBranch]

theorem build (hits : List Bool) : ReadBioOk (.build hits) := by
  constructor <;> simp [ReadBio.build, ReadBio.unbuilt, ReadBio.openPages, Duty.endios,
    Duty.frees, SubmitPc.beforeTest, SubmitPc.atEndio, SubmitPc.atFree, SubmitPc.next,
    SubmitPc.current, SubmitPc.isEmptyBranch]

theorem mem_openPages (ok : ReadBioOk bio) (started : bio.status page ≠ .waiting)
    (notDone : bio.status page ≠ .done) : page ∈ bio.openPages := by
  have behind : ¬bio.submit.next bio.total ≤ page := mt (ok.waiting_iff page).mpr started
  have := ok.next_le
  exact Finset.mem_filter.mpr ⟨Finset.mem_range.mpr (by omega), notDone⟩

theorem current_mem (ok : ReadBioOk bio) (current : bio.submit.current = some page)
    (next : bio.submit.next bio.total = page) : page ∈ bio.openPages := by
  have waiting : bio.status page = .waiting := (ok.waiting_iff page).mpr next.le
  refine Finset.mem_filter.mpr ⟨Finset.mem_range.mpr (ok.current_lt page current), ?_⟩
  rw [waiting]
  exact PageStatus.noConfusion

theorem duty_of_mem (ok : ReadBioOk bio) (isOpen : page ∈ bio.openPages) :
    bio.duty = .counting :=
  ok.counting_iff.mpr (Or.inl ⟨page, isOpen⟩)

/-- The descriptor may be used as long as it is not freed. -/
theorem usedAfterFree_access (ok : ReadBioOk bio) (notFreed : bio.duty ≠ .completed) :
    bio.access.usedAfterFree = false := by
  have frees : bio.frees = 0 := by
    rw [ok.frees_eq]
    cases duty : bio.duty with
    | completed => exact absurd duty notFreed
    | _ => rfl
  simp only [ReadBio.access, ok.safe, frees, Nat.lt_irrefl, decide_false, Bool.or_false]

/-! ### Steps that do not finish a page -/

theorem test (ok : ReadBioOk bio) (position : bio.submit = .test) : ReadBioOk bio.test := by
  have counting : bio.duty = .counting := ok.counting_iff.mpr (Or.inr (by rw [position]; rfl))
  have safe := ok.usedAfterFree_access (by simp [counting])
  have endios := ok.endios_eq
  have frees := ok.frees_eq
  have waiting := ok.waiting_iff
  have count := ok.reqCount_eq
  rw [counting] at endios frees
  rw [position] at waiting
  have allOpen : bio.openPages = Finset.range bio.total := by
    apply Finset.filter_true_of_mem
    intro page _
    rw [(waiting page).mpr (Nat.zero_le page)]
    exact PageStatus.noConfusion
  unfold ReadBio.test
  split_ifs with empty
  · have noPages : bio.total = 0 := by
      rw [allOpen, Finset.card_range] at count
      omega
    have noOpen : bio.openPages = ∅ := by
      rw [allOpen, noPages]
      rfl
    constructor
    case reqCount_eq => exact count
    case safe => exact safe
    case endios_eq => exact endios
    case frees_eq => exact frees
    case counting_iff =>
      change _ ↔ bio.openPages.Nonempty ∨ _
      simp [noOpen, SubmitPc.beforeTest]
    case toEndio_iff => simp [SubmitPc.atEndio]
    case toFree_iff => simp [SubmitPc.atFree]
    case waiting_iff => exact waiting
    case next_le => exact Nat.zero_le _
    case current_lt => simp [SubmitPc.current]
    case total_eq_zero => exact fun _ => noPages
  · have isOpen : bio.openPages.Nonempty := by
      rw [← Finset.card_pos, ← count]
      omega
    constructor
    case reqCount_eq => exact count
    case safe => exact safe
    case endios_eq => exact ok.endios_eq
    case frees_eq => exact ok.frees_eq
    case counting_iff => exact iff_of_true counting (Or.inl isOpen)
    case toEndio_iff => simp [ReadBio.access, counting, SubmitPc.atEndio]
    case toFree_iff => simp [ReadBio.access, counting, SubmitPc.atFree]
    case waiting_iff => exact waiting
    case next_le => exact Nat.zero_le _
    case current_lt => simp [SubmitPc.current]
    case total_eq_zero => simp [SubmitPc.isEmptyBranch]

theorem loop_mem (ok : ReadBioOk bio) (position : bio.submit = .loop page)
    (page_lt : page < bio.total) : page ∈ bio.openPages := by
  have waiting : bio.status page = .waiting := (ok.waiting_iff page).mpr (by rw [position]; rfl)
  refine Finset.mem_filter.mpr ⟨Finset.mem_range.mpr page_lt, ?_⟩
  rw [waiting]
  exact PageStatus.noConfusion

theorem takeUp (ok : ReadBioOk bio) (position : bio.submit = .loop page)
    (page_lt : page < bio.total) {submit : SubmitPc} (current : submit.current = some page)
    (next : submit.next bio.total = page) (plain : submit.beforeTest = false ∧
      submit.atEndio = false ∧ submit.atFree = false ∧ submit.isEmptyBranch = false) :
    ReadBioOk (bio.access.goto submit) := by
  have counting := ok.duty_of_mem (ok.loop_mem position page_lt)
  have waiting := ok.waiting_iff
  have counts := ok.counting_iff
  rw [position] at waiting counts
  rcases plain with ⟨afterTest, notEndio, notFree, notEmpty⟩
  constructor
  case reqCount_eq => exact ok.reqCount_eq
  case safe => exact ok.usedAfterFree_access (by simp [counting])
  case endios_eq => exact ok.endios_eq
  case frees_eq => exact ok.frees_eq
  case counting_iff =>
    change bio.duty = .counting ↔ bio.openPages.Nonempty ∨ submit.beforeTest = true
    rw [counts, afterTest]
    rfl
  case toEndio_iff => simp [ReadBio.goto, ReadBio.access, counting, notEndio]
  case toFree_iff => simp [ReadBio.goto, ReadBio.access, counting, notFree]
  case waiting_iff =>
    intro other
    change bio.status other = .waiting ↔ submit.next bio.total ≤ other
    rw [next]
    exact waiting other
  case next_le =>
    change submit.next bio.total ≤ bio.total
    omega
  case current_lt =>
    intro other isCurrent
    change submit.current = some other at isCurrent
    rw [current] at isCurrent
    cases isCurrent
    exact page_lt
  case total_eq_zero =>
    intro empty
    change submit.isEmptyBranch = true at empty
    simp [notEmpty] at empty

theorem finish (ok : ReadBioOk bio) (position : bio.submit = .loop page)
    (ends : ¬page < bio.total) : ReadBioOk (bio.goto .finished) := by
  have waiting := ok.waiting_iff
  have counts := ok.counting_iff
  have endio := ok.toEndio_iff
  have free := ok.toFree_iff
  have next_le := ok.next_le
  rw [position] at waiting counts endio free next_le
  have last : page = bio.total := by
    change page ≤ bio.total at next_le
    omega
  subst last
  constructor
  case reqCount_eq => exact ok.reqCount_eq
  case safe => exact ok.safe
  case endios_eq => exact ok.endios_eq
  case frees_eq => exact ok.frees_eq
  case counting_iff => exact counts
  case toEndio_iff => exact endio
  case toFree_iff => exact free
  case waiting_iff => exact waiting
  case next_le => exact le_rfl
  case current_lt => simp [ReadBio.goto, SubmitPc.current]
  case total_eq_zero => simp [ReadBio.goto, SubmitPc.isEmptyBranch]

/-- A page that is neither waiting nor done changes its place, or the submitter has put it
into a queue. -/
theorem place (ok : ReadBioOk bio) {status : PageStatus} {submit : SubmitPc}
    (isOpen : page ∈ bio.openPages) (started : status ≠ .waiting) (notDone : status ≠ .done)
    (endio : submit.atEndio = bio.submit.atEndio) (free : submit.atFree = bio.submit.atFree)
    (waiting : ∀ other, other ≠ page →
      (submit.next bio.total ≤ other ↔ bio.submit.next bio.total ≤ other))
    (behind : page < submit.next bio.total) (next_le : submit.next bio.total ≤ bio.total)
    (current_lt : ∀ other, submit.current = some other → other < bio.total)
    (total_eq_zero : submit.isEmptyBranch = true → bio.total = 0) :
    ReadBioOk ((bio.place page status).goto submit) := by
  have counting := ok.duty_of_mem isOpen
  have sameOpen : ((bio.place page status).goto submit).openPages = bio.openPages := by
    apply Finset.filter_congr
    intro other _
    by_cases same : other = page
    · subst same
      simpa [ReadBio.place, ReadBio.goto, notDone] using (Finset.mem_filter.mp isOpen).2
    · simp [ReadBio.place, ReadBio.goto, same]
  constructor
  case reqCount_eq =>
    rw [sameOpen]
    exact ok.reqCount_eq
  case safe => exact ok.safe
  case endios_eq => exact ok.endios_eq
  case frees_eq => exact ok.frees_eq
  case counting_iff =>
    rw [sameOpen]
    exact iff_of_true counting (Or.inl ⟨page, isOpen⟩)
  case toEndio_iff =>
    change _ ↔ submit.atEndio = true
    rw [endio]
    exact ok.toEndio_iff
  case toFree_iff =>
    change _ ↔ submit.atFree = true
    rw [free]
    exact ok.toFree_iff
  case waiting_iff =>
    intro other
    change Function.update bio.status page status other = .waiting ↔ submit.next bio.total ≤ other
    by_cases same : other = page
    · subst same
      rw [Function.update_self]
      exact iff_of_false started (by omega)
    · rw [Function.update_of_ne same, waiting other same]
      exact ok.waiting_iff other
  case next_le => exact next_le
  case current_lt => exact current_lt
  case total_eq_zero => exact total_eq_zero

/-! ### The end of a page -/

/-- A page is done: the count goes down with the number of open pages. -/
theorem decReqCount_openPages (bio : ReadBio) (agent : Agent) (page : ℕ) :
    (bio.decReqCount agent page).openPages = bio.openPages.erase page := by
  ext other
  rw [Finset.mem_erase, ReadBio.mem_openPages_iff, ReadBio.mem_openPages_iff]
  by_cases same : other = page
  · simp [ReadBio.decReqCount, same]
  · simp [ReadBio.decReqCount, ReadBio.access, same]

theorem decReqCount_reqCount (ok : ReadBioOk bio) (isOpen : page ∈ bio.openPages)
    (agent : Agent) :
    (bio.decReqCount agent page).reqCount = (bio.decReqCount agent page).openPages.card := by
  have some_ : 0 < bio.openPages.card := Finset.card_pos.mpr ⟨page, isOpen⟩
  rw [decReqCount_openPages, Finset.card_erase_of_mem isOpen, ← ok.reqCount_eq]
  apply dec32_of_pos
  rw [ok.reqCount_eq]
  exact some_

/-- Whoever takes the count to 0 has to complete the bio. -/
theorem decReqCount_duty (ok : ReadBioOk bio) (isOpen : page ∈ bio.openPages) (agent : Agent) :
    (bio.decReqCount agent page).duty =
      if (bio.decReqCount agent page).reqCount = 0 then .toEndio agent else .counting := by
  have counting := ok.duty_of_mem isOpen
  simp only [ReadBio.decReqCount, counting]

theorem decReqCount_counts (ok : ReadBioOk bio) (isOpen : page ∈ bio.openPages) (agent : Agent) :
    (bio.decReqCount agent page).usedAfterFree = false ∧
      (bio.decReqCount agent page).endios = (bio.decReqCount agent page).duty.endios ∧
      (bio.decReqCount agent page).frees = (bio.decReqCount agent page).duty.frees := by
  have counting := ok.duty_of_mem isOpen
  have endios := ok.endios_eq
  have frees := ok.frees_eq
  rw [counting] at endios frees
  refine ⟨ok.usedAfterFree_access (by simp [counting]), ?_, ?_⟩
  · rw [ok.decReqCount_duty isOpen]
    split_ifs
    · exact endios
    · exact endios
  · rw [ok.decReqCount_duty isOpen]
    split_ifs
    · exact frees
    · exact frees

theorem decReqCount_bus (ok : ReadBioOk bio) (isOpen : page ∈ bio.openPages)
    (started : bio.status page ≠ .waiting) (bus : ℕ) :
    ReadBioOk (bio.decReqCount (.bus bus) page) := by
  have counting := ok.duty_of_mem isOpen
  have count := ok.decReqCount_reqCount isOpen (.bus bus)
  have duty := ok.decReqCount_duty isOpen (.bus bus)
  rcases ok.decReqCount_counts isOpen (.bus bus) with ⟨safe, endios, frees⟩
  have afterTest : bio.submit.beforeTest = false := by
    by_contra isBefore
    have first : bio.submit.next bio.total = 0 := by
      cases position : bio.submit <;> rw [position] at isBefore <;>
        first | rfl | exact absurd rfl isBefore
    exact started ((ok.waiting_iff page).mpr (by omega))
  have notEndio : bio.submit.atEndio ≠ true := mt ok.toEndio_iff.mpr (by simp [counting])
  have notFree : bio.submit.atFree ≠ true := mt ok.toFree_iff.mpr (by simp [counting])
  constructor
  case reqCount_eq => exact count
  case safe => exact safe
  case endios_eq => exact endios
  case frees_eq => exact frees
  case counting_iff =>
    change _ ↔ _ ∨ bio.submit.beforeTest = true
    rw [duty, afterTest, Finset.nonempty_iff_ne_empty, ne_eq, ← Finset.card_eq_zero, ← count]
    split_ifs with none
    · simp [none]
    · simp [none]
  case toEndio_iff =>
    rw [duty]
    split_ifs
    · exact iff_of_false (by simp) notEndio
    · exact iff_of_false (by simp) notEndio
  case toFree_iff =>
    rw [duty]
    split_ifs
    · exact iff_of_false (by simp) notFree
    · exact iff_of_false (by simp) notFree
  case waiting_iff =>
    intro other
    change Function.update bio.status page .done other = .waiting ↔ _
    by_cases same : other = page
    · subst same
      rw [Function.update_self]
      exact iff_of_false (by simp) (mt (ok.waiting_iff other).mpr started)
    · rw [Function.update_of_ne same]
      exact ok.waiting_iff other
  case next_le => exact ok.next_le
  case current_lt => exact ok.current_lt
  case total_eq_zero => exact ok.total_eq_zero

theorem decReqCount_submitter (ok : ReadBioOk bio) (position : bio.submit = .dec page) :
    ReadBioOk ((bio.decReqCount .submitter page).goto
      (if (bio.decReqCount .submitter page).reqCount = 0 then .endio page
        else .loop (page + 1))) := by
  have isOpen : page ∈ bio.openPages := by
    apply ok.current_mem
    · rw [position]
      rfl
    · rw [position]
      rfl
  have page_lt := (ReadBio.mem_openPages_iff.mp isOpen).1
  have count := ok.decReqCount_reqCount isOpen .submitter
  have duty := ok.decReqCount_duty isOpen .submitter
  rcases ok.decReqCount_counts isOpen .submitter with ⟨safe, endios, frees⟩
  have waiting (other : ℕ) :
      (bio.decReqCount .submitter page).status other = .waiting ↔ page + 1 ≤ other := by
    have before := ok.waiting_iff other
    rw [position] at before
    change bio.status other = .waiting ↔ page ≤ other at before
    change Function.update bio.status page .done other = .waiting ↔ _
    by_cases same : other = page
    · subst same
      simp
    · rw [Function.update_of_ne same, before]
      omega
  have none_iff : (bio.decReqCount .submitter page).reqCount = 0 ↔
      ¬(bio.decReqCount .submitter page).openPages.Nonempty := by
    rw [count, Finset.card_eq_zero, Finset.not_nonempty_iff_eq_empty]
  by_cases none : (bio.decReqCount .submitter page).reqCount = 0
  · rw [if_pos none] at duty ⊢
    constructor
    case reqCount_eq => exact count
    case safe => exact safe
    case endios_eq => exact endios
    case frees_eq => exact frees
    case counting_iff =>
      change (bio.decReqCount .submitter page).duty = _ ↔ _
      rw [duty]
      exact iff_of_false (by simp) (by
        rintro (some_ | isBefore)
        · exact none_iff.mp none some_
        · cases isBefore)
    case toEndio_iff => exact iff_of_true duty rfl
    case toFree_iff =>
      change (bio.decReqCount .submitter page).duty = _ ↔ _
      rw [duty]
      simp [ReadBio.goto, SubmitPc.atFree]
    case waiting_iff => exact waiting
    case next_le => exact page_lt
    case current_lt => simp [ReadBio.goto, SubmitPc.current]
    case total_eq_zero => simp [ReadBio.goto, SubmitPc.isEmptyBranch]
  · rw [if_neg none] at duty ⊢
    constructor
    case reqCount_eq => exact count
    case safe => exact safe
    case endios_eq => exact endios
    case frees_eq => exact frees
    case counting_iff => exact iff_of_true duty (Or.inl (by rwa [none_iff, not_not] at none))
    case toEndio_iff =>
      change (bio.decReqCount .submitter page).duty = _ ↔ _
      rw [duty]
      simp [ReadBio.goto, SubmitPc.atEndio]
    case toFree_iff =>
      change (bio.decReqCount .submitter page).duty = _ ↔ _
      rw [duty]
      simp [ReadBio.goto, SubmitPc.atFree]
    case waiting_iff => exact waiting
    case next_le => exact page_lt
    case current_lt => simp [ReadBio.goto, SubmitPc.current]
    case total_eq_zero => simp [ReadBio.goto, SubmitPc.isEmptyBranch]

/-! ### Completion -/

theorem no_openPages (ok : ReadBioOk bio) (duty : bio.duty ≠ .counting) :
    ¬bio.openPages.Nonempty ∧ bio.submit.beforeTest = false := by
  rw [ne_eq, ok.counting_iff, not_or] at duty
  exact ⟨duty.1, Bool.not_eq_true _ ▸ duty.2⟩

theorem callEndio (ok : ReadBioOk bio) {agent : Agent} (duty : bio.duty = .toEndio agent)
    {submit : SubmitPc} (next : submit.next bio.total = bio.submit.next bio.total)
    (afterTest : submit.beforeTest = false) (notEndio : submit.atEndio = false)
    (atFree : agent = .submitter ↔ submit.atFree = true)
    (current_lt : ∀ other, submit.current = some other → other < bio.total)
    (total_eq_zero : submit.isEmptyBranch = true → bio.total = 0) :
    ReadBioOk ((bio.callEndio agent).goto submit) := by
  have endios := ok.endios_eq
  have frees := ok.frees_eq
  rw [duty] at endios frees
  constructor
  case reqCount_eq => exact ok.reqCount_eq
  case safe => exact ok.usedAfterFree_access (by simp [duty])
  case endios_eq =>
    change bio.endios + 1 = 1
    rw [endios]
    rfl
  case frees_eq => exact frees
  case counting_iff =>
    refine iff_of_false (by simp [ReadBio.goto, ReadBio.callEndio]) ?_
    rintro (some_ | isBefore)
    · exact (ok.no_openPages (by simp [duty])).1 some_
    · change submit.beforeTest = true at isBefore
      simp [afterTest] at isBefore
  case toEndio_iff => simp [ReadBio.goto, ReadBio.callEndio, notEndio]
  case toFree_iff => simpa [ReadBio.goto, ReadBio.callEndio] using atFree
  case waiting_iff =>
    intro other
    change bio.status other = .waiting ↔ submit.next bio.total ≤ other
    rw [next]
    exact ok.waiting_iff other
  case next_le =>
    change submit.next bio.total ≤ bio.total
    rw [next]
    exact ok.next_le
  case current_lt => exact current_lt
  case total_eq_zero => exact total_eq_zero

theorem callFree (ok : ReadBioOk bio) {agent : Agent} (duty : bio.duty = .toFree agent)
    {submit : SubmitPc} (next : submit.next bio.total = bio.submit.next bio.total)
    (afterTest : submit.beforeTest = false) (notEndio : submit.atEndio = false)
    (notFree : submit.atFree = false)
    (current_lt : ∀ other, submit.current = some other → other < bio.total)
    (total_eq_zero : submit.isEmptyBranch = true → bio.total = 0) :
    ReadBioOk (bio.callFree.goto submit) := by
  have endios := ok.endios_eq
  have frees := ok.frees_eq
  rw [duty] at endios frees
  constructor
  case reqCount_eq => exact ok.reqCount_eq
  case safe => exact ok.safe
  case endios_eq => exact endios
  case frees_eq =>
    change bio.frees + 1 = 1
    rw [frees]
    rfl
  case counting_iff =>
    refine iff_of_false (by simp [ReadBio.goto, ReadBio.callFree]) ?_
    rintro (some_ | isBefore)
    · exact (ok.no_openPages (by simp [duty])).1 some_
    · change submit.beforeTest = true at isBefore
      simp [afterTest] at isBefore
  case toEndio_iff => simp [ReadBio.goto, ReadBio.callFree, notEndio]
  case toFree_iff => simp [ReadBio.goto, ReadBio.callFree, notFree]
  case waiting_iff =>
    intro other
    change bio.status other = .waiting ↔ submit.next bio.total ≤ other
    rw [next]
    exact ok.waiting_iff other
  case next_le =>
    change submit.next bio.total ≤ bio.total
    rw [next]
    exact ok.next_le
  case current_lt => exact current_lt
  case total_eq_zero => exact total_eq_zero

end ReadBioOk

end FlashBench
