import FlashBench.DeviceSteps
import FlashBench.Library.Alignment

/-!
# Requests and their effect

`Bio.effect` is what a request means to the host: the disk is a partial store, a
write stores pages, a discard forgets the pages that it covers wholly. A request
that does not leave `make_request` through `FAIL` has this effect.
-/

namespace FlashBench

/-! ### The meaning of a request -/

namespace Bio

/-- The length of a bio in sectors. -/
def nrSectors (bio : Bio) : ℕ :=
  match bio.op with
  | .discard => bio.biSize / 512
  | _ => 8 * bio.pages.length

/-- What the block layer lets through: the sectors exist. The flag `REQ_PREFLUSH` is for
flush requests, which `fb_init` never asks for. -/
structure InRange (G : Geometry) (bio : Bio) : Prop where
  preflush : bio.preflush = false
  fits : bio.biSector + bio.nrSectors ≤ 8 * G.capacityInPages

instance (G : Geometry) (bio : Bio) : Decidable (bio.InRange G) :=
  decidable_of_iff (bio.preflush = false ∧ bio.biSector + bio.nrSectors ≤ 8 * G.capacityInPages)
    ⟨fun ⟨preflush, fits⟩ => ⟨preflush, fits⟩, fun ⟨preflush, fits⟩ => ⟨preflush, fits⟩⟩

/-- The pages of a write. -/
def written (bio : Bio) : List (ℕ × PageData) :=
  bio.pages.mapIdx fun segment page => (bio.biSector / 8 + segment, page)

/-- The LPA lies wholly in the range of the bio. -/
def Covers (bio : Bio) (lpa : ℕ) : Prop :=
  bio.biSector ≤ 8 * lpa ∧ 8 * lpa + 8 ≤ bio.biSector + bio.nrSectors

instance (bio : Bio) (lpa : ℕ) : Decidable (bio.Covers lpa) := inferInstanceAs (Decidable (_ ∧ _))

/-- What a request does to the disk. -/
def effect (bio : Bio) (disk : Store ℕ PageData) : Store ℕ PageData :=
  match bio.op with
  | .read => disk
  | .write => disk.write bio.written
  | .discard => fun lpa => if bio.Covers lpa then none else disk lpa

/-- The pages of a request afterwards: a read fills those that the disk holds. -/
def filled (bio : Bio) (disk : Store ℕ PageData) : List PageData :=
  match bio.op with
  | .read => bio.pages.mapIdx fun segment page => (disk (bio.biSector / 8 + segment)).getD page
  | _ => bio.pages

end Bio

/-! ### LPAs -/

section Lpas

variable {G : Geometry} {bio : Bio}

/-- `x & ~7` rounds down to a multiple of 8. -/
theorem maskSectors_eq {x : ℕ} (fits : x < 2 ^ 64) : Fb.maskSectors x = x / 8 * 8 := by
  have mask : 0xfffffffffffffff8 = 2 ^ 64 - 2 ^ 3 := by decide
  unfold Fb.maskSectors
  rw [Nat.mod_eq_of_lt fits, mask]
  exact and_highBits_eq fits (by decide)

theorem capacityInPages_lt (G : Geometry) : G.capacityInPages < 2 ^ 32 := by
  have := G.capacityInPages_le
  have := G.numLogPages_lt
  simp only [pageUnmapped] at this
  omega

theorem Bio.InRange.lpa_eq (inRange : bio.InRange G) (data : bio.op ≠ .discard) {segment : ℕ}
    (inside : segment < bio.pages.length) :
    bio.lpa segment = bio.biSector / 8 + segment ∧
      bio.biSector / 8 + segment < G.capacityInPages := by
  have fits := inRange.fits
  have := capacityInPages_lt G
  have length : bio.nrSectors = 8 * bio.pages.length := by
    unfold Bio.nrSectors
    rcases kind : bio.op with _ | _ | _
    · rfl
    · rfl
    · exact absurd kind data
  rw [length] at fits
  unfold Bio.lpa
  rw [maskSectors_eq (by omega), Nat.shiftRight_eq_div_pow]
  omega

theorem Bio.InRange.putPairs_eq (inRange : bio.InRange G) (data : bio.op ≠ .discard) :
    bio.putPairs = bio.written := by
  refine List.ext_getElem (by simp [Bio.putPairs, Bio.pairsOf, Bio.requests, Bio.written]) ?_
  intro segment inside _
  have within : segment < bio.pages.length := by
    simpa [Bio.putPairs, Bio.pairsOf, Bio.requests] using inside
  simp [Bio.putPairs, Bio.pairsOf, Bio.requests, Bio.written, (inRange.lpa_eq data within).1, within]

theorem Bio.InRange.requests_lt (inRange : bio.InRange G) (data : bio.op ≠ .discard) :
    ∀ request ∈ bio.requests, request.2 < G.numLogPages := by
  intro request mem
  simp only [Bio.requests, List.mem_map, List.mem_range] at mem
  rcases mem with ⟨segment, inside, rfl⟩
  have := inRange.lpa_eq data inside
  have := G.capacityInPages_le
  simp only
  omega

theorem mem_discardLpas {biSector biSize : ℕ} (fits : biSector + biSize / 512 < 2 ^ 35) {lpa : ℕ} :
    lpa ∈ Fb.discardLpas biSector biSize ↔
      biSector ≤ 8 * lpa ∧ 8 * lpa + 8 ≤ biSector + biSize / 512 := by
  have sizeInSectors : biSize >>> 9 = biSize / 512 := by rw [Nat.shiftRight_eq_div_pow]
  have start : Fb.discardStart biSector = (biSector + 7) / 8 := by
    unfold Fb.discardStart
    rw [maskSectors_eq (by omega), Nat.shiftRight_eq_div_pow]
    omega
  have count : Fb.discardCount biSector biSize =
      (biSector + biSize / 512) / 8 - (biSector + 7) / 8 := by
    unfold Fb.discardCount
    rw [sizeInSectors, maskSectors_eq (by omega), maskSectors_eq (by omega)]
    simp only [Nat.shiftRight_eq_div_pow]
    split_ifs <;> omega
  unfold Fb.discardLpas
  rw [start, count]
  simp only [List.mem_map, List.mem_range]
  constructor
  · rintro ⟨lpLoop, inside, rfl⟩
    omega
  · rintro ⟨from_, upTo⟩
    exact ⟨lpa - (biSector + 7) / 8, by omega, by omega⟩

theorem Bio.InRange.mem_discardLpas (inRange : bio.InRange G) (discard : bio.op = .discard) {lpa : ℕ} :
    lpa ∈ Fb.discardLpas bio.biSector bio.biSize ↔ bio.Covers lpa := by
  have fits := inRange.fits
  have := capacityInPages_lt G
  have length : bio.nrSectors = bio.biSize / 512 := by
    unfold Bio.nrSectors
    rw [discard]
  rw [length] at fits
  rw [FlashBench.mem_discardLpas (by omega), Bio.Covers, length]

theorem Bio.InRange.discardLpas_lt (inRange : bio.InRange G) (discard : bio.op = .discard) :
    ∀ lpa ∈ Fb.discardLpas bio.biSector bio.biSize, lpa < G.numLogPages := by
  intro lpa mem
  have covered := (inRange.mem_discardLpas discard).mp mem
  have fits := inRange.fits
  have := G.capacityInPages_le
  unfold Bio.Covers at covered
  omega

end Lpas

/-! ### Reads -/

section Reads

variable {G : Geometry} {fill : ℕ → PageData → PageData} {requests : List (ℕ × ℕ)}
  {pages : List PageData}

/-- Fill the page of every request. -/
def fillPages (fill : ℕ → PageData → PageData) (pages : List PageData)
    (requests : List (ℕ × ℕ)) : List PageData :=
  requests.foldl (fun pages request => pages.modify request.1 (fill request.2)) pages

theorem fillPages_of_not_mem {segment : ℕ} (absent : segment ∉ requests.map Prod.fst) :
    (fillPages fill pages requests)[segment]? = pages[segment]? := by
  unfold fillPages
  induction requests generalizing pages with
  | nil => rfl
  | cons request requests ih =>
      rw [List.map_cons, List.mem_cons, not_or] at absent
      rw [List.foldl_cons, ih absent.2, List.getElem?_modify_ne _ _ (Ne.symm absent.1)]

theorem fillPages_of_mem (fill : ℕ → PageData → PageData) (pages : List PageData)
    (distinct : (requests.map Prod.fst).Nodup) {request : ℕ × ℕ}
    (mem : request ∈ requests) :
    (fillPages fill pages requests)[request.1]? = (pages[request.1]?).map (fill request.2) := by
  induction requests generalizing pages with
  | nil => simp at mem
  | cons first requests ih =>
      rw [List.map_cons, List.nodup_cons] at distinct
      change (fillPages fill (pages.modify first.1 (fill first.2)) requests)[request.1]? = _
      rcases List.mem_cons.mp mem with rfl | mem
      · rw [fillPages_of_not_mem distinct.1, List.getElem?_modify_eq]
        rfl
      · have different : first.1 ≠ request.1 := by
          intro same
          exact distinct.1 (same ▸ List.mem_map.mpr ⟨request, mem, rfl⟩)
        rw [ih _ distinct.2 mem, List.getElem?_modify_ne _ _ different]

theorem set_eq_modify (pages : List PageData) (segment : ℕ) (f : PageData → PageData)
    {data : PageData} (data_eq : ∀ page, pages[segment]? = some page → data = f page) :
    pages.set segment data = pages.modify segment f := by
  refine List.ext_getElem? fun other => ?_
  by_cases same : segment = other
  · subst other
    rw [List.getElem?_set_self', List.getElem?_modify_eq]
    rcases present : pages[segment]? with _ | page
    · rfl
    · simp [data_eq page present]
  · rw [List.getElem?_set_ne same, List.getElem?_modify_ne _ _ same]

theorem buildReadBio_eq (wb : WriteBuffer PageData) (bio : Bio) :
    FbContext.buildReadBio wb bio =
      (fillPages (fun lpa page => (wb.content lpa).getD page) bio.pages bio.requests,
        bio.requests.filter fun request => (wb.content request.2).isNone) := by
  have build : ∀ (requests : List (ℕ × ℕ)) (pages : List PageData) (collected : List (ℕ × ℕ)),
      requests.foldl (FbContext.buildReadPage wb) (pages, collected) =
      (fillPages (fun lpa page => (wb.content lpa).getD page) pages requests,
        collected ++ requests.filter fun request => (wb.content request.2).isNone) := by
    intro requests
    induction requests with
    | nil => simp [fillPages]
    | cons request requests ih =>
        intro pages collected
        have first : fillPages (fun lpa page => (wb.content lpa).getD page) pages
            (request :: requests) =
          fillPages (fun lpa page => (wb.content lpa).getD page)
            (pages.modify request.1 fun page => (wb.content request.2).getD page) requests := rfl
        rw [List.foldl_cons, first]
        rcases buffered : wb.getPgData request.2 with _ | data
        · have content : wb.content request.2 = none := buffered
          simp only [FbContext.buildReadPage, buffered, content]
          rw [ih]
          change _ = (fillPages _ (pages.modify request.1 id) requests, _)
          simp [content]
        · have content : wb.content request.2 = some data := buffered
          simp only [FbContext.buildReadPage, buffered, content, Option.getD_some]
          rw [ih, set_eq_modify pages request.1 (fun _ => data) fun _ _ => rfl]
          simp [content]
  exact build bio.requests bio.pages []

theorem issueReads_eq (fb : Fb) (pages : List PageData) (requests : List (ℕ × ℕ)) :
    FbContext.issueReads G fb pages requests =
      fillPages (fun lpa page => (fb.flashData G lpa).getD page) pages requests := by
  unfold FbContext.issueReads fillPages
  congr 1
  funext pages request
  refine set_eq_modify pages request.1 _ fun page present => ?_
  rw [fb.makeReadRequest_eq, present]
  change _ = (fb.flashData G request.2).getD page
  rcases fb.flashData G request.2 with _ | data <;> rfl

theorem readPages_eq (ctx : FbContext) (bio : Bio) :
    FbContext.issueReads G ctx.fb (FbContext.buildReadBio ctx.wb bio).1
      (FbContext.buildReadBio ctx.wb bio).2 =
    bio.pages.mapIdx fun segment page => (ctx.content G (bio.lpa segment)).getD page := by
  rw [issueReads_eq, buildReadBio_eq]
  have firsts : bio.requests.map Prod.fst = List.range bio.pages.length := by
    simp [Bio.requests, Function.comp_def]
  have distinct : (bio.requests.map Prod.fst).Nodup := by
    rw [firsts]
    exact List.nodup_range
  have distinct' : ((bio.requests.filter fun request =>
      (ctx.wb.content request.2).isNone).map Prod.fst).Nodup :=
    distinct.sublist (List.filter_sublist.map _)
  refine List.ext_getElem? fun segment => ?_
  rw [List.getElem?_mapIdx]
  by_cases inside : segment < bio.pages.length
  · have mem : (segment, bio.lpa segment) ∈ bio.requests := by simp [Bio.requests, inside]
    have first := fillPages_of_mem (fun lpa page => (ctx.wb.content lpa).getD page) bio.pages
      distinct mem
    simp only at first
    simp only
    rcases buffered : ctx.wb.content (bio.lpa segment) with _ | data
    · have second := fillPages_of_mem (fun lpa page => (ctx.fb.flashData G lpa).getD page)
        (fillPages (fun lpa page => (ctx.wb.content lpa).getD page) bio.pages bio.requests)
        distinct' (List.mem_filter.mpr ⟨mem, by simp [buffered]⟩)
      simp only at second
      rw [second, first, Option.map_map]
      simp [FbContext.content, Store.overlay, buffered, Function.comp_def]
    · rw [fillPages_of_not_mem, first]
      · simp [FbContext.content, Store.overlay, buffered]
      · intro present
        rcases List.mem_map.mp present with ⟨⟨other, lpa⟩, otherMem, rfl⟩
        simp only [List.mem_filter, Bio.requests, List.mem_map, List.mem_range,
          Prod.mk.injEq] at otherMem
        rcases otherMem with ⟨⟨_, _, rfl, rfl⟩, unbuffered⟩
        simp [buffered] at unbuffered
  · have absent : segment ∉ bio.requests.map Prod.fst := by
      rw [firsts]
      simpa using inside
    rw [fillPages_of_not_mem, fillPages_of_not_mem absent, List.getElem?_eq_none (by omega)]
    · rfl
    · intro present
      rcases List.mem_map.mp present with ⟨request, otherMem, rfl⟩
      exact absent (List.mem_map.mpr ⟨request, (List.mem_filter.mp otherMem).1, rfl⟩)

end Reads

/-! ### The outcome of a request -/

/-- What `make_request` leaves behind. -/
structure RequestOutcome (G : Geometry) (garbage : Garbage) (ctx : FbContext) (bio : Bio)
    (result : BioResult) : Prop where
  inv : DeviceInv G garbage result.ctx
  err : result.ctx.err = result.failExit
  idle : result.failExit = false → result.ctx.wb.writingPgs = []
  content : result.failExit = false → result.ctx.content G = bio.effect (ctx.content G)
  pages : result.failExit = false → result.pages = bio.filled (ctx.content G)
  biError : result.failExit = false → result.biError = 0

section Outcome

variable {G : Geometry} {garbage : Garbage} {ctx : FbContext} {bio : Bio}

theorem RequestOutcome.fail (inv : DeviceInv G garbage ctx) (start : FbContext) (bio : Bio)
    (pages : List PageData) (retValue : ℤ) :
    RequestOutcome G garbage start bio
      { ctx := { ctx with err := true }, pages := pages, biError := retValue, failExit := true } :=
  ⟨⟨inv.reachable, inv.wbOk, inv.inRange⟩, rfl, by simp, by simp, by simp, by simp⟩

/-- `make_request` returns, and a request that does not leave through `FAIL` has its effect. -/
theorem makeRequest_spec (inv : DeviceInv G garbage ctx)
    (idle : ctx.err = false → ctx.wb.writingPgs = []) (inRange : bio.InRange G)
    (allocated : Bool) :
    ∃ result, ctx.makeRequest G allocated bio = some result ∧
      RequestOutcome G garbage ctx bio result := by
  unfold FbContext.makeRequest
  by_cases err : ctx.err
  · rw [if_pos err]
    exact ⟨_, rfl, .fail inv ctx bio _ _⟩
  rw [if_neg err, if_neg (by simp [inRange.preflush])]
  rw [Bool.not_eq_true] at err
  have idle := idle err
  rcases kind : bio.op with _ | _ | _
  · by_cases alloc : allocated
    · simp only [alloc, if_true]
      refine ⟨_, rfl, inv, err, fun _ => idle, fun _ => ?_, fun _ => ?_, fun _ => rfl⟩
      · simp [Bio.effect, kind]
      · simp only [readPages_eq, Bio.filled, kind]
        refine List.ext_getElem (by simp) fun segment _ inside => ?_
        simp only [List.getElem_mapIdx]
        rw [(inRange.lpa_eq (by simp [kind]) (by simpa using inside)).1]
    · simp only [alloc]
      exact ⟨_, rfl, .fail inv ctx bio _ _⟩
  · by_cases alloc : allocated
    · simp only [alloc, if_true]
      have data : bio.op ≠ .discard := by simp [kind]
      have insideRequests := inRange.requests_lt data
      have keys : bio.requests.map Prod.snd = bio.putPairs.map Prod.fst := by
        simp [Bio.putPairs, Bio.pairsOf]
      have insideKeys : ∀ lpa ∈ bio.requests.map Prod.snd, lpa < G.numLogPages := by
        intro lpa mem
        rcases List.mem_map.mp mem with ⟨request, requestMem, rfl⟩
        exact insideRequests request requestMem
      have early : DeviceInv G garbage
          { ctx with fb := ctx.fb.delInvalidatePgs G (bio.requests.map Prod.snd) } :=
        ⟨inv.reachable.exec (.invalidate _) insideKeys, inv.wbOk, inv.inRange⟩
      have outcome := putRequests_spec bio bio.requests early idle insideRequests
      simp only [FbContext.writeLoop]
      generalize forEach (FbContext.putRequest G bio) bio.requests _ = loop at outcome ⊢
      rcases loop with ⟨_ | _ | _, after⟩
      · refine ⟨_, rfl, outcome.inv, outcome.err.trans err, fun _ => outcome.idle rfl,
          fun _ => ?_, fun _ => ?_, fun _ => rfl⟩
        · have content := outcome.content rfl
          simp only [Bio.effect, kind, ← inRange.putPairs_eq data]
          refine content.trans (Store.write_congr fun lpa absent => ?_)
          have notKey : lpa ∉ bio.requests.map Prod.snd := by
            rw [keys]
            intro mem
            rcases List.mem_map.mp mem with ⟨pair, pairMem, same⟩
            exact absent pair pairMem same
          simp only [FbContext.content, Store.overlay,
            flashData_delInvalidatePgs ctx.fb insideKeys, Store.discard_apply, if_neg notKey]
        · simp [Bio.filled, kind]
      · exact ⟨_, rfl, .fail outcome.inv ctx bio _ _⟩
      · exact absurd rfl outcome.returns
    · simp only [alloc]
      exact ⟨_, rfl, .fail inv ctx bio _ _⟩
  · rcases discardLpas_spec inv (inRange.discardLpas_lt kind) with ⟨after, content⟩
    refine ⟨_, rfl, after, err, fun _ => ?_, fun _ => ?_, fun _ => ?_, fun _ => rfl⟩
    · exact (content_foldl_rmBufPg inv.wbOk _).2.2 idle
    · refine content.trans ?_
      funext lpa
      simp [Store.discard_apply, Bio.effect, kind, inRange.mem_discardLpas kind]
    · simp [Bio.filled, kind]

end Outcome

end FlashBench
