import FlashBench.WriteRoom

/-!
# What the host can rely on

A host without failing requests reads what it has written. When a request fails, its
completion does not always say so, and a discarded page is not read as zeros.
-/

namespace FlashBench

section Contract

variable {G : Geometry} {garbage : Garbage} {wbData : ℕ → PageData} {ctx : FbContext}
  {bios : List Bio} {bio : Bio} {allocated : Bool} {result : BioResult}

/-! ### The exits of a request -/

/-- A flush fails while the write loop of `make_request` runs. -/
def WriteFails (G : Geometry) (bio : Bio) (ctx : FbContext) : Prop :=
  FlushFails G bio { ctx with fb := ctx.fb.delInvalidatePgs G (bio.requests.map Prod.snd) }

theorem DeviceInv.delInvalidatePgs (inv : DeviceInv G garbage ctx) {requests : List (ℕ × ℕ)}
    (inside : ∀ request ∈ requests, request.2 < G.numLogPages) :
    DeviceInv G garbage
      { ctx with fb := ctx.fb.delInvalidatePgs G (requests.map Prod.snd) } := by
  refine ⟨inv.reachable.exec (.invalidate _) fun lpa mem => ?_, inv.wbOk, inv.inRange⟩
  rcases List.mem_map.mp mem with ⟨request, requestMem, rfl⟩
  exact inside request requestMem

/-- The exits of `make_request`, and the error code on the way through `FAIL`. -/
theorem exit_of_served (inv : DeviceInv G garbage ctx)
    (idle : ctx.err = false → ctx.wb.writingPgs = []) (inRange : bio.InRange G)
    (served : ctx.makeRequest G allocated bio = some result) :
    (result.failExit = true ↔ ctx.err = true ∨ (bio.op ≠ .discard ∧ allocated = false) ∨
      (bio.op = .write ∧ allocated = true ∧ WriteFails G bio ctx)) ∧
    (result.failExit = true →
      (result.biError ≠ 0 ↔ ctx.err = false ∧ bio.op ≠ .discard ∧ allocated = false)) := by
  unfold FbContext.makeRequest at served
  by_cases err : ctx.err
  · rw [if_pos err, FbContext.failWith, Option.some.injEq] at served
    simp [← served, err]
  rw [if_neg err, if_neg (by simp [inRange.preflush])] at served
  rw [Bool.not_eq_true] at err
  rcases kind : bio.op with _ | _ | _
  · rcases allocated with _ | _
    · simp only [kind, FbContext.failWith, Bool.false_eq_true, if_false, Option.some.injEq]
        at served
      simp [← served, err, eNoDev]
    · simp only [kind, FbContext.finish, if_true, Option.some.injEq] at served
      simp [← served, err]
  · rcases allocated with _ | _
    · simp only [kind, FbContext.failWith, Bool.false_eq_true, if_false, Option.some.injEq]
        at served
      simp [← served, err, eNoDev]
    · have data : bio.op ≠ .discard := by simp [kind]
      have insideRequests := inRange.requests_lt data
      have early : DeviceInv G garbage
          { ctx with fb := ctx.fb.delInvalidatePgs G (bio.requests.map Prod.snd) } :=
        inv.delInvalidatePgs insideRequests
      have fails := writeLoop_fail_iff bio early (idle err) insideRequests
      simp only [kind, if_true] at served
      unfold WriteFails
      rw [← fails]
      generalize FbContext.writeLoop G bio _ = loop at served ⊢
      rcases loop with ⟨_ | _ | _, after⟩
      · simp only [FbContext.finish, Option.some.injEq] at served
        simp [← served, err]
      · simp only [FbContext.failWith, Option.some.injEq] at served
        simp [← served, err]
      · simp at served
  · simp only [kind, FbContext.finish, Option.some.injEq] at served
    simp [← served, err]

/-- The room for a write, in the state before it. -/
theorem not_writeFails_of_fits (run : DeviceRun G garbage wbData ctx) (noErr : ctx.err = false)
    (inRange : bio.InRange G) (write : bio.op = .write) (fits : bio.Fits G ctx) :
    ¬WriteFails G bio ctx := by
  have before := run.inv
  have data : bio.op ≠ .discard := by simp [write]
  have insideRequests := inRange.requests_lt data
  have early : DeviceInv G garbage
      { ctx with fb := ctx.fb.delInvalidatePgs G (bio.requests.map Prod.snd) } :=
    before.1.delInvalidatePgs insideRequests
  have loopOk : (FbContext.writeLoop G bio
      { ctx with fb := ctx.fb.delInvalidatePgs G (bio.requests.map Prod.snd) }).1 = .ok := by
    rcases fits with few | room
    · exact writeLoop_free few
    · exact writeLoop_room early (before.2 noErr) insideRequests
        (room.delInvalidatePgs (bio.requests.map Prod.snd))
  unfold WriteFails
  rw [← writeLoop_fail_iff bio early (before.2 noErr) insideRequests, loopOk]
  simp

/-- A request without a failing flush on a device without error succeeds. -/
theorem HostRun.serve (run : HostRun G garbage wbData bios ctx) (noErr : ctx.err = false)
    (inRange : bio.InRange G) (noFailure : bio.op = .write → ¬WriteFails G bio ctx) :
    ∃ result, ctx.makeRequest G true bio = some result ∧ result.failExit = false ∧
      HostRun G garbage wbData (bios ++ [bio]) result.ctx := by
  have before := run.deviceRun.inv
  rcases makeRequest_spec before.1 before.2 inRange true with ⟨result, served, _⟩
  have succeeded : result.failExit = false := by
    have exit := (exit_of_served before.1 before.2 inRange served).1
    rw [← Bool.not_eq_true, exit]
    rintro (err | ⟨_, alloc⟩ | ⟨write, _, fails⟩)
    · simp [noErr] at err
    · simp at alloc
    · exact noFailure write fails
  exact ⟨result, served, succeeded, run.request inRange served succeeded⟩

/-! ### Reading what was written -/

/-- In every run without failures the content of the device is the disk of the host and a read
copies it, and no run of the foreground GC changes it. -/
theorem content_is_hostDisk (run : HostRun G garbage wbData bios ctx) :
    (∀ lpa, ctx.content G lpa = hostDisk bios lpa) ∧
      (∀ (bio : Bio) (allocated : Bool), bio.InRange G →
        ∃ result, ctx.makeRequest G allocated bio = some result ∧
          (bio.op = .read → result.failExit = false → ∀ segment page,
            bio.pages[segment]? = some page → ∀ data,
              ctx.content G (bio.biSector / 8 + segment) = some data →
                result.pages[segment]? = some data)) ∧
      ∀ (other : FbContext), Reachable G garbage other.fb → ∀ lpa,
        FbContext.content G { other with fb := (other.fb.triggerGcPageMapping G).2 } lpa =
          other.content G lpa := by
  refine ⟨fun lpa => by rw [run.content_eq], fun bio allocated inRange => ?_,
    fun other reachable lpa => ?_⟩
  · have before := run.deviceRun.inv
    rcases makeRequest_spec before.1 before.2 inRange allocated with ⟨result, served, outcome⟩
    refine ⟨result, served, fun read succeeded segment page present data holds => ?_⟩
    rw [outcome.pages succeeded]
    simp [Bio.filled, read, List.getElem?_mapIdx, present, holds]
  · simp only [FbContext.content]
    rw [(flashData_triggerGcPageMapping reachable.inv).2]

/-! ### Failures -/

/-- The request took effect. -/
def TookEffect (G : Geometry) (ctx : FbContext) (bio : Bio) (result : BioResult) : Prop :=
  match bio.op with
  | .read => ∀ segment page, bio.pages[segment]? = some page → ∀ data,
      ctx.content G (bio.biSector / 8 + segment) = some data → result.pages[segment]? = some data
  | .write => ∀ pair ∈ bio.written, result.ctx.content G pair.1 = some pair.2
  | .discard => ∀ lpa, bio.Covers lpa →
      result.ctx.wb.content lpa = none ∧ result.ctx.fb.flashData G lpa = none

/-- Success means effect, and a failure is reported. -/
structure NoSilentFailure (G : Geometry) (ctx : FbContext) (bio : Bio) (result : BioResult) :
    Prop where
  effect : result.biError = 0 → TookEffect G ctx bio result
  reported : result.failExit = true → result.biError ≠ 0

theorem hostEffect_write {disk : Store ℕ PageData} (write : bio.op = .write)
    {pair : ℕ × PageData} (mem : pair ∈ bio.written) : bio.effect disk pair.1 = some pair.2 := by
  have distinct : (bio.written.map Prod.fst).Nodup := by
    have keys : bio.written.map Prod.fst =
        (List.range bio.pages.length).map fun segment => bio.biSector / 8 + segment := by
      refine List.ext_getElem (by simp [Bio.written]) fun segment _ _ => ?_
      simp [Bio.written]
    rw [keys]
    exact List.nodup_range.map fun left right same => by simpa using same
  simp only [Bio.effect, write]
  exact Store.write_of_mem distinct mem

theorem content_eq_none {lpa : ℕ} (absent : ctx.content G lpa = none) :
    ctx.wb.content lpa = none ∧ ctx.fb.flashData G lpa = none := by
  simpa [FbContext.content, Store.overlay] using absent

theorem RequestOutcome.tookEffect (outcome : RequestOutcome G garbage ctx bio result)
    (succeeded : result.failExit = false) : TookEffect G ctx bio result := by
  have content := outcome.content succeeded
  have pages := outcome.pages succeeded
  unfold TookEffect
  rcases kind : bio.op with _ | _ | _
  · intro segment page present data holds
    simp [pages, Bio.filled, kind, List.getElem?_mapIdx, present, holds]
  · intro pair mem
    rw [content]
    exact hostEffect_write kind mem
  · intro lpa covered
    refine content_eq_none ?_
    simp [content, Bio.effect, kind, covered]

/-- With the error flag cleared and without a failing flush, every failure is an allocation that
has failed, and is reported. -/
theorem noSilentFailure_of_noFailure (run : DeviceRun G garbage wbData ctx)
    (inRange : bio.InRange G) (served : ctx.makeRequest G allocated bio = some result)
    (noErr : ctx.err = false)
    (noFlushFails : bio.op = .write → allocated = true → ¬WriteFails G bio ctx) :
    NoSilentFailure G ctx bio result := by
  have before := run.inv
  have outcome := RequestOutcome.of_served before.1 before.2 inRange served
  rcases exit_of_served before.1 before.2 inRange served with ⟨exit, code⟩
  have reported : result.failExit = true → result.biError ≠ 0 := by
    intro failed
    rcases exit.mp failed with err | alloc | ⟨write, alloc, fails⟩
    · simp [noErr] at err
    · exact (code failed).mpr ⟨noErr, alloc⟩
    · exact absurd fails (noFlushFails write alloc)
  refine ⟨fun success => outcome.tookEffect ?_, reported⟩
  by_contra failed
  rw [Bool.not_eq_false] at failed
  exact reported failed success

/-- A write bio with a free entry for each page, or with room for what it makes the device flush,
is reported correctly, whatever its allocation comes to. -/
theorem noSilentFailure_of_fits (run : DeviceRun G garbage wbData ctx) (inRange : bio.InRange G)
    (served : ctx.makeRequest G allocated bio = some result) (noErr : ctx.err = false)
    (fits : bio.op = .write → bio.Fits G ctx) : NoSilentFailure G ctx bio result :=
  noSilentFailure_of_noFailure run inRange served noErr fun write _ =>
    not_writeFails_of_fits run noErr inRange write (fits write)

/-- The LPA lies wholly in a discard and was not written after it. -/
def Discarded (bios : List Bio) (lpa : ℕ) : Prop :=
  ∃ before discard after, bios = before ++ discard :: after ∧ discard.op = .discard ∧
    discard.Covers lpa ∧ ∀ bio ∈ after, bio.op = .write → lpa ∉ bio.written.map Prod.fst

/-- Reads of the LPA that succeed fill their page with zero bytes, whatever it contained. -/
def ReadsZero (G : Geometry) (ctx : FbContext) (lpa : ℕ) : Prop :=
  ∀ (bio : Bio) (allocated : Bool) (result : BioResult) (segment : ℕ), bio.op = .read →
    bio.InRange G → segment < bio.pages.length → bio.biSector / 8 + segment = lpa →
      ctx.makeRequest G allocated bio = some result → result.failExit = false →
        result.pages[segment]? = some (filledPage 0)

theorem effect_eq_none {disk : Store ℕ PageData} {lpa : ℕ} (absent : disk lpa = none)
    (notWritten : bio.op = .write → lpa ∉ bio.written.map Prod.fst) :
    bio.effect disk lpa = none := by
  unfold Bio.effect
  rcases kind : bio.op with _ | _ | _
  · exact absent
  · simp only
    rw [Store.write_of_not_mem, absent]
    exact fun pair mem same => notWritten kind (List.mem_map.mpr ⟨pair, mem, same⟩)
  · simp [absent]

theorem Discarded.hostDisk_eq_none {lpa : ℕ} (discarded : Discarded bios lpa) :
    hostDisk bios lpa = none := by
  rcases discarded with ⟨before, discard, after, rfl, kind, covered, notWritten⟩
  unfold hostDisk
  rw [List.foldl_append, List.foldl_cons]
  have start : discard.effect (before.foldl (fun disk bio => bio.effect disk) fun _ => none) lpa =
      none := by simp [Bio.effect, kind, covered]
  exact foldl_preserves (fun disk : Store ℕ PageData => disk lpa = none)
    (fun bio mem disk absent => effect_eq_none absent (notWritten bio mem)) start

theorem HostRun.inRange (run : HostRun G garbage wbData bios ctx) :
    ∀ bio ∈ bios, bio.InRange G := by
  induction run with
  | create => simp
  | request _ inRange _ _ ih =>
      intro bio mem
      rcases List.mem_append.mp mem with old | new
      · exact ih bio old
      · rw [List.mem_singleton] at new
        exact new ▸ inRange

/-- The read of one page. -/
def readBio (lpa : ℕ) (page : PageData) : Bio where
  op := .read
  preflush := false
  biSector := 8 * lpa
  biSize := logicalPageSize
  pages := [page]

/-- A read leaves the submitted page of an LPA without content as it is. -/
theorem HostRun.read_of_absent (run : HostRun G garbage wbData bios ctx) {lpa segment : ℕ}
    (absent : ctx.content G lpa = none) (read : bio.op = .read) (inRange : bio.InRange G)
    (isLpa : bio.biSector / 8 + segment = lpa)
    (served : ctx.makeRequest G allocated bio = some result)
    (succeeded : result.failExit = false) : result.pages[segment]? = bio.pages[segment]? := by
  have before := run.deviceRun.inv
  have outcome := RequestOutcome.of_served before.1 before.2 inRange served
  simp [outcome.pages succeeded, Bio.filled, read, List.getElem?_mapIdx, isLpa, absent]

/-- An LPA without content does not read as zeros for every submitted page. -/
theorem HostRun.not_readsZero (run : HostRun G garbage wbData bios ctx) (noErr : ctx.err = false)
    {lpa : ℕ} (absent : ctx.content G lpa = none) (inside : lpa < G.capacityInPages) :
    ¬ReadsZero G ctx lpa := by
  intro readsZero
  -- read the LPA into a page that does not contain zeros
  have inRange : (readBio lpa erasedPage).InRange G := by
    refine ⟨rfl, ?_⟩
    simp only [readBio, Bio.nrSectors, List.length_singleton]
    omega
  have isLpa : (readBio lpa erasedPage).biSector / 8 + 0 = lpa := by
    simp only [readBio]
    omega
  rcases run.serve noErr inRange (by simp [readBio]) with ⟨result, served, succeeded, _⟩
  have zero := readsZero _ true result 0 rfl inRange (by simp [readBio]) isLpa served succeeded
  have same := run.read_of_absent absent rfl inRange isLpa served succeeded
  rw [zero] at same
  have byte := congrArg (fun page : Option PageData => page.map fun data => data 0) same
  simp [readBio, filledPage, erasedPage] at byte

theorem Discarded.noErr (run : HostRun G garbage wbData bios ctx) {lpa : ℕ}
    (discarded : Discarded bios lpa) : ctx.err = false := by
  apply run.noErr
  rcases discarded with ⟨earlier, discard, after, rfl, _⟩
  simp

theorem Discarded.inside (run : HostRun G garbage wbData bios ctx) {lpa : ℕ}
    (discarded : Discarded bios lpa) : lpa < G.capacityInPages := by
  rcases discarded with ⟨earlier, discard, after, rfl, _, covered, _⟩
  have fits := (run.inRange discard (by simp)).fits
  unfold Bio.Covers at covered
  omega

/-- A read of a discarded page leaves the submitted page as it is, so a discarded LPA never
reads as zeros for every submitted page. -/
theorem discarded_not_readsZero (run : HostRun G garbage wbData bios ctx) {lpa : ℕ}
    (discarded : Discarded bios lpa) :
    (∀ (bio : Bio) (allocated : Bool) (result : BioResult) (segment : ℕ), bio.op = .read →
      bio.InRange G → bio.biSector / 8 + segment = lpa →
        ctx.makeRequest G allocated bio = some result → result.failExit = false →
          result.pages[segment]? = bio.pages[segment]?) ∧ ¬ReadsZero G ctx lpa := by
  have absent : ctx.content G lpa = none := by rw [run.content_eq, discarded.hostDisk_eq_none]
  refine ⟨fun bio allocated result segment read inRange isLpa served succeeded => ?_, ?_⟩
  · exact run.read_of_absent absent read inRange isLpa served succeeded
  · exact run.not_readsZero (discarded.noErr run) absent (discarded.inside run)

end Contract

/-! ### Runs of the configured device -/

/-- The write of one page. -/
def writeBio (lpa : ℕ) (page : PageData) : Bio where
  op := .write
  preflush := false
  biSector := 8 * lpa
  biSize := logicalPageSize
  pages := [page]

/-- The discard of one page. -/
def discardBio (lpa : ℕ) : Bio where
  op := .discard
  preflush := false
  biSector := 8 * lpa
  biSize := logicalPageSize
  pages := []

theorem writeBio_inRange (page : PageData) : (writeBio 0 page).InRange .configured := by
  refine ⟨rfl, ?_⟩
  change 8 * 0 + 8 * 1 ≤ _
  decide

/-- On a new device a page finds a free entry, so nothing is flushed. -/
theorem newDevice_noFlush (page : PageData) :
    ¬WriteFails .configured (writeBio 0 page) newDevice := by
  have free : 1 ≤ newDevice.wb.freePgs.length := by
    rw [show newDevice.wb.freePgs = List.range (nrLpInPp * Geometry.configured.numChips) from rfl,
      List.length_range]
    decide
  exact not_writeFails_of_fits newDevice_run.deviceRun rfl (writeBio_inRange page) rfl (Or.inl free)

theorem content_after_first_write : ∃ result,
    newDevice.makeRequest .configured true (writeBio 0 (filledPage 0)) = some result ∧
      result.ctx.content .configured 0 = hostDisk [writeBio 0 (filledPage 0)] 0 := by
  rcases newDevice_run.serve rfl (writeBio_inRange (filledPage 0))
    fun _ => newDevice_noFlush (filledPage 0) with ⟨result, served, _, run⟩
  exact ⟨result, served, (content_is_hostDisk run).1 0⟩

theorem discardRun : ∃ result,
    newDevice.makeRequest .configured true (discardBio 0) = some result ∧
      HostRun .configured .zeroed (fun _ => erasedPage) [discardBio 0] result.ctx := by
  have inRange : (discardBio 0).InRange .configured := by
    refine ⟨rfl, ?_⟩
    change 8 * 0 + logicalPageSize / 512 ≤ _
    decide
  rcases newDevice_run.serve rfl inRange (by simp [discardBio]) with ⟨result, served, _, run⟩
  exact ⟨result, served, run⟩

theorem discarded_discardBio : Discarded [discardBio 0] 0 :=
  ⟨[], discardBio 0, [], rfl, rfl, by decide, by simp⟩

theorem discarded_first_page_not_zero : ∃ result,
    newDevice.makeRequest .configured true (discardBio 0) = some result ∧
      ¬ReadsZero .configured result.ctx 0 := by
  rcases discardRun with ⟨result, served, run⟩
  exact ⟨result, served, (discarded_not_readsZero run discarded_discardBio).2⟩

/-- A discarded LPA of the configured device that does not read as zeros. -/
theorem discarded_page_keeps_old_bytes :
    ¬∀ (bios : List Bio) (ctx : FbContext) (lpa : ℕ),
      HostRun .configured .zeroed (fun _ => erasedPage) bios ctx → Discarded bios lpa →
        ReadsZero .configured ctx lpa := by
  intro claimed
  rcases discardRun with ⟨result, _, run⟩
  have absent : result.ctx.content .configured 0 = none := by
    rw [run.content_eq, discarded_discardBio.hostDisk_eq_none]
  exact run.not_readsZero (discarded_discardBio.noErr run) absent (discarded_discardBio.inside run)
    (claimed _ _ 0 run discarded_discardBio)

end FlashBench
