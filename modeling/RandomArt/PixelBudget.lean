import RandomArt.TraceTree

/-!
# The pixel budget of a job

What the configuration documents about splitting a task, and when the producer splits so.
The rows of a job come from the number of chunks and not from the budget, so a job can
exceed the budget when the width does not divide it.
-/

namespace RandomArt.FlowProducer

open ChunkPlan Envelope RegionMapLookup Failing

variable {Obj Domain ProjectDomain Coord : Type}
variable (producer : Producer Obj Domain ProjectDomain Coord)

/-- A project envelope that was sent by this release, and jobs whose fragment can be read from
their envelopes. -/
structure Ready (codec : EnvelopeCodec Obj) (reads : Envelope Obj → Option CanvasFragment)
    (project : Envelope Obj) : Prop where
  registered : producer.runtime.registry project.workloadId = some codec
  encodes : ∀ body version, ∃ payload, codec.encode (producer.hostValue body) version = .ok payload
  readable : ∀ e request, Carries producer e (.paint request) →
    reads e = some request.canvasFragment
  sent : project.state = .encoded
  release : project.releaseVersion = .ok (some ReleaseVersion.currentRelease)

section Outcome

variable {producer}
variable {codec : EnvelopeCodec Obj} {reads : Envelope Obj → Option CanvasFragment}

/-- The child that answers a sent envelope of this release. -/
def replyOf (e : Envelope Obj) (messageId : String) (now : ℕ) : Envelope Obj where
  trace := ⟨e.trace.correlationId, e.trace.messageId, messageId⟩
  workloadId := e.workloadId
  headers := [⟨HDR_ENGINE_RELEASE, ReleaseVersion.currentRelease.toString⟩]
  content := .awaitingPayload ⟨ReleaseVersion.currentRelease, none⟩
  spanTiming := ⟨now, none, none⟩

private theorem exec_startReplying {e : Envelope Obj} (hsent : e.state = .encoded)
    (hrelease : e.releaseVersion = .ok (some ReleaseVersion.currentRelease)) (messageId : String)
    (now : ℕ) :
    (startReplying messageId now none none none).exec e = (.ok (replyOf e messageId now), e) := by
  have hassert : (assertState [.handling, .encoded]).exec e = (.ok ⟨⟩, e) := by
    rw [assertState, exec_bind, exec_get]
    simp [hsent]
  have htarget : e.replyTarget none none =
      .ok (e.workloadId, ReleaseVersion.currentRelease) := by
    rw [replyTarget, hrelease]
  rw [startReplying, exec_bind, hassert]
  simp only [exec_bind, exec_get, htarget]
  rfl

theorem exec_replyTo {e : Envelope Obj} (hsent : e.state = .encoded)
    (hrelease : e.releaseVersion = .ok (some ReleaseVersion.currentRelease))
    (s : ProducerState Obj) :
    exec (replyTo producer e) s =
      (.ok (replyOf e (producer.ulid s.drawn) (producer.now s.drawn)), s.draw 1) := by
  have hcall : exec (callOn e (startReplying (producer.ulid s.drawn) (producer.now s.drawn) none
      none none)) s = (.ok (replyOf e (producer.ulid s.drawn) (producer.now s.drawn), e), s) := by
    rw [callOn, exec_startReplying hsent hrelease]
    rfl
  rw [replyTo, exec_bind, exec_get]
  simp only [exec_bind, hcall]
  rfl

theorem exec_commit {e : Envelope Obj} {body : Body Domain ProjectDomain} {payload : Obj}
    (hcontent : e.content = .awaitingPayload ⟨ReleaseVersion.currentRelease, none⟩)
    (hcodec : producer.runtime.registry e.workloadId = some codec)
    (hencode : codec.encode (producer.hostValue body) ReleaseVersion.currentRelease = .ok payload)
    (s : ProducerState Obj) :
    exec (commit producer e body) s = (.ok { e with content := .encoded payload false }, s) := by
  have hcommit : (commitBody producer.runtime (producer.hostValue body)).exec e =
      (.ok ⟨⟩, { e with content := .encoded payload false }) := by
    rw [commitBody, exec_bind, exec_get]
    simp only [hcontent, exec_bind, exec_get, exec_getCodec, hcodec, exec_throwing, hencode]
    rfl
  rw [commit, exec_bind, callOn, hcommit]
  rfl

private theorem releaseVersion_replyOf (e : Envelope Obj) (messageId : String) (now : ℕ)
    (content : EnvelopeData Obj) :
    ({ replyOf e messageId now with content } : Envelope Obj).releaseVersion =
      .ok (some ReleaseVersion.currentRelease) := by
  have hparse : ReleaseVersion.parse ReleaseVersion.currentRelease.toString =
      some ReleaseVersion.currentRelease := by decide +kernel
  rw [releaseVersion, replyOf, List.find?_cons_of_pos (by simp)]
  simp only [hparse]

private theorem exec_reply {project : Envelope Obj} (hready : Ready producer codec reads project)
    {e : Envelope Obj} (hworkload : e.workloadId = project.workloadId)
    (hsent : e.state = .encoded)
    (hrelease : e.releaseVersion = .ok (some ReleaseVersion.currentRelease))
    (s : ProducerState Obj) :
    ∃ child, exec (replyTo producer e) s = (.ok child, s.draw 1) ∧
      ∀ body : Body Domain ProjectDomain, ∃ committed,
        (∀ s', exec (commit producer child body) s' = (.ok committed, s')) ∧
        committed.workloadId = project.workloadId ∧ committed.state = .encoded ∧
        committed.releaseVersion = .ok (some ReleaseVersion.currentRelease) ∧
        Carries producer committed body := by
  refine ⟨_, exec_replyTo hsent hrelease s, fun body => ?_⟩
  obtain ⟨payload, hencode⟩ := hready.encodes body ReleaseVersion.currentRelease
  have hregistered : producer.runtime.registry
      (replyOf e (producer.ulid s.drawn) (producer.now s.drawn)).workloadId = some codec := by
    change producer.runtime.registry e.workloadId = some codec
    rw [hworkload, hready.registered]
  exact ⟨_, exec_commit rfl hregistered hencode, hworkload, rfl,
    releaseVersion_replyOf e _ _ _, codec, _, payload, hregistered, hencode, rfl⟩

variable {project : Envelope Obj}

theorem exec_createPaintPartJob (hready : Ready producer codec reads project)
    {gatherEnvelope : Envelope Obj} (hworkload : gatherEnvelope.workloadId = project.workloadId)
    (hsent : gatherEnvelope.state = .encoded)
    (hrelease : gatherEnvelope.releaseVersion = .ok (some ReleaseVersion.currentRelease))
    (genSeed : GenModelSeed) (resolved : ResolvedRegionMap) (canvasFragment : CanvasFragment)
    (s : ProducerState Obj) :
    ∃ job, exec (createPaintPartJob producer genSeed resolved gatherEnvelope canvasFragment) s =
      (.ok job, s.draw 1) ∧ reads job.data = some canvasFragment := by
  obtain ⟨child, hreply, hcommit⟩ := exec_reply hready hworkload hsent hrelease s
  obtain ⟨committed, hexec, -, -, -, hcarries⟩ := hcommit (.paint {
    taskId := gatherEnvelope.trace.messageId
    projectId := some gatherEnvelope.trace.correlationId
    genSeed
    plotDataRef := resolved.cidRef
    canvasFragment })
  refine ⟨{
    name := "chunk:" ++ gatherEnvelope.trace.messageId ++ ":" ++
      toString canvasFragment.fragmentIndex
    queueName := producer.config.scatterPartsQueue
    data := committed }, ?_, hready.readable _ _ hcarries⟩
  rw [createPaintPartJob, exec_bind, hreply]
  simp only [exec_bind, hexec]
  rfl

/-- One paint job for each fragment, in their order. -/
theorem exec_paintPartJobs (hready : Ready producer codec reads project)
    {gatherEnvelope : Envelope Obj} (hworkload : gatherEnvelope.workloadId = project.workloadId)
    (hsent : gatherEnvelope.state = .encoded)
    (hrelease : gatherEnvelope.releaseVersion = .ok (some ReleaseVersion.currentRelease))
    (genSeed : GenModelSeed) (resolved : ResolvedRegionMap) (fragments : List CanvasFragment)
    (s : ProducerState Obj) :
    ∃ jobs s', exec (fragments.mapM (createPaintPartJob producer genSeed resolved gatherEnvelope))
      s = (.ok jobs, s') ∧ jobs.map (fun job => reads job.data) = fragments.map some := by
  induction fragments generalizing s with
  | nil => exact ⟨[], s, rfl, rfl⟩
  | cons fragment fragments ih =>
    obtain ⟨job, hjob, hread⟩ := exec_createPaintPartJob hready hworkload hsent hrelease genSeed
      resolved fragment s
    obtain ⟨jobs, s', hjobs, hreads⟩ := ih (s.draw 1)
    refine ⟨job :: jobs, s', ?_, by rw [List.map_cons, hread, hreads, List.map_cons]⟩
    rw [List.mapM_cons, exec_bind, hjob]
    simp only [exec_bind, hjobs]
    rfl

def TaskJob.fragments (reads : Envelope Obj → Option CanvasFragment) (task : TaskJob Obj) :
    List (Option CanvasFragment) := task.children.map fun job => reads job.data

/-- A task of a sent project is split into the fragments of its chunks, or thrown out when their
number is no array length. -/
theorem exec_createTaskFlowChildren (hready : Ready producer codec reads project)
    (genSeed : GenModelSeed) (resolved : ResolvedRegionMap) (paintingExtension : Domain)
    (s : ProducerState Obj) :
    match arrayLength (chunkCount producer.config.pixelsPerJob
      resolved.geometry.imageSize.pixelWidth resolved.geometry.imageSize.pixelHeight) with
    | none => (exec (createTaskFlowChildren producer genSeed resolved paintingExtension project)
        s).1 = .error .invalidArrayLength
    | some count => ∃ taskId task,
        (exec (createTaskFlowChildren producer genSeed resolved paintingExtension project) s).1 =
          .ok (taskId, task) ∧
        task.fragments reads = (canvasFragments count resolved.geometry.imageSize.pixelHeight
          resolved.geometry.imageSize.pixelSize).map some := by
  obtain ⟨child, hreply, hcommit⟩ := exec_reply hready rfl hready.sent hready.release s
  obtain ⟨committed, hexec, hworkload, hsent, hrelease, -⟩ := hcommit (.gather {
    taskId := child.trace.messageId
    projectId := some child.trace.correlationId
    paintTask := ⟨genSeed, resolved.cidRef, paintingExtension⟩
    paintGeometry := resolved.geometry
    expectedPartCount := (arrayLength (chunkCount producer.config.pixelsPerJob
      resolved.geometry.imageSize.pixelWidth resolved.geometry.imageSize.pixelHeight)).getD 0 })
  rw [createTaskFlowChildren, exec_bind, hreply]
  simp only [exec_bind, hexec]
  cases arrayLength (chunkCount producer.config.pixelsPerJob
    resolved.geometry.imageSize.pixelWidth resolved.geometry.imageSize.pixelHeight) with
  | none => rfl
  | some count =>
    obtain ⟨jobs, s', hjobs, hreads⟩ := exec_paintPartJobs hready hworkload hsent hrelease genSeed
      resolved (canvasFragments count resolved.geometry.imageSize.pixelHeight
        resolved.geometry.imageSize.pixelSize) (s.draw 1)
    simp only [exec_bind, hjobs]
    exact ⟨_, _, rfl, hreads⟩

end Outcome

section Budget
open SpanPartition Binary64

def fragmentPixels (pixelWidth : ℕ) (fragment : CanvasFragment) : ℕ :=
  (fragment.rows.stop - fragment.rows.first) * pixelWidth

/-- What the configuration promises of a task: one fragment of the whole image when tasks are
never split, a rejection when a row does not fit, and else no fragment over the budget. -/
def SplitsAsDocumented (reads : Envelope Obj → Option CanvasFragment)
    (pixelsPerJob pixelWidth pixelHeight : ℕ)
    (outcome : Except (ProducerFailure Obj) (String × TaskJob Obj)) : Prop :=
  (pixelsPerJob = 0 → ∃ taskId task fragment, outcome = .ok (taskId, task) ∧
    task.fragments reads = [some fragment] ∧ fragment.rows = ⟨0, pixelHeight⟩) ∧
  (0 < pixelsPerJob → pixelsPerJob < pixelWidth → ∃ failure, outcome = .error failure) ∧
  (pixelWidth ≤ pixelsPerJob → ∃ taskId task, outcome = .ok (taskId, task) ∧
    ∀ read ∈ task.fragments reads, ∃ fragment, read = some fragment ∧
      fragmentPixels pixelWidth fragment ≤ pixelsPerJob)

/-- The rows of the `ii`-th of equal parts of an image when its ends are rounded to doubles. -/
def roundedRows (rowsPerPart pixelHeight ii : ℕ) : ℤ :=
  min (wholeDouble (wholeDouble (wholeDouble (ii * rowsPerPart) + rowsPerPart) - 1))
    (wholeDouble (pixelHeight - 1)) + 1 - wholeDouble (ii * rowsPerPart)

/-- Whole rows within the budget, once for each part, reach the height of an image whose rows
doubles can number; of a higher one each part is rounded for itself. -/
def PartsFit (count wholeRows pixelHeight : ℕ) : Prop :=
  if pixelHeight ≤ 2 ^ 53 then pixelHeight ≤ count * wholeRows
  else ∀ ii < count, roundedRows (rowsPerChunk count pixelHeight) pixelHeight ii ≤ wholeRows

theorem fragmentPixels_le_iff {count pixelsPerJob pixelWidth pixelHeight ii : ℕ} (pixelSize : ℕ)
    (hw : 0 < pixelWidth) :
    fragmentPixels pixelWidth (canvasFragment count pixelHeight pixelSize ii) ≤ pixelsPerJob ↔
      roundedRows (rowsPerChunk count pixelHeight) pixelHeight ii ≤
        (pixelsPerJob / pixelWidth : ℕ) := by
  rw [fragmentPixels, ← Nat.le_div_iff_mul_le hw, CanvasFragment.rows, canvasFragment, roundedRows]
  have hfirst : 0 ≤ wholeDouble (ii * rowsPerChunk count pixelHeight) :=
    le_wholeDouble (m := 0) (nearest_intCast_of_le (by decide)) (by positivity)
  generalize pixelsPerJob / pixelWidth = wholeRows
  dsimp only
  omega

/-- The fragments of an image of at most `2 ^ 53` rows have at most the rows of a chunk. -/
theorem fragmentPixels_le_of_le {count pixelHeight : ℕ} (pixelWidth pixelSize ii : ℕ)
    (hh : pixelHeight ≤ 2 ^ 53) :
    fragmentPixels pixelWidth (canvasFragment count pixelHeight pixelSize ii) ≤
      rowsPerChunk count pixelHeight * pixelWidth := by
  refine Nat.mul_le_mul_right pixelWidth ?_
  rcases lt_or_ge (ii * rowsPerChunk count pixelHeight) pixelHeight with hstart | hstart
  · rw [rows_canvasFragment pixelSize hh hstart]
    simp only [cut]
    omega
  · have hempty := rows_canvasFragment_of_le pixelSize hh hstart
    omega

/-- All fragments keep to the budget exactly when the parts of the image fit. -/
theorem fragments_within_iff {count pixelsPerJob pixelWidth pixelHeight : ℕ} (pixelSize : ℕ)
    (hc : 0 < count) (hcount : count < 2 ^ 32) (hw : 0 < pixelWidth) (hh : 0 < pixelHeight) :
    (∀ fragment ∈ canvasFragments count pixelHeight pixelSize,
      fragmentPixels pixelWidth fragment ≤ pixelsPerJob) ↔
      PartsFit count (pixelsPerJob / pixelWidth) pixelHeight := by
  rw [PartsFit]
  split_ifs with hle
  · have hrows : rowsPerChunk count pixelHeight = pixelHeight ⌈/⌉ count :=
      rowsPerChunk_of_le hc hcount hle
    have hmost : rowsPerChunk count pixelHeight ≤ pixelHeight := by
      rw [hrows, ceilDiv_le_iff_le_mul hc]
      exact Nat.le_mul_of_pos_left pixelHeight hc
    rw [← ceilDiv_le_iff_le_mul hc, ← hrows, Nat.le_div_iff_mul_le hw]
    constructor
    · intro h
      have hfirst := h _ (List.mem_map_of_mem (List.mem_range.mpr hc))
      rw [fragmentPixels, rows_canvasFragment pixelSize hle (by omega)] at hfirst
      simpa [cut, Nat.min_eq_left hmost] using hfirst
    · intro h fragment hfragment
      obtain ⟨ii, -, rfl⟩ := List.mem_map.mp hfragment
      exact (fragmentPixels_le_of_le pixelWidth pixelSize ii hle).trans h
  · simp only [canvasFragments, List.mem_map, List.mem_range, forall_exists_index, and_imp,
      forall_apply_eq_imp_iff₂, fragmentPixels_le_iff pixelSize hw]

/-- What the budget, the width and the height of an image must be for the task to be split as
documented. -/
def FitsBudget (pixelsPerJob pixelWidth pixelHeight : ℕ) : Prop :=
  (0 < pixelsPerJob ∧ pixelsPerJob < pixelWidth ∧
    (Overflows (pixelWidth * pixelHeight) ∨
      2 ^ 32 ≤ jobCount pixelsPerJob pixelWidth pixelHeight)) ∨
  (pixelWidth ≤ pixelsPerJob ∧ ¬Overflows (pixelWidth * pixelHeight) ∧
    jobCount pixelsPerJob pixelWidth pixelHeight < 2 ^ 32 ∧
    PartsFit (jobCount pixelsPerJob pixelWidth pixelHeight) (pixelsPerJob / pixelWidth) pixelHeight)

private theorem splits_iff_of_outcome {reads : Envelope Obj → Option CanvasFragment}
    {pixelsPerJob pixelWidth pixelHeight : ℕ} (pixelSize : ℕ) (hw : 1 ≤ pixelWidth)
    (hh : 1 ≤ pixelHeight) {outcome : Except (ProducerFailure Obj) (String × TaskJob Obj)}
    (houtcome : match arrayLength (chunkCount pixelsPerJob pixelWidth pixelHeight) with
      | none => outcome = .error .invalidArrayLength
      | some count => ∃ taskId task, outcome = .ok (taskId, task) ∧
        task.fragments reads = (canvasFragments count pixelHeight pixelSize).map some) :
    SplitsAsDocumented reads pixelsPerJob pixelWidth pixelHeight outcome ↔
      FitsBudget pixelsPerJob pixelWidth pixelHeight := by
  rw [FitsBudget]
  rcases Nat.eq_zero_or_pos pixelsPerJob with rfl | hjob
  · refine iff_of_false ?_ (by omega)
    rintro ⟨hwhole, -⟩
    obtain ⟨taskId, task, fragment, hok, -⟩ := hwhole rfl
    rw [arrayLength_chunkCount_zero hw hh] at houtcome
    rw [show outcome = .error .invalidArrayLength from houtcome] at hok
    cases hok
  · rw [arrayLength_chunkCount hjob] at houtcome
    by_cases hlength : ¬Overflows (pixelWidth * pixelHeight) ∧
        jobCount pixelsPerJob pixelWidth pixelHeight < 2 ^ 32
    · rw [if_pos hlength] at houtcome
      obtain ⟨taskId, task, rfl, hfragments⟩ := houtcome
      rw [← fragments_within_iff pixelSize jobCount_pos hlength.2 hw hh]
      constructor
      · rintro ⟨-, hreject, hbudget⟩
        have hle : pixelWidth ≤ pixelsPerJob := by
          by_contra hnot
          obtain ⟨failure, hfailure⟩ := hreject hjob (by omega)
          cases hfailure
        refine Or.inr ⟨hle, hlength.1, hlength.2, fun fragment hfragment => ?_⟩
        obtain ⟨taskId', task', hok, hall⟩ := hbudget hle
        cases hok
        rw [hfragments] at hall
        obtain ⟨read, hread, hpixels⟩ := hall (some fragment) (List.mem_map_of_mem hfragment)
        cases hread
        exact hpixels
      · rintro (⟨-, -, hover | hlong⟩ | ⟨hle, -, -, hall⟩)
        · exact absurd hover hlength.1
        · exact absurd hlength.2 (not_lt.mpr hlong)
        · refine ⟨fun h => absurd h (by omega), fun _ h => absurd h (by omega),
            fun _ => ⟨taskId, task, rfl, ?_⟩⟩
          rw [hfragments]
          intro read hread
          obtain ⟨fragment, hfragment, rfl⟩ := List.mem_map.mp hread
          exact ⟨fragment, rfl, hall fragment hfragment⟩
    · -- No array has room for the jobs, so nothing is split.
      rw [if_neg hlength] at houtcome
      rw [show outcome = .error .invalidArrayLength from houtcome]
      rw [not_and_or, not_not, not_lt] at hlength
      constructor
      · rintro ⟨-, -, hbudget⟩
        refine Or.inl ⟨hjob, ?_, hlength⟩
        by_contra hle
        obtain ⟨taskId, task, hok, -⟩ := hbudget (by omega)
        cases hok
      · rintro (⟨-, hsmall, -⟩ | ⟨-, hfinite, hshort, -⟩)
        · exact ⟨fun h => absurd h (by omega), fun _ _ => ⟨_, rfl⟩, fun h => absurd h (by omega)⟩
        · exact hlength.elim (absurd · hfinite) fun hlong => absurd hshort (not_lt.mpr hlong)

variable {producer}

/-- A task is split as documented exactly when a row fits into a job, an array can hold as many
jobs as the pixels ask for, and the parts of the image fit into them; or when no row fits and the
jobs are too many for an array. -/
theorem splitsAsDocumented_iff {codec : EnvelopeCodec Obj}
    {reads : Envelope Obj → Option CanvasFragment} {project : Envelope Obj}
    (hready : Ready producer codec reads project) (genSeed : GenModelSeed)
    (resolved : ResolvedRegionMap) (paintingExtension : Domain) (s : ProducerState Obj)
    (hw : 1 ≤ resolved.geometry.imageSize.pixelWidth)
    (hh : 1 ≤ resolved.geometry.imageSize.pixelHeight) :
    SplitsAsDocumented reads producer.config.pixelsPerJob
      resolved.geometry.imageSize.pixelWidth resolved.geometry.imageSize.pixelHeight
      (exec (createTaskFlowChildren producer genSeed resolved paintingExtension project) s).1 ↔
    FitsBudget producer.config.pixelsPerJob resolved.geometry.imageSize.pixelWidth
      resolved.geometry.imageSize.pixelHeight :=
  splits_iff_of_outcome _ hw hh
    (exec_createTaskFlowChildren hready genSeed resolved paintingExtension s)

/-- A producer whose codec passes bodies through. -/
def bodyProducer (pixelsPerJob : ℕ) : Producer (Body Unit Unit) Unit Unit ℕ where
  config := ⟨pixelsPerJob, "scatter", "gather", "tasks"⟩
  regionMapRepo := fun _ => .error "not found"
  runtime := {
    registry := fun _ => some ⟨fun body _ => .ok body, fun body _ => .ok body⟩
    field := fun _ _ => .ok none
    stringify := fun _ => .ok ""
    errorValue := fun _ => .project ⟨"", 0, ()⟩
    asError := .ok }
  hostValue := id
  ulid := unaryUlid
  now := id
  accepts := fun _ => .ok ()

def bodyFragment (e : Envelope (Body Unit Unit)) : Option CanvasFragment :=
  match e.content with
  | .encoded (.paint request) _ => some request.canvasFragment
  | _ => none

def bodyProject : Envelope (Body Unit Unit) where
  trace := ⟨"u", "u", "u"⟩
  workloadId := WORKLOAD_RANDOM_ART
  headers := [⟨HDR_ENGINE_RELEASE, ReleaseVersion.currentRelease.toString⟩]
  content := .encoded (.project ⟨"u", 1, ()⟩) false
  spanTiming := ⟨0, none, none⟩

theorem ready_bodyProject (pixelsPerJob : ℕ) :
    Ready (bodyProducer pixelsPerJob) ⟨fun body _ => .ok body, fun body _ => .ok body⟩
      bodyFragment bodyProject where
  registered := rfl
  encodes := fun body _ => ⟨body, rfl⟩
  readable := by
    rintro e request ⟨codec, version, payload, hcodec, hencode, hcontent⟩
    cases hcodec
    cases hencode
    rw [bodyFragment, hcontent]
    rfl
  sent := rfl
  release := releaseVersion_replyOf bodyProject "" 0 bodyProject.content

def resolvedOf (pixelWidth pixelHeight : ℕ) : ResolvedRegionMap where
  cidRef := ⟨none, "cid", true⟩
  geometry := ⟨⟨1, 0, 0, 1⟩, ⟨pixelWidth, pixelHeight, 1⟩⟩

/-- How a task of the given image is split. -/
def splitOf (pixelsPerJob pixelWidth pixelHeight : ℕ) :
    Except (ProducerFailure (Body Unit Unit)) (String × TaskJob (Body Unit Unit)) :=
  (exec (createTaskFlowChildren (bodyProducer pixelsPerJob) ⟨.text "a", .text "b"⟩
    (resolvedOf pixelWidth pixelHeight) () bodyProject) ⟨0, []⟩).1

theorem splitsAsDocumented_iff_six : SplitsAsDocumented bodyFragment 6 3 4 (splitOf 6 3 4) :=
  (splitsAsDocumented_iff (ready_bodyProject 6) ⟨.text "a", .text "b"⟩ (resolvedOf 3 4) () ⟨0, []⟩
    (by decide) (by decide)).mpr (by
      rw [FitsBudget, jobCount_of_le (by decide) (by decide), PartsFit]
      decide +kernel)

/-- An image of three by five pixels gets jobs of nine pixels under a budget of eight. Without a
budget it is thrown out, and under a budget of two it is not rejected. -/
theorem nine_pixels_under_eight :
    ¬ SplitsAsDocumented bodyFragment 8 3 5 (splitOf 8 3 5) ∧
    ¬ SplitsAsDocumented bodyFragment 0 3 5 (splitOf 0 3 5) ∧
    ¬ SplitsAsDocumented bodyFragment 2 3 5 (splitOf 2 3 5) := by
  have hsplit : ∀ pixelsPerJob, SplitsAsDocumented bodyFragment pixelsPerJob 3 5
      (splitOf pixelsPerJob 3 5) ↔ FitsBudget pixelsPerJob 3 5 := by
    intro pixelsPerJob
    exact splits_iff_of_outcome 1 (by decide) (by decide)
      (exec_createTaskFlowChildren (ready_bodyProject pixelsPerJob) ⟨.text "a", .text "b"⟩
        (resolvedOf 3 5) () ⟨0, []⟩)
  rw [hsplit, hsplit, hsplit]
  refine ⟨?_, by simp [FitsBudget], ?_⟩
  · rw [FitsBudget, jobCount_of_le (by decide) (by decide), PartsFit]
    decide +kernel
  · rw [FitsBudget, jobCount_of_le (by decide) (by decide), PartsFit]
    decide +kernel

end Budget

end RandomArt.FlowProducer
