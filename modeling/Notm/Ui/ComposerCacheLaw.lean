import Notm.Ui.ComposerCacheSteps

/-!
# What the composer's attachment cache answers

Whatever the order of the calls and of the worker's steps, one request is prepared at a time, each
is run and answered at most once, a request is passed over only when a later call supersedes it,
and the newest is answered.

* `Accounted` — each request is in one place, each call is counted.
* `Traced` — each job was submitted, and the slot holds the last one.
* `Flagged`, `Prepares` — whose flag is set, and that one job is prepared at a time.
* `length_add_work_le` — without further calls the steps of the worker end.
* `cache_requests_served` — what follows for the requests, along every run.
-/

namespace Notm.Ui

open Rust Transition Calls

/-! ## Jobs, and the steps that they cause -/

namespace ComposerAttachmentCacheJob

/-- The call that made the job. -/
def record (job : ComposerAttachmentCacheJob) : Record := .submit job.id job.request.generation

/-- The steps of a job that is run, up to its answer. -/
def work (job : ComposerAttachmentCacheJob) : Nat := 8 * job.request.sources.length + 6

end ComposerAttachmentCacheJob

namespace CacheCall

/-- The job of a call, until it is in the slot. -/
def job : CacheCall → Option ComposerAttachmentCacheJob
  | submitting job | activated job => some job
  | placed | cancelling => none

/-- A call that has not touched the slot. -/
def record : CacheCall → Option Record
  | submitting job | activated job => some job.record
  | placed => none
  | cancelling => some .cancel

/-- How many steps the call causes. -/
def work : CacheCall → Nat
  | submitting job => job.work + 5
  | activated job => job.work + 4
  | placed => 3
  | cancelling => 1

end CacheCall

namespace RunStage

/-- How many steps are left of a source, and of the end of the run. -/
def work : RunStage → Nat
  | failed _ => 1
  | next => 2
  | start | written _ => 3
  | writing _ _ _ => 4
  | sourceDirectory _ _ _ => 5
  | requestDirectory _ _ => 6
  | loaded _ _ => 7
  | loading _ => 8
  | existing _ => 9

end RunStage

namespace CacheRun

def work (run : CacheRun) (stage : RunStage) : Nat := 8 * run.remaining.length + stage.work

variable {root : CachePath} {files : List CacheFile} {set : Bool} {run : CacheRun}
  {stage : RunStage} {event : RunEvent} {outcome : RunOutcome}

/-- The run goes on with its job, and has less to do. -/
theorem Moves.going (h : run.Moves root files set stage event outcome) {run' : CacheRun}
    {stage' : RunStage} (hgoing : outcome.progress = .going run' stage') :
    run'.job = run.job ∧ run'.work stage' < run.work stage := by
  cases h with
  | refused _ | startCancelled _ | finished _ _ | nothingToClean _ | cleaned _ | cleanupFailed _ =>
    exact absurd hgoing (by simp)
  | source hremaining _ =>
    obtain ⟨rfl, rfl⟩ := RunProgress.going.inj hgoing
    refine ⟨rfl, ?_⟩
    simp only [work, hremaining, List.length_cons, RunStage.work]
    omega
  | cancelled hstage _ =>
    obtain ⟨rfl, rfl⟩ := RunProgress.going.inj hgoing
    refine ⟨rfl, Nat.add_lt_add_left ?_ _⟩
    cases hstage with
    | next | loaded _ _ | written _ => simp [RunStage.work]
  | started _ _ | reused _ | absent _ | loadFailed _ | overLimit _ | loaded _ _
  | needsDirectory _ _ | hasDirectory _ _ | requestDirectoryFailed _ | requestDirectoryLeft _
  | requestDirectory _ | sourceDirectoryFailed _ | sourceDirectoryLeft _ | sourceDirectory _
  | wrote | writeFailed | pushed _ =>
    obtain ⟨rfl, rfl⟩ := RunProgress.going.inj hgoing
    exact ⟨rfl, Nat.add_lt_add_left (by simp [RunStage.work]) _⟩

theorem work_pos (run : CacheRun) (stage : RunStage) : 0 < run.work stage := by
  cases stage with
  | start | next | existing _ | loading _ | loaded _ _ | requestDirectory _ _
  | sourceDirectory _ _ _ | writing _ _ _ | written _ | failed _ => exact Nat.succ_pos _

/-- A lease is the answer of a run whose flag is not set at its last look. -/
theorem Moves.unset_of_lease (h : run.Moves root files set stage event outcome)
    {lease : ComposerAttachmentCacheLease} (hdone : outcome.progress = .done (.ok lease)) :
    set = false := by
  cases h with
  | finished _ hset => exact hset
  | refused _ | startCancelled _ | started _ _ | cancelled _ _ | source _ _ | reused _ | absent _
  | loadFailed _ | overLimit _ | loaded _ _ | needsDirectory _ _ | hasDirectory _ _
  | requestDirectoryFailed _ | requestDirectoryLeft _ | requestDirectory _
  | sourceDirectoryFailed _ | sourceDirectoryLeft _ | sourceDirectory _ | wrote | writeFailed
  | pushed _ | nothingToClean _ | cleaned _ | cleanupFailed _ => exact absurd hdone (by simp)

/-- Whatever the files are, a run has a next step. -/
theorem exists_step (root : CachePath) (files : List CacheFile) (set : Bool) (run : CacheRun)
    (stage : RunStage) : ∃ event outcome, run.step root files set stage event = some outcome := by
  -- Each stage has one event that it waits for; what the file system would answer is chosen here.
  cases stage with
  | start =>
    refine ⟨.look, ?_⟩
    simp only [step, look]
    split
    · exact ⟨_, rfl⟩
    · split
      · exact ⟨_, rfl⟩
      · exact ⟨_, rfl⟩
  | next =>
    refine ⟨.look, ?_⟩
    simp only [step, look]
    split
    · exact ⟨_, rfl⟩
    · split
      · exact ⟨_, rfl⟩
      · exact ⟨_, rfl⟩
  | existing source =>
    refine ⟨.testSource, ?_⟩
    simp only [step]
    split
    · exact ⟨_, rfl⟩
    · exact ⟨_, rfl⟩
  | loading source => exact ⟨.load (.error []), _, rfl⟩
  | loaded source bytes =>
    refine ⟨.look, ?_⟩
    simp only [step, look]
    split
    · exact ⟨_, rfl⟩
    · split
      · exact ⟨_, rfl⟩
      · exact ⟨_, rfl⟩
  | requestDirectory source bytes => exact ⟨.makeRequestDirectory [] (.createFailed []), _, rfl⟩
  | sourceDirectory source bytes directory =>
    exact ⟨.makeSourceDirectory (.createFailed []), _, rfl⟩
  | writing directory filename bytes => exact ⟨.write .written, _, rfl⟩
  | written path =>
    refine ⟨.look, ?_⟩
    simp only [step, look]
    split
    · exact ⟨_, rfl⟩
    · exact ⟨_, rfl⟩
  | failed error => exact ⟨.cleanup .removed, _, rfl⟩

end CacheRun

namespace CacheWorker

/-- The job that the worker holds. -/
def job : CacheWorker → Option ComposerAttachmentCacheJob
  | receiving | looping => none
  | running run _ => some run.job
  | prepared job _ | cleared job _ => some job

/-- The job that the worker prepares. -/
def prepares : CacheWorker → Option ComposerAttachmentCacheJob
  | running run _ => some run.job
  | receiving | looping | prepared _ _ | cleared _ _ => none

/-- How many steps the worker has before it receives again, if the slot stays empty. -/
def work : CacheWorker → Nat
  | receiving => 0
  | looping => 1
  | cleared _ _ => 2
  | prepared _ _ => 3
  | running run stage => 3 + run.work stage

end CacheWorker

namespace ComposerCache

variable {root : CachePath} {s s' : ComposerCache} {event : CacheEvent}

/-- A step of the run leaves the worker with its job, or with its answer. -/
theorem withProgress_cases {run : CacheRun} {stage : RunStage} {runEvent : RunEvent}
    {outcome : RunOutcome} {files : List CacheFile} {set : Bool}
    (h : run.Moves root files set stage runEvent outcome) :
    (∃ run' stage', run'.job = run.job ∧ run'.work stage' < run.work stage ∧
        outcome.progress = .going run' stage') ∨
      ∃ result, outcome.progress = .done result := by
  cases hprogress : outcome.progress with
  | going run' stage' =>
    obtain ⟨hjob, hwork⟩ := h.going hprogress
    exact Or.inl ⟨run', stage', hjob, hwork, rfl⟩
  | done result => exact Or.inr ⟨result, rfl⟩

/-! ## Where a request is -/

/-- The number of a job, if there is one. -/
def jobId (job : Option ComposerAttachmentCacheJob) : List Nat :=
  (job.map ComposerAttachmentCacheJob.id).toList

/-- Where the requests are. -/
def places (s : ComposerCache) : List Nat :=
  jobId (s.call.bind CacheCall.job) ++ jobId s.pending ++ jobId s.worker.job ++
    s.responses.map Prod.fst ++ s.dropped

/-- Each request is in one place, each call made one request, and what was run is held by the
worker or answered. -/
structure Accounted (s : ComposerCache) : Prop where
  places : ∀ id, s.places.count id = (List.range s.nextId).count id
  submitted : s.history.filterMap Record.submitted = List.range s.nextId
  runs : ∀ id, s.runs.count id =
    (jobId s.worker.job).count id + (s.responses.map Prod.fst).count id

theorem accounted_initial (files : List (CachePath × Option Bytes)) :
    (initial files).Accounted where
  places := fun _ => rfl
  submitted := rfl
  runs := fun _ => rfl

theorem count_places (s : ComposerCache) (id : Nat) :
    s.places.count id =
      (jobId (s.call.bind CacheCall.job)).count id + (jobId s.pending).count id +
        (jobId s.worker.job).count id + (s.responses.map Prod.fst).count id +
        s.dropped.count id := by
  simp only [places, List.count_append]

namespace Accounted

/-- What leaves the jobs where they are. -/
theorem of_eq (h : s.Accounted) (hcall : s'.call.bind CacheCall.job = s.call.bind CacheCall.job)
    (hpending : s'.pending = s.pending) (hworker : s'.worker.job = s.worker.job)
    (hresponses : s'.responses = s.responses) (hdropped : s'.dropped = s.dropped)
    (hnext : s'.nextId = s.nextId) (hruns : s'.runs = s.runs)
    (hhistory : s'.history.filterMap Record.submitted = s.history.filterMap Record.submitted) :
    s'.Accounted := by
  refine ⟨fun id => ?_, ?_, fun id => ?_⟩
  · rw [count_places, hcall, hpending, hworker, hresponses, hdropped, hnext, ← count_places]
    exact h.places id
  · rw [hhistory, hnext]
    exact h.submitted
  · rw [hruns, hworker, hresponses]
    exact h.runs id

theorem nodup_places (h : s.Accounted) : s.places.Nodup := by
  refine List.nodup_iff_count_le_one.2 fun id => ?_
  rw [h.places]
  exact List.nodup_iff_count_le_one.1 List.nodup_range id

theorem nodup_submitted (h : s.Accounted) : (s.history.filterMap Record.submitted).Nodup := by
  rw [h.submitted]
  exact List.nodup_range

/-- The worker's job is neither the call's nor the one in the slot. -/
theorem ne_worker (h : s.Accounted) {job job' : ComposerAttachmentCacheJob}
    (hjob : s.call.bind CacheCall.job = some job ∨ s.pending = some job)
    (hworker : s.worker.job = some job') : job.id ≠ job'.id := by
  intro hid
  -- its number would stand at two places
  have htwice := List.nodup_iff_count_le_one.1 h.nodup_places job'.id
  rw [count_places, hworker] at htwice
  rcases hjob with hcall | hslot
  · rw [hcall] at htwice
    simp [jobId, hid] at htwice
    omega
  · rw [hslot] at htwice
    simp [jobId, hid] at htwice
    omega

end Accounted

theorem Moves.accounted (h : s.Moves root event s') (hs : s.Accounted) : s'.Accounted := by
  have hplaces := hs.places
  have hsubmitted := hs.submitted
  have hruns := hs.runs
  cases h with
  | submit request hcall =>
    refine ⟨fun id => ?_, ?_, hruns⟩
    · -- the new number is in the call, and nowhere else
      have hid := hplaces id
      rw [count_places, hcall] at hid
      rw [count_places]
      show [s.nextId].count id + (jobId s.pending).count id + (jobId s.worker.job).count id +
        (s.responses.map Prod.fst).count id + s.dropped.count id =
        (List.range (s.nextId + 1)).count id
      have hnone : (jobId ((none : Option CacheCall).bind CacheCall.job)).count id = 0 := rfl
      rw [List.range_succ, List.count_append]
      omega
    · show (s.history ++ [Record.submit s.nextId request.generation]).filterMap
        Record.submitted = List.range (s.nextId + 1)
      rw [List.filterMap_append, hsubmitted, List.range_succ]
      rfl
  | activate hcall =>
    exact hs.of_eq (by rw [hcall]; rfl) rfl rfl rfl rfl rfl rfl rfl
  | @place job hcall =>
    refine ⟨fun id => ?_, hsubmitted, hruns⟩
    have hid := hplaces id
    rw [count_places, hcall] at hid
    rw [count_places]
    simp [replacePending, jobId, CacheCall.job, List.count_append] at hid ⊢
    omega
  | wake hcall => exact hs.of_eq (by rw [hcall]; rfl) rfl rfl rfl rfl rfl rfl rfl
  | cancel hcall =>
    refine hs.of_eq (by rw [hcall]; rfl) rfl rfl rfl rfl rfl rfl ?_
    show (s.history ++ [Record.cancel]).filterMap Record.submitted = _
    rw [List.filterMap_append]
    exact List.append_nil _
  | cancelPending hcall =>
    refine ⟨fun id => ?_, hsubmitted, hruns⟩
    have hid := hplaces id
    rw [count_places, hcall] at hid
    rw [count_places]
    simp [replacePending, jobId, CacheCall.job, List.count_append] at hid ⊢
    omega
  | receive hworker hwake => exact hs.of_eq rfl rfl (by rw [hworker]; rfl) rfl rfl rfl rfl rfl
  | @take job hworker hpending =>
    refine ⟨fun id => ?_, hsubmitted, fun id => ?_⟩
    · have hid := hplaces id
      rw [count_places, hworker, hpending] at hid
      rw [count_places]
      simp [beginPreparation, jobId, CacheWorker.job, CacheRun.begin] at hid ⊢
      omega
    · have hid := hruns id
      rw [hworker] at hid
      simp [beginPreparation, jobId, CacheWorker.job, CacheRun.begin, List.count_append] at hid ⊢
      omega
  | takeNone hworker hpending => exact hs.of_eq rfl rfl (by rw [hworker]; rfl) rfl rfl rfl rfl rfl
  | @run run stage runEvent outcome hworker hrun =>
    obtain ⟨run', stage', hjob, -, hprogress⟩ | ⟨result, hprogress⟩ := withProgress_cases hrun
    · rw [hprogress]
      refine hs.of_eq rfl rfl ?_ rfl rfl rfl rfl rfl
      rw [hworker]
      exact congrArg some hjob
    · rw [hprogress]
      exact hs.of_eq rfl rfl (by rw [hworker]; rfl) rfl rfl rfl rfl rfl
  | clear hworker => exact hs.of_eq rfl rfl (by rw [hworker]; rfl) rfl rfl rfl rfl rfl
  | @respond job result hworker =>
    refine ⟨fun id => ?_, hsubmitted, fun id => ?_⟩
    · have hid := hplaces id
      rw [count_places, hworker] at hid
      rw [count_places]
      simp [ComposerCache.respond, CacheWorker.job, jobId, List.count_append] at hid ⊢
      omega
    · have hid := hruns id
      rw [hworker] at hid
      simp [ComposerCache.respond, CacheWorker.job, jobId, List.count_append] at hid ⊢
      omega
  | @dropLease id lease removal hlease =>
    unfold ComposerCache.dropLease
    split
    · exact hs.of_eq rfl rfl rfl rfl rfl rfl rfl rfl
    · exact hs.of_eq rfl rfl rfl rfl rfl rfl rfl rfl
  | commitLease hlease => exact hs.of_eq rfl rfl rfl rfl rfl rfl rfl rfl
  | others hfiles => exact hs.of_eq rfl rfl rfl rfl rfl rfl rfl rfl

/-! ## What the calls have said about a request -/

/-- Each job was submitted, the slot holds that of the newest call that has touched it, the active
flag is that of the newest call, and a flag that is set, or a channel that is closed, belongs to a
request that a later call supersedes. -/
structure Traced (s : ComposerCache) : Prop where
  consumed : ∃ consumed, s.history = consumed ++ (s.call.bind CacheCall.record).toList ∧
    (∀ job ∈ s.pending, consumed.getLast? = some job.record) ∧
    ∀ job ∈ s.worker.job, job.record ∈ consumed
  active : ∀ a ∈ s.active, s.history.getLast? = some (.submit a.2 a.1)
  cancelled : ∀ id ∈ s.cancelled, Record.Superseded s.history id
  dropped : ∀ id ∈ s.dropped, Record.Superseded s.history id
  responses : ∀ p ∈ s.responses, .submit p.1 p.2.generation ∈ s.history

theorem traced_initial (files : List (CachePath × Option Bytes)) : (initial files).Traced where
  consumed := ⟨[], rfl, fun _ hjob => absurd hjob (by simp [initial]),
    fun _ hjob => absurd hjob (by simp [initial, CacheWorker.job])⟩
  active := fun _ ha => absurd ha (by simp [initial])
  cancelled := fun _ hid => absurd hid List.not_mem_nil
  dropped := fun _ hid => absurd hid List.not_mem_nil
  responses := fun _ hp => absurd hp List.not_mem_nil

namespace Traced

/-- A step that makes no call, and leaves the slot alone. -/
theorem of_eq (h : s.Traced) (hhistory : s'.history = s.history)
    (hcall : s'.call.bind CacheCall.record = s.call.bind CacheCall.record)
    (hpending : ∀ job ∈ s'.pending, job ∈ s.pending)
    (hworker : ∀ job ∈ s'.worker.job, job ∈ s.worker.job ∨ job ∈ s.pending)
    (hactive : ∀ a ∈ s'.active, a ∈ s.active) (hcancelled : s'.cancelled = s.cancelled)
    (hdropped : s'.dropped = s.dropped) (hresponses : s'.responses = s.responses) :
    s'.Traced := by
  obtain ⟨consumed, hconsumed, hslot, hjobs⟩ := h.consumed
  refine ⟨⟨consumed, ?_, ?_, ?_⟩, ?_, ?_, ?_, ?_⟩
  · rw [hhistory, hcall]
    exact hconsumed
  · exact fun job hjob => hslot job (hpending job hjob)
  · intro job hjob
    rcases hworker job hjob with hjob | hjob
    · exact hjobs job hjob
    · exact List.mem_of_getLast? (hslot job hjob)
  · rw [hhistory]
    exact fun a ha => h.active a (hactive a ha)
  · rw [hcancelled, hhistory]
    exact h.cancelled
  · rw [hdropped, hhistory]
    exact h.dropped
  · rw [hresponses, hhistory]
    exact h.responses

theorem held (h : s.Traced) {job : ComposerAttachmentCacheJob} (hjob : job ∈ s.worker.job) :
    job.record ∈ s.history := by
  obtain ⟨consumed, hhistory, -, hworker⟩ := h.consumed
  rw [hhistory]
  exact List.mem_append_left _ (hworker job hjob)

/-- The call under way was made last. -/
theorem last_of_call (h : s.Traced) {call : CacheCall} {record : Record}
    (hcall : s.call = some call) (hrecord : call.record = some record) :
    s.history.getLast? = some record := by
  obtain ⟨consumed, hhistory, -, -⟩ := h.consumed
  rw [hhistory, hcall, Option.bind_some, hrecord]
  exact List.getLast?_concat

/-- The job in the slot is superseded by a call that is about to touch it. -/
theorem superseded_of_pending (h : s.Traced) {call : CacheCall} {record : Record}
    (hcall : s.call = some call) (hrecord : call.record = some record)
    {job : ComposerAttachmentCacheJob} (hjob : job ∈ s.pending) :
    Record.Superseded s.history job.id := by
  obtain ⟨consumed, hhistory, hslot, -⟩ := h.consumed
  rw [hhistory, hcall, Option.bind_some, hrecord]
  exact Record.superseded_of_mem (List.mem_of_getLast? (hslot job hjob)) record

/-- A call is made: the active flag is set. -/
theorem call (h : s.Traced) (hcall : s.call = none) (call : CacheCall) {record : Record}
    (hrecord : call.record = some record) {nextId : Nat} :
    ({ s.cancelActive with
        call := some call, nextId, history := s.history ++ [record] } : ComposerCache).Traced := by
  obtain ⟨consumed, hhistory, hslot, hworker⟩ := h.consumed
  rw [hcall] at hhistory
  have hall : s.history = consumed := hhistory.trans (List.append_nil _)
  refine ⟨⟨consumed, ?_, hslot, hworker⟩, ?_, ?_, ?_, ?_⟩
  · show s.history ++ [record] = consumed ++ (call.record).toList
    rw [hrecord, hall]
    rfl
  · exact fun a ha => absurd ha (by simp [cancelActive])
  · intro id hid
    rcases List.mem_append.1 hid with hid | hid
    · exact (h.cancelled id hid).append [record]
    · obtain ⟨a, ha, rfl⟩ := Option.map_eq_some_iff.1 (Option.mem_toList.1 hid)
      exact Record.superseded_of_mem (List.mem_of_getLast? (h.active a ha)) record
  · exact fun id hid => (h.dropped id hid).append [record]
  · exact fun p hp => List.mem_append_left _ (h.responses p hp)

/-- The call touches the slot. -/
theorem replacePending (h : s.Traced) {call : CacheCall} {record : Record}
    (hcall : s.call = some call) (hrecord : call.record = some record)
    {job : Option ComposerAttachmentCacheJob} (hjob : ∀ job' ∈ job, record = job'.record)
    {after : Option CacheCall} (hafter : after.bind CacheCall.record = none) :
    ({ s.replacePending job with call := after } : ComposerCache).Traced := by
  obtain ⟨consumed, hhistory, hslot, hworker⟩ := h.consumed
  rw [hcall, Option.bind_some, hrecord] at hhistory
  refine ⟨⟨consumed ++ [record], ?_, ?_, ?_⟩, h.active, h.cancelled, ?_, h.responses⟩
  · show s.history = consumed ++ [record] ++ (after.bind CacheCall.record).toList
    rw [hhistory, hafter]
    exact (List.append_nil _).symm
  · intro job' hjob'
    rw [List.getLast?_concat, hjob job' hjob']
  · exact fun job' hjob' => List.mem_append_left _ (hworker job' hjob')
  · intro id hid
    rcases List.mem_append.1 hid with hid | hid
    · exact h.dropped id hid
    · obtain ⟨old, hold, rfl⟩ := Option.map_eq_some_iff.1 (Option.mem_toList.1 hid)
      exact h.superseded_of_pending hcall hrecord hold

end Traced

theorem Moves.traced (h : s.Moves root event s') (hs : s.Traced) : s'.Traced := by
  cases h with
  -- Only a call adds to the history; only the worker takes a job, from the slot.
  | submit request hcall => exact hs.call hcall (.submitting ⟨s.nextId, request⟩) rfl
  | @activate job hcall =>
    obtain ⟨consumed, hhistory, hslot, hworker⟩ := hs.consumed
    rw [hcall] at hhistory
    refine ⟨⟨consumed, hhistory, hslot, hworker⟩, ?_, hs.cancelled, hs.dropped, hs.responses⟩
    intro a ha
    obtain rfl := Option.some.inj ha
    exact hs.last_of_call hcall rfl
  | @place job hcall =>
    refine hs.replacePending hcall rfl ?_ rfl
    intro job' hjob'
    obtain rfl := Option.some.inj hjob'
    rfl
  | wake hcall =>
    refine hs.of_eq rfl (by rw [hcall]; rfl) (fun _ hjob => hjob) (fun _ hjob => .inl hjob)
      (fun _ ha => ha) rfl rfl rfl
  | cancel hcall => exact hs.call hcall .cancelling rfl
  | cancelPending hcall =>
    exact hs.replacePending hcall rfl (fun _ hjob => absurd hjob (by simp)) rfl
  | receive hworker hwake =>
    refine hs.of_eq rfl rfl (fun _ hjob => hjob) ?_ (fun _ ha => ha) rfl rfl rfl
    exact fun _ hjob => absurd hjob (by simp [CacheWorker.job])
  | @take job hworker hpending =>
    refine hs.of_eq rfl rfl ?_ ?_ (fun _ ha => ha) rfl rfl rfl
    · exact fun _ hjob => absurd hjob (by simp [beginPreparation])
    · intro job' hjob'
      obtain rfl := Option.some.inj hjob'
      exact Or.inr hpending
  | takeNone hworker hpending =>
    refine hs.of_eq rfl rfl (fun _ hjob => hjob) ?_ (fun _ ha => ha) rfl rfl rfl
    exact fun _ hjob => absurd hjob (by simp [CacheWorker.job])
  -- The run keeps its job to the end.
  | @run run stage runEvent outcome hworker hrun =>
    have hheld : s.worker.job = some run.job := by
      rw [hworker]
      rfl
    obtain ⟨run', stage', hjob, -, hprogress⟩ | ⟨result, hprogress⟩ := withProgress_cases hrun
    · rw [hprogress]
      refine hs.of_eq rfl rfl (fun _ hjob => hjob) ?_ (fun _ ha => ha) rfl rfl rfl
      intro job' hjob'
      obtain rfl := Option.some.inj hjob'
      exact Or.inl (hheld.trans (congrArg some hjob.symm))
    · rw [hprogress]
      refine hs.of_eq rfl rfl (fun _ hjob => hjob) ?_ (fun _ ha => ha) rfl rfl rfl
      intro job' hjob'
      obtain rfl := Option.some.inj hjob'
      exact Or.inl hheld
  | @clear job result hworker =>
    refine hs.of_eq rfl rfl (fun _ hjob => hjob) ?_ ?_ rfl rfl rfl
    · intro job' hjob'
      rw [hworker]
      exact Or.inl hjob'
    · intro a ha
      by_cases hactive : s.active = some (job.request.generation, job.id)
      · simp [clearActive, hactive] at ha
      · simpa [clearActive, hactive] using ha
  | @respond job result hworker =>
    obtain ⟨consumed, hhistory, hslot, hjobs⟩ := hs.consumed
    refine ⟨⟨consumed, hhistory, hslot, ?_⟩, hs.active, hs.cancelled, hs.dropped, ?_⟩
    · exact fun _ hjob => absurd hjob (by simp [ComposerCache.respond, CacheWorker.job])
    · intro p hp
      rcases List.mem_append.1 hp with hp | hp
      · exact hs.responses p hp
      · obtain rfl := List.mem_singleton.1 hp
        have hheld : job ∈ s.worker.job := by
          rw [hworker]
          exact rfl
        exact hs.held hheld
  | @dropLease id lease removal hlease =>
    unfold ComposerCache.dropLease
    split
    · exact hs.of_eq rfl rfl (fun _ hjob => hjob) (fun _ hjob => .inl hjob) (fun _ ha => ha) rfl
        rfl rfl
    · exact hs.of_eq rfl rfl (fun _ hjob => hjob) (fun _ hjob => .inl hjob) (fun _ ha => ha) rfl
        rfl rfl
  | commitLease hlease =>
    exact hs.of_eq rfl rfl (fun _ hjob => hjob) (fun _ hjob => .inl hjob) (fun _ ha => ha) rfl rfl
      rfl
  | others hfiles =>
    exact hs.of_eq rfl rfl (fun _ hjob => hjob) (fun _ hjob => .inl hjob) (fun _ ha => ha) rfl rfl
      rfl

/-! ## Flags -/

/-- The active flag is that of the job in the slot, or that is prepared, unless its flag is set. -/
structure Flagged (s : ComposerCache) : Prop where
  submitting : ∀ job, s.call = some (.submitting job) → s.active = none
  activated : ∀ job, s.call = some (.activated job) →
    s.active = some (job.request.generation, job.id)
  current : ∀ job, s.pending = some job ∨ s.worker.prepares = some job →
    job.id ∈ s.cancelled ∨ s.active = some (job.request.generation, job.id)

theorem flagged_initial (files : List (CachePath × Option Bytes)) : (initial files).Flagged where
  submitting := fun _ hcall => absurd hcall (by simp [initial])
  activated := fun _ hcall => absurd hcall (by simp [initial])
  current := fun _ hjob => absurd hjob (by simp [initial, CacheWorker.prepares])

namespace Flagged

/-- A step that makes no call, and leaves the flags alone. -/
theorem of_eq (h : s.Flagged)
    (hcall : s'.call = s.call ∨ s'.call.bind CacheCall.job = none)
    (hjobs : ∀ job, s'.pending = some job ∨ s'.worker.prepares = some job →
      s.pending = some job ∨ s.worker.prepares = some job)
    (hactive : s'.active = s.active) (hcancelled : s'.cancelled = s.cancelled) : s'.Flagged := by
  refine ⟨?_, ?_, ?_⟩
  · intro job hsubmitting
    rw [hactive]
    rcases hcall with hcall | hcall
    · exact h.submitting job (hcall ▸ hsubmitting)
    · exact absurd hcall (by simp [hsubmitting, CacheCall.job])
  · intro job hactivated
    rw [hactive]
    rcases hcall with hcall | hcall
    · exact h.activated job (hcall ▸ hactivated)
    · exact absurd hcall (by simp [hactivated, CacheCall.job])
  · intro job hjob
    rw [hcancelled, hactive]
    exact h.current job (hjobs job hjob)

/-- A call sets the active flag. -/
theorem cancelled (h : s.Flagged) {job : ComposerAttachmentCacheJob}
    (hjob : s.pending = some job ∨ s.worker.prepares = some job) :
    job.id ∈ s.cancelled ++ (s.active.map Prod.snd).toList := by
  rcases h.current job hjob with hset | hactive
  · exact List.mem_append_left _ hset
  · rw [hactive]
    exact List.mem_append_right _ (List.mem_singleton_self _)

end Flagged

theorem Moves.flagged (h : s.Moves root event s') (haccounted : s.Accounted) (hs : s.Flagged) :
    s'.Flagged := by
  cases h with
  | submit request hcall =>
    refine ⟨fun _ _ => rfl, fun _ hactivated => ?_, fun job hjob => Or.inl (hs.cancelled hjob)⟩
    exact absurd hactivated (by simp [ComposerCache.submit])
  | @activate job hcall =>
    refine ⟨fun _ hsubmitting => absurd hsubmitting (by simp), ?_, ?_⟩
    · intro job' hactivated
      obtain rfl : job = job' := by simpa using hactivated
      rfl
    · -- no flag was active, so the flags of the other jobs are set
      intro job' hjob'
      have hnone := hs.submitting job hcall
      refine Or.inl ((hs.current job' hjob').resolve_right ?_)
      rw [hnone]
      exact fun hactive => absurd hactive (by simp)
  | @place job hcall =>
    refine ⟨fun _ hsubmitting => absurd hsubmitting (by simp),
      fun _ hactivated => absurd hactivated (by simp), ?_⟩
    intro job' hjob'
    rcases hjob' with hslot | hworker
    · obtain rfl : job = job' := by simpa [ComposerCache.replacePending] using hslot
      exact Or.inr (hs.activated job hcall)
    · exact hs.current job' (Or.inr hworker)
  | wake hcall => exact hs.of_eq (.inr rfl) (fun _ hjob => hjob) rfl rfl
  | cancel hcall =>
    refine ⟨fun _ hsubmitting => absurd hsubmitting (by simp [ComposerCache.cancel]),
      fun _ hactivated => absurd hactivated (by simp [ComposerCache.cancel]),
      fun job hjob => Or.inl (hs.cancelled hjob)⟩
  | cancelPending hcall =>
    refine hs.of_eq (.inr rfl) ?_ rfl rfl
    intro job hjob
    rcases hjob with hslot | hworker
    · exact absurd hslot (by simp [ComposerCache.replacePending])
    · exact Or.inr hworker
  | receive hworker hwake =>
    refine hs.of_eq (.inl rfl) ?_ rfl rfl
    exact fun job hjob => Or.inl (hjob.resolve_right (by simp [CacheWorker.prepares]))
  | @take job hworker hpending =>
    refine hs.of_eq (.inl rfl) ?_ rfl rfl
    intro job' hjob'
    refine Or.inl (hpending.trans (hjob'.resolve_left ?_))
    exact fun hslot => absurd hslot (by simp [beginPreparation])
  | takeNone hworker hpending =>
    refine hs.of_eq (.inl rfl) ?_ rfl rfl
    exact fun job hjob => Or.inl (hjob.resolve_right (by simp [CacheWorker.prepares]))
  | @run run stage runEvent outcome hworker hrun =>
    obtain ⟨run', stage', hjob, -, hprogress⟩ | ⟨result, hprogress⟩ := withProgress_cases hrun
    · rw [hprogress]
      refine hs.of_eq (.inl rfl) ?_ rfl rfl
      intro job' hjob'
      rcases hjob' with hslot | hprepares
      · exact Or.inl hslot
      · refine Or.inr ?_
        rw [hworker]
        exact (congrArg some hjob).symm.trans hprepares
    · rw [hprogress]
      refine hs.of_eq (.inl rfl) ?_ rfl rfl
      exact fun job hjob =>
        Or.inl (hjob.resolve_right (by simp [withProgress, CacheWorker.prepares]))
  | @clear job result hworker =>
    have hprepared : s.worker.job = some job := by rw [hworker]; rfl
    refine ⟨?_, ?_, ?_⟩
    · intro job' hsubmitting
      have hnone := hs.submitting job' hsubmitting
      simp [clearActive, hnone]
    · -- the call's job is not the worker's
      intro job' hactivated
      have hactive := hs.activated job' hactivated
      have hcall : s.call = some (.activated job') := hactivated
      have hne := haccounted.ne_worker (.inl (by rw [hcall]; rfl)) hprepared
      simp [clearActive, hactive, hne]
    · intro job' hjob'
      have hslot : s.pending = some job' :=
        hjob'.resolve_right (by simp [CacheWorker.prepares])
      have hne := haccounted.ne_worker (.inr hslot) hprepared
      refine (hs.current job' (Or.inl hslot)).imp id fun hactive => ?_
      simp [clearActive, hactive, hne]
  | respond hworker =>
    refine hs.of_eq (.inl rfl) ?_ rfl rfl
    exact fun job hjob =>
      Or.inl (hjob.resolve_right (by simp [ComposerCache.respond, CacheWorker.prepares]))
  | @dropLease id lease removal hlease =>
    unfold ComposerCache.dropLease
    split
    · exact hs.of_eq (.inl rfl) (fun _ hjob => hjob) rfl rfl
    · exact hs.of_eq (.inl rfl) (fun _ hjob => hjob) rfl rfl
  | commitLease hlease => exact hs.of_eq (.inl rfl) (fun _ hjob => hjob) rfl rfl
  | others hfiles => exact hs.of_eq (.inl rfl) (fun _ hjob => hjob) rfl rfl

/-- A job that is prepared while its flag is not set was asked for by the newest call. -/
theorem newest_of_unset (haccounted : s.Accounted) (htraced : s.Traced) (hflagged : s.Flagged)
    {job : ComposerAttachmentCacheJob} (hprepares : s.worker.prepares = some job)
    (hunset : job.id ∉ s.cancelled) : ¬ Record.Superseded s.history job.id := by
  have hactive := (hflagged.current job (Or.inr hprepares)).resolve_left hunset
  exact Record.not_superseded_of_last haccounted.nodup_submitted (htraced.active _ hactive)

/-! ## Preparations, and the wake -/

/-- The worker prepares one job at a time, and does not sleep while the slot is filled. -/
structure Prepares (s : ComposerCache) : Prop where
  active : s.activePreparations = (jobId s.worker.prepares).length
  peak : s.peakActivePreparations ≤ 1
  awake : s.pending ≠ none → s.wake = true ∨ s.call = some .placed ∨ s.worker ≠ .receiving

theorem prepares_initial (files : List (CachePath × Option Bytes)) : (initial files).Prepares where
  active := rfl
  peak := Nat.zero_le 1
  awake := fun hpending => absurd rfl hpending

theorem Moves.prepares (h : s.Moves root event s') (hs : s.Prepares) : s'.Prepares := by
  -- The count is raised by the take alone, from an idle worker, and lowered where the run ends. A
  -- job in the slot has a wake on its way, or a worker that will look.
  obtain ⟨hactive, hpeak, hawake⟩ := hs
  cases h with
  | submit request hcall =>
    refine ⟨hactive, hpeak, fun hpending => (hawake hpending).imp id (Or.imp ?_ id)⟩
    exact fun hplaced => absurd hplaced (by simp [hcall])
  | activate hcall =>
    refine ⟨hactive, hpeak, fun hpending => (hawake hpending).imp id (Or.imp ?_ id)⟩
    exact fun hplaced => absurd hplaced (by simp [hcall])
  | place hcall => exact ⟨hactive, hpeak, fun _ => Or.inr (Or.inl rfl)⟩
  | wake hcall => exact ⟨hactive, hpeak, fun _ => Or.inl rfl⟩
  | cancel hcall =>
    refine ⟨hactive, hpeak, fun hpending => (hawake hpending).imp id (Or.imp ?_ id)⟩
    exact fun hplaced => absurd hplaced (by simp [hcall])
  | cancelPending hcall => exact ⟨hactive, hpeak, fun hpending => absurd rfl hpending⟩
  | receive hworker hwake =>
    rw [hworker] at hactive
    exact ⟨hactive, hpeak, fun _ => Or.inr (Or.inr (by simp))⟩
  | @take job hworker hpending =>
    rw [hworker] at hactive
    have hidle : s.activePreparations = 0 := hactive
    refine ⟨?_, ?_, fun hslot => absurd rfl hslot⟩
    · show s.activePreparations + 1 = 1
      omega
    · show max s.peakActivePreparations (s.activePreparations + 1) ≤ 1
      omega
  | takeNone hworker hpending =>
    rw [hworker] at hactive
    exact ⟨hactive, hpeak, fun hslot => absurd hpending hslot⟩
  | @run run stage runEvent outcome hworker hrun =>
    rw [hworker] at hactive
    have hone : s.activePreparations = 1 := hactive
    obtain ⟨run', stage', hjob, -, hprogress⟩ | ⟨result, hprogress⟩ := withProgress_cases hrun
    · rw [hprogress]
      exact ⟨hone, hpeak, fun _ => Or.inr (Or.inr (by simp [withProgress]))⟩
    · rw [hprogress]
      refine ⟨?_, hpeak, fun _ => Or.inr (Or.inr (by simp [withProgress]))⟩
      show s.activePreparations - 1 = 0
      omega
  | clear hworker =>
    rw [hworker] at hactive
    exact ⟨hactive, hpeak, fun _ => Or.inr (Or.inr (by simp))⟩
  | respond hworker =>
    rw [hworker] at hactive
    exact ⟨hactive, hpeak, fun _ => Or.inr (Or.inr (by simp [ComposerCache.respond]))⟩
  | @dropLease id lease removal hlease =>
    unfold ComposerCache.dropLease
    split
    · exact ⟨hactive, hpeak, hawake⟩
    · exact ⟨hactive, hpeak, hawake⟩
  | commitLease hlease => exact ⟨hactive, hpeak, hawake⟩
  | others hfiles => exact ⟨hactive, hpeak, hawake⟩

/-! ## The end of the work -/

/-- How many steps are left when no further call is made. -/
def work (s : ComposerCache) : Nat :=
  (s.call.map CacheCall.work).getD 0 + (s.pending.map ComposerAttachmentCacheJob.work).getD 0 +
    (bif s.wake then 2 else 0) + s.worker.work

/-- Nothing is left to do. -/
def Quiet (s : ComposerCache) : Prop :=
  s.call = none ∧ s.pending = none ∧ s.wake = false ∧ s.worker = .receiving

theorem Moves.work_lt (h : s.Moves root event s') (hevent : event.isWork = true) :
    s'.work < s.work := by
  cases h with
  | submit request hcall => exact absurd hevent (by simp [CacheEvent.isWork])
  | cancel hcall => exact absurd hevent (by simp [CacheEvent.isWork])
  | dropLease removal hlease => exact absurd hevent (by simp [CacheEvent.isWork])
  | commitLease hlease => exact absurd hevent (by simp [CacheEvent.isWork])
  | others hfiles => exact absurd hevent (by simp [CacheEvent.isWork])
  | activate hcall => simp [ComposerCache.work, hcall, CacheCall.work]
  | place hcall =>
    simp [ComposerCache.work, hcall, CacheCall.work, ComposerCache.replacePending]
    omega
  | wake hcall =>
    simp [ComposerCache.work, hcall, CacheCall.work]
    omega
  | cancelPending hcall =>
    simp [ComposerCache.work, hcall, CacheCall.work, ComposerCache.replacePending]
  | receive hworker hwake =>
    simp [ComposerCache.work, hworker, hwake, CacheWorker.work]
  | take hworker hpending =>
    simp [ComposerCache.work, hworker, hpending, CacheWorker.work, beginPreparation,
      CacheRun.work, CacheRun.begin, RunStage.work, ComposerAttachmentCacheJob.work]
    omega
  | takeNone hworker hpending =>
    simp [ComposerCache.work, hworker, hpending, CacheWorker.work]
  | @run run stage runEvent outcome hworker hrun =>
    obtain ⟨run', stage', hjob, hless, hprogress⟩ | ⟨result, hprogress⟩ := withProgress_cases hrun
    · simp only [ComposerCache.work, hprogress, withProgress, withFiles, hworker, CacheWorker.work]
      omega
    · simp only [ComposerCache.work, hprogress, withProgress, withFiles, hworker, CacheWorker.work]
      have hstage := run.work_pos stage
      omega
  | clear hworker =>
    simp [ComposerCache.work, hworker, CacheWorker.work, clearActive]
  | respond hworker =>
    simp [ComposerCache.work, hworker, CacheWorker.work, ComposerCache.respond]

/-- What is not a call leaves no more to do. -/
theorem Moves.work_le (h : s.Moves root event s') (hevent : event.isCall = false) :
    s'.work ≤ s.work := by
  cases hwork : event.isWork with
  | true => exact (h.work_lt hwork).le
  | false =>
    cases h with
    | submit request hcall => exact absurd hevent (by simp [CacheEvent.isCall])
    | cancel hcall => exact absurd hevent (by simp [CacheEvent.isCall])
    | @dropLease id lease removal hlease =>
      unfold ComposerCache.dropLease
      split
      · exact Nat.le_refl _
      · exact Nat.le_refl _
    | commitLease hlease => exact Nat.le_refl _
    | others hfiles => exact Nat.le_refl _
    | activate _ | place _ | wake _ | cancelPending _ | receive _ _ | take _ _ | takeNone _ _
    | run _ _ | clear _ | respond _ => exact absurd hwork (by simp [CacheEvent.isWork])

/-- Without further calls the steps of the worker end. -/
theorem length_add_work_le {later : List (ComposerCache × CacheEvent)}
    (h : Run (Steps (step root)) s later s') (hlater : ∀ p ∈ later, p.2.isCall = false) :
    (later.filter fun p => p.2.isWork).length + s'.work ≤ s.work := by
  induction h with
  | nil => exact (Nat.zero_add _).le
  | @snoc trace t e u _ hlast ih =>
    have hearlier := ih fun p hp => hlater p (List.mem_append_left _ hp)
    have hevent := hlater (t, e) (List.mem_append_right _ (List.mem_singleton_self _))
    have hmoves := moves_of_step hlast
    rw [List.filter_append, List.length_append]
    cases hwork : e.isWork with
    | true =>
      have hless := hmoves.work_lt hwork
      have hone : ([(t, e)].filter fun p => p.2.isWork).length = 1 := by simp [hwork]
      omega
    | false =>
      have hle := hmoves.work_le hevent
      have hnone : ([(t, e)].filter fun p => p.2.isWork).length = 0 := by simp [hwork]
      omega

theorem quiet_or_step (root : CachePath) (hprepares : s.Prepares) :
    s.Quiet ∨ ∃ event s', event.isWork = true ∧ s.step root event = some s' := by
  cases hcall : s.call with
  | some call =>
    right
    cases call with
    | submitting job => exact ⟨.activate, _, rfl, by simp only [step, hcall]; rfl⟩
    | activated job => exact ⟨.place, _, rfl, by simp only [step, hcall]; rfl⟩
    | placed => exact ⟨.wake, _, rfl, by simp only [step, hcall]; rfl⟩
    | cancelling => exact ⟨.cancelPending, _, rfl, by simp only [step, hcall]; rfl⟩
  | none =>
    cases hworker : s.worker with
    | receiving =>
      cases hwake : s.wake with
      | true => exact Or.inr ⟨.receive, _, rfl, by simp only [step, hworker, hwake]; rfl⟩
      | false =>
        refine Or.inl ⟨hcall, ?_, hwake, hworker⟩
        by_contra hpending
        simpa [hwake, hcall, hworker] using hprepares.awake hpending
    | looping =>
      right
      cases hpending : s.pending with
      | some job => exact ⟨.take, _, rfl, by simp only [step, hworker, hpending]; rfl⟩
      | none => exact ⟨.take, _, rfl, by simp only [step, hworker, hpending]; rfl⟩
    | running run stage =>
      obtain ⟨runEvent, outcome, hrun⟩ :=
        CacheRun.exists_step root s.files (s.cancelled.contains run.job.id) run stage
      exact Or.inr ⟨.run runEvent, _, rfl, by simp only [step, hworker, hrun]; rfl⟩
    | prepared job result => exact Or.inr ⟨.clear, _, rfl, by simp only [step, hworker]; rfl⟩
    | cleared job result => exact Or.inr ⟨.respond, _, rfl, by simp only [step, hworker]; rfl⟩

/-! ## Every run -/

/-- **What the calls have come to.** One request is prepared at a time; each is run at most once and
answered at most once, under its own generation; one that is dropped or cancelled was superseded by
a later call; a lease is made for the newest request only; and the newest request is answered once
the service is quiet, which it is after finitely many steps without further calls. Some step is
always possible until then. -/
structure Serves (root : CachePath) (s : ComposerCache) : Prop where
  onePreparation : s.activePreparations ≤ 1 ∧ s.peakActivePreparations ≤ 1
  /-- no two requests bear one number -/
  numbered : (s.history.filterMap Record.submitted).Nodup
  runOnce : s.runs.Nodup
  answeredOnce : (s.responses.map Prod.fst).Nodup
  ownGeneration : ∀ id response, (id, response) ∈ s.responses →
    .submit id response.generation ∈ s.history
  /-- a channel that is closed without a response is that of a job that was not run -/
  droppedNotRun : ∀ id ∈ s.dropped, id ∉ s.responses.map Prod.fst ∧ id ∉ s.runs
  droppedSuperseded : ∀ id ∈ s.dropped, Record.Superseded s.history id
  cancelledSuperseded : ∀ id ∈ s.cancelled, Record.Superseded s.history id
  /-- the flag of a run is set as soon as a later call is made -/
  supersededCancelled : ∀ run stage, s.worker = .running run stage →
    Record.Superseded s.history run.job.id → run.job.id ∈ s.cancelled
  /-- a run ends with a lease only while its request is the newest -/
  leaseOfNewest : ∀ event s' job lease, s.step root (.run event) = some s' →
    s'.worker = .prepared job (.ok lease) → ¬ Record.Superseded s.history job.id
  newestAnswered : s.Quiet → ∀ id generation,
    s.history.getLast? = some (.submit id generation) →
      ∃ response, (id, response) ∈ s.responses ∧ response.generation = generation
  /-- without further calls the service is quiet after so many steps -/
  ends : ∀ later s', Run (Steps (step root)) s later s' → (∀ p ∈ later, p.2.isCall = false) →
    (later.filter fun p => p.2.isWork).length + s'.work ≤ s.work
  goesOn : s.Quiet ∨ ∃ event s', event.isWork = true ∧ s.step root event = some s'

/-- The invariants of a run. -/
theorem invariants_of_run {files : List (CachePath × Option Bytes)}
    {trace : List (ComposerCache × CacheEvent)}
    (h : Run (Steps (step root)) (initial files) trace s) :
    (s.Accounted ∧ s.Traced) ∧ s.Flagged ∧ s.Prepares := by
  have hinitial : ((initial files).Accounted ∧ (initial files).Traced) ∧
      (initial files).Flagged ∧ (initial files).Prepares :=
    ⟨⟨accounted_initial files, traced_initial files⟩, flagged_initial files,
      prepares_initial files⟩
  refine h.invariant (I := fun s => (s.Accounted ∧ s.Traced) ∧ s.Flagged ∧ s.Prepares) ?_ hinitial
  rintro t event u ⟨⟨haccounted, htraced⟩, hflagged, hprepares⟩ hstep
  have hmoves := moves_of_step hstep
  exact ⟨⟨hmoves.accounted haccounted, hmoves.traced htraced⟩,
    hmoves.flagged haccounted hflagged, hmoves.prepares hprepares⟩

/-- A request that was made is somewhere. -/
theorem Accounted.answered_or_dropped (h : s.Accounted) (hquiet : s.Quiet) {id generation : Nat}
    (hid : .submit id generation ∈ s.history) :
    id ∈ s.responses.map Prod.fst ∨ id ∈ s.dropped := by
  obtain ⟨hcall, hpending, -, hworker⟩ := hquiet
  have hnumber : id ∈ List.range s.nextId := by
    rw [← h.submitted]
    exact List.mem_filterMap.2 ⟨_, hid, rfl⟩
  have hplace : 0 < s.places.count id := by
    rw [h.places]
    exact List.count_pos_iff.2 hnumber
  have hmem := List.count_pos_iff.1 hplace
  rw [ComposerCache.places, hcall, hpending, hworker] at hmem
  exact List.mem_append.1 hmem

/-- A lease is made by a run that has looked and found its flag unset. -/
theorem Moves.prepares_of_lease {runEvent : RunEvent} (h : s.Moves root (.run runEvent) s')
    {job : ComposerAttachmentCacheJob} {lease : ComposerAttachmentCacheLease}
    (hlease : s'.worker = .prepared job (.ok lease)) :
    s.worker.prepares = some job ∧ job.id ∉ s.cancelled := by
  cases h with
  | @run run stage _ outcome hworker hrun =>
    obtain ⟨run', stage', hjob, -, hprogress⟩ | ⟨result, hprogress⟩ := withProgress_cases hrun
    · rw [hprogress] at hlease
      exact absurd hlease (by simp [withProgress])
    · rw [hprogress] at hlease
      obtain ⟨rfl, rfl⟩ := CacheWorker.prepared.inj hlease
      have hunset := hrun.unset_of_lease hprogress
      refine ⟨by rw [hworker]; rfl, fun hset => ?_⟩
      rw [List.contains_iff_mem.2 hset] at hunset
      exact absurd hunset (by simp)

theorem serves_of_invariants (root : CachePath) (haccounted : s.Accounted) (htraced : s.Traced)
    (hflagged : s.Flagged) (hprepares : s.Prepares) : s.Serves root := by
  have hids := haccounted.nodup_submitted
  have hplaces := List.nodup_iff_count_le_one.1 haccounted.nodup_places
  -- Most parts count places: an id is in one of them, so it cannot be in two.
  constructor
  case onePreparation =>
    refine ⟨?_, hprepares.peak⟩
    rw [hprepares.active, jobId]
    exact Option.length_toList_le
  case numbered => exact hids
  case runOnce =>
    refine List.nodup_iff_count_le_one.2 fun id => ?_
    have hid := hplaces id
    rw [count_places] at hid
    rw [haccounted.runs]
    omega
  case answeredOnce =>
    refine List.nodup_iff_count_le_one.2 fun id => ?_
    have hid := hplaces id
    rw [count_places] at hid
    omega
  case ownGeneration => exact fun id response hp => htraced.responses (id, response) hp
  case droppedNotRun =>
    intro id hdropped
    have hid := hplaces id
    rw [count_places] at hid
    have hone := List.count_pos_iff.2 hdropped
    have hruns := haccounted.runs id
    refine ⟨?_, ?_⟩
    · rw [← List.count_eq_zero]
      omega
    · rw [← List.count_eq_zero]
      omega
  case droppedSuperseded => exact htraced.dropped
  case cancelledSuperseded => exact htraced.cancelled
  case supersededCancelled =>
    intro run stage hworker hsuperseded
    by_contra hunset
    have hnewest := newest_of_unset haccounted htraced hflagged (by rw [hworker]; rfl) hunset
    exact hnewest hsuperseded
  case leaseOfNewest =>
    intro event s' job lease hstep hlease
    obtain ⟨hjob, hunset⟩ := (moves_of_step hstep).prepares_of_lease hlease
    exact newest_of_unset haccounted htraced hflagged hjob hunset
  -- At rest the newest request is answered or dropped, and one that is dropped is superseded.
  case newestAnswered =>
    intro hquiet id generation hlast
    have hnewest := Record.not_superseded_of_last hids hlast
    have hmem : Record.submit id generation ∈ s.history := List.mem_of_getLast? hlast
    have hplace := haccounted.answered_or_dropped hquiet hmem
    have hanswered := hplace.resolve_right fun hid => hnewest (htraced.dropped id hid)
    obtain ⟨⟨id', response⟩, hresponse, rfl⟩ := List.mem_map.1 hanswered
    refine ⟨response, hresponse, ?_⟩
    exact Record.generation_unique hids hmem (htraced.responses _ hresponse)
  case ends => exact fun later s' hlater => length_add_work_le hlater
  case goesOn => exact quiet_or_step root hprepares

/-- **The requests are served.** Whatever the order of the calls, of the worker's steps and of what
becomes of the leases and the files, the requests are served as `Serves` says: one at a time, each
at most once, and the newest in the end. -/
theorem cache_requests_served {files : List (CachePath × Option Bytes)}
    {trace : List (ComposerCache × CacheEvent)}
    (h : Run (Steps (step root)) (initial files) trace s) : s.Serves root := by
  obtain ⟨⟨haccounted, htraced⟩, hflagged, hprepares⟩ := invariants_of_run h
  exact serves_of_invariants root haccounted htraced hflagged hprepares

/-- A request of one source is replaced while it is written, by a request of none. -/
def replacedWhileWriting : List CacheEvent :=
  [.submit ⟨4, [.shared [] [0]]⟩, .activate, .place, .wake, .receive, .take, .run .look, .run .look,
    .run .testSource, .run (.load (.ok [])), .run .look, .run (.makeRequestDirectory [] .made),
    .submit ⟨5, []⟩, .activate, .run (.makeSourceDirectory .made), .run (.write .written), .place,
    .run .look, .run (.cleanup .removed), .clear, .respond, .take, .run .look, .run .look, .clear,
    .respond, .take, .wake, .receive, .take]

/-- The first request is answered with the error of its cancellation, the second with a lease. -/
theorem replaced_while_writing_served :
    ∃ s, exec (step []) (initial []) replacedWhileWriting = some s ∧ s.runs = [0, 1] ∧
      s.files = [] ∧ s.Serves [] := by
  have hrun : (exec (step []) (initial []) replacedWhileWriting).map
      (fun s => (s.runs, s.files)) = some ([0, 1], []) := by decide
  obtain ⟨s, hs, hends⟩ := Option.map_eq_some_iff.1 hrun
  obtain ⟨hruns, hfiles⟩ := Prod.mk.inj hends
  exact ⟨s, hs, hruns, hfiles, cache_requests_served (run_of_exec replacedWhileWriting hs)⟩

end ComposerCache

end Notm.Ui
