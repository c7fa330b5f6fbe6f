import Notm.Ui.SearchWorker
import Notm.Ui.ThreadListSettled

/-!
# What the search worker answers

Whatever the order of the calls and of the worker's steps, a request is answered at most once and
under its own generation, it is passed over only when a later call supersedes it, and the last
request is run with its flag unset and answered.

* `Accounted`, `Traced` — each request is in one place, and the commands are in the order of the
  calls.
* `Prepares` — one job is prepared at a time.
* `length_add_work_le`, `quiet_or_step` — without further calls every run ends, with nothing left to
  do.
* `SearchWindow.newest_of_run` — the search bar bears the newest generation.
* `requests_served_and_newest_applied` — the service and the window that takes its responses.
-/

namespace Notm.Ui

open Rust Transition Calls

/-! ## The steps -/

namespace SearchPageJob

variable {Q : Type}

/-- The call that made the job. -/
def record (job : SearchPageJob Q) : Record := .submit job.id job.request.generation

end SearchPageJob

namespace ServiceCall

variable {Q : Type}

def job : ServiceCall Q → Option (SearchPageJob Q)
  | submitting job | installed job => some job
  | cancelling => none

def record : ServiceCall Q → Record
  | submitting job | installed job => job.record
  | cancelling => .cancel

/-- How many steps the call causes. -/
def work : ServiceCall Q → Nat
  | submitting _ => 8
  | installed _ | cancelling => 7

end ServiceCall

namespace WorkerPhase

variable {Q R : Type}

/-- The job that the worker holds. -/
def job : WorkerPhase Q R → Option (SearchPageJob Q)
  | receiving => none
  | draining latest => latest
  | preparing job | prepared job _ | cleared job _ => some job

/-- The job that the worker has begun to prepare. -/
def begun : WorkerPhase Q R → Option (SearchPageJob Q)
  | receiving | draining _ => none
  | preparing job | prepared job _ | cleared job _ => some job

def preparations : WorkerPhase Q R → Nat
  | preparing _ => 1
  | receiving | draining _ | prepared _ _ | cleared _ _ => 0

theorem preparations_le_one (worker : WorkerPhase Q R) : worker.preparations ≤ 1 := by
  cases worker with
  | preparing job => exact Nat.le_refl 1
  | receiving | draining latest | prepared job result | cleared job result => exact Nat.zero_le 1

/-- How many steps the worker has before it receives again. -/
def work : WorkerPhase Q R → Nat
  | receiving => 0
  | cleared _ _ => 2
  | prepared _ _ => 3
  | preparing _ => 4
  | draining _ => 5

end WorkerPhase

namespace SearchWorkerService

variable {Q R : Type} {s s' : SearchWorkerService Q R} {event : ServiceEvent Q R}

def commandRecord : SearchWorkerCommand Q → Record
  | .search job => job.record
  | .cancel => .cancel

/-- The calls whose commands the worker has not taken. -/
def pending (s : SearchWorkerService Q R) : List Record :=
  s.queue.map commandRecord ++ (s.call.map ServiceCall.record).toList

/-- The number of a job, if there is one. -/
def jobId (job : Option (SearchPageJob Q)) : List Nat := (job.map SearchPageJob.id).toList

/-- The requests of the commands. -/
def queued (queue : List (SearchWorkerCommand Q)) : List Nat :=
  queue.flatMap fun command => jobId (commandJob command)

/-- Where the requests are. -/
def places (s : SearchWorkerService Q R) : List Nat :=
  jobId (s.call.bind ServiceCall.job) ++ queued s.queue ++ jobId s.worker.job ++
    s.responses.map Prod.fst ++ s.dropped

/-- The steps, one by one. -/
inductive Moves (s : SearchWorkerService Q R) :
    ServiceEvent Q R → SearchWorkerService Q R → Prop where
  | submit (request : SearchPageRequest Q) (hcall : s.call = none) :
      Moves s (.submit request) (s.submit request)
  | install {job : SearchPageJob Q} (hcall : s.call = some (.submitting job)) :
      Moves s .install { s with call := some (.installed job), activeCancel := some job.id }
  | send {job : SearchPageJob Q} (hcall : s.call = some (.installed job)) :
      Moves s .send { s with call := none, queue := s.queue ++ [.search job] }
  | cancel (hcall : s.call = none) : Moves s .cancel s.cancel
  | sendCancel (hcall : s.call = some .cancelling) :
      Moves s .sendCancel { s with call := none, queue := s.queue ++ [.cancel] }
  | receive {command : SearchWorkerCommand Q} {queue : List (SearchWorkerCommand Q)}
      (hworker : s.worker = .receiving) (hqueue : s.queue = command :: queue) :
      Moves s .receive { s with worker := .draining (commandJob command), queue }
  | drain {latest : Option (SearchPageJob Q)} {command : SearchWorkerCommand Q}
      {queue : List (SearchWorkerCommand Q)} (hworker : s.worker = .draining latest)
      (hqueue : s.queue = command :: queue) :
      Moves s .drain { s.drop latest with worker := .draining (commandJob command), queue }
  | drainedNone (hworker : s.worker = .draining none) (hqueue : s.queue = []) :
      Moves s .drained { s with worker := .receiving }
  | drained {job : SearchPageJob Q} (hworker : s.worker = .draining (some job))
      (hqueue : s.queue = []) : Moves s .drained (s.beginPreparation job)
  | prepare {job : SearchPageJob Q} (hworker : s.worker = .preparing job)
      (result : Except Str R) :
      Moves s (.prepare result)
        { s with
          worker := .prepared job result
          activePreparations := s.activePreparations - 1 }
  | clear {job : SearchPageJob Q} {result : Except Str R}
      (hworker : s.worker = .prepared job result) :
      Moves s .clear
        { s with
          worker := .cleared job result
          activeCancel := if s.activeCancel = some job.id then none else s.activeCancel }
  | respond {job : SearchPageJob Q} {result : Except Str R}
      (hworker : s.worker = .cleared job result) :
      Moves s .respond
        { s with
          worker := .receiving
          responses := s.responses ++
            [(job.id, ⟨job.request.generation, job.request.selectFirst, result⟩)] }

theorem moves_of_step (h : s.step event = some s') : s.Moves event s' := by
  cases event with
  | submit request =>
    simp only [step] at h
    split at h
    · rename_i hcall
      obtain rfl := Option.some.inj h
      exact .submit request hcall
    · exact absurd h (by simp)
  | install =>
    simp only [step] at h
    split at h
    · rename_i job hcall
      obtain rfl := Option.some.inj h
      exact .install hcall
    · exact absurd h (by simp)
  | send =>
    simp only [step] at h
    split at h
    · rename_i job hcall
      obtain rfl := Option.some.inj h
      exact .send hcall
    · exact absurd h (by simp)
  | cancel =>
    simp only [step] at h
    split at h
    · rename_i hcall
      obtain rfl := Option.some.inj h
      exact .cancel hcall
    · exact absurd h (by simp)
  | sendCancel =>
    simp only [step] at h
    split at h
    · rename_i hcall
      obtain rfl := Option.some.inj h
      exact .sendCancel hcall
    · exact absurd h (by simp)
  | receive =>
    simp only [step] at h
    split at h
    · rename_i command queue hworker hqueue
      obtain rfl := Option.some.inj h
      exact .receive hworker hqueue
    · exact absurd h (by simp)
  | drain =>
    simp only [step] at h
    split at h
    · rename_i latest command queue hworker hqueue
      obtain rfl := Option.some.inj h
      exact .drain hworker hqueue
    · exact absurd h (by simp)
  | drained =>
    simp only [step] at h
    split at h
    · rename_i hworker hqueue
      obtain rfl := Option.some.inj h
      exact .drainedNone hworker hqueue
    · rename_i job hworker hqueue
      obtain rfl := Option.some.inj h
      exact .drained hworker hqueue
    · exact absurd h (by simp)
  | prepare result =>
    simp only [step] at h
    split at h
    · rename_i job hworker
      obtain rfl := Option.some.inj h
      exact .prepare hworker result
    · exact absurd h (by simp)
  | clear =>
    simp only [step] at h
    split at h
    · rename_i job result hworker
      obtain rfl := Option.some.inj h
      exact .clear hworker
    · exact absurd h (by simp)
  | respond =>
    simp only [step] at h
    split at h
    · rename_i job result hworker
      obtain rfl := Option.some.inj h
      exact .respond hworker
    · exact absurd h (by simp)

/-! ## Where a request is -/

/-- Each request is in one place, and each call made one request. -/
structure Accounted (s : SearchWorkerService Q R) : Prop where
  places : ∀ id, s.places.count id = (List.range s.nextId).count id
  submitted : s.history.filterMap Record.submitted = List.range s.nextId

theorem accounted_initial : (initial : SearchWorkerService Q R).Accounted where
  places := fun _ => rfl
  submitted := rfl

theorem count_places (s : SearchWorkerService Q R) (id : Nat) :
    s.places.count id =
      (jobId (s.call.bind ServiceCall.job)).count id + (queued s.queue).count id +
        (jobId s.worker.job).count id + (s.responses.map Prod.fst).count id +
        s.dropped.count id := by
  simp only [places, List.count_append]

theorem count_queued_cons (command : SearchWorkerCommand Q)
    (queue : List (SearchWorkerCommand Q)) (id : Nat) :
    (queued (command :: queue)).count id =
      (jobId (commandJob command)).count id + (queued queue).count id := by
  simp only [queued, List.flatMap_cons, List.count_append]

theorem count_queued_concat (queue : List (SearchWorkerCommand Q))
    (command : SearchWorkerCommand Q) (id : Nat) :
    (queued (queue ++ [command])).count id =
      (queued queue).count id + (jobId (commandJob command)).count id := by
  simp only [queued, List.flatMap_append, List.flatMap_singleton, List.count_append]

theorem Moves.accounted (h : s.Moves event s') (hs : s.Accounted) : s'.Accounted := by
  obtain ⟨hplaces, hsubmitted⟩ := hs
  cases h with
  | submit request hcall =>
    refine ⟨fun id => ?_, ?_⟩
    · -- the new number is in the call, and nowhere else
      have hid := hplaces id
      rw [count_places, hcall] at hid
      rw [count_places]
      show [s.nextId].count id + (queued s.queue).count id + (jobId s.worker.job).count id +
        (s.responses.map Prod.fst).count id + s.dropped.count id =
        (List.range (s.nextId + 1)).count id
      have hnone : (jobId ((none : Option (ServiceCall Q)).bind ServiceCall.job)).count id = 0 :=
        rfl
      rw [List.range_succ, List.count_append]
      omega
    · show (s.history ++ [Record.submit s.nextId request.generation]).filterMap
        Record.submitted = List.range (s.nextId + 1)
      rw [List.filterMap_append, hsubmitted, List.range_succ]
      rfl
  | install hcall =>
    refine ⟨fun id => ?_, hsubmitted⟩
    have hid := hplaces id
    rw [count_places, hcall] at hid
    rw [count_places]
    exact hid
  | @send job hcall =>
    refine ⟨fun id => ?_, hsubmitted⟩
    have hid := hplaces id
    rw [count_places, hcall] at hid
    rw [count_places, count_queued_concat]
    simp [jobId, ServiceCall.job, commandJob] at hid ⊢
    omega
  | cancel hcall =>
    refine ⟨fun id => ?_, ?_⟩
    · have hid := hplaces id
      rw [count_places, hcall] at hid
      rw [count_places]
      exact hid
    · show (s.history ++ [Record.cancel]).filterMap Record.submitted =
        List.range s.nextId
      rw [List.filterMap_append, hsubmitted]
      exact List.append_nil _
  | sendCancel hcall =>
    refine ⟨fun id => ?_, hsubmitted⟩
    have hid := hplaces id
    rw [count_places, hcall] at hid
    rw [count_places, count_queued_concat]
    exact hid
  | receive hworker hqueue =>
    refine ⟨fun id => ?_, hsubmitted⟩
    have hid := hplaces id
    rw [count_places, hworker, hqueue, count_queued_cons] at hid
    rw [count_places]
    simp [WorkerPhase.job, jobId] at hid ⊢
    omega
  | drain hworker hqueue =>
    refine ⟨fun id => ?_, hsubmitted⟩
    have hid := hplaces id
    rw [count_places, hworker, hqueue, count_queued_cons] at hid
    rw [count_places]
    simp [WorkerPhase.job, jobId, SearchWorkerService.drop] at hid ⊢
    omega
  | drainedNone hworker hqueue =>
    refine ⟨fun id => ?_, hsubmitted⟩
    have hid := hplaces id
    rw [count_places, hworker] at hid
    rw [count_places]
    exact hid
  | drained hworker hqueue =>
    refine ⟨fun id => ?_, hsubmitted⟩
    have hid := hplaces id
    rw [count_places, hworker] at hid
    rw [count_places]
    exact hid
  | prepare hworker result =>
    refine ⟨fun id => ?_, hsubmitted⟩
    have hid := hplaces id
    rw [count_places, hworker] at hid
    rw [count_places]
    exact hid
  | clear hworker =>
    refine ⟨fun id => ?_, hsubmitted⟩
    have hid := hplaces id
    rw [count_places, hworker] at hid
    rw [count_places]
    exact hid
  | respond hworker =>
    refine ⟨fun id => ?_, hsubmitted⟩
    have hid := hplaces id
    rw [count_places, hworker] at hid
    rw [count_places]
    simp [WorkerPhase.job, jobId] at hid ⊢
    omega

/-! ## What the calls have said about a request -/

/-- Each job was submitted, the commands are taken in the order of their calls, and a flag that is
set, or a channel that is closed, belongs to a request that a later call supersedes. -/
structure Traced (s : SearchWorkerService Q R) : Prop where
  consumed : ∃ consumed, s.history = consumed ++ s.pending ∧
    ∀ job ∈ s.worker.job, job.record ∈ consumed
  active : ∀ id ∈ s.activeCancel, ∃ generation, .submit id generation ∈ s.history
  cancelled : ∀ id ∈ s.cancelled, Record.Superseded s.history id
  dropped : ∀ id ∈ s.dropped, Record.Superseded s.history id
  flagged : ∀ id, (id, true) ∈ s.runs → Record.Superseded s.history id
  responses : ∀ p ∈ s.responses, .submit p.1 p.2.generation ∈ s.history

theorem traced_initial : (initial : SearchWorkerService Q R).Traced where
  consumed := ⟨[], rfl, fun _ hjob => absurd hjob (by simp [initial, WorkerPhase.job])⟩
  active := fun _ hid => absurd hid (by simp [initial])
  cancelled := fun _ hid => absurd hid List.not_mem_nil
  dropped := fun _ hid => absurd hid List.not_mem_nil
  flagged := fun _ hid => absurd hid List.not_mem_nil
  responses := fun _ hid => absurd hid List.not_mem_nil

namespace Traced

theorem held (h : s.Traced) {job : SearchPageJob Q} (hjob : job ∈ s.worker.job) :
    job.record ∈ s.history := by
  obtain ⟨consumed, hhistory, hworker⟩ := h.consumed
  rw [hhistory]
  exact List.mem_append_left _ (hworker job hjob)

theorem called (h : s.Traced) {call : ServiceCall Q} (hcall : s.call = some call) :
    call.record ∈ s.history := by
  obtain ⟨consumed, hhistory, -⟩ := h.consumed
  rw [hhistory, pending, hcall]
  refine List.mem_append_right _ (List.mem_append_right _ ?_)
  exact List.mem_singleton_self _

/-- A call sets the active flag, and supersedes its request. -/
theorem cancelActive (h : s.Traced) (call : Record) :
    ∀ id ∈ s.cancelled ++ s.activeCancel.toList,
      Record.Superseded (s.history ++ [call]) id := by
  intro id hid
  rcases List.mem_append.1 hid with hid | hid
  · exact (h.cancelled id hid).append [call]
  · obtain ⟨generation, hmem⟩ := h.active id (Option.mem_toList.1 hid)
    exact Record.superseded_of_mem hmem call

end Traced

/-- A call is made. -/
theorem Traced.call (h : s.Traced) (hcall : s.call = none) (call : ServiceCall Q)
    {nextId : Nat} :
    ({ s.cancelActive with
        call := some call, nextId, history := s.history ++ [call.record] } :
      SearchWorkerService Q R).Traced := by
  obtain ⟨consumed, hhistory, hworker⟩ := h.consumed
  rw [pending, hcall] at hhistory
  refine ⟨⟨consumed, ?_, hworker⟩, ?_, h.cancelActive call.record, ?_, ?_, ?_⟩
  · show s.history ++ [call.record] =
      consumed ++ (s.queue.map commandRecord ++ [call.record])
    rw [hhistory]
    simp
  · exact fun id hid => absurd hid (by simp [SearchWorkerService.cancelActive])
  · exact fun id hid => (h.dropped id hid).append [call.record]
  · exact fun id hid => (h.flagged id hid).append [call.record]
  · exact fun p hp => List.mem_append_left _ (h.responses p hp)

/-- The command of the call is sent. -/
theorem Traced.send (h : s.Traced) {call : ServiceCall Q} (hcall : s.call = some call)
    {command : SearchWorkerCommand Q} (hcommand : commandRecord command = call.record) :
    ({ s with call := none, queue := s.queue ++ [command] } :
      SearchWorkerService Q R).Traced := by
  obtain ⟨consumed, hhistory, hworker⟩ := h.consumed
  rw [pending, hcall] at hhistory
  refine ⟨⟨consumed, ?_, hworker⟩, h.active, h.cancelled, h.dropped, h.flagged, h.responses⟩
  show s.history = consumed ++ ((s.queue ++ [command]).map commandRecord ++ [])
  rw [hhistory, List.map_append, List.append_nil, List.map_singleton, hcommand]
  rfl

/-- The worker takes a command. -/
theorem Traced.take (h : s.Traced) {command : SearchWorkerCommand Q}
    {queue : List (SearchWorkerCommand Q)} (hqueue : s.queue = command :: queue) :
    ({ s with worker := .draining (commandJob command), queue } :
      SearchWorkerService Q R).Traced := by
  obtain ⟨consumed, hhistory, -⟩ := h.consumed
  rw [pending, hqueue, List.map_cons, List.cons_append] at hhistory
  refine ⟨⟨consumed ++ [commandRecord command], ?_, ?_⟩, h.active, h.cancelled, h.dropped,
    h.flagged, h.responses⟩
  · show s.history = consumed ++ [commandRecord command] ++
      (queue.map commandRecord ++ (s.call.map ServiceCall.record).toList)
    rw [hhistory, List.append_assoc]
    rfl
  · intro job hjob
    refine List.mem_append_right _ (List.mem_singleton.2 ?_)
    cases command with
    | search job' =>
      obtain rfl : job' = job := Option.some.inj hjob
      rfl
    | cancel => exact absurd hjob (by simp [WorkerPhase.job, commandJob])

/-- The job that a command replaces was submitted before the command. -/
theorem Traced.replaced (h : s.Traced) {job : SearchPageJob Q} (hjob : job ∈ s.worker.job)
    (hqueue : s.queue ≠ []) : Record.Superseded s.history job.id := by
  obtain ⟨consumed, hhistory, hworker⟩ := h.consumed
  obtain ⟨before, after, hconsumed⟩ := List.append_of_mem (hworker job hjob)
  refine ⟨before, job.request.generation, after ++ s.pending, ?_, ?_⟩
  · rw [hhistory, hconsumed, List.append_assoc]
    rfl
  · refine List.append_ne_nil_of_right_ne_nil _ (List.append_ne_nil_of_left_ne_nil ?_ _)
    exact fun hnil => hqueue (List.map_eq_nil_iff.1 hnil)

/-- The worker goes on with the job that it holds. -/
theorem Traced.consumed_of_job (h : s.Traced) (worker : WorkerPhase Q R)
    (hworker : ∀ job ∈ worker.job, job ∈ s.worker.job) :
    ∃ consumed, s.history = consumed ++ s.pending ∧
      ∀ job ∈ worker.job, job.record ∈ consumed := by
  obtain ⟨consumed, hhistory, hjobs⟩ := h.consumed
  exact ⟨consumed, hhistory, fun job hjob => hjobs job (hworker job hjob)⟩

theorem Moves.traced (h : s.Moves event s') (hs : s.Traced) : s'.Traced := by
  cases h with
  | submit request hcall => exact hs.call hcall (.submitting ⟨s.nextId, request⟩)
  | @install job hcall =>
    refine ⟨?_, ?_, hs.cancelled, hs.dropped, hs.flagged, hs.responses⟩
    · obtain ⟨consumed, hhistory, hworker⟩ := hs.consumed
      rw [pending, hcall] at hhistory
      exact ⟨consumed, hhistory, hworker⟩
    · intro id hid
      obtain rfl : job.id = id := Option.some.inj hid
      exact ⟨job.request.generation, hs.called hcall⟩
  | send hcall => exact hs.send hcall rfl
  | cancel hcall => exact hs.call hcall .cancelling
  | sendCancel hcall => exact hs.send hcall rfl
  | receive hworker hqueue => exact hs.take hqueue
  | @drain latest command queue hworker hqueue =>
    have htaken := hs.take hqueue
    refine ⟨htaken.consumed, hs.active, hs.cancelled, ?_, hs.flagged, hs.responses⟩
    intro id hid
    rcases List.mem_append.1 hid with hid | hid
    · exact hs.dropped id hid
    · obtain ⟨job, hjob, rfl⟩ := Option.map_eq_some_iff.1 (Option.mem_toList.1 hid)
      have hheld : job ∈ s.worker.job := by
        rw [hworker]
        exact hjob
      exact hs.replaced hheld (by simp [hqueue])
  | drainedNone hworker hqueue =>
    refine ⟨hs.consumed_of_job .receiving ?_, hs.active, hs.cancelled, hs.dropped,
      hs.flagged, hs.responses⟩
    exact fun job hjob => absurd hjob (by simp [WorkerPhase.job])
  | @drained job hworker hqueue =>
    refine ⟨hs.consumed_of_job (.preparing job) ?_, hs.active, hs.cancelled, hs.dropped,
      ?_, hs.responses⟩
    · rw [hworker]
      exact fun _ hjob => hjob
    · intro id hid
      rcases List.mem_append.1 hid with hid | hid
      · exact hs.flagged id hid
      · -- the flag was set before the preparation
        have hpair := Prod.mk.inj (List.mem_singleton.1 hid)
        rw [hpair.1]
        exact hs.cancelled job.id (List.contains_iff_mem.1 hpair.2.symm)
  | @prepare job hworker result =>
    refine ⟨hs.consumed_of_job (.prepared job result) ?_, hs.active, hs.cancelled,
      hs.dropped, hs.flagged, hs.responses⟩
    rw [hworker]
    exact fun _ hjob => hjob
  | @clear job result hworker =>
    refine ⟨hs.consumed_of_job (.cleared job result) ?_, ?_, hs.cancelled,
      hs.dropped, hs.flagged, hs.responses⟩
    · rw [hworker]
      exact fun _ hjob => hjob
    · intro id hid
      refine hs.active id ?_
      by_cases hactive : s.activeCancel = some job.id
      · simp [hactive] at hid
      · simpa [hactive] using hid
  | @respond job result hworker =>
    refine ⟨hs.consumed_of_job .receiving ?_, hs.active, hs.cancelled, hs.dropped,
      hs.flagged, ?_⟩
    · exact fun job hjob => absurd hjob (by simp [WorkerPhase.job])
    · intro p hp
      rcases List.mem_append.1 hp with hp | hp
      · exact hs.responses p hp
      · obtain rfl := List.mem_singleton.1 hp
        have hheld : job ∈ s.worker.job := by
          rw [hworker]
          exact rfl
        exact hs.held hheld

/-! ## Preparations -/

/-- The worker prepares one job at a time, and answers only what it has prepared. -/
structure Prepares (s : SearchWorkerService Q R) : Prop where
  active : s.activePreparations = s.worker.preparations
  peak : s.peakActivePreparations ≤ 1
  begun : ∀ job ∈ s.worker.begun, ∃ flag, (job.id, flag) ∈ s.runs
  answered : ∀ p ∈ s.responses, ∃ flag, (p.1, flag) ∈ s.runs

theorem prepares_initial : (initial : SearchWorkerService Q R).Prepares where
  active := rfl
  peak := Nat.zero_le 1
  begun := fun _ hjob => absurd hjob (by simp [initial, WorkerPhase.begun])
  answered := fun _ hp => absurd hp List.not_mem_nil

theorem Moves.prepares (h : s.Moves event s') (hs : s.Prepares) : s'.Prepares := by
  obtain ⟨hactive, hpeak, hbegun, hanswered⟩ := hs
  cases h with
  | submit request hcall => exact ⟨hactive, hpeak, hbegun, hanswered⟩
  | install hcall => exact ⟨hactive, hpeak, hbegun, hanswered⟩
  | send hcall => exact ⟨hactive, hpeak, hbegun, hanswered⟩
  | cancel hcall => exact ⟨hactive, hpeak, hbegun, hanswered⟩
  | sendCancel hcall => exact ⟨hactive, hpeak, hbegun, hanswered⟩
  | receive hworker hqueue =>
    rw [hworker] at hactive
    refine ⟨hactive, hpeak, ?_, hanswered⟩
    exact fun _ hjob => absurd hjob (by simp [WorkerPhase.begun])
  | drain hworker hqueue =>
    rw [hworker] at hactive
    refine ⟨hactive, hpeak, ?_, hanswered⟩
    exact fun _ hjob => absurd hjob (by simp [WorkerPhase.begun])
  | drainedNone hworker hqueue =>
    rw [hworker] at hactive
    refine ⟨hactive, hpeak, ?_, hanswered⟩
    exact fun _ hjob => absurd hjob (by simp [WorkerPhase.begun])
  | @drained job hworker hqueue =>
    rw [hworker] at hactive
    have hidle : s.activePreparations = 0 := hactive
    refine ⟨?_, ?_, ?_, ?_⟩
    · -- Only here does a preparation begin, and the worker had none.
      show s.activePreparations + 1 = 1
      omega
    · show max s.peakActivePreparations (s.activePreparations + 1) ≤ 1
      omega
    · intro job' hjob
      obtain rfl : job = job' := Option.some.inj hjob
      exact ⟨s.cancelled.contains job.id, List.mem_concat_self⟩
    · intro p hp
      obtain ⟨flag, hflag⟩ := hanswered p hp
      exact ⟨flag, List.mem_append_left _ hflag⟩
  | @prepare job hworker result =>
    rw [hworker] at hactive hbegun
    have hone : s.activePreparations = 1 := hactive
    refine ⟨?_, hpeak, hbegun, hanswered⟩
    show s.activePreparations - 1 = 0
    omega
  | clear hworker =>
    rw [hworker] at hactive hbegun
    exact ⟨hactive, hpeak, hbegun, hanswered⟩
  | @respond job result hworker =>
    rw [hworker] at hactive hbegun
    refine ⟨hactive, hpeak, ?_, ?_⟩
    · exact fun _ hjob => absurd hjob (by simp [WorkerPhase.begun])
    · intro p hp
      rcases List.mem_append.1 hp with hp | hp
      · exact hanswered p hp
      · obtain rfl := List.mem_singleton.1 hp
        exact hbegun job rfl

/-! ## The end of the work -/

/-- How many steps are left when no further call is made. -/
def work (s : SearchWorkerService Q R) : Nat :=
  6 * s.queue.length + s.worker.work + ((s.call.map ServiceCall.work).getD 0)

/-- Nothing is left to do. -/
def Quiet (s : SearchWorkerService Q R) : Prop :=
  s.call = none ∧ s.queue = [] ∧ s.worker = .receiving

theorem Moves.work_lt (h : s.Moves event s') (hevent : event.isCall = false) :
    s'.work < s.work := by
  cases h with
  | submit request hcall => exact absurd hevent (by simp [ServiceEvent.isCall])
  | cancel hcall => exact absurd hevent (by simp [ServiceEvent.isCall])
  | install hcall => simp [SearchWorkerService.work, hcall, ServiceCall.work]
  | send hcall =>
    simp [SearchWorkerService.work, hcall, ServiceCall.work]
    omega
  | sendCancel hcall =>
    simp [SearchWorkerService.work, hcall, ServiceCall.work]
    omega
  | receive hworker hqueue =>
    simp [SearchWorkerService.work, hworker, hqueue, WorkerPhase.work]
    omega
  | drain hworker hqueue =>
    simp [SearchWorkerService.work, SearchWorkerService.drop, hworker, hqueue, WorkerPhase.work]
  | drainedNone hworker hqueue =>
    simp [SearchWorkerService.work, hworker, WorkerPhase.work]
  | drained hworker hqueue =>
    simp [SearchWorkerService.work, beginPreparation, hworker, WorkerPhase.work]
  | prepare hworker result => simp [SearchWorkerService.work, hworker, WorkerPhase.work]
  | clear hworker => simp [SearchWorkerService.work, hworker, WorkerPhase.work]
  | respond hworker => simp [SearchWorkerService.work, hworker, WorkerPhase.work]

/-- While something is left to do, some step does it. -/
theorem quiet_or_step (s : SearchWorkerService Q R) :
    s.Quiet ∨ ∃ event s', event.isCall = false ∧ s.step event = some s' := by
  cases hcall : s.call with
  | some call =>
    right
    cases call with
    | submitting job => exact ⟨.install, _, rfl, by simp only [step, hcall]; rfl⟩
    | installed job => exact ⟨.send, _, rfl, by simp only [step, hcall]; rfl⟩
    | cancelling => exact ⟨.sendCancel, _, rfl, by simp only [step, hcall]; rfl⟩
  | none =>
    cases hworker : s.worker with
    | receiving =>
      cases hqueue : s.queue with
      | nil => exact Or.inl ⟨hcall, hqueue, hworker⟩
      | cons command queue =>
        exact Or.inr ⟨.receive, _, rfl, by simp only [step, hworker, hqueue]; rfl⟩
    | draining latest =>
      right
      cases hqueue : s.queue with
      | cons command queue => exact ⟨.drain, _, rfl, by simp only [step, hworker, hqueue]; rfl⟩
      | nil =>
        cases latest with
        | none => exact ⟨.drained, _, rfl, by simp only [step, hworker, hqueue]; rfl⟩
        | some job => exact ⟨.drained, _, rfl, by simp only [step, hworker, hqueue]; rfl⟩
    | preparing job =>
      exact Or.inr ⟨.prepare (.error []), _, rfl, by simp only [step, hworker]; rfl⟩
    | prepared job result => exact Or.inr ⟨.clear, _, rfl, by simp only [step, hworker]; rfl⟩
    | cleared job result => exact Or.inr ⟨.respond, _, rfl, by simp only [step, hworker]; rfl⟩

/-- Without further calls every run ends. -/
theorem length_add_work_le {later : List (SearchWorkerService Q R × ServiceEvent Q R)}
    (h : Run (Steps step) s later s') (hlater : ∀ p ∈ later, p.2.isCall = false) :
    later.length + s'.work ≤ s.work := by
  induction h with
  | nil => exact (Nat.zero_add _).le
  | @snoc trace t e u _ hlast ih =>
    have hearlier := ih fun p hp => hlater p (List.mem_append_left _ hp)
    have hevent := hlater (t, e) (List.mem_append_right _ (List.mem_singleton_self _))
    have hless := (moves_of_step hlast).work_lt hevent
    rw [List.length_append, List.length_singleton]
    omega

/-! ## Every run -/

/-- **What the calls have come to.** One request is prepared at a time; each is answered at most
once, under its own generation; one that is dropped was superseded by a later call; and the newest
is never cancelled and is answered once the service is quiet, which it is after finitely many steps
without further calls. Some step is always possible until then. -/
structure Serves (s : SearchWorkerService Q R) : Prop where
  onePreparation : s.activePreparations ≤ 1 ∧ s.peakActivePreparations ≤ 1
  /-- no two requests bear one number -/
  numbered : (s.history.filterMap Record.submitted).Nodup
  answeredOnce : (s.responses.map Prod.fst).Nodup
  ownGeneration : ∀ id response, (id, response) ∈ s.responses →
    .submit id response.generation ∈ s.history
  droppedUnanswered : ∀ id ∈ s.dropped, id ∉ s.responses.map Prod.fst
  droppedSuperseded : ∀ id ∈ s.dropped, Record.Superseded s.history id
  /-- the flag of the newest request is never set, before its preparation or during it -/
  newestUncancelled : ∀ id generation, s.history.getLast? = some (.submit id generation) →
    id ∉ s.cancelled ∧ (id, true) ∉ s.runs
  newestAnswered : s.Quiet → ∀ id generation,
    s.history.getLast? = some (.submit id generation) →
      (id, false) ∈ s.runs ∧ ∃ response, (id, response) ∈ s.responses ∧
        response.generation = generation
  /-- without further calls the service is quiet after so many steps -/
  ends : ∀ later s', Run (Steps step) s later s' → (∀ p ∈ later, p.2.isCall = false) →
    later.length + s'.work ≤ s.work
  goesOn : s.Quiet ∨ ∃ event s', event.isCall = false ∧ s.step event = some s'

/-- The invariants of a run. -/
theorem invariants_of_run {trace : List (SearchWorkerService Q R × ServiceEvent Q R)}
    (h : Run (Steps step) initial trace s) : s.Accounted ∧ s.Traced ∧ s.Prepares := by
  have hinitial : (initial : SearchWorkerService Q R).Accounted ∧
      (initial : SearchWorkerService Q R).Traced ∧ (initial : SearchWorkerService Q R).Prepares :=
    ⟨accounted_initial, traced_initial, prepares_initial⟩
  refine h.invariant (I := fun s => s.Accounted ∧ s.Traced ∧ s.Prepares) ?_ hinitial
  rintro t event u ⟨haccounted, htraced, hprepares⟩ hstep
  have hmoves := moves_of_step hstep
  exact ⟨hmoves.accounted haccounted, hmoves.traced htraced, hmoves.prepares hprepares⟩

/-- A request that was made is somewhere. -/
theorem Accounted.answered_or_dropped (h : s.Accounted) (hquiet : s.Quiet) {id generation : Nat}
    (hid : .submit id generation ∈ s.history) :
    id ∈ s.responses.map Prod.fst ∨ id ∈ s.dropped := by
  obtain ⟨hcall, hqueue, hworker⟩ := hquiet
  have hnumber : id ∈ List.range s.nextId := by
    rw [← h.submitted]
    exact List.mem_filterMap.2 ⟨_, hid, rfl⟩
  have hplace : 0 < s.places.count id := by
    rw [h.places]
    exact List.count_pos_iff.2 hnumber
  have hmem := List.count_pos_iff.1 hplace
  rw [SearchWorkerService.places, hcall, hqueue, hworker] at hmem
  exact List.mem_append.1 hmem

theorem serves_of_invariants (haccounted : s.Accounted) (htraced : s.Traced)
    (hprepares : s.Prepares) : s.Serves := by
  have hids : (s.history.filterMap Record.submitted).Nodup := by
    rw [haccounted.submitted]
    exact List.nodup_range
  -- An identifier is in one place at most, as each was given out once.
  have hplaces : s.places.Nodup := by
    refine List.nodup_iff_count_le_one.2 fun id => ?_
    rw [haccounted.places]
    exact List.nodup_iff_count_le_one.1 List.nodup_range id
  have hends := (List.nodup_append.1 hplaces).1
  constructor
  case onePreparation =>
    refine ⟨?_, hprepares.peak⟩
    rw [hprepares.active]
    exact s.worker.preparations_le_one
  case numbered => exact hids
  case answeredOnce => exact (List.nodup_append.1 hends).2.1
  case ownGeneration => exact fun id response hp => htraced.responses (id, response) hp
  case droppedUnanswered =>
    intro id hdropped hanswered
    have hplace := List.mem_append_right (jobId (s.call.bind ServiceCall.job) ++
      queued s.queue ++ jobId s.worker.job) hanswered
    exact (List.nodup_append.1 hplaces).2.2 id hplace id hdropped rfl
  case droppedSuperseded => exact htraced.dropped
  case newestUncancelled =>
    intro id generation hlast
    have hnewest := Record.not_superseded_of_last hids hlast
    exact ⟨fun hid => hnewest (htraced.cancelled id hid),
      fun hid => hnewest (htraced.flagged id hid)⟩
  case newestAnswered =>
    intro hquiet id generation hlast
    have hnewest := Record.not_superseded_of_last hids hlast
    have hmem : Record.submit id generation ∈ s.history := List.mem_of_getLast? hlast
    -- Where nothing is under way the newest request has been answered or dropped, and only a
    -- superseded one is dropped.
    have hplace := haccounted.answered_or_dropped hquiet hmem
    have hanswered := hplace.resolve_right fun hid => hnewest (htraced.dropped id hid)
    obtain ⟨⟨id', response⟩, hresponse, rfl⟩ := List.mem_map.1 hanswered
    refine ⟨?_, response, hresponse, ?_⟩
    · obtain ⟨flag, hflag⟩ := hprepares.answered _ hresponse
      cases flag with
      | false => exact hflag
      | true => exact absurd (htraced.flagged _ hflag) hnewest
    · exact Record.generation_unique hids hmem (htraced.responses _ hresponse)
  case ends => exact fun later s' hlater => length_add_work_le hlater
  case goesOn => exact s.quiet_or_step

end SearchWorkerService

/-! ## The user interface -/

namespace SearchWindow

variable {D : Type} {w w' : SearchWindow D} {event : SearchEvent D}

/-- No request is newer than the search bar, and neither is the generation `bound`. -/
structure Newest (bound : Nat) (w : SearchWindow D) : Prop where
  bound : bound ≤ w.barGeneration
  room : w.barGeneration ≤ u64Max
  requests : ∀ request ∈ w.requests, request.generation ≤ w.barGeneration

namespace Newest

variable {bound : Nat}

theorem self (h : Newest bound w) : Newest w.barGeneration w where
  bound := Nat.le_refl _
  room := h.room
  requests := h.requests

/-- What leaves the search bar alone, and asks for no page. -/
theorem of_eq (h : Newest bound w) (hbar : w'.barGeneration = w.barGeneration)
    (hrequests : ∀ request ∈ w'.requests, request ∈ w.requests) : Newest bound w' where
  bound := hbar ▸ h.bound
  room := hbar ▸ h.room
  requests := fun request hrequest => hbar ▸ h.requests request (hrequests request hrequest)

theorem beginSearch (h : Newest bound w) : Newest bound w.beginSearch := by
  have hle : w.barGeneration ≤ saturatingSucc w.barGeneration := le_saturatingSucc h.room
  refine ⟨h.bound.trans hle, saturatingSucc_le, ?_⟩
  exact fun request hrequest => (h.requests request hrequest).trans hle

theorem cancelSearch (h : Newest bound w) : Newest bound w.cancelSearch := by
  have hle : w.barGeneration ≤ saturatingSucc w.barGeneration := le_saturatingSucc h.room
  refine ⟨h.bound.trans hle, saturatingSucc_le, ?_⟩
  exact fun request hrequest => (h.requests request hrequest).trans hle

theorem launchRequest (h : Newest bound w) (purpose : PagePurpose) (query : Str) (offset : Nat) :
    Newest bound (w.launchRequest purpose query offset) := by
  refine ⟨h.bound, h.room, ?_⟩
  intro request hrequest
  rcases List.mem_append.1 hrequest with hrequest | hrequest
  · exact h.requests request hrequest
  · obtain rfl := List.mem_singleton.1 hrequest
    exact Nat.le_refl _

theorem finishSearchActivity (h : Newest bound w) (generation : Nat) :
    Newest bound (w.finishSearchActivity generation) := by
  unfold SearchWindow.finishSearchActivity
  split
  · exact h.of_eq rfl fun _ hrequest => hrequest
  · exact h

theorem finishSearchError (h : Newest bound w) (error : Str) :
    Newest bound (w.finishSearchError error) := by
  unfold SearchWindow.finishSearchError
  dsimp only
  split
  · exact h.of_eq rfl fun _ hrequest => hrequest
  · exact h

theorem answerRequest (h : Newest bound w) {request : PageRequest} {answer : PageAnswer D}
    (hanswer : w.answerRequest request answer = some w') : Newest bound w' := by
  obtain ⟨generation, purpose, query, offset⟩ := request
  cases answer with
  | ok data selectedThreadId selectedIndex =>
    cases purpose with
    | search | containingIndex =>
      obtain rfl := Option.some.inj hanswer
      exact h.of_eq rfl fun _ hrequest => hrequest
    | more selectLastLoaded =>
      obtain rfl := Option.some.inj hanswer
      exact h.of_eq rfl fun _ hrequest => hrequest
  | error error =>
    obtain rfl := Option.some.inj hanswer
    exact (h.finishSearchActivity generation).finishSearchError error
  | stale =>
    cases purpose with
    | containingIndex =>
      obtain rfl := Option.some.inj hanswer
      exact h.finishSearchActivity generation
    | search | more selectLastLoaded => exact absurd hanswer (by simp [SearchWindow.answerRequest])

theorem step (h : Newest bound w) (hstep : w.step event = some w') : Newest bound w' := by
  cases event with
  | schedule query loading =>
    obtain rfl := Option.some.inj hstep
    have hshown : Newest bound (w.showLoading loading) := by
      cases loading with
      | none => exact h
      | some message => exact h.of_eq rfl fun _ hrequest => hrequest
    have hcancelled : Newest bound (w.showLoading loading).cancelModelUpdate :=
      hshown.of_eq rfl fun _ hrequest => hrequest
    exact hcancelled.beginSearch.launchRequest .search query 0
  | inputCleared syncInProgress syncRefreshing =>
    obtain rfl := Option.some.inj hstep
    have hcleared : Newest bound { w with reserved := none } :=
      h.of_eq rfl fun _ hrequest => hrequest
    have hcancelled : Newest bound
        (SearchWindow.cancelModelUpdate { w with reserved := none }) :=
      h.of_eq rfl fun _ hrequest => hrequest
    -- Clearing the input either goes back to the default search or only cancels the one under way.
    unfold SearchWindow.clearInput
    dsimp only
    split
    · exact hcleared
    · split
      · exact hcancelled.cancelSearch.beginSearch.launchRequest _ _ _
      · exact hcancelled.cancelSearch
  | inputReserved query =>
    obtain rfl := Option.some.inj hstep
    have hcancelled : Newest bound w.cancelModelUpdate :=
      h.of_eq rfl fun _ hrequest => hrequest
    exact hcancelled.beginSearch.of_eq rfl fun _ hrequest => hrequest
  | inputDispatched =>
    simp only [SearchWindow.step, dispatchInput] at hstep
    split at hstep
    · exact absurd hstep (by simp)
    · have hcleared : Newest bound { w with reserved := none } :=
        h.of_eq rfl fun _ hrequest => hrequest
      split at hstep
      · obtain rfl := Option.some.inj hstep
        exact hcleared.launchRequest _ _ _
      · obtain rfl := Option.some.inj hstep
        exact hcleared
  | loadMore selectLastLoaded =>
    obtain rfl := Option.some.inj hstep
    unfold loadMoreThreads
    split
    · exact h
    · exact h
    · exact h.beginSearch.launchRequest _ _ _
  | loadPage offset =>
    obtain rfl := Option.some.inj hstep
    unfold SearchWindow.loadPage
    split
    · exact h
    · exact h.beginSearch.launchRequest _ _ _
  | respond k answer =>
    simp only [SearchWindow.step, respond] at hstep
    split at hstep
    · exact absurd hstep (by simp)
    · have herased : Newest bound { w with requests := w.requests.eraseIdx k } :=
        h.of_eq rfl fun _ hrequest => List.mem_of_mem_eraseIdx hrequest
      split at hstep
      · exact herased.answerRequest hstep
      · obtain rfl := Option.some.inj hstep
        exact herased
  | tagOperation refresh =>
    cases refresh with
    | none =>
      obtain rfl := Option.some.inj hstep
      exact h.cancelSearch
    | some query =>
      obtain rfl := Option.some.inj hstep
      have hcancelled : Newest bound w.cancelSearch.cancelModelUpdate :=
        h.cancelSearch.of_eq rfl fun _ hrequest => hrequest
      exact hcancelled.beginSearch.launchRequest .search query 0
  | removeThread threadId =>
    obtain rfl := Option.some.inj hstep
    exact h.of_eq rfl fun _ hrequest => hrequest
  | applySettings display pageSize =>
    obtain rfl := Option.some.inj hstep
    exact h.of_eq rfl fun _ hrequest => hrequest
  | setDisplay display =>
    obtain rfl := Option.some.inj hstep
    exact h.of_eq rfl fun _ hrequest => hrequest
  | refreshRows indices force =>
    obtain rfl := Option.some.inj hstep
    exact h.of_eq rfl fun _ hrequest => hrequest
  | idle k =>
    obtain ⟨result, -, rfl⟩ := Option.map_eq_some_iff.1 hstep
    have hlist : Newest bound { w with list := result.1 } :=
      h.of_eq rfl fun _ hrequest => hrequest
    dsimp only
    split
    · exact hlist
    · exact hlist.finishSearchActivity _

end Newest

/-- The search bar bears the newest generation that the run has reserved. -/
theorem newest_of_run {query : Str} {pageSize : Nat} {display : ThreadListDisplay} {loading : Str}
    {trace : List (SearchWindow D × SearchEvent D)}
    (h : Run (Steps step) (launch query pageSize display loading) trace w) :
    Newest 0 w ∧ ∀ p ∈ trace, p.1.barGeneration ≤ w.barGeneration := by
  induction h with
  | nil =>
    refine ⟨⟨Nat.zero_le _, Nat.zero_le _, ?_⟩, ?_⟩
    · exact fun request hrequest => absurd hrequest List.not_mem_nil
    · exact fun p hp => absurd hp List.not_mem_nil
  | @snoc trace t event u _ hlast ih =>
    obtain ⟨hnewest, hbefore⟩ := ih
    have hnext : Newest t.barGeneration u := hnewest.self.step hlast
    refine ⟨hnewest.step hlast, ?_⟩
    intro p hp
    rcases List.mem_append.1 hp with hp | hp
    · exact (hbefore p hp).trans hnext.bound
    · obtain rfl := List.mem_singleton.1 hp
      exact hnext.bound

/-- A response of another generation is passed over. -/
theorem respond_of_older {k : Nat} {request : PageRequest}
    (hrequest : w.requests[k]? = some request)
    (hgeneration : request.generation ≠ w.barGeneration) (answer : PageAnswer D) :
    w.respond k answer = some { w with requests := w.requests.eraseIdx k } := by
  have haccepts : SearchWindow.accepts { w with requests := w.requests.eraseIdx k } request =
      false := by
    simp [accepts, Ne.symm hgeneration]
  simp only [respond, hrequest, haccepts, Bool.false_eq_true, if_false]

end SearchWindow

/-! ## Both sides -/

namespace SearchWorkerService

variable {Q R D : Type}

/-- **Requests are served, and the newest is shown.** Whatever the order of the calls and of the
worker's steps, the requests are served as `Serves` says; and the main window takes no response but
one to a request of the newest generation that it has reserved. -/
theorem requests_served_and_newest_applied {s : SearchWorkerService Q R}
    {trace : List (SearchWorkerService Q R × ServiceEvent Q R)}
    (hservice : Run (Steps step) initial trace s)
    {query : Str} {pageSize : Nat} {display : ThreadListDisplay} {loading : Str}
    {w : SearchWindow D} {windowTrace : List (SearchWindow D × SearchEvent D)}
    (hwindow : Run (Steps SearchWindow.step) (.launch query pageSize display loading) windowTrace
      w) :
    s.Serves ∧ (∀ p ∈ windowTrace, p.1.barGeneration ≤ w.barGeneration) ∧
      (∀ request ∈ w.requests, request.generation ≤ w.barGeneration) ∧
      ∀ k request, w.requests[k]? = some request → request.generation ≠ w.barGeneration →
        ∀ answer, w.respond k answer = some { w with requests := w.requests.eraseIdx k } := by
  obtain ⟨haccounted, htraced, hprepares⟩ := invariants_of_run hservice
  obtain ⟨hnewest, hbefore⟩ := SearchWindow.newest_of_run hwindow
  refine ⟨serves_of_invariants haccounted htraced hprepares, hbefore, hnewest.requests, ?_⟩
  intro k request hrequest hgeneration answer
  exact SearchWindow.respond_of_older hrequest hgeneration answer

/-- A second request is made while the worker has the first. -/
def secondWhileDraining : List (ServiceEvent Unit Unit) :=
  [.submit ⟨1, true, ()⟩, .install, .send, .receive, .submit ⟨2, true, ()⟩, .drained, .install,
    .prepare (.error []), .send, .clear, .respond, .receive, .drained, .prepare (.ok ()), .clear,
    .respond]

/-- The first request is superseded when its preparation begins, and still answered; the second is
answered after it. The window has asked for two pages and passes over the first. -/
theorem second_request_served :
    ∃ (s : SearchWorkerService Unit Unit) (w : SearchWindow Unit),
      exec step initial secondWhileDraining = some s ∧
        s.runs = [(0, true), (1, false)] ∧
        s.responses.map (fun p => (p.1, p.2.generation)) = [(0, 1), (1, 2)] ∧ s.Serves ∧
        exec SearchWindow.step SearchWindow.started [.schedule [] none, .schedule [] none] =
          some w ∧
        w.respond 0 .stale = some { w with requests := w.requests.eraseIdx 0 } := by
  refine ⟨_, _, rfl, rfl, rfl, ?_, rfl, ?_⟩
  · have hwindow : Run (Steps SearchWindow.step) SearchWindow.started [] SearchWindow.started :=
      .nil
    exact (requests_served_and_newest_applied (run_of_exec secondWhileDraining rfl) hwindow).1
  · have hservice : Run (Steps step) (initial : SearchWorkerService Unit Unit) [] initial := .nil
    refine (requests_served_and_newest_applied hservice
      (run_of_exec [.schedule [] none, .schedule [] none] rfl)).2.2.2 0 _ rfl ?_ .stale
    decide

end SearchWorkerService

end Notm.Ui
