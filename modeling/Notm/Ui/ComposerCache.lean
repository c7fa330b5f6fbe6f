import Notm.Lib.Calls
import Notm.Lib.Transition
import Notm.Ui.ComposerCacheRun

/-!
# The composer's attachment cache

`ComposerAttachmentCacheService`: a slot for the newest job, a worker that is woken to take it,
and the leases on what the worker has cached. The calls of the user interface are cut into the
steps between which the worker can run.

* `CacheCall` — a call of the user interface, cut into the steps between which the worker can run.
* `CacheWorker` — where the worker is, with the run of its request.
* `ComposerCache`, `CacheEvent` and `step` — the service as a transition system.
-/

namespace Notm.Ui

open Rust Calls

/-- A call of the user interface that has not returned. -/
inductive CacheCall where
  /-- the flag of the request before has been set -/
  | submitting (job : ComposerAttachmentCacheJob)
  /-- the flag of this request is the active one -/
  | activated (job : ComposerAttachmentCacheJob)
  /-- the job is in the slot -/
  | placed
  /-- the active flag has been set -/
  | cancelling
deriving DecidableEq, Repr

/-- Where the worker thread is in `composer_attachment_cache_worker`. -/
inductive CacheWorker where
  | receiving
  /-- about to look into the slot -/
  | looping
  | running (run : CacheRun) (stage : RunStage)
  | prepared (job : ComposerAttachmentCacheJob) (result : Except Str ComposerAttachmentCacheLease)
  /-- the active flag is no longer that of the job -/
  | cleared (job : ComposerAttachmentCacheJob) (result : Except Str ComposerAttachmentCacheLease)

structure ComposerAttachmentCacheResponse where
  generation : Nat
  result : Except Str ComposerAttachmentCacheLease

/-- The service, its worker, the leases that are out and the files. Of the metrics only the
preparations are kept. -/
structure ComposerCache where
  call : Option CacheCall
  nextId : Nat
  /-- the generation of the active request, and the number of its flag -/
  active : Option (Nat × Nat)
  /-- the flags that are set -/
  cancelled : List Nat
  pending : Option ComposerAttachmentCacheJob
  /-- a wake is in the channel, which holds one -/
  wake : Bool
  worker : CacheWorker
  activePreparations : Nat
  peakActivePreparations : Nat
  /-- the preparations that have begun -/
  runs : List Nat
  /-- what has been sent, by channel -/
  responses : List (Nat × ComposerAttachmentCacheResponse)
  /-- the channels that were closed without a response -/
  dropped : List Nat
  history : List Record
  files : List CacheFile
  leases : List (Nat × ComposerAttachmentCacheLease)
  /-- the requests whose files the composer has taken over -/
  committed : List Nat
  /-- the requests one of whose directories could not be removed -/
  leftBehind : List Nat

inductive CacheEvent where
  | submit (request : ComposerAttachmentCacheRequest)
  | activate
  | place
  | wake
  | cancel
  | cancelPending
  /-- the worker is woken -/
  | receive
  /-- the worker looks into the slot -/
  | take
  | run (event : RunEvent)
  | clear
  | respond
  /-- a lease is dropped: by the composer, or with the receiver of its response -/
  | dropLease (id : Nat) (removal : Removal)
  | commitLease (id : Nat)
  /-- whatever is not in the directory of a request is replaced -/
  | others (files : List (CachePath × Option Bytes))

namespace CacheEvent

/-- The user interface makes a call. -/
def isCall : CacheEvent → Bool
  | submit _ | cancel => true
  | activate | place | wake | cancelPending | receive | take | run _ | clear | respond
  | dropLease _ _ | commitLease _ | others _ => false

/-- A step of the worker, or the rest of a call. -/
def isWork : CacheEvent → Bool
  | activate | place | wake | cancelPending | receive | take | run _ | clear | respond => true
  | submit _ | cancel | dropLease _ _ | commitLease _ | others _ => false

end CacheEvent

namespace CacheWorker

/-- The directory that the worker's request owns. -/
def owner : CacheWorker → Option (Nat × CachePath)
  | running run _ => run.ownedDirectory.map fun directory => (run.job.id, directory)
  | prepared job (.ok lease) | cleared job (.ok lease) =>
    lease.ownedDirectory.map fun directory => (job.id, directory)
  | _ => none

end CacheWorker

namespace ComposerCache

/-- Files that no request made. -/
def userFiles (files : List (CachePath × Option Bytes)) : List CacheFile :=
  files.map fun file => ⟨file.1, none, file.2⟩

def initial (files : List (CachePath × Option Bytes)) : ComposerCache where
  call := none
  nextId := 0
  active := none
  cancelled := []
  pending := none
  wake := false
  worker := .receiving
  activePreparations := 0
  peakActivePreparations := 0
  runs := []
  responses := []
  dropped := []
  history := []
  files := userFiles files
  leases := []
  committed := []
  leftBehind := []

/-! ## The calls of the user interface -/

/-- `cancel_active_composer_cache`. -/
def cancelActive (s : ComposerCache) : ComposerCache :=
  { s with active := none, cancelled := s.cancelled ++ (s.active.map Prod.snd).toList }

/-- `submit`, up to the new flag. -/
def submit (s : ComposerCache) (request : ComposerAttachmentCacheRequest) : ComposerCache :=
  { s.cancelActive with
    call := some (.submitting ⟨s.nextId, request⟩)
    nextId := s.nextId + 1
    history := s.history ++ [.submit s.nextId request.generation] }

/-- `cancel`, up to its look into the slot. -/
def cancel (s : ComposerCache) : ComposerCache :=
  { s.cancelActive with call := some .cancelling, history := s.history ++ [.cancel] }

/-- The job in the slot is replaced, and closes its channel. -/
def replacePending (s : ComposerCache) (job : Option ComposerAttachmentCacheJob) :
    ComposerCache :=
  { s with
    pending := job
    dropped := s.dropped ++ (s.pending.map ComposerAttachmentCacheJob.id).toList }

/-! ## The worker -/

/-- `begin_preparation`. -/
def beginPreparation (s : ComposerCache) (job : ComposerAttachmentCacheJob) : ComposerCache :=
  { s with
    pending := none
    worker := .running (.begin job) .start
    activePreparations := s.activePreparations + 1
    peakActivePreparations := max s.peakActivePreparations (s.activePreparations + 1)
    runs := s.runs ++ [job.id] }

/-- What a step of the run has done to the files. -/
def withFiles (s : ComposerCache) (id : Nat) (outcome : RunOutcome) : ComposerCache :=
  { s with
    files := outcome.files
    leftBehind := s.leftBehind ++ if outcome.leftBehind then [id] else [] }

/-- The run goes on, or ends with `finish_preparation`. -/
def withProgress (s : ComposerCache) (job : ComposerAttachmentCacheJob) :
    RunProgress → ComposerCache
  | .going run stage => { s with worker := .running run stage }
  | .done result =>
    { s with worker := .prepared job result, activePreparations := s.activePreparations - 1 }

/-- `clear_active_composer_cache`. -/
def clearActive (s : ComposerCache) (job : ComposerAttachmentCacheJob) : ComposerCache :=
  { s with
    active := if s.active = some (job.request.generation, job.id) then none else s.active }

/-- The response is sent, and a lease with it. -/
def respond (s : ComposerCache) (job : ComposerAttachmentCacheJob)
    (result : Except Str ComposerAttachmentCacheLease) : ComposerCache :=
  { s with
    worker := .looping
    responses := s.responses ++ [(job.id, ⟨job.request.generation, result⟩)]
    leases := s.leases ++ (result.toOption.map fun lease => (job.id, lease)).toList }

/-! ## Leases -/

/-- The directories that requests own. -/
def owners (s : ComposerCache) : List (Nat × CachePath) :=
  s.worker.owner.toList ++
    s.leases.filterMap fun lease => lease.2.ownedDirectory.map fun directory =>
      (lease.1, directory)

/-- Without the leases of a request. -/
def withoutLease (s : ComposerCache) (id : Nat) : ComposerCache :=
  { s with leases := s.leases.filter fun lease => lease.1 != id }

/-- `ComposerAttachmentCacheLease::drop`. -/
def dropLease (s : ComposerCache) (id : Nat) (lease : ComposerAttachmentCacheLease)
    (removal : Removal) : ComposerCache :=
  match lease.ownedDirectory with
  | none => s.withoutLease id
  | some directory =>
    { s.withoutLease id with
      files := CacheFile.removeDirAll s.files directory removal
      leftBehind := s.leftBehind ++
        match removal with
        | .removed => []
        | .failed _ _ => [id] }

/-- What is in the directories of the requests. -/
def ownedFiles (s : ComposerCache) : List CacheFile :=
  s.files.filter fun entry =>
    s.owners.any fun owner => decide (owner.2 <+: entry.path)

/-- The steps; the requests have their directories in `root`. -/
def step (root : CachePath) (s : ComposerCache) : CacheEvent → Option ComposerCache
  | .submit request =>
    match s.call with
    | none => some (s.submit request)
    | some _ => none
  | .activate =>
    match s.call with
    | some (.submitting job) =>
      some { s with call := some (.activated job), active := some (job.request.generation, job.id) }
    | _ => none
  | .place =>
    match s.call with
    | some (.activated job) => some { s.replacePending (some job) with call := some .placed }
    | _ => none
  | .wake =>
    match s.call with
    -- a full channel holds a wake already
    | some .placed => some { s with call := none, wake := true }
    | _ => none
  | .cancel =>
    match s.call with
    | none => some s.cancel
    | some _ => none
  | .cancelPending =>
    match s.call with
    | some .cancelling => some { s.replacePending none with call := none }
    | _ => none
  | .receive =>
    match s.worker, s.wake with
    | .receiving, true => some { s with worker := .looping, wake := false }
    | _, _ => none
  | .take =>
    match s.worker, s.pending with
    | .looping, some job => some (s.beginPreparation job)
    | .looping, none => some { s with worker := .receiving }
    | _, _ => none
  | .run event =>
    match s.worker with
    | .running run stage =>
      (run.step root s.files (s.cancelled.contains run.job.id) stage event).map fun outcome =>
        (s.withFiles run.job.id outcome).withProgress run.job outcome.progress
    | _ => none
  | .clear =>
    match s.worker with
    | .prepared job result => some { s.clearActive job with worker := .cleared job result }
    | _ => none
  | .respond =>
    match s.worker with
    | .cleared job result => some (s.respond job result)
    | _ => none
  | .dropLease id removal =>
    (s.leases.lookup id).map fun lease => s.dropLease id lease removal
  | .commitLease id =>
    (s.leases.lookup id).map fun _ => { s.withoutLease id with committed := s.committed ++ [id] }
  | .others files =>
    if files.any fun file => s.owners.any fun owner => decide (owner.2 <+: file.1) then none
    else some { s with files := s.ownedFiles ++ userFiles files }

end ComposerCache

end Notm.Ui
