import Notm.Lib.Calls
import Notm.Lib.Transition
import Notm.Ui.ThreadListSearch

/-!
# The search worker

`SearchWorkerService`: the user interface sends the pages it wants to one worker thread, which
prepares the latest of those that have come in and passes over the others. A cancellation goes by
a command, and by a flag that the preparation looks at.

The calls of the user interface are cut into the steps between which the worker can run: the flag
of the request before is set, the new flag is installed, the command is sent. A flag and the
channel for the response are made together, and bear one number.

* `ServiceCall` — a call of the user interface, cut into the steps between which the worker can run.
* `WorkerPhase` — where the worker is.
* `SearchWorkerService`, `ServiceEvent` and `step` — the service as a transition system.
-/

namespace Notm.Ui

open Rust Calls

/-- `SearchPageRequest`. What the preparation alone reads is `Q`. -/
structure SearchPageRequest (Q : Type) where
  generation : Nat
  selectFirst : Bool
  page : Q
deriving DecidableEq, Repr

/-- `SearchPageJob`, with the number of its flag and of its response channel. -/
structure SearchPageJob (Q : Type) where
  id : Nat
  request : SearchPageRequest Q
deriving DecidableEq, Repr

/-- What the service sends to its worker. -/
inductive SearchWorkerCommand (Q : Type) where
  | search (job : SearchPageJob Q)
  | cancel
deriving DecidableEq, Repr

/-- The answer to one request, with the generation that it was made for. -/
structure SearchPageResponse (R : Type) where
  generation : Nat
  selectFirst : Bool
  result : Except Str R

/-- A call of the user interface that has not returned. -/
inductive ServiceCall (Q : Type) where
  /-- the flag of the request before has been set -/
  | submitting (job : SearchPageJob Q)
  /-- the flag of this request is the active one -/
  | installed (job : SearchPageJob Q)
  /-- the active flag has been set -/
  | cancelling
deriving DecidableEq, Repr

/-- Where the worker thread is in `search_worker_loop`. -/
inductive WorkerPhase (Q R : Type) where
  | receiving
  /-- in `latest_search_job` -/
  | draining (latest : Option (SearchPageJob Q))
  | preparing (job : SearchPageJob Q)
  | prepared (job : SearchPageJob Q) (result : Except Str R)
  /-- the active flag is no longer that of the job -/
  | cleared (job : SearchPageJob Q) (result : Except Str R)

/-- `SearchWorkerService` and its worker. Of the metrics only the preparations are kept. -/
structure SearchWorkerService (Q R : Type) where
  call : Option (ServiceCall Q)
  nextId : Nat
  activeCancel : Option Nat
  /-- the flags that are set -/
  cancelled : List Nat
  queue : List (SearchWorkerCommand Q)
  worker : WorkerPhase Q R
  activePreparations : Nat
  peakActivePreparations : Nat
  /-- the preparations, with the flag as it was when they began -/
  runs : List (Nat × Bool)
  /-- what has been sent, by channel -/
  responses : List (Nat × SearchPageResponse R)
  /-- the channels that were closed without a response -/
  dropped : List Nat
  /-- the calls that have been made -/
  history : List Record

/-- The steps of the two calls and of the worker. Each call takes several, so that the worker's may
come between them. -/
inductive ServiceEvent (Q R : Type) where
  | submit (request : SearchPageRequest Q)
  | install
  | send
  | cancel
  | sendCancel
  /-- the worker takes a command that wakes it -/
  | receive
  /-- `try_iter` has another command -/
  | drain
  /-- `try_iter` has none -/
  | drained
  | prepare (result : Except Str R)
  | clear
  | respond

namespace ServiceEvent

variable {Q R : Type}

/-- The user interface makes a call. -/
def isCall : ServiceEvent Q R → Bool
  | submit _ | cancel => true
  | install | send | sendCancel | receive | drain | drained | prepare _ | clear | respond => false

end ServiceEvent

namespace SearchWorkerService

variable {Q R : Type}

/-- The worker waits, and nothing has been submitted. -/
def initial : SearchWorkerService Q R where
  call := none
  nextId := 0
  activeCancel := none
  cancelled := []
  queue := []
  worker := .receiving
  activePreparations := 0
  peakActivePreparations := 0
  runs := []
  responses := []
  dropped := []
  history := []

/-! ## The calls of the user interface -/

/-- `cancel_active`. -/
def cancelActive (s : SearchWorkerService Q R) : SearchWorkerService Q R :=
  { s with activeCancel := none, cancelled := s.cancelled ++ s.activeCancel.toList }

/-- `submit`, up to the new flag. -/
def submit (s : SearchWorkerService Q R) (request : SearchPageRequest Q) :
    SearchWorkerService Q R :=
  { s.cancelActive with
    call := some (.submitting ⟨s.nextId, request⟩)
    nextId := s.nextId + 1
    history := s.history ++ [.submit s.nextId request.generation] }

/-- `cancel`, up to its command. -/
def cancel (s : SearchWorkerService Q R) : SearchWorkerService Q R :=
  { s.cancelActive with call := some .cancelling, history := s.history ++ [.cancel] }

/-! ## The worker -/

/-- A job that is passed over closes its channel. -/
def drop (s : SearchWorkerService Q R) (job : Option (SearchPageJob Q)) :
    SearchWorkerService Q R :=
  { s with dropped := s.dropped ++ (job.map SearchPageJob.id).toList }

/-- The job of a command. -/
def commandJob : SearchWorkerCommand Q → Option (SearchPageJob Q)
  | .search job => some job
  | .cancel => none

/-- `begin_preparation`. -/
def beginPreparation (s : SearchWorkerService Q R) (job : SearchPageJob Q) :
    SearchWorkerService Q R :=
  { s with
    worker := .preparing job
    activePreparations := s.activePreparations + 1
    peakActivePreparations := max s.peakActivePreparations (s.activePreparations + 1)
    runs := s.runs ++ [(job.id, s.cancelled.contains job.id)] }

/-- A step that is not possible in a state is none. A call begins only when no other is under way.
-/
def step (s : SearchWorkerService Q R) : ServiceEvent Q R → Option (SearchWorkerService Q R)
  | .submit request =>
    match s.call with
    | none => some (s.submit request)
    | some _ => none
  | .install =>
    match s.call with
    | some (.submitting job) =>
      some { s with call := some (.installed job), activeCancel := some job.id }
    | _ => none
  | .send =>
    match s.call with
    | some (.installed job) => some { s with call := none, queue := s.queue ++ [.search job] }
    | _ => none
  | .cancel =>
    match s.call with
    | none => some s.cancel
    | some _ => none
  | .sendCancel =>
    match s.call with
    | some .cancelling => some { s with call := none, queue := s.queue ++ [.cancel] }
    | _ => none
  | .receive =>
    match s.worker, s.queue with
    | .receiving, command :: queue =>
      some { s with worker := .draining (commandJob command), queue }
    | _, _ => none
  | .drain =>
    match s.worker, s.queue with
    | .draining latest, command :: queue =>
      some { s.drop latest with worker := .draining (commandJob command), queue }
    | _, _ => none
  | .drained =>
    match s.worker, s.queue with
    | .draining none, [] => some { s with worker := .receiving }
    | .draining (some job), [] => some (s.beginPreparation job)
    | _, _ => none
  | .prepare result =>
    match s.worker with
    | .preparing job =>
      some
        { s with
          worker := .prepared job result
          activePreparations := s.activePreparations - 1 }
    | _ => none
  | .clear =>
    match s.worker with
    | .prepared job result =>
      some
        { s with
          worker := .cleared job result
          activeCancel := if s.activeCancel = some job.id then none else s.activeCancel }
    | _ => none
  | .respond =>
    match s.worker with
    | .cleared job result =>
      some
        { s with
          worker := .receiving
          responses := s.responses ++
            [(job.id, ⟨job.request.generation, job.request.selectFirst, result⟩)] }
    | _ => none

end SearchWorkerService

end Notm.Ui
