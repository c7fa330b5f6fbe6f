import Notm.Lib.Counter
import Notm.Lib.Transition

/-!
# The draft autosave queue

`DraftAutosaveController` as a transition system. Edits wait in one pending slot until the debounce
timer fires, flushes join a queue that goes first, and one write is active at a time. A completion
runs in three parts, because its callbacks may call back into the controller: it settles the
active write, invokes the callbacks of that write, and at last starts the next one. A worker that
cannot be spawned completes at once, with an error.

A flush that finds its request active or queued already returns before it looks at the pending
slot, whose timer it has cancelled: an edit that was waiting there is stranded.

* `startPendingWrite_cases`, `queueFlush_cases` — the ways the two parts of a call go.
* `Rests` — a controller at rest strands nothing as long as its pending edit runs.
* `enqueueFlush_pendingRuns` — a flush strands the edit exactly when it attaches while that is not
  ready.
* `nothingStranded_iff` — all states of a run.
-/

namespace Notm.Ui

open Rust

/-- `C` are the fields of the composer. -/
inductive RecoveryAction (C : Type*) where
  | persist (fields : C)
  | clear
deriving DecidableEq

/-- A write of the recovery under its number. The generation is that of the composer's content. -/
structure DraftWriteRequest (C : Type*) where
  requestId : Nat
  generation : Nat
  action : RecoveryAction C
deriving DecidableEq

/-- The result of a write. -/
abbrev WriteResult := Except String Unit

/-- What the event handler is told. -/
structure DraftAutosaveEvent where
  generation : Nat
  result : WriteResult
  isLatest : Bool

/-- The callback is the number of the flush that brought it. -/
structure FlushWaiter where
  requestId : Nat
  callback : Nat
deriving DecidableEq

/-- `DraftAutosaveState`. The pending edit may be overtaken by flushes, which queue in `urgent`;
`waiters` are the callbacks of flushes, each with the request that it waits for. -/
structure DraftAutosaveState (C : Type*) where
  pending : Option (DraftWriteRequest C) := none
  pendingReady : Bool := false
  urgent : List (DraftWriteRequest C) := []
  active : Option (DraftWriteRequest C) := none
  debounceSource : Bool := false
  nextRequestId : Nat := 1
  latestRequestId : Nat := 0
  lastCompleted : Option (Nat × Nat × WriteResult) := none
  waiters : List FlushWaiter := []
  writeCount : Nat := 0

variable {C : Type*}

namespace DraftAutosaveState

/-- `next_request_id`. -/
def takeRequestId (state : DraftAutosaveState C) : Nat × DraftAutosaveState C :=
  (state.nextRequestId, { state with
    nextRequestId := saturatingSucc state.nextRequestId
    latestRequestId := state.nextRequestId })

/-- The timer is dropped; the pending write stays. -/
def cancelDebounce (state : DraftAutosaveState C) : DraftAutosaveState C :=
  { state with debounceSource := false }

/-- The newest write takes the place of one that still waits. -/
def queueDebounced (state : DraftAutosaveState C) (generation : Nat) (action : RecoveryAction C) :
    DraftAutosaveState C :=
  let (requestId, state) := state.takeRequestId
  { state with
    pending := some { requestId := requestId, generation := generation, action := action }
    pendingReady := false }

/-- The timer starts anew with every edit. -/
def schedule (state : DraftAutosaveState C) (generation : Nat) (action : RecoveryAction C) :
    DraftAutosaveState C :=
  { state.cancelDebounce.queueDebounced generation action with debounceSource := true }

/-- The write is the one that a flush asks for. -/
def Matches (generation : Nat) (action : RecoveryAction C) (request : DraftWriteRequest C) :
    Prop :=
  request.generation = generation ∧ request.action = action

instance [DecidableEq C] (generation : Nat) (action : RecoveryAction C)
    (request : DraftWriteRequest C) : Decidable (Matches generation action request) :=
  inferInstanceAs (Decidable (_ ∧ _))

/-- The requests that a flush may attach to: the active one, then the urgent ones. -/
def underway (state : DraftAutosaveState C) : List (DraftWriteRequest C) :=
  state.active.toList ++ state.urgent

/-- A new urgent request. -/
def pushUrgent (state : DraftAutosaveState C) (generation : Nat) (action : RecoveryAction C) :
    Nat × DraftAutosaveState C :=
  let (requestId, state) := state.takeRequestId
  (requestId, { state with
    urgent := state.urgent ++
      [{ requestId := requestId, generation := generation, action := action }] })

/-- A flush of a write that is under way or waits uses that one, and makes a new one only if there
is none. -/
def queueFlush [DecidableEq C] (state : DraftAutosaveState C) (generation : Nat)
    (action : RecoveryAction C) : Nat × DraftAutosaveState C :=
  match state.underway.find? fun request => Matches generation action request with
  | some request => (request.requestId, state)
  | none =>
    match state.pending with
    | none => state.pushUrgent generation action
    | some pending =>
      let state := { state with pending := none, pendingReady := false }
      if Matches generation action pending then
        (pending.requestId, { state with urgent := state.urgent ++ [pending] })
      else if generation < pending.generation then
        -- the flush has cancelled the timer of the newer edit
        { state with pending := some pending, pendingReady := true }.pushUrgent generation action
      else state.pushUrgent generation action

/-- The request whose worker is spawned, if any. -/
def startPendingWrite (state : DraftAutosaveState C) :
    Option (DraftWriteRequest C) × DraftAutosaveState C :=
  if state.active.isSome then (none, state)
  else
    match state.urgent with
    | request :: urgent =>
      (some request, { state with
        urgent := urgent, active := some request, writeCount := saturatingSucc state.writeCount })
    | [] =>
      if state.pendingReady then
        match state.pending with
        | none => (none, { state with pendingReady := false })
        | some request =>
          (some request, { state with
            pending := none, pendingReady := false, active := some request
            writeCount := saturatingSucc state.writeCount })
      else (none, state)

/-- The flush without the write that it starts at its end. -/
def enqueueFlush [DecidableEq C] (state : DraftAutosaveState C) (generation : Nat)
    (action : RecoveryAction C) (callback : Nat) : DraftAutosaveState C :=
  let (requestId, state) := state.cancelDebounce.queueFlush generation action
  { state with waiters := state.waiters ++ [{ requestId := requestId, callback := callback }] }

/-- The pending write may start now. -/
def debounceElapsed (state : DraftAutosaveState C) : DraftAutosaveState C :=
  { state with debounceSource := false, pendingReady := true }

/-- What a completion hands out: the write, the event for the handler, the waiters to call back. -/
structure FinishedWrite (C : Type*) where
  request : DraftWriteRequest C
  event : DraftAutosaveEvent
  waiters : List FlushWaiter

/-- `none` when the completion is not that of the active write. -/
def finishWrite (state : DraftAutosaveState C) (requestId : Nat) (result : WriteResult) :
    Option (FinishedWrite C × DraftAutosaveState C) :=
  state.active.bind fun active =>
    if active.requestId ≠ requestId then none
    else
      some ({ request := active
              event :=
                { generation := active.generation, result := result
                  isLatest := decide (state.latestRequestId ≤ requestId) }
              waiters := state.waiters.filter fun waiter => waiter.requestId = requestId },
        { state with
          active := none
          lastCompleted := some (requestId, active.generation, result)
          waiters := state.waiters.filter fun waiter => waiter.requestId ≠ requestId })

/-! ## What each operation does to the pending edit -/

/-- A pending edit is marked ready or has its timer. -/
def PendingRuns (state : DraftAutosaveState C) : Prop :=
  state.pending.isSome = true → state.pendingReady = true ∨ state.debounceSource = true

/-- Without an active write nothing is there to be written. -/
def Resting (state : DraftAutosaveState C) : Prop :=
  state.active = none → state.urgent = [] ∧ state.pendingReady = false

variable {state : DraftAutosaveState C} {generation : Nat} {action : RecoveryAction C}

/-- The ways `start_pending_write` goes. -/
theorem startPendingWrite_cases (state : DraftAutosaveState C) :
    (state.active.isSome = true ∧ state.startPendingWrite = (none, state)) ∨
    (∃ request urgent, state.active = none ∧ state.urgent = request :: urgent ∧
      state.startPendingWrite = (some request, { state with
        urgent := urgent, active := some request
        writeCount := saturatingSucc state.writeCount })) ∨
    (∃ request, state.active = none ∧ state.urgent = [] ∧ state.pendingReady = true ∧
      state.pending = some request ∧
      state.startPendingWrite = (some request, { state with
        pending := none, pendingReady := false, active := some request
        writeCount := saturatingSucc state.writeCount })) ∨
    (state.active = none ∧ state.urgent = [] ∧
      (state.pendingReady = false ∨ state.pending = none) ∧
      state.startPendingWrite = (none, { state with pendingReady := false })) := by
  obtain ⟨pending, ready, urgent, active, debounce, next, latest, last, waiters, count⟩ := state
  cases active with
  | some request => exact Or.inl ⟨rfl, rfl⟩
  | none =>
    right
    cases urgent with
    | cons request urgent => exact Or.inl ⟨request, urgent, rfl, rfl, rfl⟩
    | nil =>
      right
      cases ready with
      | false => exact Or.inr ⟨rfl, rfl, Or.inl rfl, rfl⟩
      | true =>
        cases pending with
        | some request => exact Or.inl ⟨request, rfl, rfl, rfl, rfl, rfl⟩
        | none => exact Or.inr ⟨rfl, rfl, Or.inr rfl, rfl⟩

theorem startPendingWrite_resting (state : DraftAutosaveState C) :
    Resting state.startPendingWrite.2 := by
  intro hnone
  rcases startPendingWrite_cases state with ⟨hsome, h⟩ | ⟨request, urgent, -, -, h⟩ |
    ⟨request, -, -, -, -, h⟩ | ⟨-, hurgent, -, h⟩
  · rw [h] at hnone
    rw [hnone] at hsome
    exact absurd hsome (by simp)
  · rw [h] at hnone
    exact absurd hnone (Option.some_ne_none _)
  · rw [h] at hnone
    exact absurd hnone (Option.some_ne_none _)
  · rw [h]
    exact ⟨hurgent, rfl⟩

/-- Starting a write neither saves nor strands an edit. -/
theorem startPendingWrite_pendingRuns (state : DraftAutosaveState C) :
    PendingRuns state.startPendingWrite.2 ↔ PendingRuns state := by
  rcases startPendingWrite_cases state with ⟨-, h⟩ | ⟨request, urgent, -, -, h⟩ |
    ⟨request, -, -, hready, -, h⟩ | ⟨-, -, hready, h⟩
  · rw [h]
  · rw [h]
    exact Iff.rfl
  · rw [h]
    exact iff_of_true (fun hsome => absurd hsome (by simp)) fun _ => Or.inl hready
  · rw [h]
    rcases hready with hready | hnone
    · show (_ → false = true ∨ _) ↔ (_ → state.pendingReady = true ∨ _)
      rw [hready]
    · unfold PendingRuns
      simp [hnone]

theorem schedule_pendingRuns : PendingRuns (state.schedule generation action) :=
  fun _ => Or.inr rfl

theorem debounceElapsed_pendingRuns : PendingRuns state.debounceElapsed :=
  fun _ => Or.inl rfl

/-- The flush finds its request underway while the pending edit is not marked ready. -/
def Strands (state : DraftAutosaveState C) (generation : Nat) (action : RecoveryAction C) : Prop :=
  (∃ request ∈ state.underway, Matches generation action request) ∧
    state.pending.isSome = true ∧ state.pendingReady = false

/-- The ways `queue_flush` goes. -/
theorem queueFlush_cases [DecidableEq C] (state : DraftAutosaveState C) (generation : Nat)
    (action : RecoveryAction C) :
    (∃ request ∈ state.underway, Matches generation action request ∧
      state.queueFlush generation action = (request.requestId, state)) ∨
    ((∀ request ∈ state.underway, ¬ Matches generation action request) ∧
      ((∃ pending, state.pending = some pending ∧ Matches generation action pending ∧
        state.queueFlush generation action = (pending.requestId, { state with
          pending := none, pendingReady := false, urgent := state.urgent ++ [pending] })) ∨
      (∃ pending, state.pending = some pending ∧ ¬ Matches generation action pending ∧
        generation < pending.generation ∧ state.queueFlush generation action =
          { state with pendingReady := true }.pushUrgent generation action) ∨
      ((∀ pending, state.pending = some pending →
          ¬ Matches generation action pending ∧ ¬ generation < pending.generation) ∧
        state.queueFlush generation action =
          { state with
            pending := none
            pendingReady := state.pendingReady && state.pending.isNone }.pushUrgent
              generation action))) := by
  cases hfind : state.underway.find? fun request => Matches generation action request with
  | some request =>
    have hmatches : Matches generation action request := by simpa using List.find?_some hfind
    refine Or.inl ⟨request, List.mem_of_find?_eq_some hfind, hmatches, ?_⟩
    unfold queueFlush
    rw [hfind]
  | none =>
    have hunmatched : ∀ request ∈ state.underway, ¬ Matches generation action request :=
      fun request hmem hmatches =>
        List.find?_eq_none.1 hfind request hmem (decide_eq_true hmatches)
    refine Or.inr ⟨hunmatched, ?_⟩
    unfold queueFlush
    rw [hfind]
    obtain ⟨pending, ready, urgent, active, debounce, next, latest, last, waiters, count⟩ := state
    cases pending with
    | none =>
      refine Or.inr (Or.inr ⟨fun _ h => absurd h (Option.some_ne_none _).symm, ?_⟩)
      simp only [Option.isNone_none, Bool.and_true]
    | some pending =>
      by_cases hmatches : Matches generation action pending
      · refine Or.inl ⟨pending, rfl, hmatches, ?_⟩
        simp only [if_pos hmatches]
      · by_cases hnewer : generation < pending.generation
        · refine Or.inr (Or.inl ⟨pending, rfl, hmatches, hnewer, ?_⟩)
          simp only [if_neg hmatches, if_pos hnewer]
        · refine Or.inr (Or.inr ⟨?_, ?_⟩)
          · rintro _ h
            obtain rfl := Option.some.inj h
            exact ⟨hmatches, hnewer⟩
          · simp only [if_neg hmatches, if_neg hnewer, Option.isNone_some, Bool.and_false]

/-- A flush strands the pending edit exactly when it attaches to a request underway while the
edit is not ready. -/
theorem enqueueFlush_pendingRuns [DecidableEq C] (callback : Nat) :
    PendingRuns (state.enqueueFlush generation action callback) ↔
      ¬ Strands state generation action := by
  have hsame : ∀ s : Nat × DraftAutosaveState C,
      PendingRuns { s.2 with
        waiters := s.2.waiters ++ [{ requestId := s.1, callback := callback }] } ↔
      PendingRuns s.2 := fun _ => Iff.rfl
  refine (hsame (state.cancelDebounce.queueFlush generation action)).trans ?_
  rcases queueFlush_cases state.cancelDebounce generation action with
    ⟨request, hmem, hmatches, h⟩ | ⟨hunmatched, hrest⟩
  · -- the timer is gone: only the mark is left
    rw [h]
    have hunderway : ∃ request ∈ state.underway, Matches generation action request :=
      ⟨request, hmem, hmatches⟩
    show (state.pending.isSome = true → state.pendingReady = true ∨ false = true) ↔ _
    unfold Strands
    constructor
    · rintro hruns ⟨-, hsome, hready⟩
      rw [hready] at hruns
      simpa using hruns hsome
    · intro hstrands hsome
      cases hready : state.pendingReady with
      | true => exact Or.inl rfl
      | false => exact absurd ⟨hunderway, hsome, hready⟩ hstrands
  · have hnot : ¬ Strands state generation action := by
      rintro ⟨⟨request, hmem, hmatches⟩, -⟩
      exact hunmatched request hmem hmatches
    refine iff_of_true ?_ hnot
    rcases hrest with ⟨pending, -, -, h⟩ | ⟨pending, -, -, -, h⟩ | ⟨-, h⟩
    · rw [h]
      exact fun hsome => absurd hsome (by simp)
    · rw [h]
      exact fun _ => Or.inl rfl
    · rw [h]
      exact fun hsome => absurd hsome (by simp [pushUrgent, takeRequestId])

end DraftAutosaveState

/-! ## The controller with its workers and its callers -/

/-- A completion that is being delivered: the write, its result, the callbacks still to be
invoked. -/
structure Delivery (C : Type*) where
  request : DraftWriteRequest C
  result : WriteResult
  callbacks : List Nat

/-- The state, the running workers, the completions under way (the innermost first) and the
history: the submitted edits and flushes, the requests that joined the urgent queue, the writes
in the order of their start (`true` from the urgent queue) and of their end, what the handler was
told and the callbacks that were invoked. -/
structure DraftAutosave (C : Type*) where
  state : DraftAutosaveState C := {}
  workers : List Nat := []
  deliveries : List (Delivery C) := []
  submitted : List (Nat × RecoveryAction C) := []
  flushes : List (Nat × RecoveryAction C) := []
  flushed : List (DraftWriteRequest C) := []
  started : List (Bool × DraftWriteRequest C) := []
  finished : List (DraftWriteRequest C × WriteResult) := []
  handled : List DraftAutosaveEvent := []
  invoked : List (Nat × WriteResult) := []

/-- The calls of the window, the timer and the ends of writes. -/
inductive DraftAutosaveCall (C : Type*) where
  | schedule (generation : Nat) (action : RecoveryAction C)
  | flush (generation : Nat) (action : RecoveryAction C)
  | debounceElapsed
  | writeEnded (worker : Nat) (result : WriteResult)
  | invokeCallback
  | deliveryEnded

namespace DraftAutosave

open DraftAutosaveState

/-- `start_pending_write`, which spawns the worker. -/
def startWrite (queue : DraftAutosave C) : DraftAutosave C :=
  match queue.state.startPendingWrite with
  | (none, state) => { queue with state := state }
  | (some request, state) =>
    { queue with
      state := state
      workers := queue.workers ++ [request.requestId]
      started := queue.started ++ [(!queue.state.urgent.isEmpty, request)] }

/-- The requests that a flush has put into the urgent queue. -/
def joined (before after : DraftAutosaveState C) : List (DraftWriteRequest C) :=
  after.urgent.drop before.urgent.length

/-- One step of the queue. A callback is run only while a completion is being delivered. -/
def step [DecidableEq C] (queue : DraftAutosave C) :
    DraftAutosaveCall C → Option (DraftAutosave C)
  | .schedule generation action =>
    some { queue with
      state := queue.state.schedule generation action
      submitted := queue.submitted ++ [(generation, action)] }
  | .flush generation action =>
    let state := queue.state.enqueueFlush generation action queue.flushes.length
    some (startWrite { queue with
      state := state
      submitted := queue.submitted ++ [(generation, action)]
      flushes := queue.flushes ++ [(generation, action)]
      flushed := queue.flushed ++ joined queue.state state })
  | .debounceElapsed =>
    if queue.state.debounceSource then
      some (startWrite { queue with state := queue.state.debounceElapsed })
    else none
  | .writeEnded worker result =>
    queue.workers[worker]?.map fun requestId =>
      let queue := { queue with workers := queue.workers.eraseIdx worker }
      match queue.state.finishWrite requestId result with
      | none => queue
      | some (done, state) =>
        { queue with
          state := state
          deliveries :=
            ⟨done.request, result, done.waiters.map FlushWaiter.callback⟩ :: queue.deliveries
          finished := queue.finished ++ [(done.request, result)]
          handled := queue.handled ++ [done.event] }
  | .invokeCallback =>
    match queue.deliveries with
    | ⟨request, result, callback :: callbacks⟩ :: deliveries =>
      some { queue with
        deliveries := ⟨request, result, callbacks⟩ :: deliveries
        invoked := queue.invoked ++ [(callback, result)] }
    | _ => none
  | .deliveryEnded =>
    match queue.deliveries with
    | ⟨_, _, []⟩ :: deliveries => some (startWrite { queue with deliveries := deliveries })
    | _ => none

/-! ## No edit is stranded -/

variable {queue queue' : DraftAutosave C} {call : DraftAutosaveCall C}

@[simp] theorem startWrite_state (queue : DraftAutosave C) :
    queue.startWrite.state = queue.state.startPendingWrite.2 := by
  unfold startWrite
  cases h : queue.state.startPendingWrite with
  | mk request state => cases request <;> rfl

@[simp] theorem startWrite_deliveries (queue : DraftAutosave C) :
    queue.startWrite.deliveries = queue.deliveries := by
  unfold startWrite
  cases h : queue.state.startPendingWrite with
  | mk request state => cases request <;> rfl

/-- A pending edit is marked ready or has its timer; and between two calls, when no write is
active, no urgent request is queued and no timer is armed, nothing is pending. -/
def NothingStranded (queue : DraftAutosave C) : Prop :=
  PendingRuns queue.state ∧
    (queue.deliveries = [] → queue.state.active = none → queue.state.urgent = [] →
      queue.state.debounceSource = false → queue.state.pending = none)

/-- The call is no flush that finds its request underway while the pending edit is not ready. -/
def LeavesPending (queue : DraftAutosave C) (call : DraftAutosaveCall C) : Prop :=
  ∀ generation action, call = .flush generation action →
    ¬ Strands queue.state generation action

/-- Between two calls the controller rests: it has started what there was to start. -/
def Rests (queue : DraftAutosave C) : Prop :=
  queue.deliveries = [] → Resting queue.state

/-- A controller at rest strands nothing as long as its pending edit runs. -/
theorem Rests.nothingStranded (h : Rests queue) :
    NothingStranded queue ↔ PendingRuns queue.state := by
  refine ⟨And.left, fun hruns => ⟨hruns, fun hdeliveries hactive _ htimer => ?_⟩⟩
  have hready := (h hdeliveries hactive).2
  cases hpending : queue.state.pending with
  | none => rfl
  | some pending =>
    have := hruns (by rw [hpending]; rfl)
    rw [hready, htimer] at this
    simp at this

theorem finishWrite_eq_some {state state' : DraftAutosaveState C} {requestId : Nat}
    {result : WriteResult} {done : FinishedWrite C}
    (h : state.finishWrite requestId result = some (done, state')) :
    state.active = some done.request ∧ done.request.requestId = requestId ∧
      done.waiters = state.waiters.filter (fun waiter => waiter.requestId = requestId) ∧
      state' = { state with
        active := none
        lastCompleted := some (requestId, done.request.generation, result)
        waiters := state.waiters.filter fun waiter => waiter.requestId ≠ requestId } := by
  unfold finishWrite at h
  obtain ⟨active, hactive, hdone⟩ := Option.bind_eq_some_iff.1 h
  split at hdone
  · exact absurd hdone (Option.some_ne_none _).symm
  · rename_i hid
    obtain ⟨rfl, rfl⟩ := Prod.mk.inj (Option.some.inj hdone)
    exact ⟨hactive, not_not.1 hid, rfl, rfl⟩

variable [DecidableEq C]

theorem rests_step (hqueue : Rests queue) (h : step queue call = some queue') : Rests queue' := by
  cases call with
  | schedule generation action =>
    obtain rfl := Option.some.inj h
    intro hdeliveries hactive
    exact ⟨(hqueue hdeliveries hactive).1, rfl⟩
  | flush generation action =>
    obtain rfl := Option.some.inj h
    intro _
    rw [startWrite_state]
    exact startPendingWrite_resting _
  | debounceElapsed =>
    simp only [step] at h
    split at h
    · obtain rfl := Option.some.inj h
      intro _
      rw [startWrite_state]
      exact startPendingWrite_resting _
    · exact absurd h (Option.some_ne_none _).symm
  | writeEnded worker result =>
    obtain ⟨requestId, -, hqueue'⟩ := Option.map_eq_some_iff.1 h
    cases hfinish : queue.state.finishWrite requestId result with
    | none =>
      simp only [hfinish] at hqueue'
      obtain rfl := hqueue'
      exact hqueue
    | some done =>
      simp only [hfinish] at hqueue'
      obtain rfl := hqueue'
      exact fun hdeliveries => absurd hdeliveries (List.cons_ne_nil _ _)
  | invokeCallback =>
    simp only [step] at h
    split at h
    · obtain rfl := Option.some.inj h
      exact fun hdeliveries => absurd hdeliveries (List.cons_ne_nil _ _)
    · exact absurd h (Option.some_ne_none _).symm
  | deliveryEnded =>
    simp only [step] at h
    split at h
    · obtain rfl := Option.some.inj h
      intro _
      rw [startWrite_state]
      exact startPendingWrite_resting _
    · exact absurd h (Option.some_ne_none _).symm

/-- Of all calls just the stranding flush takes the mark and the timer of a pending edit. -/
theorem pendingRuns_step (hqueue : PendingRuns queue.state) (h : step queue call = some queue') :
    PendingRuns queue'.state ↔ LeavesPending queue call := by
  have hother : (∀ generation action, call ≠ .flush generation action) →
      LeavesPending queue call := fun hne generation action heq =>
    absurd heq (hne generation action)
  cases call with
  | schedule generation action =>
    obtain rfl := Option.some.inj h
    exact iff_of_true schedule_pendingRuns (hother fun _ _ => by simp)
  -- The one call that may strand the edit; the write that it then starts changes nothing about
  -- that.
  | flush generation action =>
    obtain rfl := Option.some.inj h
    rw [startWrite_state, startPendingWrite_pendingRuns]
    refine (enqueueFlush_pendingRuns _).trans ⟨?_, fun hleaves => hleaves _ _ rfl⟩
    rintro hstrands _ _ heq
    obtain ⟨rfl, rfl⟩ := DraftAutosaveCall.flush.inj heq
    exact hstrands
  | debounceElapsed =>
    refine iff_of_true ?_ (hother fun _ _ => by simp)
    simp only [step] at h
    split at h
    · obtain rfl := Option.some.inj h
      rw [startWrite_state, startPendingWrite_pendingRuns]
      exact debounceElapsed_pendingRuns
    · exact absurd h (Option.some_ne_none _).symm
  -- the next write is started only when the callbacks have been invoked
  | writeEnded worker result =>
    refine iff_of_true ?_ (hother fun _ _ => by simp)
    obtain ⟨requestId, -, hqueue'⟩ := Option.map_eq_some_iff.1 h
    cases hfinish : queue.state.finishWrite requestId result with
    | none =>
      simp only [hfinish] at hqueue'
      obtain rfl := hqueue'
      exact hqueue
    | some done =>
      simp only [hfinish] at hqueue'
      obtain ⟨-, -, -, hstate⟩ := finishWrite_eq_some hfinish
      obtain rfl := hqueue'
      show PendingRuns done.2
      rw [hstate]
      exact hqueue
  | invokeCallback =>
    refine iff_of_true ?_ (hother fun _ _ => by simp)
    simp only [step] at h
    split at h
    · obtain rfl := Option.some.inj h
      exact hqueue
    · exact absurd h (Option.some_ne_none _).symm
  | deliveryEnded =>
    refine iff_of_true ?_ (hother fun _ _ => by simp)
    simp only [step] at h
    split at h
    · obtain rfl := Option.some.inj h
      rw [startWrite_state, startPendingWrite_pendingRuns]
      exact hqueue
    · exact absurd h (Option.some_ne_none _).symm

/-- **When an edit is stranded.** Nothing is stranded in any state of a run exactly when no flush of
the run finds its request underway while the pending edit is not marked ready. Such a flush takes
the timer of the edit away and attaches its callback to the request, and nothing is left that would
start the edit. -/
theorem nothingStranded_iff {trace : List (DraftAutosave C × DraftAutosaveCall C)}
    (hrun : Transition.Run (Transition.Steps step) {} trace queue) :
    (NothingStranded queue ∧ ∀ p ∈ trace, NothingStranded p.1) ↔
      ∀ p ∈ trace, LeavesPending p.1 p.2 := by
  have hstart : Rests ({} : DraftAutosave C) := fun _ _ => ⟨rfl, rfl⟩
  -- Between the calls a controller is at rest: whatever could be started has been started.
  have hrests : ∀ queue : DraftAutosave C,
      Transition.Reachable (Transition.Steps step) {} queue → Rests queue := by
    rintro queue ⟨_, hreach⟩
    exact hreach.invariant (fun _ _ _ hrest hstep => rests_step hrest hstep) hstart
  apply Transition.Run.forall_states_iff _ _ hrun
  · exact hstart.nothingStranded.2 fun hsome => absurd hsome (by simp)
  · intro before call after hreach hbefore hstep
    have hbeforeRests := hrests before hreach
    have hafterRests := rests_step hbeforeRests hstep
    rw [hafterRests.nothingStranded]
    exact pendingRuns_step (hbeforeRests.nothingStranded.1 hbefore) hstep

/-- While the first edit is written a second one is scheduled, and the first is flushed again. -/
def strandingCalls : List (DraftAutosaveCall Nat) :=
  [.schedule 1 (.persist 1), .debounceElapsed, .schedule 2 (.persist 2), .flush 1 (.persist 1)]

/-- The second edit is left pending, neither ready nor with a timer; when the write and its
callback are through, it still is. -/
theorem second_edit_stranded : ∃ trace queue pending,
    Transition.Run (Transition.Steps step) ({} : DraftAutosave Nat) trace queue ∧
      queue.state.pending = some pending ∧ pending.generation = 2 ∧
      queue.state.active = none ∧ queue.state.urgent = [] ∧ queue.deliveries = [] ∧
      queue.state.pendingReady = false ∧ queue.state.debounceSource = false :=
  ⟨_, _, _, Transition.run_of_exec (strandingCalls ++
    [.writeEnded 0 (.ok ()), .invokeCallback, .deliveryEnded]) rfl, rfl, rfl, rfl, rfl, rfl, rfl,
    rfl⟩

/-- Without a second edit the same flush strands nothing. -/
theorem nothingStranded_iff_first : ∃ trace queue,
    Transition.Run (Transition.Steps step) ({} : DraftAutosave Nat) trace queue ∧
      ((NothingStranded queue ∧ ∀ p ∈ trace, NothingStranded p.1) ↔
        ∀ p ∈ trace, LeavesPending p.1 p.2) := by
  have hrun : Transition.Run (Transition.Steps step) ({} : DraftAutosave Nat) _ _ :=
    Transition.run_of_exec [.schedule 1 (.persist 1), .debounceElapsed, .flush 1 (.persist 1)] rfl
  exact ⟨_, _, hrun, nothingStranded_iff hrun⟩

end DraftAutosave

end Notm.Ui
