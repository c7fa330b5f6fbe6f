import Notm.Ui.DraftAutosave

/-!
# What the draft autosave queue delivers

Over all runs: one write at a time, flushes start in their order, each callback is invoked once
with the result of a write of its own generation and action, and the newest edit is written last.

A callback finds its write by request id, and the counter of the ids saturates. The delivery
therefore holds while fewer edits and flushes than `u64::MAX` have been made, and fails behind
that. The rest does not depend on the ids.

* `invariant_step` — the rule for invariants: one case for each part of a call.
* `NoneDropped` — what has been asked for is started, queued or pending.
* `Delivers` — the ids of the requests are distinct, and each waiting callback finds its own.
* `CountsCalls` — the same as long as the ids last.
-/

namespace Notm.Ui.DraftAutosave

open Rust DraftAutosaveState

variable {C : Type*} {queue queue' : DraftAutosave C} {call : DraftAutosaveCall C}

/-! ## The shape of the operations -/

/-- The writes in the order of their start, then those that wait in the urgent queue. -/
def writeOrder (queue : DraftAutosave C) : List (DraftWriteRequest C) :=
  queue.started.map Prod.snd ++ queue.state.urgent

/-- The requests of the state: underway, then pending. -/
def requests (state : DraftAutosaveState C) : List (DraftWriteRequest C) :=
  state.underway ++ state.pending.toList

/-- The ways `start_pending_write` goes, with the worker and the history. -/
theorem startWrite_cases (queue : DraftAutosave C) :
    (queue.state.active.isSome = true ∧ queue.startWrite = queue) ∨
    (∃ request urgent, queue.state.active = none ∧ queue.state.urgent = request :: urgent ∧
      queue.startWrite = { queue with
        state := { queue.state with
          urgent := urgent, active := some request
          writeCount := saturatingSucc queue.state.writeCount }
        workers := queue.workers ++ [request.requestId]
        started := queue.started ++ [(true, request)] }) ∨
    (∃ request, queue.state.active = none ∧ queue.state.urgent = [] ∧
      queue.state.pendingReady = true ∧ queue.state.pending = some request ∧
      queue.startWrite = { queue with
        state := { queue.state with
          pending := none, pendingReady := false, active := some request
          writeCount := saturatingSucc queue.state.writeCount }
        workers := queue.workers ++ [request.requestId]
        started := queue.started ++ [(false, request)] }) ∨
    (queue.state.active = none ∧ queue.state.urgent = [] ∧
      (queue.state.pendingReady = false ∨ queue.state.pending = none) ∧
      queue.startWrite =
        { queue with state := { queue.state with pendingReady := false } }) := by
  rcases startPendingWrite_cases queue.state with ⟨hactive, h⟩ |
    ⟨request, urgent, hactive, hurgent, h⟩ | ⟨request, hactive, hurgent, hready, hpending, h⟩ |
    ⟨hactive, hurgent, hready, h⟩
  · refine Or.inl ⟨hactive, ?_⟩
    unfold startWrite
    rw [h]
  · refine Or.inr (Or.inl ⟨request, urgent, hactive, hurgent, ?_⟩)
    unfold startWrite
    rw [h]
    simp only [hurgent, List.isEmpty_cons, Bool.not_false]
  · refine Or.inr (Or.inr (Or.inl ⟨request, hactive, hurgent, hready, hpending, ?_⟩))
    unfold startWrite
    rw [h]
    simp only [hurgent, List.isEmpty_nil, Bool.not_true]
  · refine Or.inr (Or.inr (Or.inr ⟨hactive, hurgent, hready, ?_⟩))
    unfold startWrite
    rw [h]

/-- What `flush` has done before it starts a write: it attached to a request underway, moved the
pending edit to the urgent queue, or appended a request of its own. -/
theorem enqueueFlush_cases [DecidableEq C] (state : DraftAutosaveState C) (generation : Nat)
    (action : RecoveryAction C) (callback : Nat) :
    (∃ request ∈ state.underway, Matches generation action request ∧
      state.enqueueFlush generation action callback = { state with
        debounceSource := false
        waiters := state.waiters ++ [⟨request.requestId, callback⟩] }) ∨
    (∃ pending, state.pending = some pending ∧ Matches generation action pending ∧
      state.enqueueFlush generation action callback = { state with
        debounceSource := false, pending := none, pendingReady := false
        urgent := state.urgent ++ [pending]
        waiters := state.waiters ++ [⟨pending.requestId, callback⟩] }) ∨
    (∃ pending ready, (pending = none ∨ ready = true ∧ pending = state.pending ∧
        ∃ newer, state.pending = some newer ∧ generation < newer.generation) ∧
      state.enqueueFlush generation action callback = { state with
        debounceSource := false, pending := pending, pendingReady := ready
        urgent := state.urgent ++ [⟨state.nextRequestId, generation, action⟩]
        nextRequestId := saturatingSucc state.nextRequestId
        latestRequestId := state.nextRequestId
        waiters := state.waiters ++ [⟨state.nextRequestId, callback⟩] }) := by
  have hflush : state.enqueueFlush generation action callback =
      { (state.cancelDebounce.queueFlush generation action).2 with
        waiters := (state.cancelDebounce.queueFlush generation action).2.waiters ++
          [⟨(state.cancelDebounce.queueFlush generation action).1, callback⟩] } := rfl
  rcases queueFlush_cases state.cancelDebounce generation action with
    ⟨request, hmem, hmatches, h⟩ | ⟨-, ⟨pending, hpending, hmatches, h⟩ |
    ⟨pending, hpending, -, hnewer, h⟩ | ⟨-, h⟩⟩
  · rw [hflush, h]
    exact Or.inl ⟨request, hmem, hmatches, rfl⟩
  · rw [hflush, h]
    exact Or.inr (Or.inl ⟨pending, hpending, hmatches, rfl⟩)
  · rw [hflush, h]
    exact Or.inr (Or.inr ⟨state.pending, true, Or.inr ⟨rfl, rfl, pending, hpending, hnewer⟩, rfl⟩)
  · rw [hflush, h]
    exact Or.inr (Or.inr ⟨none, _, Or.inl rfl, rfl⟩)

/-- A completion settles the active write, or is that of no active write and changes nothing but
the workers. -/
theorem writeEnded_cases [DecidableEq C] {worker : Nat} {result : WriteResult}
    (h : step queue (.writeEnded worker result) = some queue') :
    ∃ requestId, queue.workers[worker]? = some requestId ∧
      ((∀ active, queue.state.active = some active → active.requestId ≠ requestId) ∧
        queue' = { queue with workers := queue.workers.eraseIdx worker } ∨
      ∃ request event, queue.state.active = some request ∧ request.requestId = requestId ∧
        queue' = { queue with
          workers := queue.workers.eraseIdx worker
          state := { queue.state with
            active := none
            lastCompleted := some (requestId, request.generation, result)
            waiters := queue.state.waiters.filter fun waiter => waiter.requestId ≠ requestId }
          deliveries := ⟨request, result, (queue.state.waiters.filter fun waiter =>
            waiter.requestId = requestId).map FlushWaiter.callback⟩ :: queue.deliveries
          finished := queue.finished ++ [(request, result)]
          handled := queue.handled ++ [event] }) := by
  obtain ⟨requestId, hworker, hqueue'⟩ := Option.map_eq_some_iff.1 h
  refine ⟨requestId, hworker, ?_⟩
  cases hfinish : queue.state.finishWrite requestId result with
  | none =>
    simp only [hfinish] at hqueue'
    refine Or.inl ⟨?_, hqueue'.symm⟩
    rintro active hactive rfl
    simp [finishWrite, hactive] at hfinish
  | some done =>
    obtain ⟨hactive, hid, hwaiters, hstate⟩ := finishWrite_eq_some hfinish
    simp only [hfinish] at hqueue'
    refine Or.inr ⟨done.1.request, done.1.event, hactive, hid, ?_⟩
    rw [← hqueue', hwaiters, hstate]

/-- Starting a write keeps the order of the writes, or adds the pending edit at its end. -/
theorem startWrite_writeOrder (queue : DraftAutosave C) :
    queue.startWrite.writeOrder = queue.writeOrder ∨
      ∃ pending, queue.state.active = none ∧ queue.state.urgent = [] ∧
        queue.state.pending = some pending ∧
        queue.startWrite.writeOrder = queue.writeOrder ++ [pending] := by
  rcases startWrite_cases queue with ⟨-, hstart⟩ | ⟨request, urgent, -, hurgent, hstart⟩ |
    ⟨request, hactive, hurgent, -, hpending, hstart⟩ | ⟨-, -, -, hstart⟩
  · exact Or.inl (by rw [hstart])
  · refine Or.inl ?_
    rw [hstart]
    simp [writeOrder, hurgent]
  · refine Or.inr ⟨request, hactive, hurgent, hpending, ?_⟩
    rw [hstart]
    simp [writeOrder, hurgent]
  · exact Or.inl (by rw [hstart]; rfl)

/-- The active write has started, and each flush has a write of its generation and action that
has started or waits. -/
structure NoneDropped (queue : DraftAutosave C) : Prop where
  active : ∀ request, queue.state.active = some request → request ∈ queue.started.map Prod.snd
  flushes : ∀ flush ∈ queue.flushes, ∃ request ∈ queue.writeOrder,
    (request.generation, request.action) = flush

/-- What is underway has its place in the order of the writes. -/
theorem NoneDropped.underway (h : NoneDropped queue) {request : DraftWriteRequest C}
    (hmem : request ∈ queue.state.underway) : request ∈ queue.writeOrder := by
  rcases List.mem_append.1 hmem with hmem | hmem
  · exact List.mem_append_left _ (h.active request (Option.mem_toList.1 hmem))
  · exact List.mem_append_right _ hmem

/-- A flush before it starts a write. -/
def enqueue [DecidableEq C] (queue : DraftAutosave C) (generation : Nat)
    (action : RecoveryAction C) : DraftAutosave C :=
  let state := queue.state.enqueueFlush generation action queue.flushes.length
  { queue with
    state := state
    submitted := queue.submitted ++ [(generation, action)]
    flushes := queue.flushes ++ [(generation, action)]
    flushed := queue.flushed ++ joined queue.state state }

/-- The requests that join the urgent queue in a flush are those that it appends. -/
theorem enqueue_flushed [DecidableEq C] (queue : DraftAutosave C) (generation : Nat)
    (action : RecoveryAction C) :
    ∃ new, (queue.enqueue generation action).state.urgent = queue.state.urgent ++ new ∧
      (queue.enqueue generation action).flushed = queue.flushed ++ new := by
  have hjoined : ∀ new, (queue.enqueue generation action).state.urgent =
      queue.state.urgent ++ new → (queue.enqueue generation action).flushed =
      queue.flushed ++ new := by
    intro new hurgent
    show queue.flushed ++ (queue.enqueue generation action).state.urgent.drop _ = _
    rw [hurgent, List.drop_left]
  rcases enqueueFlush_cases queue.state generation action queue.flushes.length with
    ⟨_, -, -, h⟩ | ⟨pending, -, -, h⟩ | ⟨_, _, -, h⟩
  · have hurgent : (queue.enqueue generation action).state.urgent = queue.state.urgent ++ [] := by
      show (queue.state.enqueueFlush _ _ _).urgent = _
      rw [h, List.append_nil]
    exact ⟨[], hurgent, hjoined [] hurgent⟩
  · have hurgent : (queue.enqueue generation action).state.urgent =
        queue.state.urgent ++ [pending] := by
      show (queue.state.enqueueFlush _ _ _).urgent = _
      rw [h]
    exact ⟨_, hurgent, hjoined _ hurgent⟩
  · have hurgent : (queue.enqueue generation action).state.urgent =
        queue.state.urgent ++ [⟨queue.state.nextRequestId, generation, action⟩] := by
      show (queue.state.enqueueFlush _ _ _).urgent = _
      rw [h]
    exact ⟨_, hurgent, hjoined _ hurgent⟩

/-- The rule for invariants: one case for each part of a call. -/
theorem invariant_step [DecidableEq C] {I : DraftAutosave C → Prop}
    (hstart : ∀ queue, I queue → I queue.startWrite)
    (hschedule : ∀ queue generation action, I queue →
      I { queue with
        state := queue.state.schedule generation action
        submitted := queue.submitted ++ [(generation, action)] })
    (henqueue : ∀ queue generation action, I queue → I (queue.enqueue generation action))
    (helapsed : ∀ queue, queue.state.debounceSource = true → I queue →
      I { queue with state := queue.state.debounceElapsed })
    (hended : ∀ queue worker result queue', I queue →
      step queue (.writeEnded worker result) = some queue' → I queue')
    (hinvoke : ∀ queue request result callback callbacks deliveries, I queue →
      queue.deliveries = ⟨request, result, callback :: callbacks⟩ :: deliveries →
      I { queue with
        deliveries := ⟨request, result, callbacks⟩ :: deliveries
        invoked := queue.invoked ++ [(callback, result)] })
    (hdelivered : ∀ queue request result deliveries, I queue →
      queue.deliveries = ⟨request, result, []⟩ :: deliveries →
      I { queue with deliveries := deliveries })
    (hqueue : I queue) (h : step queue call = some queue') : I queue' := by
  cases call with
  | schedule generation action =>
    obtain rfl := Option.some.inj h
    exact hschedule queue generation action hqueue
  | flush generation action =>
    obtain rfl := Option.some.inj h
    exact hstart _ (henqueue queue generation action hqueue)
  | debounceElapsed =>
    simp only [step] at h
    split at h
    · rename_i htimer
      obtain rfl := Option.some.inj h
      exact hstart _ (helapsed queue htimer hqueue)
    · exact absurd h (Option.some_ne_none _).symm
  | writeEnded worker result => exact hended queue worker result queue' hqueue h
  | invokeCallback =>
    simp only [step] at h
    split at h
    · rename_i hdeliveries
      obtain rfl := Option.some.inj h
      exact hinvoke queue _ _ _ _ _ hqueue hdeliveries
    · exact absurd h (Option.some_ne_none _).symm
  | deliveryEnded =>
    simp only [step] at h
    split at h
    · rename_i hdeliveries
      obtain rfl := Option.some.inj h
      exact hstart _ (hdelivered queue _ _ _ hqueue hdeliveries)
    · exact absurd h (Option.some_ne_none _).symm

/-! ## One write at a time -/

/-- The running workers are that of the active write. -/
def OneWorker (queue : DraftAutosave C) : Prop :=
  queue.workers = queue.state.active.toList.map DraftWriteRequest.requestId

theorem OneWorker.startWrite (h : OneWorker queue) : OneWorker queue.startWrite := by
  unfold OneWorker at h ⊢
  rcases startWrite_cases queue with ⟨-, hstart⟩ | ⟨request, urgent, hactive, -, hstart⟩ |
    ⟨request, hactive, -, -, -, hstart⟩ | ⟨hactive, -, -, hstart⟩
  · rw [hstart]
    exact h
  · rw [hactive] at h
    rw [hstart]
    show queue.workers ++ [request.requestId] = [request.requestId]
    rw [h]
    rfl
  · rw [hactive] at h
    rw [hstart]
    show queue.workers ++ [request.requestId] = [request.requestId]
    rw [h]
    rfl
  · rw [hstart]
    exact h

variable [DecidableEq C]

/-- A flush leaves the active write alone. -/
theorem enqueueFlush_active (state : DraftAutosaveState C) (generation : Nat)
    (action : RecoveryAction C) (callback : Nat) :
    (state.enqueueFlush generation action callback).active = state.active := by
  rcases enqueueFlush_cases state generation action callback with ⟨_, -, -, h⟩ | ⟨_, -, -, h⟩ |
    ⟨_, _, -, h⟩ <;> rw [h]

theorem oneWorker_step (hqueue : OneWorker queue) (h : step queue call = some queue') :
    OneWorker queue' := by
  refine invariant_step (I := OneWorker) ?_ ?_ ?_ ?_ ?_ ?_ ?_ hqueue h
  · intro queue hqueue
    exact hqueue.startWrite
  · intro queue generation action hqueue
    exact hqueue
  · intro queue generation action hqueue
    show queue.workers = (queue.state.enqueueFlush _ _ _).active.toList.map _
    rw [enqueueFlush_active]
    exact hqueue
  · intro queue _ hqueue
    exact hqueue
  · intro queue worker result queue' hqueue h
    unfold OneWorker at hqueue
    obtain ⟨requestId, hworker, ⟨hother, -⟩ | ⟨request, event, hactive, -, rfl⟩⟩ :=
      writeEnded_cases h
    · -- the only worker is that of the active write
      rw [hqueue] at hworker
      cases hactive : queue.state.active with
      | none => simp [hactive] at hworker
      | some active =>
        have hmem := List.mem_of_getElem? hworker
        rw [hactive] at hmem
        have hid : requestId = active.requestId := List.mem_singleton.1 hmem
        exact absurd hid.symm (hother active hactive)
    · show queue.workers.eraseIdx worker = []
      rw [hactive] at hqueue
      rw [hqueue] at hworker ⊢
      cases worker with
      | zero => rfl
      | succ worker => simp at hworker
  · intro queue _ _ _ _ _ hqueue _
    exact hqueue
  · intro queue _ _ _ hqueue _
    exact hqueue

/-! ## Flushes start in their order -/

/-- The requests that joined the urgent queue are the urgent writes that have started, in this
order, and those that still wait. -/
def FlushOrder (queue : DraftAutosave C) : Prop :=
  queue.flushed = (queue.started.filter Prod.fst).map Prod.snd ++ queue.state.urgent

theorem flushOrder_step (hqueue : FlushOrder queue) (h : step queue call = some queue') :
    FlushOrder queue' := by
  refine invariant_step (I := FlushOrder) ?_ ?_ ?_ ?_ ?_ ?_ ?_ hqueue h
  · intro queue hqueue
    unfold FlushOrder at hqueue ⊢
    rcases startWrite_cases queue with ⟨-, hstart⟩ | ⟨request, urgent, -, hurgent, hstart⟩ |
      ⟨request, -, hurgent, -, -, hstart⟩ | ⟨-, -, -, hstart⟩
    · rw [hstart]
      exact hqueue
    · rw [hurgent] at hqueue
      rw [hstart, hqueue]
      simp
    · rw [hurgent] at hqueue
      rw [hstart, hqueue]
      simp [hurgent]
    · rw [hstart]
      exact hqueue
  · intro queue generation action hqueue
    exact hqueue
  · intro queue generation action hqueue
    unfold FlushOrder at hqueue ⊢
    obtain ⟨new, hurgent, hflushed⟩ := queue.enqueue_flushed generation action
    rw [hurgent, hflushed, hqueue, List.append_assoc]
    rfl
  · intro queue _ hqueue
    exact hqueue
  · intro queue worker result queue' hqueue h
    obtain ⟨_, -, ⟨-, rfl⟩ | ⟨_, _, -, -, rfl⟩⟩ := writeEnded_cases h
    · exact hqueue
    · exact hqueue
  · intro queue _ _ _ _ _ hqueue _
    exact hqueue
  · intro queue _ _ _ hqueue _
    exact hqueue

/-! ## No flush is dropped -/

omit [DecidableEq C] in
theorem NoneDropped.startWrite (h : NoneDropped queue) : NoneDropped queue.startWrite := by
  refine ⟨?_, ?_⟩
  · intro request hactive
    rcases startWrite_cases queue with ⟨-, hstart⟩ | ⟨started, urgent, -, -, hstart⟩ |
      ⟨started, -, -, -, -, hstart⟩ | ⟨hnone, -, -, hstart⟩
    · rw [hstart] at hactive ⊢
      exact h.active request hactive
    · rw [hstart] at hactive ⊢
      obtain rfl := Option.some.inj hactive
      simp
    · rw [hstart] at hactive ⊢
      obtain rfl := Option.some.inj hactive
      simp
    · rw [hstart] at hactive ⊢
      exact h.active request hactive
  · intro flush hflush
    have hflushes : queue.startWrite.flushes = queue.flushes := by
      rcases startWrite_cases queue with ⟨-, hstart⟩ | ⟨_, _, -, -, hstart⟩ |
        ⟨_, -, -, -, -, hstart⟩ | ⟨-, -, -, hstart⟩ <;> rw [hstart]
    rw [hflushes] at hflush
    obtain ⟨request, hmem, hrequest⟩ := h.flushes flush hflush
    refine ⟨request, ?_, hrequest⟩
    rcases startWrite_writeOrder queue with horder | ⟨_, -, -, -, horder⟩
    · rw [horder]
      exact hmem
    · rw [horder]
      exact List.mem_append_left _ hmem

theorem enqueue_writeOrder (queue : DraftAutosave C) (generation : Nat)
    (action : RecoveryAction C) :
    ∃ new, (queue.enqueue generation action).state.urgent = queue.state.urgent ++ new ∧
      (queue.enqueue generation action).writeOrder = queue.writeOrder ++ new := by
  obtain ⟨new, hurgent, -⟩ := queue.enqueue_flushed generation action
  refine ⟨new, hurgent, ?_⟩
  unfold writeOrder
  rw [hurgent, ← List.append_assoc]
  rfl

theorem NoneDropped.enqueue (h : NoneDropped queue) (generation : Nat)
    (action : RecoveryAction C) : NoneDropped (queue.enqueue generation action) := by
  obtain ⟨new, hurgent, horder⟩ := queue.enqueue_writeOrder generation action
  refine ⟨?_, ?_⟩
  · intro request hactive
    have hsame : (queue.enqueue generation action).state.active = queue.state.active :=
      enqueueFlush_active _ _ _ _
    rw [hsame] at hactive
    exact h.active request hactive
  · intro flush hflush
    rcases List.mem_append.1 hflush with hflush | hflush
    · obtain ⟨request, hmem, hrequest⟩ := h.flushes flush hflush
      exact ⟨request, by rw [horder]; exact List.mem_append_left _ hmem, hrequest⟩
    · -- the new flush attaches to a request, moves the pending one or brings its own
      obtain rfl := List.mem_singleton.1 hflush
      have hurgent' : ∀ request, request ∈ (queue.enqueue generation action).state.urgent →
          request ∈ (queue.enqueue generation action).writeOrder :=
        fun request hmem => List.mem_append_right _ hmem
      rcases enqueueFlush_cases queue.state generation action queue.flushes.length with
        ⟨request, hmem, ⟨hgeneration, haction⟩, -⟩ | ⟨pending, -, ⟨hgeneration, haction⟩, hflush⟩ |
        ⟨_, _, -, hflush⟩
      · refine ⟨request, ?_, by rw [hgeneration, haction]⟩
        rw [horder]
        exact List.mem_append_left _ (h.underway hmem)
      · refine ⟨pending, hurgent' _ ?_, by rw [hgeneration, haction]⟩
        show pending ∈ (queue.state.enqueueFlush _ _ _).urgent
        rw [hflush]
        exact List.mem_append_right _ (List.mem_singleton_self _)
      · refine ⟨⟨queue.state.nextRequestId, generation, action⟩, hurgent' _ ?_, rfl⟩
        show _ ∈ (queue.state.enqueueFlush _ _ _).urgent
        rw [hflush]
        exact List.mem_append_right _ (List.mem_singleton_self _)

theorem noneDropped_step (hqueue : NoneDropped queue) (h : step queue call = some queue') :
    NoneDropped queue' := by
  refine invariant_step (I := NoneDropped) ?_ ?_ ?_ ?_ ?_ ?_ ?_ hqueue h
  · exact fun queue hqueue => hqueue.startWrite
  · exact fun queue generation action hqueue => ⟨hqueue.active, hqueue.flushes⟩
  · exact fun queue generation action hqueue => hqueue.enqueue generation action
  · exact fun queue _ hqueue => ⟨hqueue.active, hqueue.flushes⟩
  · intro queue worker result queue' hqueue h
    obtain ⟨_, -, ⟨-, rfl⟩ | ⟨_, _, -, -, rfl⟩⟩ := writeEnded_cases h
    · exact ⟨hqueue.active, hqueue.flushes⟩
    · exact ⟨fun _ hnone => absurd hnone (Option.some_ne_none _).symm, hqueue.flushes⟩
  · exact fun queue _ _ _ _ _ hqueue _ => ⟨hqueue.active, hqueue.flushes⟩
  · exact fun queue _ _ _ hqueue _ => ⟨hqueue.active, hqueue.flushes⟩

/-! ## Each callback once, with the result of its own write -/

/-- The flush of a callback asked for the write `request`. -/
def AskedFor (queue : DraftAutosave C) (callback : Nat) (request : DraftWriteRequest C) : Prop :=
  queue.flushes[callback]? = some (request.generation, request.action)

/-- The requests of the state have distinct ids below the counter; each callback waits for a
request underway, is about to be invoked or has been invoked, with the result of a write that it
asked for. -/
structure Delivers (queue : DraftAutosave C) : Prop where
  ids_lt : ∀ request ∈ requests queue.state, request.requestId < queue.state.nextRequestId
  ids_nodup : ((requests queue.state).map DraftWriteRequest.requestId).Nodup
  waiting : ∀ waiter ∈ queue.state.waiters, ∃ request ∈ queue.state.underway,
    request.requestId = waiter.requestId ∧ queue.AskedFor waiter.callback request
  delivering : ∀ delivery ∈ queue.deliveries,
    (delivery.request, delivery.result) ∈ queue.finished ∧
      ∀ callback ∈ delivery.callbacks, queue.AskedFor callback delivery.request
  delivered : ∀ p ∈ queue.invoked, ∃ request,
    (request, p.2) ∈ queue.finished ∧ queue.AskedFor p.1 request
  once : (queue.state.waiters.map FlushWaiter.callback ++
    (queue.deliveries.flatMap Delivery.callbacks ++ queue.invoked.map Prod.fst)).Perm
      (List.range queue.flushes.length)

/-- While fewer than `u64::MAX` edits and flushes have been made the counter counts them. -/
structure CountsCalls (queue : DraftAutosave C) : Prop where
  next_le : queue.state.nextRequestId ≤ queue.submitted.length + 1
  delivers : queue.submitted.length < u64Max → Delivers queue

omit [DecidableEq C] in
/-- Starting a write moves no request in or out. -/
theorem startWrite_requests (queue : DraftAutosave C) :
    requests queue.startWrite.state = requests queue.state ∧
      (∀ request ∈ queue.state.underway, request ∈ queue.startWrite.state.underway) ∧
      queue.startWrite.state.nextRequestId = queue.state.nextRequestId ∧
      queue.startWrite.state.waiters = queue.state.waiters ∧
      queue.startWrite.submitted = queue.submitted ∧
      queue.startWrite.flushes = queue.flushes ∧ queue.startWrite.finished = queue.finished ∧
      queue.startWrite.invoked = queue.invoked := by
  rcases startWrite_cases queue with ⟨-, hstart⟩ | ⟨request, urgent, hactive, hurgent, hstart⟩ |
    ⟨request, hactive, hurgent, -, hpending, hstart⟩ | ⟨-, -, -, hstart⟩
  · rw [hstart]
    exact ⟨rfl, fun _ hmem => hmem, rfl, rfl, rfl, rfl, rfl, rfl⟩
  · rw [hstart]
    refine ⟨?_, ?_, rfl, rfl, rfl, rfl, rfl, rfl⟩
    · simp [requests, underway, hactive, hurgent]
    · simp [underway, hactive, hurgent]
  · rw [hstart]
    refine ⟨?_, ?_, rfl, rfl, rfl, rfl, rfl, rfl⟩
    · simp [requests, underway, hactive, hurgent, hpending]
    · simp [underway, hactive, hurgent]
  · rw [hstart]
    exact ⟨rfl, fun _ hmem => hmem, rfl, rfl, rfl, rfl, rfl, rfl⟩

omit [DecidableEq C] in
/-- The history of flushes only grows, so what a callback asked for stays. -/
theorem AskedFor.append {callback : Nat} {request : DraftWriteRequest C}
    (h : queue.AskedFor callback request) {flush : Nat × RecoveryAction C}
    (hflushes : queue'.flushes = queue.flushes ++ [flush]) :
    queue'.AskedFor callback request := by
  unfold AskedFor at h ⊢
  rw [hflushes, List.getElem?_append_left (List.getElem?_eq_some_iff.1 h).1]
  exact h

omit [DecidableEq C] in
theorem CountsCalls.startWrite (h : CountsCalls queue) : CountsCalls queue.startWrite := by
  obtain ⟨hrequests, hunderway, hnext, hwaiters, hsubmitted, hflushes, hfinished, hinvoked⟩ :=
    queue.startWrite_requests
  have hasked : ∀ callback request, queue.AskedFor callback request →
      queue.startWrite.AskedFor callback request := by
    intro callback request hasked
    unfold AskedFor
    rw [hflushes]
    exact hasked
  refine ⟨by rw [hnext, hsubmitted]; exact h.next_le, fun hcalls => ?_⟩
  have hqueue := h.delivers (by rw [← hsubmitted]; exact hcalls)
  refine ⟨?_, ?_, ?_, ?_, ?_, ?_⟩
  · rw [hrequests, hnext]
    exact hqueue.ids_lt
  · rw [hrequests]
    exact hqueue.ids_nodup
  · rw [hwaiters]
    intro waiter hwaiter
    obtain ⟨request, hmem, hid, hflush⟩ := hqueue.waiting waiter hwaiter
    exact ⟨request, hunderway request hmem, hid, hasked _ _ hflush⟩
  · rw [startWrite_deliveries, hfinished]
    intro delivery hdelivery
    obtain ⟨hmem, hcallbacks⟩ := hqueue.delivering delivery hdelivery
    exact ⟨hmem, fun callback hcallback => hasked _ _ (hcallbacks callback hcallback)⟩
  · rw [hinvoked, hfinished]
    intro p hp
    obtain ⟨request, hmem, hflush⟩ := hqueue.delivered p hp
    exact ⟨request, hmem, hasked _ _ hflush⟩
  · rw [hwaiters, startWrite_deliveries, hinvoked, hflushes]
    exact hqueue.once

omit [DecidableEq C] in
/-- A flush whose callback waits for a request underway that it asked for. -/
theorem Delivers.attach (h : Delivers queue) {generation : Nat} {action : RecoveryAction C}
    (state' : DraftAutosaveState C) (request : DraftWriteRequest C)
    (hlt : ∀ request ∈ requests state', request.requestId < state'.nextRequestId)
    (hnodup : ((requests state').map DraftWriteRequest.requestId).Nodup)
    (hunderway : ∀ request ∈ queue.state.underway, request ∈ state'.underway)
    (hmem : request ∈ state'.underway) (hmatches : Matches generation action request)
    (hwaiters : state'.waiters =
      queue.state.waiters ++ [⟨request.requestId, queue.flushes.length⟩])
    (hstate : queue'.state = state')
    (hflushes : queue'.flushes = queue.flushes ++ [(generation, action)])
    (hdeliveries : queue'.deliveries = queue.deliveries)
    (hfinished : queue'.finished = queue.finished) (hinvoked : queue'.invoked = queue.invoked) :
    Delivers queue' := by
  refine ⟨by rw [hstate]; exact hlt, by rw [hstate]; exact hnodup, ?_, ?_, ?_, ?_⟩
  · rw [hstate, hwaiters]
    intro waiter hwaiter
    rcases List.mem_append.1 hwaiter with hwaiter | hwaiter
    · obtain ⟨waited, hwaited, hid, hasked⟩ := h.waiting waiter hwaiter
      exact ⟨waited, hunderway waited hwaited, hid, hasked.append hflushes⟩
    · obtain rfl := List.mem_singleton.1 hwaiter
      refine ⟨request, hmem, rfl, ?_⟩
      show queue'.flushes[queue.flushes.length]? = some (request.generation, request.action)
      rw [hflushes, hmatches.1, hmatches.2, List.getElem?_concat_length]
  · rw [hdeliveries, hfinished]
    intro delivery hdelivery
    obtain ⟨hended, hcallbacks⟩ := h.delivering delivery hdelivery
    exact ⟨hended, fun callback hcallback => (hcallbacks callback hcallback).append hflushes⟩
  · rw [hinvoked, hfinished]
    intro p hp
    obtain ⟨written, hended, hasked⟩ := h.delivered p hp
    exact ⟨written, hended, hasked.append hflushes⟩
  · rw [hstate, hwaiters, hdeliveries, hinvoked, hflushes, List.length_append,
      List.length_singleton, List.range_succ, List.map_append, List.append_assoc]
    show (queue.state.waiters.map _ ++ ([queue.flushes.length] ++ _)).Perm _
    have hmove : (queue.state.waiters.map FlushWaiter.callback ++ ([queue.flushes.length] ++
        (queue.deliveries.flatMap Delivery.callbacks ++ queue.invoked.map Prod.fst))).Perm
        (queue.state.waiters.map FlushWaiter.callback ++
          (queue.deliveries.flatMap Delivery.callbacks ++ queue.invoked.map Prod.fst) ++
          [queue.flushes.length]) := by
      rw [List.append_assoc]
      exact List.Perm.append_left _ List.perm_append_comm
    exact hmove.trans (h.once.append_right _)

omit [DecidableEq C] in
/-- A new request with the id that the counter holds keeps the ids distinct, also when the pending
edit is dropped. -/
theorem Delivers.fresh_id (h : Delivers queue) (new : DraftWriteRequest C)
    (pending : Option (DraftWriteRequest C)) (hid : new.requestId = queue.state.nextRequestId)
    (hpending : pending = none ∨ pending = queue.state.pending) :
    (∀ request ∈ queue.state.underway ++ new :: pending.toList,
        request.requestId < queue.state.nextRequestId + 1) ∧
      ((queue.state.underway ++ new :: pending.toList).map
        DraftWriteRequest.requestId).Nodup := by
  have hsublist : (queue.state.underway ++ pending.toList).Sublist (requests queue.state) := by
    apply List.Sublist.append_left
    rcases hpending with rfl | rfl
    · exact List.nil_sublist _
    · exact List.Sublist.refl _
  have hperm : (queue.state.underway ++ new :: pending.toList).Perm
      (new :: (queue.state.underway ++ pending.toList)) := List.perm_middle
  refine ⟨?_, ?_⟩
  · intro request hmem
    rcases List.mem_cons.1 (hperm.mem_iff.1 hmem) with rfl | hmem
    · omega
    · have := h.ids_lt request (hsublist.subset hmem)
      omega
  · rw [(hperm.map DraftWriteRequest.requestId).nodup_iff, List.map_cons, List.nodup_cons]
    refine ⟨?_, h.ids_nodup.sublist (hsublist.map _)⟩
    intro hmem
    obtain ⟨request, hrequest, hsame⟩ := List.mem_map.1 hmem
    have := h.ids_lt request (hsublist.subset hrequest)
    omega

theorem Delivers.enqueue (h : Delivers queue) (hroom : queue.state.nextRequestId < u64Max)
    (generation : Nat) (action : RecoveryAction C) :
    Delivers (queue.enqueue generation action) := by
  have hstate : (queue.enqueue generation action).state =
    queue.state.enqueueFlush generation action queue.flushes.length := rfl
  rcases enqueueFlush_cases queue.state generation action queue.flushes.length with
    ⟨request, hmem, hmatches, hflush⟩ | ⟨pending, hpending, hmatches, hflush⟩ |
    ⟨pending, ready, hpending, hflush⟩
  · rw [hflush] at hstate
    exact h.attach { queue.state with
        debounceSource := false
        waiters := queue.state.waiters ++ [⟨request.requestId, queue.flushes.length⟩] } request
      h.ids_lt h.ids_nodup (fun _ hmem => hmem) hmem hmatches rfl hstate rfl rfl rfl rfl
  · -- the pending request moves to the end of what is underway
    rw [hflush] at hstate
    have hrequests : requests { queue.state with
        debounceSource := false, pending := none, pendingReady := false
        urgent := queue.state.urgent ++ [pending]
        waiters := queue.state.waiters ++ [⟨pending.requestId, queue.flushes.length⟩] } =
        requests queue.state := by
      simp [requests, underway, hpending]
    refine h.attach _ pending ?_ ?_ ?_ ?_ hmatches rfl hstate rfl rfl rfl rfl
    · rw [hrequests]
      exact h.ids_lt
    · rw [hrequests]
      exact h.ids_nodup
    · intro request hmem
      show request ∈ queue.state.active.toList ++ (queue.state.urgent ++ [pending])
      rw [← List.append_assoc]
      exact List.mem_append_left _ hmem
    · show pending ∈ queue.state.active.toList ++ (queue.state.urgent ++ [pending])
      rw [← List.append_assoc]
      exact List.mem_append_right _ (List.mem_singleton_self _)
  · rw [hflush] at hstate
    have hpending' : pending = none ∨ pending = queue.state.pending :=
      hpending.imp id fun hnewer => hnewer.2.1
    obtain ⟨hlt, hnodup⟩ := h.fresh_id
      ⟨queue.state.nextRequestId, generation, action⟩ pending rfl hpending'
    have hrequests : requests { queue.state with
        debounceSource := false, pending := pending, pendingReady := ready
        urgent := queue.state.urgent ++ [⟨queue.state.nextRequestId, generation, action⟩]
        nextRequestId := saturatingSucc queue.state.nextRequestId
        latestRequestId := queue.state.nextRequestId
        waiters := queue.state.waiters ++
          [⟨queue.state.nextRequestId, queue.flushes.length⟩] } =
        queue.state.underway ++
          ⟨queue.state.nextRequestId, generation, action⟩ :: pending.toList := by
      simp [requests, underway]
    refine h.attach _ ⟨queue.state.nextRequestId, generation, action⟩ ?_ ?_ ?_ ?_
      ⟨rfl, rfl⟩ rfl hstate rfl rfl rfl rfl
    · rw [hrequests]
      show ∀ request ∈ queue.state.underway ++
        ⟨queue.state.nextRequestId, generation, action⟩ :: pending.toList,
        request.requestId < saturatingSucc queue.state.nextRequestId
      rw [saturatingSucc_of_lt hroom]
      exact hlt
    · rw [hrequests]
      exact hnodup
    · intro request hmem
      show request ∈ queue.state.active.toList ++ (queue.state.urgent ++ [_])
      rw [← List.append_assoc]
      exact List.mem_append_left _ hmem
    · show _ ∈ queue.state.active.toList ++ (queue.state.urgent ++ [_])
      rw [← List.append_assoc]
      exact List.mem_append_right _ (List.mem_singleton_self _)

omit [DecidableEq C] in
theorem Delivers.schedule (h : Delivers queue) (hroom : queue.state.nextRequestId < u64Max)
    (generation : Nat) (action : RecoveryAction C) :
    Delivers { queue with
      state := queue.state.schedule generation action
      submitted := queue.submitted ++ [(generation, action)] } := by
  obtain ⟨hlt, hnodup⟩ := h.fresh_id
    ⟨queue.state.nextRequestId, generation, action⟩ none rfl (Or.inl rfl)
  refine ⟨?_, hnodup, h.waiting, h.delivering, h.delivered, h.once⟩
  show ∀ request ∈ queue.state.underway ++ [⟨queue.state.nextRequestId, generation, action⟩],
    request.requestId < saturatingSucc queue.state.nextRequestId
  rw [saturatingSucc_of_lt hroom]
  exact hlt

/-- A completion hands the result of the active write to the callbacks that wait for its id: they
asked for this write, since no other request has the id. -/
theorem Delivers.writeEnded (h : Delivers queue) {worker : Nat} {result : WriteResult}
    (hended : step queue (.writeEnded worker result) = some queue') : Delivers queue' := by
  obtain ⟨requestId, -, ⟨-, rfl⟩ | ⟨request, event, hactive, rfl, rfl⟩⟩ := writeEnded_cases hended
  · exact ⟨h.ids_lt, h.ids_nodup, h.waiting, h.delivering, h.delivered, h.once⟩
  · have hunderway : queue.state.underway = request :: queue.state.urgent := by
      simp [underway, hactive]
    have hrequests : requests queue.state =
        request :: (queue.state.urgent ++ queue.state.pending.toList) := by
      simp [requests, hunderway]
    have hfinished : ∀ p, p ∈ queue.finished → p ∈ queue.finished ++ [(request, result)] :=
      fun p hp => List.mem_append_left _ hp
    have hrest := h.ids_nodup
    rw [hrequests, List.map_cons, List.nodup_cons] at hrest
    refine ⟨?_, hrest.2, ?_, ?_, ?_, ?_⟩
    · intro other hmem
      apply h.ids_lt other
      rw [hrequests]
      exact List.mem_cons_of_mem _ hmem
    · -- A callback that goes on waiting waits for another request.
      intro waiter hwaiter
      obtain ⟨hwaiter, hother⟩ := List.mem_filter.1 hwaiter
      obtain ⟨waited, hwaited, hid, hasked⟩ := h.waiting waiter hwaiter
      refine ⟨waited, ?_, hid, hasked⟩
      rw [hunderway] at hwaited
      rcases List.mem_cons.1 hwaited with rfl | hwaited
      · simp [hid] at hother
      · exact hwaited
    · -- A callback that is handed out had asked for the request with this id, and ids are distinct.
      intro delivery hdelivery
      rcases List.mem_cons.1 hdelivery with rfl | hdelivery
      · refine ⟨List.mem_append_right _ (List.mem_singleton_self _), ?_⟩
        intro callback hcallback
        obtain ⟨waiter, hwaiter, rfl⟩ := List.mem_map.1 hcallback
        obtain ⟨hwaiter, hsame⟩ := List.mem_filter.1 hwaiter
        obtain ⟨waited, hwaited, hid, hasked⟩ := h.waiting waiter hwaiter
        have hwaited' : waited ∈ requests queue.state := List.mem_append_left _ hwaited
        have hrequest : request ∈ requests queue.state := by
          rw [hrequests]
          exact List.mem_cons_self
        have heq : waited = request := List.inj_on_of_nodup_map h.ids_nodup hwaited' hrequest
          (hid.trans (of_decide_eq_true hsame))
        rw [heq] at hasked
        exact hasked
      · obtain ⟨hmem, hcallbacks⟩ := h.delivering delivery hdelivery
        exact ⟨hfinished _ hmem, hcallbacks⟩
    · intro p hp
      obtain ⟨written, hmem, hasked⟩ := h.delivered p hp
      exact ⟨written, hfinished _ hmem, hasked⟩
    · -- The callbacks move from those that wait to those that are delivered, and none is lost.
      refine List.Perm.trans ?_ h.once
      have hsplit : (queue.state.waiters.filter
            (fun waiter => waiter.requestId = request.requestId) ++
          queue.state.waiters.filter fun waiter => waiter.requestId ≠ request.requestId).Perm
            queue.state.waiters := by
        have hpartition := List.filter_append_perm
          (fun waiter : FlushWaiter => decide (waiter.requestId = request.requestId))
          queue.state.waiters
        simpa using hpartition
      have hcallbacks := hsplit.map FlushWaiter.callback
      rw [List.map_append] at hcallbacks
      show ((queue.state.waiters.filter _).map FlushWaiter.callback ++
        ((queue.state.waiters.filter _).map FlushWaiter.callback ++
          queue.deliveries.flatMap Delivery.callbacks ++ queue.invoked.map Prod.fst)).Perm _
      rw [List.append_assoc, ← List.append_assoc]
      exact (List.perm_append_comm.trans hcallbacks).append_right _

theorem countsCalls_step (hqueue : CountsCalls queue) (h : step queue call = some queue') :
    CountsCalls queue' := by
  have hsaturating : ∀ n m : Nat, n ≤ m + 1 → saturatingSucc n ≤ m + 1 + 1 := by
    intro n m hle
    have : saturatingSucc n ≤ n + 1 := Nat.min_le_left _ _
    omega
  -- The parts of the calls in turn: start of a write, edit, flush, timer, end of a write, callback,
  -- end of the delivery. The counter grows by at most one with each edit and flush.
  refine invariant_step (I := CountsCalls) ?_ ?_ ?_ ?_ ?_ ?_ ?_ hqueue h
  · exact fun queue hqueue => hqueue.startWrite
  · intro queue generation action hqueue
    have hlength : (queue.submitted ++ [(generation, action)]).length =
        queue.submitted.length + 1 := by simp
    have hnext := hqueue.next_le
    refine ⟨?_, fun hcalls => (hqueue.delivers ?_).schedule ?_ generation action⟩
    · show saturatingSucc queue.state.nextRequestId ≤ (queue.submitted ++ [_]).length + 1
      rw [hlength]
      exact hsaturating _ _ hnext
    · simp only [hlength] at hcalls
      omega
    · simp only [hlength] at hcalls
      omega
  · intro queue generation action hqueue
    have hlength : (queue.enqueue generation action).submitted.length =
        queue.submitted.length + 1 := List.length_append
    have hnext := hqueue.next_le
    refine ⟨?_, fun hcalls => (hqueue.delivers ?_).enqueue ?_ generation action⟩
    · rw [hlength]
      show (queue.state.enqueueFlush _ _ _).nextRequestId ≤ _
      rcases enqueueFlush_cases queue.state generation action queue.flushes.length with
        ⟨_, -, -, hflush⟩ | ⟨_, -, -, hflush⟩ | ⟨_, _, -, hflush⟩
      · rw [hflush]
        show queue.state.nextRequestId ≤ _
        omega
      · rw [hflush]
        show queue.state.nextRequestId ≤ _
        omega
      · rw [hflush]
        exact hsaturating _ _ hnext
    · omega
    · omega
  · intro queue _ hqueue
    refine ⟨hqueue.next_le, fun hcalls => ?_⟩
    have h := hqueue.delivers hcalls
    exact ⟨h.ids_lt, h.ids_nodup, h.waiting, h.delivering, h.delivered, h.once⟩
  · intro queue worker result queue' hqueue hended
    have hsame : queue'.state.nextRequestId = queue.state.nextRequestId ∧
        queue'.submitted = queue.submitted := by
      obtain ⟨_, -, ⟨-, rfl⟩ | ⟨_, _, -, -, rfl⟩⟩ := writeEnded_cases hended
      · exact ⟨rfl, rfl⟩
      · exact ⟨rfl, rfl⟩
    refine ⟨by rw [hsame.1, hsame.2]; exact hqueue.next_le, fun hcalls => ?_⟩
    rw [hsame.2] at hcalls
    exact (hqueue.delivers hcalls).writeEnded hended
  · intro queue request result callback callbacks deliveries hqueue hdeliveries
    refine ⟨hqueue.next_le, fun hcalls => ?_⟩
    have h := hqueue.delivers hcalls
    have hfirst := h.delivering ⟨request, result, callback :: callbacks⟩
      (by rw [hdeliveries]; exact List.mem_cons_self)
    refine ⟨h.ids_lt, h.ids_nodup, h.waiting, ?_, ?_, ?_⟩
    · intro delivery hdelivery
      rcases List.mem_cons.1 hdelivery with rfl | hdelivery
      · exact ⟨hfirst.1, fun other hother => hfirst.2 other (List.mem_cons_of_mem _ hother)⟩
      · exact h.delivering delivery (by rw [hdeliveries]; exact List.mem_cons_of_mem _ hdelivery)
    · intro p hp
      rcases List.mem_append.1 hp with hp | hp
      · exact h.delivered p hp
      · obtain rfl := List.mem_singleton.1 hp
        exact ⟨request, hfirst.1, hfirst.2 callback List.mem_cons_self⟩
    · refine List.Perm.trans ?_ h.once
      rw [hdeliveries]
      apply List.Perm.append_left
      rw [List.map_append]
      show (callbacks ++ _ ++ (queue.invoked.map Prod.fst ++ [callback])).Perm
        (callback :: (callbacks ++ _ ++ queue.invoked.map Prod.fst))
      rw [← List.append_assoc]
      exact List.perm_append_singleton _ _
  · intro queue request result deliveries hqueue hdeliveries
    refine ⟨hqueue.next_le, fun hcalls => ?_⟩
    have h := hqueue.delivers hcalls
    refine ⟨h.ids_lt, h.ids_nodup, h.waiting, ?_, h.delivered, ?_⟩
    · exact fun delivery hdelivery => h.delivering delivery
        (by rw [hdeliveries]; exact List.mem_cons_of_mem _ hdelivery)
    · have honce := h.once
      rw [hdeliveries] at honce
      exact honce

end Notm.Ui.DraftAutosave
