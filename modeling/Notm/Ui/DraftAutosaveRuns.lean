import Notm.Ui.DraftAutosaveDelivery

/-!
# Runs of the draft autosave queue

The newest edit is written last when the generations never decrease; with what the queue delivers
this is put together for whole runs. The last part shows that the bound on the number of calls is
needed: behind it two flushes share a request id, and the second is answered with the result of
the first.

* `Newest` — the writes are in the order of their generations, and none is newer than what waits.
* `newest_step`, `Newest.last_write` — each step keeps the newest edit last.
* `draftAutosave_run` — all of it for whole runs.
* `flush_answered_by_other` — why the callbacks need a bound on the number of calls.
-/

namespace Notm.Ui.DraftAutosave

open Rust DraftAutosaveState

variable {C : Type*} {queue queue' : DraftAutosave C} {call : DraftAutosaveCall C}

/-! ## The newest edit is written last -/

/-- The generations never decrease, and equal generations carry equal actions. -/
def NeverDecrease (submitted : List (Nat × RecoveryAction C)) : Prop :=
  submitted.Pairwise fun a b => a.1 ≤ b.1 ∧ (a.1 = b.1 → a.2 = b.2)

theorem NeverDecrease.init {submitted : List (Nat × RecoveryAction C)}
    {last : Nat × RecoveryAction C} (h : NeverDecrease (submitted ++ [last])) :
    NeverDecrease submitted ∧ ∀ edit ∈ submitted, edit.1 ≤ last.1 := by
  obtain ⟨hinit, -, hlast⟩ := List.pairwise_append.1 h
  exact ⟨hinit, fun edit hedit => (hlast edit hedit last (List.mem_singleton_self _)).1⟩

/-- Every edit is at most as new as the last one, and the same where it is as new. -/
theorem NeverDecrease.le_last {submitted : List (Nat × RecoveryAction C)}
    {last edit : Nat × RecoveryAction C} (h : NeverDecrease submitted)
    (hlast : submitted.getLast? = some last) (hedit : edit ∈ submitted) :
    edit.1 ≤ last.1 ∧ (edit.1 = last.1 → edit = last) := by
  obtain ⟨init, rfl⟩ := List.getLast?_eq_some_iff.1 hlast
  obtain ⟨-, -, hcross⟩ := List.pairwise_append.1 h
  rcases List.mem_append.1 hedit with hedit | hedit
  · obtain ⟨hle, hsame⟩ := hcross edit hedit last (List.mem_singleton_self _)
    exact ⟨hle, fun heq => Prod.ext heq (hsame heq)⟩
  · obtain rfl := List.mem_singleton.1 hedit
    exact ⟨Nat.le_refl _, fun _ => rfl⟩

/-- The edit or flush that the request came from. -/
def edit (request : DraftWriteRequest C) : Nat × RecoveryAction C :=
  (request.generation, request.action)

/-- The writes are in the order of their generations; a pending edit is the newest; and when no
pending edit is on its way to be written, the newest is the last of the writes. -/
structure Newest (queue : DraftAutosave C) : Prop where
  asked : ∀ request ∈ queue.writeOrder ++ queue.state.pending.toList,
    edit request ∈ queue.submitted
  ordered : queue.writeOrder.Pairwise fun a b => a.generation ≤ b.generation
  pending_newest : ∀ pending, queue.state.pending = some pending →
    ∀ edit ∈ queue.submitted, edit.1 ≤ pending.generation
  latest : queue.submitted ≠ [] →
    (queue.state.pending.isSome = true ∧
      (queue.state.pendingReady = true ∨ queue.state.debounceSource = true)) ∨
    ∃ last, queue.writeOrder.getLast? = some last ∧
      ∀ edit ∈ queue.submitted, edit.1 ≤ last.generation

/-- No write is newer than the pending edit. -/
theorem Newest.le_pending (h : Newest queue) {pending request : DraftWriteRequest C}
    (hpending : queue.state.pending = some pending) (hmem : request ∈ queue.writeOrder) :
    request.generation ≤ pending.generation :=
  h.pending_newest pending hpending _ (h.asked request (List.mem_append_left _ hmem))

/-- What is as new as all edits may join the order of the writes at its end. -/
theorem Newest.append (h : Newest queue) {new : DraftWriteRequest C}
    (horder : queue'.writeOrder = queue.writeOrder ++ [new])
    (hsubmitted : ∀ edit ∈ queue.submitted, edit ∈ queue'.submitted)
    (hnew : edit new ∈ queue'.submitted)
    (hnewest : ∀ edit ∈ queue'.submitted, edit.1 ≤ new.generation)
    (hpending : queue'.state.pending = none) : Newest queue' := by
  refine ⟨?_, ?_, ?_, fun _ => Or.inr ⟨new, ?_, hnewest⟩⟩
  · rw [horder, hpending, Option.toList_none, List.append_nil]
    intro request hmem
    rcases List.mem_append.1 hmem with hmem | hmem
    · exact hsubmitted _ (h.asked request (List.mem_append_left _ hmem))
    · obtain rfl := List.mem_singleton.1 hmem
      exact hnew
  · rw [horder, List.pairwise_append]
    refine ⟨h.ordered, List.pairwise_singleton _ _, ?_⟩
    intro request hmem last hlast
    obtain rfl := List.mem_singleton.1 hlast
    exact hnewest _ (hsubmitted _ (h.asked request (List.mem_append_left _ hmem)))
  · intro pending hsome
    rw [hpending] at hsome
    exact absurd hsome (Option.some_ne_none _).symm
  · rw [horder, List.getLast?_concat]

theorem Newest.startWrite (h : Newest queue) : Newest queue.startWrite := by
  rcases startWrite_cases queue with ⟨-, hstart⟩ | ⟨request, urgent, -, hurgent, hstart⟩ |
    ⟨request, -, hurgent, -, hpending, hstart⟩ | ⟨-, -, hready, hstart⟩
  · rw [hstart]
    exact h
  · have horder : queue.startWrite.writeOrder = queue.writeOrder := by
      rw [hstart]
      simp [writeOrder, hurgent]
    have hasked := h.asked
    have hordered := h.ordered
    have hlatest := h.latest
    rw [← horder] at hasked hordered hlatest
    rw [hstart] at hasked hordered hlatest ⊢
    exact ⟨hasked, hordered, h.pending_newest, hlatest⟩
  · -- the pending edit is the newest and joins the writes
    have horder : queue.startWrite.writeOrder = queue.writeOrder ++ [request] := by
      rw [hstart]
      simp [writeOrder, hurgent]
    have hasked : edit request ∈ queue.submitted :=
      h.asked request (List.mem_append_right _ (by rw [hpending]; simp))
    have hnewest := h.pending_newest request hpending
    have hsubmitted : queue.startWrite.submitted = queue.submitted := by rw [hstart]
    have hnone : queue.startWrite.state.pending = none := by rw [hstart]
    refine h.append horder ?_ ?_ ?_ hnone
    · rw [hsubmitted]
      exact fun _ hmem => hmem
    · rw [hsubmitted]
      exact hasked
    · rw [hsubmitted]
      exact hnewest
  · rw [hstart]
    refine ⟨h.asked, h.ordered, h.pending_newest, fun hsubmitted => ?_⟩
    refine (h.latest hsubmitted).imp ?_ id
    rintro ⟨hsome, hruns⟩
    refine ⟨hsome, Or.inr ?_⟩
    rcases hready with hready | hnone
    · rcases hruns with hruns | hruns
      · rw [hready] at hruns
        exact absurd hruns (by decide)
      · exact hruns
    · rw [hnone] at hsome
      exact absurd hsome (by simp)

variable [DecidableEq C]

theorem Newest.enqueue (h : Newest queue) (hnone : NoneDropped queue) {generation : Nat}
    {action : RecoveryAction C} (hnewest : ∀ edit ∈ queue.submitted, edit.1 ≤ generation) :
    Newest (queue.enqueue generation action) := by
  have hsubmitted : ∀ edit ∈ queue.submitted,
      edit ∈ (queue.enqueue generation action).submitted :=
    fun edit hmem => List.mem_append_left _ hmem
  have hlast : (generation, action) ∈ (queue.enqueue generation action).submitted :=
    List.mem_append_right _ (List.mem_singleton_self _)
  have hall : ∀ edit ∈ (queue.enqueue generation action).submitted, edit.1 ≤ generation := by
    intro edit hmem
    rcases List.mem_append.1 hmem with hmem | hmem
    · exact hnewest edit hmem
    · obtain rfl := List.mem_singleton.1 hmem
      exact Nat.le_refl _
  have hurgent : ∀ new, (queue.enqueue generation action).state.urgent =
      queue.state.urgent ++ new →
      (queue.enqueue generation action).writeOrder = queue.writeOrder ++ new := by
    intro new hurgent
    unfold writeOrder
    rw [hurgent, ← List.append_assoc]
    rfl
  have hstate : (queue.enqueue generation action).state =
    queue.state.enqueueFlush generation action queue.flushes.length := rfl
  rcases enqueueFlush_cases queue.state generation action queue.flushes.length with
    ⟨request, hmem, ⟨hgeneration, -⟩, hflush⟩ |
      ⟨pending, hpending, ⟨hgeneration, haction⟩, hflush⟩ |
    ⟨pending, ready, hpending, hflush⟩
  · -- the request underway is as new as the flush, so the last write is, too
    rw [hflush] at hstate
    have horder : (queue.enqueue generation action).writeOrder = queue.writeOrder := by
      rw [hurgent [] (by rw [hstate, List.append_nil]), List.append_nil]
    have hmem' := hnone.underway hmem
    refine ⟨?_, ?_, ?_, fun _ => Or.inr ?_⟩
    · rw [horder, hstate]
      exact fun request hmem => hsubmitted _ (h.asked request hmem)
    · rw [horder]
      exact h.ordered
    · rw [hstate]
      intro pending hpending edit hedit
      have hle := h.le_pending hpending hmem'
      have := hall edit hedit
      omega
    · rw [horder]
      obtain ⟨init, last, hsplit⟩ :=
        (List.eq_nil_or_concat queue.writeOrder).resolve_left (List.ne_nil_of_mem hmem')
      rw [List.concat_eq_append] at hsplit
      refine ⟨last, by rw [hsplit, List.getLast?_concat], fun edit hedit => ?_⟩
      have hle : request.generation ≤ last.generation := by
        have hordered := h.ordered
        rw [hsplit] at hordered hmem'
        rcases List.mem_append.1 hmem' with hinit | hsame
        · exact (List.pairwise_append.1 hordered).2.2 _ hinit _ (List.mem_singleton_self _)
        · rw [List.mem_singleton.1 hsame]
      have := hall edit hedit
      omega
  · rw [hflush] at hstate
    refine h.append (hurgent [pending] (by rw [hstate])) hsubmitted ?_ ?_ (by rw [hstate])
    · show (pending.generation, pending.action) ∈ _
      rw [hgeneration, haction]
      exact hlast
    · rw [hgeneration]
      exact hall
  · rw [hflush] at hstate
    have hdropped : pending = none := by
      rcases hpending with hpending | ⟨-, -, newer, hnewer, hlt⟩
      · exact hpending
      · -- an edit newer than the flush would have been submitted before it
        have hasked := h.asked newer (List.mem_append_right _ (by rw [hnewer]; simp))
        have hle : newer.generation ≤ generation := hnewest _ hasked
        omega
    have horder := hurgent [⟨queue.state.nextRequestId, generation, action⟩] (by rw [hstate])
    refine h.append horder hsubmitted ?_ hall ?_
    · show (generation, action) ∈ _
      exact hlast
    · rw [hstate]
      exact hdropped

/-- Where the generations never decrease, each step keeps the newest edit last. -/
theorem newest_step (hqueue : NoneDropped queue ∧ (NeverDecrease queue.submitted → Newest queue))
    (h : step queue call = some queue') :
    NoneDropped queue' ∧ (NeverDecrease queue'.submitted → Newest queue') := by
  refine ⟨noneDropped_step hqueue.1 h, ?_⟩
  refine (invariant_step (I := fun queue => NoneDropped queue ∧
    (NeverDecrease queue.submitted → Newest queue)) ?_ ?_ ?_ ?_ ?_ ?_ ?_ hqueue h).2
  · rintro queue ⟨hnone, hqueue⟩
    refine ⟨hnone.startWrite, fun hdecrease => ?_⟩
    obtain ⟨-, -, -, -, hsubmitted, -⟩ := queue.startWrite_requests
    rw [hsubmitted] at hdecrease
    exact (hqueue hdecrease).startWrite
  · -- An edit: it takes the place of the pending one and is as new as any.
    rintro queue generation action ⟨hnone, hqueue⟩
    refine ⟨⟨hnone.active, hnone.flushes⟩, fun hdecrease => ?_⟩
    obtain ⟨hinit, hnewest⟩ := hdecrease.init
    have h := hqueue hinit
    refine ⟨?_, h.ordered, ?_, fun _ => Or.inl ⟨rfl, Or.inr rfl⟩⟩
    · intro request hmem
      rcases List.mem_append.1 hmem with hmem | hmem
      · exact List.mem_append_left _ (h.asked request (List.mem_append_left _ hmem))
      · obtain rfl := List.mem_singleton.1 hmem
        exact List.mem_append_right _ (List.mem_singleton_self _)
    · intro pending hpending edit hedit
      obtain rfl := Option.some.inj hpending
      rcases List.mem_append.1 hedit with hedit | hedit
      · exact hnewest edit hedit
      · obtain rfl := List.mem_singleton.1 hedit
        exact Nat.le_refl _
  · rintro queue generation action ⟨hnone, hqueue⟩
    refine ⟨hnone.enqueue generation action, fun hdecrease => ?_⟩
    obtain ⟨hinit, hnewest⟩ := hdecrease.init
    exact (hqueue hinit).enqueue hnone hnewest
  · rintro queue - ⟨hnone, hqueue⟩
    refine ⟨⟨hnone.active, hnone.flushes⟩, fun hdecrease => ?_⟩
    have h := hqueue hdecrease
    refine ⟨h.asked, h.ordered, h.pending_newest, fun hsubmitted => ?_⟩
    exact (h.latest hsubmitted).imp (fun hpending => ⟨hpending.1, Or.inl rfl⟩) id
  · rintro queue worker result queue' ⟨hnone, hqueue⟩ h
    refine ⟨noneDropped_step hnone h, ?_⟩
    obtain ⟨_, -, ⟨-, rfl⟩ | ⟨_, _, -, -, rfl⟩⟩ := writeEnded_cases h
    · exact fun hdecrease => ⟨(hqueue hdecrease).asked, (hqueue hdecrease).ordered,
        (hqueue hdecrease).pending_newest, (hqueue hdecrease).latest⟩
    · exact fun hdecrease => ⟨(hqueue hdecrease).asked, (hqueue hdecrease).ordered,
        (hqueue hdecrease).pending_newest, (hqueue hdecrease).latest⟩
  · rintro queue _ _ _ _ _ ⟨hnone, hqueue⟩ -
    exact ⟨⟨hnone.active, hnone.flushes⟩, fun hdecrease => ⟨(hqueue hdecrease).asked,
      (hqueue hdecrease).ordered, (hqueue hdecrease).pending_newest, (hqueue hdecrease).latest⟩⟩
  · rintro queue _ _ _ ⟨hnone, hqueue⟩ -
    exact ⟨⟨hnone.active, hnone.flushes⟩, fun hdecrease => ⟨(hqueue hdecrease).asked,
      (hqueue hdecrease).ordered, (hqueue hdecrease).pending_newest, (hqueue hdecrease).latest⟩⟩

omit [DecidableEq C] in
/-- When nothing is on its way to be written, the last write is that of the last edit or flush. -/
theorem Newest.last_write (h : Newest queue) (hdecrease : NeverDecrease queue.submitted)
    (hurgent : queue.state.urgent = []) (hready : queue.state.pendingReady = false)
    (htimer : queue.state.debounceSource = false) {last : Nat × RecoveryAction C}
    (hlast : queue.submitted.getLast? = some last) :
    ∃ write, queue.started.getLast? = some write ∧ edit write.2 = last := by
  have hsubmitted : queue.submitted ≠ [] := by
    intro hnil
    rw [hnil] at hlast
    exact absurd hlast (by simp)
  rcases h.latest hsubmitted with ⟨-, hruns⟩ | ⟨request, hrequest, hnewest⟩
  · rw [hready, htimer] at hruns
    simp at hruns
  · have horder : queue.writeOrder = queue.started.map Prod.snd := by
      unfold writeOrder
      rw [hurgent, List.append_nil]
    have hmem : request ∈ queue.writeOrder := List.mem_of_getLast? hrequest
    have hasked := h.asked request (List.mem_append_left _ hmem)
    obtain ⟨hle, hsame⟩ := hdecrease.le_last hlast hasked
    have hge := hnewest last (List.mem_of_getLast? hlast)
    have hlastEdit : edit request = last := hsame (Nat.le_antisymm hle hge)
    rw [horder, List.getLast?_map] at hrequest
    obtain ⟨write, hwrite, rfl⟩ := Option.map_eq_some_iff.1 hrequest
    exact ⟨write, hwrite, hlastEdit⟩

/-! ## Whole runs -/

/-- **What the queue does in every run.** One write at a time; the flushes start in their order and
none is dropped; with fewer than `u64::MAX` edits and flushes, when no write is active or queued
each callback has been invoked once, with the result of a write that it asked for; and if the
generations never decrease, when nothing is queued, ready or active the last write is that of the
last edit or flush. -/
theorem draftAutosave_run {trace : List (DraftAutosave C × DraftAutosaveCall C)}
    (hrun : Transition.Run (Transition.Steps step) {} trace queue) :
    queue.workers.length ≤ 1 ∧
    queue.flushed = (queue.started.filter Prod.fst).map Prod.snd ++ queue.state.urgent ∧
    (∀ flush ∈ queue.flushes, ∃ request ∈ queue.started.map Prod.snd ++ queue.state.urgent,
      (request.generation, request.action) = flush) ∧
    (queue.submitted.length < u64Max → queue.state.active = none → queue.state.urgent = [] →
      queue.deliveries = [] →
      (queue.invoked.map Prod.fst).Perm (List.range queue.flushes.length) ∧
      ∀ p ∈ queue.invoked, ∃ request, (request, p.2) ∈ queue.finished ∧
        queue.flushes[p.1]? = some (request.generation, request.action)) ∧
    (NeverDecrease queue.submitted → queue.state.active = none → queue.state.urgent = [] →
      queue.state.pendingReady = false → queue.state.debounceSource = false →
      ∀ last, queue.submitted.getLast? = some last →
        ∃ write, queue.started.getLast? = some write ∧
          (write.2.generation, write.2.action) = last) := by
  -- The four invariants hold of the empty queue, and every step keeps them.
  have hworker : OneWorker queue := by
    apply Transition.Run.invariant (I := OneWorker) _ _ hrun
    · exact fun _ _ _ hqueue hstep => oneWorker_step hqueue hstep
    · show [] = []
      rfl
  have horder : FlushOrder queue := by
    apply Transition.Run.invariant (I := FlushOrder) _ _ hrun
    · exact fun _ _ _ hqueue hstep => flushOrder_step hqueue hstep
    · show [] = []
      rfl
  have hcounts : CountsCalls queue := by
    apply Transition.Run.invariant (I := CountsCalls) _ _ hrun
    · exact fun _ _ _ hqueue hstep => countsCalls_step hqueue hstep
    refine ⟨Nat.le_refl _, fun _ => ⟨?_, List.nodup_nil, ?_, ?_, ?_, List.Perm.refl _⟩⟩
    all_goals exact fun _ hmem => absurd hmem List.not_mem_nil
  have hnewest : NoneDropped queue ∧ (NeverDecrease queue.submitted → Newest queue) := by
    apply Transition.Run.invariant (I := fun queue => NoneDropped queue ∧
      (NeverDecrease queue.submitted → Newest queue)) _ _ hrun
    · exact fun _ _ _ hqueue hstep => newest_step hqueue hstep
    refine ⟨⟨?_, ?_⟩, ?_⟩
    · exact fun _ hactive => absurd hactive (Option.some_ne_none _).symm
    · exact fun _ hmem => absurd hmem List.not_mem_nil
    · refine fun _ => ⟨fun _ hmem => absurd hmem List.not_mem_nil, List.Pairwise.nil, ?_, ?_⟩
      · exact fun _ hpending => absurd hpending (Option.some_ne_none _).symm
      · exact fun hne => absurd rfl hne
  refine ⟨?_, horder, hnewest.1.flushes, ?_, ?_⟩
  · unfold OneWorker at hworker
    rw [hworker, List.length_map]
    cases queue.state.active with
    | none => exact Nat.zero_le 1
    | some active => exact Nat.le_refl 1
  · -- A callback still waiting would wait for a request that is active or queued, and there is
    -- none.
    intro hcalls hactive hurgent hdeliveries
    have h := hcounts.delivers hcalls
    have hwaiters : queue.state.waiters = [] := by
      cases hwaiters : queue.state.waiters with
      | nil => rfl
      | cons waiter rest =>
        obtain ⟨request, hmem, -⟩ := h.waiting waiter (by rw [hwaiters]; exact List.mem_cons_self)
        simp [underway, hactive, hurgent] at hmem
    have honce := h.once
    rw [hwaiters, hdeliveries] at honce
    exact ⟨honce, h.delivered⟩
  · intro hdecrease _ hurgent hready htimer last hlast
    exact (hnewest.2 hdecrease).last_write hdecrease hurgent hready htimer hlast

/-- One edit, its write, and a second edit that is flushed: both are written, in order. -/
theorem draftAutosave_run_twoEdits : ∃ queue : DraftAutosave Nat,
    (queue.workers.length ≤ 1 ∧
    queue.flushed = (queue.started.filter Prod.fst).map Prod.snd ++ queue.state.urgent ∧
    (∀ flush ∈ queue.flushes, ∃ request ∈ queue.started.map Prod.snd ++ queue.state.urgent,
      (request.generation, request.action) = flush) ∧
    (queue.submitted.length < u64Max → queue.state.active = none → queue.state.urgent = [] →
      queue.deliveries = [] →
      (queue.invoked.map Prod.fst).Perm (List.range queue.flushes.length) ∧
      ∀ p ∈ queue.invoked, ∃ request, (request, p.2) ∈ queue.finished ∧
        queue.flushes[p.1]? = some (request.generation, request.action)) ∧
    (NeverDecrease queue.submitted → queue.state.active = none → queue.state.urgent = [] →
      queue.state.pendingReady = false → queue.state.debounceSource = false →
      ∀ last, queue.submitted.getLast? = some last →
        ∃ write, queue.started.getLast? = some write ∧
          (write.2.generation, write.2.action) = last)) ∧
    queue.invoked = [(0, .ok ())] :=
  ⟨_, draftAutosave_run (Transition.run_of_exec
    [.schedule 1 (.persist 1), .debounceElapsed, .flush 2 (.persist 2), .writeEnded 0 (.ok ()),
      .deliveryEnded, .writeEnded 0 (.ok ()), .invokeCallback, .deliveryEnded] rfl), rfl⟩

/-! ## Behind the end of the request ids -/

/-- After as many edits as there are ids the counter stands at its end. -/
theorem ids_exhausted (n : Nat) : ∃ trace id latest submitted,
    Transition.Run (Transition.Steps step) ({} : DraftAutosave Unit) trace
      { state :=
          { pending := some ⟨id, 0, .clear⟩, debounceSource := true
            nextRequestId := min (n + 2) u64Max, latestRequestId := latest }
        submitted := submitted } := by
  induction n with
  | zero =>
    have hfirst : step ({} : DraftAutosave Unit) (.schedule 0 .clear) = some
      { state :=
          { pending := some ⟨1, 0, .clear⟩, debounceSource := true
            nextRequestId := min (0 + 2) u64Max, latestRequestId := 1 }
        submitted := [(0, .clear)] } := rfl
    exact ⟨_, _, _, _, Transition.Run.nil.snoc hfirst⟩
  | succ n ih =>
    obtain ⟨trace, id, latest, submitted, hrun⟩ := ih
    have hnext : saturatingSucc (min (n + 2) u64Max) = min (n + 1 + 2) u64Max := by
      unfold saturatingSucc
      omega
    refine ⟨_, min (n + 2) u64Max, min (n + 2) u64Max, submitted ++ [(0, .clear)],
      hrun.snoc (e := .schedule 0 .clear) ?_⟩
    rw [← hnext]
    rfl

/-- Two flushes behind the end, the first one's write under way. -/
def twoFlushes (submitted : List (Nat × RecoveryAction Unit)) : DraftAutosave Unit where
  state :=
    { urgent := [⟨u64Max, 2, .clear⟩]
      active := some ⟨u64Max, 1, .persist ()⟩
      nextRequestId := u64Max
      latestRequestId := u64Max
      waiters := [⟨u64Max, 0⟩, ⟨u64Max, 1⟩]
      writeCount := 1 }
  workers := [u64Max]
  submitted := submitted ++ [(1, .persist ()), (2, .clear)]
  flushes := [(1, .persist ()), (2, .clear)]
  flushed := [⟨u64Max, 1, .persist ()⟩, ⟨u64Max, 2, .clear⟩]
  started := [(true, ⟨u64Max, 1, .persist ()⟩)]

theorem exec_twoFlushes (id latest : Nat) (submitted : List (Nat × RecoveryAction Unit)) :
    Transition.exec step
      ({ state :=
          { pending := some ⟨id, 0, .clear⟩, debounceSource := true, nextRequestId := u64Max
            latestRequestId := latest }
         submitted := submitted } : DraftAutosave Unit)
      [.flush 1 (.persist ()), .flush 2 .clear] = some (twoFlushes submitted) := by
  have happend : submitted ++ [(1, .persist ()), (2, .clear)] =
      (submitted ++ [(1, .persist ())]) ++ [(2, .clear)] := by simp
  unfold twoFlushes
  rw [happend]
  rfl

/-- The write of the first fails, that of the second succeeds, and both callbacks are given the
failure. -/
def twoAnswers (submitted : List (Nat × RecoveryAction Unit)) : DraftAutosave Unit :=
  { twoFlushes submitted with
    state :=
      { nextRequestId := u64Max
        latestRequestId := u64Max
        lastCompleted := some (u64Max, 2, .ok ())
        writeCount := 2 }
    workers := []
    started := [(true, ⟨u64Max, 1, .persist ()⟩), (true, ⟨u64Max, 2, .clear⟩)]
    finished :=
      [(⟨u64Max, 1, .persist ()⟩, .error "disk full"), (⟨u64Max, 2, .clear⟩, .ok ())]
    handled := [⟨1, .error "disk full", true⟩, ⟨2, .ok (), true⟩]
    invoked := [(0, .error "disk full"), (1, .error "disk full")] }

theorem exec_twoAnswers (submitted : List (Nat × RecoveryAction Unit)) :
    Transition.exec step (twoFlushes submitted)
      [.writeEnded 0 (.error "disk full"), .invokeCallback, .invokeCallback, .deliveryEnded,
        .writeEnded 0 (.ok ()), .deliveryEnded] = some (twoAnswers submitted) := by
  unfold twoFlushes twoAnswers
  rfl

/-- Two flushes behind the end share an id: the first one's write fails, the second one's
succeeds, and both callbacks are given the failure. -/
theorem flush_answered_by_other : ∃ trace, ∃ queue : DraftAutosave Unit,
    Transition.Run (Transition.Steps step) {} trace queue ∧ queue.state.active = none ∧
      queue.state.urgent = [] ∧ queue.state.pending = none ∧ queue.deliveries = [] ∧
      ¬ ∀ p ∈ queue.invoked, ∃ request, (request, p.2) ∈ queue.finished ∧
        queue.flushes[p.1]? = some (request.generation, request.action) := by
  obtain ⟨trace, id, latest, submitted, hrun⟩ := ids_exhausted u64Max
  have hend : min (u64Max + 2) u64Max = u64Max := by omega
  rw [hend] at hrun
  have hflushed := Transition.run_of_exec _ (exec_twoFlushes id latest submitted)
  have hanswered := Transition.run_of_exec _ (exec_twoAnswers submitted)
  have hwhole := (hrun.trans hflushed).trans hanswered
  refine ⟨_, twoAnswers submitted, hwhole, rfl, rfl, rfl, rfl, fun hall => ?_⟩
  -- the second callback got the failure of the first flush's write
  obtain ⟨request, hfinished, hflush⟩ := hall (1, .error "disk full")
    (List.mem_cons_of_mem _ (List.mem_singleton_self _))
  have hfirst : request = ⟨u64Max, 1, .persist ()⟩ := by
    have hmem : (request, Except.error "disk full") ∈
        [(⟨u64Max, 1, .persist ()⟩, Except.error "disk full"),
          (⟨u64Max, 2, .clear⟩, Except.ok ())] :=
      hfinished
    simpa using hmem
  have hsecond : some ((2, .clear) : Nat × RecoveryAction Unit) =
    some (request.generation, request.action) := hflush
  rw [hfirst] at hsecond
  exact absurd hsecond (by decide)

end Notm.Ui.DraftAutosave
