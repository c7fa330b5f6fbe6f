import Notm.Ui.ThreadListSearch

/-!
# Refreshes that another process asks for

The receiver of the search refresh protocol: a request that is accepted waits, in a timer of its
own, for a full search that began after it and that no writer can invalidate any more. The timers
of several requests, the searches of the user and the work of the other components interleave in
any order.

* `Writers` — what a poll looks at before it trusts a search.
* `WaitingRefresh` — a request with its deadline and the generation that it waits for.
* `RefreshWindow`, `RefreshEvent` and `step` — the receiver, over the searches of the main window.
-/

namespace Notm.Ui

open Rust Notmuch

/-- `MAX_PENDING`. -/
def maxPending : Nat := 64

/-- `INTERFACE`. -/
def refreshInterface : Str := "io.github.kris004.notm.SearchRefresh1".toList

/-- What `writers_or_preparation_busy` reads. -/
structure Writers where
  tagInProgress : Bool
  sendInProgress : Bool
  syncInProgress : Bool
  pendingOpenMessageId : Option Str
  draftSaveActive : Option Nat
  composerHasPendingConfirmation : Bool
  composerAttachmentCacheActive : Option Nat
  migrationInProgress : Bool
  threadLoadGeneration : Option Nat
  composerPreparationGeneration : Option Nat
  draftRecoveryGeneration : Option Nat
deriving DecidableEq, Repr

namespace Writers

/-- Nothing is under way. -/
def idle : Writers where
  tagInProgress := false
  sendInProgress := false
  syncInProgress := false
  pendingOpenMessageId := none
  draftSaveActive := none
  composerHasPendingConfirmation := false
  composerAttachmentCacheActive := none
  migrationInProgress := false
  threadLoadGeneration := none
  composerPreparationGeneration := none
  draftRecoveryGeneration := none

/-- `writers_or_preparation_busy`. -/
def busy (w : Writers) : Bool :=
  w.tagInProgress || w.sendInProgress || w.syncInProgress || w.pendingOpenMessageId.isSome ||
    w.draftSaveActive.isSome || w.composerHasPendingConfirmation ||
    w.composerAttachmentCacheActive.isSome || w.migrationInProgress ||
    w.threadLoadGeneration.isSome || w.composerPreparationGeneration.isSome ||
    w.draftRecoveryGeneration.isSome

/-- What `schedule_search` cancels of it. -/
def cancelPreparation (w : Writers) : Writers :=
  { w with threadLoadGeneration := none, composerPreparationGeneration := none }

/-- What `schedule_thread_load` changes: a load begins, and the preparation of a composer is
cancelled. -/
def scheduleThreadLoad (w : Writers) (generation : Nat) : Writers :=
  { w with threadLoadGeneration := some generation, composerPreparationGeneration := none }

/-- The load is over, as at the start of `finish_thread_load`. -/
def finishThreadLoad (w : Writers) : Writers := { w with threadLoadGeneration := none }

end Writers

/-- The reply to a call, a value or an error with its name. -/
inductive RefreshReply where
  | value (generation : Nat)
  | error (name message : Str)
deriving DecidableEq, Repr

/-- `return_error`. -/
def returnError (kind : String) (message : Str) : RefreshReply :=
  .error (refreshInterface ++ ".".toList ++ kind.toList) message

/-- A request that `wait_for_refresh` has put into a timer. -/
structure WaitingRefresh where
  invocation : Nat
  minimumGeneration : Nat
  deadline : Nat
deriving DecidableEq, Repr

/-- The main window and the requests that wait for it. `recording` holds the generations of the
full searches whose list update has still to record them; time is in milliseconds. -/
structure RefreshWindow (D : Type) where
  search : SearchWindow D
  searchError : Option Str
  fullSearchOutcomeGeneration : Nat
  fullSearchOutcomeError : Option Str
  recording : List Nat
  selectedThread : Option Str
  tagPathsUncertain : Bool
  refreshSelectedThreadId : Option (Nat × Str)
  externalRefreshGeneration : Option Nat
  syncRefreshGeneration : Option Nat
  writers : Writers
  /-- there is a main window -/
  ready : Bool
  visible : Bool
  closeWhenIdle : Bool
  closeFlushInProgress : Bool
  now : Nat
  /-- the calls that have arrived -/
  calls : Nat
  pending : Nat
  waiting : List WaitingRefresh
  replies : List (Nat × RefreshReply)

inductive RefreshEvent (D : Type) where
  /-- a call of the interface; `none` for parameters that are no `(u32,)` -/
  | call (method : Str) (parameters : Option Nat)
  /-- the timer of the request at place `k` -/
  | poll (k : Nat)
  | search (event : SearchEvent D)
  /-- the commands of a sync have run, and its own search begins -/
  | syncRefresh (query : Str)
  /-- `finish_sync_activity` -/
  | syncEnds
  /-- other components begin or end their work, the thread loads among them -/
  | work (writers : Writers)
  | select (thread : Option Str) (tagPathsUncertain : Bool)
  | window (ready visible closeWhenIdle closeFlushInProgress : Bool)
  | tick (milliseconds : Nat)

namespace RefreshWindow

variable {D : Type}

/-- The main window when it is built. -/
def launch (search : SearchWindow D) : RefreshWindow D where
  search
  searchError := none
  fullSearchOutcomeGeneration := 0
  fullSearchOutcomeError := none
  recording := []
  selectedThread := none
  tagPathsUncertain := false
  refreshSelectedThreadId := none
  externalRefreshGeneration := none
  syncRefreshGeneration := none
  writers := .idle
  ready := false
  visible := false
  closeWhenIdle := false
  closeFlushInProgress := false
  now := 0
  calls := 0
  pending := 0
  waiting := []
  replies := []

/-! ## What the window remembers of its searches -/

/-- `search_error` after a step of the search. -/
def searchErrorAfter (r : RefreshWindow D) : SearchEvent D → Option Str
  | .schedule _ _ => none
  | .inputCleared syncInProgress syncRefreshing =>
    if syncInProgress && syncRefreshing then r.searchError else none
  | .inputReserved _ => none
  | .inputDispatched => r.searchError
  | .loadMore _ =>
    match planLoadMore { r.search.pages.pagingSnapshot with
      searchLoading := r.search.searchLoading } with
    | .busy | .exhausted => r.searchError
    | .ready _ _ => none
  | .loadPage _ => if r.search.searchLoading then r.searchError else none
  | .respond k answer =>
    match r.search.requests[k]? with
    | none => r.searchError
    | some request =>
      if r.search.accepts request then
        match answer with
        | .ok _ _ _ => none
        | .error error => some error
        | .stale => r.searchError
      else r.searchError
  | .tagOperation _ => none
  | .removeThread _ | .applySettings _ _ | .setDisplay _ | .refreshRows _ _ | .idle _ =>
    r.searchError

/-- `record_full_search_outcome`. -/
def recordFullSearchOutcome (r : RefreshWindow D) (generation : Nat) (completed : Bool) :
    RefreshWindow D :=
  if completed then
    { r with
      fullSearchOutcomeGeneration := generation
      fullSearchOutcomeError := r.searchError }
  else r

/-- `full_search_outcome_at_or_after`. -/
def fullSearchOutcomeAtOrAfter (r : RefreshWindow D) (generation : Nat) :
    Option (Except Str Unit) :=
  if r.fullSearchOutcomeGeneration ≥ generation then
    some (match r.fullSearchOutcomeError with
      | none => .ok ()
      | some error => .error error)
  else none

/-- `take_refresh_selected_thread_id` of a search that has replaced the list, and the selection
that `reconcile_selected_message_state_after_search` leaves. -/
def restoreSelection (r : RefreshWindow D) (generation : Nat) : RefreshWindow D :=
  let restored := r.refreshSelectedThreadId.bind fun (owner, threadId) =>
    if owner = generation then some threadId else none
  { r with
    refreshSelectedThreadId := none
    selectedThread := restored.filter fun threadId =>
      r.search.pages.threadListItems.any (·.threadId == threadId) }

/-- An accepted response, besides what it does to the search. -/
def afterResponse (r : RefreshWindow D) (request : PageRequest) :
    PageAnswer D → RefreshWindow D
  | .ok _ _ _ =>
    match request.purpose with
    | .search =>
      { r with recording := request.generation :: r.recording }.restoreSelection
        request.generation
    | .containingIndex => r.restoreSelection request.generation
    | .more _ => r
  | .error _ =>
    match request.purpose with
    | .search =>
      { r.recordFullSearchOutcome request.generation true with refreshSelectedThreadId := none }
    | .containingIndex | .more _ => r
  | .stale => r

/-- The completion of a list update, as far as the searches go: only that of a full search that is
still the newest records anything. Where it selects a thread, the load that begins in the same
callback is a step `work` right after it. -/
def afterListUpdate (r : RefreshWindow D) (generation : Nat) (applied : Bool) :
    RefreshWindow D :=
  let recorded := { r with recording := r.recording.filter (· != generation) }
  if r.recording.contains generation && r.search.searchGeneration == generation then
    let recorded := recorded.recordFullSearchOutcome generation applied
    if applied then recorded else { recorded with refreshSelectedThreadId := none }
  else recorded

/-- What follows a step of the search. Of a tag operation that ends with a search only the search is
a step here: `finish_tag_worker` also writes `refresh_selected_thread_id`, with the thread that is
selected then, and the model leaves the field as it is. No reply depends on it; what it can change
is the thread that the search selects in the end, and `select` can make that any thread. -/
def afterSearch (r : RefreshWindow D) (event : SearchEvent D) (search : SearchWindow D) :
    RefreshWindow D :=
  let next := { r with search, searchError := r.searchErrorAfter event }
  match event with
  | .schedule _ _ | .tagOperation (some _) =>
    { next with writers := r.writers.cancelPreparation }
  | .respond k answer =>
    match r.search.requests[k]? with
    | none => next
    | some request =>
      if r.search.accepts request then next.afterResponse request answer else next
  | .idle k =>
    match r.search.list.runIdle k with
    | some (_, some (generation, applied)) => next.afterListUpdate generation applied
    | _ => next
  | _ => next

/-! ## The requests -/

/-- The call is answered at once. -/
def reply (r : RefreshWindow D) (invocation : Nat) (answer : RefreshReply) : RefreshWindow D :=
  { r with replies := r.replies ++ [(invocation, answer)] }

/-- The deadline and the first generation of `wait_for_refresh`: a search that is in progress may
have begun before the change that the request is about. -/
def waitForRefresh (r : RefreshWindow D) (invocation timeout : Nat) : RefreshWindow D :=
  { r with
    waiting := r.waiting ++
      [⟨invocation, saturatingSucc r.search.searchGeneration, r.now + timeout⟩] }

/-- The method call of `register_on_startup`. -/
def methodCall (r : RefreshWindow D) (method : Str) (parameters : Option Nat) :
    RefreshWindow D :=
  let invocation := r.calls
  let r := { r with calls := r.calls + 1 }
  if method ≠ "Refresh".toList then
    r.reply invocation (.error "org.freedesktop.DBus.Error.UnknownMethod".toList
      "unsupported refresh method".toList)
  else
    match parameters with
    | none =>
      r.reply invocation (.error "org.freedesktop.DBus.Error.InvalidArgs".toList
        "expected timeout_ms".toList)
    | some timeout =>
      if ¬ (1 ≤ timeout ∧ timeout ≤ 300000) then
        r.reply invocation (.error "org.freedesktop.DBus.Error.InvalidArgs".toList
          "timeout_ms must be between 1 and 300000".toList)
      else if r.ready = false then
        r.reply invocation (returnError "NotReady" "no main search window is open".toList)
      else if r.pending ≥ maxPending then
        r.reply invocation (returnError "Busy" "too many pending refresh requests".toList)
      else { r with pending := r.pending + 1 }.waitForRefresh invocation timeout

/-- The search that a poll schedules: the completed query, and the selected thread to restore. -/
def scheduleRefresh (r : RefreshWindow D) : RefreshWindow D :=
  let selectedThreadId := if r.tagPathsUncertain then none else r.selectedThread
  let r := r.afterSearch (.schedule r.search.pages.currentQuery none)
    (r.search.scheduleSearch r.search.pages.currentQuery)
  { r with
    refreshSelectedThreadId := selectedThreadId.map fun threadId =>
      (r.search.barGeneration, threadId)
    externalRefreshGeneration := some r.search.barGeneration }

/-- `poll_refresh`: the reply, if any, the generation to wait for, and the window. -/
def pollRefresh (r : RefreshWindow D) (minimumGeneration deadline : Nat) :
    Option RefreshReply × Nat × RefreshWindow D :=
  if r.visible = false ∨ r.closeWhenIdle ∨ r.closeFlushInProgress then
    (some (returnError "Closed" "main search window is closing or closed".toList),
      minimumGeneration, r)
  else if r.now ≥ deadline then
    (some (returnError "Timeout"
      "refresh deadline expired; a scheduled search may still complete".toList),
      minimumGeneration, r)
  else if r.writers.busy then
    -- what a writer leaves may be newer than the search that is waited for
    (none, saturatingSucc r.search.searchGeneration, r)
  else if r.search.searchLoading then (none, minimumGeneration, r)
  else
    match r.fullSearchOutcomeAtOrAfter minimumGeneration with
    | some (.ok ()) =>
      (some (.value r.fullSearchOutcomeGeneration), minimumGeneration, r)
    | some (.error error) => (some (returnError "SearchFailed" error), minimumGeneration, r)
    | none => (none, minimumGeneration, r.scheduleRefresh)

/-- The timer of the request at place `k`. -/
def poll (r : RefreshWindow D) (k : Nat) : Option (RefreshWindow D) :=
  match r.waiting[k]? with
  | none => none
  | some request =>
    match r.pollRefresh request.minimumGeneration request.deadline with
    | (none, minimumGeneration, r) =>
      some { r with waiting := r.waiting.set k { request with minimumGeneration } }
    | (some answer, _, r) =>
      some ({ r with
        pending := r.pending - 1
        waiting := r.waiting.eraseIdx k }.reply request.invocation answer)

/-- The search of `run_sync_commands`, which the sync waits for. -/
def syncRefresh (r : RefreshWindow D) (query : Str) : RefreshWindow D :=
  let r := r.afterSearch (.schedule query none) (r.search.scheduleSearch query)
  { r with syncRefreshGeneration := some r.search.barGeneration }

/-- A search text that is cleared finds out whether a sync is waiting for the newest search. -/
def Admits (r : RefreshWindow D) : SearchEvent D → Prop
  | .inputCleared syncInProgress syncRefreshing =>
    syncInProgress = r.writers.syncInProgress ∧
      syncRefreshing = (r.syncRefreshGeneration == some r.search.searchGeneration)
  | _ => True

instance (r : RefreshWindow D) (event : SearchEvent D) : Decidable (r.Admits event) := by
  unfold Admits
  split <;> infer_instance

def step (r : RefreshWindow D) : RefreshEvent D → Option (RefreshWindow D)
  | .call method parameters => some (r.methodCall method parameters)
  | .poll k => r.poll k
  | .search event =>
    if r.Admits event then (r.search.step event).map (r.afterSearch event) else none
  | .syncRefresh query => some (r.syncRefresh query)
  | .syncEnds =>
    some { r with
      writers := { r.writers with syncInProgress := false }
      syncRefreshGeneration := none }
  | .work writers => some { r with writers }
  | .select selectedThread tagPathsUncertain =>
    some { r with selectedThread, tagPathsUncertain }
  | .window ready visible closeWhenIdle closeFlushInProgress =>
    some { r with ready, visible, closeWhenIdle, closeFlushInProgress }
  | .tick milliseconds => some { r with now := r.now + milliseconds }

end RefreshWindow

end Notm.Ui
