import Notm.Lib.Transition
import Notm.Lib.Overwrite
import Notm.Notmuch.ThreadTags

/-!
# Undoing tag operations

A tag operation runs on a worker and reports the changes it has made. Their inverses are recorded
in the undo history, which holds the newest action last. Undoing takes the newest action, runs its
mutations on a worker and puts the action back unless all of it has been done.

The report of a worker keeps its changes when the end of the atomic section or the close of the
database fails, while the database may have lost them. Undoing is not misled by it: an inverse
mutation sets what it names to the value from before, whether the change has been lost or not.

Main results:

* `inverse_leads_back`: the inverses of the reported changes agree with each other and lead back to
  the tags before the operation, also from a database that has lost some of the changes.
* `executeThreads_operated`, `executeMessages_operated`, `executeUndo_undone`: what a worker does
  to the tags and what it reports.
* `Undoable.perform`: one step keeps the history leading back to the original tags.
* `run_undone`: in a run without reversals inside a batch, every step that loses nothing reports
  the exact difference, and once everything has been undone each message has its original tags.
* `reversal_not_undone`: a batch that tags a message and takes the tag off again leaves the tag on
  once it is undone.
-/

namespace Notm.Ui

open Rust Notmuch

/-! ## The history -/

/-- `UndoTagAction`: the inverse mutations of one tag operation, and what the dialog says of it. -/
structure UndoTagAction where
  mutations : List MessageTagMutation
  syncMaildirFlags : Bool
  label : Str
  detail : Option Str
deriving DecidableEq

def maxUndoTagActions : Nat := 30

/-- Drop the oldest actions beyond the limit. -/
def dropOverflow (actions : List UndoTagAction) : List UndoTagAction :=
  actions.drop (actions.length - maxUndoTagActions)

/-- The oldest action gives way to a new one. -/
def pushUndoTagAction (actions : List UndoTagAction) (action : UndoTagAction) :
    List UndoTagAction :=
  dropOverflow (actions ++ [action])

/-- `restore_undo_tag_actions`, for actions with the newest first. -/
def restoreUndoTagActions (history actions : List UndoTagAction) : List UndoTagAction :=
  dropOverflow (history ++ actions.reverse)

/-- Undoing takes the newest action. -/
def popLastUndoTagAction (actions : List UndoTagAction) :
    Option UndoTagAction × List UndoTagAction :=
  (actions.getLast?, actions.dropLast)

/-- Changes of file names alone are nothing to undo. The order is that of the changes. -/
def inverseTagMutations (changes : List AppliedTagChange) : List MessageTagMutation :=
  (changes.filter fun change => !change.added.isEmpty || !change.removed.isEmpty).map
    AppliedTagChange.inverse

/-! ## The worker -/

variable {P : Type} [LinearOrder P]

/-- What the tag worker is given. -/
inductive TagWorkerOperation where
  | threads (threadIds : List Str) (mutation : TagMutation)
  | messages (mutations : List MessageTagMutation) (syncMaildirFlags : Bool)
  | undoActions (actions : List UndoTagAction)

/-- What it answers. The window throws away what it has retained of messages that may have changed
without a report. -/
structure TagWorkerResult (P : Type) where
  report : TagBatchReport P
  operationErrors : List Str
  discardRetainedMessageState : Bool

/-- No call has failed, and neither has the end of the atomic section or the close. -/
def TagWorkerResult.isComplete (result : TagWorkerResult P) : Bool :=
  result.operationErrors.isEmpty && result.report.isComplete

/-- How the calls of libnotmuch go for a worker. -/
structure WorkerCalls (P : Type) where
  openDatabase : Option Error := none
  reads : Reads
  batches : List (BatchCalls P)
  close : Option (FailedEnd Error) := none

/-- The calls for one of the batches of the worker. -/
def WorkerCalls.batch (calls : WorkerCalls P) (index : Nat) : BatchCalls P :=
  calls.batches[index]?.getD { messages := [] }

def joinWith (separator : String) (parts : List Str) : Str :=
  List.intercalate separator.toList parts

/-- The texts of the threads that a report leaves out. -/
def threadOperationErrors (report : ThreadTagReport P) : List Str :=
  (if report.missingThreadIds.isEmpty then []
    else
      [natText report.missingThreadIds.length ++
        " exact target thread ID(s) disappeared before mutation: ".toList ++
        joinWith ", " report.missingThreadIds]) ++
  if report.threadResolutionFailures.isEmpty then []
  else
    [natText report.threadResolutionFailures.length ++
      " exact target thread ID(s) were rejected before their messages were mutated: ".toList ++
      joinWith "; " (report.threadResolutionFailures.map fun failure =>
        failure.threadId ++ " (".toList ++ failure.detail ++ [')'])]

/-- Threads that were missing or not resolved make the result incomplete, and so does a snapshot
that was invalidated. Any other error is the answer itself. -/
def threadTagWorkerOperationResult :
    Except Error (ThreadTagReport P) → Except Error (TagBatchReport P × List Str × Bool)
  | .ok report =>
    .ok (report.batch, threadOperationErrors report,
      !report.missingThreadIds.isEmpty || !report.threadResolutionFailures.isEmpty)
  | .error error =>
    let invalidated :=
      match error with
      | .threadTagSnapshotChanged .. => true
      | .threadTagSnapshotFailed _ => true
      | _ => false
    if invalidated then
      .ok ({}, ["exact tag target snapshot was invalidated: ".toList ++ error.text], true)
    else .error error

def usizeMax : Nat := 2 ^ 64 - 1

/-- The reports of the actions that are undone together, one behind the other. The counts are
saturating sums. -/
def mergeTagBatchReport (combined report : TagBatchReport P) : TagBatchReport P where
  requestedMessages := min (combined.requestedMessages + report.requestedMessages) usizeMax
  changedMessages := min (combined.changedMessages + report.changedMessages) usizeMax
  changes := combined.changes ++ report.changes
  pathStates := combined.pathStates ++ report.pathStates
  failures := combined.failures ++ report.failures
  finalizationErrors := combined.finalizationErrors ++ report.finalizationErrors

/-- The loop over the actions to undo, from the one with the number `index`; it stops at the first
that is not done completely. -/
def executeUndoActions (path : PathText P) (calls : WorkerCalls P) (actionCount : Nat) :
    List UndoTagAction → (index : Nat) → Messages P → (combined : TagBatchReport P) →
      Messages P × TagBatchReport P × List Str
  | [], _, messages, combined => (messages, combined, [])
  | action :: rest, index, messages, combined =>
    let remaining := actionCount - (index + 1)
    match applyTagsToMessages path (calls.batch index) messages action.mutations
      action.syncMaildirFlags with
    | (messages, .error error) =>
      (messages, combined,
        ("selected undo action ".toList ++ natText (index + 1) ++
          " failed before a report was available: ".toList ++ error.text) ::
        if 0 < remaining then
          ["stopped before ".toList ++ natText remaining ++
            " later selected undo action(s)".toList]
        else [])
    | (messages, .ok report) =>
      let combined := mergeTagBatchReport combined report
      if report.isComplete then
        executeUndoActions path calls actionCount rest (index + 1) messages combined
      else
        (messages, combined,
          if 0 < remaining then
            ["stopped before ".toList ++ natText remaining ++
              " later selected undo action(s) after a partial result".toList]
          else [])

/-- The part of `execute_tag_worker` between opening and closing the database. -/
def executeOperation (path : PathText P) (calls : WorkerCalls P) (messages : Messages P) :
    TagWorkerOperation → Messages P × Except Error (TagBatchReport P × List Str × Bool)
  | .threads threadIds mutation =>
    let (messages, result) :=
      applyTagsToThreads calls.reads path (calls.batch 0) messages threadIds mutation
    (messages, threadTagWorkerOperationResult result)
  | .messages mutations syncMaildirFlags =>
    let (messages, result) :=
      applyTagsToMessages path (calls.batch 0) messages mutations syncMaildirFlags
    (messages, result.map fun report => (report, [], false))
  | .undoActions actions =>
    let (messages, combined, operationErrors) :=
      executeUndoActions path calls actions.length actions 0 messages {}
    (messages, .ok (combined, operationErrors, false))

/-- The errors are texts from here on. -/
def finalizeTagWorkerResult :
    Except Error (TagBatchReport P × List Str × Bool) → (closeResult : Option Error) →
      Except Str (TagWorkerResult P)
  | .ok (report, operationErrors, discard), none =>
    .ok { report := report, operationErrors := operationErrors
          discardRetainedMessageState := discard }
  | .ok (report, operationErrors, discard), some error =>
    .ok
      { report := report.recordFinalizationError
          ("database close/commit failed: ".toList ++ error.text)
        operationErrors := operationErrors, discardRetainedMessageState := discard }
  | .error error, none => .error error.text
  | .error error, some closeError =>
    .error ("tag mutation failed: ".toList ++ error.text ++
      "; database close/commit also failed: ".toList ++ closeError.text)

/-- The messages after `Database::close`: what it loses is as it was `before` the worker. -/
def messagesAfterClose (close : Option (FailedEnd Error)) (before after : Messages P) :
    Messages P :=
  match close with
  | none => after
  | some failed => failed.messagesLeft before after

/-- Open the database, do the operation and close the database. A close that fails is in the
result and takes with it the changes that it loses. -/
def executeTagWorker (path : PathText P) (calls : WorkerCalls P) (messages : Messages P)
    (operation : TagWorkerOperation) : Messages P × Except Str (TagWorkerResult P) :=
  match calls.openDatabase with
  | some error => (messages, .error error.text)
  | none =>
    let (left, operationResult) := executeOperation path calls messages operation
    (messagesAfterClose calls.close messages left,
      finalizeTagWorkerResult operationResult (calls.close.map FailedEnd.error))

/-! ## The main window -/

/-- What an operation is for. `tag` stands for the operations on threads and on a message: the
label of the action is given the number of changed messages. -/
inductive PendingTagUiAction where
  | tag (syncMaildirFlags : Bool) (label : Nat → Str) (undoDetail : Option Str)
  | undo (actions : List UndoTagAction)

/-- What `apply_completed_tag_report` does to the history. -/
def applyCompletedTagReport (history : List UndoTagAction) (uiAction : PendingTagUiAction)
    (report : TagBatchReport P) (complete : Bool) : List UndoTagAction :=
  match uiAction with
  | .tag syncMaildirFlags label undoDetail =>
    let inverseMutations := inverseTagMutations report.changes
    if inverseMutations.isEmpty then history
    else
      pushUndoTagAction history
        { mutations := inverseMutations, syncMaildirFlags := syncMaildirFlags
          label := label report.changedMessages, detail := undoDetail }
  | .undo actions => if complete then history else restoreUndoTagActions history actions

/-- What `finish_tag_worker` does to the history. -/
def finishTagWorker (history : List UndoTagAction) (uiAction : PendingTagUiAction) :
    Except Str (TagWorkerResult P) → List UndoTagAction
  | .ok result => applyCompletedTagReport history uiAction result.report result.isComplete
  | .error _ =>
    match uiAction with
    | .undo actions => restoreUndoTagActions history actions
    | .tag .. => history

/-- The database and the undo history. -/
structure TagState (P : Type) where
  messages : Messages P
  history : List UndoTagAction

/-- The changes that the report of a worker has. -/
def reportedChanges : Except Str (TagWorkerResult P) → List AppliedTagChange
  | .ok result => result.report.changes
  | .error _ => []

/-- Run the worker and take up its result; with the changes that it reports. -/
def scheduleTagMutation (path : PathText P) (calls : WorkerCalls P) (state : TagState P)
    (uiAction : PendingTagUiAction) (operation : TagWorkerOperation) :
    TagState P × List AppliedTagChange :=
  let (messages, result) := executeTagWorker path calls state.messages operation
  ({ messages := messages, history := finishTagWorker state.history uiAction result },
    reportedChanges result)

/-- `undo_last_tag`; without calls the worker could not be started. -/
def undoLastTag (path : PathText P) (calls : Option (WorkerCalls P)) (state : TagState P) :
    TagState P × List AppliedTagChange :=
  match popLastUndoTagAction state.history with
  | (none, _) => (state, [])
  | (some action, history) =>
    match calls with
    | none => ({ state with history := restoreUndoTagActions history [action] }, [])
    | some calls =>
      scheduleTagMutation path calls { state with history := history } (.undo [action])
        (.undoActions [action])

/-- What the user does. -/
inductive TagEvent (P : Type) where
  | tagThreads (threadIds : List Str) (mutation : TagMutation) (label : Nat → Str)
      (undoDetail : Option Str) (calls : WorkerCalls P)
  | tagMessages (mutations : List MessageTagMutation) (syncMaildirFlags : Bool)
      (label : Nat → Str) (undoDetail : Option Str) (calls : WorkerCalls P)
  | undoLast (calls : Option (WorkerCalls P))

/-- One operation of the user, with the changes that it reports. -/
def perform (path : PathText P) (state : TagState P) :
    TagEvent P → TagState P × List AppliedTagChange
  | .tagThreads threadIds mutation label undoDetail calls =>
    scheduleTagMutation path calls state (.tag mutation.syncMaildirFlags label undoDetail)
      (.threads threadIds mutation)
  | .tagMessages mutations syncMaildirFlags label undoDetail calls =>
    scheduleTagMutation path calls state (.tag syncMaildirFlags label undoDetail)
      (.messages mutations syncMaildirFlags)
  | .undoLast calls => undoLastTag path calls state

/-! ## Inverse mutations -/

/-- What mutations ask together, where they agree. -/
def overwriteOfMutations (mutations : List MessageTagMutation) : Overwrite TagKey Bool :=
  fun key => mutations.findSome? fun mutation =>
    overwriteOf mutation.messageId mutation.add mutation.remove key

/-- No two of the mutations ask different things of a tag. -/
def Consistent (mutations : List MessageTagMutation) : Prop :=
  ∀ mutation ∈ mutations, ∀ key value,
    overwriteOf mutation.messageId mutation.add mutation.remove key = some value →
      overwriteOfMutations mutations key = some value

variable {before after left : TagKey → Bool} {changes : List AppliedTagChange} {key : TagKey}

theorem mem_inverseTagMutations {mutation : MessageTagMutation} :
    mutation ∈ inverseTagMutations changes ↔
      ∃ change ∈ changes, (change.added ≠ [] ∨ change.removed ≠ []) ∧ change.inverse =
        mutation := by
  unfold inverseTagMutations
  simp only [List.mem_map, List.mem_filter, Bool.or_eq_true, Bool.not_eq_eq_eq_not, Bool.not_true,
    List.isEmpty_eq_false_iff, and_assoc]

/-- What an inverse mutation asks of a tag is what the tag was before. -/
theorem inverse_asks_before (h : ReportsDifference before after changes)
    {mutation : MessageTagMutation} (hmem : mutation ∈ inverseTagMutations changes) {value : Bool}
    (hasks : overwriteOf mutation.messageId mutation.add mutation.remove key = some value) :
    before key = value := by
  obtain ⟨change, hchange, -, rfl⟩ := mem_inverseTagMutations.1 hmem
  unfold overwriteOf asks at hasks
  split at hasks
  · rename_i hid
    split at hasks
    · rename_i hremoved
      obtain rfl := Option.some.inj hasks
      exact ((h.removed key).1 ⟨change, hchange, hid.symm, hremoved⟩).1
    · split at hasks
      · rename_i hadded
        obtain rfl := Option.some.inj hasks
        exact ((h.added key).1 ⟨change, hchange, hid.symm, hadded⟩).1
      · cases hasks
  · cases hasks

/-- A tag that no inverse mutation asks for has not changed. -/
theorem same_of_not_asked (h : ReportsDifference before after changes)
    (hnone : overwriteOfMutations (inverseTagMutations changes) key = none) :
    before key = after key := by
  have hnot : ∀ change ∈ changes, change.messageId = key.1 →
      ¬ (key.2 ∈ change.added ∨ key.2 ∈ change.removed) := by
    intro change hchange hid htag
    have hmem : change.inverse ∈ inverseTagMutations changes :=
      mem_inverseTagMutations.2 ⟨change, hchange,
        htag.imp List.ne_nil_of_mem List.ne_nil_of_mem, rfl⟩
    have hasks := List.findSome?_eq_none_iff.1 hnone _ hmem
    unfold overwriteOf asks at hasks
    rw [if_pos (show key.1 = change.inverse.messageId from hid.symm)] at hasks
    split at hasks
    · cases hasks
    · split at hasks
      · cases hasks
      · rename_i hremoved hadded
        exact htag.elim hadded hremoved
  cases hbefore : before key with
  | false =>
    cases hafter : after key with
    | false => rfl
    | true =>
      obtain ⟨change, hchange, hid, hadded⟩ := (h.added key).2 ⟨hbefore, hafter⟩
      exact absurd (Or.inl hadded) (hnot change hchange hid)
  | true =>
    cases hafter : after key with
    | true => rfl
    | false =>
      obtain ⟨change, hchange, hid, hremoved⟩ := (h.removed key).2 ⟨hbefore, hafter⟩
      exact absurd (Or.inr hremoved) (hnot change hchange hid)

/-- What the mutations ask of a tag, one of them asks. -/
theorem exists_of_overwriteOfMutations {mutations : List MessageTagMutation} {value : Bool}
    (h : overwriteOfMutations mutations key = some value) : ∃ mutation ∈ mutations,
      overwriteOf mutation.messageId mutation.add mutation.remove key = some value :=
  List.exists_of_findSome?_eq_some h

/-- **The inverse mutations agree, and lead back**: from the tags after the operation, and from any
tags that are as before it or as after it, such as a failed end of the section leaves. -/
theorem inverse_leads_back (h : ReportsDifference before after changes)
    (hleft : ∀ key, left key = before key ∨ left key = after key) :
    Consistent (inverseTagMutations changes) ∧
      (overwriteOfMutations (inverseTagMutations changes)).apply left = before := by
  constructor
  · intro mutation hmem key value hasks
    cases htogether : overwriteOfMutations (inverseTagMutations changes) key with
    | none =>
      have hnone := List.findSome?_eq_none_iff.1 htogether mutation hmem
      rw [hnone] at hasks
      cases hasks
    | some value' =>
      obtain ⟨mutation', hmem', hasks'⟩ := exists_of_overwriteOfMutations htogether
      rw [← inverse_asks_before h hmem hasks, ← inverse_asks_before h hmem' hasks']
  · funext key
    unfold Overwrite.apply
    cases htogether : overwriteOfMutations (inverseTagMutations changes) key with
    | none =>
      -- a tag that is not asked for is the same before and after, and so it is in between
      rcases hleft key with hbefore | hafter
      · exact hbefore
      · exact hafter.trans (same_of_not_asked h htogether).symm
    | some value =>
      obtain ⟨mutation, hmem, hasks⟩ := exists_of_overwriteOfMutations htogether
      exact (inverse_asks_before h hmem hasks).symm

/-! ## One operation -/

variable {path : PathText P} {messages messages' : Messages P} {calls : WorkerCalls P}

/-- No call that thaws a message fails. -/
def WorkerCalls.Thaws (calls : WorkerCalls P) : Prop :=
  ∀ batch ∈ calls.batches, ∀ message ∈ batch.messages, message.thaw = none

omit [LinearOrder P] in
theorem WorkerCalls.Thaws.withCalls (h : calls.Thaws) (index : Nat)
    (batch : List PreparedMessageMutation) :
    ∀ prepared ∈ withCalls (calls.batch index) batch, prepared.2.thaw = none := by
  have hbatch : ∀ message ∈ (calls.batch index).messages, message.thaw = none := by
    unfold WorkerCalls.batch
    cases hget : calls.batches[index]? with
    | none => exact fun message hmem => absurd hmem List.not_mem_nil
    | some found => exact h found (List.mem_of_getElem? hget)
  intro prepared hmem
  obtain ⟨⟨mutation, position⟩, -, rfl⟩ := List.mem_map.1 hmem
  show ((calls.batch index).messages[position]?.getD {}).thaw = none
  cases hget : (calls.batch index).messages[position]? with
  | none => rfl
  | some message => exact hbatch message (List.mem_of_getElem? hget)

/-- No end of an atomic section and no close among these calls loses changes. -/
def WorkerCalls.LosesNothing (calls : WorkerCalls P) : Prop :=
  (∀ batch ∈ calls.batches, Notmuch.LosesNothing batch.endAtomic) ∧
    Notmuch.LosesNothing calls.close

omit [LinearOrder P] in
theorem WorkerCalls.LosesNothing.batch (h : calls.LosesNothing) (index : Nat) :
    Notmuch.LosesNothing (calls.batch index).endAtomic := by
  unfold WorkerCalls.batch
  cases hget : calls.batches[index]? with
  | none => exact fun _ hfailed => by cases hfailed
  | some found => exact h.1 found (List.mem_of_getElem? hget)

omit [LinearOrder P] in
theorem between_messagesAfterClose (close : Option (FailedEnd Error)) (before after : Messages P) :
    Between before after (messagesAfterClose close before after) := by
  cases close with
  | none => exact .of_eq rfl
  | some failed => exact failed.between before after

omit [LinearOrder P] in
theorem messagesAfterClose_eq {close : Option (FailedEnd Error)}
    (h : Notmuch.LosesNothing close) (before after : Messages P) :
    messagesAfterClose close before after = after := by
  cases close with
  | none => rfl
  | some failed => exact h.messagesLeft before after

/-- **What an operation has done to the tags.** There is a database in which the tags have changed
exactly as reported; each message is as in that one or as it was, and where the calls lose nothing
(`lossless`) it is that one. No message has come or gone. -/
structure Operated (lossless : Prop) (messages messages' : Messages P)
    (changes : List AppliedTagChange) : Prop where
  ended : ∃ final, ReportsDifference (present messages) (present final) changes ∧
    Between messages final messages' ∧ (lossless → messages' = final)
  isSome : ∀ messageId, (messages' messageId).isSome = (messages messageId).isSome

variable {lossless : Prop}

omit [LinearOrder P] in
theorem Operated.refl (messages : Messages P) : Operated lossless messages messages [] where
  ended := ⟨messages, .refl _, .of_eq rfl, fun _ => rfl⟩
  isSome _ := rfl

omit [LinearOrder P] in
/-- Where nothing is lost the changes are the difference. -/
theorem Operated.reports {changes : List AppliedTagChange}
    (h : Operated lossless messages messages' changes) (hlossless : lossless) :
    ReportsDifference (present messages) (present messages') changes := by
  obtain ⟨final, hreports, -, hsame⟩ := h.ended
  rw [hsame hlossless]
  exact hreports

omit [LinearOrder P] in
/-- Closing the database after the operation. -/
theorem Operated.close {changes : List AppliedTagChange}
    (h : Operated (Notmuch.LosesNothing (calls.batch 0).endAtomic) messages messages' changes) :
    Operated calls.LosesNothing messages (messagesAfterClose calls.close messages messages')
      changes := by
  obtain ⟨final, hreports, hbetween, hsame⟩ := h.ended
  have hclosed := between_messagesAfterClose calls.close messages messages'
  refine ⟨⟨final, hreports, hbetween.trans hclosed, fun hloses => ?_⟩,
    fun messageId => hclosed.isSome (h.isSome messageId)⟩
  rw [messagesAfterClose_eq hloses.2]
  exact hsame (hloses.batch 0)

/-- A batch that changes no tag twice, with the end of its section. -/
theorem Operated.of_turnsOnce {batch : List (PreparedMessageMutation × MessageCalls P)}
    {batchCalls : BatchCalls P} {errors : List Str}
    (h : TurnsOnce path messages batch) (hthaw : ∀ prepared ∈ batch, prepared.2.thaw = none)
    (hends : EndsAs batchCalls messages (finalMessages path messages batch) messages' errors) :
    Operated (Notmuch.LosesNothing batchCalls.endAtomic) messages messages'
      (batchChanges path messages batch) where
  ended := ⟨_, h.reportsDifference hthaw, hends.between, hends.eq_of_losesNothing⟩
  isSome messageId := hends.between.isSome (finalMessages_isSome path messages batch messageId)

/-- The result of an operation with its changes, before the errors become texts. -/
def operationChanges :
    Except Error (TagBatchReport P × List Str × Bool) → List AppliedTagChange
  | .ok result => result.1.changes
  | .error _ => []

omit [LinearOrder P] in
theorem reportedChanges_finalize (result : Except Error (TagBatchReport P × List Str × Bool))
    (closeResult : Option Error) :
    reportedChanges (finalizeTagWorkerResult result closeResult) = operationChanges result := by
  cases result with
  | error error => cases closeResult <;> rfl
  | ok found => cases closeResult <;> rfl

/-- An operation on threads: one mutation for all messages turns no tag twice. -/
theorem executeThreads_operated (path : PathText P) (messages : Messages P)
    (hthaws : calls.Thaws) (threadIds : List Str)
    (mutation : TagMutation) :
    Operated (Notmuch.LosesNothing (calls.batch 0).endAtomic) messages
      (executeOperation path calls messages (.threads threadIds mutation)).1
      (operationChanges
        (executeOperation path calls messages (.threads threadIds mutation)).2) := by
  have herror : ∀ error : Error, operationChanges
      (threadTagWorkerOperationResult (.error error : Except Error (ThreadTagReport P))) = [] := by
    intro error
    cases error <;> rfl
  unfold executeOperation applyTagsToThreads
  simp only
  cases htargets : threadTagTargets calls.reads threadIds mutation with
  | error error =>
    simp only
    rw [herror]
    exact .refl messages
  | ok found =>
    obtain ⟨resolution, prepared⟩ := found
    simp only
    rcases applyPreparedTagMutations_cases path (calls.batch 0) messages prepared with
      ⟨error, hresult⟩ | ⟨left, report, hresult, hends, -, hchanges, -⟩
    · rw [hresult]
      simp only
      rw [herror]
      exact .refl messages
    · rw [hresult]
      show Operated _ messages left report.changes
      rw [hchanges]
      have hlist : ∃ ids : List Str, prepared = ids.map fun messageId =>
          { messageId := messageId, mutation := mutation } := threadTagTargets_uniform htargets
      obtain ⟨ids, rfl⟩ := hlist
      refine Operated.of_turnsOnce ?_ (hthaws.withCalls 0 _) hends
      have hreversal := noReversal_uniform (present messages) ids mutation
      rw [← withCalls_fst (calls.batch 0) (ids.map _)] at hreversal
      exact hreversal.turnsOnce fun key hne => absurd rfl hne

/-- An operation on messages whose batch asks no change of its own back. -/
theorem executeMessages_operated (path : PathText P) (hthaws : calls.Thaws)
    {mutations : List MessageTagMutation}
    {syncMaildirFlags : Bool} (h : NoReversal (present messages)
      (mutations.map (MessageTagMutation.prepared syncMaildirFlags))) :
    Operated (Notmuch.LosesNothing (calls.batch 0).endAtomic) messages
      (executeOperation path calls messages (.messages mutations syncMaildirFlags)).1
      (operationChanges
        (executeOperation path calls messages (.messages mutations syncMaildirFlags)).2) := by
  unfold executeOperation
  simp only
  rcases applyTagsToMessages_cases path (calls.batch 0) messages mutations syncMaildirFlags with
    ⟨error, hresult⟩ | ⟨batch, left, report, rfl, hresult, hends, hchanges, -⟩
  · rw [hresult]
    exact .refl messages
  · rw [hresult]
    show Operated _ messages left report.changes
    rw [hchanges]
    refine Operated.of_turnsOnce ?_ (hthaws.withCalls 0 _) hends
    rw [← withCalls_fst (calls.batch 0) (mutations.map _)] at h
    exact h.turnsOnce fun key hne => absurd rfl hne

/-! ## Undoing one action -/

variable {mutations : List MessageTagMutation} {syncMaildirFlags : Bool}

omit [LinearOrder P] in
/-- The members of the batch are the mutations. -/
theorem mem_withCalls_prepared (batchCalls : BatchCalls P) (syncMaildirFlags : Bool)
    {mutation : MessageTagMutation}
    (hmem : mutation ∈ mutations) : ∃ prepared ∈ withCalls batchCalls
      (mutations.map (MessageTagMutation.prepared syncMaildirFlags)),
      prepared.1 = mutation.prepared syncMaildirFlags := by
  have hfst := List.mem_map_of_mem (f := MessageTagMutation.prepared syncMaildirFlags) hmem
  rw [← withCalls_fst batchCalls (mutations.map _)] at hfst
  obtain ⟨prepared, hprepared, heq⟩ := List.mem_map.1 hfst
  exact ⟨prepared, hprepared, heq⟩

omit [LinearOrder P] in
/-- Mutations that agree make a batch whose members agree. -/
theorem Consistent.agrees (h : Consistent mutations) (batchCalls : BatchCalls P) :
    Agrees (withCalls batchCalls (mutations.map (MessageTagMutation.prepared syncMaildirFlags)))
      (overwriteOfMutations mutations) := by
  intro prepared hmem key value hvalue
  have hfst := List.mem_map_of_mem (f := Prod.fst) hmem
  rw [withCalls_fst] at hfst
  obtain ⟨mutation, hmutation, heq⟩ := List.mem_map.1 hfst
  rw [← heq] at hvalue
  exact h mutation hmutation key value hvalue

/-- Undoing a single action applies its mutations. -/
theorem executeUndo_single (path : PathText P) (calls : WorkerCalls P) (messages : Messages P)
    (action : UndoTagAction) :
    (∃ operationErrors, executeOperation path calls messages (.undoActions [action]) =
        (messages, .ok ({}, operationErrors, false)) ∧ operationErrors ≠ []) ∨
    ∃ batch left report, batch = withCalls (calls.batch 0)
        (action.mutations.map (MessageTagMutation.prepared action.syncMaildirFlags)) ∧
      executeOperation path calls messages (.undoActions [action]) =
        (left, .ok (mergeTagBatchReport {} report, [], false)) ∧
      EndsAs (calls.batch 0) messages (finalMessages path messages batch) left
        report.finalizationErrors ∧
      report.changes = batchChanges path messages batch ∧
      report.failures = (outcomes path messages batch).flatMap
        MessageMutationOutcome.failures := by
  unfold executeOperation executeUndoActions
  simp only
  rcases applyTagsToMessages_cases path (calls.batch 0) messages action.mutations
      action.syncMaildirFlags with
    ⟨error, hresult⟩ | ⟨batch, left, report, hbatch, hresult, hreport⟩
  · rw [hresult]
    exact Or.inl ⟨_, rfl, List.cons_ne_nil _ _⟩
  · rw [hresult]
    refine Or.inr ⟨batch, left, report, hbatch, ?_, hreport⟩
    cases hcomplete : report.isComplete with
    | true => simp [hcomplete, executeUndoActions]
    | false => simp [hcomplete]

omit [LinearOrder P] in
/-- A complete result has neither errors nor failures, and both ends have passed. -/
theorem complete_finalize {report : TagBatchReport P} {operationErrors : List Str}
    {discard : Bool} {closeResult : Option Error} {found : TagWorkerResult P}
    (h : finalizeTagWorkerResult (.ok (report, operationErrors, discard)) closeResult = .ok found)
    (hcomplete : found.isComplete = true) : operationErrors = [] ∧ report.failures = [] ∧
      report.finalizationErrors = [] ∧ closeResult = none := by
  unfold TagWorkerResult.isComplete TagBatchReport.isComplete at hcomplete
  simp only [Bool.and_eq_true, List.isEmpty_iff] at hcomplete
  cases closeResult with
  | none =>
    obtain rfl := Except.ok.inj h
    exact ⟨hcomplete.1, hcomplete.2.1, hcomplete.2.2, rfl⟩
  | some error =>
    -- a close that fails has left its error in the report
    obtain rfl := Except.ok.inj h
    exact absurd (List.append_eq_nil_iff.1 hcomplete.2.2).2 (List.cons_ne_nil _ _)

/-- **What undoing an action does**, where the mutations of the action agree: a part of what they
ask, and all of it when it is complete; it reports as any operation does. -/
structure Undone (lossless : Prop) (action : UndoTagAction) (messages messages' : Messages P)
    (result : Except Str (TagWorkerResult P)) : Prop where
  operated : Operated lossless messages messages' (reportedChanges result)
  partWay : (overwriteOfMutations action.mutations).PartWay (present messages) (present messages')
  whole : ∀ found, result = .ok found → found.isComplete = true →
    present messages' = (overwriteOfMutations action.mutations).apply (present messages)

omit [LinearOrder P] in
/-- Nothing has been done and nothing is reported as complete. -/
theorem Undone.nothing {action : UndoTagAction} {result : Except Str (TagWorkerResult P)}
    (hchanges : reportedChanges result = [])
    (hincomplete : ∀ found, result = .ok found → found.isComplete ≠ true) :
    Undone lossless action messages messages result where
  operated := by
    rw [hchanges]
    exact .refl messages
  partWay := .refl _ _
  whole := fun found hfound hcomplete => absurd hcomplete (hincomplete found hfound)

/-- The worker undoes one action. -/
theorem executeUndo_undone (path : PathText P) (messages : Messages P) (hthaws : calls.Thaws)
    {action : UndoTagAction}
    (hconsistent : Consistent action.mutations) :
    Undone calls.LosesNothing action messages
      (executeTagWorker path calls messages (.undoActions [action])).1
      (executeTagWorker path calls messages (.undoActions [action])).2 := by
  unfold executeTagWorker
  cases calls.openDatabase with
  | some error => exact .nothing rfl fun _ hfound => by cases hfound
  | none =>
    simp only
    rcases executeUndo_single path calls messages action with
      ⟨operationErrors, hresult, herrors⟩ |
      ⟨batch, left, report, hbatch, hresult, hends, hchanges, hfailures⟩
    · rw [hresult]
      have hsame : messagesAfterClose calls.close messages messages = messages := by
        funext messageId
        exact (between_messagesAfterClose calls.close messages messages messageId).elim id id
      show Undone _ action messages (messagesAfterClose calls.close messages messages) _
      rw [hsame]
      refine .nothing (reportedChanges_finalize _ _) fun found hfound hcomplete => ?_
      exact herrors (complete_finalize hfound hcomplete).1
    · rw [hresult]
      have hagrees : Agrees batch (overwriteOfMutations action.mutations) := by
        rw [hbatch]
        exact hconsistent.agrees (calls.batch 0)
      have hthaw : ∀ prepared ∈ batch, prepared.2.thaw = none := by
        rw [hbatch]
        exact hthaws.withCalls 0 _
      have hoperated : Operated (Notmuch.LosesNothing (calls.batch 0).endAtomic) messages left
          (batchChanges path messages batch) :=
        Operated.of_turnsOnce hagrees.turnsOnce hthaw hends
      have hpartWay := (hends.between.trans
        (between_messagesAfterClose calls.close messages left)).partWay hagrees.partWay
      refine ⟨?_, hpartWay, fun found hfound hcomplete => ?_⟩
      · rw [reportedChanges_finalize]
        show Operated _ messages _ ([] ++ report.changes)
        rw [List.nil_append, hchanges]
        exact hoperated.close
      · -- a complete result: both ends have passed, so that the database has all of the batch
        obtain ⟨-, hnone, herrors, hclose⟩ := complete_finalize hfound hcomplete
        have hnone : [] ++ report.failures = [] := hnone
        have herrors : [] ++ report.finalizationErrors = [] := herrors
        rw [List.nil_append] at hnone herrors
        rw [herrors] at hends
        rw [Option.map_eq_none_iff] at hclose
        show present (messagesAfterClose calls.close messages left) = _
        rw [hclose]
        show present left = _
        rw [hends.eq_of_complete]
        apply hagrees.whole _ (hfailures ▸ hnone)
        intro key value hvalue
        obtain ⟨mutation, hmem, hasks⟩ := exists_of_overwriteOfMutations hvalue
        obtain ⟨prepared, hprepared, heq⟩ :=
          mem_withCalls_prepared (calls.batch 0) action.syncMaildirFlags hmem
        refine Or.inl ⟨prepared, ?_, ?_⟩
        · rw [hbatch]
          exact hprepared
        · rw [heq]
          exact hasks

/-! ## Runs -/

/-- No thaw fails, and there is room for an action in the history. -/
def Fits (state : TagState P) : TagEvent P → Prop
  | .tagThreads _ _ _ _ calls => calls.Thaws ∧ state.history.length < maxUndoTagActions
  | .tagMessages _ _ _ _ calls => calls.Thaws ∧ state.history.length < maxUndoTagActions
  | .undoLast calls => ∀ found, calls = some found → found.Thaws

/-- No failed end among the calls of the step loses changes. -/
def EventLosesNothing : TagEvent P → Prop
  | .tagThreads _ _ _ _ calls => calls.LosesNothing
  | .tagMessages _ _ _ _ calls => calls.LosesNothing
  | .undoLast calls => ∀ found, calls = some found → found.LosesNothing

/-- No batch asks a change of its own back. -/
def ReversesNothing (state : TagState P) : TagEvent P → Prop
  | .tagMessages mutations syncMaildirFlags _ _ _ => NoReversal (present state.messages)
      (mutations.map (MessageTagMutation.prepared syncMaildirFlags))
  | .tagThreads .. => True
  | .undoLast _ => True

/-- Undoing the history leads back to the original tags. -/
structure Undoable (original : Messages P) (state : TagState P) : Prop where
  consistent : ∀ action ∈ state.history, Consistent action.mutations
  limit : state.history.length ≤ maxUndoTagActions
  restores : Overwrite.undoAll
      (state.history.map fun action => overwriteOfMutations action.mutations)
      (present state.messages) = present original
  isSome : ∀ messageId, (state.messages messageId).isSome = (original messageId).isSome

variable {original : Messages P} {state : TagState P}

omit [LinearOrder P] in
theorem dropOverflow_of_le {actions : List UndoTagAction}
    (h : actions.length ≤ maxUndoTagActions) : dropOverflow actions = actions := by
  unfold dropOverflow
  rw [Nat.sub_eq_zero_of_le h, List.drop_zero]

omit [LinearOrder P] in
/-- A tag operation can be undone by the inverses of the changes that it reports, whatever part of
these changes has been lost. -/
theorem Undoable.tag (h : Undoable original state) {uiAction : PendingTagUiAction}
    {syncMaildirFlags : Bool} {label : Nat → Str} {undoDetail : Option Str}
    (huiAction : uiAction = .tag syncMaildirFlags label undoDetail)
    (hroom : state.history.length < maxUndoTagActions)
    {result : Except Str (TagWorkerResult P)}
    (hoperated : Operated lossless state.messages messages' (reportedChanges result)) :
    Undoable original
      { messages := messages', history := finishTagWorker state.history uiAction result } := by
  rw [huiAction]
  have hisSome : ∀ messageId, (messages' messageId).isSome = (original messageId).isSome :=
    fun messageId => (hoperated.isSome messageId).trans (h.isSome messageId)
  obtain ⟨final, hreports, hbetween, -⟩ := hoperated.ended
  obtain ⟨hconsistent, hback⟩ := inverse_leads_back hreports hbetween.present
  -- nothing is recorded where nothing has changed
  have hkept : inverseTagMutations (reportedChanges result) = [] →
      Undoable original { messages := messages', history := state.history } := by
    intro hempty
    rw [hempty] at hback
    have hsame : present messages' = present state.messages := hback
    exact ⟨h.consistent, h.limit, by rw [hsame]; exact h.restores, hisSome⟩
  cases result with
  | error error => exact hkept rfl
  | ok found =>
    show Undoable original { messages := messages', history := if _ then _ else _ }
    split
    · rename_i hempty
      exact hkept (List.isEmpty_iff.1 hempty)
    · have hlength : (state.history ++ [(⟨inverseTagMutations found.report.changes,
          syncMaildirFlags, label found.report.changedMessages, undoDetail⟩ :
            UndoTagAction)]).length ≤ maxUndoTagActions := by
        rw [List.length_append]
        exact hroom
      unfold pushUndoTagAction
      rw [dropOverflow_of_le hlength]
      refine ⟨fun action hmem => ?_, hlength, ?_, hisSome⟩
      · rcases List.mem_append.1 hmem with hmem | hmem
        · exact h.consistent action hmem
        · rw [List.mem_singleton.1 hmem]
          exact hconsistent
      · rw [List.map_append, List.map_singleton, Overwrite.undoAll_concat]
        have hback' : (overwriteOfMutations (inverseTagMutations found.report.changes)).apply
            (present messages') = present state.messages := hback
        rw [hback']
        exact h.restores

omit [LinearOrder P] in
/-- Undoing the last action keeps it until all of it is done. -/
theorem Undoable.undo (h : Undoable original state) {action : UndoTagAction}
    {history : List UndoTagAction} (hhistory : state.history = history ++ [action])
    {result : Except Str (TagWorkerResult P)}
    (hundone : Undone lossless action state.messages messages' result) :
    Undoable original
      { messages := messages', history := finishTagWorker history (.undo [action]) result } := by
  have hisSome : ∀ messageId, (messages' messageId).isSome = (original messageId).isSome :=
    fun messageId => (hundone.operated.isSome messageId).trans (h.isSome messageId)
  have hrestores := h.restores
  rw [hhistory, List.map_append, List.map_singleton, Overwrite.undoAll_concat] at hrestores
  have hlimit := h.limit
  have hrestored : restoreUndoTagActions history [action] = state.history := by
    unfold restoreUndoTagActions
    rw [List.reverse_singleton, ← hhistory]
    exact dropOverflow_of_le hlimit
  -- the action is back in the history, with a part of it done
  have hback : Undoable original
      { messages := messages', history := restoreUndoTagActions history [action] } := by
    rw [hrestored]
    refine ⟨h.consistent, hlimit, ?_, hisSome⟩
    show Overwrite.undoAll (state.history.map _) (present messages') = _
    rw [hhistory, List.map_append, List.map_singleton, Overwrite.undoAll_concat,
      hundone.partWay.apply_eq]
    exact hrestores
  cases result with
  | error error => exact hback
  | ok found =>
    cases hcomplete : found.isComplete with
    | false =>
      show Undoable original { messages := messages', history := if found.isComplete then _ else _ }
      rw [hcomplete]
      exact hback
    | true =>
      show Undoable original { messages := messages', history := if found.isComplete then _ else _ }
      rw [hcomplete]
      refine ⟨fun action hmem => h.consistent action ?_, ?_, ?_, hisSome⟩
      · rw [hhistory]
        exact List.mem_append_left _ hmem
      · rw [hhistory, List.length_append] at hlimit
        exact Nat.le_of_add_right_le hlimit
      · rw [hundone.whole found rfl hcomplete]
        exact hrestores

/-- The worker reports what its operation reports, and its close may lose some of it. -/
theorem executeTagWorker_operated {operation : TagWorkerOperation}
    (h : Operated (Notmuch.LosesNothing (calls.batch 0).endAtomic) messages
      (executeOperation path calls messages operation).1
      (operationChanges (executeOperation path calls messages operation).2)) :
    Operated calls.LosesNothing messages (executeTagWorker path calls messages operation).1
      (reportedChanges (executeTagWorker path calls messages operation).2) := by
  unfold executeTagWorker
  cases calls.openDatabase with
  | some error => exact .refl messages
  | none =>
    simp only
    rw [reportedChanges_finalize]
    exact h.close

/-- **One step.** The history still leads back, and the changes are those of the tags, unless some
have been lost. -/
theorem Undoable.perform (h : Undoable original state) {event : TagEvent P}
    (hfits : Fits state event) (hreverses : ReversesNothing state event) :
    Undoable original (perform path state event).1 ∧
      Operated (EventLosesNothing event) state.messages
        (Ui.perform path state event).1.messages (Ui.perform path state event).2 := by
  cases event with
  | tagThreads threadIds mutation label undoDetail calls =>
    have hoperated := executeTagWorker_operated
      (executeThreads_operated path state.messages hfits.1 threadIds mutation)
    exact ⟨h.tag rfl hfits.2 hoperated, hoperated⟩
  | tagMessages mutations syncMaildirFlags label undoDetail calls =>
    have hoperated := executeTagWorker_operated
      (executeMessages_operated path hfits.1 hreverses)
    exact ⟨h.tag rfl hfits.2 hoperated, hoperated⟩
  | undoLast calls =>
    show Undoable original (undoLastTag path calls state).1 ∧
      Operated _ state.messages (undoLastTag path calls state).1.messages
        (undoLastTag path calls state).2
    unfold undoLastTag popLastUndoTagAction
    cases hlast : state.history.getLast? with
    | none => exact ⟨h, .refl _⟩
    | some action =>
      have hhistory : state.history = state.history.dropLast ++ [action] :=
        (List.dropLast_append_getLast? action hlast).symm
      have hconsistent : Consistent action.mutations := h.consistent action
        (List.mem_of_getLast? hlast)
      cases calls with
      | none =>
        -- no worker: the action goes back untouched
        have hnothing : Undone True action state.messages state.messages
            (.error [] : Except Str (TagWorkerResult P)) :=
          .nothing rfl fun _ hfound => by cases hfound
        exact ⟨h.undo hhistory hnothing, .refl _⟩
      | some calls =>
        have hundone := executeUndo_undone path state.messages (hfits calls rfl) hconsistent
        obtain ⟨final, hreports, hbetween, hsame⟩ := hundone.operated.ended
        refine ⟨h.undo hhistory hundone, ⟨final, hreports, hbetween, fun hloses => ?_⟩,
          hundone.operated.isSome⟩
        exact hsame (hloses calls rfl)

/-- A step of the main window. -/
def Step (path : PathText P) (state : TagState P) (event : TagEvent P) : Option (TagState P) :=
  some (perform path state event).1

omit [LinearOrder P] in
/-- Messages that are there alike and have the same tags present have the same sets of tags. -/
theorem tags_eq_of_present {messageId : Str}
    (hisSome : (messages messageId).isSome = (messages' messageId).isSome)
    (hpresent : ∀ tag, present messages (messageId, tag) = present messages' (messageId, tag)) :
    (messages messageId).map Message.tags = (messages' messageId).map Message.tags := by
  cases hmessage : messages messageId with
  | none =>
    rw [hmessage] at hisSome
    rw [Option.not_isSome_iff_eq_none.1 (Bool.eq_false_iff.1 hisSome.symm)]
  | some message =>
    rw [hmessage] at hisSome
    obtain ⟨message', hmessage'⟩ := Option.isSome_iff_exists.1 hisSome.symm
    rw [hmessage']
    refine congrArg some (BTreeSet.eq_of_mem_iff fun tag => ?_)
    have htag := hpresent tag
    rw [present_eq hmessage, present_eq hmessage'] at htag
    rw [← BTreeSet.contains_eq_true, ← BTreeSet.contains_eq_true]
    exact Bool.eq_iff_iff.1 htag

/-- **Reports and undoing over whole runs.** In a run without reversals inside of a batch, every
step whose ends lose nothing reports exactly the difference between the tags before and after it,
and once everything has been undone each message has its original tags, whatever has been lost on
the way. By induction along the run; `Undoable` is the invariant that the steps keep. -/
theorem run_undone (path : PathText P) (original : Messages P)
    {trace : List (TagState P × TagEvent P)} {state : TagState P}
    (hrun : Transition.Run (Transition.Steps (Step path)) { messages := original, history := [] }
      trace state)
    (hfits : ∀ step ∈ trace, Fits step.1 step.2)
    (hreverses : ∀ step ∈ trace, ReversesNothing step.1 step.2) :
    (∀ step ∈ trace, EventLosesNothing step.2 → ReportsDifference (present step.1.messages)
      (present (perform path step.1 step.2).1.messages) (perform path step.1 step.2).2) ∧
    (state.history = [] → ∀ messageId,
      (state.messages messageId).map Message.tags = (original messageId).map Message.tags) := by
  have hstart : Undoable original { messages := original, history := [] } :=
    ⟨fun _ hmem => absurd hmem List.not_mem_nil, Nat.zero_le _, rfl, fun _ => rfl⟩
  have hstep : ∀ (t : TagState P) (e : TagEvent P) (u : TagState P), Undoable original t →
      Fits t e ∧ ReversesNothing t e → Transition.Steps (Step path) t e u →
      Undoable original u := by
    intro t e u ht hmeets hsteps
    obtain rfl := Option.some.inj hsteps
    exact (ht.perform hmeets.1 hmeets.2).1
  constructor
  · intro step hmem hloses
    -- the run up to the step has kept the invariant
    obtain ⟨earlier, later, htrace, hearlier⟩ := hrun.prefix_of_mem hmem
    have hundoable := hearlier.invariant_of_steps hstep hstart fun p hp =>
      have hin : p ∈ trace := by
        rw [htrace]
        exact List.mem_append_left _ hp
      ⟨hfits p hin, hreverses p hin⟩
    exact (hundoable.perform (hfits step hmem) (hreverses step hmem)).2.reports hloses
  · intro hempty messageId
    have hundoable := hrun.invariant_of_steps hstep hstart fun p hp => ⟨hfits p hp, hreverses p hp⟩
    have hpresent := hundoable.restores
    rw [hempty] at hpresent
    exact tags_eq_of_present (hundoable.isSome messageId) fun tag =>
      congrFun hpresent (messageId, tag)

/-- A worker all of whose calls succeed. -/
def workingCalls : WorkerCalls Nat where
  reads := oneMessage
  batches := []

def redOn : MessageTagMutation where
  messageId := ['m']
  add := [['r', 'e', 'd']]
  remove := []

def redOff : MessageTagMutation where
  messageId := ['m']
  add := []
  remove := [['r', 'e', 'd']]

/-- Tag messages and undo it. -/
def tagAndUndo (mutations : List MessageTagMutation) : List (TagEvent Nat) :=
  [.tagMessages mutations false (fun _ => []) none workingCalls, .undoLast (some workingCalls)]

def unusedHistory : TagState Nat where
  messages := untagged
  history := []

theorem tagAndUndo_fits (mutations : List MessageTagMutation) :
    ∀ step ∈ Transition.execTrace (Step plainPaths) unusedHistory (tagAndUndo mutations),
      Fits step.1 step.2 := by
  have hthaws : workingCalls.Thaws := fun batch hmem => absurd hmem List.not_mem_nil
  intro step hmem
  rcases List.mem_cons.1 hmem with rfl | hmem
  · exact ⟨hthaws, Nat.succ_pos 29⟩
  · obtain rfl := List.mem_singleton.1 hmem
    exact fun found hfound => Option.some.inj hfound ▸ hthaws

theorem workingCalls_losesNothing : workingCalls.LosesNothing :=
  ⟨fun _ hmem => absurd hmem List.not_mem_nil, fun _ hfailed => by cases hfailed⟩

/-- Tagging a message and undoing it: both reports are exact and the message is as it was. -/
theorem run_undone_red : ∃ state, Transition.Run (Transition.Steps (Step plainPaths)) unusedHistory
      (Transition.execTrace (Step plainPaths) unusedHistory (tagAndUndo [redOn])) state ∧
    (∀ step ∈ Transition.execTrace (Step plainPaths) unusedHistory (tagAndUndo [redOn]),
      ReportsDifference (present step.1.messages)
        (present (perform plainPaths step.1 step.2).1.messages)
        (perform plainPaths step.1 step.2).2) ∧
    state.history = [] ∧ ∀ messageId,
      (state.messages messageId).map Message.tags = (untagged messageId).map Message.tags := by
  have hreverses : ∀ step ∈ Transition.execTrace (Step plainPaths) unusedHistory
      (tagAndUndo [redOn]), ReversesNothing step.1 step.2 := by
    intro step hmem
    rcases List.mem_cons.1 hmem with rfl | hmem
    · exact List.pairwise_singleton _ _
    · obtain rfl := List.mem_singleton.1 hmem
      trivial
  have hloses : ∀ step ∈ Transition.execTrace (Step plainPaths) unusedHistory
      (tagAndUndo [redOn]), EventLosesNothing step.2 := by
    intro step hmem
    rcases List.mem_cons.1 hmem with rfl | hmem
    · exact workingCalls_losesNothing
    · obtain rfl := List.mem_singleton.1 hmem
      exact fun found hfound => Option.some.inj hfound ▸ workingCalls_losesNothing
  obtain ⟨hreports, hrestored⟩ := run_undone plainPaths untagged
    (Transition.run_of_exec (tagAndUndo [redOn]) rfl) (tagAndUndo_fits [redOn]) hreverses
  exact ⟨_, Transition.run_of_exec (tagAndUndo [redOn]) rfl,
    fun step hmem => hreports step hmem (hloses step hmem), rfl, hrestored rfl⟩

/-- A batch that tags a message and takes the tag off again leaves, once undone, the tag on. -/
theorem reversal_not_undone : ¬ ∀ (trace : List (TagState Nat × TagEvent Nat))
    (state : TagState Nat),
    Transition.Run (Transition.Steps (Step plainPaths)) unusedHistory trace state →
    (∀ step ∈ trace, Fits step.1 step.2) →
    (∀ step ∈ trace, ReportsDifference (present step.1.messages)
      (present (perform plainPaths step.1 step.2).1.messages)
      (perform plainPaths step.1 step.2).2) ∧
    (state.history = [] → ∀ messageId,
      (state.messages messageId).map Message.tags =
        (untagged messageId).map Message.tags) := by
  intro hall
  have hrestored := (hall _ _ (Transition.run_of_exec (tagAndUndo [redOn, redOff]) rfl)
    (tagAndUndo_fits [redOn, redOff])).2 rfl ['m']
  have htags := congrArg (Option.map BTreeSet.toList) hrestored
  exact absurd htags (by decide)

end Notm.Ui
