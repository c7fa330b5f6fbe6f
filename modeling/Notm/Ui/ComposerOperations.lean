import Notm.Ui.ComposerWindow

/-!
# The operations of the composer

What the requests, the confirmations, the callbacks of the flushes and the answers of the workers
do, and the step of the window that they make up.

* `requestPendingAction`, `executePendingAction` — what is asked first, and what is then done.
* `runCallback` — what the callbacks of the flushes do.
* `MainLoopEvent`, `ComposerEvent` and `step` — the window as a transition system.
-/

namespace Notm.Ui

open Rust DraftAutosave

namespace ComposerWindow

/-! ## Closing the window -/

/-- What the fields hold now is the last thing that is written before the window closes. The
callback looks at the generation again, as an edit may have come while the write was on its way. -/
def flushLatestDraftThenClose (w : ComposerWindow) : ComposerWindow :=
  let w := w.cancelPendingDraftCapture
  let fields := w.fields
  let w := { w with composeFields := fields }
  w.flush w.composeGeneration (w.recoveryActionForFields fields)
    (.closeMainWindow w.composeGeneration)

/-- The window closes only from the callback of the flush, and a second request in the meantime
changes nothing. -/
def flushAndCloseMainWindow (w : ComposerWindow) : ComposerWindow :=
  let w := w.cancelComposerPreparation
  if w.closeFlushInProgress then w
  else { w with closeFlushInProgress := true }.flushLatestDraftThenClose

/-! ## Clearing the composer and showing a message -/

/-- The widgets are cleared by the callback, once the recovery is known to be cleared on disk. -/
def clearCurrentDraftImmediately (w : ComposerWindow) : ComposerWindow :=
  w.cancelPendingDraftCapture.flush w.composeGeneration .clear
    (.clearComposer w.composeGeneration w.transitionEpoch)

/-- Whether the composer has gone on since a reset was asked for: an edit moves the one counter, a
replacement or a preparation moves the other. -/
def composerResetWasSuperseded (requestedComposeGeneration requestedTransitionEpoch
    currentComposeGeneration currentTransitionEpoch : Nat) : Bool :=
  currentComposeGeneration ≠ requestedComposeGeneration ||
    currentTransitionEpoch ≠ requestedTransitionEpoch

/-- The recovery keeps what the fields hold unless the user has given it up in the confirmation
(`clear_saved_recovery`). -/
def showSelectedMessage (w : ComposerWindow) (clearSavedRecovery : Bool) : ComposerWindow :=
  let w := w.cancelPendingDraftCapture
  let fields := w.fields
  let w := { w with composeFields := fields }
  let action := if clearSavedRecovery then .clear else w.recoveryActionForFields fields
  w.flush w.composeGeneration action (.showSelectedMessage w.composeGeneration w.transitionEpoch)

/-! ## Replacing the composer -/

/-- `take_composer_attachment_sources`. -/
def takeSources : ReplacementPayload → ReplacementPayload × List Str
  | .message fields sources => (.message fields [], sources)
  | .draft fields source sources => (.draft fields source [], sources)
  | payload => (payload, [])

/-- `install_cached_composer_attachment_paths`. -/
def installCachedPaths (paths : List Str) : ReplacementPayload → Option ReplacementPayload
  | .message fields sources => some (.message { fields with attachments := paths } sources)
  | .draft fields source sources =>
    some (.draft { fields with attachments := paths } source sources)
  | _ => none

/-- The fields that were saved are remembered with the source, to tell later whether the user has
gone on editing. -/
def DraftSource.activeDraft (source : DraftSource) (fields : ComposeFields) : ActiveDraft where
  path := source.path
  messageId := source.messageId
  indexed := source.indexed
  savedFields := fields

/-- A replacement whose attachments are at hand. -/
def applyReplacement (w : ComposerWindow) : ReplacementPayload → ComposerWindow
  | .empty =>
    let w := (w.applyComposeFields w.senderOnly).setActiveDraft none w.origin
    w.scheduleRecoveryDraftFromUi w.fields
  | .fields fields =>
    let w := (w.applyComposeFields fields).setActiveDraft none w.origin
    w.scheduleRecoveryDraftFromUi w.fields
  | .message fields _ => w.fillComposer fields
  | .draft fields source _ =>
    let activeDraft := source.map fun source => DraftSource.activeDraft source fields
    let w := w.applyComposeFields fields
    let w := w.setActiveDraft activeDraft w.content
    w.scheduleRecoveryDraftFromUi w.fields

/-- The worker of the attachment cache is started for the sources of a payload. The replacement
waits for its answer, which is checked against the generation that is taken here. -/
def scheduleComposerAttachmentCache (w : ComposerWindow) (payload : ReplacementPayload) :
    ComposerWindow :=
  { w with
    attachmentCache := some { payload := payload, composeGeneration := w.composeGeneration } }

/-- A payload whose attachments all have a file is applied at once. -/
def applyPreparedComposerReplacement (w : ComposerWindow) (payload : ReplacementPayload) :
    ComposerWindow :=
  match takeSources payload with
  | (payload, []) => w.applyReplacement payload
  | (payload, _) => w.scheduleComposerAttachmentCache payload

/-! ## Saving and deleting drafts: the start -/

/-- `begin_draft_save_activity`; the generation is that of the operation. -/
def beginDraftSaveActivity (w : ComposerWindow) : Option (Nat × ComposerWindow) :=
  if w.draftSaveActive.isSome then none
  else
    let generation := saturatingSucc w.draftSaveGeneration
    some (generation,
      { w with draftSaveGeneration := generation, draftSaveActive := some generation })

/-- A save begins with a flush: the fields that are to be saved are first put where a crash cannot
take them away. -/
def startCapturedDraftSave (w : ComposerWindow) (fields : ComposeFields)
    (previousDraft : Option ActiveDraft) (captured : Captured) : ComposerWindow :=
  if !fieldsHasContent fields then w
  else
    match w.beginDraftSaveActivity with
    | none => w
    | some (operation, w) =>
      w.flush w.composeGeneration (.persist fields) (.saveBoundary
        { fields := fields, previousDraft := previousDraft, operationGeneration := operation
          captured := captured })

/-- Nothing has changed since the last save, so that only the recovery has to be cleared. -/
def startExistingDraftReconciliation (w : ComposerWindow) : ComposerWindow :=
  match w.beginDraftSaveActivity with
  | none => w
  | some (operation, w) => w.flush w.composeGeneration .clear (.existingDraft operation)

/-- The worker is given the draft that was active when the user confirmed the deletion, whatever is
active by the time it answers. -/
def deleteCapturedActiveDraft (w : ComposerWindow) (draft : ActiveDraft) : ComposerWindow :=
  match w.beginDraftSaveActivity with
  | none => w
  | some (operation, w) =>
    { w with
      endedDelete := none
      draftWorker := some (.deleteActive
        { draft := draft, operationGeneration := operation, composeGeneration := w.composeGeneration
          captured := w.captured }) }

/-- A named draft that is chosen from the list, which may or may not be the active one. -/
def deleteCapturedNamedDraft (w : ComposerWindow) (path : Path Dir) : ComposerWindow :=
  match w.beginDraftSaveActivity with
  | none => w
  | some (operation, w) => { w with draftWorker := some (.deleteNamed path operation) }

/-! ## Sending: the start -/

/-- The fields of the send are those of the moment at which the user asked for it; the composer
takes them over only if it has not gone on since. The transport is not started before the flush has
returned. -/
def startCapturedSend (w : ComposerWindow) (fields : ComposeFields)
    (sentDraft : Option ActiveDraft) (generation : Nat) (captured : Captured) : ComposerWindow :=
  let w := { w with
    composeFields := if w.composeGeneration = generation then fields else w.composeFields
    sendInProgress := true }
  w.flush generation (w.recoveryActionForFields fields)
    (.sendBoundary
      { sentGeneration := generation, sentDraft := sentDraft, captured := captured } fields)

/-! ## Pending actions -/

/-- What an action does once it is admitted and, where it has to be, confirmed. -/
def executePendingAction (w : ComposerWindow) : PendingTransition → ComposerWindow
  | .clearComposer => w.clearCurrentDraftImmediately
  | .replaceComposer payload => w.applyPreparedComposerReplacement payload
  | .deleteActiveDraft draft => w.deleteCapturedActiveDraft draft
  | .deleteNamedDraft path => w.deleteCapturedNamedDraft path
  | .saveDraftReplacement fields previous captured =>
    w.startCapturedDraftSave fields (some previous) captured
  | .sendComposer fields active generation captured =>
    w.startCapturedSend fields (some active) generation captured
  | .showSelectedMessage clearSavedRecovery => w.showSelectedMessage clearSavedRecovery
  | .closeMainWindow => w.flushAndCloseMainWindow

/-- `rollback_preparation`. -/
def rejectPendingAction (w : ComposerWindow) : PendingTransition → ComposerWindow
  | .closeMainWindow => { w with exitRequested := false }
  | _ => w

/-- The checks in the order of the source: the operations under way, a confirmation that is still
open, and whether this action needs one. An action that needs none is carried out at once. -/
def requestPendingAction (w : ComposerWindow) (action : PendingTransition) : ComposerWindow :=
  let w := if action.cancelsPreparation then w.cancelComposerPreparation else w
  if !w.allowed action.operation then w.rejectPendingAction action
  else if w.confirmation.isSome then w.rejectPendingAction action
  else if action.alwaysRequiresConfirmation ||
      composerRequiresConfirmation w.fields w.activeDraft then
    { w with confirmation := some action }
  else w.executePendingAction action

/-- `complete_pending_confirmation`. -/
def completePendingConfirmation (w : ComposerWindow) (accepted : Bool) : Option ComposerWindow :=
  w.confirmation.map fun action =>
    let w := { w with confirmation := none }
    if !accepted then w.rejectPendingAction action
    else if !w.allowed action.operation then w.rejectPendingAction action
    else w.executePendingAction action

/-! ## Closing after other work -/

/-- `background_activity_requires_deferred_close`, or draft work. -/
def deferredClose (w : ComposerWindow) : Bool :=
  w.sendInProgress || w.background.syncInProgress || w.background.tagInProgress ||
    (w.background.tagWarning && w.background.searchLoading) || w.draftSaveActive.isSome

/-- The handler of `close-request`. -/
def closeRequest (w : ComposerWindow) : ComposerWindow :=
  if w.confirmation.isSome then w
  else
    let w := w.cancelComposerPreparation
    if w.deferredClose then { w with closeWhenIdle := true }
    else if !composerRequiresConfirmation w.fields w.activeDraft then w.flushAndCloseMainWindow
    else w.requestPendingAction .closeMainWindow

/-- A close that had to wait for a save or a send is taken up again when the last of them is over.
-/
def closeMainWindowAfterBackgroundActivity (w : ComposerWindow) : ComposerWindow :=
  if !w.deferredClose && w.closeWhenIdle then
    let w := { w with closeWhenIdle := false }
    if w.exitRequested then w.closeRequest else w.flushAndCloseMainWindow
  else w

/-! ## Saving and deleting drafts: the end -/

/-- The answer of an operation that is no longer the active one ends nothing. -/
def finishDraftPersistenceActivity (w : ComposerWindow) (operation : Nat) : ComposerWindow :=
  let active := w.draftSaveActive
  let w := { w with draftSaveActive := none }
  if active ≠ some operation then w else w.closeMainWindowAfterBackgroundActivity

/-- `finish_draft_save_success` and `finish_draft_save_failure`. -/
def finishDraftSave (w : ComposerWindow) (operation : Nat) : ComposerWindow :=
  if w.draftSaveActive ≠ some operation then w else w.finishDraftPersistenceActivity operation

/-- The saved copy becomes the active draft, with the fields that were saved. The recovery is then
written for what the fields hold now: nothing if they have not changed. -/
def finishDraftSaveWorkerSuccess (w : ComposerWindow) (pending : PendingDraftSave)
    (saved : DraftSource) : ComposerWindow :=
  let activeDraft := DraftSource.activeDraft saved pending.fields
  let w := w.setActiveDraft (some activeDraft) pending.captured.content
  let fields := w.fields
  let w := { w with composeFields := fields }
  w.flush w.composeGeneration (w.recoveryActionForFields fields)
    (.draftSaved pending.operationGeneration)

/-- The composer is cleared only if the deleted draft is still the active one and nobody has edited
it since the deletion was asked for. -/
def finishActiveDraftDelete (w : ComposerWindow) (pending : PendingDraftDelete) : ComposerWindow :=
  let wasActive := w.activeDraft = some pending.draft
  let w := if wasActive then w.setActiveDraft none w.origin else w
  let fields := w.fields
  let unchanged := wasActive ∧ w.composeGeneration = pending.composeGeneration
  let action := if unchanged then .clear else w.recoveryActionForFields fields
  w.flush w.composeGeneration action (.draftDeleted pending unchanged fields)

/-- The end of a deletion; `fields` is what the worker's completion has captured. -/
def finishDraftDeleted (w : ComposerWindow) (pending : PendingDraftDelete) (unchanged : Bool)
    (fields : ComposeFields) (result : WriteResult) : ComposerWindow :=
  if w.draftSaveActive ≠ some pending.operationGeneration then w
  else
    match result with
    | .error _ =>
      { w with endedDelete := some ⟨pending, false⟩ }.finishDraftSave pending.operationGeneration
    | .ok () =>
      let cleared := unchanged && w.composeGeneration = pending.composeGeneration
      let w := if cleared then w.clearDraftWidgets else { w with composeFields := fields }
      { w with endedDelete := some ⟨pending, cleared⟩ }.finishDraftPersistenceActivity
        pending.operationGeneration

/-- A deleted draft that was active leaves its fields in the composer, where they are a draft
without a copy. -/
def finishNamedDraftDelete (w : ComposerWindow) (path : Path Dir) (operation : Nat) :
    ComposerWindow :=
  let w :=
    if w.activeDraft.any fun active => active.path = path then
      let w := w.setActiveDraft none w.origin
      w.scheduleRecoveryDraftFromUi w.fields
    else w
  w.finishDraftPersistenceActivity operation

/-! ## Sending: the end -/

/-- The plan is made when the transport has accepted the message, from what the composer holds then.
It clears nothing that is newer than what was sent. -/
def planAcceptedSendCleanup (sentGeneration currentGeneration : Nat)
    (sentDraft currentActiveDraft : Option ActiveDraft) (draftDeleted : Bool) :
    AcceptedSendCleanupPlan :=
  let sameActiveDraft := decide (currentActiveDraft = sentDraft)
  let composerUnchanged := decide (currentGeneration = sentGeneration)
  { clearActiveDraft := sentDraft.isSome && draftDeleted && sameActiveDraft
    draftIdentityChanged := sentDraft.isSome && draftDeleted && !sameActiveDraft
    clearRecovery := composerUnchanged && (sentDraft.isNone || draftDeleted)
    newerComposerChanges := !composerUnchanged }

/-- What is left to do when the recovery has been cleared, or could not be. -/
structure AcceptedSendPostClearDecision where
  resetComposer : Bool
  repersistRecovery : Bool
  newerComposerChanges : Bool

/-- The generation is compared once more, since the composer may have been edited while the recovery
was being cleared. -/
def acceptedSendPostClearDecision (plan : AcceptedSendCleanupPlan)
    (sentGeneration currentGeneration : Nat) (recoveryCleared : Bool) :
    AcceptedSendPostClearDecision :=
  let newerComposerChanges := plan.newerComposerChanges || currentGeneration ≠ sentGeneration
  { resetComposer := !newerComposerChanges && (plan.clearRecovery && recoveryCleared)
    repersistRecovery := newerComposerChanges
    newerComposerChanges := newerComposerChanges }

/-- The end of a send, after which a close that has waited for it goes on. -/
def finishSendActivity (w : ComposerWindow) : ComposerWindow :=
  { w with sendInProgress := false }.closeMainWindowAfterBackgroundActivity

/-- `finish_send_success_after_cleanup` of an accepted send. -/
def finishAcceptedSend (w : ComposerWindow) (pending : PendingSend) : ComposerWindow :=
  { w with acceptedSend := some pending }.finishSendActivity

/-- `finish_send_success` of an accepted send. -/
def finishSendSuccess (w : ComposerWindow) (pending : PendingSend) (draftDeleted : Bool) :
    ComposerWindow :=
  let plan := planAcceptedSendCleanup pending.sentGeneration w.composeGeneration pending.sentDraft
    w.activeDraft draftDeleted
  let w := if plan.clearActiveDraft then w.setActiveDraft none w.origin else w
  if plan.clearRecovery then w.flush pending.sentGeneration .clear (.acceptedSend pending plan)
  else w.finishAcceptedSend pending

/-- The deletion of the sent draft runs in a worker of its own. -/
def beginAcceptedSendCleanup (w : ComposerWindow) (pending : PendingSend) : ComposerWindow :=
  match pending.sentDraft with
  | none => w.finishSendSuccess pending false
  | some draft =>
    if w.activeDraft ≠ some draft then w.finishSendSuccess pending false
    else
      { w with
        sendWorker := some (.deleteSentDraft pending)
        deletedDrafts := w.deletedDrafts ++ [draft] }

/-- The callback of the flush that clears the recovery draft of an accepted send. -/
def acceptedSendCleared (w : ComposerWindow) (pending : PendingSend)
    (plan : AcceptedSendCleanupPlan) (result : WriteResult) : ComposerWindow :=
  let currentGeneration := w.composeGeneration
  let decision := acceptedSendPostClearDecision plan pending.sentGeneration currentGeneration
    result.isOk
  if decision.repersistRecovery then
    let w := w.cancelPendingDraftCapture
    let fields := w.fields
    let w := { w with composeFields := fields }
    w.flush currentGeneration (w.recoveryActionForFields fields) (.newerDraft pending)
  else
    let w := if decision.resetComposer then w.resetComposerFields else w
    w.finishAcceptedSend pending

/-- The recovery is on disk, and the transport is started. -/
def launchCapturedSend (w : ComposerWindow) (pending : PendingSend) (fields : ComposeFields) :
    ComposerWindow :=
  { w with
    composeFields :=
      if w.composeGeneration = pending.sentGeneration then fields else w.composeFields
    sendWorker := some (.send pending) }

/-- Without a recovery on disk nothing is sent, and the window stays open even if it was to close.
-/
def failSendBeforeTransport (w : ComposerWindow) : ComposerWindow :=
  { w with sendInProgress := false, closeWhenIdle := false, exitRequested := false }

/-! ## The callbacks of the flushes -/

/-- The callbacks of the flushes. The ones that reset the composer compare the counters that they
were given with the present ones; the others go on with the operation that has waited for the flush,
or end it. -/
def runCallback (w : ComposerWindow) (callback : FlushCallback) (result : WriteResult) :
    ComposerWindow :=
  match callback, result with
  | .clearComposer generation epoch, .ok () =>
    if composerResetWasSuperseded generation epoch w.composeGeneration w.transitionEpoch then w
    else w.clearDraftWidgets
  | .clearComposer _ _, .error _ => w
  | .showSelectedMessage generation epoch, .ok () =>
    if composerResetWasSuperseded generation epoch w.composeGeneration w.transitionEpoch then w
    else w.resetComposerFields
  | .showSelectedMessage _ _, .error _ => w
  | .closeMainWindow generation, .ok () =>
    if w.composeGeneration ≠ generation then w.flushLatestDraftThenClose
    else { w with closeFlushInProgress := false, exitRequested := false, closed := true }
  | .closeMainWindow _, .error _ =>
    { w with closeFlushInProgress := false, exitRequested := false }
  | .existingDraft operation, _ => w.finishDraftSave operation
  | .saveBoundary pending, .ok () => { w with draftWorker := some (.save pending) }
  | .saveBoundary pending, .error _ => w.finishDraftSave pending.operationGeneration
  | .draftSaved operation, _ => w.finishDraftSave operation
  | .draftDeleted pending unchanged fields, result =>
    w.finishDraftDeleted pending unchanged fields result
  | .sendBoundary pending fields, .ok () => w.launchCapturedSend pending fields
  | .sendBoundary _ _, .error _ => w.failSendBeforeTransport
  | .acceptedSend pending plan, result => w.acceptedSendCleared pending plan result
  | .newerDraft pending, _ => w.finishAcceptedSend pending

/-! ## Requests -/

/-- A save without an active draft makes a new copy and needs no confirmation. One that would write
over the active draft is asked about, unless nothing has changed. -/
def requestSaveCurrentDraft (w : ComposerWindow) : ComposerWindow :=
  if !w.allowed .draftSave || !fieldsHasContent w.fields then w
  else
    let fields := w.fields
    let w := { w.cancelPendingDraftCapture with composeFields := fields }
    match w.activeDraft with
    | some previous =>
      if fields = previous.savedFields then w.startExistingDraftReconciliation
      else w.requestPendingAction (.saveDraftReplacement fields previous w.captured)
    | none => w.startCapturedDraftSave fields none w.captured

/-- Which draft is active is recorded for the proofs at this point, before anything is asked. -/
def sendCompose (w : ComposerWindow) : ComposerWindow :=
  if !w.allowed .send then w
  else
    let w := { w.cancelPendingDraftCapture with
      capturedDrafts := w.capturedDrafts ++ w.activeDraft.toList
      acceptedSend := none }
    match w.activeDraft with
    | some active =>
      w.requestPendingAction (.sendComposer w.fields active w.composeGeneration w.captured)
    | none => w.startCapturedSend w.fields none w.composeGeneration w.captured

/-- The recovery may be cleared when the active draft has just these fields. -/
def requestShowSelectedMessage (w : ComposerWindow) : ComposerWindow :=
  if w.sendInProgress then w
  else w.requestPendingAction (.showSelectedMessage (w.activeDraftMatchesFields w.fields))

/-- Without an active draft there is nothing to delete. -/
def deleteActiveDraft (w : ComposerWindow) : ComposerWindow :=
  match w.activeDraft with
  | none => w
  | some draft => w.requestPendingAction (.deleteActiveDraft draft)

/-- A preparation takes a new epoch, by which the callbacks of older resets know that they have been
superseded. -/
def scheduleComposerPreparation (w : ComposerWindow) (indexedDraft : Bool) : ComposerWindow :=
  if !w.allowed (if indexedDraft then .draftLoad else .composeReplace) then w
  else
    { w.cancelComposerAttachmentCache with
      transitionEpoch := saturatingSucc w.transitionEpoch
      preparation := some
        { indexedDraft := indexedDraft, composeGeneration := w.composeGeneration } }

/-- The answer of the preparation; `none` stands for its failure. -/
def finishComposerPreparation (w : ComposerWindow) (payload : Option ReplacementPayload)
    (selectionChanged : Bool) : Option ComposerWindow :=
  w.preparation.map fun preparation =>
    let w := { w with preparation := none }
    if w.composeGeneration ≠ preparation.composeGeneration || selectionChanged then w
    else
      match payload with
      | none => w
      | some payload =>
        if decide (payload.operation = .draftLoad) ≠ preparation.indexedDraft then w
        else w.requestPendingAction (.replaceComposer payload)

/-- The answer of the cache counts only for the composer that asked for it: an edit since then, or
another selection, drops it. -/
def finishAttachmentCache (w : ComposerWindow) (paths : Option (List Str))
    (selectionChanged : Bool) : Option ComposerWindow :=
  w.attachmentCache.map fun cache =>
    let w := { w with attachmentCache := none }
    if w.composeGeneration ≠ cache.composeGeneration || selectionChanged then w
    else
      match paths.bind fun paths => installCachedPaths paths cache.payload with
      | none => w
      | some payload => w.applyPreparedComposerReplacement payload

/-- The load remembers both counters, and one load at a time is enough. -/
def scheduleManualDraftRecovery (w : ComposerWindow) : ComposerWindow :=
  if !w.allowed .draftLoad then w
  else
    let w := w.cancelComposerAttachmentCache
    if w.recoveryLoad.isSome then w
    else { w with recoveryLoad := some ⟨w.composeGeneration, w.transitionEpoch⟩ }

/-- The answer of the load; `none` stands for a missing file and for a failure. -/
def finishDraftRecoveryLoad (w : ComposerWindow) (file : Option ComposeFields) :
    Option ComposerWindow :=
  w.recoveryLoad.map fun load =>
    let w := { w with recoveryLoad := none }
    if composerResetWasSuperseded load.composeGeneration load.transitionEpoch w.composeGeneration
        w.transitionEpoch then w
    else
      match file with
      | none => w
      | some fields =>
        if fieldsHasContent fields then
          w.requestPendingAction (.replaceComposer (.draft fields none []))
        else w

/-! ## The answers of the workers -/

/-- The answer of the save worker, which is none when the save has failed. -/
def finishSaveWorker (w : ComposerWindow) (saved : Option DraftSource) : Option ComposerWindow :=
  match w.draftWorker with
  | some (.save pending) =>
    let w := { w with draftWorker := none }
    if w.draftSaveActive ≠ some pending.operationGeneration then some w
    else
      match saved with
      | some saved => some (w.finishDraftSaveWorkerSuccess pending saved)
      | none => some (w.finishDraftSave pending.operationGeneration)
  | _ => none

/-- The answer of the worker that deletes the active draft. -/
def finishActiveDeleteWorker (w : ComposerWindow) (deleted : Bool) : Option ComposerWindow :=
  match w.draftWorker with
  | some (.deleteActive pending) =>
    let w := { w with draftWorker := none }
    if w.draftSaveActive ≠ some pending.operationGeneration then some w
    else if deleted then some (w.finishActiveDraftDelete pending)
    else
      some ({ w with endedDelete := some ⟨pending, false⟩ }.finishDraftSave
        pending.operationGeneration)
  | _ => none

/-- The answer of the worker that deletes a named draft. -/
def finishNamedDeleteWorker (w : ComposerWindow) (deleted : Bool) : Option ComposerWindow :=
  match w.draftWorker with
  | some (.deleteNamed path operation) =>
    let w := { w with draftWorker := none }
    if w.draftSaveActive ≠ some operation then some w
    else if deleted then some (w.finishNamedDraftDelete path operation)
    else some (w.finishDraftSave operation)
  | _ => none

/-- How the send worker has ended: with an error, or with the transport's answer. -/
inductive SendOutcome where
  | failed
  | rejected
  | accepted
deriving DecidableEq

/-- `continue_send_completion`. -/
def finishSendWorker (w : ComposerWindow) (outcome : SendOutcome) : Option ComposerWindow :=
  match w.sendWorker with
  | some (.send pending) =>
    let w := { w with sendWorker := none }
    match outcome with
    | .accepted => some (w.beginAcceptedSendCleanup pending)
    | _ => some w.finishSendActivity
  | _ => none

/-- The worker has tried to delete the draft of a message that has been sent. -/
def finishSentDraftDelete (w : ComposerWindow) (deleted : Bool) : Option ComposerWindow :=
  match w.sendWorker with
  | some (.deleteSentDraft pending) =>
    some ({ w with sendWorker := none }.finishSendSuccess pending deleted)
  | _ => none

/-! ## The step -/

/-- What comes to the main loop: edits and timers, requests of the user and their confirmations, and
the answers of the workers. -/
inductive MainLoopEvent where
  | edit (text : ComposerText)
  | addAttachment (path : Str)
  | captureElapsed
  | debounceElapsed
  | background (activity : BackgroundActivity)
  | cancelPreparation
  | clear
  | replace (payload : ReplacementPayload)
  | prepare (indexedDraft : Bool)
  | prepared (payload : Option ReplacementPayload) (selectionChanged : Bool)
  | attachmentsCached (paths : Option (List Str)) (selectionChanged : Bool)
  | recoverDraft
  | recoveryLoaded (file : Option ComposeFields)
  | showMessage
  | saveDraft
  | draftSaved (saved : Option DraftSource)
  | deleteActiveDraft
  | activeDraftDeleted (deleted : Bool)
  | deleteNamedDraft (path : Path Dir)
  | namedDraftDeleted (deleted : Bool)
  | send
  | sendEnded (outcome : SendOutcome)
  | sentDraftDeleted (deleted : Bool)
  | close
  | exit
  | confirm (accepted : Bool)

/-- Synchronization and tag changes start only where they are admitted. -/
def setBackground (w : ComposerWindow) (activity : BackgroundActivity) : Option ComposerWindow :=
  if (activity.syncInProgress && !w.background.syncInProgress && !w.allowed .sync) ||
      (activity.tagInProgress && !w.background.tagInProgress && !w.allowed .tag) then none
  else some { w with background := activity }.closeMainWindowAfterBackgroundActivity

def mainLoop (w : ComposerWindow) : MainLoopEvent → Option ComposerWindow
  | .edit text => some (w.autosaveDraftFromWidgets text)
  | .addAttachment path => some (w.addAttachmentPath path)
  | .captureElapsed => w.captureDraft
  | .debounceElapsed =>
    (w.autosave.step .debounceElapsed).map fun autosave => { w with autosave := autosave }
  | .background activity => w.setBackground activity
  | .cancelPreparation => some w.cancelComposerPreparation
  | .clear => some (w.requestPendingAction .clearComposer)
  | .replace payload => some (w.requestPendingAction (.replaceComposer payload))
  | .prepare indexedDraft => some (w.scheduleComposerPreparation indexedDraft)
  | .prepared payload selectionChanged => w.finishComposerPreparation payload selectionChanged
  | .attachmentsCached paths selectionChanged => w.finishAttachmentCache paths selectionChanged
  | .recoverDraft => some w.scheduleManualDraftRecovery
  | .recoveryLoaded file => w.finishDraftRecoveryLoad file
  | .showMessage => some w.requestShowSelectedMessage
  | .saveDraft => some w.requestSaveCurrentDraft
  | .draftSaved saved => w.finishSaveWorker saved
  | .deleteActiveDraft => some w.deleteActiveDraft
  | .activeDraftDeleted deleted => w.finishActiveDeleteWorker deleted
  | .deleteNamedDraft path => some (w.requestPendingAction (.deleteNamedDraft path))
  | .namedDraftDeleted deleted => w.finishNamedDeleteWorker deleted
  | .send => some w.sendCompose
  | .sendEnded outcome => w.finishSendWorker outcome
  | .sentDraftDeleted deleted => w.finishSentDraftDelete deleted
  | .close => some w.closeRequest
  | .exit =>
    if w.confirmation.isSome then some w else some { w with exitRequested := true }.closeRequest
  | .confirm accepted => w.completePendingConfirmation accepted

/-- The file when the active write has ended. -/
def recoveryAfter (recovery : Option ComposeFields)
    (active : Option (DraftWriteRequest ComposeFields)) : WriteResult → Option ComposeFields
  | .ok () => active.elim recovery fun request => request.action.written
  | .error _ => recovery

/-- The end of a write. A write that ends while another completion is delivered is one whose
worker could not be spawned. -/
def finishWrite (w : ComposerWindow) (worker : Nat) (result : WriteResult) :
    Option ComposerWindow :=
  if !w.autosave.deliveries.isEmpty && result.isOk then none
  else
    (w.autosave.step (.writeEnded worker result)).map fun autosave =>
      { w with
        autosave := autosave
        recovery := recoveryAfter w.recovery w.autosave.state.active result }

/-- The number and the result that the delivery hands to the next callback. -/
def nextCallback (w : ComposerWindow) : Option (Nat × WriteResult) :=
  match w.autosave.deliveries with
  | ⟨_, result, number :: _⟩ :: _ => some (number, result)
  | _ => none

/-- The next completion that the queue delivers is handed to the callback that was registered with
its request. -/
def invokeCallback (w : ComposerWindow) : Option ComposerWindow :=
  w.nextCallback.bind fun (number, result) =>
    (w.autosave.step .invokeCallback).bind fun autosave =>
      w.callbacks[number]?.map fun callback =>
        { w with autosave := autosave }.runCallback callback result

/-- The queue has delivered a completion and looks for the next write. -/
def endDelivery (w : ComposerWindow) : Option ComposerWindow :=
  (w.autosave.step .deliveryEnded).map fun autosave => { w with autosave := autosave }

end ComposerWindow

inductive ComposerEvent where
  | mainLoop (event : ComposerWindow.MainLoopEvent)
  | writeEnded (worker : Nat) (result : WriteResult)
  | callback
  | deliveryEnded

namespace ComposerWindow

/-- The main loop is not run while a completion is being delivered, nor once the window has closed.
-/
def step (w : ComposerWindow) : ComposerEvent → Option ComposerWindow
  | .mainLoop event => if w.closed || !w.autosave.deliveries.isEmpty then none else w.mainLoop event
  | .writeEnded worker result => w.finishWrite worker result
  | .callback => w.invokeCallback
  | .deliveryEnded => w.endDelivery

/-- The window at its start: the composer has its sender, the recovery draft is being loaded. -/
def launch (sender : Str) (recovery : Option ComposeFields) : ComposerWindow where
  text := { from_ := sender }
  recovery := recovery
  recoveryLoad := some { composeGeneration := 0, transitionEpoch := 0 }

end ComposerWindow

end Notm.Ui
