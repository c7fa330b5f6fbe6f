import Notm.Ui.DraftAutosaveDelivery
import Notm.Ui.DraftSave

/-!
# The composer of the main window

The composer, its model in the window's state, its recovery queue and the operations that work on
it: new composers and replacements, clearing, showing a message, saving and deleting drafts,
sending, closing the window. Each of them is admitted by the operations under way, may ask for a
confirmation, and goes on in the callbacks of its flushes and in the answers of its workers.

The main loop takes one event after the other. While the queue delivers a completion it runs the
callbacks of that write and nothing else.

What only the proofs read stands at the end of each structure: how often the content of the
composer has been replaced, which of these contents the active draft belongs to, and the edits.
-/

namespace Notm.Ui

open Rust DraftAutosave

/-- The texts of the composer's widgets. -/
structure ComposerText where
  from_ : Str := []
  to_ : Str := []
  cc : Str := []
  bcc : Str := []
  subject : Str := []
  body : Str := []
deriving DecidableEq

/-- The texts of the fields, which is what the widgets show of a draft. -/
def ComposeFields.text (fields : ComposeFields) : ComposerText where
  from_ := fields.from_
  to_ := fields.to_
  cc := fields.cc
  bcc := fields.bcc
  subject := fields.subject
  body := fields.body

/-- The fields as `compose_fields_from_ui` reads them: the texts from the widgets, and the rest, the
attachments and the headers of a reply, from what is stored. -/
def ComposerText.readFields (text : ComposerText) (stored : ComposeFields) : ComposeFields :=
  { stored with
    from_ := text.from_
    to_ := text.to_
    cc := text.cc
    bcc := text.bcc
    subject := text.subject
    body := text.body }

@[simp] theorem ComposerText.readFields_text (text : ComposerText) (stored : ComposeFields) :
    (text.readFields stored).text = text := rfl

@[simp] theorem ComposerText.readFields_readFields (text text' : ComposerText)
    (stored : ComposeFields) : text.readFields (text'.readFields stored) = text.readFields stored :=
  rfl

@[simp] theorem ComposeFields.text_readFields (fields : ComposeFields) :
    fields.text.readFields fields = fields := rfl

/-- What the file holds after `persist_recovery_draft` or `clear_recovery_draft_files`. -/
def RecoveryAction.written : RecoveryAction ComposeFields → Option ComposeFields
  | .persist fields => if fieldsHasContent fields then some fields else none
  | .clear => none

/-- What a user can ask for, as far as the operations under way have a say in it. -/
inductive UserOperation where
  | composeEdit
  | tag
  | draftSave
  | draftDelete
  | draftLoad
  | draftClear
  | composeReplace
  | send
  | sync
deriving DecidableEq

/-! ## What is under way -/

/-- What the proofs remember of the moment at which an operation captured the composer. -/
structure Captured where
  content : Nat := 0
  origin : Nat := 0
  edits : Nat := 0
deriving DecidableEq

/-- Where a draft has been saved. -/
structure DraftSource where
  path : Path Dir
  messageId : Option Str
  indexed : Bool
deriving DecidableEq

/-- A message comes as the fields that `fill_composer` takes from it. The sources are those of
attachments that are still to be cached. -/
inductive ReplacementPayload where
  | empty
  | fields (fields : ComposeFields)
  | message (fields : ComposeFields) (sources : List Str)
  | draft (fields : ComposeFields) (source : Option DraftSource) (sources : List Str)
deriving DecidableEq

/-- What is to be done with the composer once the user has confirmed it. Each carries what it was
asked for with, so that nothing is read again after the confirmation. -/
inductive PendingTransition where
  | clearComposer
  | replaceComposer (payload : ReplacementPayload)
  | deleteActiveDraft (draft : ActiveDraft)
  | deleteNamedDraft (path : Path Dir)
  | saveDraftReplacement (fields : ComposeFields) (previous : ActiveDraft) (captured : Captured)
  | sendComposer (fields : ComposeFields) (active : ActiveDraft) (generation : Nat)
      (captured : Captured)
  | showSelectedMessage (clearSavedRecovery : Bool)
  | closeMainWindow
deriving DecidableEq

/-- A save that waits for its flush or for its worker. -/
structure PendingDraftSave where
  fields : ComposeFields
  previousDraft : Option ActiveDraft
  operationGeneration : Nat
  captured : Captured
deriving DecidableEq

/-- A deletion that waits for its worker, with the generation by which it is told whether the
composer has been edited since. -/
structure PendingDraftDelete where
  draft : ActiveDraft
  operationGeneration : Nat
  composeGeneration : Nat
  captured : Captured
deriving DecidableEq

/-- A message that is being sent, and the draft that it was made from. -/
structure PendingSend where
  sentGeneration : Nat
  sentDraft : Option ActiveDraft
  captured : Captured
deriving DecidableEq

/-- What a sent message leaves to be cleared. -/
structure AcceptedSendCleanupPlan where
  clearActiveDraft : Bool
  draftIdentityChanged : Bool
  clearRecovery : Bool
  newerComposerChanges : Bool
deriving DecidableEq

/-- What an operation does when the write of its flush has ended. -/
inductive FlushCallback where
  | clearComposer (generation epoch : Nat)
  | showSelectedMessage (generation epoch : Nat)
  | closeMainWindow (generation : Nat)
  | existingDraft (operation : Nat)
  | saveBoundary (pending : PendingDraftSave)
  | draftSaved (operation : Nat)
  | draftDeleted (pending : PendingDraftDelete) (unchanged : Bool) (fields : ComposeFields)
  | sendBoundary (pending : PendingSend) (fields : ComposeFields)
  | acceptedSend (pending : PendingSend) (plan : AcceptedSendCleanupPlan)
  | newerDraft (pending : PendingSend)
deriving DecidableEq

/-- The worker of the draft operation under way. -/
inductive DraftWorker where
  | save (pending : PendingDraftSave)
  | deleteActive (pending : PendingDraftDelete)
  | deleteNamed (path : Path Dir) (operation : Nat)
deriving DecidableEq

/-- The transport first, then the deletion of the draft that was sent. -/
inductive SendWorker where
  | send (pending : PendingSend)
  | deleteSentDraft (pending : PendingSend)
deriving DecidableEq

/-- Attachments that are cached for a replacement. -/
structure AttachmentCache where
  payload : ReplacementPayload
  composeGeneration : Nat
deriving DecidableEq

/-- A composer that is being prepared from a message, in the generation in which it was asked for.
-/
structure ComposerPreparation where
  indexedDraft : Bool
  composeGeneration : Nat
deriving DecidableEq

/-- A load of the recovered draft, with the two counters that tell whether it comes too late. -/
structure DraftRecoveryLoad where
  composeGeneration : Nat
  transitionEpoch : Nat
deriving DecidableEq

/-- Work of the window that the composer does not take part in. -/
structure BackgroundActivity where
  syncInProgress : Bool := false
  tagInProgress : Bool := false
  tagPathsUncertain : Bool := false
  tagWarning : Bool := false
  searchLoading : Bool := false
  migrationInProgress : Bool := false
deriving DecidableEq

/-- How the deletion of the active draft that ended last went: `cleared` says whether it cleared
the composer. -/
structure EndedDelete where
  pending : PendingDraftDelete
  cleared : Bool

/-- What the main window knows of its composer: the texts of the widgets and the fields of the
model, the generations that callbacks compare, the active draft, the recovery queue with the file
that it writes, the operations under way, and the flags of closing. The fields from `content` on are
no part of the program: they number the content of the composer and the one that the active draft
was made of, and keep what sends have captured and deletions have removed. -/
structure ComposerWindow where
  text : ComposerText := {}
  composeFields : ComposeFields := {}
  composeGeneration : Nat := 0
  transitionEpoch : Nat := 0
  activeDraft : Option ActiveDraft := none
  /-- `draft_capture_source`, with the generation that its closure has captured. -/
  draftCapture : Option Nat := none
  autosave : DraftAutosave ComposeFields := {}
  /-- The callback of each flush, by its number. -/
  callbacks : List FlushCallback := []
  /-- The file of the recovery draft. -/
  recovery : Option ComposeFields := none
  confirmation : Option PendingTransition := none
  attachmentCache : Option AttachmentCache := none
  preparation : Option ComposerPreparation := none
  recoveryLoad : Option DraftRecoveryLoad := none
  draftSaveGeneration : Nat := 0
  draftSaveActive : Option Nat := none
  draftWorker : Option DraftWorker := none
  sendInProgress : Bool := false
  sendWorker : Option SendWorker := none
  background : BackgroundActivity := {}
  closeWhenIdle : Bool := false
  exitRequested : Bool := false
  closeFlushInProgress : Bool := false
  closed : Bool := false
  content : Nat := 0
  origin : Nat := 0
  edits : Nat := 0
  lastEdit : ComposeFields := {}
  endedDelete : Option EndedDelete := none
  acceptedSend : Option PendingSend := none
  /-- The drafts captured by sends, and those deleted after one was accepted. -/
  capturedDrafts : List ActiveDraft := []
  deletedDrafts : List ActiveDraft := []

namespace ComposerWindow

/-- What the proofs remember of an operation's start. -/
def captured (w : ComposerWindow) : Captured where
  content := w.content
  origin := w.origin
  edits := w.edits

/-! ## The recovery queue -/

/-- A write that may wait for the debounce. -/
def schedule (w : ComposerWindow) (generation : Nat) (action : RecoveryAction ComposeFields) :
    ComposerWindow :=
  { w with autosave :=
    { w.autosave with
      state := w.autosave.state.schedule generation action
      submitted := w.autosave.submitted ++ [(generation, action)] } }

/-- A write that is begun at once, with a callback for its completion. -/
def flush (w : ComposerWindow) (generation : Nat) (action : RecoveryAction ComposeFields)
    (callback : FlushCallback) : ComposerWindow :=
  { w with
    autosave := (w.autosave.enqueue generation action).startWrite
    callbacks := w.callbacks ++ [callback] }

theorem step_schedule (w : ComposerWindow) (generation : Nat)
    (action : RecoveryAction ComposeFields) :
    w.autosave.step (.schedule generation action) = some (w.schedule generation action).autosave :=
  rfl

/-! ## The fields and the active draft -/

/-- `compose_fields`: the texts of the widgets with what the state stores beside them. -/
def fields (w : ComposerWindow) : ComposeFields := w.text.readFields w.composeFields

/-- The active draft was saved with these fields. -/
def activeDraftMatchesFields (w : ComposerWindow) (fields : ComposeFields) : Bool :=
  w.activeDraft.any fun active => active.savedFields = fields

/-- What the recovery is to hold for these fields: nothing where there is nothing to lose, because
the fields are empty or are those of the saved draft. -/
def recoveryActionForFields (w : ComposerWindow) (fields : ComposeFields) :
    RecoveryAction ComposeFields :=
  if !fieldsHasContent fields || w.activeDraftMatchesFields fields then .clear
  else .persist fields

/-- The draft and, for the proofs, the content that it belongs to. -/
def setActiveDraft (w : ComposerWindow) (activeDraft : Option ActiveDraft) (origin : Nat) :
    ComposerWindow :=
  { w with activeDraft := activeDraft, origin := origin }

/-- The timer that would read the widgets is dropped. -/
def cancelPendingDraftCapture (w : ComposerWindow) : ComposerWindow :=
  { w with draftCapture := none }

/-- The answer of the cache will find nobody who waits for it. -/
def cancelComposerAttachmentCache (w : ComposerWindow) : ComposerWindow :=
  { w with attachmentCache := none }

/-- A preparation is cancelled together with its attachments. -/
def cancelComposerPreparation (w : ComposerWindow) : ComposerWindow :=
  { w with preparation := none }.cancelComposerAttachmentCache

/-- An edit: the fields and a new generation. -/
def recordComposeEdit (w : ComposerWindow) (fields : ComposeFields) : ComposerWindow :=
  { w with
    composeFields := fields
    composeGeneration := saturatingSucc w.composeGeneration }

/-- The recovery follows the fields, and a capture that is still to come is not needed any more. -/
def scheduleRecoveryDraftFromUi (w : ComposerWindow) (fields : ComposeFields) : ComposerWindow :=
  w.cancelPendingDraftCapture.schedule w.composeGeneration (w.recoveryActionForFields fields)

/-- A change of a text: `autosave_draft_from_widgets`. -/
def autosaveDraftFromWidgets (w : ComposerWindow) (text : ComposerText) : ComposerWindow :=
  let generation := saturatingSucc w.composeGeneration
  { w.cancelComposerAttachmentCache with
    text := text
    composeGeneration := generation
    draftCapture := some generation
    edits := w.edits + 1
    lastEdit := text.readFields w.composeFields }

/-- The timer that `autosave_draft_from_widgets` has set. -/
def captureDraft (w : ComposerWindow) : Option ComposerWindow :=
  w.draftCapture.map fun generation =>
    let fields := w.fields
    { w with draftCapture := none, composeFields := fields }.schedule generation
      (w.recoveryActionForFields fields)

/-- The fields with the attachment, unless it is among them. -/
def withAttachment (fields : ComposeFields) (path : Str) : ComposeFields :=
  if path ∈ fields.attachments then fields
  else { fields with attachments := fields.attachments ++ [path] }

/-- An attachment is an edit that does not go through the widgets. -/
def addAttachmentPath (w : ComposerWindow) (path : Str) : ComposerWindow :=
  let fields := withAttachment w.fields path
  { w.cancelComposerAttachmentCache.recordComposeEdit fields with
    edits := w.edits + 1
    lastEdit := fields }.scheduleRecoveryDraftFromUi fields

/-- The widgets are filled from fields. This replaces the content of the composer. -/
def applyComposeFields (w : ComposerWindow) (fields : ComposeFields) : ComposerWindow :=
  { w with text := fields.text, content := w.content + 1 }.recordComposeEdit fields

/-- The fields of a composer without content. -/
def senderOnly (w : ComposerWindow) : ComposeFields :=
  { from_ := w.text.from_ }

/-- Only the sender stays, and no draft is active. -/
def clearDraftWidgets (w : ComposerWindow) : ComposerWindow :=
  (w.cancelComposerPreparation.applyComposeFields w.senderOnly).setActiveDraft none w.origin

/-- The same when the composer gives way to a message. The attachments and the draft go in one step.
-/
def resetComposerFields (w : ComposerWindow) : ComposerWindow :=
  { w.cancelComposerPreparation with
    text := w.senderOnly.text
    composeFields := w.senderOnly
    composeGeneration := saturatingSucc w.composeGeneration
    activeDraft := none
    content := w.content + 1 }

/-- `fill_composer`, with the attachments among the fields of the message. -/
def fillComposer (w : ComposerWindow) (message : ComposeFields) : ComposerWindow :=
  let w := { w.setActiveDraft none w.origin with text := message.text, content := w.content + 1 }
  let fields := { w.fields with
    inReplyTo := message.inReplyTo
    references := message.references
    textReplyQuote := message.textReplyQuote
    htmlReplyQuote := message.htmlReplyQuote
    attachments := message.attachments }
  (w.recordComposeEdit fields).scheduleRecoveryDraftFromUi fields

/-! ## Which operations are admitted -/

/-- A migration moves the files that these operations write. -/
def namedDraftMigrationBlocks (migrationInProgress : Bool) (operation : UserOperation) : Bool :=
  migrationInProgress && (operation = .draftSave || operation = .draftDelete || operation = .send)

/-- The attachments are not there yet. -/
def composerAttachmentCacheBlocks (cachePending : Bool) (operation : UserOperation) : Bool :=
  cachePending && (operation = .draftSave || operation = .draftDelete || operation = .send ||
    operation = .sync)

/-- Editing is always possible. During a sync a draft can still be loaded, cleared or replaced; a
send and a tag operation allow nothing else. -/
def backgroundActivityBlocks (syncInProgress sendInProgress tagInProgress : Bool)
    (operation : UserOperation) : Bool :=
  if operation = .composeEdit then false
  else if syncInProgress then
    !(operation = .draftLoad || operation = .draftClear || operation = .composeReplace)
  else sendInProgress || tagInProgress

/-- `ensure_user_operation_allowed`. -/
def allowed (w : ComposerWindow) (operation : UserOperation) : Bool :=
  !namedDraftMigrationBlocks w.background.migrationInProgress operation &&
  !composerAttachmentCacheBlocks w.attachmentCache.isSome operation &&
  !(w.draftSaveActive.isSome && operation ≠ .composeEdit) &&
  !((operation = .send || operation = .tag) && w.confirmation.isSome) &&
  !(operation ≠ .composeEdit && w.background.tagPathsUncertain) &&
  !(operation ≠ .composeEdit && w.background.tagWarning) &&
  !backgroundActivityBlocks w.background.syncInProgress w.sendInProgress w.background.tagInProgress
    operation

end ComposerWindow

/-! ## Confirmations -/

/-- Which operation a replacement counts as. -/
def ReplacementPayload.operation : ReplacementPayload → UserOperation
  | .draft _ _ _ => .draftLoad
  | _ => .composeReplace

namespace PendingTransition

/-- Which operation an action counts as. Showing a message and closing the window count as
replacements. -/
def operation : PendingTransition → UserOperation
  | .clearComposer => .draftClear
  | .replaceComposer payload => payload.operation
  | .deleteActiveDraft _ => .draftDelete
  | .deleteNamedDraft _ => .draftDelete
  | .saveDraftReplacement _ _ _ => .draftSave
  | .sendComposer _ _ _ _ => .send
  | .showSelectedMessage _ => .composeReplace
  | .closeMainWindow => .composeReplace

/-- The transitions that end a preparation and the caching of attachments. -/
def cancelsPreparation : PendingTransition → Bool
  | .clearComposer => true
  | .replaceComposer _ => true
  | .showSelectedMessage _ => true
  | .closeMainWindow => true
  | _ => false

/-- What cannot be undone is asked about even when nothing would be lost. -/
def alwaysRequiresConfirmation : PendingTransition → Bool
  | .deleteActiveDraft _ => true
  | .deleteNamedDraft _ => true
  | .saveDraftReplacement _ _ _ => true
  | .sendComposer _ _ _ _ => true
  | _ => false

end PendingTransition

/-- There is something to lose: fields that differ from the saved draft, or any content where no
draft is active. -/
def composerRequiresConfirmation (fields : ComposeFields) : Option ActiveDraft → Bool
  | some active => fields ≠ active.savedFields
  | none => fieldsHasContent fields

end Notm.Ui
