import Notm.Ui.ComposerOperations

/-!
# Whose content the composer holds

The active draft is the one whose content the composer holds: it was loaded into the composer or
saved from it, and the content has only been edited since. The next save replaces that draft, and
an accepted send deletes it.

A draft save is the one operation that names its draft at the end. What the composer holds then
is what the save has captured unless the composer was replaced, cleared or reset meanwhile. A
request to clear the composer or to show a message queues a flush without raising a flag, so that
a save may start behind it and be overtaken by its callback.

* `Related` — the content descends from the active draft, and from what operations under way delete.
* `Related.requestPendingAction_none`, `Related.runCallback` — the operations that keep it.
* `finishDraftSaveWorkerSuccess_iff` — the one that may break it, and when.
* `Related.mainLoop_iff` — one event of the main loop.
* `active_draft_descends_iff` — all states of a run.
-/

namespace Notm.Ui

open Rust DraftAutosave

/-- The moment at which a draft was captured that the action will delete. -/
def PendingTransition.deletes : PendingTransition → Option Captured
  | .saveDraftReplacement _ _ captured => some captured
  | .sendComposer _ _ _ captured => some captured
  | _ => none

/-- The content that a save will replace on disk. -/
def PendingDraftSave.deletes (pending : PendingDraftSave) : Option Captured :=
  if pending.previousDraft.isSome then some pending.captured else none

/-- The content whose draft goes once the message has been sent. -/
def PendingSend.deletes (pending : PendingSend) : Option Captured :=
  if pending.sentDraft.isSome then some pending.captured else none

/-- What waits for a flush. -/
def FlushCallback.deletes : FlushCallback → Option Captured
  | .saveBoundary pending => pending.deletes
  | .sendBoundary pending _ => pending.deletes
  | _ => none

/-- What the draft worker has in hand. -/
def DraftWorker.deletes : DraftWorker → Option Captured
  | .save pending => pending.deletes
  | _ => none

/-- What the send worker has in hand. -/
def SendWorker.deletes : SendWorker → Option Captured
  | .send pending => pending.deletes
  | .deleteSentDraft pending => pending.deletes

namespace ComposerWindow

/-- The content of the composer descends from the active draft by edits. -/
def Descends (w : ComposerWindow) : Prop :=
  w.activeDraft.isSome = true → w.origin = w.content

/-- What the operations under way have captured of the drafts that they will delete. -/
def Deletes (w : ComposerWindow) (captured : Captured) : Prop :=
  (∃ action, w.confirmation = some action ∧ action.deletes = some captured) ∨
  (∃ callback ∈ w.callbacks, callback.deletes = some captured) ∨
  (∃ worker, w.draftWorker = some worker ∧ worker.deletes = some captured) ∨
  (∃ worker, w.sendWorker = some worker ∧ worker.deletes = some captured)

/-- The content of the composer descends from the active draft; and the drafts that a save or a
send under way will delete are those from which the captured content descended. -/
structure Related (w : ComposerWindow) : Prop where
  descends : w.Descends
  deletes : ∀ captured, w.Deletes captured → captured.origin = captured.content

/-- The draft save that succeeds has captured its fields from the composer's present content. -/
def SavesPresent (w : ComposerWindow) (event : ComposerEvent) : Prop :=
  ∀ saved pending, event = .mainLoop (.draftSaved (some saved)) →
    w.draftWorker = some (.save pending) →
    w.draftSaveActive = some pending.operationGeneration →
    pending.captured.content = w.content

variable {w w' : ComposerWindow}

namespace Related

/-- What is captured from a composer whose content descends from its draft. -/
theorem captured (h : w.Related) (hactive : w.activeDraft.isSome = true) :
    w.captured.origin = w.captured.content := h.descends hactive

/-- The operations under way may fall away, and the active draft with them. -/
theorem of_deletes (h : w.Related) (hdescends : w'.Descends)
    (hdeletes : ∀ captured, w'.Deletes captured → w.Deletes captured) : w'.Related :=
  ⟨hdescends, fun captured hc => h.deletes captured (hdeletes captured hc)⟩

theorem setActiveDraft_none (h : w.Related) : (w.setActiveDraft none w.origin).Related :=
  ⟨fun hactive => absurd hactive (by simp [setActiveDraft]), h.deletes⟩

theorem flush (h : w.Related) {generation : Nat} {action : RecoveryAction ComposeFields}
    {callback : FlushCallback}
    (hcallback : ∀ captured, callback.deletes = some captured →
      captured.origin = captured.content) :
    (w.flush generation action callback).Related := by
  refine ⟨h.descends, ?_⟩
  rintro captured (hconfirm | ⟨k, hk, hdeletes⟩ | hworker | hsend)
  · exact h.deletes captured (Or.inl hconfirm)
  · rcases List.mem_append.1 hk with hk | hk
    · exact h.deletes captured (Or.inr (Or.inl ⟨k, hk, hdeletes⟩))
    · obtain rfl := List.mem_singleton.1 hk
      exact hcallback captured hdeletes
  · exact h.deletes captured (Or.inr (Or.inr (Or.inl hworker)))
  · exact h.deletes captured (Or.inr (Or.inr (Or.inr hsend)))

/-- A callback that deletes nothing. -/
theorem flush_none (h : w.Related) {generation : Nat} {action : RecoveryAction ComposeFields}
    {callback : FlushCallback} (hcallback : callback.deletes = none) :
    (w.flush generation action callback).Related := by
  apply h.flush
  intro captured hdeletes
  rw [hcallback] at hdeletes
  exact absurd hdeletes (Option.some_ne_none _).symm

theorem confirmation_none (h : w.Related) :
    { w with confirmation := none : ComposerWindow }.Related := by
  refine h.of_deletes h.descends ?_
  rintro captured (⟨action, hnone, -⟩ | hrest)
  · exact absurd hnone (Option.some_ne_none _).symm
  · exact Or.inr hrest

theorem confirmation_some (h : w.Related) {action : PendingTransition}
    (haction : ∀ captured, action.deletes = some captured → captured.origin = captured.content) :
    { w with confirmation := some action : ComposerWindow }.Related := by
  refine ⟨h.descends, ?_⟩
  rintro captured (⟨_, haction', hdeletes⟩ | hrest)
  · obtain rfl := Option.some.inj haction'
    exact haction captured hdeletes
  · exact h.deletes captured (Or.inr hrest)

theorem draftWorker_none (h : w.Related) :
    { w with draftWorker := none : ComposerWindow }.Related := by
  refine h.of_deletes h.descends ?_
  rintro captured (hconfirm | hcallback | ⟨worker, hnone, -⟩ | hsend)
  · exact Or.inl hconfirm
  · exact Or.inr (Or.inl hcallback)
  · exact absurd hnone (Option.some_ne_none _).symm
  · exact Or.inr (Or.inr (Or.inr hsend))

theorem draftWorker_some (h : w.Related) {worker : DraftWorker}
    (hworker : ∀ captured, worker.deletes = some captured → captured.origin = captured.content) :
    { w with draftWorker := some worker : ComposerWindow }.Related := by
  refine ⟨h.descends, ?_⟩
  rintro captured (hconfirm | hcallback | ⟨_, hworker', hdeletes⟩ | hsend)
  · exact h.deletes captured (Or.inl hconfirm)
  · exact h.deletes captured (Or.inr (Or.inl hcallback))
  · obtain rfl := Option.some.inj hworker'
    exact hworker captured hdeletes
  · exact h.deletes captured (Or.inr (Or.inr (Or.inr hsend)))

theorem sendWorker_none (h : w.Related) :
    { w with sendWorker := none : ComposerWindow }.Related := by
  refine h.of_deletes h.descends ?_
  rintro captured (hconfirm | hcallback | hworker | ⟨worker, hnone, -⟩)
  · exact Or.inl hconfirm
  · exact Or.inr (Or.inl hcallback)
  · exact Or.inr (Or.inr (Or.inl hworker))
  · exact absurd hnone (Option.some_ne_none _).symm

theorem sendWorker_some (h : w.Related) {worker : SendWorker}
    (hworker : ∀ captured, worker.deletes = some captured → captured.origin = captured.content) :
    { w with sendWorker := some worker : ComposerWindow }.Related := by
  refine ⟨h.descends, ?_⟩
  rintro captured (hconfirm | hcallback | hdraft | ⟨_, hworker', hdeletes⟩)
  · exact h.deletes captured (Or.inl hconfirm)
  · exact h.deletes captured (Or.inr (Or.inl hcallback))
  · exact h.deletes captured (Or.inr (Or.inr (Or.inl hdraft)))
  · obtain rfl := Option.some.inj hworker'
    exact hworker captured hdeletes

/-! ## The operations -/

/-- A composer that is cleared or reset has no active draft. -/
theorem of_activeDraft_none (h : w.Related) (hnone : w'.activeDraft = none)
    (hdeletes : ∀ captured, w'.Deletes captured → w.Deletes captured) : w'.Related :=
  h.of_deletes (fun hactive => absurd hactive (by rw [hnone]; simp)) hdeletes

theorem clearDraftWidgets (h : w.Related) : w.clearDraftWidgets.Related :=
  h.of_activeDraft_none rfl fun _ => id

theorem resetComposerFields (h : w.Related) : w.resetComposerFields.Related :=
  h.of_activeDraft_none rfl fun _ => id

theorem flushLatestDraftThenClose (h : w.Related) : w.flushLatestDraftThenClose.Related := by
  have hcaptured : { w.cancelPendingDraftCapture with
    composeFields := w.cancelPendingDraftCapture.fields : ComposerWindow }.Related :=
      ⟨h.descends, h.deletes⟩
  exact hcaptured.flush_none rfl

theorem cancelComposerPreparation (h : w.Related) : w.cancelComposerPreparation.Related :=
  ⟨h.descends, h.deletes⟩

theorem flushAndCloseMainWindow (h : w.Related) : w.flushAndCloseMainWindow.Related := by
  unfold ComposerWindow.flushAndCloseMainWindow
  dsimp only
  split
  · exact h.cancelComposerPreparation
  · have hclosing : { w.cancelComposerPreparation with
      closeFlushInProgress := true : ComposerWindow }.Related := ⟨h.descends, h.deletes⟩
    exact hclosing.flushLatestDraftThenClose

theorem clearCurrentDraftImmediately (h : w.Related) :
    w.clearCurrentDraftImmediately.Related := by
  have hcancelled : w.cancelPendingDraftCapture.Related := ⟨h.descends, h.deletes⟩
  exact hcancelled.flush_none rfl

theorem showSelectedMessage (h : w.Related) (clearSavedRecovery : Bool) :
    (w.showSelectedMessage clearSavedRecovery).Related := by
  have hcaptured : { w.cancelPendingDraftCapture with
    composeFields := w.cancelPendingDraftCapture.fields : ComposerWindow }.Related :=
      ⟨h.descends, h.deletes⟩
  exact hcaptured.flush_none rfl

/-- The one replacement that sets a draft loads its content at once. -/
theorem applyReplacement (h : w.Related) (payload : ReplacementPayload) :
    (w.applyReplacement payload).Related := by
  cases payload with
  | empty => exact h.of_activeDraft_none rfl fun _ => id
  | fields fields => exact h.of_activeDraft_none rfl fun _ => id
  | message fields sources => exact h.of_activeDraft_none rfl fun _ => id
  | draft fields source sources =>
    refine h.of_deletes (fun _ => ?_) fun _ => id
    show w.content + 1 = w.content + 1
    rfl

theorem applyPreparedComposerReplacement (h : w.Related) (payload : ReplacementPayload) :
    (w.applyPreparedComposerReplacement payload).Related := by
  unfold ComposerWindow.applyPreparedComposerReplacement
  split
  · exact h.applyReplacement _
  · exact ⟨h.descends, h.deletes⟩

theorem beginDraftSaveActivity (h : w.Related) {operation : Nat}
    (hbegin : w.beginDraftSaveActivity = some (operation, w')) : w'.Related := by
  unfold ComposerWindow.beginDraftSaveActivity at hbegin
  split at hbegin
  · exact absurd hbegin (Option.some_ne_none _).symm
  · obtain ⟨-, rfl⟩ := Prod.mk.inj (Option.some.inj hbegin)
    exact ⟨h.descends, h.deletes⟩

theorem startCapturedDraftSave (h : w.Related) {fields : ComposeFields}
    {previousDraft : Option ActiveDraft} {captured : Captured}
    (hcaptured : previousDraft.isSome = true → captured.origin = captured.content) :
    (w.startCapturedDraftSave fields previousDraft captured).Related := by
  unfold ComposerWindow.startCapturedDraftSave
  split
  · exact h
  · split
    · exact h
    · rename_i operation w' hbegin
      apply (h.beginDraftSaveActivity hbegin).flush
      intro captured' hdeletes
      simp only [FlushCallback.deletes, PendingDraftSave.deletes] at hdeletes
      split at hdeletes
      · rename_i hprevious
        obtain rfl := Option.some.inj hdeletes
        exact hcaptured hprevious
      · exact absurd hdeletes (Option.some_ne_none _).symm

theorem startExistingDraftReconciliation (h : w.Related) :
    w.startExistingDraftReconciliation.Related := by
  unfold ComposerWindow.startExistingDraftReconciliation
  split
  · exact h
  · rename_i operation w' hbegin
    exact (h.beginDraftSaveActivity hbegin).flush_none rfl

/-- A worker that deletes the draft at the user's request. -/
theorem deleteWorker (h : w.Related) {operation : Nat}
    (hbegin : w.beginDraftSaveActivity = some (operation, w')) {worker : DraftWorker}
    (hworker : worker.deletes = none) :
    { w' with draftWorker := some worker : ComposerWindow }.Related := by
  apply (h.beginDraftSaveActivity hbegin).draftWorker_some
  intro captured hdeletes
  rw [hworker] at hdeletes
  exact absurd hdeletes (Option.some_ne_none _).symm

theorem deleteCapturedActiveDraft (h : w.Related) (draft : ActiveDraft) :
    (w.deleteCapturedActiveDraft draft).Related := by
  unfold ComposerWindow.deleteCapturedActiveDraft
  split
  · exact h
  · rename_i operation w' hbegin
    have hworker : ({ w' with draftWorker := some (.deleteActive
        { draft := draft, operationGeneration := operation
          composeGeneration := w'.composeGeneration, captured := w'.captured }) } :
        ComposerWindow).Related := h.deleteWorker hbegin rfl
    exact ⟨hworker.descends, hworker.deletes⟩

theorem deleteCapturedNamedDraft (h : w.Related) (path : Path Dir) :
    (w.deleteCapturedNamedDraft path).Related := by
  unfold ComposerWindow.deleteCapturedNamedDraft
  split
  · exact h
  · rename_i operation w' hbegin
    exact h.deleteWorker hbegin rfl

theorem startCapturedSend (h : w.Related) {fields : ComposeFields}
    {sentDraft : Option ActiveDraft} {generation : Nat} {captured : Captured}
    (hcaptured : sentDraft.isSome = true → captured.origin = captured.content) :
    (w.startCapturedSend fields sentDraft generation captured).Related := by
  have hsending : { w with
    composeFields := if w.composeGeneration = generation then fields else w.composeFields
    sendInProgress := true : ComposerWindow }.Related := ⟨h.descends, h.deletes⟩
  apply hsending.flush
  intro captured' hdeletes
  simp only [FlushCallback.deletes, PendingSend.deletes] at hdeletes
  split at hdeletes
  · rename_i hdraft
    obtain rfl := Option.some.inj hdeletes
    exact hcaptured hdraft
  · exact absurd hdeletes (Option.some_ne_none _).symm

theorem executePendingAction (h : w.Related) {action : PendingTransition}
    (haction : ∀ captured, action.deletes = some captured → captured.origin = captured.content) :
    (w.executePendingAction action).Related := by
  cases action with
  | clearComposer => exact h.clearCurrentDraftImmediately
  | replaceComposer payload => exact h.applyPreparedComposerReplacement payload
  | deleteActiveDraft draft => exact h.deleteCapturedActiveDraft draft
  | deleteNamedDraft path => exact h.deleteCapturedNamedDraft path
  | saveDraftReplacement fields previous captured =>
    exact h.startCapturedDraftSave fun _ => haction captured rfl
  | sendComposer fields active generation captured =>
    exact h.startCapturedSend fun _ => haction captured rfl
  | showSelectedMessage clearSavedRecovery => exact h.showSelectedMessage clearSavedRecovery
  | closeMainWindow => exact h.flushAndCloseMainWindow

theorem rejectPendingAction (h : w.Related) (action : PendingTransition) :
    (w.rejectPendingAction action).Related := by
  unfold ComposerWindow.rejectPendingAction
  split
  · exact ⟨h.descends, h.deletes⟩
  · exact h

theorem requestPendingAction (h : w.Related) {action : PendingTransition}
    (haction : ∀ captured, action.deletes = some captured → captured.origin = captured.content) :
    (w.requestPendingAction action).Related := by
  unfold ComposerWindow.requestPendingAction
  dsimp only
  have hcancelled :
      (if action.cancelsPreparation then w.cancelComposerPreparation else w).Related := by
    split
    · exact h.cancelComposerPreparation
    · exact h
  generalize (if action.cancelsPreparation then w.cancelComposerPreparation else w) = w'
    at hcancelled ⊢
  split
  · exact hcancelled.rejectPendingAction action
  · split
    · exact hcancelled.rejectPendingAction action
    · split
      · exact hcancelled.confirmation_some haction
      · exact hcancelled.executePendingAction haction

/-- An action that deletes nothing. -/
theorem requestPendingAction_none (h : w.Related) {action : PendingTransition}
    (haction : action.deletes = none) : (w.requestPendingAction action).Related := by
  apply h.requestPendingAction
  intro captured hdeletes
  rw [haction] at hdeletes
  exact absurd hdeletes (Option.some_ne_none _).symm

theorem closeRequest (h : w.Related) : w.closeRequest.Related := by
  unfold ComposerWindow.closeRequest
  dsimp only
  split
  · exact h
  · split
    · exact ⟨h.descends, h.deletes⟩
    · split
      · exact h.cancelComposerPreparation.flushAndCloseMainWindow
      · exact h.cancelComposerPreparation.requestPendingAction_none rfl

theorem closeMainWindowAfterBackgroundActivity (h : w.Related) :
    w.closeMainWindowAfterBackgroundActivity.Related := by
  unfold ComposerWindow.closeMainWindowAfterBackgroundActivity
  have hidle : { w with closeWhenIdle := false : ComposerWindow }.Related :=
    ⟨h.descends, h.deletes⟩
  split
  · dsimp only
    split
    · exact hidle.closeRequest
    · exact hidle.flushAndCloseMainWindow
  · exact h

theorem finishDraftPersistenceActivity (h : w.Related) (operation : Nat) :
    (w.finishDraftPersistenceActivity operation).Related := by
  unfold ComposerWindow.finishDraftPersistenceActivity
  dsimp only
  have hended : { w with draftSaveActive := none : ComposerWindow }.Related :=
    ⟨h.descends, h.deletes⟩
  split
  · exact hended
  · exact hended.closeMainWindowAfterBackgroundActivity

theorem finishDraftSave (h : w.Related) (operation : Nat) :
    (w.finishDraftSave operation).Related := by
  unfold ComposerWindow.finishDraftSave
  split
  · exact h
  · exact h.finishDraftPersistenceActivity operation

theorem finishActiveDraftDelete (h : w.Related) (pending : PendingDraftDelete) :
    (w.finishActiveDraftDelete pending).Related := by
  unfold ComposerWindow.finishActiveDraftDelete
  dsimp only
  have hdetached : (if w.activeDraft = some pending.draft then w.setActiveDraft none w.origin
      else w).Related := by
    split
    · exact h.setActiveDraft_none
    · exact h
  exact hdetached.flush_none rfl

theorem finishDraftDeleted (h : w.Related) (pending : PendingDraftDelete) (unchanged : Bool)
    (fields : ComposeFields) (result : WriteResult) :
    (w.finishDraftDeleted pending unchanged fields result).Related := by
  unfold ComposerWindow.finishDraftDeleted
  split
  · exact h
  · split
    · have hended : { w with endedDelete := some ⟨pending, false⟩ : ComposerWindow }.Related :=
        ⟨h.descends, h.deletes⟩
      exact hended.finishDraftSave _
    · dsimp only
      have hcleared : (if unchanged && w.composeGeneration = pending.composeGeneration
          then w.clearDraftWidgets else { w with composeFields := fields }).Related := by
        split
        · exact h.clearDraftWidgets
        · exact ⟨h.descends, h.deletes⟩
      apply Related.finishDraftPersistenceActivity
      exact ⟨hcleared.descends, hcleared.deletes⟩

theorem finishNamedDraftDelete (h : w.Related) (path : Path Dir) (operation : Nat) :
    (w.finishNamedDraftDelete path operation).Related := by
  unfold ComposerWindow.finishNamedDraftDelete
  apply Related.finishDraftPersistenceActivity
  split
  · exact ⟨h.setActiveDraft_none.descends, h.deletes⟩
  · exact h

theorem finishSendActivity (h : w.Related) : w.finishSendActivity.Related := by
  have hidle : { w with sendInProgress := false : ComposerWindow }.Related :=
    ⟨h.descends, h.deletes⟩
  exact hidle.closeMainWindowAfterBackgroundActivity

theorem finishAcceptedSend (h : w.Related) (pending : PendingSend) :
    (w.finishAcceptedSend pending).Related := by
  have hended : { w with acceptedSend := some pending : ComposerWindow }.Related :=
    ⟨h.descends, h.deletes⟩
  exact hended.finishSendActivity

theorem finishSendSuccess (h : w.Related) (pending : PendingSend) (draftDeleted : Bool) :
    (w.finishSendSuccess pending draftDeleted).Related := by
  unfold ComposerWindow.finishSendSuccess
  dsimp only
  have hdetached : (if (planAcceptedSendCleanup pending.sentGeneration w.composeGeneration
      pending.sentDraft w.activeDraft draftDeleted).clearActiveDraft
      then w.setActiveDraft none w.origin else w).Related := by
    split
    · exact h.setActiveDraft_none
    · exact h
  split
  · exact hdetached.flush_none rfl
  · exact hdetached.finishAcceptedSend pending

theorem beginAcceptedSendCleanup (h : w.Related) {pending : PendingSend}
    (hpending : ∀ captured, pending.deletes = some captured →
      captured.origin = captured.content) :
    (w.beginAcceptedSendCleanup pending).Related := by
  unfold ComposerWindow.beginAcceptedSendCleanup
  split
  · exact h.finishSendSuccess pending false
  · split
    · exact h.finishSendSuccess pending false
    · have hworker : ({ w with sendWorker := some (.deleteSentDraft pending) } :
        ComposerWindow).Related := h.sendWorker_some hpending
      exact ⟨hworker.descends, hworker.deletes⟩

theorem acceptedSendCleared (h : w.Related) (pending : PendingSend)
    (plan : AcceptedSendCleanupPlan) (result : WriteResult) :
    (w.acceptedSendCleared pending plan result).Related := by
  unfold ComposerWindow.acceptedSendCleared
  dsimp only
  split
  · have hcaptured : { w.cancelPendingDraftCapture with
      composeFields := w.cancelPendingDraftCapture.fields : ComposerWindow }.Related :=
        ⟨h.descends, h.deletes⟩
    exact hcaptured.flush_none rfl
  · apply Related.finishAcceptedSend
    split
    · exact h.resetComposerFields
    · exact h

/-- A callback takes over what it deletes from its flush. -/
theorem runCallback (h : w.Related) {callback : FlushCallback}
    (hcallback : ∀ captured, callback.deletes = some captured →
      captured.origin = captured.content) (result : WriteResult) :
    (w.runCallback callback result).Related := by
  -- Each callback compares generations before it acts; where it replaces or clears the content, no
  -- draft stays active.
  cases callback with
  | clearComposer generation epoch =>
    cases result with
    | ok =>
      simp only [ComposerWindow.runCallback]
      split
      · exact h
      · exact h.clearDraftWidgets
    | error => exact h
  | showSelectedMessage generation epoch =>
    cases result with
    | ok =>
      simp only [ComposerWindow.runCallback]
      split
      · exact h
      · exact h.resetComposerFields
    | error => exact h
  | closeMainWindow generation =>
    cases result with
    | ok =>
      simp only [ComposerWindow.runCallback]
      split
      · exact h.flushLatestDraftThenClose
      · exact ⟨h.descends, h.deletes⟩
    | error => exact ⟨h.descends, h.deletes⟩
  | existingDraft operation => exact h.finishDraftSave operation
  | saveBoundary pending =>
    cases result with
    | ok => exact h.draftWorker_some hcallback
    | error => exact h.finishDraftSave _
  | draftSaved operation => exact h.finishDraftSave operation
  | draftDeleted pending unchanged fields =>
    exact h.finishDraftDeleted pending unchanged fields result
  | sendBoundary pending fields =>
    cases result with
    | ok =>
      have hworker : ({ w with sendWorker := some (.send pending) } :
          ComposerWindow).Related := h.sendWorker_some hcallback
      exact ⟨hworker.descends, hworker.deletes⟩
    | error => exact ⟨h.descends, h.deletes⟩
  | acceptedSend pending plan => exact h.acceptedSendCleared pending plan result
  | newerDraft pending => exact h.finishAcceptedSend pending

theorem requestSaveCurrentDraft (h : w.Related) : w.requestSaveCurrentDraft.Related := by
  unfold ComposerWindow.requestSaveCurrentDraft
  have hcaptured : { w.cancelPendingDraftCapture with
    composeFields := w.fields : ComposerWindow }.Related := ⟨h.descends, h.deletes⟩
  split
  · exact h
  · dsimp only
    split
    · rename_i previous hactive
      split
      · exact hcaptured.startExistingDraftReconciliation
      · apply hcaptured.requestPendingAction
        intro captured hdeletes
        obtain rfl := Option.some.inj hdeletes
        exact h.captured (Option.isSome_of_mem hactive)
    · exact hcaptured.startCapturedDraftSave fun hnone => absurd hnone (by simp)

theorem sendCompose (h : w.Related) : w.sendCompose.Related := by
  unfold ComposerWindow.sendCompose
  have hcaptured : { w.cancelPendingDraftCapture with
    capturedDrafts := w.capturedDrafts ++ w.activeDraft.toList
    acceptedSend := none : ComposerWindow }.Related := ⟨h.descends, h.deletes⟩
  split
  · exact h
  · dsimp only
    split
    · rename_i active hactive
      apply hcaptured.requestPendingAction
      intro captured hdeletes
      obtain rfl := Option.some.inj hdeletes
      exact h.captured (Option.isSome_of_mem hactive)
    · exact hcaptured.startCapturedSend fun hnone => absurd hnone (by simp)

theorem requestShowSelectedMessage (h : w.Related) : w.requestShowSelectedMessage.Related := by
  unfold ComposerWindow.requestShowSelectedMessage
  split
  · exact h
  · exact h.requestPendingAction_none rfl

theorem deleteActiveDraft (h : w.Related) : w.deleteActiveDraft.Related := by
  unfold ComposerWindow.deleteActiveDraft
  split
  · exact h
  · exact h.requestPendingAction_none rfl

theorem scheduleComposerPreparation (h : w.Related) (indexedDraft : Bool) :
    (w.scheduleComposerPreparation indexedDraft).Related := by
  unfold ComposerWindow.scheduleComposerPreparation
  generalize w.allowed _ = admitted
  cases admitted with
  | true => exact ⟨h.descends, h.deletes⟩
  | false => exact h

theorem scheduleManualDraftRecovery (h : w.Related) :
    w.scheduleManualDraftRecovery.Related := by
  unfold ComposerWindow.scheduleManualDraftRecovery
  split
  · exact h
  · dsimp only
    split
    · exact ⟨h.descends, h.deletes⟩
    · exact ⟨h.descends, h.deletes⟩

theorem finishComposerPreparation (h : w.Related) {payload : Option ReplacementPayload}
    {selectionChanged : Bool}
    (hfinish : w.finishComposerPreparation payload selectionChanged = some w') : w'.Related := by
  obtain ⟨preparation, -, rfl⟩ := Option.map_eq_some_iff.1 hfinish
  have hended : { w with preparation := none : ComposerWindow }.Related :=
    ⟨h.descends, h.deletes⟩
  dsimp only
  split
  · exact hended
  · split
    · exact hended
    · split
      · exact hended
      · exact hended.requestPendingAction_none rfl

theorem finishAttachmentCache (h : w.Related) {paths : Option (List Str)}
    {selectionChanged : Bool}
    (hfinish : w.finishAttachmentCache paths selectionChanged = some w') : w'.Related := by
  obtain ⟨cache, -, rfl⟩ := Option.map_eq_some_iff.1 hfinish
  have hended : { w with attachmentCache := none : ComposerWindow }.Related :=
    ⟨h.descends, h.deletes⟩
  dsimp only
  split
  · exact hended
  · split
    · exact hended
    · exact hended.applyPreparedComposerReplacement _

theorem finishDraftRecoveryLoad (h : w.Related) {file : Option ComposeFields}
    (hfinish : w.finishDraftRecoveryLoad file = some w') : w'.Related := by
  obtain ⟨load, -, rfl⟩ := Option.map_eq_some_iff.1 hfinish
  have hended : { w with recoveryLoad := none : ComposerWindow }.Related :=
    ⟨h.descends, h.deletes⟩
  dsimp only
  split
  · exact hended
  · split
    · exact hended
    · split
      · exact hended.requestPendingAction_none rfl
      · exact hended

theorem completePendingConfirmation (h : w.Related) {accepted : Bool}
    (hconfirm : w.completePendingConfirmation accepted = some w') : w'.Related := by
  obtain ⟨action, haction, rfl⟩ := Option.map_eq_some_iff.1 hconfirm
  dsimp only
  split
  · exact h.confirmation_none.rejectPendingAction action
  · split
    · exact h.confirmation_none.rejectPendingAction action
    · apply h.confirmation_none.executePendingAction
      exact fun captured hdeletes => h.deletes captured (Or.inl ⟨action, haction, hdeletes⟩)

theorem finishActiveDeleteWorker (h : w.Related) {deleted : Bool}
    (hfinish : w.finishActiveDeleteWorker deleted = some w') : w'.Related := by
  unfold ComposerWindow.finishActiveDeleteWorker at hfinish
  have hended := h.draftWorker_none
  split at hfinish
  · dsimp only at hfinish
    split at hfinish
    · obtain rfl := Option.some.inj hfinish
      exact hended
    · split at hfinish
      · obtain rfl := Option.some.inj hfinish
        exact hended.finishActiveDraftDelete _
      · obtain rfl := Option.some.inj hfinish
        apply Related.finishDraftSave
        exact ⟨hended.descends, hended.deletes⟩
  · exact absurd hfinish (Option.some_ne_none _).symm

theorem finishNamedDeleteWorker (h : w.Related) {deleted : Bool}
    (hfinish : w.finishNamedDeleteWorker deleted = some w') : w'.Related := by
  unfold ComposerWindow.finishNamedDeleteWorker at hfinish
  have hended := h.draftWorker_none
  split at hfinish
  · dsimp only at hfinish
    split at hfinish
    · obtain rfl := Option.some.inj hfinish
      exact hended
    · split at hfinish
      · obtain rfl := Option.some.inj hfinish
        exact hended.finishNamedDraftDelete _ _
      · obtain rfl := Option.some.inj hfinish
        exact hended.finishDraftSave _
  · exact absurd hfinish (Option.some_ne_none _).symm

theorem finishSendWorker (h : w.Related) {outcome : SendOutcome}
    (hfinish : w.finishSendWorker outcome = some w') : w'.Related := by
  unfold ComposerWindow.finishSendWorker at hfinish
  have hended := h.sendWorker_none
  split at hfinish
  · rename_i pending hworker
    dsimp only at hfinish
    split at hfinish
    · obtain rfl := Option.some.inj hfinish
      apply hended.beginAcceptedSendCleanup
      exact fun captured hdeletes =>
        h.deletes captured (Or.inr (Or.inr (Or.inr ⟨_, hworker, hdeletes⟩)))
    · obtain rfl := Option.some.inj hfinish
      exact hended.finishSendActivity
  · exact absurd hfinish (Option.some_ne_none _).symm

theorem finishSentDraftDelete (h : w.Related) {deleted : Bool}
    (hfinish : w.finishSentDraftDelete deleted = some w') : w'.Related := by
  unfold ComposerWindow.finishSentDraftDelete at hfinish
  split at hfinish
  · obtain rfl := Option.some.inj hfinish
    exact h.sendWorker_none.finishSendSuccess _ _
  · exact absurd hfinish (Option.some_ne_none _).symm

theorem setBackground (h : w.Related) {activity : BackgroundActivity}
    (hset : w.setBackground activity = some w') : w'.Related := by
  unfold ComposerWindow.setBackground at hset
  split at hset
  · exact absurd hset (Option.some_ne_none _).symm
  · obtain rfl := Option.some.inj hset
    apply Related.closeMainWindowAfterBackgroundActivity
    exact ⟨h.descends, h.deletes⟩

/-! ## The draft save -/

/-- A save that has succeeded makes its draft the active one: that of the composer's content when
the save has captured this content. -/
theorem finishDraftSaveWorkerSuccess_iff (h : w.Related) (pending : PendingDraftSave)
    (saved : DraftSource) :
    (w.finishDraftSaveWorkerSuccess pending saved).Related ↔
      pending.captured.content = w.content := by
  constructor
  · exact fun hsaved => hsaved.descends rfl
  · intro hcontent
    have hactive : { w.setActiveDraft (some (DraftSource.activeDraft saved pending.fields))
      pending.captured.content with composeFields := w.fields : ComposerWindow }.Related :=
        ⟨fun _ => hcontent, h.deletes⟩
    exact hactive.flush_none rfl

theorem finishSaveWorker_iff (h : w.Related) {saved : Option DraftSource}
    (hfinish : w.finishSaveWorker saved = some w') :
    w'.Related ↔ w.SavesPresent (.mainLoop (.draftSaved saved)) := by
  unfold ComposerWindow.finishSaveWorker at hfinish
  have hended := h.draftWorker_none
  split at hfinish
  · rename_i pending hworker
    dsimp only at hfinish
    split at hfinish
    · rename_i hstale
      obtain rfl := Option.some.inj hfinish
      refine iff_of_true hended ?_
      intro _ pending' _ hworker' hactive
      obtain rfl : pending = pending' := by
        rw [hworker] at hworker'
        exact DraftWorker.save.inj (Option.some.inj hworker')
      exact absurd hactive hstale
    · rename_i hactive
      cases saved with
      | none =>
        obtain rfl := Option.some.inj hfinish
        refine iff_of_true (hended.finishDraftSave _) ?_
        intro saved _ hevent
        simp at hevent
      | some saved =>
        obtain rfl := Option.some.inj hfinish
        refine (hended.finishDraftSaveWorkerSuccess_iff pending saved).trans ?_
        constructor
        · intro hcontent _ pending' _ hworker' _
          obtain rfl : pending = pending' := by
            rw [hworker] at hworker'
            exact DraftWorker.save.inj (Option.some.inj hworker')
          exact hcontent
        · exact fun hpresent => hpresent saved pending rfl hworker (not_not.1 hactive)
  · exact absurd hfinish (Option.some_ne_none _).symm

end Related

/-! ## The step and the run -/

/-- Of all events just a draft save can leave a draft to a content that does not descend from
it. -/
theorem Related.mainLoop_iff (h : w.Related) {event : MainLoopEvent}
    (hstep : w.mainLoop event = some w') : w'.Related ↔ w.SavesPresent (.mainLoop event) := by
  have hother : (∀ saved, event ≠ .draftSaved saved) → w.SavesPresent (.mainLoop event) := by
    intro hne saved _ hevent
    exact absurd (ComposerEvent.mainLoop.inj hevent) (hne _)
  -- A save that has succeeded is the only event for which the condition asks something.
  cases event with
  | draftSaved saved => exact h.finishSaveWorker_iff hstep
  | edit text =>
    obtain rfl := Option.some.inj hstep
    exact iff_of_true ⟨h.descends, h.deletes⟩ (hother fun _ => by simp)
  | addAttachment path =>
    obtain rfl := Option.some.inj hstep
    exact iff_of_true ⟨h.descends, h.deletes⟩ (hother fun _ => by simp)
  | captureElapsed =>
    obtain ⟨generation, -, rfl⟩ := Option.map_eq_some_iff.1 hstep
    exact iff_of_true ⟨h.descends, h.deletes⟩ (hother fun _ => by simp)
  | debounceElapsed =>
    obtain ⟨autosave, -, rfl⟩ := Option.map_eq_some_iff.1 hstep
    exact iff_of_true ⟨h.descends, h.deletes⟩ (hother fun _ => by simp)
  | background activity => exact iff_of_true (h.setBackground hstep) (hother fun _ => by simp)
  | cancelPreparation =>
    obtain rfl := Option.some.inj hstep
    exact iff_of_true h.cancelComposerPreparation (hother fun _ => by simp)
  | clear =>
    obtain rfl := Option.some.inj hstep
    exact iff_of_true (h.requestPendingAction_none rfl) (hother fun _ => by simp)
  | replace payload =>
    obtain rfl := Option.some.inj hstep
    exact iff_of_true (h.requestPendingAction_none rfl) (hother fun _ => by simp)
  | prepare indexedDraft =>
    obtain rfl := Option.some.inj hstep
    exact iff_of_true (h.scheduleComposerPreparation indexedDraft) (hother fun _ => by simp)
  | prepared payload selectionChanged =>
    exact iff_of_true (h.finishComposerPreparation hstep) (hother fun _ => by simp)
  | attachmentsCached paths selectionChanged =>
    exact iff_of_true (h.finishAttachmentCache hstep) (hother fun _ => by simp)
  | recoverDraft =>
    obtain rfl := Option.some.inj hstep
    exact iff_of_true h.scheduleManualDraftRecovery (hother fun _ => by simp)
  | recoveryLoaded file =>
    exact iff_of_true (h.finishDraftRecoveryLoad hstep) (hother fun _ => by simp)
  | showMessage =>
    obtain rfl := Option.some.inj hstep
    exact iff_of_true h.requestShowSelectedMessage (hother fun _ => by simp)
  | saveDraft =>
    obtain rfl := Option.some.inj hstep
    exact iff_of_true h.requestSaveCurrentDraft (hother fun _ => by simp)
  | deleteActiveDraft =>
    obtain rfl := Option.some.inj hstep
    exact iff_of_true h.deleteActiveDraft (hother fun _ => by simp)
  | activeDraftDeleted deleted =>
    exact iff_of_true (h.finishActiveDeleteWorker hstep) (hother fun _ => by simp)
  | deleteNamedDraft path =>
    obtain rfl := Option.some.inj hstep
    exact iff_of_true (h.requestPendingAction_none rfl) (hother fun _ => by simp)
  | namedDraftDeleted deleted =>
    exact iff_of_true (h.finishNamedDeleteWorker hstep) (hother fun _ => by simp)
  | send =>
    obtain rfl := Option.some.inj hstep
    exact iff_of_true h.sendCompose (hother fun _ => by simp)
  | sendEnded outcome => exact iff_of_true (h.finishSendWorker hstep) (hother fun _ => by simp)
  | sentDraftDeleted deleted =>
    exact iff_of_true (h.finishSentDraftDelete hstep) (hother fun _ => by simp)
  | close =>
    obtain rfl := Option.some.inj hstep
    exact iff_of_true h.closeRequest (hother fun _ => by simp)
  | exit =>
    refine iff_of_true ?_ (hother fun _ => by simp)
    simp only [mainLoop] at hstep
    split at hstep
    · obtain rfl := Option.some.inj hstep
      exact h
    · obtain rfl := Option.some.inj hstep
      apply Related.closeRequest
      exact ⟨h.descends, h.deletes⟩
  | confirm accepted =>
    exact iff_of_true (h.completePendingConfirmation hstep) (hother fun _ => by simp)

theorem Related.step_iff (h : w.Related) {event : ComposerEvent}
    (hstep : w.step event = some w') : w'.Related ↔ w.SavesPresent event := by
  have hother : (∀ event', event ≠ .mainLoop event') → w.SavesPresent event :=
    fun hne _ _ hevent => absurd hevent (hne _)
  cases event with
  | mainLoop event =>
    simp only [step] at hstep
    split at hstep
    · exact absurd hstep (Option.some_ne_none _).symm
    · exact h.mainLoop_iff hstep
  | writeEnded worker result =>
    refine iff_of_true ?_ (hother fun _ => by simp)
    simp only [step, finishWrite] at hstep
    split at hstep
    · exact absurd hstep (Option.some_ne_none _).symm
    · obtain ⟨autosave, -, rfl⟩ := Option.map_eq_some_iff.1 hstep
      exact ⟨h.descends, h.deletes⟩
  | callback =>
    refine iff_of_true ?_ (hother fun _ => by simp)
    obtain ⟨⟨number, result⟩, -, hstep⟩ := Option.bind_eq_some_iff.1 hstep
    obtain ⟨autosave, -, hstep⟩ := Option.bind_eq_some_iff.1 hstep
    obtain ⟨callback, hcallback, rfl⟩ := Option.map_eq_some_iff.1 hstep
    have hinvoked : { w with autosave := autosave : ComposerWindow }.Related :=
      ⟨h.descends, h.deletes⟩
    apply hinvoked.runCallback
    exact fun captured hdeletes => h.deletes captured
      (Or.inr (Or.inl ⟨callback, List.mem_of_getElem? hcallback, hdeletes⟩))
  | deliveryEnded =>
    refine iff_of_true ?_ (hother fun _ => by simp)
    obtain ⟨autosave, -, rfl⟩ := Option.map_eq_some_iff.1 hstep
    exact ⟨h.descends, h.deletes⟩

theorem launch_related (sender : Str) (recovery : Option ComposeFields) :
    (launch sender recovery).Related := by
  refine ⟨fun hactive => absurd hactive (by simp [launch]), ?_⟩
  rintro captured (⟨_, h, -⟩ | ⟨_, h, -⟩ | ⟨_, h, -⟩ | ⟨_, h, -⟩)
  · exact absurd h (Option.some_ne_none _).symm
  · exact absurd h List.not_mem_nil
  · exact absurd h (Option.some_ne_none _).symm
  · exact absurd h (Option.some_ne_none _).symm

/-- **Whose draft is active.** In every run the composer's content descends from the active draft,
and from the drafts that a save or a send deletes, in all states exactly when each draft save that
succeeds has captured its fields from the content that the composer then holds. -/
theorem active_draft_descends_iff {sender : Str} {recovery : Option ComposeFields}
    {trace : List (ComposerWindow × ComposerEvent)} {w : ComposerWindow}
    (hrun : Transition.Run (Transition.Steps step) (launch sender recovery) trace w) :
    (w.Related ∧ ∀ p ∈ trace, p.1.Related) ↔ ∀ p ∈ trace, p.1.SavesPresent p.2 := by
  apply Transition.Run.forall_states_iff _ _ hrun
  · exact launch_related sender recovery
  · exact fun before event after _ hbefore hstep => hbefore.step_iff hstep

def overtakenSave : List ComposerEvent :=
  [.mainLoop (.edit { body := "a".toList }), .mainLoop .clear, .mainLoop (.confirm true),
    .mainLoop .saveDraft, .writeEnded 0 (.ok ()), .callback, .deliveryEnded,
    .writeEnded 0 (.ok ()), .callback, .deliveryEnded,
    .mainLoop (.draftSaved (some ⟨⟨[], []⟩, none, false⟩))]

/-- A save that starts while a clear waits for its flush: the clear empties the composer, then the
saved draft becomes the active one, and the next save of the new content would delete it. -/
theorem cleared_composer_keeps_saved_draft : ∃ trace w,
    Transition.Run (Transition.Steps step) (launch [] none) trace w ∧
      w.activeDraft.isSome = true ∧ fieldsHasContent w.fields = false ∧ ¬ w.Descends := by
  refine ⟨_, _, Transition.run_of_exec overtakenSave rfl, rfl, rfl, ?_⟩
  exact fun hdescends => absurd (hdescends rfl) (by decide)

def undisturbedSave : List ComposerEvent :=
  [.mainLoop (.edit { body := "a".toList }), .mainLoop .saveDraft, .writeEnded 0 (.ok ()),
    .callback, .deliveryEnded, .mainLoop (.draftSaved (some ⟨⟨[], []⟩, none, false⟩))]

/-- A save with nothing before it. -/
theorem active_draft_descends_iff_saved : ∃ trace w,
    Transition.Run (Transition.Steps step) (launch [] none) trace w ∧
      w.activeDraft.isSome = true ∧
      ((w.Related ∧ ∀ p ∈ trace, p.1.Related) ↔ ∀ p ∈ trace, p.1.SavesPresent p.2) := by
  have hrun : Transition.Run (Transition.Steps step) (launch [] none) _ _ :=
    Transition.run_of_exec undisturbedSave rfl
  exact ⟨_, _, hrun, rfl, active_draft_descends_iff hrun⟩

end ComposerWindow

end Notm.Ui
