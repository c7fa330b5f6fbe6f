import Notm.Lib.Rust

/-!
# Tag mutations and their reports

The requests and the reports of `message.rs`. The reports name files by text; the path changes
and path states keep the paths themselves.
-/

namespace Notm.Notmuch

open Rust

/-- `TagMutation`: the tags that a request removes and then adds, and whether the flags of the
filenames follow them. -/
structure TagMutation where
  add : List Str
  remove : List Str
  syncMaildirFlags : Bool
deriving DecidableEq

structure MessageTagMutation where
  messageId : Str
  add : List Str
  remove : List Str
deriving DecidableEq

structure MaildirFilenameChange where
  previousFilename : Str
  currentFilename : Str
deriving DecidableEq

/-- What has changed about a message, and what it has now. -/
structure AppliedTagChange where
  messageId : Str
  added : List Str
  removed : List Str
  tags : List Str
  filenames : List Str
  filenameChanges : List MaildirFilenameChange
deriving DecidableEq

/-- The tags that were added are taken away, and the others put back. -/
def AppliedTagChange.inverse (change : AppliedTagChange) : MessageTagMutation where
  messageId := change.messageId
  add := change.removed
  remove := change.added

/-- The call that has failed. -/
inductive TagFailureStage where
  | lookup
  | freeze
  | removeTag
  | addTag
  | thaw
  | maildirFlagSync
deriving DecidableEq

/-- A file that does not have the name that its tags ask for. -/
structure MaildirFlagSyncFailure where
  previousFilename : Str
  expectedFilename : Str
  currentFilename : Option Str
deriving DecidableEq

/-- `P` are paths. -/
structure MaildirPathChange (P : Type*) where
  previousPath : P
  currentPath : P
deriving DecidableEq

/-- The files of a message after a change, for those who have one of them open. -/
structure MessagePathState (P : Type*) where
  messageId : Str
  paths : List P
  pathChanges : List (MaildirPathChange P)
deriving DecidableEq

/-- What has failed for one message, which files it has, and which of them have a wrong name. -/
structure MessageTagFailure where
  messageId : Str
  stage : TagFailureStage
  detail : Str
  currentFilenames : List Str
  fileFailures : List MaildirFlagSyncFailure
deriving DecidableEq

/-- What is reported of a batch. The finalization errors are those of the end of the atomic section
and of the close, and concern no single message. -/
structure TagBatchReport (P : Type*) where
  requestedMessages : Nat := 0
  changedMessages : Nat := 0
  changes : List AppliedTagChange := []
  pathStates : List (MessagePathState P) := []
  failures : List MessageTagFailure := []
  finalizationErrors : List Str := []
deriving DecidableEq

namespace TagBatchReport

variable {P : Type*}

/-- Nothing has failed. -/
def isComplete (report : TagBatchReport P) : Bool :=
  report.failures.isEmpty && report.finalizationErrors.isEmpty

def recordFinalizationError (report : TagBatchReport P) (error : Str) : TagBatchReport P :=
  { report with finalizationErrors := report.finalizationErrors ++ [error] }

end TagBatchReport

end Notm.Notmuch
