import Notm.Notmuch.Error
import Notm.Ui.NamedDrafts

/-!
# Saving a captured draft

The worker writes the new copy, as a message of the Maildir or as a named draft, then deletes the
copy that it replaces, from the index and from the disk. When that deletion fails the new copy is
deleted again.

The steps work on the files and on the paths that the index knows. A step of the index that fails
has not changed it, and what the other steps have changed is durable once the handle on the database
is closed. The code drops the handle instead of closing it, so that a commit that fails is not
reported: `removeMessageFile` and `indexMessageFile` pass with the index as it was.

Main definitions, in the order in which a save runs through them:

* `persistCopy` writes the new copy, by `persistDraftMessage` or by `saveNamedDraftFields`;
* `deleteDraftSource` takes a copy out of the index and off the disk;
* `replacePrevious` deletes the previous copy, and the new one when that fails;
* `performCapturedDraftSave` is the whole save.
-/

namespace Notm.Ui

open Rust Crash

/-- A directory by its components. -/
abbrev Dir := List OsString

/-- A draft that has been saved: its file, its identifier if it is a message, and the fields that it
was saved with. -/
structure ActiveDraft where
  path : Path Dir
  messageId : Option Str
  indexed : Bool
  savedFields : ComposeFields
deriving DecidableEq

/-- The options of a launch that a save reads. -/
structure LaunchOptions where
  saveDraftsToMaildir : Bool
  draftMaildir : Option Dir
  mailRoot : Option Dir
  databasePath : Option Dir
  indexDraftAfterSave : Bool
  draftTags : List Str

/-- What a save works on: the files, and the paths that the index of the database knows. What the
index says of the messages themselves is not needed. -/
structure DraftStore where
  files : FileStore Dir
  indexed : Path Dir → Bool

/-- What a save takes from the other modules and from outside: the message of the fields and its
text, the database's root and the id that it finds in a file, `serde_json`, and the names drawn for
the new files. -/
structure SaveContext (M : Type) where
  composedMessageFromFields : ComposeFields → Except String M
  toRfc5322 : M → Except String Bytes
  databaseRoot : Dir
  messageId : Bytes → Str
  json : Json
  unique : OsString
  names : SaveNames

/-! ## The operations -/

inductive MaildirDir where
  | tmp
  | cur
  | new
deriving DecidableEq

/-- `closeDatabase` is the commit when the handle is dropped. -/
inductive IndexOp where
  | openDatabase
  | indexFile
  | freeze
  | addTag (i : Nat)
  | thaw
  | closeDatabase
deriving DecidableEq

/-- The operations of `delete_draft_source` that can fail. `closeDatabase` is the commit when the
handle is dropped. -/
inductive DeleteOp where
  | openDatabase
  | removeMessage
  | closeDatabase
  | metadata
  | removeFile
deriving DecidableEq

/-- The copy that is deleted: the one that is replaced, or the new one in the rollback. -/
inductive DraftCopy where
  | previous
  | replacement
deriving DecidableEq

/-- The operations of a save that can fail, each under a name of its own, so that a fault says which
one it is. -/
inductive DraftSaveOp where
  | openForMaildir
  | createDirectory (dir : MaildirDir)
  | createTemporary
  | writeTemporary
  | flush
  | rename
  | index (op : IndexOp)
  | named (op : SaveOp)
  | delete (copy : DraftCopy) (op : DeleteOp)
deriving DecidableEq

/-- What the deletion of a copy returns. -/
inductive DeleteError where
  | database
  | io (e : IoError)
deriving DecidableEq

/-- What a save returns. -/
inductive DraftSaveError where
  | compose (e : String)
  /-- `drafts.save_maildir=true but no draft maildir …` -/
  | noMaildir
  | rendering (e : String)
  | io (e : IoError)
  | database
  | tag (e : Notmuch.Error)
  | named (e : DraftIoError Dir)
  /-- `deleting previous saved draft {path}: {delete_error}{rollback_detail}` -/
  | deletingPrevious (path : Path Dir) (deleteError : DeleteError)
      (rollbackError : Option DeleteError)

abbrev Saving (α : Type) := Prog DraftSaveOp DraftStore DraftSaveError α

/-- An operation on the files alone. -/
def onFiles {L ε α : Type} (p : Prog L (FileStore Dir) ε α) : Prog L DraftStore ε α :=
  p.zoom DraftStore.files fun store files => { store with files := files }

/-- An operation that leaves files and index as they are: opening the database, making a directory
that a file will go to, freezing a message. -/
def quiet {L ε : Type} (label : L) (failure : ε) : Prog L DraftStore ε Unit :=
  .op label failure (fun store => .ok ((), store)) fun store _ => store

/-- What is left of the changes of a handle that are not committed: the files as they are, and the
index as it was when the handle was opened. -/
def uncommitted (opened now : DraftStore) : DraftStore := { now with indexed := opened.indexed }

/-! ## The new copy in the Maildir -/

def maildirDirs : List MaildirDir := [.tmp, .cur, .new]

def MaildirDir.join (maildir : Dir) : MaildirDir → Dir
  | .tmp => maildir ++ [OsString.ofStr "tmp".toList]
  | .cur => maildir ++ [OsString.ofStr "cur".toList]
  | .new => maildir ++ [OsString.ofStr "new".toList]

/-- The path of the temporary file. -/
def maildirTemporary (unique : OsString) (maildir : Dir) : Path Dir :=
  ⟨MaildirDir.tmp.join maildir, unique⟩

/-- `cur/{unique}:2,{flags}`. -/
def maildirPath (unique : OsString) (maildir : Dir) (flags : Str) : Path Dir :=
  ⟨MaildirDir.cur.join maildir, unique ++ OsString.ofStr (":2,".toList ++ flags)⟩

/-- The file is made, written and flushed. A failure leaves it as far as it has come. -/
def writePrivateNewFile (path : Path Dir) (contents : Bytes) :
    Prog DraftSaveOp (FileStore Dir) IoError Unit := do
  FileStore.createNew .createTemporary path
  FileStore.writeAll .writeTemporary path contents
  FileStore.untouched .flush

variable {M : Type}

/-- A message goes to `tmp` first and is renamed to `cur`, as the Maildir format asks for. The
directories are made before the message is rendered. -/
def saveRfc5322ToMaildir (context : SaveContext M) (maildir : Dir) (message : M) (flags : Str) :
    Saving (Path Dir) := do
  Prog.forEach (fun dir => quiet (.createDirectory dir) (.io .failed)) maildirDirs
  let rendered ← Prog.ofExcept ((context.toRfc5322 message).mapError .rendering)
  (onFiles (writePrivateNewFile (maildirTemporary context.unique maildir) rendered)).mapError .io
  (onFiles (FileStore.rename .rename (maildirTemporary context.unique maildir)
    (maildirPath context.unique maildir flags))).mapError .io
  pure (maildirPath context.unique maildir flags)

/-- `index_file`: it reads the id in the file. -/
def indexFile (context : SaveContext M) (path : Path Dir) : Saving Str :=
  .op (.index .indexFile) .database
    (fun store =>
      match store.files path with
      | none => .error .database
      | some file =>
        .ok (context.messageId file.bytes,
          { store with indexed := Function.update store.indexed path true }))
    fun store _ => store

/-- The tags are checked before anything is indexed. The message is frozen while its tags are set,
so that a reader sees all of them or none. -/
def indexFileWithTags (context : SaveContext M) (path : Path Dir) (tags : List Str) :
    Saving Str := do
  Prog.ofExcept ((tags.forM Notmuch.validateTag).mapError .tag)
  let id ← indexFile context path
  quiet (.index .freeze) .database
  Prog.forEach (fun i => quiet (.index (.addTag i)) .database) (List.range tags.length)
  quiet (.index .thaw) .database
  pure id

/-- The handle is dropped at the end, also after an error; `Drop` ignores how the close ends. -/
def indexMessageFile (context : SaveContext M) (path : Path Dir) (tags : List Str) :
    Saving Str := do
  quiet (.index .openDatabase) .database
  Prog.session (.index .closeDatabase) uncommitted (indexFileWithTags context path tags)

/-- A message that has been written and, if it was to be, indexed. -/
structure PersistedMessage where
  path : Path Dir
  indexedMessageId : Option Str

def draftsName : OsString := OsString.ofStr "Drafts".toList

/-- The Maildir that the options name. -/
def configuredMaildir (options : LaunchOptions) : Option Dir :=
  options.draftMaildir
    |>.or (options.mailRoot.map (· ++ [draftsName]))
    |>.or (options.databasePath.map (· ++ [draftsName]))

/-- The Maildir that the options name, or the one in the database's root. -/
def findMaildir (context : SaveContext M) (options : LaunchOptions) : Saving Dir :=
  match configuredMaildir options with
  | some maildir => pure maildir
  | none => do
    quiet .openForMaildir .noMaildir
    pure (context.databaseRoot ++ [draftsName])

/-- The Maildir is found, the message written and, where the configuration says so, indexed. -/
def persistDraftMessage (context : SaveContext M) (options : LaunchOptions) (message : M) :
    Saving PersistedMessage := do
  let maildir ← findMaildir context options
  let path ← saveRfc5322ToMaildir context maildir message "D".toList
  if options.indexDraftAfterSave then do
    let id ← indexMessageFile context path options.draftTags
    pure ⟨path, some id⟩
  else pure ⟨path, none⟩

/-! ## Deleting a copy -/

/-- `Path::exists`: a path whose metadata cannot be read does not exist. -/
def pathExists {L ε : Type} (label : L) (path : Path Dir) : Prog L DraftStore ε Bool := do
  let found ← (Prog.op label IoError.failed
    (fun store : DraftStore => .ok ((store.files path).isSome, store))
    fun store _ => store).attempt
  match found with
  | .ok found => pure found
  | .error _ => pure false

/-- A path that the index does not know is removed without an error. -/
def removeMessageFile (copy : DraftCopy) (path : Path Dir) :
    Prog DraftSaveOp DraftStore DeleteError Unit :=
  .op (.delete copy .removeMessage) .database
    (fun store => .ok ((), { store with indexed := Function.update store.indexed path false }))
    fun store _ => store

/-- The part of `delete_draft_source` for an indexed draft: the handle lives in a block of its own,
at whose end it is dropped. -/
def unindexSource (copy : DraftCopy) (draft : ActiveDraft) :
    Prog DraftSaveOp DraftStore DeleteError Unit :=
  if draft.indexed then do
    quiet (.delete copy .openDatabase) .database
    Prog.session (.delete copy .closeDatabase) uncommitted (removeMessageFile copy draft.path)
  else pure ()

/-- The entry goes first, the file second. A file that is missing is no failure. -/
def deleteDraftSource (copy : DraftCopy) (draft : ActiveDraft) :
    Prog DraftSaveOp DraftStore DeleteError Unit := do
  unindexSource copy draft
  let found ← pathExists (.delete copy .metadata) draft.path
  if found then
    (onFiles (FileStore.removeFile (.delete copy .removeFile) draft.path)).mapError .io
  else pure ()

/-! ## The save -/

/-- What the window tells the user about a save. -/
structure DraftSaveReport where
  localPath : Option (Path Dir)
  maildirPath : Option (Path Dir)
  indexedMessageId : Option Str
  replacedPath : Option (Path Dir)

structure DraftSaveWorkerResult where
  report : DraftSaveReport
  activeDraft : ActiveDraft

/-- The named draft that is written over. -/
def replacementPath (draftsDir : Dir) (previous : Option ActiveDraft) : Option (Path Dir) :=
  (previous.filter fun draft =>
    !draft.indexed && draft.path.parent = draftsDir && draft.path.fileName.isJson).map
      ActiveDraft.path

/-- Where the new copy is written. -/
def persistCopy (context : SaveContext M) (options : LaunchOptions) (draftsDir : Dir)
    (listing : List OsString) (legacy : Option (Dir × List OsString)) (fields : ComposeFields)
    (previous : Option ActiveDraft) : Saving (PersistedMessage ⊕ Path Dir) := do
  if options.saveDraftsToMaildir then do
    let message ← Prog.ofExcept ((context.composedMessageFromFields fields).mapError .compose)
    let persisted ← persistDraftMessage context options message
    pure (.inl persisted)
  else do
    let path ← (onFiles ((saveNamedDraftFields context.json context.names draftsDir listing legacy
      fields (replacementPath draftsDir previous)).relabel .named)).mapError .named
    pure (.inr path)

/-- The new copy as the draft that is active from now on. -/
def activeDraftOf (fields : ComposeFields) : PersistedMessage ⊕ Path Dir → ActiveDraft
  | .inl persisted =>
    { path := persisted.path
      messageId := persisted.indexedMessageId
      indexed := persisted.indexedMessageId.isSome
      savedFields := fields }
  | .inr path =>
    { path := path
      messageId := none
      indexed := false
      savedFields := fields }

/-- The previous copy is deleted, or the new one when that fails. -/
def replacePrevious (previous : Option ActiveDraft) (active : ActiveDraft) :
    Saving (Option (Path Dir)) :=
  match previous with
  | none => pure none
  | some previous =>
    if previous.path = active.path then pure none
    else do
      let deleted ← (deleteDraftSource .previous previous).attempt
      match deleted with
      | .ok () => pure (some previous.path)
      | .error deleteError => do
        let rolledBack ← (deleteDraftSource .replacement active).attempt
        match rolledBack with
        | .ok () => .raise (.deletingPrevious previous.path deleteError none)
        | .error rollbackError =>
          .raise (.deletingPrevious previous.path deleteError (some rollbackError))

/-- The new copy is written before the previous one is touched. -/
def performCapturedDraftSave (context : SaveContext M) (options : LaunchOptions) (draftsDir : Dir)
    (listing : List OsString) (legacy : Option (Dir × List OsString)) (fields : ComposeFields)
    (previous : Option ActiveDraft) : Saving DraftSaveWorkerResult := do
  let copy ← persistCopy context options draftsDir listing legacy fields previous
  let replaced ← replacePrevious previous (activeDraftOf fields copy)
  pure {
    report := {
      localPath := copy.getRight?
      maildirPath := copy.getLeft?.map PersistedMessage.path
      indexedMessageId := copy.getLeft?.bind PersistedMessage.indexedMessageId
      replacedPath := replaced }
    activeDraft := activeDraftOf fields copy }

end Notm.Ui
