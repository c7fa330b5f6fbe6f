import Notm.Lib.Counter
import Notm.Lib.Rust

/-!
# Caching the attachments of a composer

`cache_composer_attachments_cancellable`: each source that is not a file of the user is copied to
a directory of its own, below one private directory that belongs to the request. The run is cut
into the steps between which it can be cancelled and other files can change; the answers of the
file system are the events' own.

* `CacheRun`, `RunStage` — the variables of a run, and where it is.
* `RunEvent` — what the file system answers.
* `RunProgress`, `RunOutcome` — how a run goes on: with its next stage, or with a result.
-/

namespace Notm.Ui

open Rust

/-- A path by its components. -/
abbrev CachePath := List Str

/-- A file with its content, or a directory. It also keeps which request made it, if one did. -/
structure CacheFile where
  path : CachePath
  maker : Option Nat
  content : Option Bytes
deriving DecidableEq, Repr

/-- The files that a removal leaves when it fails. -/
inductive Removal where
  | removed
  | failed (left : List CachePath) (error : Str)
deriving DecidableEq, Repr

namespace CacheFile

/-- Something is at the path, or below it. -/
def Exists (files : List CacheFile) (path : CachePath) : Prop :=
  ∃ entry ∈ files, path <+: entry.path

instance (files : List CacheFile) (path : CachePath) : Decidable (Exists files path) :=
  inferInstanceAs (Decidable (∃ entry ∈ files, path <+: entry.path))

/-- `remove_dir_all`. -/
def removeDirAll (files : List CacheFile) (directory : CachePath) :
    Removal → List CacheFile
  | .removed => files.filter fun entry => !decide (directory <+: entry.path)
  | .failed left _ => files.filter fun entry =>
      !decide (directory <+: entry.path) || left.contains entry.path

end CacheFile

/-- What a source of an attachment reads when it is cached. A source in a message is read from its
file then. -/
inductive ComposerAttachmentSource where
  | owned (filename : Str) (bytes : Bytes) (sourcePath : Option CachePath)
  | shared (filename : Str) (bytes : Bytes)
  | messageFile (filename : Str) (sourceBytes : Nat)
  | mimePart (filename : Str) (partIndex encodedSize : Nat)
deriving DecidableEq, Repr

def maxAttachmentDecodedBytes : Nat := 32 * 1024 * 1024

def maxComposerCacheSources : Nat := 256

def maxComposerCacheBytes : Nat := 32 * 1024 * 1024

namespace ComposerAttachmentSource

/-- The name that the attachment is to have, before it is made safe. -/
def filename : ComposerAttachmentSource → Str
  | owned filename _ _ | shared filename _ | messageFile filename _ | mimePart filename _ _ =>
    filename

/-- A source that is in memory needs no read. -/
def residentBytes : ComposerAttachmentSource → Option Bytes
  | owned _ bytes _ | shared _ bytes => some bytes
  | messageFile _ _ | mimePart _ _ _ => none

/-- What a source is expected to need, which is known before it is read. -/
def byteLen : ComposerAttachmentSource → Nat
  | owned _ bytes _ | shared _ bytes => bytes.length
  | messageFile _ sourceBytes => sourceBytes
  | mimePart _ _ encodedSize => encodedSize

/-- The file that the user selected. -/
def sourcePath : ComposerAttachmentSource → Option CachePath
  | owned _ _ sourcePath => sourcePath
  | shared _ _ | messageFile _ _ | mimePart _ _ _ => none

/-- `existing_source`. -/
def existingSource (source : ComposerAttachmentSource) (files : List CacheFile) :
    Option CachePath :=
  source.sourcePath.filter fun path => decide (CacheFile.Exists files path)

end ComposerAttachmentSource

/-- `sanitize_attachment_filename`. -/
def sanitizeAttachmentFilename (filename : Str) : Str :=
  let cleaned := filename.map fun c => if c = '/' ∨ c = '\\' ∨ c.toNat = 0 then '_' else c
  if (trim cleaned).isEmpty ∨ cleaned = ".".toList ∨ cleaned = "..".toList then
    "attachment.bin".toList
  else cleaned

/-- `ComposerAttachmentCacheRequest`. Its directory is that of all requests. -/
structure ComposerAttachmentCacheRequest where
  generation : Nat
  sources : List ComposerAttachmentSource
deriving DecidableEq, Repr

/-- `ComposerAttachmentCacheJob`, with the number of its flag and of its response channel. -/
structure ComposerAttachmentCacheJob where
  id : Nat
  request : ComposerAttachmentCacheRequest
deriving DecidableEq, Repr

/-- `ComposerAttachmentCacheLease`. The paths are not yet displayed. -/
structure ComposerAttachmentCacheLease where
  paths : List CachePath
  ownedDirectory : Option CachePath
deriving DecidableEq, Repr

/-- The variables of a run. -/
structure CacheRun where
  job : ComposerAttachmentCacheJob
  remaining : List ComposerAttachmentSource
  paths : List CachePath
  ownedDirectory : Option CachePath
  materializedSources : Nat
  cachedBytes : Nat
deriving DecidableEq, Repr

/-- Where a run is. -/
inductive RunStage where
  | start
  /-- at the head of the loop -/
  | next
  | existing (source : ComposerAttachmentSource)
  | loading (source : ComposerAttachmentSource)
  | loaded (source : ComposerAttachmentSource) (bytes : Bytes)
  | requestDirectory (source : ComposerAttachmentSource) (bytes : Bytes)
  | sourceDirectory (source : ComposerAttachmentSource) (bytes : Bytes) (directory : CachePath)
  | writing (directory : CachePath) (filename : Str) (bytes : Bytes)
  | written (path : CachePath)
  /-- the error is returned, after the cleanup -/
  | failed (error : Str)
deriving DecidableEq, Repr

/-- How the creation of a private directory ends. -/
inductive DirectoryOutcome where
  | made
  | createFailed (error : Str)
  /-- the directory is there, unless it was removed again -/
  | permissionsFailed (error : Str) (removed : Bool)
deriving DecidableEq, Repr

/-- How the write of a file has ended. -/
inductive WriteOutcome where
  | written
  /-- what the writer leaves in the directory -/
  | failed (error : Str) (left : List (Str × Bytes))
deriving DecidableEq, Repr

/-- What a step of the run finds out: the flag, the file system, or what a source is read as. -/
inductive RunEvent where
  /-- the flag is read -/
  | look
  | testSource
  /-- what a source that is not in memory is read as -/
  | load (read : Except Str Bytes)
  /-- the name that was found to be free -/
  | makeRequestDirectory (uuid : Str) (outcome : DirectoryOutcome)
  | makeSourceDirectory (outcome : DirectoryOutcome)
  | write (outcome : WriteOutcome)
  | cleanup (removal : Removal)

/-- The run is at its next stage, or has its answer. -/
inductive RunProgress where
  | going (run : CacheRun) (stage : RunStage)
  | done (result : Except Str ComposerAttachmentCacheLease)

/-- The files after a step, whether the step left a directory behind, and how the run goes on. -/
structure RunOutcome where
  files : List CacheFile
  leftBehind : Bool
  progress : RunProgress

namespace CacheRun

/-- A run starts without a directory and without any copy. -/
def begin (job : ComposerAttachmentCacheJob) : CacheRun where
  job
  remaining := job.request.sources
  paths := []
  ownedDirectory := none
  materializedSources := 0
  cachedBytes := 0

def cancelledError : Str := "composer attachment cache was cancelled".toList

/-- The checks before the loop. -/
def startError (sources : List ComposerAttachmentSource) : Option Str :=
  let sourceBytes := sources.foldl (fun total source => saturatingAdd total source.byteLen) 0
  if maxComposerCacheSources < sources.length then
    some ("composer attachment cache has ".toList ++ natText sources.length ++
      " sources; limit is ".toList ++ natText maxComposerCacheSources)
  else if maxComposerCacheBytes < sourceBytes then
    some ("composer attachment cache sources total ".toList ++ natText sourceBytes ++
      " bytes; limit is ".toList ++ natText maxComposerCacheBytes ++ " bytes".toList)
  else none

/-- `load_composer_attachment_source`. -/
def loadSource (source : ComposerAttachmentSource) (read : Except Str Bytes) :
    Except Str Bytes :=
  match source.residentBytes with
  | some bytes =>
    if bytes.length ≤ maxAttachmentDecodedBytes then .ok bytes
    else .error ("composer attachment is ".toList ++ natText bytes.length ++
      " bytes; the decoded attachment limit is ".toList ++
      natText maxAttachmentDecodedBytes ++ " bytes".toList)
  | none => read

/-- A source is loaded, within the limit of the cache. -/
def load (run : CacheRun) (source : ComposerAttachmentSource) (read : Except Str Bytes) :
    CacheRun × RunStage :=
  match loadSource source read with
  | .error error => (run, .failed error)
  | .ok bytes =>
    let cachedBytes := saturatingAdd run.cachedBytes bytes.length
    let run := { run with cachedBytes }
    if maxComposerCacheBytes < cachedBytes then
      (run, .failed ("composer attachment cache loaded ".toList ++ natText cachedBytes ++
        " bytes; limit is ".toList ++ natText maxComposerCacheBytes ++ " bytes".toList))
    else (run, .loaded source bytes)

/-- The directory of the source that is cached next. -/
def nextSourceDirectory (run : CacheRun) (directory : CachePath) : CachePath :=
  directory ++ [natText run.materializedSources]

def directoryEntry (run : CacheRun) (path : CachePath) : CacheFile := ⟨path, some run.job.id, none⟩

def fileEntry (run : CacheRun) (path : CachePath) (bytes : Bytes) : CacheFile :=
  ⟨path, some run.job.id, some bytes⟩

/-- The run goes on; nothing has been reclaimed. -/
def going (files : List CacheFile) (run : CacheRun) (stage : RunStage) : Option RunOutcome :=
  some ⟨files, false, .going run stage⟩

/-- `create_composer_cache_request_directory`. A name that is taken is passed over. -/
def makeRequestDirectory (root : CachePath) (files : List CacheFile) (run : CacheRun)
    (source : ComposerAttachmentSource) (bytes : Bytes) (uuid : Str) :
    DirectoryOutcome → Option RunOutcome
  | .createFailed error => going files run (.failed error)
  | .permissionsFailed error removed =>
    if CacheFile.Exists files (root ++ [uuid]) then none
    else if removed then going files run (.failed error)
    else some ⟨files ++ [run.directoryEntry (root ++ [uuid])], true, .going run (.failed error)⟩
  | .made =>
    if CacheFile.Exists files (root ++ [uuid]) then none
    else going (files ++ [run.directoryEntry (root ++ [uuid])])
      { run with ownedDirectory := some (root ++ [uuid]) }
      (.sourceDirectory source bytes (root ++ [uuid]))

/-- `create_composer_cache_source_directory`. -/
def makeSourceDirectory (files : List CacheFile) (run : CacheRun)
    (source : ComposerAttachmentSource) (bytes : Bytes) (directory : CachePath) :
    DirectoryOutcome → Option RunOutcome
  | .createFailed error => going files run (.failed error)
  | .permissionsFailed error removed =>
    if CacheFile.Exists files (run.nextSourceDirectory directory) then none
    else if removed then going files run (.failed error)
    else
      going (files ++ [run.directoryEntry (run.nextSourceDirectory directory)]) run (.failed error)
  | .made =>
    if CacheFile.Exists files (run.nextSourceDirectory directory) then none
    else
      -- at most `maxComposerCacheSources`: the counter does not saturate
      going (files ++ [run.directoryEntry (run.nextSourceDirectory directory)])
        { run with materializedSources := run.materializedSources + 1 }
        (.writing (run.nextSourceDirectory directory)
          (sanitizeAttachmentFilename source.filename) bytes)

/-- `atomic_write_durable`. -/
def write (files : List CacheFile) (run : CacheRun) (directory : CachePath) (filename : Str)
    (bytes : Bytes) : WriteOutcome → Option RunOutcome
  | .written =>
    going (files ++ [run.fileEntry (directory ++ [filename]) bytes]) run
      (.written (directory ++ [filename]))
  | .failed error left =>
    going (files ++ left.map fun file => run.fileEntry (directory ++ [file.1]) file.2) run
      (.failed error)

/-- `cleanup_cache_directory_after_error`. -/
def cleanup (files : List CacheFile) (run : CacheRun) (error : Str) (removal : Removal) :
    RunOutcome :=
  match run.ownedDirectory, removal with
  | none, _ => ⟨files, false, .done (.error error)⟩
  | some directory, .removed =>
    ⟨CacheFile.removeDirAll files directory .removed, false, .done (.error error)⟩
  | some directory, .failed left cause =>
    ⟨CacheFile.removeDirAll files directory (.failed left cause), true,
      .done (.error ("cleaning partial composer attachment cache failed: ".toList ++ cause))⟩

/-- A look at the flag; `set` is what is found. -/
def look (files : List CacheFile) (set : Bool) (run : CacheRun) : RunStage → Option RunOutcome
  | .start =>
    match startError run.remaining with
    | some error => some ⟨files, false, .done (.error error)⟩
    | none =>
      if set then some ⟨files, false, .done (.error cancelledError)⟩ else going files run .next
  | .next =>
    if set then going files run (.failed cancelledError)
    else
      match run.remaining with
      | [] => some ⟨files, false, .done (.ok ⟨run.paths, run.ownedDirectory⟩)⟩
      | source :: remaining => going files { run with remaining } (.existing source)
  | .loaded source bytes =>
    if set then going files run (.failed cancelledError)
    else
      match run.ownedDirectory with
      | none => going files run (.requestDirectory source bytes)
      | some directory => going files run (.sourceDirectory source bytes directory)
  | .written path =>
    if set then going files run (.failed cancelledError)
    else going files { run with paths := run.paths ++ [path] } .next
  | _ => none

/-- A step of `cache_composer_attachments_cancellable`. -/
def step (root : CachePath) (files : List CacheFile) (set : Bool) (run : CacheRun)
    (stage : RunStage) : RunEvent → Option RunOutcome
  | .look => run.look files set stage
  | .testSource =>
    match stage with
    | .existing source =>
      match source.existingSource files with
      | some path => going files { run with paths := run.paths ++ [path] } .next
      | none => going files run (.loading source)
    | _ => none
  | .load read =>
    match stage with
    | .loading source => going files (run.load source read).1 (run.load source read).2
    | _ => none
  | .makeRequestDirectory uuid outcome =>
    match stage with
    | .requestDirectory source bytes =>
      makeRequestDirectory root files run source bytes uuid outcome
    | _ => none
  | .makeSourceDirectory outcome =>
    match stage with
    | .sourceDirectory source bytes directory =>
      makeSourceDirectory files run source bytes directory outcome
    | _ => none
  | .write outcome =>
    match stage with
    | .writing directory filename bytes => write files run directory filename bytes outcome
    | _ => none
  | .cleanup removal =>
    match stage with
    | .failed error => some (cleanup files run error removal)
    | _ => none

end CacheRun

end Notm.Ui
