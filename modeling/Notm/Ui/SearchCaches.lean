import Notm.Lib.Program
import Notm.Mail.Message
import Notm.Notmuch.ThreadMessages
import Notm.Ui.Cache
import Notm.Ui.ImageSenders
import Notm.Ui.ThreadWindow

/-!
# Searches that share their caches

`execute_search_page_with_cancel` and the two caches of the process: whole pages, and the details
of single threads. A mutation of the mail raises the epoch that every key bears and then clears the
caches, one after the other; a search reads the epoch before it opens the database. Any number of
searches and invalidations run at once, and between any two of their operations another of them
may perform one of its own.

What the database and the files answer is a choice of the environment; what has been read is kept
with its reader and with the epoch at the time, for what is said about it later.

* `SearchCaches` — the two caches, the epoch, and the flags of the searches.
* `executeSearchPageWithCancel`, `invalidateSearchCaches` — as programs of single operations.
* `Searches.step` — any number of them, interleaved.
-/

namespace Notm.Ui

open Rust Mail Notmuch

/-! ## The data -/

/-- What a row shows of a thread besides its summary. Details that could not be read carry a warning
instead. -/
structure ThreadUiDetails where
  hasAttachment : Bool := false
  hasEncrypted : Bool := false
  hasSigned : Bool := false
  preview : Str := []
  loadWarning : Option Str := none
deriving DecidableEq

/-- Everything that decides what a page holds, the epoch included: a page that was read before an
invalidation is found by no later search. -/
structure SearchCacheKey where
  cacheEpoch : Nat
  databasePath : Str
  databaseUuid : Str
  databaseRevision : Nat
  query : Str
  offset : Nat
  limit : Nat
  excludedTags : List Str
deriving DecidableEq

/-- The same for the details of one thread. -/
structure ThreadDetailCacheKey where
  cacheEpoch : Nat
  databasePath : Str
  databaseUuid : Str
  databaseRevision : Nat
  threadId : Str
deriving DecidableEq

inductive SearchCachePolicy where
  | use
  | bypass
deriving DecidableEq

/-- `SearchData`, with the details of the threads. -/
abbrev SearchPage := SearchData ThreadUiDetails

def searchCacheKey (query dbPath : Str) (revision : Revision) (offset limit : Nat)
    (excludedTags : List Str) (cacheEpoch : Nat) : SearchCacheKey where
  cacheEpoch := cacheEpoch
  databasePath := dbPath
  databaseUuid := revision.uuid
  databaseRevision := revision.revision
  query := query
  offset := offset
  limit := limit
  excludedTags := canonicalExcludedTags excludedTags

def threadDetailCacheKey (dbPath : Str) (revision : Revision) (threadId : Str) (cacheEpoch : Nat) :
    ThreadDetailCacheKey where
  cacheEpoch := cacheEpoch
  databasePath := dbPath
  databaseUuid := revision.uuid
  databaseRevision := revision.revision
  threadId := threadId

def searchPageCacheCapacity : Nat := 64

def threadDetailCacheCapacity : Nat := 4096

def maxVisibleSearchTags : Nat := 256

def maxThreadDetailMessages : Nat := 256

def threadDetailBatchMessageLimit : Nat := 4096

def threadDetailSourceMaxBytes : Nat := 4 * 1024 * 1024

def threadPreviewCacheMaxChars : Nat := 1024

/-- `str::split_whitespace`. -/
def splitWhitespace (s : Str) : List Str := (s.splitOnP isWhitespace).filter (· ≠ [])

/-- The words of the lines that are not quoted, up to the length that is kept. -/
def bodyPreview (body : Str) : Str :=
  let words := (((lines body).map trim).filter fun line =>
    line ≠ [] ∧ line.head? ≠ some '>').flatMap splitWhitespace
  let preview := List.intercalate [' '] words
  if threadPreviewCacheMaxChars < preview.length then
    preview.take (threadPreviewCacheMaxChars - 1) ++ ['…']
  else preview

/-- `is_encrypted`. -/
def isEncryptedKind : CryptoPartKind → Bool
  | .encryptedContainer | .openPgpEncrypted | .smimeEncrypted => true
  | .signedContainer | .openPgpSignature | .openPgpKey | .smimeSigned | .smimeSignature
  | .smimeOther => false

/-- `is_signed`. -/
def isSignedKind : CryptoPartKind → Bool
  | .signedContainer | .openPgpSignature | .smimeSigned | .smimeSignature => true
  | .encryptedContainer | .openPgpEncrypted | .openPgpKey | .smimeEncrypted | .smimeOther => false

/-- What a parsed message adds to the details of its thread. -/
def ThreadUiDetails.addMessage (detail : ThreadUiDetails) (parsed : ParsedMessage) :
    ThreadUiDetails :=
  { detail with
    hasEncrypted := detail.hasEncrypted ||
      parsed.classification.cryptoParts.any fun part => isEncryptedKind part.kind
    hasSigned := detail.hasSigned ||
      parsed.classification.cryptoParts.any fun part => isSignedKind part.kind
    hasAttachment := detail.hasAttachment || !parsed.attachments.isEmpty
    preview := if detail.preview = [] then bodyPreview parsed.safeBody else detail.preview }

/-- A thread is shown without details rather than not at all. -/
def unavailableThreadDetail (error : Str) : ThreadUiDetails where
  loadWarning := some ("Thread details unavailable: ".toList ++ error)

/-! ## The operations -/

/-- The operations of a search, each of which is one step of an interleaving: the reads of the
database and of files, the two caches and the epoch. -/
inductive SearchOp where
  /-- `cancelled.load` -/
  | cancelled
  /-- `CACHE_EPOCH.load` -/
  | loadEpoch
  | openDatabase
  | databasePath
  | revision
  | lookUpPage (key : SearchCacheKey)
  | allTags
  | searchThreads (query : Str) (options : QueryOptions)
  | countThreads (query : Str) (options : QueryOptions)
  | lookUpDetail (key : ThreadDetailCacheKey)
  | threadMessages (threadIds : List Str)
  /-- `File::open`, and `read_to_end` of what `take` leaves -/
  | readFile (path : Str) (limit : Nat)
  | insertDetail (key : ThreadDetailCacheKey) (detail : ThreadUiDetails)
  /-- under the lock: the flag is looked at, and the entry put in if it is not set -/
  | insertDetailUnlessCancelled (key : ThreadDetailCacheKey) (detail : ThreadUiDetails)
  | insertPageUnlessCancelled (key : SearchCacheKey) (data : SearchPage)
  /-- `CACHE_EPOCH.fetch_add` -/
  | bumpEpoch
  | clearPages
  | clearDetails

/-- What an operation answers. -/
def SearchOp.Answer : SearchOp → Type
  | cancelled => Bool
  | loadEpoch => Nat
  | openDatabase => Except Str Unit
  | databasePath => Str
  | revision => Revision
  | lookUpPage _ => Option SearchPage
  | allTags => List Str
  | searchThreads _ _ => Except Notmuch.Error (List ThreadSummary)
  | countThreads _ _ => Except Notmuch.Error Nat
  | lookUpDetail _ => Option ThreadUiDetails
  | threadMessages _ => Except Notmuch.Error (BTreeMap Str (BoundedThreadMessages MessageSummary))
  | readFile _ _ => Option Bytes
  | insertDetail _ _ => Unit
  | insertDetailUnlessCancelled _ _ => Bool
  | insertPageUnlessCancelled _ _ => Bool
  | bumpEpoch => Unit
  | clearPages => Unit
  | clearDetails => Unit

/-- A program of the searches; an error is its text. -/
abbrev SearchProgram (α : Type) := Program SearchOp SearchOp.Answer Str α

def searchCancelledText : Str := "search preparation was cancelled".toList

namespace SearchProgram

def isCancelled : SearchProgram Bool := Program.call SearchOp.cancelled

def loadEpoch : SearchProgram Nat := Program.call SearchOp.loadEpoch

def openDatabase : SearchProgram (Except Str Unit) := Program.call SearchOp.openDatabase

def databasePath : SearchProgram Str := Program.call SearchOp.databasePath

def revision : SearchProgram Revision := Program.call SearchOp.revision

def lookUpPage (key : SearchCacheKey) : SearchProgram (Option SearchPage) :=
  Program.call (SearchOp.lookUpPage key)

def allTags : SearchProgram (List Str) := Program.call SearchOp.allTags

def searchThreads (query : Str) (options : QueryOptions) :
    SearchProgram (Except Notmuch.Error (List ThreadSummary)) :=
  Program.call (SearchOp.searchThreads query options)

def countThreads (query : Str) (options : QueryOptions) :
    SearchProgram (Except Notmuch.Error Nat) := Program.call (SearchOp.countThreads query options)

def lookUpDetail (key : ThreadDetailCacheKey) : SearchProgram (Option ThreadUiDetails) :=
  Program.call (SearchOp.lookUpDetail key)

def threadMessages (threadIds : List Str) :
    SearchProgram (Except Notmuch.Error (BTreeMap Str (BoundedThreadMessages MessageSummary))) :=
  Program.call (SearchOp.threadMessages threadIds)

def readFile (path : Str) (limit : Nat) : SearchProgram (Option Bytes) :=
  Program.call (SearchOp.readFile path limit)

def insertDetail (key : ThreadDetailCacheKey) (detail : ThreadUiDetails) : SearchProgram Unit :=
  Program.call (SearchOp.insertDetail key detail)

def insertDetailUnlessCancelled (key : ThreadDetailCacheKey) (detail : ThreadUiDetails) :
    SearchProgram Bool := Program.call (SearchOp.insertDetailUnlessCancelled key detail)

def insertPageUnlessCancelled (key : SearchCacheKey) (data : SearchPage) : SearchProgram Bool :=
  Program.call (SearchOp.insertPageUnlessCancelled key data)

def bumpEpoch : SearchProgram Unit := Program.call SearchOp.bumpEpoch

def clearPages : SearchProgram Unit := Program.call SearchOp.clearPages

def clearDetails : SearchProgram Unit := Program.call SearchOp.clearDetails

end SearchProgram

open SearchProgram

/-- The flag is looked at between any two operations that take long. -/
def ensureSearchNotCancelled : SearchProgram Unit := do
  let cancelled ← isCancelled
  Program.ensure (!cancelled) searchCancelledText

/-! ## The details of threads -/

/-- What is not read is an error of the source, which its caller passes over. -/
def readThreadDetailSource (path : Str) : SearchProgram (Option Bytes) := do
  let bytes ← readFile path (threadDetailSourceMaxBytes + 1)
  return bytes.filter fun bytes => bytes.length ≤ threadDetailSourceMaxBytes

/-- A message that does not parse adds nothing. -/
def addParsedSource (crates : Crates) (detail : ThreadUiDetails) (bytes : Bytes) :
    SearchProgram ThreadUiDetails :=
  match parseRfc5322 crates bytes with
  | .ok parsed => do
    ensureSearchNotCancelled
    return detail.addMessage parsed
  | .error _ => return detail

/-- The loop over the files of a message: the first that can be read is the one. -/
def addFirstSource (crates : Crates) (detail : ThreadUiDetails) :
    List Str → SearchProgram ThreadUiDetails
  | [] => pure detail
  | filename :: filenames => do
    ensureSearchNotCancelled
    match ← readThreadDetailSource filename with
    | none => do
      ensureSearchNotCancelled
      addFirstSource crates detail filenames
    | some bytes => do
      ensureSearchNotCancelled
      let detail ← addParsedSource crates detail bytes
      ensureSearchNotCancelled
      return detail

/-- The body of the loop over the messages of a thread. -/
def addMessageSource (crates : Crates) (detail : ThreadUiDetails) (message : MessageSummary) :
    SearchProgram ThreadUiDetails := do
  ensureSearchNotCancelled
  addFirstSource crates detail message.filenames

/-- The details of a thread come from the sources of its messages, one after the other. -/
def computeThreadDetail (crates : Crates) (messages : List MessageSummary) :
    SearchProgram ThreadUiDetails :=
  messages.foldlM (addMessageSource crates) {}

/-- The details found so far, and the threads whose details are not in the cache. -/
structure ThreadDetailLookups where
  out : BTreeMap Str ThreadUiDetails
  missing : List (ThreadSummary × ThreadDetailCacheKey)

/-- The body of the first loop of `thread_details_for_threads`. -/
def lookUpThreadDetail (databasePath : Str) (revision : Revision) (cacheEpoch : Nat)
    (lookups : ThreadDetailLookups) (thread : ThreadSummary) :
    SearchProgram ThreadDetailLookups := do
  ensureSearchNotCancelled
  let key := threadDetailCacheKey databasePath revision thread.threadId cacheEpoch
  match ← lookUpDetail key with
  | some detail => return { lookups with out := lookups.out.insert thread.threadId detail }
  | none => return { lookups with missing := lookups.missing ++ [(thread, key)] }

/-- The body of the loop for the threads whose messages could not be listed. -/
def warnThreadDetail (error : Notmuch.Error) (out : BTreeMap Str ThreadUiDetails)
    (missing : ThreadSummary × ThreadDetailCacheKey) :
    SearchProgram (BTreeMap Str ThreadUiDetails) := do
  ensureSearchNotCancelled
  let detail := unavailableThreadDetail error.text
  insertDetail missing.2 detail
  return out.insert missing.1.threadId detail

/-- The details of a thread, from what the database gave for it. -/
def threadDetailOf (crates : Crates) :
    Option (BoundedThreadMessages MessageSummary) → SearchProgram ThreadUiDetails
  | none => pure {}
  | some (.loaded messages) => computeThreadDetail crates messages
  | some outcome => pure (unavailableThreadDetail outcome.text)

/-- The body of the last loop. -/
def loadThreadDetail (crates : Crates)
    (messagesByThread : BTreeMap Str (BoundedThreadMessages MessageSummary))
    (out : BTreeMap Str ThreadUiDetails) (missing : ThreadSummary × ThreadDetailCacheKey) :
    SearchProgram (BTreeMap Str ThreadUiDetails) := do
  ensureSearchNotCancelled
  let detail ← threadDetailOf crates (messagesByThread.get? missing.1.threadId)
  ensureSearchNotCancelled
  let inserted ← insertDetailUnlessCancelled missing.2 detail
  Program.ensure inserted searchCancelledText
  return out.insert missing.1.threadId detail

/-- The threads are looked up in the cache first. The messages of those that are missing are read
together; where that fails, each of them is shown with a warning. -/
def threadDetailsForThreads (crates : Crates) (databasePath : Str) (revision : Revision)
    (threads : List ThreadSummary) (cacheEpoch : Nat) :
    SearchProgram (BTreeMap Str ThreadUiDetails) := do
  let lookups ← threads.foldlM (lookUpThreadDetail databasePath revision cacheEpoch) ⟨.empty, []⟩
  ensureSearchNotCancelled
  match ← threadMessages (lookups.missing.map fun missing => missing.1.threadId) with
  | .error error => lookups.missing.foldlM (warnThreadDetail error) lookups.out
  | .ok messagesByThread => do
    ensureSearchNotCancelled
    lookups.missing.foldlM (loadThreadDetail crates messagesByThread) lookups.out

/-! ## A search -/

/-- What a search is asked for: the request, and the settings that the runtime provides. -/
structure PageSearch where
  query : Str
  offset : Nat
  limit : Nat
  excludedTags : List Str
  cachePolicy : SearchCachePolicy
deriving DecidableEq

def pageSizeText (limit : Nat) : Str :=
  "search page size must be between 1 and ".toList ++ natText maxSearchPageSize ++
    "; got ".toList ++ natText limit

def revisionChangedText : Str :=
  "database revision changed while loading an authoritative search page".toList

/-- `?` on an answer of the database. -/
def databaseAnswer {α : Type} (answer : Except Notmuch.Error α) : SearchProgram α :=
  Program.ofExcept (answer.mapError Notmuch.Error.text)

/-- The lookup of a page, where the policy uses the cache. -/
def cachedPage (policy : SearchCachePolicy) (key : SearchCacheKey) :
    SearchProgram (Option SearchPage) :=
  match policy with
  | .use => lookUpPage key
  | .bypass => pure none

/-- `count_threads`; a page that need not be authoritative counts its own threads when it fails. -/
def countOf (policy : SearchCachePolicy) (query : Str) (options : QueryOptions)
    (threads : List ThreadSummary) : SearchProgram Nat := do
  let count ← countThreads query options
  match policy with
  | .use => return count.toOption.getD threads.length
  | .bypass => databaseAnswer count

/-- The page goes into the cache, where the policy uses it. -/
def keepPage (policy : SearchCachePolicy) (key : SearchCacheKey) (data : SearchPage) :
    SearchProgram Unit :=
  match policy with
  | .use => do
    let inserted ← insertPageUnlessCancelled key data
    Program.ensure inserted searchCancelledText
  | .bypass => pure ()

/-- `execute_search_page_with_cancel` from the first query on: no page was in the cache. -/
def loadSearchPage (crates : Crates) (search : PageSearch) (excludedTags : List Str)
    (cacheEpoch : Nat) (dbPath : Str) (revisionBefore : Revision) (key : SearchCacheKey) :
    SearchProgram SearchPage := do
  let tags ← allTags
  ensureSearchNotCancelled
  let options : QueryOptions := ⟨search.limit, search.offset, excludedTags⟩
  let found ← searchThreads search.query options
  let threads ← databaseAnswer found
  ensureSearchNotCancelled
  let count ← countOf search.cachePolicy search.query options threads
  ensureSearchNotCancelled
  let completedRevision ← revision
  ensureSearchNotCancelled
  Program.ensure (search.cachePolicy = .use || completedRevision = revisionBefore)
    revisionChangedText
  let details ← threadDetailsForThreads crates dbPath revisionBefore threads cacheEpoch
  ensureSearchNotCancelled
  let data : SearchPage :=
    { query := search.query
      excludedTags
      threads
      details
      count
      offset := search.offset
      limit := search.limit
      tags := tags.take maxVisibleSearchTags
      databasePath := dbPath
      revision := revisionBefore
      cached := false }
  ensureSearchNotCancelled
  keepPage search.cachePolicy key data
  return data

/-- A search for one page. The database is opened after the epoch has been read, and the key of the
cache has the epoch and the revision of that moment. -/
def executeSearchPageWithCancel (crates : Crates) (search : PageSearch) :
    SearchProgram SearchPage := do
  Program.ensure (1 ≤ search.limit && search.limit ≤ maxSearchPageSize) (pageSizeText search.limit)
  let excludedTags := canonicalExcludedTags search.excludedTags
  ensureSearchNotCancelled
  -- the epoch comes before the database: what is read is at least as new as the epoch says
  let cacheEpoch ← loadEpoch
  let opened ← openDatabase
  Program.ofExcept opened
  ensureSearchNotCancelled
  let revisionBefore ← revision
  let dbPath ← databasePath
  let key := searchCacheKey search.query dbPath revisionBefore search.offset search.limit
    excludedTags cacheEpoch
  match ← cachedPage search.cachePolicy key with
  | some cached => do
    ensureSearchNotCancelled
    return { cached with cached := true }
  | none => loadSearchPage crates search excludedTags cacheEpoch dbPath revisionBefore key

/-- The epoch goes first, so that a search that is under way can no longer put anything where a
later one would find it. -/
def invalidateSearchCaches : SearchProgram Unit := do
  bumpEpoch
  clearPages
  clearDetails

/-- What uses the caches. -/
inductive CacheUse where
  | search (page : PageSearch)
  | invalidate

/-- The page of a search; an invalidation has none. -/
def CacheUse.body (crates : Crates) : CacheUse → SearchProgram (Option SearchPage)
  | .search page => do
    let data ← executeSearchPageWithCancel crates page
    return some data
  | .invalidate => do
    invalidateSearchCaches
    return none

/-! ## What is shared -/

/-- What has been read, of the database and of the files. -/
inductive SearchReadAnswer where
  | opened
  | path (path : Str)
  | revision (revision : Revision)
  | tags (tags : List Str)
  | threads (query : Str) (options : QueryOptions) (threads : List ThreadSummary)
  | count (query : Str) (options : QueryOptions) (count : Except Notmuch.Error Nat)
  | messages (threadIds : List Str)
      (messages : Except Notmuch.Error (BTreeMap Str (BoundedThreadMessages MessageSummary)))
  | file (path : Str) (bytes : Option Bytes)

/-- A read, with the process that made it and the epoch at the time. -/
structure SearchRead where
  reader : Nat
  epoch : Nat
  answer : SearchReadAnswer

/-- The statics of `thread_list.rs`, the flags of the searches, and what has been read. The epoch
does not come round: that takes 2^64 invalidations. -/
structure SearchCaches where
  epoch : Nat
  pages : BoundedLruCache SearchCacheKey SearchPage
  details : BoundedLruCache ThreadDetailCacheKey ThreadUiDetails
  cancelled : List Nat
  reads : List SearchRead

namespace SearchCaches

/-- The caches of a process that has just been started. -/
def initial : SearchCaches where
  epoch := 0
  pages := ⟨searchPageCacheCapacity, [], 0⟩
  details := ⟨threadDetailCacheCapacity, [], 0⟩
  cancelled := []
  reads := []

/-- What the database and the files would answer just then. -/
structure Environment where
  opened : Except Str Unit := .ok ()
  path : Str := []
  revision : Revision := ⟨0, []⟩
  tags : List Str := []
  /-- the threads that the query finds -/
  found : Except Notmuch.Error (List ThreadSummary) := .ok []
  count : Except Notmuch.Error Nat := .ok 0
  messages : ThreadBatchAnswers MessageSummary := ⟨false, none, [], none, none, [], none⟩
  /-- the content of the file, if it can be read -/
  file : Option Bytes := none

variable (i : Nat) (s : SearchCaches)

/-- What was read is kept for the proofs, with the search and the epoch. -/
def read (answer : SearchReadAnswer) : SearchCaches :=
  { s with reads := s.reads ++ [⟨i, s.epoch, answer⟩] }

def lookUpPage (key : SearchCacheKey) : Option (Option SearchPage × SearchCaches) :=
  (s.pages.get key).map fun found => (found.1, { s with pages := found.2 })

def lookUpDetail (key : ThreadDetailCacheKey) : Option (Option ThreadUiDetails × SearchCaches) :=
  (s.details.get key).map fun found => (found.1, { s with details := found.2 })

def insertDetail (key : ThreadDetailCacheKey) (detail : ThreadUiDetails) : Option SearchCaches :=
  (s.details.insert key detail).map fun inserted => { s with details := inserted.2 }

def insertPage (key : SearchCacheKey) (data : SearchPage) : Option SearchCaches :=
  (s.pages.insert key data).map fun inserted => { s with pages := inserted.2 }

/-- The threads of a page, and that they were read. -/
def searchThreads (query : Str) (options : QueryOptions) :
    Except Notmuch.Error (List ThreadSummary) →
      Except Notmuch.Error (List ThreadSummary) × SearchCaches
  | .ok found =>
    let threads := Notmuch.searchThreads found options
    (.ok threads, s.read i (.threads query options threads))
  | .error error => (.error error, s)

/-- An operation of the process `i`; `none` is a panic of a cache. -/
def act (op : SearchOp) (environment : Environment) : Option (op.Answer × SearchCaches) :=
  match op with
  | .cancelled => some (decide (i ∈ s.cancelled), s)
  | .loadEpoch => some (s.epoch, s)
  | .openDatabase =>
    some (environment.opened, if environment.opened.isOk then s.read i .opened else s)
  | .databasePath => some (environment.path, s.read i (.path environment.path))
  | .revision => some (environment.revision, s.read i (.revision environment.revision))
  | .lookUpPage key => s.lookUpPage key
  | .allTags => some (environment.tags, s.read i (.tags environment.tags))
  | .searchThreads query options => some (s.searchThreads i query options environment.found)
  | .countThreads query options =>
    some (environment.count, s.read i (.count query options environment.count))
  | .lookUpDetail key => s.lookUpDetail key
  | .threadMessages threadIds =>
    let messages := threadMessagesForThreadsBounded environment.messages threadIds
      maxThreadDetailMessages threadDetailBatchMessageLimit
    some (messages, s.read i (.messages threadIds messages))
  | .readFile path limit =>
    let bytes := environment.file.map (List.take limit)
    some (bytes, s.read i (.file path bytes))
  | .insertDetail key detail => (s.insertDetail key detail).map fun s => ((), s)
  | .insertDetailUnlessCancelled key detail =>
    if i ∈ s.cancelled then some (false, s)
    else (s.insertDetail key detail).map fun s => (true, s)
  | .insertPageUnlessCancelled key data =>
    if i ∈ s.cancelled then some (false, s) else (s.insertPage key data).map fun s => (true, s)
  | .bumpEpoch => some ((), { s with epoch := s.epoch + 1 })
  | .clearPages => some ((), { s with pages := s.pages.clear })
  | .clearDetails => some ((), { s with details := s.details.clear })

/-- The flag of a search is set. -/
def cancel (s : SearchCaches) (i : Nat) : Option SearchCaches :=
  some { s with cancelled := i :: s.cancelled }

end SearchCaches

/-- The searches and invalidations of the process. -/
abbrev Searches := Program.Processes SearchCaches CacheUse SearchOp SearchOp.Answer Str
  (Option SearchPage)

/-- One step of them. -/
def Searches.step (crates : Crates) (p : Searches) :
    Program.ProcessEvent CacheUse SearchCaches.Environment Nat → Option Searches :=
  Program.Processes.step (CacheUse.body crates) SearchCaches.act SearchCaches.cancel p

def Searches.initial : Searches := ⟨.initial, []⟩

end Notm.Ui
