import Mathlib
import Notm.Lib.Counter
import Notm.Lib.Except
import Notm.Ui.DraftFiles

/-!
# The stores of named drafts

Named drafts are the `json` files of two directories, the current one and that of an earlier
version. Both are listed and read within a budget: a number of entries, a size for each and a size
for all. Three functions keep the account of it on their own, the migration of legacy drafts, the
scan that fills the list of drafts and the check before a draft is saved.

A listing holds the names of a directory in any order. Whether a file can be read is a property of
the store.

* `planMigration`, `migrateLegacyNamedDrafts` — the migration, with the checks before its first
  write.
* `scanNamedDrafts` — the list of the drafts.
* `ensureNamedDraftSaveFits`, `saveNamedDraftFields` — the check before a save, and the save.
-/

namespace Notm.Ui

open Rust Crash

def maxNamedDrafts : Nat := 256
def maxNamedDraftBytes : Nat := 2 * 1024 * 1024
def maxNamedDraftTotalBytes : Nat := 32 * 1024 * 1024

/-- `ComposeFields`, what a draft consists of. The addresses are the texts of the entries. -/
structure ComposeFields where
  from_ : Str := []
  to_ : Str := []
  cc : Str := []
  bcc : Str := []
  subject : Str := []
  body : Str := []
  attachments : List Str := []
  inReplyTo : Option Str := none
  references : List Str := []
  textReplyQuote : Option Str := none
  htmlReplyQuote : Option Str := none
deriving DecidableEq

/-- Blanks are no content, and neither is the sender. An attachment is. -/
def fieldsHasContent (fields : ComposeFields) : Bool :=
  trim fields.to_ ≠ [] || trim fields.cc ≠ [] || trim fields.bcc ≠ [] ||
    trim fields.subject ≠ [] || trim fields.body ≠ [] || fields.attachments ≠ []

/-- `serde_json` on the fields of a draft. -/
structure Json where
  toVecPretty : ComposeFields → Except String Bytes
  fromSlice : Bytes → Except String ComposeFields

/-- The errors of the draft files, with what their texts name. -/
inductive DraftIoError (D : Type) where
  | listing (dir : D)
  | reading (path : Path D) (e : IoError)
  /-- `named draft store contains {count} JSON files` -/
  | storeCount (count : Nat)
  /-- `named draft store exceeds the total limit` -/
  | storeBytes
  /-- `named draft {path} exceeds the limit` -/
  | entryBytes (path : Path D)
  /-- `named draft migration would contain {count} JSON files` -/
  | migrationCount (count : Nat)
  /-- `named draft migration would use {bytes} bytes` -/
  | migrationBytes (bytes : Nat)
  /-- `named draft serializes to {bytes} bytes` -/
  | serializedBytes (bytes : Nat)
  /-- `named draft save would contain {count} JSON files` -/
  | saveCount (count : Nat)
  /-- `named draft save would use {bytes} bytes` -/
  | saveBytes (bytes : Nat)
  /-- `replacement named draft {path} is not an existing JSON file` -/
  | replacementMissing (path : Path D)
  /-- `replacement named draft {path} is not a file` -/
  | replacementNotFile (path : Path D)
  /-- `draft has no content` -/
  | noContent
  | json (e : String)
  | overflow (what : String)
  | file (e : FileError D)
deriving DecidableEq

/-- The errors that reject a store for its count or size. -/
def DraftIoError.IsLimit {D : Type} : DraftIoError D → Prop
  | .storeCount _ | .storeBytes | .migrationCount _ | .migrationBytes _ | .serializedBytes _
  | .saveCount _ | .saveBytes _ => True
  | _ => False

variable {D : Type} [DecidableEq D]

/-! ## Listing and reading -/

/-- `checked_add` on `usize`. -/
def checkedAdd (what : String) (a b : Nat) : Except (DraftIoError D) Nat :=
  if a + b ≤ u64Max then .ok (a + b) else .error (.overflow what)

/-- `ensure!`. -/
def ensure (condition : Prop) [Decidable condition] (e : DraftIoError D) :
    Except (DraftIoError D) Unit :=
  if condition then .ok () else .error e

def ensureCount (count : Nat) : Except (DraftIoError D) Unit :=
  ensure (count ≤ maxNamedDrafts) (.storeCount count)

/-- `json_entries`, with the paths found so far. -/
def jsonEntriesFrom (dir : D) : List OsString → List (Path D) →
    Except (DraftIoError D) (List (Path D))
  | [], paths => .ok paths
  | name :: rest, paths =>
    if name.isJson then
      if paths.length + 1 > maxNamedDrafts then .error (.storeCount (paths.length + 1))
      else jsonEntriesFrom dir rest (paths ++ [⟨dir, name⟩])
    else jsonEntriesFrom dir rest paths

/-- The names of a listing that are taken for drafts, or an error once there are too many. -/
def jsonEntries (dir : D) (listing : List OsString) : Except (DraftIoError D) (List (Path D)) :=
  jsonEntriesFrom dir listing []

/-- No more than one byte above the limit is read. -/
def readNamedDraft (files : FileStore D) (path : Path D) : Except (DraftIoError D) Bytes :=
  match files path with
  | none => .error (.reading path .notFound)
  | some file =>
    if file.readable then .ok (file.bytes.take (maxNamedDraftBytes + 1))
    else .error (.reading path .failed)

/-- The total with the bytes charged to it. -/
def chargeNamedDraftBytes (totalBytes bytes : Nat) : Except (DraftIoError D) Nat := do
  let updatedTotal ← checkedAdd "named draft byte count overflowed" totalBytes bytes
  if updatedTotal ≤ maxNamedDraftTotalBytes then .ok updatedTotal else .error .storeBytes

/-- A draft within the bound of one draft, charged to the bound of all. -/
def readBounded (files : FileStore D) (path : Path D) (totalBytes : Nat) :
    Except (DraftIoError D) (Bytes × Nat) := do
  let bytes ← readNamedDraft files path
  if bytes.length ≤ maxNamedDraftBytes then
    (chargeNamedDraftBytes totalBytes bytes.length).map fun total => (bytes, total)
  else .error (.entryBytes path)

/-! ## The migration of legacy drafts -/

/-- An error of the migration, and whether it only makes one entry stay where it is. -/
structure LegacyMigrationError (D : Type) where
  error : DraftIoError D
  recoverableEntry : Bool
deriving DecidableEq

namespace LegacyMigrationError

/-- An error that concerns one entry only. -/
def rejectedEntry (error : DraftIoError D) : LegacyMigrationError D :=
  { error := error, recoverableEntry := true }

/-- An error that ends the migration. -/
def fatal (error : DraftIoError D) : LegacyMigrationError D :=
  { error := error, recoverableEntry := false }

end LegacyMigrationError

open LegacyMigrationError

/-- The bytes, and the total that also an oversized entry is charged to. -/
def readBoundedForMigration (files : FileStore D) (path : Path D) (totalBytes : Nat) :
    Except (LegacyMigrationError D) Bytes × Nat :=
  match readNamedDraft files path with
  | .error e => (.error (rejectedEntry e), totalBytes)
  | .ok bytes =>
    match chargeNamedDraftBytes totalBytes bytes.length with
    | .error e => (.error (fatal e), totalBytes)
    | .ok total =>
      if bytes.length > maxNamedDraftBytes then (.error (rejectedEntry (.entryBytes path)), total)
      else (.ok bytes, total)

/-- The current drafts by name, and their total. -/
def readCurrent (files : FileStore D) : List (Path D) → Nat →
    Except (LegacyMigrationError D) (List (OsString × Bytes) × Nat)
  | [], totalBytes => .ok ([], totalBytes)
  | path :: rest, totalBytes =>
    match readBoundedForMigration files path totalBytes with
    | (.error e, _) => .error e
    | (.ok bytes, totalBytes) =>
      (readCurrent files rest totalBytes).map fun (current, total) =>
        ((path.fileName, bytes) :: current, total)

/-- What is to be done with one legacy draft. Without a destination it is only removed, since the
current draft of this name has the same bytes. -/
structure LegacyMigration (D : Type) where
  source : Path D
  destination : Option (Path D)
  bytes : Bytes

/-- What the loop over the legacy entries has found: the bytes read, those that will be written and
those that stay, the names that are taken in the current directory, and the migrations that are
planned, in the order of the entries. -/
structure Preflight (D : Type) where
  legacyTotalBytes : Nat := 0
  migratedBytes : Nat := 0
  preservedLegacyBytes : Nat := 0
  preservedLegacyCount : Nat := 0
  occupiedDestinations : List (Path D)
  migrations : List (LegacyMigration D) := []

/-- The UUIDs of a migration: those drawn in turn for a name that is taken, and that of the
temporary file for a source. -/
structure MigrationUuids where
  candidate : OsString → Nat → Str
  temporary : OsString → Str
  distinct : ∀ name, Function.Injective (candidate name)

/-- `legacy-{uuid}-{filename}`. -/
def candidateName (uuid : Str) (name : OsString) : OsString :=
  OsString.ofStr ("legacy-".toList ++ (uuid ++ '-' :: name.toStringLossy))

omit [DecidableEq D] in
theorem exists_free (uuids : MigrationUuids) (dir : D) (occupied : List (Path D))
    (name : OsString) : ∃ i, (⟨dir, candidateName (uuids.candidate name i) name⟩ : Path D) ∉
      occupied := by
  by_contra hall
  push Not at hall
  have hinjective : Function.Injective fun i =>
      (⟨dir, candidateName (uuids.candidate name i) name⟩ : Path D) := by
    intro i j hsame
    have hnames := OsString.ofStr_injective (congrArg Path.fileName hsame)
    exact uuids.distinct name (List.append_cancel_right (List.append_cancel_left hnames))
  exact Set.infinite_of_injective_forall_mem hinjective hall occupied.finite_toSet

/-- The loop that draws until the candidate is free. -/
def freeDestination (uuids : MigrationUuids) (dir : D) (occupied : List (Path D))
    (name : OsString) : Path D :=
  ⟨dir, candidateName (uuids.candidate name (Nat.find (exists_free uuids dir occupied name)))
    name⟩

/-- `None` when the current store has the same bytes under the name. -/
def destinationOf (uuids : MigrationUuids) (dir : D) (currentByName : List (OsString × Bytes))
    (occupied : List (Path D)) (name : OsString) (bytes : Bytes) : Option (Path D) :=
  match currentByName.lookup name with
  | some current =>
    if current = bytes then none else some (freeDestination uuids dir occupied name)
  | none => some ⟨dir, name⟩

/-- An entry that stays where it is. -/
def Preflight.preserve (preflight : Preflight D) (bytes : Nat) :
    Except (LegacyMigrationError D) (Preflight D) := do
  let preservedBytes ← (checkedAdd "named draft migration preserved byte count overflowed"
    preflight.preservedLegacyBytes bytes).mapError fatal
  let preservedCount ← (checkedAdd "named draft migration preserved count overflowed"
    preflight.preservedLegacyCount 1).mapError fatal
  .ok { preflight with
    preservedLegacyBytes := preservedBytes
    preservedLegacyCount := preservedCount }

/-- An entry that is to be migrated. -/
def Preflight.migrate (preflight : Preflight D) (source : Path D) (bytes : Bytes) :
    Option (Path D) → Except (LegacyMigrationError D) (Preflight D)
  | none => .ok { preflight with
      migrations := preflight.migrations ++ [⟨source, none, bytes⟩] }
  | some destination => do
    let migratedBytes ← (checkedAdd "named draft migration byte count overflowed"
      preflight.migratedBytes bytes.length).mapError fatal
    .ok { preflight with
      migratedBytes := migratedBytes
      occupiedDestinations := destination :: preflight.occupiedDestinations
      migrations := preflight.migrations ++ [⟨source, some destination, bytes⟩] }

/-- The loop body for one legacy entry. -/
def preflightSource (json : Json) (uuids : MigrationUuids) (files : FileStore D) (dir : D)
    (currentByName : List (OsString × Bytes)) (preflight : Preflight D) (source : Path D) :
    Except (LegacyMigrationError D) (Preflight D) :=
  match readBoundedForMigration files source preflight.legacyTotalBytes with
  | (.error e, legacyTotalBytes) =>
    if e.recoverableEntry then
      { preflight with legacyTotalBytes := legacyTotalBytes }.preserve
        (legacyTotalBytes - preflight.legacyTotalBytes)
    else .error e
  | (.ok bytes, legacyTotalBytes) =>
    match json.fromSlice bytes with
    | .error _ => { preflight with legacyTotalBytes := legacyTotalBytes }.preserve bytes.length
    | .ok _ =>
      { preflight with legacyTotalBytes := legacyTotalBytes }.migrate source bytes
        (destinationOf uuids dir currentByName preflight.occupiedDestinations source.fileName
          bytes)

/-- The count of the migrations that write a file. -/
def migratedCount (migrations : List (LegacyMigration D)) : Nat :=
  (migrations.filter fun migration => migration.destination.isSome).length

/-- The drafts of both stores as they will be after the migration. -/
def checkProjectedCount (current migrated preserved : Nat) :
    Except (LegacyMigrationError D) Unit := do
  let projectedCount ← (checkedAdd "named draft migration count overflowed" current
    migrated).mapError fatal
  let projectedCount ← (checkedAdd "named draft migration count overflowed" projectedCount
    preserved).mapError fatal
  (ensure (projectedCount ≤ maxNamedDrafts) (.migrationCount projectedCount)).mapError fatal

/-- Their bytes, likewise. -/
def checkProjectedBytes (current migrated preserved : Nat) :
    Except (LegacyMigrationError D) Unit := do
  let projectedBytes ← (checkedAdd "named draft migration projected byte count overflowed" current
    migrated).mapError fatal
  let projectedBytes ← (checkedAdd "named draft migration projected byte count overflowed"
    projectedBytes preserved).mapError fatal
  (ensure (projectedBytes ≤ maxNamedDraftTotalBytes) (.migrationBytes projectedBytes)).mapError
    fatal

/-- The first half of `migrate_legacy_named_drafts`, which reads and checks both stores. -/
def planMigration (json : Json) (uuids : MigrationUuids) (files : FileStore D) (dir legacyDir : D)
    (listing legacyListing : List OsString) :
    Except (LegacyMigrationError D) (List (LegacyMigration D)) := do
  let currentEntries ← (jsonEntries dir listing).mapError fatal
  (ensureCount currentEntries.length).mapError fatal
  let current ← readCurrent files currentEntries 0
  let legacyEntries ← (jsonEntries legacyDir legacyListing).mapError fatal
  (ensureCount legacyEntries.length).mapError fatal
  let preflight ← legacyEntries.foldlM (preflightSource json uuids files dir current.1)
    { occupiedDestinations := currentEntries }
  checkProjectedCount current.1.length (migratedCount preflight.migrations)
    preflight.preservedLegacyCount
  checkProjectedBytes current.2 preflight.migratedBytes preflight.preservedLegacyBytes
  .ok preflight.migrations

/-- The operations of a migration; those of a file are named by their source. -/
inductive MigrationOp where
  | preflight
  | ensurePrivateDirectory
  | write (source : OsString) (op : AtomicWriteOp)
  | remove (source : OsString)
deriving DecidableEq

abbrev Migration (D α : Type) := Prog MigrationOp (FileStore D) (LegacyMigrationError D) α

/-- A draft that is to be copied is written like any other, with its own temporary name. -/
def writeDestination (uuids : MigrationUuids) (migration : LegacyMigration D) :
    Migration D Unit :=
  match migration.destination with
  | none => pure ()
  | some destination =>
    ((atomicWriteDurable (uuids.temporary migration.source.fileName) destination
      migration.bytes).relabel (.write migration.source.fileName)).mapError
        fun e => fatal (.file e)

/-- The loop body of the second half. -/
def carryOut (uuids : MigrationUuids) (migration : LegacyMigration D) : Migration D Unit := do
  writeDestination uuids migration
  (removeFileIfPresent (.remove migration.source.fileName) migration.source).mapError
    fun e => fatal (.file e)

/-- The directory is made only if something is written to it. -/
def ensureDirectory (migrated : Nat) : Migration D Unit :=
  if migrated > 0 then
    (FileStore.untouched .ensurePrivateDirectory).mapError fun e => fatal (.file (.io e))
  else pure ()

/-- A directory that cannot be listed fails the preflight. -/
def migrateLegacyNamedDrafts (json : Json) (uuids : MigrationUuids) (dir legacyDir : D)
    (listing legacyListing : List OsString) : Migration D Nat := do
  let migrations ← Prog.op .preflight (fatal (.listing dir))
    (fun files => (planMigration json uuids files dir legacyDir listing legacyListing).map
      fun migrations => (migrations, files))
    fun files _ => files
  ensureDirectory (migratedCount migrations)
  Prog.forEach (carryOut uuids) migrations
  pure (migratedCount migrations)

/-! ## The scan -/

/-- Why the scan leaves an entry out. -/
inductive Rejection (D : Type) where
  | notRegularFile
  | metadata (e : IoError)
  | unreadable (e : DraftIoError D)
  | oversized
  | json (e : String)

/-- A draft of the list. -/
structure NamedDraftEntry (D : Type) where
  modified : Option Nat
  path : Path D
  fields : ComposeFields

/-- What a scan has found so far. The names and bytes that were seen tell a legacy draft from one
that is there twice. -/
structure NamedDraftScan (D : Type) where
  drafts : List (NamedDraftEntry D) := []
  warnings : List (Path D × Rejection D) := []
  totalBytes : Nat := 0
  seen : List (OsString × Bytes) := []

/-- A file that is no draft is a warning, and the scan goes on. -/
def NamedDraftScan.reject (scan : NamedDraftScan D) (path : Path D) (why : Rejection D) :
    NamedDraftScan D :=
  { scan with warnings := scan.warnings ++ [(path, why)] }

/-- What becomes of an entry that has been read and charged. -/
def NamedDraftScan.take (json : Json) (modified : Path D → Option Nat) (scan : NamedDraftScan D)
    (path : Path D) (bytes : Bytes) : NamedDraftScan D :=
  if bytes.length > maxNamedDraftBytes then scan.reject path .oversized
  else
    match json.fromSlice bytes with
    | .error e => scan.reject path (.json e)
    | .ok fields =>
      if (path.fileName, bytes) ∈ scan.seen then scan
      else { scan with
        seen := (path.fileName, bytes) :: scan.seen
        drafts := scan.drafts ++ [⟨modified path, path, fields⟩] }

/-- The loop body for one entry. -/
def scanEntry (json : Json) (modified : Path D → Option Nat) (files : FileStore D)
    (scan : NamedDraftScan D) (path : Path D) : Except (DraftIoError D) (NamedDraftScan D) :=
  match files path with
  | none => .ok (scan.reject path (.metadata .notFound))
  | some file =>
    if ¬ file.regular then .ok (scan.reject path .notRegularFile)
    else
      match readNamedDraft files path with
      | .error e => .ok (scan.reject path (.unreadable e))
      | .ok bytes => do
        let totalBytes ← chargeNamedDraftBytes scan.totalBytes bytes.length
        .ok ({ scan with totalBytes := totalBytes }.take json modified path bytes)

/-- `None` sorts before every time. -/
def modifiedAfter (a b : NamedDraftEntry D) : Bool :=
  match a.modified, b.modified with
  | _, none => true
  | none, some _ => false
  | some s, some t => t ≤ s

/-- The entries of the legacy directory, if there is one. -/
def legacyEntries (legacy : Option (D × List OsString)) :
    Except (DraftIoError D) (List (Path D)) :=
  match legacy with
  | none => .ok []
  | some (legacyDir, listing) => jsonEntries legacyDir listing

/-- The drafts, newest first, and the entries left out. -/
def scanNamedDrafts (json : Json) (modified : Path D → Option Nat) (files : FileStore D) (dir : D)
    (listing : List OsString) (legacy : Option (D × List OsString)) :
    Except (DraftIoError D) (List (NamedDraftEntry D) × List (Path D × Rejection D)) := do
  let paths ← jsonEntries dir listing
  let legacyPaths ← legacyEntries legacy
  ensureCount (paths ++ legacyPaths).length
  let scan ← (paths ++ legacyPaths).foldlM (scanEntry json modified files) {}
  .ok (scan.drafts.mergeSort modifiedAfter, scan.warnings)

/-! ## Saving -/

/-- The checks of the draft that a save replaces. -/
def checkReplacement (files : FileStore D) (dir : D) (paths : List (Path D)) :
    Option (Path D) → Except (DraftIoError D) Unit
  | none => .ok ()
  | some path =>
    if ¬ (path.parent = dir ∧ path.fileName.isJson ∧ path ∈ paths) then
      .error (.replacementMissing path)
    else
      match files path with
      | none => .error (.reading path .notFound)
      | some file => if file.regular then .ok () else .error (.replacementNotFile path)

/-- The total of the current entries, and the bytes that the save replaces. -/
def chargeCurrent (files : FileStore D) (replacement : Option (Path D)) :
    List (Path D) → Nat → Nat → Except (DraftIoError D) (Nat × Nat)
  | [], totalBytes, replacedBytes => .ok (totalBytes, replacedBytes)
  | path :: rest, totalBytes, replacedBytes => do
    let read ← readBounded files path totalBytes
    chargeCurrent files replacement rest read.2
      (if replacement = some path then read.1.length else replacedBytes)

/-- A legacy entry that cannot be read is not charged. -/
def chargeLegacy (files : FileStore D) (totalBytes : Nat) (path : Path D) :
    Except (DraftIoError D) Nat :=
  match readNamedDraft files path with
  | .error _ => .ok totalBytes
  | .ok bytes => chargeNamedDraftBytes totalBytes bytes.length

/-- `checked_sub` of what is replaced and `checked_add` of what is saved. -/
def projectedBytes (totalBytes replacedBytes serializedBytes : Nat) :
    Except (DraftIoError D) Nat :=
  if replacedBytes ≤ totalBytes then
    checkedAdd "named draft projected byte count overflowed" (totalBytes - replacedBytes)
      serializedBytes
  else .error (.overflow "named draft projected byte count overflowed")

/-- Whether the stores have room for a draft, before it is written. The legacy directory counts only
if it is another one than the current. -/
def ensureNamedDraftSaveFits (files : FileStore D) (dir : D) (listing : List OsString)
    (legacy : Option (D × List OsString)) (replacement : Option (Path D))
    (serializedBytes : Nat) : Except (DraftIoError D) Unit := do
  ensure (serializedBytes ≤ maxNamedDraftBytes) (.serializedBytes serializedBytes)
  let paths ← jsonEntries dir listing
  let legacyPaths ← legacyEntries (legacy.filter fun l => l.1 ≠ dir)
  let existingCount ← checkedAdd "named draft count overflowed" paths.length legacyPaths.length
  ensureCount existingCount
  checkReplacement files dir paths replacement
  let projectedCount ← checkedAdd "named draft count overflowed" existingCount
    (if replacement.isNone then 1 else 0)
  ensure (projectedCount ≤ maxNamedDrafts) (.saveCount projectedCount)
  let current ← chargeCurrent files replacement paths 0 0
  let totalBytes ← legacyPaths.foldlM (chargeLegacy files) current.1
  let projected ← projectedBytes totalBytes current.2 serializedBytes
  ensure (projected ≤ maxNamedDraftTotalBytes) (.saveBytes projected)

/-- `widget_token`: letters and digits in lower case, and hyphens for the rest. -/
def widgetToken (value : Str) : Str :=
  let token := value.map fun c => if isAsciiAlphanumeric c.toNat then asciiLower c else '-'
  (token.dropWhile (· = '-')).rdropWhile (· = '-')

/-- `{stamp}-{slug}-{uuid}.json`. -/
def newDraftName (stamp : Str) (subject : Str) (uuid : Str) : OsString :=
  let slug := widgetToken subject
  let slug := if slug = [] then "untitled".toList else slug.take 32
  OsString.ofStr (stamp ++ '-' :: slug ++ '-' :: uuid) ++ OsString.ofStr ".json".toList

/-- The operations of a save. -/
inductive SaveOp where
  | preflight
  | ensurePrivateDirectory
  | write (op : AtomicWriteOp)
deriving DecidableEq

/-- What a save draws from outside: the time, and the UUIDs of the draft's name and of the
temporary file. -/
structure SaveNames where
  stamp : Str
  uuid : Str
  temporary : Str

/-- The path that a save writes. -/
def savePath (names : SaveNames) (dir : D) (fields : ComposeFields)
    (replacement : Option (Path D)) :
    Path D :=
  replacement.getD ⟨dir, newDraftName names.stamp fields.subject names.uuid⟩

/-- The checks before anything is written: the bytes of the draft, when they fit. -/
def checkSave (json : Json) (files : FileStore D) (dir : D) (listing : List OsString)
    (legacy : Option (D × List OsString)) (fields : ComposeFields)
    (replacement : Option (Path D)) : Except (DraftIoError D) Bytes := do
  ensure (fieldsHasContent fields) .noContent
  let bytes ← (json.toVecPretty fields).mapError .json
  ensureNamedDraftSaveFits files dir listing legacy replacement bytes.length
  .ok bytes

/-- A directory that cannot be listed fails the preflight. -/
def saveNamedDraftFields (json : Json) (names : SaveNames) (dir : D) (listing : List OsString)
    (legacy : Option (D × List OsString)) (fields : ComposeFields)
    (replacement : Option (Path D)) :
    Prog SaveOp (FileStore D) (DraftIoError D) (Path D) := do
  let bytes ← Prog.op .preflight (.listing dir)
    (fun files => (checkSave json files dir listing legacy fields replacement).map
      fun bytes => (bytes, files))
    fun files _ => files
  (FileStore.untouched .ensurePrivateDirectory).mapError fun e => .file (.io e)
  let path := savePath names dir fields replacement
  ((atomicWriteDurable names.temporary path bytes).relabel .write).mapError .file
  pure path

end Notm.Ui
