import Mathlib
import Notm.Lib.Crash
import Notm.Lib.OsString

/-!
# The files of the drafts

Files by path, and the operations that the draft code applies to them. An operation can fail or be
the last of the process; one that writes can then leave a part of the bytes behind. The stores hold
files and directories only: an entry that is a symbolic link, which the code would follow when it
reads and leave alone when it removes, is outside the model.

`atomicWriteDurable` writes a temporary file beside its target and renames it over the target, so
that the target holds its old bytes or the new ones, wherever the write ends.

* `meets_atomicWriteDurable` — wherever an atomic write ends, what its target can hold.
* `meets_removeFileIfPresent` — a removal passes on a file that is not there.
* `isJson_temporaryName` — what a write leaves beside its target is never taken for a draft.
-/

namespace Notm.Ui

open Rust Crash

/-- A file name in a directory of `D`. -/
structure Path (D : Type) where
  parent : D
  fileName : OsString
deriving DecidableEq

instance {D : Type} [DecidableEq D] : LawfulBEq (Path D) := inferInstance

/-- What stands at a path: a directory is no regular file and cannot be read. No entry is a link, so
two paths never name one file. -/
structure DraftFile where
  bytes : Bytes
  regular : Bool := true
  readable : Bool := true
deriving DecidableEq

abbrev FileStore (D : Type) := Path D → Option DraftFile

inductive IoError where
  | notFound
  | alreadyExists
  | failed
deriving DecidableEq

/-- The errors of the file functions, with what their texts name. -/
inductive FileError (D : Type) where
  | io (e : IoError)
  | writing (path : Path D) (e : IoError)
  | removing (path : Path D) (e : IoError)
deriving DecidableEq

variable {D : Type} [DecidableEq D] {L ε : Type}

namespace FileStore

/-- An operation that leaves the files as they are: a directory that is made, permissions, a
synchronisation with the disk. -/
def untouched (label : L) : Prog L (FileStore D) IoError Unit :=
  .op label .failed (fun files => .ok ((), files)) fun files _ => files

/-- `OpenOptions::create_new`. -/
def createNew (label : L) (path : Path D) : Prog L (FileStore D) IoError Unit :=
  .op label .failed
    (fun files =>
      if (files path).isSome then .error .alreadyExists
      else .ok ((), Function.update files path (some { bytes := [] })))
    fun files _ => files

/-- `write_all` to a new file. -/
def writeAll (label : L) (path : Path D) (bytes : Bytes) : Prog L (FileStore D) IoError Unit :=
  .op label .failed
    (fun files => .ok ((), Function.update files path (some { bytes := bytes })))
    fun files n => Function.update files path (some { bytes := bytes.take n })

/-- `fs::rename`. -/
def rename (label : L) (source target : Path D) : Prog L (FileStore D) IoError Unit :=
  .op label .failed
    (fun files =>
      match files source with
      | none => .error .notFound
      | some file =>
        .ok ((), Function.update (Function.update files target (some file)) source none))
    fun files _ => files

/-- `fs::remove_file`. -/
def removeFile (label : L) (path : Path D) : Prog L (FileStore D) IoError Unit :=
  .op label .failed
    (fun files =>
      match files path with
      | none => .error .notFound
      | some _ => .ok ((), Function.update files path none))
    fun files _ => files

end FileStore

open FileStore

/-! ## Atomic writes -/

inductive AtomicWriteOp where
  | ensurePrivateDirectory
  | create
  | setPermissions
  | writeAll
  | syncAll
  | rename
  | syncDirectory
  | cleanUp
deriving DecidableEq

/-- `.{filename}.{uuid}.tmp`. -/
def temporaryName (fileName : OsString) (uuid : Str) : OsString :=
  let name := (fileName.toStr).getD "notm-state".toList
  OsString.ofStr ('.' :: name ++ '.' :: uuid) ++ OsString.ofStr ".tmp".toList

/-- The part of the write that is cleaned up after. -/
def writeAndRename (temporaryPath path : Path D) (bytes : Bytes) :
    Prog AtomicWriteOp (FileStore D) IoError Unit := do
  createNew .create temporaryPath
  untouched .setPermissions
  FileStore.writeAll .writeAll temporaryPath bytes
  untouched .syncAll
  FileStore.rename .rename temporaryPath path
  untouched .syncDirectory

def atomicWriteDurable (uuid : Str) (path : Path D) (bytes : Bytes) :
    Prog AtomicWriteOp (FileStore D) (FileError D) Unit := do
  (untouched .ensurePrivateDirectory).mapError .io
  let temporaryPath := { path with fileName := temporaryName path.fileName uuid }
  let result ← (writeAndRename temporaryPath path bytes).attempt
  match result with
  | .ok () => pure ()
  | .error e => do
    let _ ← (removeFile .cleanUp temporaryPath).attempt
    .raise (.writing path e)

def removeFileIfPresent (label : L) (path : Path D) : Prog L (FileStore D) (FileError D) Unit := do
  let result ← (removeFile label path).attempt
  match result with
  | .ok () => pure ()
  | .error .notFound => pure ()
  | .error e => .raise (.removing path e)

/-! ## What they guarantee -/

omit [DecidableEq D] in
/-- A temporary file is none of the drafts. -/
theorem isJson_temporaryName (fileName : OsString) (uuid : Str) :
    OsString.isJson (temporaryName fileName uuid) = false := by
  have hending : OsString.ofStr ".tmp".toList =
      OsString.ofStr ".tm".toList ++ [OsUnit.char 'p'] := by decide
  unfold temporaryName
  rw [hending, ← List.append_assoc]
  exact OsString.isJson_concat_of_ne (by decide)

section Specifications

variable {files : FileStore D} {temporaryPath path : Path D} {bytes : Bytes}
  {faults : AtomicWriteOp → Fault}

/-- `after` is `files` but for the temporary file and, once renamed, the target. -/
structure WriteBegun (files after : FileStore D) (temporaryPath path : Path D)
    (bytes : Bytes) : Prop
    where
  frame : ∀ p, p ≠ temporaryPath → p ≠ path → after p = files p
  target : after path = files path ∨ after path = some { bytes := bytes }

omit [DecidableEq D] in
theorem writeBegun_refl : WriteBegun files files temporaryPath path bytes :=
  ⟨fun _ _ _ => rfl, Or.inl rfl⟩

/-- What happens to the temporary file alone. -/
theorem WriteBegun.update_temporary {after : FileStore D} (hne : temporaryPath ≠ path)
    (h : WriteBegun files after temporaryPath path bytes) (file : Option DraftFile) :
    WriteBegun files (Function.update after temporaryPath file) temporaryPath path bytes where
  frame p hp hpath := by
    rw [Function.update_of_ne hp]
    exact h.frame p hp hpath
  target := by
    rw [Function.update_of_ne hne.symm]
    exact h.target

/-- The state after the rename. -/
def renamed (files : FileStore D) (path : Path D) (bytes : Bytes) : FileStore D :=
  Function.update files path (some { bytes := bytes })

theorem writeBegun_renamed : WriteBegun files (renamed files path bytes) temporaryPath path bytes
    where
  frame _ _ hpath := Function.update_of_ne hpath _ _
  target := Or.inr (Function.update_self path _ files)

omit [DecidableEq D] in
theorem meets_untouched {L : Type} {faults : L → Fault} {label : L} :
    Meets (fun _ t => t = files) (fun _ t => t = files) (fun t => t = files)
      ((untouched label : Prog L (FileStore D) IoError Unit) faults files) := by
  apply Prog.meets_op
  · intro _ t heffect
    cases heffect
    rfl
  · intro e heffect
    cases heffect
  · exact fun _ => rfl
  · exact fun _ => rfl

theorem meets_removeFile {L : Type} {faults : L → Fault} {label : L} :
    Meets (fun _ t => t = Function.update files path none) (fun _ t => t = files)
      (fun t => t = files) (removeFile label path faults files) := by
  apply Prog.meets_op
  · intro _ t heffect
    cases hfile : files path with
    | none =>
      rw [hfile] at heffect
      cases heffect
    | some file =>
      rw [hfile] at heffect
      cases heffect
      rfl
  · intro e _
    rfl
  · exact fun _ => rfl
  · exact fun _ => rfl

/-- The target is replaced at the rename and not before. -/
theorem meets_writeAndRename (hne : temporaryPath ≠ path) :
    Meets (fun _ t => t = renamed files path bytes)
      (fun _ t => WriteBegun files t temporaryPath path bytes)
      (fun t => WriteBegun files t temporaryPath path bytes)
      (writeAndRename temporaryPath path bytes faults files) := by
  have hbegun : ∀ file : Option DraftFile,
      WriteBegun files (Function.update files temporaryPath file) temporaryPath path bytes :=
    fun file => writeBegun_refl.update_temporary hne file
  unfold writeAndRename
  apply Prog.meets_andThen (Q := fun _ t => files temporaryPath = none ∧
    t = Function.update files temporaryPath (some { bytes := [] }))
  · apply Prog.meets_op
    · intro _ t heffect
      split at heffect
      · cases heffect
      · rename_i hfree
        cases heffect
        exact ⟨Option.not_isSome_iff_eq_none.1 hfree, rfl⟩
    · exact fun _ _ => writeBegun_refl
    · exact fun _ => writeBegun_refl
    · exact fun _ => writeBegun_refl
  rintro - t ⟨hfree, rfl⟩
  apply Prog.meets_andThen
  · apply meets_untouched.mono
    · exact fun _ t ht => ht
    · rintro - t rfl
      exact hbegun _
    · rintro t rfl
      exact hbegun _
  rintro - t rfl
  apply Prog.meets_andThen (Q := fun _ t => t =
    Function.update files temporaryPath (some { bytes := bytes }))
  · apply Prog.meets_op
    · intro _ t heffect
      cases heffect
      exact Function.update_idem _ _ files
    · intro e heffect
      cases heffect
    · intro n
      rw [Function.update_idem]
      exact hbegun _
    · intro n
      rw [Function.update_idem]
      exact hbegun _
  rintro - t rfl
  apply Prog.meets_andThen
  · apply meets_untouched.mono
    · exact fun _ t ht => ht
    · rintro - t rfl
      exact hbegun _
    · rintro t rfl
      exact hbegun _
  rintro - t rfl
  apply Prog.meets_andThen (Q := fun _ t => t = renamed files path bytes)
  · apply Prog.meets_op
    · intro _ t heffect
      rw [Function.update_self] at heffect
      cases heffect
      -- the temporary name was free before, and is again
      funext p
      by_cases htemporary : p = temporaryPath
      · rw [htemporary, Function.update_self, renamed, Function.update_of_ne hne, hfree]
      · rw [Function.update_of_ne htemporary]
        by_cases hpath : p = path
        · rw [hpath, Function.update_self, renamed, Function.update_self]
        · rw [Function.update_of_ne hpath, Function.update_of_ne htemporary, renamed,
            Function.update_of_ne hpath]
    · exact fun _ _ => hbegun _
    · exact fun _ => hbegun _
    · exact fun _ => hbegun _
  rintro - t rfl
  apply meets_untouched.mono
  · exact fun _ t ht => ht
  · rintro - t rfl
    exact writeBegun_renamed
  · rintro t rfl
    exact writeBegun_renamed

omit [DecidableEq D] in
theorem temporaryPath_ne {path : Path D} {uuid : Str} (hjson : path.fileName.isJson = true) :
    ({ path with fileName := temporaryName path.fileName uuid } : Path D) ≠ path := by
  intro hsame
  have hname : temporaryName path.fileName uuid = path.fileName := congrArg Path.fileName hsame
  have htemporary := isJson_temporaryName path.fileName uuid
  rw [hname, hjson] at htemporary
  cases htemporary

/-- A write that returns has replaced its target and nothing else; any other end leaves the target
with its old bytes or the new ones, and changes the temporary file at most besides. -/
theorem meets_atomicWriteDurable {uuid : Str} (hjson : path.fileName.isJson = true) :
    Meets (fun _ t => t = renamed files path bytes)
      (fun _ t => WriteBegun files t { path with fileName := temporaryName path.fileName uuid }
        path bytes)
      (fun t => WriteBegun files t { path with fileName := temporaryName path.fileName uuid }
        path bytes)
      (atomicWriteDurable uuid path bytes faults files) := by
  have hne : ({ path with fileName := temporaryName path.fileName uuid } : Path D) ≠ path :=
    temporaryPath_ne hjson
  unfold atomicWriteDurable
  apply Prog.meets_andThen (Q := fun _ t => t = files)
  · apply Prog.meets_mapError
    apply meets_untouched.mono
    · exact fun _ t ht => ht
    · intro _ t ht
      rw [ht]
      exact writeBegun_refl
    · intro t ht
      rw [ht]
      exact writeBegun_refl
  intro _ t ht
  rw [ht]
  -- Renaming is the last thing that can change the target, so that a failure keeps either content.
  apply Prog.meets_andThen (Q := fun result t => match result with
    | .ok _ => t = renamed files path bytes
    | .error _ => WriteBegun files t { path with fileName := temporaryName path.fileName uuid }
        path bytes)
  · exact Prog.meets_attempt (meets_writeAndRename hne)
  · intro result t ht
    cases result with
    | ok _ => exact ht
    | error e =>
      apply Prog.meets_andThen (Q := fun _ t => WriteBegun files t
        { path with fileName := temporaryName path.fileName uuid } path bytes)
      · -- The clean-up after a failure touches only the temporary file, and its own result is
        -- ignored.
        apply Prog.meets_attempt
        apply meets_removeFile.mono
        · intro _ t' ht'
          rw [ht']
          exact ht.update_temporary hne none
        · intro _ t' ht'
          rw [ht']
          exact ht
        · intro t' ht'
          rw [ht']
          exact ht
      · exact fun _ t' ht' => ht'

theorem meets_removeFileIfPresent {L : Type} {faults : L → Fault} {label : L} :
    Meets (fun _ t => t = Function.update files path none) (fun _ t => t = files)
      (fun t => t = files) (removeFileIfPresent label path faults files) := by
  have hremoved : Meets (fun result t => match result with
      | .ok _ => t = Function.update files path none
      | .error .notFound => t = Function.update files path none
      | .error _ => t = files)
      (fun _ t => t = files) (fun t => t = files)
      (((removeFile label path).attempt : Prog L (FileStore D) (FileError D) _) faults files) := by
    apply Prog.meets_attempt
    apply Prog.meets_op
    · intro _ t heffect
      cases hfile : files path with
      | none =>
        rw [hfile] at heffect
        cases heffect
      | some file =>
        rw [hfile] at heffect
        cases heffect
        rfl
    · intro e heffect
      cases hfile : files path with
      | none =>
        rw [hfile] at heffect
        cases heffect
        show files = Function.update files path none
        rw [← hfile, Function.update_eq_self]
      | some file =>
        rw [hfile] at heffect
        cases heffect
    · exact fun _ => rfl
    · exact fun _ => rfl
  unfold removeFileIfPresent
  apply Prog.meets_andThen hremoved
  -- A file that is missing already is as good as one that has been removed.
  intro result t ht
  cases result with
  | ok _ => exact ht
  | error e =>
    cases e with
    | notFound => exact ht
    | alreadyExists => exact ht
    | failed => exact ht

end Specifications

end Notm.Ui
