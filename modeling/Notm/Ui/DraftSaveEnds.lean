import Notm.Ui.DraftSave
import Notm.Ui.NamedDraftLimits

/-!
# How the steps of a save end

What each part of a save leaves behind, by the operations that fail in it. For each part there is a
function from the faults to the way it ends, and a theorem that its run ends so:

* `deletionOf` and `meets_deleteDraftSource` for the deletion of a copy, where a commit that fails
  is not reported: the copy then loses its file and keeps its entry (`Deletion.stale`);
* `storing` and `meets_persistDraftMessage` for a message of the Maildir, whose entry may likewise
  be missing although the step has passed (`persisted`);
* `atomicEndOf`, `namedEndOf` and `meets_saveNamedDraftFields_ends` for a named draft.
-/

namespace Notm.Ui

open Rust Crash

variable {M : Type} {store : DraftStore} {faults : DraftSaveOp → Fault}

/-! ## Single operations -/

theorem follows_quiet {L ε : Type} {faults : L → Fault} {label : L} {failure : ε} :
    Follows faults [label] (fun _ t => t = store) (fun t => t = store)
      ((quiet label failure : Prog L DraftStore ε Unit) faults store) :=
  Follows.op rfl rfl fun _ => rfl

theorem endsBy_onFiles {L ε α : Type} {faults : L → Fault} {fault : Fault}
    {p : Prog L (FileStore Dir) ε α} {Q : α → FileStore Dir → Prop} {E : FileStore Dir → Prop}
    (h : EndsBy fault Q E (p faults store.files)) :
    EndsBy fault (fun a t => ∃ files, Q a files ∧ t = { store with files := files })
      (fun t => ∃ files, E files ∧ t = { store with files := files })
      (onFiles p faults store) := by
  apply Prog.meets_zoom
  apply Meets.mono h
  · exact fun a files hQ => ⟨hQ.1, files, hQ.2, rfl⟩
  · exact fun _ files hE => ⟨hE.1, files, hE.2, rfl⟩
  · exact fun files hE => ⟨hE.1, files, hE.2, rfl⟩

theorem follows_onFiles {L ε α : Type} {faults : L → Fault} {labels : List L}
    {p : Prog L (FileStore Dir) ε α} {Q : α → FileStore Dir → Prop} {E : FileStore Dir → Prop}
    (h : Follows faults labels Q E (p faults store.files)) :
    Follows faults labels (fun a t => ∃ files, Q a files ∧ t = { store with files := files })
      (fun t => ∃ files, E files ∧ t = { store with files := files })
      (onFiles p faults store) := endsBy_onFiles h

theorem commits_onFiles {L ε α : Type} {faults : L → Fault} {before after : List L}
    {p : Prog L (FileStore Dir) ε α} {Q : α → FileStore Dir → Prop} {E E' : FileStore Dir → Prop}
    (h : Commits faults before after Q E E' (p faults store.files)) :
    Commits faults before after
      (fun a t => ∃ files, Q a files ∧ t = { store with files := files })
      (fun t => ∃ files, E files ∧ t = { store with files := files })
      (fun t => ∃ files, E' files ∧ t = { store with files := files })
      (onFiles p faults store) := by
  apply Prog.meets_zoom
  apply Meets.mono h
  · exact fun a files hQ => ⟨hQ.1, hQ.2.1, files, hQ.2.2, rfl⟩
  · exact fun _ files hE => hE.imp (And.imp_right fun hE => ⟨files, hE, rfl⟩)
      (And.imp_right (And.imp_right fun hE => ⟨files, hE, rfl⟩))
  · exact fun files hE => hE.imp (And.imp_right fun hE => ⟨files, hE, rfl⟩)
      (And.imp_right (And.imp_right fun hE => ⟨files, hE, rfl⟩))

/-! ## Deleting a copy -/

/-- How the deletion of a copy ends.

* `overlooked`: the metadata of the file cannot be read, so that the file stays and no error is
  returned;
* `stale`: the file is gone, but the commit has failed and the index still has its entry, and no
  error is returned either;
* `refused`: an error, and nothing has changed;
* `halfDone`: an error, and the file stays without its entry. -/
inductive Deletion where
  | done
  | overlooked
  | stale
  | refused
  | halfDone
  | stopped
deriving DecidableEq

/-- How the removal of the entry ends, which only an indexed copy has. -/
def unindexing (faults : DraftSaveOp → Fault) (copy : DraftCopy) (indexed : Bool) : Fault :=
  if indexed then
    (faults (.delete copy .openDatabase)).andThen
      ((faults (.delete copy .removeMessage)).session (faults (.delete copy .closeDatabase)))
  else .passes

/-- The entry is gone for good: there was one, and its removal has been committed. -/
def entryRemoved (faults : DraftSaveOp → Fault) (copy : DraftCopy) (indexed : Bool) : Bool :=
  indexed && faults (.delete copy .closeDatabase) = .passes

/-- How the deletion ends, by the operations in their order: the entry, the look at the file, its
removal. -/
def deletionOf (faults : DraftSaveOp → Fault) (copy : DraftCopy) (indexed : Bool) : Deletion :=
  match unindexing faults copy indexed with
  | .fails _ => .refused
  | .stops _ => .stopped
  | .passes =>
    match faults (.delete copy .metadata) with
    | .fails _ => .overlooked
    | .stops _ => .stopped
    | .passes =>
      match faults (.delete copy .removeFile) with
      | .passes => if indexed && !entryRemoved faults copy indexed then .stale else .done
      | .fails _ => if entryRemoved faults copy indexed then .halfDone else .refused
      | .stops _ => .stopped

def withoutEntry (store : DraftStore) (path : Path Dir) : DraftStore :=
  { store with indexed := Function.update store.indexed path false }

def withoutFile (store : DraftStore) (path : Path Dir) : DraftStore :=
  { store with files := Function.update store.files path none }

/-- The index without the copy. -/
def unindexed (store : DraftStore) (draft : ActiveDraft) : DraftStore :=
  if draft.indexed then withoutEntry store draft.path else store

/-- The copy is gone. -/
def deleted (store : DraftStore) (draft : ActiveDraft) : DraftStore :=
  withoutFile (unindexed store draft) draft.path

theorem files_unindexed (store : DraftStore) (draft : ActiveDraft) :
    (unindexed store draft).files = store.files := by
  unfold unindexed
  split
  · rfl
  · rfl

theorem indexed_unindexed_of_ne {draft : ActiveDraft} {path : Path Dir} (hne : path ≠ draft.path) :
    (unindexed store draft).indexed path = store.indexed path := by
  unfold unindexed
  split
  · exact Function.update_of_ne hne _ _
  · rfl

theorem files_deleted (store : DraftStore) (draft : ActiveDraft) :
    (deleted store draft).files = Function.update store.files draft.path none := by
  show Function.update (unindexed store draft).files draft.path none = _
  rw [files_unindexed]

/-- What the removal of the entry leaves when it passes. -/
def afterUnindexing (faults : DraftSaveOp → Fault) (store : DraftStore) (copy : DraftCopy)
    (draft : ActiveDraft) : DraftStore :=
  if entryRemoved faults copy draft.indexed then withoutEntry store draft.path else store

theorem files_afterUnindexing (copy : DraftCopy) (draft : ActiveDraft) :
    (afterUnindexing faults store copy draft).files = store.files := by
  unfold afterUnindexing
  split
  · rfl
  · rfl

/-- The removal of an entry passes whether or not it is committed. -/
theorem endsBy_unindexSource {copy : DraftCopy} {draft : ActiveDraft} :
    EndsBy (unindexing faults copy draft.indexed)
      (fun _ t => t = afterUnindexing faults store copy draft) (fun t => t = store)
      (unindexSource copy draft faults store) := by
  unfold unindexing unindexSource
  cases hindexed : draft.indexed with
  | false =>
    refine ⟨rfl, ?_⟩
    unfold afterUnindexing entryRemoved
    rw [hindexed]
    rfl
  | true =>
    have hopened : EndsBy (faults (.delete copy .openDatabase)) (fun _ t => t = store)
        (fun t => t = store) ((quiet (.delete copy .openDatabase) .database :
          Prog DraftSaveOp DraftStore DeleteError Unit) faults store) := follows_quiet.endsBy
    have hremoved : EndsBy (faults (.delete copy .removeMessage))
        (fun _ t => t = withoutEntry store draft.path) (fun t => t = store)
        (removeMessageFile copy draft.path faults store) := EndsBy.op rfl rfl fun _ => rfl
    have hlose : ∀ t : DraftStore, t = store → uncommitted store t = store := by
      rintro t rfl
      rfl
    have hlost : ∀ (_ : Unit) (t : DraftStore), t = withoutEntry store draft.path →
        uncommitted store t = store := by
      rintro _ t rfl
      rfl
    apply EndsBy.andThen hopened
    rintro _ t rfl
    apply (hremoved.session hlose hlost).mono
    · unfold afterUnindexing entryRemoved
      rw [hindexed]
      rintro _ t (⟨hcommitted, ht⟩ | ⟨⟨n, hfailed⟩, u, hu, ht⟩)
      · rw [hcommitted]
        exact ht
      · rw [hfailed]
        exact ht.trans (hlost () u hu)
    · exact fun _ ht => ht

/-- A file whose metadata cannot be read is taken for missing. -/
theorem meets_pathExists {L ε : Type} {faults : L → Fault} {label : L} {path : Path Dir}
    (hfile : (store.files path).isSome = true) :
    Meets (fun found t => t = store ∧ (found = true ∧ faults label = .passes ∨
        found = false ∧ ∃ n, faults label = .fails n))
      (fun _ _ => False) (fun t => t = store ∧ ∃ n, faults label = .stops n)
      ((pathExists label path : Prog L DraftStore ε Bool) faults store) := by
  unfold pathExists
  apply Prog.meets_andThen (Q := fun found t => t = store ∧
    (found = .ok true ∧ faults label = .passes ∨
      (∃ e, found = .error e) ∧ ∃ n, faults label = .fails n))
  · apply Prog.meets_attempt
    have hread : EndsBy (faults label) (fun found t => found = true ∧ t = store)
        (fun t => t = store) (Prog.op label IoError.failed
          (fun store : DraftStore => .ok ((store.files path).isSome, store))
          (fun store _ => store) faults store) :=
      EndsBy.op rfl ⟨hfile, rfl⟩ fun _ => rfl
    apply Meets.mono hread
    · rintro found t ⟨hfault, hfound, ht⟩
      exact ⟨ht, Or.inl ⟨by rw [hfound], hfault⟩⟩
    · rintro e t ⟨hfault, ht⟩
      exact ⟨ht, Or.inr ⟨⟨e, rfl⟩, hfault⟩⟩
    · exact fun t ht => ht.symm
  · rintro found t ⟨ht, ⟨hfound, hfault⟩ | ⟨⟨e, hfound⟩, hfault⟩⟩
    · rw [hfound]
      exact ⟨ht, Or.inl ⟨rfl, hfault⟩⟩
    · rw [hfound]
      exact ⟨ht, Or.inr ⟨rfl, hfault⟩⟩

/-- What the removal of the file leaves of what the removal of the entry has left. -/
theorem deletionOf_of_found (store : DraftStore) {copy : DraftCopy} {draft : ActiveDraft}
    (hunindexed : unindexing faults copy draft.indexed = .passes)
    (hmetadata : faults (.delete copy .metadata) = .passes) :
    (faults (.delete copy .removeFile) = .passes →
      deletionOf faults copy draft.indexed = .done ∧
          withoutFile (afterUnindexing faults store copy draft) draft.path = deleted store draft ∨
        deletionOf faults copy draft.indexed = .stale ∧ draft.indexed = true ∧
          withoutFile (afterUnindexing faults store copy draft) draft.path =
            withoutFile store draft.path) ∧
    ((∃ n, faults (.delete copy .removeFile) = .fails n) →
      deletionOf faults copy draft.indexed = .refused ∧
          afterUnindexing faults store copy draft = store ∨
        deletionOf faults copy draft.indexed = .halfDone ∧ draft.indexed = true ∧
          afterUnindexing faults store copy draft = unindexed store draft) := by
  unfold deletionOf
  rw [hunindexed, hmetadata]
  unfold afterUnindexing deleted unindexed
  cases hremoved : entryRemoved faults copy draft.indexed with
  | true =>
    have hindexed : draft.indexed = true := (Bool.and_eq_true_iff.1 hremoved).1
    rw [hindexed]
    constructor
    · intro hfile
      rw [hfile]
      exact Or.inl ⟨rfl, rfl⟩
    · rintro ⟨n, hfile⟩
      rw [hfile]
      exact Or.inr ⟨rfl, rfl, rfl⟩
  | false =>
    constructor
    · intro hfile
      rw [hfile]
      cases hindexed : draft.indexed with
      | true => exact Or.inr ⟨rfl, rfl, rfl⟩
      | false => exact Or.inl ⟨rfl, rfl⟩
    · rintro ⟨n, hfile⟩
      rw [hfile]
      exact Or.inl ⟨rfl, rfl⟩

theorem meets_deleteDraftSource {copy : DraftCopy} {draft : ActiveDraft}
    (hfile : (store.files draft.path).isSome = true) :
    Meets
      (fun _ t => deletionOf faults copy draft.indexed = .done ∧ t = deleted store draft ∨
        deletionOf faults copy draft.indexed = .stale ∧ draft.indexed = true ∧
          t = withoutFile store draft.path ∨
        deletionOf faults copy draft.indexed = .overlooked ∧ t.files = store.files)
      (fun _ t => deletionOf faults copy draft.indexed = .refused ∧ t = store ∨
        deletionOf faults copy draft.indexed = .halfDone ∧ draft.indexed = true ∧
          t = unindexed store draft)
      (fun t => deletionOf faults copy draft.indexed = .stopped ∧ t.files = store.files)
      (deleteDraftSource copy draft faults store) := by
  have hfiles : (afterUnindexing faults store copy draft).files = store.files :=
    files_afterUnindexing copy draft
  unfold deleteDraftSource
  apply Prog.meets_andThen (Q := fun _ t => unindexing faults copy draft.indexed = .passes ∧
    t = afterUnindexing faults store copy draft)
  · apply Meets.mono endsBy_unindexSource
    · exact fun _ _ ht => ht
    · rintro _ t ⟨⟨n, hn⟩, ht⟩
      refine Or.inl ⟨?_, ht⟩
      unfold deletionOf
      rw [hn]
    · rintro t ⟨⟨n, hn⟩, ht⟩
      rw [ht]
      refine ⟨?_, rfl⟩
      unfold deletionOf
      rw [hn]
  rintro _ t ⟨hunindexed, ht⟩
  rw [ht]
  have hfound : ((afterUnindexing faults store copy draft).files draft.path).isSome = true := by
    rw [hfiles]
    exact hfile
  apply Prog.meets_andThen (Q := fun found t => t = afterUnindexing faults store copy draft ∧
    (found = true ∧ faults (.delete copy .metadata) = .passes ∨
      found = false ∧ ∃ n, faults (.delete copy .metadata) = .fails n))
  · apply (meets_pathExists hfound).mono
    · exact fun _ _ ht => ht
    · exact fun _ _ hfalse => hfalse.elim
    · rintro t ⟨ht, n, hn⟩
      rw [ht]
      refine ⟨?_, hfiles⟩
      unfold deletionOf
      rw [hunindexed, hn]
  rintro found t ⟨ht, ⟨hpresent, hmetadata⟩ | ⟨hpresent, n, hmetadata⟩⟩
  · -- the file is there, and its removal decides
    rw [ht, hpresent]
    obtain ⟨hpasses, hfails⟩ := deletionOf_of_found store hunindexed hmetadata
    apply Prog.meets_mapError
    have hremoved : EndsBy (faults (.delete copy .removeFile))
        (fun _ files => files =
          Function.update (afterUnindexing faults store copy draft).files draft.path none)
        (fun files => files = (afterUnindexing faults store copy draft).files)
        (FileStore.removeFile (.delete copy .removeFile) draft.path faults
          (afterUnindexing faults store copy draft).files) := by
      obtain ⟨file, hsome⟩ := Option.isSome_iff_exists.1 hfound
      exact EndsBy.op (by rw [hsome]) rfl fun _ => rfl
    apply Meets.mono (endsBy_onFiles hremoved)
    · rintro _ t ⟨hremove, files, rfl, ht⟩
      exact (hpasses hremove).imp (And.imp_right ht.trans)
        fun hstale => Or.inl ⟨hstale.1, hstale.2.1, ht.trans hstale.2.2⟩
    · rintro e t ⟨hremove, files, rfl, ht⟩
      exact (hfails hremove).imp (And.imp_right ht.trans)
        fun hhalf => ⟨hhalf.1, hhalf.2.1, ht.trans hhalf.2.2⟩
    · rintro t ⟨⟨n, hremove⟩, files, rfl, ht⟩
      refine ⟨?_, by rw [ht, hfiles]⟩
      unfold deletionOf
      rw [hunindexed, hmetadata, hremove]
  · rw [ht, hpresent]
    refine Or.inr (Or.inr ⟨?_, hfiles⟩)
    unfold deletionOf
    rw [hunindexed, hmetadata]

/-! ## The new copy in the Maildir -/

section Maildir

variable {context : SaveContext M} {options : LaunchOptions} {maildir : Dir} {message : M}
  {temporary final : Path Dir}

/-- The names drawn for the Maildir are not in use. -/
structure MaildirFresh (store : DraftStore) (temporary final : Path Dir) : Prop where
  temporaryFree : store.files temporary = none
  finalFree : store.files final = none
  notIndexed : store.indexed final = false

/-- No other file has changed. -/
def OnlyChanges (store t : DraftStore) (temporary final : Path Dir) : Prop :=
  ∀ p, p ≠ temporary → p ≠ final → t.files p = store.files p

/-- A file that was not there before. -/
def LeftBehind (store t : DraftStore) : Prop :=
  ∃ p, store.files p = none ∧ (t.files p).isSome = true

theorem maildirTemporary_ne (unique : OsString) (maildir : Dir) (flags : Str) :
    maildirTemporary unique maildir ≠ maildirPath unique maildir flags := by
  intro hsame
  have hparent : maildir ++ [OsString.ofStr "tmp".toList] =
      maildir ++ [OsString.ofStr "cur".toList] := congrArg Path.parent hsame
  exact absurd (List.append_cancel_left hparent) (by decide)

/-- The operations up to the new file in `tmp`. -/
def fileOps : List DraftSaveOp := maildirDirs.map .createDirectory ++ [.createTemporary]

/-- Those that bring it to `cur`. -/
def storingOps : List DraftSaveOp := [.writeTemporary, .flush, .rename]

/-- The store with the new file. -/
def withFile (store : DraftStore) (path : Path Dir) (bytes : Bytes) : DraftStore :=
  { store with files := Function.update store.files path (some { bytes := bytes }) }

theorem onlyChanges_withFile {bytes : Bytes} :
    OnlyChanges store (withFile store temporary bytes) temporary final :=
  fun _ htemporary _ => Function.update_of_ne htemporary _ _

theorem leftBehind_withFile {path : Path Dir} {bytes : Bytes} (h : store.files path = none) :
    LeftBehind store (withFile store path bytes) := by
  refine ⟨path, h, ?_⟩
  show (Function.update store.files path _ path).isSome = true
  rw [Function.update_self]
  rfl

/-- The file is made, written and moved to its name. -/
theorem commits_writePrivateNewFile {files : FileStore Dir} {path : Path Dir} {bytes : Bytes}
    (hfree : files path = none) :
    Commits faults [.createTemporary] [.writeTemporary, .flush]
      (fun _ t => t = Function.update files path (some { bytes := bytes }))
      (fun t => t = files)
      (fun t => ∃ bytes, t = Function.update files path (some { bytes := bytes }))
      (writePrivateNewFile path bytes faults files) := by
  have hcreated : Follows faults [.createTemporary]
      (fun _ t => t = Function.update files path (some { bytes := [] })) (fun t => t = files)
      (FileStore.createNew .createTemporary path faults files) :=
    Follows.op (by rw [hfree]; rfl) rfl fun _ => rfl
  unfold writePrivateNewFile
  apply Commits.begin hcreated
  intro _ t ht
  rw [ht]
  have hwritten : Follows faults [.writeTemporary]
      (fun _ t => t = Function.update files path (some { bytes := bytes }))
      (fun t => ∃ bytes, t = Function.update files path (some { bytes := bytes }))
      (FileStore.writeAll .writeTemporary path bytes faults
        (Function.update files path (some { bytes := [] }))) := by
    refine Follows.op rfl (Function.update_idem _ _ _) fun n => ?_
    exact ⟨bytes.take n, Function.update_idem _ _ _⟩
  apply Follows.cons hwritten
  intro _ t ht
  rw [ht]
  exact Follows.op rfl rfl fun _ => ⟨bytes, rfl⟩

theorem follows_rename {L : Type} {faults : L → Fault} {label : L} {files : FileStore Dir}
    {bytes : Bytes} (hne : temporary ≠ final) (hfree : files temporary = none) :
    Follows faults [label] (fun _ t => t = Function.update files final (some { bytes := bytes }))
      (fun t => t = Function.update files temporary (some { bytes := bytes }))
      (FileStore.rename label temporary final faults
        (Function.update files temporary (some { bytes := bytes }))) := by
  refine Follows.op (by rw [Function.update_self]) ?_ fun _ => rfl
  -- the temporary name was free before, and is again
  funext p
  by_cases htemporary : p = temporary
  · rw [htemporary, Function.update_self, Function.update_of_ne hne, hfree]
  · rw [Function.update_of_ne htemporary]
    by_cases hfinal : p = final
    · rw [hfinal, Function.update_self, Function.update_self]
    · rw [Function.update_of_ne hfinal, Function.update_of_ne htemporary,
        Function.update_of_ne hfinal]

/-- What is left in `tmp` when the message does not come to `cur`. -/
def Unfinished (store t : DraftStore) (temporary final : Path Dir) : Prop :=
  LeftBehind store t ∧ OnlyChanges store t temporary final

theorem unfinished_withFile {bytes : Bytes} (hfree : store.files temporary = none) :
    Unfinished store (withFile store temporary bytes) temporary final :=
  ⟨leftBehind_withFile hfree, onlyChanges_withFile⟩

theorem commits_saveRfc5322ToMaildir {rendered : Bytes} {flags : Str}
    (hrendered : context.toRfc5322 message = .ok rendered)
    (hfresh : store.files (maildirTemporary context.unique maildir) = none) :
    Commits faults fileOps storingOps
      (fun path t => path = maildirPath context.unique maildir flags ∧
        t = withFile store (maildirPath context.unique maildir flags) rendered)
      (fun t => t = store)
      (fun t => Unfinished store t (maildirTemporary context.unique maildir)
        (maildirPath context.unique maildir flags))
      (saveRfc5322ToMaildir context maildir message flags faults store) := by
  have hdirs : Follows faults (maildirDirs.map .createDirectory) (fun _ t => t = store)
      (fun t => t = store) (Prog.forEach (fun dir =>
        (quiet (.createDirectory dir) (.io .failed) : Saving Unit)) maildirDirs faults store) := by
    apply Follows.forEach
    · intro dir _ t ht
      rw [ht]
      exact follows_quiet
    · rfl
  unfold saveRfc5322ToMaildir
  apply Commits.prepend hdirs
  intro _ t ht
  rw [ht, hrendered]
  -- The bytes go to the temporary name first, so that a failure leaves nothing under the final one.
  have hwritten : Commits faults [.createTemporary] [.writeTemporary, .flush]
      (fun _ t => t = withFile store (maildirTemporary context.unique maildir) rendered)
      (fun t => t = store)
      (fun t => Unfinished store t (maildirTemporary context.unique maildir)
        (maildirPath context.unique maildir flags))
      (((onFiles (writePrivateNewFile (maildirTemporary context.unique maildir)
        rendered)).mapError .io : Saving Unit) faults store) := by
    apply Commits.mapError
    apply (commits_onFiles (commits_writePrivateNewFile hfresh)).mono
    · rintro _ t ⟨files, rfl, rfl⟩
      rfl
    · rintro t ⟨files, rfl, rfl⟩
      rfl
    · rintro t ⟨files, ⟨bytes, rfl⟩, rfl⟩
      exact unfinished_withFile hfresh
  have hne := maildirTemporary_ne context.unique maildir flags
  apply Commits.andThen hwritten
  intro _ t ht
  rw [ht]
  have hrenamed : Follows faults [.rename]
      (fun _ t => t = withFile store (maildirPath context.unique maildir flags) rendered)
      (fun t => Unfinished store t (maildirTemporary context.unique maildir)
        (maildirPath context.unique maildir flags))
      (((onFiles (FileStore.rename .rename (maildirTemporary context.unique maildir)
        (maildirPath context.unique maildir flags))).mapError .io : Saving Unit) faults
          (withFile store (maildirTemporary context.unique maildir) rendered)) := by
    apply Follows.mapError
    apply (follows_onFiles (follows_rename hne hfresh)).mono
    · rintro _ t ⟨files, rfl, rfl⟩
      rfl
    · rintro t ⟨files, rfl, rfl⟩
      exact unfinished_withFile hfresh
  apply Follows.cons hrenamed
  intro _ t ht
  exact Follows.ret ⟨rfl, ht⟩

/-- Nothing is written of a message that cannot be rendered. -/
theorem meets_saveRfc5322ToMaildir_error {flags : Str} {e : String}
    (hrendered : context.toRfc5322 message = .error e) :
    Meets (fun _ _ => False) (fun _ t => t = store) (fun t => t = store)
      (saveRfc5322ToMaildir context maildir message flags faults store) := by
  unfold saveRfc5322ToMaildir
  apply Prog.meets_andThen (Q := fun _ t => t = store)
  · apply Prog.meets_forEach (I := fun t => t = store)
    · intro dir _ t ht
      rw [ht]
      exact follows_quiet.weaken
    · rfl
  intro _ t ht
  rw [ht, hrendered]
  exact rfl

/-! ### Its entry in the index -/

/-- The operations that index a message and set its tags. -/
def indexingOps (tags : List Str) : List DraftSaveOp :=
  .index .indexFile :: .index .freeze ::
    ((List.range tags.length).map (fun i => .index (.addTag i)) ++ [.index .thaw])

/-- How `indexFileWithTags` ends, which looks at the tags first. -/
def tagging (faults : DraftSaveOp → Fault) (tags : List Str) : Fault :=
  if (tags.forM Notmuch.validateTag).isOk then firstFault faults (indexingOps tags) else .fails 0

/-- How `indexMessageFile` ends. A commit that fails does not count. -/
def indexing (faults : DraftSaveOp → Fault) (tags : List Str) : Fault :=
  (faults (.index .openDatabase)).andThen
    ((tagging faults tags).session (faults (.index .closeDatabase)))

/-- The entry of the new message is durable. -/
def entryCommitted (faults : DraftSaveOp → Fault) : Bool :=
  faults (.index .closeDatabase) = .passes

/-- The store in which the index knows the path. -/
def withEntry (store : DraftStore) (path : Path Dir) : DraftStore :=
  { store with indexed := Function.update store.indexed path true }

theorem endsBy_indexFileWithTags {tags : List Str} {bytes : Bytes} :
    EndsBy (tagging faults tags) (fun _ t => t = withEntry (withFile store final bytes) final)
      (fun t => t.files = (withFile store final bytes).files)
      (indexFileWithTags context final tags faults (withFile store final bytes)) := by
  unfold tagging indexFileWithTags
  cases htags : tags.forM Notmuch.validateTag with
  | error e => exact ⟨⟨0, rfl⟩, rfl⟩
  | ok _ =>
    have hentry : ∀ label, Follows faults [label]
        (fun _ t => t = withEntry (withFile store final bytes) final)
        (fun t => t.files = (withFile store final bytes).files)
        ((quiet label .database : Saving Unit) faults
          (withEntry (withFile store final bytes) final)) := by
      intro label
      apply follows_quiet.mono (fun _ _ ht => ht)
      rintro t rfl
      rfl
    have hindexed : Follows faults [.index .indexFile]
        (fun _ t => t = withEntry (withFile store final bytes) final)
        (fun t => t.files = (withFile store final bytes).files)
        (indexFile context final faults (withFile store final bytes)) := by
      have hfile : (withFile store final bytes).files final = some { bytes := bytes } :=
        Function.update_self _ _ _
      exact Follows.op (a := context.messageId bytes) (by rw [hfile]; rfl) rfl fun _ => rfl
    have htagged : Follows faults ((List.range tags.length).map fun i => .index (.addTag i))
        (fun _ t => t = withEntry (withFile store final bytes) final)
        (fun t => t.files = (withFile store final bytes).files)
        (Prog.forEach (fun i => (quiet (.index (.addTag i)) .database : Saving Unit))
          (List.range tags.length) faults (withEntry (withFile store final bytes) final)) := by
      apply Follows.forEach
      · rintro i _ t rfl
        exact hentry _
      · rfl
    -- The steps in the order of the source, each from where the one before it has left the store.
    apply Follows.cons hindexed
    rintro id t rfl
    apply Follows.cons (hentry _)
    rintro _ t rfl
    apply Follows.andThen htagged
    rintro _ t rfl
    apply Follows.cons (hentry _)
    intro _ t ht
    exact Follows.ret ht

/-- The step passes with an entry that is durable, or without any. -/
theorem endsBy_indexMessageFile {tags : List Str} {bytes : Bytes} :
    EndsBy (indexing faults tags)
      (fun _ t => t = if entryCommitted faults then withEntry (withFile store final bytes) final
        else withFile store final bytes)
      (fun t => t.files = (withFile store final bytes).files)
      (indexMessageFile context final tags faults (withFile store final bytes)) := by
  have hopened : EndsBy (faults (.index .openDatabase))
      (fun _ t => t = withFile store final bytes)
      (fun t => t.files = (withFile store final bytes).files)
      ((quiet (.index .openDatabase) .database : Saving Unit) faults
        (withFile store final bytes)) := by
    apply follows_quiet.endsBy.mono (fun _ _ ht => ht)
    rintro t rfl
    rfl
  unfold indexMessageFile
  apply EndsBy.andThen hopened
  rintro _ t rfl
  apply (endsBy_indexFileWithTags.session (fun _ ht => ht) ?_).mono
  · unfold entryCommitted
    rintro _ t (⟨hcommitted, ht⟩ | ⟨⟨n, hfailed⟩, u, rfl, ht⟩)
    · rw [hcommitted]
      exact ht
    · rw [hfailed]
      exact ht
  · exact fun _ ht => ht
  · rintro _ t rfl
    rfl

/-! ### Both together -/

/-- The Maildir is looked up in the database only if the configuration names none. -/
def findingOps (options : LaunchOptions) : List DraftSaveOp :=
  if (configuredMaildir options).isNone then [.openForMaildir] else []

/-- The Maildir of the drafts. -/
def draftsMaildir (context : SaveContext M) (options : LaunchOptions) : Dir :=
  (configuredMaildir options).getD (context.databaseRoot ++ [draftsName])

/-- How the operations on the new file end once it has been made. -/
def storing (faults : DraftSaveOp → Fault) (options : LaunchOptions) : Fault :=
  (firstFault faults storingOps).andThen
    (if options.indexDraftAfterSave then indexing faults options.draftTags else .passes)

/-- The store with the new message, whose entry may have been lost. -/
def persisted (store : DraftStore) (faults : DraftSaveOp → Fault) (options : LaunchOptions)
    (path : Path Dir) (bytes : Bytes) : DraftStore :=
  if options.indexDraftAfterSave && entryCommitted faults then
    withEntry (withFile store path bytes) path
  else withFile store path bytes

theorem storing_of_not_passes {n : Nat} :
    (firstFault faults storingOps = .fails n → storing faults options = .fails n) ∧
      (firstFault faults storingOps = .stops n → storing faults options = .stops n) := by
  unfold storing
  constructor
  · intro hn
    rw [hn]
    rfl
  · intro hn
    rw [hn]
    rfl

/-- Once the file is at its name, the index decides. -/
theorem storing_of_passes (hstored : firstFault faults storingOps = .passes)
    (hindex : options.indexDraftAfterSave = true) :
    storing faults options = indexing faults options.draftTags := by
  unfold storing
  rw [hstored, if_pos hindex]
  rfl

theorem follows_findMaildir :
    Follows faults (findingOps options)
      (fun maildir t => maildir = draftsMaildir context options ∧ t = store) (fun t => t = store)
      (findMaildir context options faults store) := by
  unfold findingOps findMaildir draftsMaildir
  cases configuredMaildir options with
  | some maildir => exact Follows.ret ⟨rfl, rfl⟩
  | none =>
    apply Follows.cons follows_quiet
    intro _ t ht
    exact Follows.ret ⟨rfl, ht⟩

/-- The ends of the index step at the new file. -/
theorem meets_index {bytes : Bytes} (hfresh : store.files final = none)
    (hstored : firstFault faults storingOps = .passes)
    (hindex : options.indexDraftAfterSave = true) :
    Meets (fun _ t => storing faults options = .passes ∧
        t = persisted store faults options final bytes)
      (fun _ t => (∃ n, storing faults options = .fails n) ∧ Unfinished store t temporary final)
      (fun t => (∃ n, storing faults options = .stops n) ∧ OnlyChanges store t temporary final)
      (indexMessageFile context final options.draftTags faults (withFile store final bytes)) := by
  have honly : ∀ t : DraftStore, t.files = (withFile store final bytes).files →
      OnlyChanges store t temporary final := by
    intro t ht p _ hp
    rw [ht]
    exact Function.update_of_ne hp _ _
  have hleft : ∀ t : DraftStore, t.files = (withFile store final bytes).files →
      Unfinished store t temporary final := by
    intro t ht
    refine ⟨⟨final, hfresh, ?_⟩, honly t ht⟩
    rw [ht]
    show (Function.update store.files final _ final).isSome = true
    rw [Function.update_self]
    rfl
  rw [storing_of_passes hstored hindex]
  apply Meets.mono endsBy_indexMessageFile
  · rintro _ t ⟨hpasses, ht⟩
    refine ⟨hpasses, ?_⟩
    unfold persisted
    rw [hindex]
    exact ht
  · exact fun _ t ht => ⟨ht.1, hleft t ht.2⟩
  · exact fun t ht => ⟨ht.1, honly t ht.2⟩

theorem meets_persistDraftMessage {rendered : Bytes}
    (hrendered : context.toRfc5322 message = .ok rendered)
    (hmaildir : maildir = draftsMaildir context options)
    (htemporary : temporary = maildirTemporary context.unique maildir)
    (hfinal : final = maildirPath context.unique maildir "D".toList)
    (hfresh : MaildirFresh store temporary final) :
    Meets
      (fun copy t => firstFault faults (findingOps options ++ fileOps) = .passes ∧
        storing faults options = .passes ∧ copy.path = final ∧
        copy.indexedMessageId.isSome = options.indexDraftAfterSave ∧
        t = persisted store faults options final rendered)
      (fun _ t => (∃ n, firstFault faults (findingOps options ++ fileOps) = .fails n) ∧ t = store ∨
        firstFault faults (findingOps options ++ fileOps) = .passes ∧
          (∃ n, storing faults options = .fails n) ∧ Unfinished store t temporary final)
      (fun t => OnlyChanges store t temporary final ∧
        ((∃ n, firstFault faults (findingOps options ++ fileOps) = .stops n) ∨
          firstFault faults (findingOps options ++ fileOps) = .passes ∧
            ∃ n, storing faults options = .stops n))
      (persistDraftMessage context options message faults store) := by
  have honly : OnlyChanges store store temporary final := fun _ _ _ => rfl
  unfold persistDraftMessage
  apply Prog.meets_andThen (Q := fun found t => firstFault faults (findingOps options) = .passes ∧
    found = maildir ∧ t = store)
  · apply Meets.mono follows_findMaildir
    · rintro found t ⟨hpasses, hfound, ht⟩
      exact ⟨hpasses, hfound.trans hmaildir.symm, ht⟩
    · rintro _ t ⟨⟨n, hn⟩, ht⟩
      exact Or.inl ⟨⟨n, firstFault_append_of_fails hn⟩, ht⟩
    · rintro t ⟨⟨n, hn⟩, ht⟩
      rw [ht]
      exact ⟨honly, Or.inl ⟨n, firstFault_append_of_stops hn⟩⟩
  rintro found t ⟨hfound, rfl, rfl⟩
  rw [firstFault_append_of_passes hfound]
  -- The Maildir is found; now the file, up to its name.
  have hsaved : Commits faults fileOps storingOps
      (fun path u => path = final ∧ u = withFile t final rendered) (fun u => u = t)
      (fun u => Unfinished t u temporary final)
      (saveRfc5322ToMaildir context found message "D".toList faults t) := by
    have hfree := hfresh.temporaryFree
    rw [htemporary] at hfree ⊢
    rw [hfinal]
    exact commits_saveRfc5322ToMaildir hrendered hfree
  apply Prog.meets_andThen (Q := fun path u => firstFault faults fileOps = .passes ∧
    firstFault faults storingOps = .passes ∧ path = final ∧ u = withFile t final rendered)
  · apply Meets.mono hsaved
    · exact fun _ _ hu => hu
    · rintro _ u (hu | ⟨hmade, ⟨n, hn⟩, hleft⟩)
      · exact Or.inl hu
      · exact Or.inr ⟨hmade, ⟨n, storing_of_not_passes.1 hn⟩, hleft⟩
    · rintro u (⟨hstops, hu⟩ | ⟨hmade, ⟨n, hn⟩, -, honly⟩)
      · rw [hu]
        exact ⟨honly, Or.inl hstops⟩
      · exact ⟨honly, Or.inr ⟨hmade, n, storing_of_not_passes.2 hn⟩⟩
  rintro path u ⟨hmade, hstored, rfl, rfl⟩
  split
  · -- The file is at its name, and the index decides.
    rename_i hindex
    apply Prog.meets_andThen (Q := fun _ u => storing faults options = .passes ∧
      u = persisted t faults options path rendered)
    · apply (meets_index hfresh.finalFree hstored hindex).mono
      · exact fun _ _ hu => hu
      · exact fun _ u hu => Or.inr ⟨hmade, hu⟩
      · exact fun u hu => ⟨hu.2, Or.inr ⟨hmade, hu.1⟩⟩
    · rintro id u ⟨hindexed, hu⟩
      exact ⟨hmade, hindexed, rfl, hindex.symm, hu⟩
  · rename_i hindex
    refine ⟨hmade, ?_, rfl, (Bool.not_eq_true _ ▸ hindex).symm, ?_⟩
    · unfold storing
      rw [hstored, if_neg hindex]
      rfl
    · unfold persisted
      rw [Bool.eq_false_iff.2 hindex]
      rfl

theorem meets_persistDraftMessage_error {e : String}
    (hrendered : context.toRfc5322 message = .error e) :
    Meets (fun _ _ => False) (fun _ t => t = store) (fun t => t = store)
      (persistDraftMessage context options message faults store) := by
  unfold persistDraftMessage
  apply Prog.meets_andThen follows_findMaildir.weaken
  rintro maildir t ⟨-, ht⟩
  rw [ht]
  apply Prog.meets_andThen (meets_saveRfc5322ToMaildir_error hrendered)
  exact fun _ _ hfalse => hfalse.elim

end Maildir

/-! ## The new copy as a named draft -/

section Named

variable {files : FileStore Dir} {temporaryPath path : Path Dir} {bytes : Bytes}
  {faults : AtomicWriteOp → Fault}

/-- How an atomic write ends: `leftBehind` when the temporary file cannot be removed either, and
`replaced` when the target has been replaced and an error is returned all the same. -/
inductive AtomicEnd where
  | done
  | undone
  | leftBehind
  | replaced
  | stopped
deriving DecidableEq

/-- The operations between the temporary file and the target. -/
def replacingOps : List AtomicWriteOp := [.setPermissions, .writeAll, .syncAll, .rename]

/-- How an atomic write ends, by the operations in their order; what has failed before the rename is
undone by the clean-up. -/
def atomicEndOf (faults : AtomicWriteOp → Fault) : AtomicEnd :=
  match firstFault faults [.ensurePrivateDirectory, .create] with
  | .fails _ => .undone
  | .stops _ => .stopped
  | .passes =>
    match firstFault faults replacingOps with
    | .stops _ => .stopped
    | .fails _ =>
      match faults .cleanUp with
      | .passes => .undone
      | .fails _ => .leftBehind
      | .stops _ => .stopped
    | .passes =>
      match faults .syncDirectory with
      | .passes => .done
      | .stops _ => .stopped
      | .fails _ =>
        match faults .cleanUp with
        | .stops _ => .stopped
        | _ => .replaced

/-- The files with the temporary one. -/
def HasTemporary (files t : FileStore Dir) (temporaryPath : Path Dir) : Prop :=
  ∃ file, t = Function.update files temporaryPath (some file)

theorem follows_untouched {L : Type} {faults : L → Fault} {label : L} :
    Follows faults [label] (fun _ t => t = files) (fun t => t = files)
      ((FileStore.untouched label : Prog L (FileStore Dir) IoError Unit) faults files) :=
  Follows.op rfl rfl fun _ => rfl

theorem commits_replacing (hne : temporaryPath ≠ path) (hfree : files temporaryPath = none) :
    Commits faults replacingOps [.syncDirectory] (fun _ t => t = renamed files path bytes)
      (fun t => HasTemporary files t temporaryPath) (fun t => t = renamed files path bytes)
      ((do
        FileStore.untouched .setPermissions
        FileStore.writeAll .writeAll temporaryPath bytes
        FileStore.untouched .syncAll
        FileStore.rename .rename temporaryPath path
        FileStore.untouched .syncDirectory : Prog AtomicWriteOp (FileStore Dir) IoError Unit) faults
          (Function.update files temporaryPath (some { bytes := [] }))) := by
  have hquiet : ∀ (label : AtomicWriteOp) (file : DraftFile), Follows faults [label]
      (fun _ t => t = Function.update files temporaryPath (some file))
      (fun t => HasTemporary files t temporaryPath)
      ((FileStore.untouched label : Prog AtomicWriteOp (FileStore Dir) IoError Unit) faults
        (Function.update files temporaryPath (some file))) := by
    intro label file
    exact follows_untouched.mono (fun _ _ ht => ht) fun t ht => ⟨file, ht⟩
  apply Commits.cons (hquiet _ _)
  intro _ t ht
  rw [ht]
  have hwritten : Follows faults [.writeAll]
      (fun _ t => t = Function.update files temporaryPath (some { bytes := bytes }))
      (fun t => HasTemporary files t temporaryPath)
      (FileStore.writeAll .writeAll temporaryPath bytes faults
        (Function.update files temporaryPath (some { bytes := [] }))) := by
    refine Follows.op rfl (Function.update_idem _ _ _) fun n => ?_
    exact ⟨_, Function.update_idem _ _ _⟩
  apply Commits.cons hwritten
  intro _ t ht
  rw [ht]
  apply Commits.cons (hquiet _ _)
  intro _ t ht
  rw [ht]
  have hrenamed : Follows faults [.rename] (fun _ t => t = renamed files path bytes)
      (fun t => HasTemporary files t temporaryPath)
      (FileStore.rename .rename temporaryPath path faults
        (Function.update files temporaryPath (some { bytes := bytes }))) :=
    (follows_rename hne hfree).mono (fun _ _ ht => ht) fun t ht => ⟨_, ht⟩
  apply Commits.begin hrenamed
  intro _ t ht
  rw [ht]
  exact follows_untouched

theorem meets_cleanUp {L ε : Type} {faults : L → Fault} {label : L} {t : FileStore Dir} :
    Meets (fun _ u => faults label = .passes ∧ u = Function.update t temporaryPath none ∨
        (∃ n, faults label = .fails n) ∧ u = t)
      (fun _ _ => False) (fun _ => ∃ n, faults label = .stops n)
      (((FileStore.removeFile label temporaryPath).attempt : Prog L (FileStore Dir) ε _)
        faults t) := by
  apply Prog.meets_attempt
  apply Prog.meets_op_faults
  · intro hpasses _ u heffect
    cases hfile : t temporaryPath with
    | none =>
      rw [hfile] at heffect
      cases heffect
    | some file =>
      rw [hfile] at heffect
      cases heffect
      exact Or.inl ⟨hpasses, rfl⟩
  · intro hpasses e heffect
    cases hfile : t temporaryPath with
    | none =>
      have hsame : t = Function.update t temporaryPath none := by
        rw [← hfile, Function.update_eq_self]
      exact Or.inl ⟨hpasses, hsame⟩
    | some file =>
      rw [hfile] at heffect
      cases heffect
  · exact fun n hn => Or.inr ⟨⟨n, hn⟩, rfl⟩
  · exact fun n hn => ⟨n, hn⟩

/-- What a failed write leaves before the clean-up. -/
inductive WriteFailed (faults : AtomicWriteOp → Fault) (files : FileStore Dir)
    (temporaryPath path : Path Dir) (bytes : Bytes) : FileStore Dir → Prop where
  | create (n : Nat) : faults .create = .fails n →
    WriteFailed faults files temporaryPath path bytes files
  | replacing (n : Nat) (t : FileStore Dir) : faults .create = .passes →
    firstFault faults replacingOps = .fails n → HasTemporary files t temporaryPath →
    WriteFailed faults files temporaryPath path bytes t
  | syncDirectory (n : Nat) : faults .create = .passes →
    firstFault faults replacingOps = .passes → faults .syncDirectory = .fails n →
    WriteFailed faults files temporaryPath path bytes (renamed files path bytes)

/-- What stands when the write has returned, with or without an error. -/
def WriteReturned (faults : AtomicWriteOp → Fault) (files : FileStore Dir)
    (temporaryPath path : Path Dir) (bytes : Bytes) :
    Except IoError Unit → FileStore Dir → Prop
  | .ok _, t => atomicEndOf faults = .done ∧ t = renamed files path bytes
  | .error _, t => WriteFailed faults files temporaryPath path bytes t

theorem meets_writeAndRename_ends (hne : temporaryPath ≠ path) (hfree : files temporaryPath = none)
    (hensured : faults .ensurePrivateDirectory = .passes) :
    Meets (fun _ t => atomicEndOf faults = .done ∧ t = renamed files path bytes)
      (fun _ t => WriteFailed faults files temporaryPath path bytes t)
      (fun _ => atomicEndOf faults = .stopped)
      (writeAndRename temporaryPath path bytes faults files) := by
  have hcreated : EndsBy (faults .create)
      (fun _ t => t = Function.update files temporaryPath (some { bytes := [] }))
      (fun t => t = files) (FileStore.createNew .create temporaryPath faults files) :=
    EndsBy.op (by rw [hfree]; rfl) rfl fun _ => rfl
  have hearlier : firstFault faults [.ensurePrivateDirectory, .create] = faults .create :=
    firstFault_pair_of_passes hensured
  unfold writeAndRename
  apply Prog.meets_andThen (Q := fun _ t => faults .create = .passes ∧
    t = Function.update files temporaryPath (some { bytes := [] }))
  · apply Meets.mono hcreated
    · exact fun _ _ ht => ht
    · rintro _ t ⟨⟨n, hn⟩, rfl⟩
      exact .create n hn
    · rintro t ⟨⟨n, hn⟩, -⟩
      unfold atomicEndOf
      rw [hearlier, hn]
  rintro _ t ⟨hpasses, ht⟩
  rw [ht]
  apply Meets.mono (commits_replacing hne hfree)
  · rintro _ t ⟨hreplacing, hsynced, ht⟩
    rw [firstFault_singleton] at hsynced
    refine ⟨?_, ht⟩
    unfold atomicEndOf
    rw [hearlier, hpasses, hreplacing, hsynced]
  · rintro _ t (⟨⟨n, hn⟩, ht⟩ | ⟨hreplacing, ⟨n, hn⟩, rfl⟩)
    · exact .replacing n t hpasses hn ht
    · rw [firstFault_singleton] at hn
      exact .syncDirectory n hpasses hreplacing hn
  · rintro t (⟨⟨n, hn⟩, -⟩ | ⟨hreplacing, ⟨n, hn⟩, -⟩)
    · unfold atomicEndOf
      rw [hearlier, hpasses, hn]
    · rw [firstFault_singleton] at hn
      unfold atomicEndOf
      rw [hearlier, hpasses, hreplacing, hn]

/-- How the clean-up ends what has failed. -/
theorem ends_of_writeFailed {t u : FileStore Dir} (hne : temporaryPath ≠ path)
    (hfree : files temporaryPath = none) (hensured : faults .ensurePrivateDirectory = .passes)
    (h : WriteFailed faults files temporaryPath path bytes t)
    (hu : faults .cleanUp = .passes ∧ u = Function.update t temporaryPath none ∨
      (∃ n, faults .cleanUp = .fails n) ∧ u = t) :
    atomicEndOf faults = .undone ∧ u = files ∨
      atomicEndOf faults = .leftBehind ∧ HasTemporary files u temporaryPath ∨
        atomicEndOf faults = .replaced ∧ u = renamed files path bytes := by
  have hearlier : firstFault faults [.ensurePrivateDirectory, .create] = faults .create :=
    firstFault_pair_of_passes hensured
  have hsame : ∀ t : FileStore Dir, t temporaryPath = none →
      (faults .cleanUp = .passes ∧ u = Function.update t temporaryPath none ∨
        (∃ n, faults .cleanUp = .fails n) ∧ u = t) → u = t := by
    rintro t hnone (⟨-, ht⟩ | ⟨-, ht⟩)
    · rw [ht, ← hnone, Function.update_eq_self]
    · exact ht
  unfold atomicEndOf
  rw [hearlier]
  cases h with
  | create n hn =>
    rw [hn]
    exact Or.inl ⟨rfl, hsame _ hfree hu⟩
  | replacing n t hcreated hn ht =>
    rw [hcreated, hn]
    rcases hu with ⟨hcleaned, rfl⟩ | ⟨⟨m, hm⟩, rfl⟩
    · obtain ⟨file, rfl⟩ := ht
      rw [hcleaned, Function.update_idem, ← hfree, Function.update_eq_self]
      exact Or.inl ⟨rfl, rfl⟩
    · rw [hm]
      exact Or.inr (Or.inl ⟨rfl, ht⟩)
  | syncDirectory n hcreated hreplacing hn =>
    rw [hcreated, hreplacing, hn]
    have hnone : renamed files path bytes temporaryPath = none := by
      unfold renamed
      rw [Function.update_of_ne hne]
      exact hfree
    have hkept := hsame _ hnone hu
    rcases hu with ⟨hcleaned, -⟩ | ⟨⟨m, hm⟩, -⟩
    · rw [hcleaned]
      exact Or.inr (Or.inr ⟨rfl, hkept⟩)
    · rw [hm]
      exact Or.inr (Or.inr ⟨rfl, hkept⟩)

/-- How the end of the process in the clean-up counts. -/
theorem stopped_of_writeFailed {t : FileStore Dir}
    (hensured : faults .ensurePrivateDirectory = .passes)
    (h : WriteFailed faults files temporaryPath path bytes t)
    (hstops : ∃ n, faults .cleanUp = .stops n) :
    atomicEndOf faults = .stopped ∨ atomicEndOf faults = .undone := by
  obtain ⟨m, hm⟩ := hstops
  have hearlier : firstFault faults [.ensurePrivateDirectory, .create] = faults .create :=
    firstFault_pair_of_passes hensured
  unfold atomicEndOf
  rw [hearlier]
  cases h with
  | create n hn =>
    rw [hn]
    exact Or.inr rfl
  | replacing n t hcreated hn ht =>
    rw [hcreated, hn, hm]
    exact Or.inl rfl
  | syncDirectory n hcreated hreplacing hn =>
    rw [hcreated, hreplacing, hn, hm]
    exact Or.inl rfl

theorem meets_atomicWriteDurable_ends {uuid : Str}
    (htemporary : temporaryPath = { path with fileName := temporaryName path.fileName uuid })
    (hjson : path.fileName.isJson = true) (hfree : files temporaryPath = none) :
    Meets (fun _ t => atomicEndOf faults = .done ∧ t = renamed files path bytes)
      (fun _ t => atomicEndOf faults = .undone ∧ t = files ∨
        atomicEndOf faults = .leftBehind ∧ HasTemporary files t temporaryPath ∨
          atomicEndOf faults = .replaced ∧ t = renamed files path bytes)
      (fun _ => atomicEndOf faults = .stopped ∨ atomicEndOf faults = .undone)
      (atomicWriteDurable uuid path bytes faults files) := by
  have hne : temporaryPath ≠ path := by
    rw [htemporary]
    exact temporaryPath_ne hjson
  have hensured : EndsBy (faults .ensurePrivateDirectory) (fun _ t => t = files)
      (fun t => t = files)
      (((FileStore.untouched .ensurePrivateDirectory).mapError .io :
        Prog AtomicWriteOp (FileStore Dir) (FileError Dir) Unit) faults files) :=
    (Follows.mapError follows_untouched).endsBy
  unfold atomicWriteDurable
  rw [← htemporary]
  apply Prog.meets_andThen (Q := fun _ t => faults .ensurePrivateDirectory = .passes ∧ t = files)
  · apply Meets.mono hensured
    · exact fun _ _ ht => ht
    · rintro _ t ⟨⟨n, hn⟩, ht⟩
      refine Or.inl ⟨?_, ht⟩
      unfold atomicEndOf
      rw [firstFault_cons_of_fails hn]
    · rintro t ⟨⟨n, hn⟩, -⟩
      refine Or.inl ?_
      unfold atomicEndOf
      rw [firstFault_cons_of_stops hn]
  rintro _ t ⟨hensured, ht⟩
  rw [ht]
  apply Prog.meets_andThen (Q := WriteReturned faults files temporaryPath path bytes)
  · apply Prog.meets_attempt
    apply (meets_writeAndRename_ends hne hfree hensured).mono
    · exact fun _ _ ht => ht
    · exact fun _ _ ht => ht
    · exact fun _ ht => Or.inl ht
  -- After a failure the temporary file is removed, unless the process stops or that fails too.
  intro result t ht
  cases result with
  | ok _ => exact ht
  | error e =>
    apply Prog.meets_andThen (Q := fun _ u =>
      faults .cleanUp = .passes ∧ u = Function.update t temporaryPath none ∨
        (∃ n, faults .cleanUp = .fails n) ∧ u = t)
    · apply meets_cleanUp.mono
      · exact fun _ _ hu => hu
      · exact fun _ _ hfalse => hfalse.elim
      · exact fun _ hstops => stopped_of_writeFailed hensured ht hstops
    · intro _ u hu
      exact ends_of_writeFailed hne hfree hensured ht hu

/-- How a save of the named draft ends once its checks pass. -/
def namedEndOf (faults : SaveOp → Fault) : AtomicEnd :=
  match firstFault faults [.preflight, .ensurePrivateDirectory] with
  | .fails _ => .undone
  | .stops _ => .stopped
  | .passes => atomicEndOf (faults ∘ .write)

variable {json : Json} {names : SaveNames} {dir : Dir} {listing : List OsString}
  {legacy : Option (Dir × List OsString)} {fields : ComposeFields}
  {replacement : Option (Path Dir)}

theorem meets_saveNamedDraftFields_ends {faults : SaveOp → Fault} {target : Path Dir}
    (hcheck : checkSave json files dir listing legacy fields replacement = .ok bytes)
    (htarget : target = savePath names dir fields replacement)
    (hjson : target.fileName.isJson = true) (hfree : files (saveTemporary names target) = none) :
    Meets (fun path t => namedEndOf faults = .done ∧ path = target ∧
        t = renamed files target bytes)
      (fun _ t => namedEndOf faults = .undone ∧ t = files ∨
        namedEndOf faults = .leftBehind ∧ HasTemporary files t (saveTemporary names target) ∨
          namedEndOf faults = .replaced ∧ t = renamed files target bytes)
      (fun _ => namedEndOf faults = .stopped ∨ namedEndOf faults = .undone)
      (saveNamedDraftFields json names dir listing legacy fields replacement faults files) := by
  have hchecked : EndsBy (faults .preflight) (fun read t => read = bytes ∧ t = files)
      (fun t => t = files) (Prog.op .preflight (.listing dir)
        (fun files => (checkSave json files dir listing legacy fields replacement).map
          fun bytes => (bytes, files)) (fun files _ => files) faults files) :=
    EndsBy.op (by rw [hcheck]; rfl) ⟨rfl, rfl⟩ fun _ => rfl
  have hensured : EndsBy (faults .ensurePrivateDirectory) (fun _ t => t = files)
      (fun t => t = files)
      (((FileStore.untouched .ensurePrivateDirectory).mapError fun e => .file (.io e) :
        Prog SaveOp (FileStore Dir) (DraftIoError Dir) Unit) faults files) :=
    (Follows.mapError follows_untouched).endsBy
  unfold saveNamedDraftFields
  apply Prog.meets_andThen (Q := fun read t => faults .preflight = .passes ∧ read = bytes ∧
    t = files)
  · apply Meets.mono hchecked
    · exact fun _ _ ht => ht
    · rintro _ t ⟨⟨n, hn⟩, ht⟩
      refine Or.inl ⟨?_, ht⟩
      unfold namedEndOf
      rw [firstFault_cons_of_fails hn]
    · rintro t ⟨⟨n, hn⟩, -⟩
      refine Or.inl ?_
      unfold namedEndOf
      rw [firstFault_cons_of_stops hn]
  rintro read t ⟨hpreflight, rfl, rfl⟩
  -- Nothing has been written by the first two operations, whichever of them ends the save.
  have hearlier : firstFault faults [.preflight, .ensurePrivateDirectory] =
      faults .ensurePrivateDirectory := firstFault_pair_of_passes hpreflight
  apply Prog.meets_andThen (Q := fun _ u => faults .ensurePrivateDirectory = .passes ∧ u = t)
  · apply Meets.mono hensured
    · exact fun _ _ hu => hu
    · rintro _ u ⟨⟨n, hn⟩, hu⟩
      refine Or.inl ⟨?_, hu⟩
      unfold namedEndOf
      rw [hearlier, hn]
    · rintro u ⟨⟨n, hn⟩, -⟩
      refine Or.inl ?_
      unfold namedEndOf
      rw [hearlier, hn]
  rintro _ u ⟨hensuredPasses, hu⟩
  rw [hu]
  -- From here on the save is the atomic write, with its ends.
  have hend : namedEndOf faults = atomicEndOf (faults ∘ .write) := by
    unfold namedEndOf
    rw [hearlier, hensuredPasses]
  rw [hend, ← htarget]
  apply Prog.meets_andThen (Q := fun _ v => atomicEndOf (faults ∘ .write) = .done ∧
    v = renamed t target read)
  · apply Prog.meets_mapError
    apply Prog.meets_relabel
    exact meets_atomicWriteDurable_ends rfl hjson hfree
  · rintro _ v ⟨hdone, hv⟩
    exact ⟨hdone, rfl, hv⟩

/-- Nothing is written of a draft that does not pass its checks. -/
theorem meets_saveNamedDraftFields_error {faults : SaveOp → Fault} {e : DraftIoError Dir}
    (hcheck : checkSave json files dir listing legacy fields replacement = .error e) :
    Meets (fun _ _ => False) (fun _ t => t = files) (fun t => t = files)
      (saveNamedDraftFields json names dir listing legacy fields replacement faults files) := by
  unfold saveNamedDraftFields
  apply Prog.meets_andThen (Q := fun _ _ => False)
  · apply Prog.meets_op
    · intro _ t heffect
      rw [hcheck] at heffect
      cases heffect
    · exact fun _ _ => rfl
    · exact fun _ => rfl
    · exact fun _ => rfl
  · exact fun _ _ hfalse => hfalse.elim

end Named

end Notm.Ui
