import Notm.Ui.DraftSaveEnds

/-!
# What a save does to the copies of a draft

A save that returns has put the new copy in the place of the previous one, and one that fails has
left the previous copy alone. The steps that break this are those after the new file has been made,
for only the deletion of the previous copy has a rollback, and the commits of the index, whose
failure nobody sees. A copy is on the disk at every step.

* `Saved`, `Restored` and `HasCopy` are the effect that a save should have on `Ok`, on `Err` and at
  every point;
* `Holds` is the condition on what the steps meet under which it has this effect, part by part:
  `ReplacementHolds` and `RollbackHolds` are about the deletion of the previous copy;
* `draft_save_iff` says that the condition is exact;
* `draft_save_leaves_message` is a save that breaks the law.
-/

namespace Notm.Ui

open Rust Crash

/-- What a save is called with. -/
structure SaveRequest (M : Type) where
  context : SaveContext M
  options : LaunchOptions
  draftsDir : Dir
  listing : List OsString
  legacy : Option (Dir × List OsString)
  fields : ComposeFields
  previous : Option ActiveDraft

namespace SaveRequest

variable {M : Type}

def perform (request : SaveRequest M) : Saving DraftSaveWorkerResult :=
  performCapturedDraftSave request.context request.options request.draftsDir request.listing
    request.legacy request.fields request.previous

/-- The text of the new copy. -/
def bytes (request : SaveRequest M) : Option Bytes :=
  if request.options.saveDraftsToMaildir then
    (request.context.composedMessageFromFields request.fields).toOption.bind fun message =>
      (request.context.toRfc5322 message).toOption
  else (request.context.json.toVecPretty request.fields).toOption

/-- The new copy is to be known to the index. -/
def indexes (request : SaveRequest M) : Bool :=
  request.options.saveDraftsToMaildir && request.options.indexDraftAfterSave

/-- The named draft that is written over, if one is. -/
def replacement (request : SaveRequest M) : Option (Path Dir) :=
  if request.options.saveDraftsToMaildir then none
  else replacementPath request.draftsDir request.previous

/-- Where the new copy goes. -/
def target (request : SaveRequest M) : Path Dir :=
  if request.options.saveDraftsToMaildir then
    maildirPath request.context.unique (draftsMaildir request.context request.options) "D".toList
  else
    savePath request.context.names request.draftsDir request.fields
      (replacementPath request.draftsDir request.previous)

/-- Where it is written first. -/
def temporary (request : SaveRequest M) : Path Dir :=
  if request.options.saveDraftsToMaildir then
    maildirTemporary request.context.unique (draftsMaildir request.context request.options)
  else saveTemporary request.context.names request.target

/-- The previous copy is stored, and the names that are drawn are not in use. This is what the
worker starts from: the window hands it the copy that it knows of, and the names are drawn to be
new. -/
structure Ready (request : SaveRequest M) (store : DraftStore) : Prop where
  present : ∀ previous, request.previous = some previous →
    (store.files previous.path).isSome = true
  indexed : ∀ previous, request.previous = some previous →
    store.indexed previous.path = previous.indexed
  temporaryFree : store.files request.temporary = none
  targetFree : request.replacement = none →
    store.files request.target = none ∧ store.indexed request.target = false

/-! ## The effect of a save -/

/-- The new copy is saved, and a previous one at another path is gone: from the disk and, whether or
not it was indexed, from the index. The new copy is in the index exactly when the save was to put it
there. -/
structure Saved (request : SaveRequest M) (active : ActiveDraft) (t : DraftStore) : Prop where
  copy : ∃ bytes, request.bytes = some bytes ∧ t.files active.path = some { bytes := bytes }
  indexed : t.indexed active.path = request.indexes
  replaced : ∀ previous, request.previous = some previous → previous.path ≠ active.path →
    t.files previous.path = none ∧ t.indexed previous.path = false

/-- The previous copy is as it was, and there is no new file and no new entry. -/
structure Restored (request : SaveRequest M) (store t : DraftStore) : Prop where
  previous : ∀ previous, request.previous = some previous →
    t.files previous.path = store.files previous.path ∧
      t.indexed previous.path = store.indexed previous.path
  files : ∀ path, store.files path = none → t.files path = none
  indexed : ∀ path, store.indexed path = false → t.indexed path = false

/-- The previous copy or the new one is on the disk. -/
def HasCopy (request : SaveRequest M) (store t : DraftStore) : Prop :=
  ∀ previous, request.previous = some previous →
    t.files previous.path = store.files previous.path ∨
      ∃ path bytes, request.bytes = some bytes ∧ t.files path = some { bytes := bytes }

/-! ## When it has this effect -/

/-- The rollback takes the new copy away again. An entry that it leaves behind may be one that was
never committed. -/
def RollbackHolds (faults : DraftSaveOp → Fault) (indexes : Bool) : Prop :=
  match deletionOf faults .replacement indexes with
  | .done | .stopped => True
  | .stale => entryCommitted faults = false
  | .overlooked | .refused | .halfDone => False

/-- The deletion of the previous copy at another path does it, or its rollback does. A deletion that
returns also needs the new entry to have been committed; one that is half done has lost the entry of
the previous copy, and only the end of the process excuses it. -/
def ReplacementHolds (faults : DraftSaveOp → Fault) (previousIndexed indexes : Bool) : Prop :=
  match deletionOf faults .previous previousIndexed with
  | .done => indexes = true → entryCommitted faults = true
  | .stopped => True
  | .overlooked | .stale => False
  | .refused => RollbackHolds faults indexes
  | .halfDone => deletionOf faults .replacement indexes = .stopped

/-- What the deletion of the previous copy has to do. Without one, the new copy is all there is. -/
def DeletionHolds (request : SaveRequest M) (faults : DraftSaveOp → Fault) : Prop :=
  (request.previous = none → request.indexes = true → entryCommitted faults = true) ∧
    ∀ previous, request.previous = some previous → request.replacement = none →
      ReplacementHolds faults previous.indexed request.indexes

/-- **When a save has its effect.** In the Maildir, once the new file has been made, no step may
fail but those that delete the previous copy: nothing takes the new file back before that. A named
draft is safe until it has replaced its target. -/
def Holds (request : SaveRequest M) (faults : DraftSaveOp → Fault) (store : DraftStore) : Prop :=
  if request.options.saveDraftsToMaildir then
    request.bytes.isSome = true →
    firstFault faults (findingOps request.options ++ fileOps) = .passes →
      match storing faults request.options with
      | .passes => request.DeletionHolds faults
      | .fails _ => False
      | .stops _ => True
  else
    (checkSave request.context.json store.files request.draftsDir request.listing request.legacy
      request.fields request.replacement).isOk = true →
      match namedEndOf (faults ∘ .named) with
      | .done => request.DeletionHolds faults
      | .undone | .stopped => True
      | .leftBehind => False
      | .replaced => ∃ bytes, request.bytes = some bytes ∧
          store.files request.target = some { bytes := bytes }

/-! ## The new copy -/

section Ends

variable {request : SaveRequest M} {store t : DraftStore} {faults : DraftSaveOp → Fault}
  {bytes : Bytes}

/-- The store with the new copy, and with its entry if that has been committed. -/
def stored (request : SaveRequest M) (store : DraftStore) (faults : DraftSaveOp → Fault)
    (bytes : Bytes) : DraftStore :=
  if request.indexes && entryCommitted faults then
    withEntry (withFile store request.target bytes) request.target
  else withFile store request.target bytes

theorem restored_refl : request.Restored store store :=
  ⟨fun _ _ => ⟨rfl, rfl⟩, fun _ h => h, fun _ h => h⟩

theorem hasCopy_refl : request.HasCopy store store := fun _ _ => Or.inl rfl

theorem not_restored_of_leftBehind (h : LeftBehind store t) : ¬ request.Restored store t := by
  obtain ⟨path, hnone, hsome⟩ := h
  intro hrestored
  rw [hrestored.files path hnone] at hsome
  cases hsome

/-- The previous copy keeps its file when only the new names are written to. -/
theorem hasCopy_of_onlyChanges (hready : request.Ready store) (hfree : request.replacement = none)
    (h : OnlyChanges store t request.temporary request.target) : request.HasCopy store t := by
  intro previous hprevious
  have hpresent := hready.present previous hprevious
  refine Or.inl (h previous.path ?_ ?_)
  · intro hsame
    rw [hsame, hready.temporaryFree] at hpresent
    cases hpresent
  · intro hsame
    rw [hsame, (hready.targetFree hfree).1] at hpresent
    cases hpresent

/-- What `persist_copy` guarantees: where it ends by itself, the save holds its law as it should,
and otherwise the deletion decides. -/
def CopyEnds (request : SaveRequest M) (store : DraftStore) (faults : DraftSaveOp → Fault) :
    Outcome DraftSaveError (PersistedMessage ⊕ Path Dir) × DraftStore → Prop :=
  Meets
    (fun copy t => ∃ bytes, request.bytes = some bytes ∧
      (activeDraftOf request.fields copy).path = request.target ∧
      (activeDraftOf request.fields copy).indexed = request.indexes ∧
      t = request.stored store faults bytes ∧
      (request.Holds faults store ↔ request.DeletionHolds faults))
    (fun _ t => request.HasCopy store t ∧ (request.Restored store t ↔ request.Holds faults store))
    (fun t => request.HasCopy store t ∧ request.Holds faults store)

/-- The copy that the worker writes. -/
def persist (request : SaveRequest M) : Saving (PersistedMessage ⊕ Path Dir) :=
  persistCopy request.context request.options request.draftsDir request.listing request.legacy
    request.fields request.previous

section Maildir

variable (hsave : request.options.saveDraftsToMaildir = true)

include hsave

theorem replacement_maildir : request.replacement = none := if_pos hsave

theorem bytes_maildir : request.bytes =
    (request.context.composedMessageFromFields request.fields).toOption.bind fun message =>
      (request.context.toRfc5322 message).toOption := if_pos hsave

theorem target_maildir : request.target =
    maildirPath request.context.unique (draftsMaildir request.context request.options)
      "D".toList := if_pos hsave

theorem temporary_maildir : request.temporary =
    maildirTemporary request.context.unique (draftsMaildir request.context request.options) :=
  if_pos hsave

variable (faults store) in
theorem holds_maildir : request.Holds faults store ↔
    (request.bytes.isSome = true →
    firstFault faults (findingOps request.options ++ fileOps) = .passes →
      match storing faults request.options with
      | .passes => request.DeletionHolds faults
      | .fails _ => False
      | .stops _ => True) := by
  unfold Holds
  rw [if_pos hsave]

theorem holds_of_not_composed (h : request.bytes = none) : request.Holds faults store := by
  rw [holds_maildir store faults hsave, h]
  intro hsome
  cases hsome

theorem stored_maildir : request.stored store faults bytes =
    persisted store faults request.options request.target bytes := by
  unfold stored persisted indexes
  rw [hsave, Bool.true_and]

theorem copyEnds_maildir (hready : request.Ready store) :
    CopyEnds request store faults (request.persist faults store) := by
  have hbytes := bytes_maildir hsave
  unfold persist persistCopy
  rw [if_pos hsave]
  cases hcompose : request.context.composedMessageFromFields request.fields with
  -- The fields make no message: nothing has been touched.
  | error e =>
    rw [hcompose] at hbytes
    exact ⟨hasCopy_refl, iff_of_true restored_refl (holds_of_not_composed hsave hbytes)⟩
  | ok message =>
    rw [hcompose] at hbytes
    show CopyEnds request store faults (Prog.andThen
      (persistDraftMessage request.context request.options message)
      (fun persisted => Prog.ret (.inl persisted)) faults store)
    cases hrendered : request.context.toRfc5322 message with
    | error e =>
      have hnone : request.bytes = none := by
        rw [hbytes]
        show (request.context.toRfc5322 message).toOption = none
        rw [hrendered]
        rfl
      have hholds : request.Holds faults store := holds_of_not_composed hsave hnone
      apply Prog.meets_andThen (Q := fun _ _ => False)
      · apply (meets_persistDraftMessage_error hrendered).mono
        · exact fun _ _ hfalse => hfalse
        · rintro _ t rfl
          exact ⟨hasCopy_refl, iff_of_true restored_refl hholds⟩
        · rintro t rfl
          exact ⟨hasCopy_refl, hholds⟩
      · exact fun _ _ hfalse => hfalse.elim
    | ok rendered =>
      have hsome : request.bytes = some rendered := by
        rw [hbytes]
        show (request.context.toRfc5322 message).toOption = some rendered
        rw [hrendered]
        rfl
      have hfree := hready.targetFree (replacement_maildir hsave)
      have hfresh : MaildirFresh store request.temporary request.target :=
        ⟨hready.temporaryFree, hfree.1, hfree.2⟩
      have hends : Meets _ _ _
          (persistDraftMessage request.context request.options message faults store) :=
        meets_persistDraftMessage hrendered rfl (temporary_maildir hsave) (target_maildir hsave)
          hfresh
      have hholds := holds_maildir store faults hsave
      apply Prog.meets_andThen (hends.mono (fun _ _ h => h) ?_ ?_)
      · rintro copy t ⟨hmade, hstored, hpath, hindexed, ht⟩
        refine ⟨rendered, hsome, hpath, ?_, ht.trans (stored_maildir hsave).symm, ?_⟩
        · unfold indexes
          rw [hsave]
          exact hindexed
        · rw [hholds, hsome, hmade, hstored]
          exact ⟨fun h => h rfl rfl, fun h _ _ => h⟩
      · -- Before the file is made nothing has changed; behind that a failure leaves the new file,
        -- and the condition excludes it.
        rintro _ t (⟨⟨n, hn⟩, rfl⟩ | ⟨hmade, ⟨n, hn⟩, hleft⟩)
        · refine ⟨hasCopy_refl, iff_of_true restored_refl (hholds.2 fun _ hmade => ?_)⟩
          rw [hn] at hmade
          cases hmade
        · refine ⟨hasCopy_of_onlyChanges hready (replacement_maildir hsave) hleft.2, ?_⟩
          refine iff_of_false (not_restored_of_leftBehind hleft.1) fun hcondition => ?_
          rw [hholds, hsome, hmade, hn] at hcondition
          exact hcondition rfl rfl
      · rintro t ⟨honly, hstops⟩
        refine ⟨hasCopy_of_onlyChanges hready (replacement_maildir hsave) honly, ?_⟩
        refine hholds.2 fun _ hmade => ?_
        rcases hstops with ⟨n, hn⟩ | ⟨-, n, hn⟩
        · rw [hn] at hmade
          cases hmade
        · rw [hn]
          trivial

end Maildir

/-- The target has its old bytes or the new ones. -/
theorem hasCopy_of_writeBegun (hready : request.Ready store) (hbytes : request.bytes = some bytes)
    (h : WriteBegun store.files t.files request.temporary request.target bytes) :
    request.HasCopy store t := by
  intro previous hprevious
  have hpresent := hready.present previous hprevious
  by_cases htarget : previous.path = request.target
  · rw [htarget]
    exact h.target.imp_right fun hnew => ⟨request.target, bytes, hbytes, hnew⟩
  · refine Or.inl (h.frame previous.path ?_ htarget)
    intro hsame
    rw [hsame, hready.temporaryFree] at hpresent
    cases hpresent

section Named

variable (hsave : ¬ request.options.saveDraftsToMaildir = true)

theorem replacementPath_eq_some {dir : Dir} {previous : Option ActiveDraft} {path : Path Dir}
    (h : replacementPath dir previous = some path) :
    ∃ draft, previous = some draft ∧ draft.path = path ∧ draft.indexed = false ∧
      path.fileName.isJson = true := by
  obtain ⟨draft, hdraft, rfl⟩ := Option.map_eq_some_iff.1 h
  obtain ⟨hprevious, hchecks⟩ := Option.filter_eq_some_iff.1 hdraft
  simp only [Bool.and_eq_true, Bool.not_eq_true'] at hchecks
  exact ⟨draft, hprevious, rfl, hchecks.1.1, hchecks.2⟩

include hsave

theorem replacement_named : request.replacement =
    replacementPath request.draftsDir request.previous := if_neg hsave

theorem target_named : request.target = savePath request.context.names request.draftsDir
    request.fields (replacementPath request.draftsDir request.previous) := if_neg hsave

theorem temporary_named : request.temporary =
    saveTemporary request.context.names request.target := if_neg hsave

theorem isJson_target : request.target.fileName.isJson = true := by
  rw [target_named hsave]
  cases hreplacement : replacementPath request.draftsDir request.previous with
  | none => exact isJson_newDraftName _ _ _
  | some path =>
    obtain ⟨draft, -, -, -, hjson⟩ := replacementPath_eq_some hreplacement
    exact hjson

theorem stored_named :
    request.stored store faults bytes = withFile store request.target bytes := by
  unfold stored indexes
  rw [Bool.eq_false_iff.2 hsave]
  rfl

variable (store faults) in
theorem holds_named : request.Holds faults store ↔
    ((checkSave request.context.json store.files request.draftsDir request.listing request.legacy
      request.fields (replacementPath request.draftsDir request.previous)).isOk = true →
      match namedEndOf (faults ∘ .named) with
      | .done => request.DeletionHolds faults
      | .undone | .stopped => True
      | .leftBehind => False
      | .replaced => ∃ bytes, request.bytes = some bytes ∧
          store.files request.target = some { bytes := bytes }) := by
  unfold Holds
  rw [if_neg hsave, replacement_named hsave]

/-- The target was replaced, and an error is returned. -/
theorem restored_renamed_iff (hready : request.Ready store) (hbytes : request.bytes = some bytes) :
    request.Restored store (withFile store request.target bytes) ↔
      ∃ bytes, request.bytes = some bytes ∧
        store.files request.target = some { bytes := bytes } := by
  have hnew : (withFile store request.target bytes).files request.target =
      some { bytes := bytes } := Function.update_self _ _ _
  constructor
  · intro hrestored
    refine ⟨bytes, hbytes, ?_⟩
    cases hreplacement : request.replacement with
    | none =>
      rw [hrestored.files _ (hready.targetFree hreplacement).1] at hnew
      cases hnew
    | some path =>
      rw [replacement_named hsave] at hreplacement
      obtain ⟨draft, hdraft, hpath, -, -⟩ := replacementPath_eq_some hreplacement
      have htarget : draft.path = request.target := by
        rw [target_named hsave, hreplacement]
        exact hpath
      have hkept := (hrestored.previous draft hdraft).1
      rw [htarget, hnew] at hkept
      exact hkept.symm
  · rintro ⟨bytes', hbytes', hfile⟩
    obtain rfl := Option.some.inj (hbytes.symm.trans hbytes')
    have hsame : withFile store request.target bytes = store := by
      unfold withFile
      rw [← hfile, Function.update_eq_self]
    rw [hsame]
    exact restored_refl

theorem copyEnds_named (hready : request.Ready store) :
    CopyEnds request store faults (request.persist faults store) := by
  have hholds := holds_named store faults hsave
  unfold persist persistCopy
  rw [if_neg hsave]
  apply Prog.meets_andThen (Q := fun path t => ∃ bytes, request.bytes = some bytes ∧
    path = request.target ∧ t = request.stored store faults bytes ∧
    (request.Holds faults store ↔ request.DeletionHolds faults))
  · apply Prog.meets_mapError
    apply Prog.meets_zoom
    apply Prog.meets_relabel
    cases hcheck : checkSave request.context.json store.files request.draftsDir request.listing
        request.legacy request.fields (replacementPath request.draftsDir request.previous) with
    -- the check refuses the draft
    | error e =>
      have hcondition : request.Holds faults store := by
        rw [hholds, hcheck]
        intro hok
        cases hok
      apply (meets_saveNamedDraftFields_error hcheck).mono
      · exact fun _ _ hfalse => hfalse.elim
      · rintro _ files rfl
        exact ⟨hasCopy_refl, iff_of_true restored_refl hcondition⟩
      · rintro files rfl
        exact ⟨hasCopy_refl, hcondition⟩
    | ok bytes =>
      have hserialized := (checkSave_eq_ok hcheck).1
      have hbytes : request.bytes = some bytes := by
        unfold SaveRequest.bytes
        rw [if_neg hsave, hserialized]
        rfl
      have hcondition : request.Holds faults store ↔ match namedEndOf (faults ∘ .named) with
          | .done => request.DeletionHolds faults
          | .undone | .stopped => True
          | .leftBehind => False
          | .replaced => ∃ bytes, request.bytes = some bytes ∧
              store.files request.target = some { bytes := bytes } := by
        rw [hholds, hcheck]
        exact ⟨fun h => h rfl, fun h _ => h⟩
      have hfree := hready.temporaryFree
      rw [temporary_named hsave] at hfree
      have hends : Meets _ _ _ (saveNamedDraftFields request.context.json request.context.names
          request.draftsDir request.listing request.legacy request.fields
          (replacementPath request.draftsDir request.previous) (faults ∘ .named) store.files) :=
        meets_saveNamedDraftFields_ends hcheck (target_named hsave) (isJson_target hsave) hfree
      have hbegun : WriteBegun store.files (saveNamedDraftFields request.context.json
          request.context.names request.draftsDir request.listing request.legacy request.fields
          (replacementPath request.draftsDir request.previous) (faults ∘ .named) store.files).2
          request.temporary request.target bytes := by
        have hjson := isJson_target hsave
        rw [target_named hsave] at hjson
        rw [temporary_named hsave, target_named hsave]
        exact writeBegun_saveNamedDraftFields hserialized hjson
      apply (meets_and hends (meets_of_state (I := fun files => WriteBegun store.files files
        request.temporary request.target bytes) hbegun)).mono
      · rintro path files ⟨⟨hdone, hpath, hfiles⟩, -⟩
        refine ⟨bytes, hbytes, hpath, ?_, ?_⟩
        · rw [stored_named hsave, hfiles]
          rfl
        · rw [hcondition, hdone]
      · rintro _ files ⟨hfailed, hbegun⟩
        refine ⟨hasCopy_of_writeBegun hready hbytes hbegun, ?_⟩
        rw [hcondition]
        -- An error after the temporary file was made leaves it there, one after the rename leaves
        -- the draft.
        rcases hfailed with ⟨hundone, hfiles⟩ | ⟨hleft, file, hfiles⟩ | ⟨hreplaced, hfiles⟩
        · rw [hundone, hfiles]
          exact iff_of_true restored_refl trivial
        · rw [hleft]
          refine iff_of_false (not_restored_of_leftBehind ⟨request.temporary,
            hready.temporaryFree, ?_⟩) id
          rw [hfiles, temporary_named hsave]
          show (Function.update store.files _ (some file) _).isSome = true
          rw [Function.update_self]
          rfl
        · rw [hreplaced, hfiles]
          exact restored_renamed_iff hsave hready hbytes
      · rintro files ⟨hended, hbegun⟩
        refine ⟨hasCopy_of_writeBegun hready hbytes hbegun, hcondition.2 ?_⟩
        rcases hended with hstopped | hundone
        · rw [hstopped]
          trivial
        · rw [hundone]
          trivial
  · rintro path t ⟨bytes, hbytes, hpath, ht, hcondition⟩
    refine ⟨bytes, hbytes, hpath, ?_, ht, hcondition⟩
    unfold indexes
    rw [Bool.eq_false_iff.2 hsave]
    rfl

end Named

theorem copyEnds (hready : request.Ready store) :
    CopyEnds request store faults (request.persist faults store) := by
  by_cases hsave : request.options.saveDraftsToMaildir = true
  · exact copyEnds_maildir hsave hready
  · exact copyEnds_named hsave hready

/-! ## The previous copy -/

section Replacing

variable {previous active : ActiveDraft}

theorem files_stored (request : SaveRequest M) (store : DraftStore)
    (faults : DraftSaveOp → Fault) (bytes : Bytes) :
    (request.stored store faults bytes).files =
      Function.update store.files request.target (some { bytes := bytes }) := by
  unfold stored
  split
  · rfl
  · rfl

theorem indexed_stored_of_ne {path : Path Dir} (hne : path ≠ request.target) :
    (request.stored store faults bytes).indexed path = store.indexed path := by
  unfold stored
  split
  · exact Function.update_of_ne hne _ _
  · rfl

theorem indexed_stored_target (hnot : store.indexed request.target = false) :
    (request.stored store faults bytes).indexed request.target =
      (request.indexes && entryCommitted faults) := by
  unfold stored
  split
  · rename_i hentry
    rw [hentry]
    exact Function.update_self _ _ _
  · rename_i hentry
    rw [Bool.eq_false_iff.2 hentry]
    exact hnot

/-- The entry of the new copy is as the save wants it. -/
theorem entry_iff (request : SaveRequest M) (faults : DraftSaveOp → Fault) :
    (request.indexes && entryCommitted faults) = request.indexes ↔
      (request.indexes = true → entryCommitted faults = true) := by
  cases request.indexes with
  | true =>
    rw [Bool.true_and]
    exact ⟨fun h _ => h, fun h => h rfl⟩
  | false => exact iff_of_true rfl fun h => absurd h Bool.false_ne_true

/-- Without its file, the new copy leaves at most its entry. -/
theorem withoutFile_stored (hfiles : store.files request.target = none)
    (hpath : active.path = request.target) :
    withoutFile (request.stored store faults bytes) active.path =
      if request.indexes && entryCommitted faults then withEntry store request.target
      else store := by
  have hfilesBack : (withoutFile (request.stored store faults bytes) active.path).files =
      store.files := by
    show Function.update (request.stored store faults bytes).files active.path none = store.files
    rw [files_stored, hpath, Function.update_idem, ← hfiles, Function.update_eq_self]
  show DraftStore.mk (withoutFile (request.stored store faults bytes) active.path).files
    (request.stored store faults bytes).indexed = _
  rw [hfilesBack]
  unfold stored
  split
  · rfl
  · rfl

/-- The rollback undoes the new copy. -/
theorem deleted_stored (hfiles : store.files request.target = none)
    (hnot : store.indexed request.target = false) (hpath : active.path = request.target)
    (hindexed : active.indexed = request.indexes) :
    deleted (request.stored store faults bytes) active = store := by
  have hnever : withoutEntry store active.path = store := by
    unfold withoutEntry
    rw [hpath, ← hnot, Function.update_eq_self]
  have hremoved : withoutEntry (withEntry store request.target) active.path = store := by
    show DraftStore.mk store.files
      (Function.update (Function.update store.indexed request.target true) active.path false) = _
    rw [hpath, Function.update_idem, ← hnot, Function.update_eq_self]
  have hfile : withoutFile (request.stored store faults bytes) active.path = _ :=
    withoutFile_stored hfiles hpath
  unfold deleted unindexed
  rw [hindexed]
  cases hentry : request.indexes with
  | false =>
    rw [hentry] at hfile
    exact hfile
  | true =>
    show withoutEntry (withoutFile (request.stored store faults bytes) active.path) active.path =
      store
    rw [hfile]
    split
    · exact hremoved
    · exact hnever

/-- The new copy is on the disk. -/
theorem hasCopy_of_files (hbytes : request.bytes = some bytes)
    (h : t.files = (request.stored store faults bytes).files) : request.HasCopy store t := by
  intro previous _
  refine Or.inr ⟨request.target, bytes, hbytes, ?_⟩
  rw [h, files_stored, Function.update_self]

/-- A new copy that has stayed. -/
theorem not_restored_of_files (hfree : store.files request.target = none)
    (h : t.files = (request.stored store faults bytes).files) : ¬ request.Restored store t := by
  apply not_restored_of_leftBehind
  refine ⟨request.target, hfree, ?_⟩
  rw [h, files_stored, Function.update_self]
  rfl

/-- The entry of the previous copy is lost. -/
theorem not_restored_of_unindexed (hready : request.Ready store)
    (hprevious : request.previous = some previous) (hwas : previous.indexed = true)
    (h : t.indexed previous.path = false) : ¬ request.Restored store t := by
  intro hrestored
  have hkept := (hrestored.previous previous hprevious).2
  rw [hready.indexed previous hprevious, hwas, h] at hkept
  cases hkept

/-- The rollback, from a store in which the new copy has its file. What it leaves of that store is a
copy of the draft in any case: the previous one has its file as well. -/
theorem meets_rollback (hfree : store.files request.target = none)
    (hbytes : request.bytes = some bytes) (hpath : active.path = request.target)
    (hindexed : active.indexed = request.indexes) {between : DraftStore}
    (hbetween : between.files = (request.stored store faults bytes).files) :
    Meets
      (fun _ t => request.HasCopy store t ∧
        (deletionOf faults .replacement request.indexes = .done ∧ t = deleted between active ∨
          deletionOf faults .replacement request.indexes = .stale ∧ request.indexes = true ∧
            t = withoutFile between active.path ∨
          deletionOf faults .replacement request.indexes = .overlooked ∧
            ¬ request.Restored store t))
      (fun _ t => request.HasCopy store t ∧ ¬ request.Restored store t ∧
        (deletionOf faults .replacement request.indexes = .refused ∨
          deletionOf faults .replacement request.indexes = .halfDone))
      (fun t => request.HasCopy store t ∧
        deletionOf faults .replacement request.indexes = .stopped)
      (deleteDraftSource .replacement active faults between) := by
  have hpresent : (between.files active.path).isSome = true := by
    rw [hbetween, files_stored, hpath, Function.update_self]
    rfl
  have hback : Function.update between.files active.path none = store.files := by
    rw [hbetween, files_stored, hpath, Function.update_idem, ← hfree, Function.update_eq_self]
  have hcopy : ∀ t : DraftStore, t.files = Function.update between.files active.path none →
      request.HasCopy store t := by
    intro t ht previous _
    rw [ht, hback]
    exact Or.inl rfl
  have hkept := files_unindexed between active
  have hends : Meets _ _ _ (deleteDraftSource .replacement active faults between) :=
    meets_deleteDraftSource hpresent
  rw [hindexed] at hends
  apply hends.mono
  · rintro _ t (⟨hdone, ht⟩ | ⟨hstale, hentry, ht⟩ | ⟨hoverlooked, ht⟩)
    · refine ⟨hcopy t ?_, Or.inl ⟨hdone, ht⟩⟩
      rw [ht, files_deleted]
    · refine ⟨hcopy t ?_, Or.inr (Or.inl ⟨hstale, hentry, ht⟩)⟩
      rw [ht]
      rfl
    · exact ⟨hasCopy_of_files hbytes (ht.trans hbetween), Or.inr (Or.inr ⟨hoverlooked,
        not_restored_of_files hfree (ht.trans hbetween)⟩)⟩
  · rintro _ t (⟨hrefused, ht⟩ | ⟨hhalf, -, ht⟩)
    · rw [ht]
      exact ⟨hasCopy_of_files hbytes hbetween, not_restored_of_files hfree hbetween,
        Or.inl hrefused⟩
    · rw [ht]
      exact ⟨hasCopy_of_files hbytes (hkept.trans hbetween),
        not_restored_of_files hfree (hkept.trans hbetween), Or.inr hhalf⟩
  · rintro t ⟨hstopped, ht⟩
    exact ⟨hasCopy_of_files hbytes (ht.trans hbetween), hstopped⟩

/-- An entry that the rollback leaves is there only if it has been committed. -/
theorem restored_withoutFile_iff (hfree : store.files request.target = none)
    (hnot : store.indexed request.target = false) (hpath : active.path = request.target)
    (hindexes : request.indexes = true) :
    request.Restored store (withoutFile (request.stored store faults bytes) active.path) ↔
      entryCommitted faults = false := by
  rw [withoutFile_stored hfree hpath, hindexes, Bool.true_and]
  cases entryCommitted faults with
  | false => exact iff_of_true restored_refl rfl
  | true =>
    refine iff_of_false (fun hrestored => ?_) Bool.true_eq_false.mp
    have hentry : (withEntry store request.target).indexed request.target = true :=
      Function.update_self _ _ _
    have hnone : (withEntry store request.target).indexed request.target = false :=
      hrestored.indexed _ hnot
    rw [hentry] at hnone
    cases hnone

/-- **The rollback after a deletion that was refused** has only the new copy to take away. -/
theorem meets_rollback_refused (hfree : store.files request.target = none)
    (hnot : store.indexed request.target = false) (hbytes : request.bytes = some bytes)
    (hpath : active.path = request.target) (hindexed : active.indexed = request.indexes) :
    Meets
      (fun _ t => request.HasCopy store t ∧
        (request.Restored store t ↔ RollbackHolds faults request.indexes))
      (fun _ t => request.HasCopy store t ∧
        (request.Restored store t ↔ RollbackHolds faults request.indexes))
      (fun t => request.HasCopy store t ∧ RollbackHolds faults request.indexes)
      (deleteDraftSource .replacement active faults (request.stored store faults bytes)) := by
  have hends : Meets _ _ _
      (deleteDraftSource .replacement active faults (request.stored store faults bytes)) :=
    meets_rollback hfree hbytes hpath hindexed rfl
  unfold RollbackHolds
  apply hends.mono
  · rintro _ t ⟨hcopy, ⟨hdone, ht⟩ | ⟨hstale, hindexes, ht⟩ | ⟨hoverlooked, hstays⟩⟩
    · rw [hdone, ht, deleted_stored hfree hnot hpath hindexed]
      exact ⟨fun _ _ => Or.inl rfl, iff_of_true restored_refl trivial⟩
    · refine ⟨hcopy, ?_⟩
      rw [hstale, ht]
      exact restored_withoutFile_iff hfree hnot hpath hindexes
    · rw [hoverlooked]
      exact ⟨hcopy, iff_of_false hstays id⟩
  · rintro _ t ⟨hcopy, hstays, hrefused | hhalf⟩
    · rw [hrefused]
      exact ⟨hcopy, iff_of_false hstays id⟩
    · rw [hhalf]
      exact ⟨hcopy, iff_of_false hstays id⟩
  · rintro t ⟨hcopy, hstopped⟩
    rw [hstopped]
    exact ⟨hcopy, trivial⟩

/-- **The rollback after a deletion that was half done** comes too late for the entry of the
previous copy. -/
theorem meets_rollback_halfDone (hready : request.Ready store)
    (hprevious : request.previous = some previous) (hwas : previous.indexed = true)
    (hfree : store.files request.target = none) (hbytes : request.bytes = some bytes)
    (hpath : active.path = request.target) (hindexed : active.indexed = request.indexes)
    (hne : previous.path ≠ active.path) :
    Meets
      (fun _ t => request.HasCopy store t ∧
        (request.Restored store t ↔ deletionOf faults .replacement request.indexes = .stopped))
      (fun _ t => request.HasCopy store t ∧
        (request.Restored store t ↔ deletionOf faults .replacement request.indexes = .stopped))
      (fun t => request.HasCopy store t ∧
        deletionOf faults .replacement request.indexes = .stopped)
      (deleteDraftSource .replacement active faults
        (unindexed (request.stored store faults bytes) previous)) := by
  have hgone : (unindexed (request.stored store faults bytes) previous).indexed previous.path =
      false := by
    unfold unindexed
    rw [if_pos hwas]
    exact Function.update_self _ _ _
  have hends : Meets _ _ _ (deleteDraftSource .replacement active faults
      (unindexed (request.stored store faults bytes) previous)) :=
    meets_rollback hfree hbytes hpath hindexed (files_unindexed _ _)
  apply hends.mono
  · rintro _ t ⟨hcopy, ⟨hdone, ht⟩ | ⟨hstale, -, ht⟩ | ⟨hoverlooked, hstays⟩⟩
    · refine ⟨hcopy, iff_of_false (not_restored_of_unindexed hready hprevious hwas ?_) ?_⟩
      · rw [ht]
        exact (indexed_unindexed_of_ne hne).trans hgone
      · rw [hdone]
        decide
    · refine ⟨hcopy, iff_of_false (not_restored_of_unindexed hready hprevious hwas ?_) ?_⟩
      · rw [ht]
        exact hgone
      · rw [hstale]
        decide
    · rw [hoverlooked]
      exact ⟨hcopy, iff_of_false hstays (by decide)⟩
  · rintro _ t ⟨hcopy, hstays, hrefused | hhalf⟩
    · rw [hrefused]
      exact ⟨hcopy, iff_of_false hstays (by decide)⟩
    · rw [hhalf]
      exact ⟨hcopy, iff_of_false hstays (by decide)⟩
  · exact fun _ ht => ht

/-- A previous copy that the deletion has reached is gone, and the new one is there: all that may be
missing is its entry. -/
theorem saved_deleted_iff (hready : request.Ready store)
    (hprevious : request.previous = some previous) (hnot : store.indexed request.target = false)
    (hbytes : request.bytes = some bytes) (hpath : active.path = request.target)
    (hne : previous.path ≠ request.target) :
    request.Saved active (deleted (request.stored store faults bytes) previous) ↔
      (request.indexes = true → entryCommitted faults = true) := by
  have hentry : (deleted (request.stored store faults bytes) previous).indexed active.path =
      (request.indexes && entryCommitted faults) := by
    rw [hpath]
    exact (indexed_unindexed_of_ne hne.symm).trans (indexed_stored_target hnot)
  rw [← entry_iff, ← hentry]
  refine ⟨Saved.indexed, fun hindexed => ⟨⟨bytes, hbytes, ?_⟩, hindexed, ?_⟩⟩
  · rw [files_deleted, hpath, Function.update_of_ne hne.symm, files_stored, Function.update_self]
  · intro previous' hprevious' _
    obtain rfl := Option.some.inj (hprevious.symm.trans hprevious')
    refine ⟨by rw [files_deleted, Function.update_self], ?_⟩
    show (unindexed (request.stored store faults bytes) previous).indexed previous.path = false
    unfold unindexed
    split
    · exact Function.update_self _ _ _
    · rename_i hwas
      rw [indexed_stored_of_ne hne, hready.indexed previous hprevious]
      exact Bool.eq_false_iff.2 hwas

/-- A previous copy whose entry was known is not gone without it. -/
theorem not_saved_of_stale (hready : request.Ready store)
    (hprevious : request.previous = some previous) (hwas : previous.indexed = true)
    (hneTarget : previous.path ≠ request.target) (hne : previous.path ≠ active.path) :
    ¬ request.Saved active (withoutFile (request.stored store faults bytes) previous.path) := by
  intro hsaved
  have hgone : (request.stored store faults bytes).indexed previous.path = false :=
    (hsaved.replaced previous hprevious hne).2
  rw [indexed_stored_of_ne hneTarget, hready.indexed previous hprevious, hwas] at hgone
  cases hgone

/-- What the deletion of the previous copy leaves when it returns, with or without an error. -/
def PreviousDeleted (request : SaveRequest M) (store : DraftStore) (faults : DraftSaveOp → Fault)
    (bytes : Bytes) (previous : ActiveDraft) : Except DeleteError Unit → DraftStore → Prop
  | .ok _, t =>
    deletionOf faults .previous previous.indexed = .done ∧
        t = deleted (request.stored store faults bytes) previous ∨
      deletionOf faults .previous previous.indexed = .stale ∧ previous.indexed = true ∧
        t = withoutFile (request.stored store faults bytes) previous.path ∨
      deletionOf faults .previous previous.indexed = .overlooked ∧
        t.files = (request.stored store faults bytes).files
  | .error _, t =>
    deletionOf faults .previous previous.indexed = .refused ∧
        t = request.stored store faults bytes ∨
      deletionOf faults .previous previous.indexed = .halfDone ∧ previous.indexed = true ∧
        t = unindexed (request.stored store faults bytes) previous

/-- What becomes of a previous copy at another path. -/
theorem meets_deletePrevious (hready : request.Ready store)
    (hprevious : request.previous = some previous) (hfree : store.files request.target = none)
    (hnot : store.indexed request.target = false) (hbytes : request.bytes = some bytes)
    (hpath : active.path = request.target) (hindexed : active.indexed = request.indexes)
    (hne : previous.path ≠ active.path) :
    Meets
      (fun _ t => request.HasCopy store t ∧
        (request.Saved active t ↔ ReplacementHolds faults previous.indexed request.indexes))
      (fun _ t => request.HasCopy store t ∧
        (request.Restored store t ↔ ReplacementHolds faults previous.indexed request.indexes))
      (fun t => request.HasCopy store t ∧
        ReplacementHolds faults previous.indexed request.indexes)
      (replacePrevious request.previous active faults (request.stored store faults bytes)) := by
  have hneTarget : previous.path ≠ request.target := by
    rw [← hpath]
    exact hne
  have hpresent : ((request.stored store faults bytes).files previous.path).isSome = true := by
    rw [files_stored, Function.update_of_ne hneTarget]
    exact hready.present previous hprevious
  rw [hprevious]
  unfold replacePrevious
  simp only
  rw [if_neg hne]
  apply Prog.meets_andThen (Q := PreviousDeleted request store faults bytes previous)
  · apply Prog.meets_attempt
    apply (meets_deleteDraftSource hpresent).mono
    · exact fun _ _ ht => ht
    · exact fun _ _ ht => ht
    · rintro t ⟨hstopped, ht⟩
      refine ⟨hasCopy_of_files hbytes ht, ?_⟩
      unfold ReplacementHolds
      rw [hstopped]
      trivial
  intro result t ht
  unfold ReplacementHolds
  cases result with
  | ok _ =>
    -- the new copy is on the disk, so that only the law is in question
    have hcopy : ∀ t : DraftStore, t.files =
        Function.update (request.stored store faults bytes).files previous.path none →
        request.HasCopy store t := by
      intro t ht _ _
      refine Or.inr ⟨request.target, bytes, hbytes, ?_⟩
      rw [ht, Function.update_of_ne hneTarget.symm, files_stored, Function.update_self]
    rcases ht with ⟨hdone, rfl⟩ | ⟨hstale, hwas, rfl⟩ | ⟨hoverlooked, ht⟩
    · rw [hdone]
      exact ⟨hcopy _ (files_deleted _ _),
        saved_deleted_iff hready hprevious hnot hbytes hpath hneTarget⟩
    · rw [hstale]
      exact ⟨hcopy _ rfl,
        iff_of_false (not_saved_of_stale hready hprevious hwas hneTarget hne) id⟩
    · rw [hoverlooked]
      refine ⟨hasCopy_of_files hbytes ht, iff_of_false (fun hsaved => ?_) id⟩
      have hgone := (hsaved.replaced previous hprevious hne).1
      rw [ht] at hgone
      rw [hgone] at hpresent
      cases hpresent
  | error deleteError =>
    rcases ht with ⟨hrefused, rfl⟩ | ⟨hhalf, hwas, rfl⟩
    · rw [hrefused]
      apply Prog.meets_andThen (Q := fun _ u => request.HasCopy store u ∧
        (request.Restored store u ↔ RollbackHolds faults request.indexes))
      · exact Prog.meets_attempt (meets_rollback_refused hfree hnot hbytes hpath hindexed)
      · intro rolledBack u hu
        cases rolledBack with
        | ok _ => exact hu
        | error rollbackError => exact hu
    · rw [hhalf]
      apply Prog.meets_andThen (Q := fun _ u => request.HasCopy store u ∧
        (request.Restored store u ↔ deletionOf faults .replacement request.indexes = .stopped))
      · exact Prog.meets_attempt
          (meets_rollback_halfDone hready hprevious hwas hfree hbytes hpath hindexed hne)
      · intro rolledBack u hu
        cases rolledBack with
        | ok _ => exact hu
        | error rollbackError => exact hu

end Replacing

/-! ## The whole save -/

/-- A named draft that is written over is the previous one. -/
theorem previous_of_replacement {path : Path Dir} (h : request.replacement = some path) :
    ∃ previous, request.previous = some previous ∧ previous.path = request.target ∧
      previous.indexed = false := by
  have hsave : ¬ request.options.saveDraftsToMaildir = true := by
    intro hsave
    rw [replacement_maildir hsave] at h
    cases h
  rw [replacement_named hsave] at h
  obtain ⟨previous, hprevious, hpath, hindexed, -⟩ := replacementPath_eq_some h
  refine ⟨previous, hprevious, ?_, hindexed⟩
  rw [target_named hsave, h]
  exact hpath

theorem notIndexed_target (hready : request.Ready store) :
    store.indexed request.target = false := by
  cases hreplacement : request.replacement with
  | none => exact (hready.targetFree hreplacement).2
  | some path =>
    obtain ⟨previous, hprevious, hpath, hindexed⟩ := previous_of_replacement hreplacement
    rw [← hpath, hready.indexed previous hprevious]
    exact hindexed

/-- Where nothing has to be deleted, the new copy and its entry are all there is to save. -/
theorem saved_stored_iff {active : ActiveDraft} (hready : request.Ready store)
    (hbytes : request.bytes = some bytes) (hpath : active.path = request.target)
    (hnothing : ∀ previous, request.previous = some previous → previous.path = active.path) :
    request.Saved active (request.stored store faults bytes) ↔
      (request.indexes = true → entryCommitted faults = true) := by
  have hentry : (request.stored store faults bytes).indexed active.path =
      (request.indexes && entryCommitted faults) := by
    rw [hpath]
    exact indexed_stored_target (notIndexed_target hready)
  rw [← entry_iff, ← hentry]
  refine ⟨Saved.indexed, fun hindexed => ⟨⟨bytes, hbytes, ?_⟩, hindexed, ?_⟩⟩
  · rw [hpath, files_stored, Function.update_self]
  · exact fun previous hprevious hne => absurd (hnothing previous hprevious) hne

/-- Only a named draft is written over, and it is not indexed. -/
theorem indexes_of_replacement (h : request.replacement ≠ none) : request.indexes = false := by
  cases hsave : request.options.saveDraftsToMaildir with
  | true => exact absurd (replacement_maildir hsave) h
  | false =>
    unfold indexes
    rw [hsave]
    rfl

theorem meets_replacePrevious {active : ActiveDraft} (hready : request.Ready store)
    (hbytes : request.bytes = some bytes) (hpath : active.path = request.target)
    (hindexed : active.indexed = request.indexes) :
    Meets
      (fun _ t => request.HasCopy store t ∧
        (request.Saved active t ↔ request.DeletionHolds faults))
      (fun _ t => request.HasCopy store t ∧
        (request.Restored store t ↔ request.DeletionHolds faults))
      (fun t => request.HasCopy store t ∧ request.DeletionHolds faults)
      (replacePrevious request.previous active faults (request.stored store faults bytes)) := by
  have hcopy : request.HasCopy store (request.stored store faults bytes) :=
    hasCopy_of_files hbytes rfl
  cases hprevious : request.previous with
  | none =>
    refine ⟨hcopy, (saved_stored_iff hready hbytes hpath fun previous hsome => ?_).trans ?_⟩
    · rw [hprevious] at hsome
      cases hsome
    · refine ⟨fun hentry => ⟨fun _ => hentry, fun previous hsome => ?_⟩, fun h => h.1 hprevious⟩
      rw [hprevious] at hsome
      cases hsome
  | some previous =>
    have honly : ∀ previous', request.previous = some previous' → previous' = previous :=
      fun previous' hsome => Option.some.inj (hsome.symm.trans hprevious)
    have hsome : ¬ request.previous = none := by
      rw [hprevious]
      exact Option.some_ne_none previous
    by_cases hsame : previous.path = active.path
    · unfold replacePrevious
      simp only
      rw [if_pos hsame]
      -- a fresh name would be free, so the previous copy is a named draft that is written over
      have hover : request.replacement ≠ none := by
        intro hfresh
        have hpresent := hready.present previous hprevious
        rw [hsame, hpath, (hready.targetFree hfresh).1] at hpresent
        cases hpresent
      have hindexes := indexes_of_replacement hover
      refine ⟨hcopy, (saved_stored_iff hready hbytes hpath fun previous' h => ?_).trans ?_⟩
      · rw [honly previous' h]
        exact hsame
      · refine iff_of_true (fun h => ?_) ⟨fun h => absurd h hsome, fun _ _ h => absurd h hover⟩
        rw [hindexes] at h
        cases h
    · have hreplacement : request.replacement = none := by
        by_contra hsome
        obtain ⟨path, hsome⟩ := Option.ne_none_iff_exists'.1 hsome
        obtain ⟨previous', hprevious', htarget, -⟩ := previous_of_replacement hsome
        rw [honly previous' hprevious', ← hpath] at htarget
        exact hsame htarget
      obtain ⟨hfree, hnot⟩ := hready.targetFree hreplacement
      have hcondition : request.DeletionHolds faults ↔
          ReplacementHolds faults previous.indexed request.indexes := by
        constructor
        · intro h
          exact h.2 previous hprevious hreplacement
        · refine fun h => ⟨fun hnone => absurd hnone hsome, fun previous' hsome' _ => ?_⟩
          rw [honly previous' hsome']
          exact h
      rw [← hprevious]
      simp only [hcondition]
      exact meets_deletePrevious hready hprevious hfree hnot hbytes hpath hindexed hsame

theorem meets_perform (hready : request.Ready store) :
    Meets
      (fun result t => request.HasCopy store t ∧
        (request.Saved result.activeDraft t ↔ request.Holds faults store))
      (fun _ t => request.HasCopy store t ∧
        (request.Restored store t ↔ request.Holds faults store))
      (fun t => request.HasCopy store t ∧ request.Holds faults store)
      (request.perform faults store) := by
  unfold perform performCapturedDraftSave
  apply Prog.meets_andThen (copyEnds hready)
  rintro copy t ⟨bytes, hbytes, hpath, hindexed, rfl, hcondition⟩
  rw [hcondition]
  apply Prog.meets_andThen (meets_replacePrevious hready hbytes hpath hindexed)
  exact fun _ _ ht => ht

/-- **What a save does, and when.** A copy of the draft is on the disk wherever the save ends,
whatever its steps meet. The save has the effect that it should, on `Ok` and on `Err`, exactly when
its steps end as `Holds` says; a process that stops owes nothing but the copy. -/
theorem draft_save_iff (request : SaveRequest M) (store : DraftStore)
    (hready : request.Ready store) (faults : DraftSaveOp → Fault) :
    request.HasCopy store (request.perform faults store).2 ∧
      (Meets (fun result t => request.Saved result.activeDraft t)
        (fun _ t => request.Restored store t) (fun _ => True) (request.perform faults store) ↔
          request.Holds faults store) := by
  have hends : Meets _ _ _ (request.perform faults store) := meets_perform hready
  constructor
  · apply Meets.state (I := fun t => request.HasCopy store t)
    exact hends.mono (fun _ _ h => h.1) (fun _ _ h => h.1) fun _ h => h.1
  · apply Meets.iff
    apply hends.mono
    · exact fun _ _ h => h.2
    · exact fun _ _ h => h.2
    · exact fun _ h => iff_of_true trivial h.2

end Ends

/-! ## A message that replaces another one -/

def sampleMaildir : Dir := [OsString.ofStr "mail".toList, draftsName]

def samplePrevious : ActiveDraft where
  path := maildirPath (OsString.ofStr "1.notm".toList) sampleMaildir "D".toList
  messageId := some "1@notm".toList
  indexed := true
  savedFields := { subject := "a".toList }

def sampleMessage : Bytes := Utf8.encode "Subject: b\r\n\r\n".toList

/-- The fields of `samplePrevious` with another subject. -/
def sampleRequest : SaveRequest Bytes where
  context := {
    composedMessageFromFields := fun _ => .ok sampleMessage
    toRfc5322 := .ok
    databaseRoot := [OsString.ofStr "mail".toList]
    messageId := fun _ => "2@notm".toList
    json := sampleJson
    unique := OsString.ofStr "2.notm".toList
    names := ⟨"1".toList, "2".toList, "3".toList⟩ }
  options := {
    saveDraftsToMaildir := true
    draftMaildir := some sampleMaildir
    mailRoot := none
    databasePath := none
    indexDraftAfterSave := true
    draftTags := ["draft".toList] }
  draftsDir := []
  listing := []
  legacy := none
  fields := { subject := "b".toList }
  previous := some samplePrevious

def sampleStore : DraftStore where
  files path := if path = samplePrevious.path then some { bytes := [] } else none
  indexed path := path = samplePrevious.path

theorem ready_sampleRequest : sampleRequest.Ready sampleStore where
  present := by
    intro previous hprevious
    obtain rfl := Option.some.inj hprevious
    decide
  indexed := by
    intro previous hprevious
    obtain rfl := Option.some.inj hprevious
    decide
  temporaryFree := by decide
  targetFree := by
    intro _
    decide

/-- The new message is deleted again when the database cannot be opened for the previous one. -/
theorem draft_save_rolled_back :
    sampleRequest.HasCopy sampleStore (sampleRequest.perform
      (fun label => if label = .delete .previous .openDatabase then .fails 0 else .passes)
      sampleStore).2 ∧
    Meets (fun result t => sampleRequest.Saved result.activeDraft t)
      (fun _ t => sampleRequest.Restored sampleStore t) (fun _ => True)
      (sampleRequest.perform
        (fun label => if label = .delete .previous .openDatabase then .fails 0 else .passes)
        sampleStore) := by
  have hboth := draft_save_iff sampleRequest sampleStore ready_sampleRequest
    (fun label => if label = .delete .previous .openDatabase then .fails 0 else .passes)
  refine ⟨hboth.1, hboth.2.2 fun _ _ => ⟨fun hnone => absurd hnone (Option.some_ne_none _), ?_⟩⟩
  intro previous hprevious _
  obtain rfl := Option.some.inj hprevious
  -- the deletion is refused and its rollback done
  exact trivial

/-- The new message stays when the database cannot be opened to index it. -/
theorem draft_save_leaves_message :
    ¬ Meets (fun result t => sampleRequest.Saved result.activeDraft t)
      (fun _ t => sampleRequest.Restored sampleStore t) (fun _ => True)
      (sampleRequest.perform
        (fun label => if label = .index .openDatabase then .fails 0 else .passes)
        sampleStore) := by
  have hleft : sampleStore.files sampleRequest.target = none ∧
      ((sampleRequest.perform
        (fun label => if label = .index .openDatabase then .fails 0 else .passes)
        sampleStore).2.files sampleRequest.target).isSome = true := by decide
  have hfails : (sampleRequest.perform
      (fun label => if label = .index .openDatabase then .fails 0 else .passes)
      sampleStore).1 = .error .database := rfl
  intro hlaw
  exact not_restored_of_leftBehind ⟨_, hleft⟩ (hlaw.of_error hfails)

end SaveRequest

end Notm.Ui
