import Notm.Lib.Overwrite
import Notm.Notmuch.Error
import Notm.Notmuch.MaildirFilenames

/-!
# Tag mutations of a batch of messages

`apply_prepared_tag_mutations` and what it calls. The calls into libnotmuch may fail: how they go
for one message is a value of `MessageCalls`, and any such value is possible. A call that fails
changes nothing.

* `MessageCalls` — how the calls of libnotmuch go for one message.
* `editTags_prefix`, `changeTags_target` — a loop over the tags stops at the first failure.
* `Mutated`, `Reports` — what a mutation makes of the tags, and what is reported of it.
* `mutateMessage_spec`, `finalizeMessageMutation_spec` — the two parts of a mutation.
-/

namespace Notm.Notmuch

open Rust

/-- A message of the database. -/
structure Message (P : Type*) where
  tags : BTreeSet Str
  filenames : List P

/-- How the calls of libnotmuch go for one message: the texts of the errors, and what is there
after the flags have been written into the filenames. -/
structure MessageCalls (P : Type*) where
  findMessage : Option Str := none
  freeze : Option Str := none
  removeTag : Str → Option Str := fun _ => none
  addTag : Str → Option Str := fun _ => none
  thaw : Option Str := none
  tagsToMaildirFlags : Option Str := none
  syncedFilenames : List P := []
  pathIsMessageFile : P → Bool := fun _ => true

/-- A change that was made, and the files that the message has after it. -/
structure AppliedMessageMutation (P : Type*) where
  change : AppliedTagChange
  pathState : MessagePathState P

/-- What becomes of one message: the change, if there is one, and the calls that failed. -/
structure MessageMutationOutcome (P : Type*) where
  applied : Option (AppliedMessageMutation P) := none
  failures : List MessageTagFailure := []

/-! ## Effective mutations and changes -/

/-- The tags after the removals and then the additions. -/
def targetTags (before : BTreeSet Str) (add remove : List Str) : BTreeSet Str :=
  add.foldl .insert (remove.foldl .remove before)

/-- What a mutation changes about the tags that a message has. Tags that are there already are not
added, nor are those removed that are not. -/
def effectiveTagMutation (currentTags : List Str) (mutation : TagMutation) : Option TagMutation :=
  let before := BTreeSet.ofList currentTags
  let after := targetTags before mutation.add mutation.remove
  let added := after.difference before
  let removed := before.difference after
  if added.isEmpty && removed.isEmpty then none
  else
    some { add := added, remove := removed, syncMaildirFlags := mutation.syncMaildirFlags }

/-- `sort` and `dedup`. -/
def sortDedup (xs : List Str) : List Str := (BTreeSet.ofList xs).toList

/-- The difference between the tags before and after, as sets. A change of file names alone counts
as a change too. -/
def appliedTagChange (messageId : Str) (beforeTags afterTags filenames : List Str)
    (filenameChanges : List MaildirFilenameChange) : Option AppliedTagChange :=
  let before := BTreeSet.ofList beforeTags
  let after := BTreeSet.ofList afterTags
  let added := after.difference before
  let removed := before.difference after
  let filenamesChanged := filenameChanges.any fun change =>
    change.previousFilename ≠ change.currentFilename
  if added.isEmpty && removed.isEmpty && !filenamesChanged then none
  else
    some { messageId := messageId, added := added, removed := removed, tags := sortDedup afterTags
           filenames := sortDedup filenames, filenameChanges := filenameChanges }

/-! ## One message -/

/-- The loop over the tags to remove, or that over the tags to add: it stops at the first call
that fails, whose text it returns. -/
def editTags (call : Str → Option Str) (edit : BTreeSet Str → Str → BTreeSet Str) (doing : String) :
    List Str → BTreeSet Str → BTreeSet Str × Option Str
  | [], tags => (tags, none)
  | tag :: rest, tags =>
    match cStringError tag with
    | some error => (tags, some error)
    | none =>
      match call tag with
      | some error =>
        (tags, some (doing.toList ++ " tag `".toList ++ tag ++ "` failed: ".toList ++ error))
      | none => editTags call edit doing rest (edit tags tag)

section

variable {P : Type*} (calls : MessageCalls P)

/-- The removals stop at the first call that fails. -/
def removeTags : List Str → BTreeSet Str → BTreeSet Str × Option Str :=
  editTags calls.removeTag .remove "removing"

/-- So do the additions. -/
def addTags : List Str → BTreeSet Str → BTreeSet Str × Option Str :=
  editTags calls.addTag .insert "adding"

/-- The tags after both loops, with the stage and the text of a failure. -/
def changeTags (effective : TagMutation) (tags : BTreeSet Str) :
    BTreeSet Str × Option (TagFailureStage × Str) :=
  match removeTags calls effective.remove tags with
  | (tags, some error) => (tags, some (.removeTag, error))
  | (tags, none) =>
    match addTags calls effective.add tags with
    | (tags, some error) => (tags, some (.addTag, error))
    | (tags, none) => (tags, none)

variable [LinearOrder P] (path : PathText P)

/-- `sort`. -/
def sortPaths (paths : List P) : List P := paths.insertionSort (· ≤ ·)

def reportFilenames (paths : List P) : List Str := paths.map path.toStringLossy

/-- Paths are reported as text, with replacement characters for what is no UTF-8. -/
def reportFilenameChanges (changes : List (MaildirPathChange P)) : List MaildirFilenameChange :=
  changes.map fun change =>
    { previousFilename := path.toStringLossy change.previousPath
      currentFilename := path.toStringLossy change.currentPath }

/-- Every failure is given the present file names. A thaw that has failed leaves nothing that could
be reported as applied. -/
def finalizeMessageMutation (messageId : Str) (beforeTags afterTags : List Str)
    (currentFilenamePaths : List P) (pathChanges : List (MaildirPathChange P))
    (failures : List MessageTagFailure) : MessageMutationOutcome P :=
  let currentFilenames := reportFilenames path currentFilenamePaths
  let failures := failures.map fun failure =>
    { failure with currentFilenames := currentFilenames }
  if failures.any fun failure => failure.stage = .thaw then
    { applied := none, failures := failures }
  else
    { applied := (appliedTagChange messageId beforeTags afterTags currentFilenames
        (reportFilenameChanges path pathChanges)).map fun change =>
          { change := change
            pathState :=
              { messageId := messageId, paths := currentFilenamePaths
                pathChanges := pathChanges } }
      failures := failures }

/-- The part of `mutate_message` behind the tags: the current filenames, their changes and the
failures of writing the flags into them. -/
def syncFilenames (messageId : Str) (beforeFilenamePaths : List P) (afterTags : List Str) :
    List P × List (MaildirPathChange P) × List MessageTagFailure :=
  let expectations := beforeFilenamePaths.map fun filename =>
    (filename, expectedMaildirFilename path filename afterTags)
  let (authoritative, pathChanges, fileFailures) := reconcileMaildirFilenames
    calls.pathIsMessageFile path.toStringLossy expectations (sortPaths calls.syncedFilenames)
  let failure := fun detail =>
    { messageId := messageId, stage := .maildirFlagSync, detail := detail
      currentFilenames := reportFilenames path authoritative, fileFailures := fileFailures }
  let failures :=
    match calls.tagsToMaildirFlags with
    | some error => [failure error]
    | none =>
      if fileFailures.isEmpty then []
      else [failure "one or more Maildir files were not renamed to the expected path".toList]
  (authoritative, pathChanges, failures)

/-- The failure of a message whose filenames are those before the mutation. -/
def messageFailure (messageId : Str) (beforeFilenamePaths : List P)
    (failure : TagFailureStage × Str) : MessageTagFailure where
  messageId := messageId
  stage := failure.1
  detail := failure.2
  currentFilenames := reportFilenames path beforeFilenamePaths
  fileFailures := []

/-- `mutate_message` once the message is frozen. -/
def mutateFrozen (messageId : Str) (message : Message P) (effective : TagMutation) :
    Message P × MessageMutationOutcome P :=
  let beforeFilenamePaths := sortPaths message.filenames
  let (tags, stopped) := changeTags calls effective message.tags
  let failures :=
    (stopped.toList ++ calls.thaw.toList.map fun error => (TagFailureStage.thaw, error)).map
    (messageFailure path messageId beforeFilenamePaths)
  -- no failure so far means that the tags have been changed and the message has thawed
  if effective.syncMaildirFlags && failures.isEmpty then
    let (authoritative, pathChanges, syncFailures) :=
      syncFilenames calls path messageId beforeFilenamePaths tags.toList
    ({ tags := tags, filenames := calls.syncedFilenames },
      finalizeMessageMutation path messageId message.tags.toList tags.toList authoritative
        pathChanges (failures ++ syncFailures))
  else
    let unchanged := beforeFilenamePaths.map fun path =>
      { previousPath := path, currentPath := path }
    ({ message with tags := tags },
      finalizeMessageMutation path messageId message.tags.toList tags.toList beforeFilenamePaths
        unchanged failures)

/-- A mutation without effect on the tags is left out, or still synchronizes the filenames. -/
def mutationToApply (tags : List Str) (mutation : TagMutation) : Option TagMutation :=
  (effectiveTagMutation tags mutation).or
    (if mutation.syncMaildirFlags then some { add := [], remove := [], syncMaildirFlags := true }
    else none)

/-- A mutation that would change nothing makes no call. Where the freeze fails nothing else is
tried. -/
def mutateMessage (messageId : Str) (message : Message P) (mutation : TagMutation) :
    Message P × MessageMutationOutcome P :=
  match mutationToApply message.tags.toList mutation with
  | none => (message, {})
  | some effective =>
    match calls.freeze with
    | some error =>
      (message,
        { failures := [messageFailure path messageId (sortPaths message.filenames)
            (.freeze, error)] })
    | none => mutateFrozen calls path messageId message effective

end

/-! ## What a mutation does to the tags of a message -/

variable {P : Type*} {calls : MessageCalls P} {before tags : BTreeSet Str} {add remove : List Str}
  {tag : Str}

@[simp] theorem mem_targetTags :
    tag ∈ targetTags before add remove ↔ tag ∈ add ∨ tag ∈ before ∧ tag ∉ remove := by
  have hremove : ∀ tags : BTreeSet Str,
      tag ∈ remove.foldl .remove tags ↔ tag ∈ tags ∧ tag ∉ remove := by
    induction remove with
    | nil => simp
    | cons first rest ih =>
      intro tags
      rw [List.foldl_cons, ih, BTreeSet.mem_remove, List.mem_cons]
      tauto
  have hadd : ∀ tags : BTreeSet Str, tag ∈ add.foldl .insert tags ↔ tag ∈ add ∨ tag ∈ tags := by
    intro tags
    show tag ∈ tags.extend add ↔ _
    rw [BTreeSet.mem_extend]
    exact or_comm
  unfold targetTags
  rw [hadd, hremove]

/-- The loop has edited a first part of its list, and all of it when no call has failed. -/
theorem editTags_prefix (call : Str → Option Str) (edit : BTreeSet Str → Str → BTreeSet Str)
    (doing : String) (list : List Str) (tags : BTreeSet Str) :
    ∃ done rest, list = done ++ rest ∧ (editTags call edit doing list tags).1 =
      done.foldl edit tags ∧ ((editTags call edit doing list tags).2 = none → rest = []) := by
  induction list generalizing tags with
  | nil => exact ⟨[], [], rfl, rfl, fun _ => rfl⟩
  | cons first list ih =>
    have hstop : ∀ error, editTags call edit doing (first :: list) tags = (tags, some error) →
        ∃ done rest, first :: list = done ++ rest ∧
          (editTags call edit doing (first :: list) tags).1 = done.foldl edit tags ∧
          ((editTags call edit doing (first :: list) tags).2 = none → rest = []) := by
      intro error h
      refine ⟨[], first :: list, rfl, by rw [h]; rfl, fun hnone => ?_⟩
      rw [h] at hnone
      exact absurd hnone (Option.some_ne_none _)
    cases hnul : cStringError first with
    | some error => exact hstop error (by simp only [editTags, hnul])
    | none =>
      cases hcall : call first with
      | some error => exact hstop _ (by simp only [editTags, hnul, hcall]; rfl)
      | none =>
        have h : editTags call edit doing (first :: list) tags =
            editTags call edit doing list (edit tags first) := by
          simp only [editTags, hnul, hcall]
        obtain ⟨done, rest, hsplit, htags, hrest⟩ := ih (edit tags first)
        rw [h]
        exact ⟨first :: done, rest, by rw [hsplit]; rfl, htags, hrest⟩

/-- A first part of the removals and of the additions, and all of both when no call has failed. -/
theorem changeTags_target (calls : MessageCalls P) (effective : TagMutation)
    (tags : BTreeSet Str) : ∃ added removed, added <+: effective.add ∧
      removed <+: effective.remove ∧
      (changeTags calls effective tags).1 = targetTags tags added removed ∧
      ((changeTags calls effective tags).2 = none →
        added = effective.add ∧ removed = effective.remove) := by
  obtain ⟨removed, rest, hremove, htags, hall⟩ :=
    editTags_prefix calls.removeTag .remove "removing" effective.remove tags
  have hremoved : removed <+: effective.remove := ⟨rest, hremove.symm⟩
  change (removeTags calls effective.remove tags).1 = _ at htags
  change (removeTags calls effective.remove tags).2 = none → _ at hall
  unfold changeTags
  cases hfirst : removeTags calls effective.remove tags with
  | mk left stopped =>
    rw [hfirst] at htags hall
    cases stopped with
    | some error =>
      exact ⟨[], removed, List.nil_prefix, hremoved, htags, fun h => by cases h⟩
    | none =>
      have hwhole : removed = effective.remove := by
        rw [hremove, hall rfl, List.append_nil]
      obtain ⟨added, rest', hadd, htags', hall'⟩ :=
        editTags_prefix calls.addTag .insert "adding" effective.add left
      have hadded : added <+: effective.add := ⟨rest', hadd.symm⟩
      change (addTags calls effective.add left).1 = _ at htags'
      change (addTags calls effective.add left).2 = none → _ at hall'
      have htarget : (addTags calls effective.add left).1 = targetTags tags added removed := by
        rw [htags', show left = removed.foldl .remove tags from htags]
        rfl
      simp only
      cases hsecond : addTags calls effective.add left with
      | mk last stopped =>
        rw [hsecond] at htarget hall'
        cases stopped with
        | some error => exact ⟨added, removed, hadded, hremoved, htarget, fun h => by cases h⟩
        | none =>
          refine ⟨added, removed, hadded, hremoved, htarget, fun _ => ⟨?_, hwhole⟩⟩
          rw [hadd, hall' rfl, List.append_nil]

/-- What a mutation asks of a tag. -/
def asks (add remove : List Str) (tag : Str) : Option Bool :=
  if tag ∈ add then some true else if tag ∈ remove then some false else none

theorem contains_targetTags : (targetTags before add remove).contains tag =
    (asks add remove tag).getD (before.contains tag) := by
  unfold asks
  split
  · rename_i hadd
    exact BTreeSet.contains_eq_true.2 (mem_targetTags.2 (Or.inl hadd))
  · rename_i hadd
    split
    · rename_i hremove
      refine BTreeSet.contains_eq_false.2 fun h => ?_
      rcases mem_targetTags.1 h with h | ⟨-, h⟩
      · exact hadd h
      · exact h hremove
    · rename_i hremove
      refine BTreeSet.contains_eq ⟨fun h => ?_, fun h => mem_targetTags.2 (Or.inr ⟨h, hremove⟩)⟩
      rcases mem_targetTags.1 h with h | ⟨h, -⟩
      · exact absurd h hadd
      · exact h

/-- The ways `effective_tag_mutation` goes. -/
theorem effectiveTagMutation_cases (tags : BTreeSet Str) (mutation : TagMutation) :
    (effectiveTagMutation tags.toList mutation = none ∧
      ∀ tag, tag ∈ targetTags tags mutation.add mutation.remove ↔ tag ∈ tags) ∨
    ∃ effective, effectiveTagMutation tags.toList mutation = some effective ∧
      (∀ tag, tag ∈ effective.add ↔
        tag ∈ targetTags tags mutation.add mutation.remove ∧ tag ∉ tags) ∧
      ∀ tag, tag ∈ effective.remove ↔
        tag ∈ tags ∧ tag ∉ targetTags tags mutation.add mutation.remove := by
  have hbefore : ∀ tag, tag ∈ BTreeSet.ofList tags.toList ↔ tag ∈ tags := fun tag => by simp
  have htarget : ∀ tag, tag ∈ targetTags (.ofList tags.toList) mutation.add mutation.remove ↔
      tag ∈ targetTags tags mutation.add mutation.remove := by
    intro tag
    rw [mem_targetTags, mem_targetTags, hbefore]
  unfold effectiveTagMutation
  simp only
  split
  · rename_i hempty
    left
    rw [Bool.and_eq_true, List.isEmpty_iff, List.isEmpty_iff] at hempty
    refine ⟨rfl, fun tag => ?_⟩
    have hadded : tag ∉ (targetTags (.ofList tags.toList) mutation.add
        mutation.remove).difference (.ofList tags.toList) := by
      rw [hempty.1]
      exact List.not_mem_nil
    have hremoved : tag ∉ (BTreeSet.ofList tags.toList).difference
        (targetTags (.ofList tags.toList) mutation.add mutation.remove) := by
      rw [hempty.2]
      exact List.not_mem_nil
    rw [BTreeSet.mem_difference, htarget, hbefore] at hadded hremoved
    tauto
  · refine Or.inr ⟨_, rfl, fun tag => ?_, fun tag => ?_⟩
    · show tag ∈ BTreeSet.difference _ _ ↔ _
      rw [BTreeSet.mem_difference, htarget, hbefore]
    · show tag ∈ BTreeSet.difference _ _ ↔ _
      rw [BTreeSet.mem_difference, htarget, hbefore]

/-- What a mutation makes of the tags of a message: each tag is as before or as asked, and all are
as asked when nothing has failed. -/
structure Mutated (add remove : List Str) (before after : BTreeSet Str) (failed : Bool) :
    Prop where
  partWay : ∀ tag, after.contains tag = before.contains tag ∨
    asks add remove tag = some (after.contains tag)
  whole : failed = false →
    ∀ tag, after.contains tag = (asks add remove tag).getD (before.contains tag)

theorem Mutated.mono {after : BTreeSet Str} {failed failed' : Bool}
    (h : Mutated add remove before after failed) (hle : failed' = false → failed = false) :
    Mutated add remove before after failed' :=
  ⟨h.partWay, fun hnone => h.whole (hle hnone)⟩

theorem Mutated.unchanged (h : ∀ tag, tag ∈ targetTags before add remove ↔ tag ∈ before)
    (failed : Bool) : Mutated add remove before before failed := by
  refine ⟨fun tag => Or.inl rfl, fun _ tag => ?_⟩
  rw [← contains_targetTags]
  exact (BTreeSet.contains_eq (h tag)).symm

theorem changeTags_mutated {effective : TagMutation}
    (hadd : ∀ tag, tag ∈ effective.add ↔ tag ∈ targetTags tags add remove ∧ tag ∉ tags)
    (hremove : ∀ tag, tag ∈ effective.remove ↔ tag ∈ tags ∧ tag ∉ targetTags tags add remove)
    (calls : MessageCalls P) :
    Mutated add remove tags (changeTags calls effective tags).1
      (changeTags calls effective tags).2.isSome := by
  obtain ⟨added, removed, hadded, hremoved, htags, hall⟩ := changeTags_target calls effective tags
  refine ⟨fun tag => ?_, fun hnone tag => ?_⟩
  · by_cases hsame : tag ∈ (changeTags calls effective tags).1 ↔ tag ∈ tags
    · exact Or.inl (BTreeSet.contains_eq hsame)
    · -- the tag has been edited, towards what is asked
      right
      have htarget : tag ∈ (changeTags calls effective tags).1 ↔
          tag ∈ targetTags tags add remove := by
        have hmem : tag ∈ (changeTags calls effective tags).1 ↔
            tag ∈ added ∨ tag ∈ tags ∧ tag ∉ removed := by rw [htags, mem_targetTags]
        have h₁ : tag ∈ added → tag ∈ targetTags tags add remove ∧ tag ∉ tags :=
          fun h => (hadd tag).1 (hadded.subset h)
        have h₂ : tag ∈ removed → tag ∈ tags ∧ tag ∉ targetTags tags add remove :=
          fun h => (hremove tag).1 (hremoved.subset h)
        tauto
      have hchanged : ¬ (tag ∈ targetTags tags add remove ↔ tag ∈ tags) := by tauto
      rw [BTreeSet.contains_eq htarget, contains_targetTags]
      cases hasks : asks add remove tag with
      | some asked => rfl
      | none =>
        exfalso
        apply hchanged
        rw [← BTreeSet.contains_eq_true, contains_targetTags, hasks, Option.getD_none,
          BTreeSet.contains_eq_true]
  · obtain ⟨rfl, rfl⟩ := hall (Option.isSome_eq_false_iff.1 hnone |> Option.isNone_iff_eq_none.1)
    rw [← contains_targetTags]
    apply BTreeSet.contains_eq
    rw [htags, mem_targetTags, hadd, hremove]
    tauto

/-- The change that is reported is the difference between the tags before and after. -/
structure Reports (messageId : Str) (before after : BTreeSet Str)
    (change : Option AppliedTagChange) : Prop where
  messageId : ∀ c, change = some c → c.messageId = messageId
  added : ∀ tag, (∃ c, change = some c ∧ tag ∈ c.added) ↔ tag ∉ before ∧ tag ∈ after
  removed : ∀ tag, (∃ c, change = some c ∧ tag ∈ c.removed) ↔ tag ∈ before ∧ tag ∉ after

theorem Reports.of_same {messageId : Str} : Reports messageId before before none := by
  refine ⟨fun c h => (by cases h), fun tag => ?_, fun tag => ?_⟩
  · exact iff_of_false (fun ⟨c, h, _⟩ => by cases h) fun h => h.1 h.2
  · exact iff_of_false (fun ⟨c, h, _⟩ => by cases h) fun h => h.2 h.1

theorem appliedTagChange_reports (messageId : Str) (before after : BTreeSet Str)
    (filenames : List Str) (filenameChanges : List MaildirFilenameChange) :
    Reports messageId before after
      (appliedTagChange messageId before.toList after.toList filenames filenameChanges) := by
  unfold appliedTagChange
  simp only
  split
  · rename_i hempty
    simp only [Bool.and_eq_true, List.isEmpty_iff] at hempty
    have hsame : ∀ tag, tag ∈ before ↔ tag ∈ after := by
      intro tag
      have hadded : tag ∉ (BTreeSet.ofList after.toList).difference (.ofList before.toList) := by
        rw [hempty.1.1]
        exact List.not_mem_nil
      have hremoved : tag ∉ (BTreeSet.ofList before.toList).difference (.ofList after.toList) := by
        rw [hempty.1.2]
        exact List.not_mem_nil
      simp only [BTreeSet.mem_difference, BTreeSet.mem_ofList, BTreeSet.mem_toList]
        at hadded hremoved
      tauto
    refine ⟨fun c h => (by cases h), fun tag => ?_, fun tag => ?_⟩
    · refine iff_of_false (fun hreported => ?_) fun h => h.1 ((hsame tag).2 h.2)
      obtain ⟨c, h, -⟩ := hreported
      cases h
    · refine iff_of_false (fun hreported => ?_) fun h => h.2 ((hsame tag).1 h.1)
      obtain ⟨c, h, -⟩ := hreported
      cases h
  · refine ⟨fun c h => ?_, fun tag => ?_, fun tag => ?_⟩
    · obtain rfl := Option.some.inj h
      rfl
    · simp only [Option.some.injEq, exists_eq_left', BTreeSet.mem_difference, BTreeSet.mem_ofList,
        BTreeSet.mem_toList]
      exact and_comm
    · simp only [Option.some.injEq, exists_eq_left', BTreeSet.mem_difference, BTreeSet.mem_ofList,
        BTreeSet.mem_toList]

section

variable [LinearOrder P] {path : PathText P} {messageId : Str} {message : Message P}
  {mutation : TagMutation}

omit [LinearOrder P] in
/-- Finalizing keeps the failures but for their filenames, and reports the difference of the tags
unless thawing has failed. -/
theorem finalizeMessageMutation_spec (path : PathText P) (messageId : Str)
    (before after : BTreeSet Str) (paths : List P)
    (changes : List (MaildirPathChange P)) (failures : List MessageTagFailure) :
    ((finalizeMessageMutation path messageId before.toList after.toList paths changes
      failures).failures = [] → failures = []) ∧
    ((∀ failure ∈ failures, failure.stage ≠ .thaw) →
      Reports messageId before after ((finalizeMessageMutation path messageId before.toList
        after.toList paths changes failures).applied.map AppliedMessageMutation.change)) := by
  unfold finalizeMessageMutation
  simp only
  split
  · rename_i hthaw
    refine ⟨fun h => List.map_eq_nil_iff.1 h, fun hstages => ?_⟩
    obtain ⟨failure, hmem, hstage⟩ := List.any_eq_true.1 hthaw
    obtain ⟨original, horiginal, rfl⟩ := List.mem_map.1 hmem
    exact absurd (of_decide_eq_true hstage) (hstages original horiginal)
  · refine ⟨fun h => List.map_eq_nil_iff.1 h, fun _ => ?_⟩
    rw [Option.map_map]
    have hreports := appliedTagChange_reports messageId before after
      (reportFilenames path paths) (reportFilenameChanges path changes)
    rw [show (AppliedMessageMutation.change ∘ fun change =>
      ({ change := change
         pathState := { messageId := messageId, paths := paths, pathChanges := changes } } :
        AppliedMessageMutation P)) = id from rfl, Option.map_id]
    exact hreports

omit [LinearOrder P] in
/-- A failure of the tag loops is of their stages. -/
theorem changeTags_stage {effective : TagMutation} {stage : TagFailureStage} {error : Str}
    (h : (changeTags calls effective tags).2 = some (stage, error)) :
    stage = .removeTag ∨ stage = .addTag := by
  unfold changeTags at h
  split at h
  · exact Or.inl (congrArg Prod.fst (Option.some.inj h)).symm
  · split at h
    · exact Or.inr (congrArg Prod.fst (Option.some.inj h)).symm
    · cases h

theorem syncFilenames_stage (paths : List P) (afterTags : List Str) :
    ∀ failure ∈ (syncFilenames calls path messageId paths afterTags).2.2,
      failure.stage = .maildirFlagSync := by
  intro failure hfailure
  unfold syncFilenames at hfailure
  simp only at hfailure
  split at hfailure
  · rw [List.mem_singleton.1 hfailure]
  · split at hfailure
    · exact absurd hfailure List.not_mem_nil
    · rw [List.mem_singleton.1 hfailure]

theorem mutateFrozen_spec {effective : TagMutation}
    (hadd : ∀ tag, tag ∈ effective.add ↔
      tag ∈ targetTags message.tags add remove ∧ tag ∉ message.tags)
    (hremove : ∀ tag, tag ∈ effective.remove ↔
      tag ∈ message.tags ∧ tag ∉ targetTags message.tags add remove)
    (calls : MessageCalls P) (path : PathText P) (messageId : Str) :
    Mutated add remove message.tags
      (mutateFrozen calls path messageId message effective).1.tags
      (!(mutateFrozen calls path messageId message effective).2.failures.isEmpty) ∧
    (calls.thaw = none → Reports messageId message.tags
      (mutateFrozen calls path messageId message effective).1.tags
      ((mutateFrozen calls path messageId message effective).2.applied.map
        AppliedMessageMutation.change)) := by
  have hmutated := changeTags_mutated hadd hremove calls
  have hstage : ∀ failure, (changeTags calls effective message.tags).2 = some failure →
      failure.1 = .removeTag ∨ failure.1 = .addTag :=
    fun failure h => changeTags_stage h
  unfold mutateFrozen
  generalize changeTags calls effective message.tags = changed at hmutated hstage ⊢
  obtain ⟨tags, stopped⟩ := changed
  simp only at hmutated hstage ⊢
  generalize hfailures : (stopped.toList ++ calls.thaw.toList.map fun error =>
    (TagFailureStage.thaw, error)).map
      (messageFailure path messageId (sortPaths message.filenames)) = failures
  have hnone : failures = [] → stopped = none := by
    intro hnil
    rw [hnil, List.map_eq_nil_iff, List.append_eq_nil_iff, Option.toList_eq_nil_iff] at hfailures
    exact hfailures.1
  -- The loops over the tags fail in stages of their own, so a thaw failure is one of thawing.
  have hstages : calls.thaw = none → ∀ failure ∈ failures, failure.stage ≠ .thaw := by
    intro hthaw failure hmem hthawed
    rw [← hfailures, hthaw] at hmem
    obtain ⟨original, horiginal, rfl⟩ := List.mem_map.1 hmem
    have hsome : stopped = some original := by
      simpa using horiginal
    have hsame : original.1 = .thaw := hthawed
    rcases hstage original hsome with h | h <;> rw [h] at hsame <;> cases hsame
  -- The flags of the filenames are synchronised, or the filenames stay.
  split
  · obtain ⟨hfinal, hreports⟩ := finalizeMessageMutation_spec path messageId message.tags tags
      (syncFilenames calls path messageId (sortPaths message.filenames) tags.toList).1
      (syncFilenames calls path messageId (sortPaths message.filenames) tags.toList).2.1
      (failures ++
        (syncFilenames calls path messageId (sortPaths message.filenames) tags.toList).2.2)
    refine ⟨hmutated.mono fun h => ?_, fun hthaw => hreports fun failure hmem => ?_⟩
    · rw [hnone (List.append_eq_nil_iff.1 (hfinal (by simpa using h))).1]
      rfl
    · rcases List.mem_append.1 hmem with hmem | hmem
      · exact hstages hthaw failure hmem
      · rw [syncFilenames_stage _ _ failure hmem]
        exact TagFailureStage.noConfusion
  · obtain ⟨hfinal, hreports⟩ :=
      finalizeMessageMutation_spec path messageId message.tags tags (sortPaths message.filenames)
      ((sortPaths message.filenames).map fun path =>
        { previousPath := path, currentPath := path }) failures
    refine ⟨hmutated.mono fun h => ?_, fun hthaw => hreports (hstages hthaw)⟩
    rw [hnone (hfinal (by simpa using h))]
    rfl

theorem mutationToApply_cases (tags : BTreeSet Str) (mutation : TagMutation) :
    (mutationToApply tags.toList mutation = none ∧
      ∀ tag, tag ∈ targetTags tags mutation.add mutation.remove ↔ tag ∈ tags) ∨
    ∃ effective, mutationToApply tags.toList mutation = some effective ∧
      (∀ tag, tag ∈ effective.add ↔
        tag ∈ targetTags tags mutation.add mutation.remove ∧ tag ∉ tags) ∧
      ∀ tag, tag ∈ effective.remove ↔
        tag ∈ tags ∧ tag ∉ targetTags tags mutation.add mutation.remove := by
  unfold mutationToApply
  rcases effectiveTagMutation_cases tags mutation with ⟨hnone, hsame⟩ | ⟨effective, hsome, hspec⟩
  · rw [hnone, Option.none_or]
    split
    · refine Or.inr ⟨_, rfl, fun tag => ?_, fun tag => ?_⟩
      · exact iff_of_false List.not_mem_nil fun h => h.2 ((hsame tag).1 h.1)
      · exact iff_of_false List.not_mem_nil fun h => h.2 ((hsame tag).2 h.1)
    · exact Or.inl ⟨rfl, hsame⟩
  · rw [hsome, Option.some_or]
    exact Or.inr ⟨effective, rfl, hspec⟩

/-- What `mutate_message` does to the tags, and what it reports when thawing does not fail. -/
theorem mutateMessage_spec (calls : MessageCalls P) (path : PathText P) (messageId : Str)
    (message : Message P) (mutation : TagMutation) :
    Mutated mutation.add mutation.remove message.tags
      (mutateMessage calls path messageId message mutation).1.tags
      (!(mutateMessage calls path messageId message mutation).2.failures.isEmpty) ∧
    (calls.thaw = none → Reports messageId message.tags
      (mutateMessage calls path messageId message mutation).1.tags
      ((mutateMessage calls path messageId message mutation).2.applied.map
        AppliedMessageMutation.change)) := by
  unfold mutateMessage
  rcases mutationToApply_cases message.tags mutation with ⟨hnone, hsame⟩ | ⟨effective, hsome, hadd,
    hremove⟩
  · rw [hnone]
    exact ⟨.unchanged hsame _, fun _ => .of_same⟩
  · rw [hsome]
    cases hfreeze : calls.freeze with
    | some error =>
      exact ⟨⟨fun tag => Or.inl rfl, fun h => by cases h⟩, fun _ => .of_same⟩
    | none => exact mutateFrozen_spec hadd hremove calls path messageId

end

end Notm.Notmuch
