import Notm.Notmuch.TagMutation

/-!
# Batches of tag mutations

`apply_prepared_tag_mutations` mutates the messages of a batch one after the other inside an
atomic section. A message whose calls fail is reported and left, the others go on. When the end of
the section fails, its error becomes part of the report, and what the section has done may be lost:
`FailedEnd` is a call that ends something and fails, with the messages whose changes go with it.

Main results:

* `applyPrepared_spec`: one turn of the loop. The message has part of what is asked, all of it
  without failures, and the reported change is the difference.
* `TurnsOnce.reportsDifference`: the changes of a batch in which no tag changes twice are exactly
  the difference between the tags before and after the loop.
* `Agrees.partWay`, `Agrees.whole`: a batch whose members do not contradict each other, as one
  overwriting of tags.
* `finalMessages_tagged_or_failed`: in a batch that names each message once, every message is
  tagged as asked or has a failure.
* `applyPreparedTagMutations_cases`: a batch ends before its first message or goes through all of
  them; `EndsAs` tells the messages that a failed end leaves.
* `NoReversal.turnsOnce`: the condition on a batch under which no tag changes twice.
-/

namespace Notm.Notmuch

open Rust

/-- The messages of the database, by their ids. -/
abbrev Messages (P : Type*) := Str → Option (Message P)

structure PreparedMessageMutation where
  messageId : Str
  mutation : TagMutation
deriving DecidableEq

/-- A call that ends an atomic section, or closes the database, and fails: its error, and the
messages whose changes are lost. Xapian applies none of a section whose end fails, and the close
of the database discards the open section; what is lost by then is a parameter here, a message at
a time, so that all of the changes, some or none may have reached the database. -/
structure FailedEnd (E : Type*) where
  error : E
  loses : Str → Bool

/-- How the calls of libnotmuch go for a batch; those for its messages are in their order. -/
structure BatchCalls (P : Type*) where
  beginAtomic : Option Str := none
  messages : List (MessageCalls P)
  endAtomic : Option (FailedEnd Str) := none

variable {P : Type*} [LinearOrder P]

/-- The messages after the failure, where they were `before` the first change and are `after` in
the section. -/
def FailedEnd.messagesLeft {E : Type*} (failed : FailedEnd E) (before after : Messages P) :
    Messages P :=
  fun messageId => if failed.loses messageId then before messageId else after messageId

/-- A call that does not fail, or fails without a loss. -/
def LosesNothing {E : Type*} (ended : Option (FailedEnd E)) : Prop :=
  ∀ failed, ended = some failed → ∀ messageId, failed.loses messageId = false

/-- A message that could not be looked up. -/
def lookupFailure (messageId detail : Str) : MessageTagFailure where
  messageId := messageId
  stage := .lookup
  detail := detail
  currentFilenames := []
  fileFailures := []

/-- One turn of the loop: look up the message and mutate it. -/
def applyPrepared (path : PathText P) (messages : Messages P)
    (prepared : PreparedMessageMutation × MessageCalls P) :
    Messages P × MessageMutationOutcome P :=
  let messageId := prepared.1.messageId
  match prepared.2.findMessage with
  | some error => (messages, { failures := [lookupFailure messageId error] })
  | none =>
    match messages messageId with
    | none =>
      (messages,
        { failures :=
            [lookupFailure messageId "message was not found in the database".toList] })
    | some message =>
      let (message, outcome) :=
        mutateMessage prepared.2 path messageId message prepared.1.mutation
      (Function.update messages messageId (some message), outcome)

def TagBatchReport.addOutcome (report : TagBatchReport P) (outcome : MessageMutationOutcome P) :
    TagBatchReport P :=
  { report with
    changes := report.changes ++ (outcome.applied.map AppliedMessageMutation.change).toList
    pathStates :=
      report.pathStates ++ (outcome.applied.map AppliedMessageMutation.pathState).toList
    failures := report.failures ++ outcome.failures }

/-- The loop over the batch. -/
def applyAll (path : PathText P) :
    List (PreparedMessageMutation × MessageCalls P) → Messages P × TagBatchReport P →
      Messages P × TagBatchReport P
  | [], state => state
  | prepared :: rest, (messages, report) =>
    let (messages, outcome) := applyPrepared path messages prepared
    applyAll path rest (messages, report.addOutcome outcome)

/-- The prepared mutations with the calls for each. -/
def withCalls (calls : BatchCalls P) (batch : List PreparedMessageMutation) :
    List (PreparedMessageMutation × MessageCalls P) :=
  batch.zipIdx.map fun prepared => (prepared.1, calls.messages[prepared.2]?.getD {})

/-- The messages after the batch and its report. An error of the end of the atomic section is part
of the report, which keeps the changes; the database has them only as far as they are not lost. -/
def applyPreparedTagMutations (path : PathText P) (calls : BatchCalls P) (messages : Messages P)
    (batch : List PreparedMessageMutation) : Messages P × Except Error (TagBatchReport P) :=
  if batch.isEmpty then (messages, .ok {})
  else
    match calls.beginAtomic with
    | some error => (messages, .error (.status error))
    | none =>
      let (mutated, report) :=
        applyAll path (withCalls calls batch) (messages, { requestedMessages := batch.length })
      let report := { report with changedMessages := report.changes.length }
      match calls.endAtomic with
      | none => (mutated, .ok report)
      | some failed =>
        (failed.messagesLeft messages mutated, .ok (report.recordFinalizationError failed.error))

/-- The prepared form of a mutation of `apply_tags_to_messages`. -/
def MessageTagMutation.prepared (syncMaildirFlags : Bool) (mutation : MessageTagMutation) :
    PreparedMessageMutation where
  messageId := mutation.messageId
  mutation :=
    { add := mutation.add, remove := mutation.remove, syncMaildirFlags := syncMaildirFlags }

/-- The check of one mutation of `apply_tags_to_messages`. -/
def prepareMutation (syncMaildirFlags : Bool) (mutation : MessageTagMutation) :
    Except Error PreparedMessageMutation := do
  (mutation.add ++ mutation.remove).forM validateTag
  match cStringError mutation.messageId with
  | some error => .error (.nul error)
  | none => .ok (mutation.prepared syncMaildirFlags)

def applyTagsToMessages (path : PathText P) (calls : BatchCalls P) (messages : Messages P)
    (mutations : List MessageTagMutation) (syncMaildirFlags : Bool) :
    Messages P × Except Error (TagBatchReport P) :=
  match mutations.mapM (prepareMutation syncMaildirFlags) with
  | .error error => (messages, .error error)
  | .ok prepared => applyPreparedTagMutations path calls messages prepared

/-! ## One turn -/

/-- A tag of a message: the id of the message and the tag. -/
abbrev TagKey := Str × Str

/-- Whether the message is there and has the tag. -/
def present (messages : Messages P) (key : TagKey) : Bool :=
  match messages key.1 with
  | some message => message.tags.contains key.2
  | none => false

/-- What mutating a message asks of the tags of all messages. -/
def overwriteOf (messageId : Str) (add remove : List Str) : Overwrite TagKey Bool :=
  fun key => if key.1 = messageId then asks add remove key.2 else none

def PreparedMessageMutation.overwrite (prepared : PreparedMessageMutation) :
    Overwrite TagKey Bool :=
  overwriteOf prepared.messageId prepared.mutation.add prepared.mutation.remove

/-- One of the changes adds the tag to the message. -/
def Adds (changes : List AppliedTagChange) (key : TagKey) : Prop :=
  ∃ change ∈ changes, change.messageId = key.1 ∧ key.2 ∈ change.added

def Removes (changes : List AppliedTagChange) (key : TagKey) : Prop :=
  ∃ change ∈ changes, change.messageId = key.1 ∧ key.2 ∈ change.removed

/-- The changes are exactly the difference between the tags before and after. -/
structure ReportsDifference (before after : TagKey → Bool) (changes : List AppliedTagChange) :
    Prop where
  added : ∀ key, Adds changes key ↔ before key = false ∧ after key = true
  removed : ∀ key, Removes changes key ↔ before key = true ∧ after key = false

@[simp] theorem adds_append {changes changes' : List AppliedTagChange} {key : TagKey} :
    Adds (changes ++ changes') key ↔ Adds changes key ∨ Adds changes' key := by
  unfold Adds
  simp only [List.mem_append, or_and_right, exists_or]

@[simp] theorem removes_append {changes changes' : List AppliedTagChange} {key : TagKey} :
    Removes (changes ++ changes') key ↔ Removes changes key ∨ Removes changes' key := by
  unfold Removes
  simp only [List.mem_append, or_and_right, exists_or]

theorem ReportsDifference.refl (tags : TagKey → Bool) : ReportsDifference tags tags [] where
  added key := by
    refine iff_of_false (fun ⟨_, hmem, _⟩ => List.not_mem_nil hmem) fun h => ?_
    exact absurd (h.1.symm.trans h.2) Bool.noConfusion
  removed key := by
    refine iff_of_false (fun ⟨_, hmem, _⟩ => List.not_mem_nil hmem) fun h => ?_
    exact absurd (h.1.symm.trans h.2) Bool.noConfusion

variable {path : PathText P} {messages : Messages P}
  {prepared : PreparedMessageMutation × MessageCalls P}
  {batch : List (PreparedMessageMutation × MessageCalls P)}

def MessageMutationOutcome.change (outcome : MessageMutationOutcome P) :
    Option AppliedTagChange :=
  outcome.applied.map AppliedMessageMutation.change

omit [LinearOrder P] in
theorem present_eq {message : Message P} {key : TagKey} (h : messages key.1 = some message) :
    present messages key = message.tags.contains key.2 := by
  unfold present
  rw [h]

omit [LinearOrder P] in
theorem present_update {messageId : Str} {message : Message P} {key : TagKey} :
    present (Function.update messages messageId (some message)) key =
      if key.1 = messageId then message.tags.contains key.2 else present messages key := by
  unfold present
  by_cases hid : key.1 = messageId
  · rw [if_pos hid, hid, Function.update_self]
  · rw [if_neg hid, Function.update_of_ne hid]

/-- What a turn of the loop does to the tags of all messages, and what it reports. -/
structure TurnSpec (messages messages' : Messages P)
    (prepared : PreparedMessageMutation × MessageCalls P) (outcome : MessageMutationOutcome P) :
    Prop where
  partWay : prepared.1.overwrite.PartWay (present messages) (present messages')
  whole : outcome.failures = [] →
    present messages' = prepared.1.overwrite.apply (present messages)
  reports : prepared.2.thaw = none →
    ReportsDifference (present messages) (present messages') outcome.change.toList

omit [LinearOrder P] in
theorem TurnSpec.failed {failure : MessageTagFailure} :
    TurnSpec messages messages prepared { failures := [failure] } := by
  exact ⟨.refl _ _, fun h => absurd h (List.cons_ne_nil _ _), fun _ => .refl _⟩

omit [LinearOrder P] in
/-- The change of one message reports the difference for all messages. -/
theorem Reports.reportsDifference {messageId : Str} {before after : Message P}
    {change : Option AppliedTagChange} (h : Reports messageId before.tags after.tags change)
    (hbefore : messages messageId = some before) :
    ReportsDifference (present messages)
      (present (Function.update messages messageId (some after))) change.toList := by
  have hmem : ∀ c, c ∈ change.toList ↔ change = some c := fun c => Option.mem_toList
  have hpresent : ∀ key : TagKey, key.1 = messageId →
      present messages key = before.tags.contains key.2 := by
    intro key hid
    apply present_eq
    rw [hid]
    exact hbefore
  refine ⟨fun key => ?_, fun key => ?_⟩
  · rw [present_update]
    by_cases hid : key.1 = messageId
    · rw [if_pos hid, hpresent key hid, BTreeSet.contains_eq_true, BTreeSet.contains_eq_false,
        ← h.added key.2]
      refine ⟨fun ⟨c, hc, _, hadded⟩ => ⟨c, (hmem c).1 hc, hadded⟩, fun ⟨c, hc, hadded⟩ => ?_⟩
      exact ⟨c, (hmem c).2 hc, (h.messageId c hc).trans hid.symm, hadded⟩
    · rw [if_neg hid]
      refine iff_of_false (fun ⟨c, hc, hsame, _⟩ => ?_) fun h => ?_
      · exact hid (hsame.symm.trans (h.messageId c ((hmem c).1 hc)))
      · rw [h.1] at h
        exact absurd h.2 Bool.noConfusion
  · rw [present_update]
    by_cases hid : key.1 = messageId
    · rw [if_pos hid, hpresent key hid, BTreeSet.contains_eq_true, BTreeSet.contains_eq_false,
        ← h.removed key.2]
      refine ⟨fun ⟨c, hc, _, hremoved⟩ => ⟨c, (hmem c).1 hc, hremoved⟩,
        fun ⟨c, hc, hremoved⟩ => ?_⟩
      exact ⟨c, (hmem c).2 hc, (h.messageId c hc).trans hid.symm, hremoved⟩
    · rw [if_neg hid]
      refine iff_of_false (fun ⟨c, hc, hsame, _⟩ => ?_) fun h => ?_
      · exact hid (hsame.symm.trans (h.messageId c ((hmem c).1 hc)))
      · rw [h.1] at h
        exact absurd h.2 Bool.noConfusion

theorem applyPrepared_spec (path : PathText P) (messages : Messages P)
    (prepared : PreparedMessageMutation × MessageCalls P) :
    TurnSpec messages (applyPrepared path messages prepared).1 prepared
      (applyPrepared path messages prepared).2 := by
  unfold applyPrepared
  simp only
  split
  · exact .failed
  · split
    · exact .failed
    · rename_i message hmessage
      obtain ⟨hmutated, hreports⟩ := mutateMessage_spec prepared.2 path prepared.1.messageId
        message prepared.1.mutation
      have hbefore : ∀ key : TagKey, key.1 = prepared.1.messageId →
          present messages key = message.tags.contains key.2 := by
        intro key hid
        apply present_eq
        rw [hid]
        exact hmessage
      refine ⟨fun key => ?_, fun hfailures => funext fun key => ?_, fun hthaw =>
        (hreports hthaw).reportsDifference hmessage⟩
      · rw [present_update]
        by_cases hid : key.1 = prepared.1.messageId
        · rw [if_pos hid, hbefore key hid]
          refine (hmutated.partWay key.2).imp id fun hasks => ?_
          exact (if_pos hid).trans hasks
        · exact Or.inl (if_neg hid)
      · rw [present_update]
        show _ = Option.getD (if _ then _ else _) _
        by_cases hid : key.1 = prepared.1.messageId
        · rw [if_pos hid, if_pos hid, hbefore key hid]
          exact hmutated.whole (by rw [hfailures]; rfl) key.2
        · rw [if_neg hid, if_neg hid]
          rfl

/-! ## The loop -/

/-- The tag keeps its value all along the batch. -/
def KeepsTag (path : PathText P) (key : TagKey) :
    Messages P → List (PreparedMessageMutation × MessageCalls P) → Prop
  | _, [] => True
  | messages, prepared :: rest =>
    present (applyPrepared path messages prepared).1 key = present messages key ∧
      KeepsTag path key (applyPrepared path messages prepared).1 rest

/-- No tag of a message changes twice along the batch. -/
def TurnsOnce (path : PathText P) :
    Messages P → List (PreparedMessageMutation × MessageCalls P) → Prop
  | _, [] => True
  | messages, prepared :: rest =>
    (∀ key, present (applyPrepared path messages prepared).1 key ≠ present messages key →
      KeepsTag path key (applyPrepared path messages prepared).1 rest) ∧
    TurnsOnce path (applyPrepared path messages prepared).1 rest

/-- The messages after the loop. -/
def finalMessages (path : PathText P) (messages : Messages P)
    (batch : List (PreparedMessageMutation × MessageCalls P)) : Messages P :=
  batch.foldl (fun messages prepared => (applyPrepared path messages prepared).1) messages

/-- The outcomes of the turns. -/
def outcomes (path : PathText P) : Messages P →
    List (PreparedMessageMutation × MessageCalls P) → List (MessageMutationOutcome P)
  | _, [] => []
  | messages, prepared :: rest =>
    (applyPrepared path messages prepared).2 ::
      outcomes path (applyPrepared path messages prepared).1 rest

/-- The changes that the loop reports. -/
def batchChanges (path : PathText P) (messages : Messages P)
    (batch : List (PreparedMessageMutation × MessageCalls P)) : List AppliedTagChange :=
  (outcomes path messages batch).flatMap fun outcome => outcome.change.toList

theorem applyAll_eq (path : PathText P)
    (batch : List (PreparedMessageMutation × MessageCalls P)) (messages : Messages P)
    (report : TagBatchReport P) :
    applyAll path batch (messages, report) = (finalMessages path messages batch,
      (outcomes path messages batch).foldl TagBatchReport.addOutcome report) := by
  induction batch generalizing messages report with
  | nil => rfl
  | cons prepared rest ih => exact ih _ _

omit [LinearOrder P] in
theorem addOutcome_foldl (outcomes : List (MessageMutationOutcome P))
    (report : TagBatchReport P) :
    (outcomes.foldl TagBatchReport.addOutcome report).changes =
      report.changes ++ outcomes.flatMap (fun outcome => outcome.change.toList) ∧
    (outcomes.foldl TagBatchReport.addOutcome report).failures =
      report.failures ++ outcomes.flatMap MessageMutationOutcome.failures ∧
    (outcomes.foldl TagBatchReport.addOutcome report).finalizationErrors =
      report.finalizationErrors := by
  induction outcomes generalizing report with
  | nil => simp
  | cons outcome rest ih =>
    obtain ⟨hchanges, hfailures, herrors⟩ := ih (report.addOutcome outcome)
    refine ⟨?_, ?_, herrors⟩
    · rw [List.foldl_cons, hchanges, List.flatMap_cons, ← List.append_assoc]
      rfl
    · rw [List.foldl_cons, hfailures, List.flatMap_cons, ← List.append_assoc]
      rfl

/-- A tag that keeps its value is in no change. -/
theorem KeepsTag.spec {key : TagKey} (h : KeepsTag path key messages batch)
    (hthaw : ∀ prepared ∈ batch, prepared.2.thaw = none) :
    present (finalMessages path messages batch) key = present messages key ∧
      ¬ Adds (batchChanges path messages batch) key ∧
      ¬ Removes (batchChanges path messages batch) key := by
  induction batch generalizing messages with
  | nil => exact ⟨rfl, fun ⟨_, hmem, _⟩ => List.not_mem_nil hmem,
      fun ⟨_, hmem, _⟩ => List.not_mem_nil hmem⟩
  | cons prepared rest ih =>
    obtain ⟨hfirst, hrest⟩ := h
    obtain ⟨hfinal, hadds, hremoves⟩ := ih hrest
      fun p hp => hthaw p (List.mem_cons_of_mem _ hp)
    have hreports := (applyPrepared_spec path messages prepared).reports
      (hthaw prepared List.mem_cons_self)
    refine ⟨hfinal.trans hfirst, ?_, ?_⟩
    · rintro ⟨change, hmem, hchange⟩
      rcases List.mem_append.1 hmem with hmem | hmem
      · obtain ⟨hbefore, hafter⟩ := (hreports.added key).1 ⟨change, hmem, hchange⟩
        rw [hfirst, hbefore] at hafter
        exact absurd hafter Bool.noConfusion
      · exact hadds ⟨change, hmem, hchange⟩
    · rintro ⟨change, hmem, hchange⟩
      rcases List.mem_append.1 hmem with hmem | hmem
      · obtain ⟨hbefore, hafter⟩ := (hreports.removed key).1 ⟨change, hmem, hchange⟩
        rw [hfirst, hbefore] at hafter
        exact absurd hafter Bool.noConfusion
      · exact hremoves ⟨change, hmem, hchange⟩

/-- Where no tag changes twice the changes are exactly the difference between the tags before and
after the batch. -/
theorem TurnsOnce.reportsDifference (h : TurnsOnce path messages batch)
    (hthaw : ∀ prepared ∈ batch, prepared.2.thaw = none) :
    ReportsDifference (present messages) (present (finalMessages path messages batch))
      (batchChanges path messages batch) := by
  induction batch generalizing messages with
  | nil => exact .refl _
  | cons prepared rest ih =>
    obtain ⟨hkeeps, hrest⟩ := h
    have hthaw' : ∀ p ∈ rest, p.2.thaw = none := fun p hp => hthaw p (List.mem_cons_of_mem _ hp)
    have hfirst := (applyPrepared_spec path messages prepared).reports
      (hthaw prepared List.mem_cons_self)
    have hlater := ih hrest hthaw'
    have hadds : ∀ key, Adds (batchChanges path messages (prepared :: rest)) key ↔
        Adds (applyPrepared path messages prepared).2.change.toList key ∨
          Adds (batchChanges path (applyPrepared path messages prepared).1 rest) key :=
      fun key => adds_append
    have hremoves : ∀ key, Removes (batchChanges path messages (prepared :: rest)) key ↔
        Removes (applyPrepared path messages prepared).2.change.toList key ∨
          Removes (batchChanges path (applyPrepared path messages prepared).1 rest) key :=
      fun key => removes_append
    have hfinal : finalMessages path messages (prepared :: rest) =
        finalMessages path (applyPrepared path messages prepared).1 rest := rfl
    rw [hfinal]
    -- a tag that this turn changes keeps its value from here on; any other is as before it
    have hcases : ∀ key,
        (present (applyPrepared path messages prepared).1 key = present messages key) ∨
        (present (finalMessages path (applyPrepared path messages prepared).1 rest) key =
          present (applyPrepared path messages prepared).1 key ∧
          ¬ Adds (batchChanges path (applyPrepared path messages prepared).1 rest) key ∧
          ¬ Removes (batchChanges path (applyPrepared path messages prepared).1 rest) key) := by
      intro key
      by_cases hsame : present (applyPrepared path messages prepared).1 key = present messages key
      · exact Or.inl hsame
      · exact Or.inr ((hkeeps key hsame).spec hthaw')
    refine ⟨fun key => ?_, fun key => ?_⟩
    · rw [hadds, hfirst.added]
      rcases hcases key with hsame | ⟨hkept, hnot, -⟩
      · rw [hlater.added, hsame]
        refine or_iff_right fun h => ?_
        exact absurd (h.1.symm.trans h.2) Bool.noConfusion
      · rw [hkept]
        exact or_iff_left hnot
    · rw [hremoves, hfirst.removed]
      rcases hcases key with hsame | ⟨hkept, -, hnot⟩
      · rw [hlater.removed, hsame]
        refine or_iff_right fun h => ?_
        exact absurd (h.1.symm.trans h.2) Bool.noConfusion
      · rw [hkept]
        exact or_iff_left hnot

/-- What a batch asks together, where its members agree. -/
def Agrees (batch : List (PreparedMessageMutation × MessageCalls P))
    (o : Overwrite TagKey Bool) : Prop :=
  ∀ prepared ∈ batch, ∀ key value, prepared.1.overwrite key = some value → o key = some value

variable {o : Overwrite TagKey Bool}

theorem partWay_first (path : PathText P) (messages : Messages P)
    (h : Agrees (prepared :: batch) o) :
    o.PartWay (present messages) (present (applyPrepared path messages prepared).1) := by
  intro key
  exact ((applyPrepared_spec path messages prepared).partWay key).imp id
    fun hasks => h prepared List.mem_cons_self key _ hasks

/-- A batch whose members agree goes part of the way. -/
theorem Agrees.partWay (h : Agrees batch o) :
    o.PartWay (present messages) (present (finalMessages path messages batch)) := by
  induction batch generalizing messages with
  | nil => exact .refl _ _
  | cons prepared rest ih =>
    exact (partWay_first path messages h).trans (ih fun p hp => h p (List.mem_cons_of_mem _ hp))

/-- A tag that has the value that the batch asks keeps it. -/
theorem Agrees.keepsTag (h : Agrees batch o) {key : TagKey}
    (hkey : o key = none ∨ o key = some (present messages key)) :
    KeepsTag path key messages batch := by
  induction batch generalizing messages with
  | nil => trivial
  | cons prepared rest ih =>
    have hfirst : present (applyPrepared path messages prepared).1 key =
        present messages key := by
      rcases partWay_first path messages h key with hsame | hasked
      · exact hsame
      · rcases hkey with hnone | hsome
        · rw [hnone] at hasked
          exact absurd hasked (Option.some_ne_none _).symm
        · exact Option.some.inj (hasked.symm.trans hsome)
    refine ⟨hfirst, ih (fun p hp => h p (List.mem_cons_of_mem _ hp)) ?_⟩
    rw [hfirst]
    exact hkey

/-- A batch whose members agree changes no tag twice. -/
theorem Agrees.turnsOnce (h : Agrees batch o) : TurnsOnce path messages batch := by
  induction batch generalizing messages with
  | nil => trivial
  | cons prepared rest ih =>
    have hrest : Agrees rest o := fun p hp => h p (List.mem_cons_of_mem _ hp)
    refine ⟨fun key hchanged => hrest.keepsTag (Or.inr ?_), ih hrest⟩
    rcases partWay_first path messages h key with hsame | hasked
    · exact absurd hsame hchanged
    · exact hasked

/-- Without failures the batch goes the whole way. -/
theorem Agrees.whole (h : Agrees batch o)
    (hasked : ∀ key value, o key = some value →
      (∃ prepared ∈ batch, prepared.1.overwrite key = some value) ∨ present messages key = value)
    (hfailures : (outcomes path messages batch).flatMap MessageMutationOutcome.failures = []) :
    present (finalMessages path messages batch) = o.apply (present messages) := by
  induction batch generalizing messages with
  | nil =>
    funext key
    show present messages key = (o key).getD _
    cases hkey : o key with
    | none => rfl
    | some value =>
      rcases hasked key value hkey with ⟨_, hmem, -⟩ | hvalue
      · exact absurd hmem List.not_mem_nil
      · exact hvalue
  | cons prepared rest ih =>
    obtain ⟨hfirst, hlater⟩ := List.append_eq_nil_iff.1 hfailures
    have hwhole := (applyPrepared_spec path messages prepared).whole hfirst
    have hrest : Agrees rest o := fun p hp => h p (List.mem_cons_of_mem _ hp)
    show present (finalMessages path (applyPrepared path messages prepared).1 rest) = _
    rw [ih hrest ?_ hlater, (partWay_first path messages h).apply_eq]
    intro key value hkey
    rcases hasked key value hkey with ⟨p, hp, hoverwrite⟩ | hvalue
    · rcases List.mem_cons.1 hp with rfl | hp
      · right
        rw [hwhole]
        show (p.1.overwrite key).getD _ = value
        rw [hoverwrite]
        rfl
      · exact Or.inl ⟨p, hp, hoverwrite⟩
    · right
      rcases partWay_first path messages h key with hsame | hasks
      · rw [hsame]
        exact hvalue
      · exact (Option.some.inj (hkey.symm.trans hasks)).symm

/-! ## Batches that name each message once -/

/-- The message has, among all tags, those that are asked for. -/
def Tagged (messages messages' : Messages P) (mutation : TagMutation) (messageId : Str) : Prop :=
  ∃ before after, messages messageId = some before ∧ messages' messageId = some after ∧
    ∀ tag, after.tags.contains tag =
      (asks mutation.add mutation.remove tag).getD (before.tags.contains tag)

omit [LinearOrder P] in
theorem Tagged.congr {messages' final final' : Messages P} {mutation : TagMutation}
    {messageId : Str} (h : Tagged messages final mutation messageId)
    (hbefore : messages messageId = messages' messageId)
    (hafter : final messageId = final' messageId) :
    Tagged messages' final' mutation messageId := by
  obtain ⟨before, after, hmessage, hfinal, htags⟩ := h
  exact ⟨before, after, hbefore ▸ hmessage, hafter ▸ hfinal, htags⟩

/-- Each message is as it is in one of two databases. -/
def Between (before after left : Messages P) : Prop :=
  ∀ messageId, left messageId = before messageId ∨ left messageId = after messageId

omit [LinearOrder P] in
theorem Between.of_eq {before after left : Messages P} (h : left = after) :
    Between before after left :=
  fun messageId => Or.inr (congrFun h messageId)

omit [LinearOrder P] in
/-- Two ends, one after the other, that may each lose changes since the same database. -/
theorem Between.trans {before after left left' : Messages P} (h : Between before after left)
    (h' : Between before left left') : Between before after left' := by
  intro messageId
  rcases h' messageId with hbefore | hleft
  · exact Or.inl hbefore
  · rw [hleft]
    exact h messageId

omit [LinearOrder P] in
theorem FailedEnd.between {E : Type*} (failed : FailedEnd E) (before after : Messages P) :
    Between before after (failed.messagesLeft before after) := by
  intro messageId
  unfold FailedEnd.messagesLeft
  cases failed.loses messageId with
  | true => exact Or.inl rfl
  | false => exact Or.inr rfl

omit [LinearOrder P] in
theorem LosesNothing.messagesLeft {E : Type*} {failed : FailedEnd E}
    (h : LosesNothing (some failed)) (before after : Messages P) :
    failed.messagesLeft before after = after := by
  funext messageId
  unfold FailedEnd.messagesLeft
  rw [h failed rfl messageId]
  rfl

omit [LinearOrder P] in
/-- A tag is present as in one of the two databases. -/
theorem Between.present {before after left : Messages P} (h : Between before after left)
    (key : TagKey) :
    present left key = present before key ∨ present left key = present after key := by
  unfold Notmuch.present
  rcases h key.1 with hbefore | hafter
  · rw [hbefore]
    exact Or.inl rfl
  · rw [hafter]
    exact Or.inr rfl

omit [LinearOrder P] in
/-- Losing changes of a part of an overwriting leaves a part of it. -/
theorem Between.partWay {before after left : Messages P} (h : Between before after left)
    (hpart : o.PartWay (Notmuch.present before) (Notmuch.present after)) :
    o.PartWay (Notmuch.present before) (Notmuch.present left) := by
  intro key
  rcases h.present key with hbefore | hafter
  · exact Or.inl hbefore
  · rw [hafter]
    exact hpart key

omit [LinearOrder P] in
/-- No message comes or goes with what is lost. -/
theorem Between.isSome {before after left : Messages P} (h : Between before after left)
    {messageId : Str} (hsame : (after messageId).isSome = (before messageId).isSome) :
    (left messageId).isSome = (before messageId).isSome := by
  rcases h messageId with hbefore | hafter
  · rw [hbefore]
  · rw [hafter, hsame]

/-- **How a batch ends**: without an error and with all it has done, or with the error of the end
of its section and without what is lost. `errors` are the finalization errors of the report. -/
def EndsAs (calls : BatchCalls P) (before after left : Messages P) (errors : List Str) : Prop :=
  errors = [] ∧ left = after ∨
    ∃ failed, calls.endAtomic = some failed ∧ errors = [failed.error] ∧
      left = failed.messagesLeft before after

variable {calls : BatchCalls P} {before after left : Messages P} {errors : List Str}

omit [LinearOrder P] in
theorem EndsAs.between (h : EndsAs calls before after left errors) :
    Between before after left := by
  rcases h with ⟨-, hleft⟩ | ⟨failed, -, -, hleft⟩
  · exact .of_eq hleft
  · rw [hleft]
    exact failed.between before after

omit [LinearOrder P] in
theorem EndsAs.eq_of_losesNothing (h : EndsAs calls before after left errors)
    (hloses : LosesNothing calls.endAtomic) : left = after := by
  rcases h with ⟨-, hleft⟩ | ⟨failed, hfailed, -, hleft⟩
  · exact hleft
  · rw [hleft]
    rw [hfailed] at hloses
    exact hloses.messagesLeft before after

omit [LinearOrder P] in
theorem EndsAs.eq_of_complete (h : EndsAs calls before after left []) : left = after := by
  rcases h with ⟨-, hleft⟩ | ⟨failed, -, herrors, -⟩
  · exact hleft
  · exact absurd herrors (List.cons_ne_nil _ _).symm

/-! ## The whole batch -/

omit [LinearOrder P] in
theorem withCalls_fst (calls : BatchCalls P) (batch : List PreparedMessageMutation) :
    (withCalls calls batch).map Prod.fst = batch := by
  unfold withCalls
  rw [List.map_map]
  exact List.zipIdx_map_fst 0 batch

/-- A batch fails before its first message, or it goes through all of them, ends its section and
reports. -/
theorem applyPreparedTagMutations_cases (path : PathText P) (calls : BatchCalls P)
    (messages : Messages P) (prepared : List PreparedMessageMutation) :
    (∃ error, applyPreparedTagMutations path calls messages prepared = (messages, .error error)) ∨
    ∃ left report,
      applyPreparedTagMutations path calls messages prepared = (left, .ok report) ∧
      EndsAs calls messages (finalMessages path messages (withCalls calls prepared)) left
        report.finalizationErrors ∧
      report.requestedMessages = prepared.length ∧
      report.changes = batchChanges path messages (withCalls calls prepared) ∧
      report.failures = (outcomes path messages (withCalls calls prepared)).flatMap
        MessageMutationOutcome.failures := by
  unfold applyPreparedTagMutations
  split
  · -- an empty batch makes no call at all
    rename_i hempty
    rw [List.isEmpty_iff.1 hempty]
    exact Or.inr ⟨messages, {}, rfl, Or.inl ⟨rfl, rfl⟩, rfl, rfl, rfl⟩
  · split
    · exact Or.inl ⟨_, rfl⟩
    · right
      rw [applyAll_eq]
      obtain ⟨hchanges, hfailures, herrors⟩ := addOutcome_foldl
        (outcomes path messages (withCalls calls prepared))
        { requestedMessages := prepared.length }
      have hrequested : ∀ (list : List (MessageMutationOutcome P)) (report : TagBatchReport P),
          (list.foldl TagBatchReport.addOutcome report).requestedMessages =
            report.requestedMessages := by
        intro list
        induction list with
        | nil => exact fun report => rfl
        | cons outcome rest ih => exact fun report => ih _
      simp only
      split
      · exact ⟨_, _, rfl, Or.inl ⟨herrors, rfl⟩, hrequested _ _, hchanges, hfailures⟩
      · rename_i failed hfailed
        refine ⟨_, _, rfl, Or.inr ⟨failed, hfailed, ?_, rfl⟩, hrequested _ _, hchanges, hfailures⟩
        -- the turns add no finalization error, the end adds its own
        show List.append _ [failed.error] = [failed.error]
        rw [herrors]
        rfl

/-- The same of `apply_tags_to_messages`, whose checks come first. -/
theorem applyTagsToMessages_cases (path : PathText P) (calls : BatchCalls P)
    (messages : Messages P) (mutations : List MessageTagMutation) (syncMaildirFlags : Bool) :
    (∃ error, applyTagsToMessages path calls messages mutations syncMaildirFlags =
      (messages, .error error)) ∨
    ∃ batch left report,
      batch = withCalls calls (mutations.map (MessageTagMutation.prepared syncMaildirFlags)) ∧
      applyTagsToMessages path calls messages mutations syncMaildirFlags = (left, .ok report) ∧
      EndsAs calls messages (finalMessages path messages batch) left report.finalizationErrors ∧
      report.changes = batchChanges path messages batch ∧
      report.failures = (outcomes path messages batch).flatMap
        MessageMutationOutcome.failures := by
  unfold applyTagsToMessages
  cases hprepare : mutations.mapM (prepareMutation syncMaildirFlags) with
  | error error => exact Or.inl ⟨error, rfl⟩
  | ok list =>
    have hlist : list = mutations.map (MessageTagMutation.prepared syncMaildirFlags) := by
      have hall := mapM_eq_ok.1 hprepare
      clear hprepare
      induction hall with
      | nil => rfl
      | cons hfirst _ ih =>
        obtain ⟨_, -, hfirst⟩ := bind_eq_ok.1 hfirst
        split at hfirst
        · cases hfirst
        · rw [← Except.ok.inj hfirst, ih]
          rfl
    rw [hlist]
    rcases applyPreparedTagMutations_cases path calls messages
        (mutations.map (MessageTagMutation.prepared syncMaildirFlags)) with
      herror | ⟨left, report, hreport, hends, -, hchanges, hfailures⟩
    · exact Or.inl herror
    · exact Or.inr ⟨_, left, report, rfl, hreport, hends, hchanges, hfailures⟩

/-! ## Batches that name a message several times -/

/-- No member of the batch asks for the value that a tag has before the batch once an earlier one
has asked for the other value. -/
def NoReversal (before : TagKey → Bool) (batch : List PreparedMessageMutation) : Prop :=
  batch.Pairwise fun earlier later => ∀ key, earlier.overwrite key = some (!before key) →
    later.overwrite key ≠ some (before key)

/-- A tag that nobody asks back keeps its value. -/
theorem keepsTag_of_not_asked {before : TagKey → Bool} {key : TagKey}
    (hchanged : present messages key ≠ before key)
    (hnot : ∀ prepared ∈ batch, prepared.1.overwrite key ≠ some (before key)) :
    KeepsTag path key messages batch := by
  induction batch generalizing messages with
  | nil => trivial
  | cons prepared rest ih =>
    have hkept : present (applyPrepared path messages prepared).1 key = present messages key := by
      rcases (applyPrepared_spec path messages prepared).partWay key with hsame | hasked
      · exact hsame
      · by_contra hne
        apply hnot prepared List.mem_cons_self
        rw [hasked, Bool.eq_not_of_ne hne, Bool.eq_not_of_ne hchanged, Bool.not_not]
    refine ⟨hkept, ih ?_ fun p hp => hnot p (List.mem_cons_of_mem _ hp)⟩
    rw [hkept]
    exact hchanged

/-- A batch without reversals changes no tag twice. -/
theorem NoReversal.turnsOnce {before : TagKey → Bool}
    (h : NoReversal before (batch.map Prod.fst))
    (hsettled : ∀ key, present messages key ≠ before key →
      ∀ prepared ∈ batch, prepared.1.overwrite key ≠ some (before key)) :
    TurnsOnce path messages batch := by
  induction batch generalizing messages with
  | nil => trivial
  | cons prepared rest ih =>
    obtain ⟨hlater, hrest⟩ := List.pairwise_cons.1 h
    -- what this turn has changed is not asked back by the rest
    have hnext : ∀ key, present (applyPrepared path messages prepared).1 key ≠ before key →
        ∀ p ∈ rest, p.1.overwrite key ≠ some (before key) := by
      intro key hchanged p hp
      by_cases hsame : present messages key = before key
      · rcases (applyPrepared_spec path messages prepared).partWay key with hkept | hasked
        · exact absurd (hkept.trans hsame) hchanged
        · apply hlater p.1 (List.mem_map_of_mem hp) key
          rw [hasked, Bool.eq_not_of_ne hchanged]
      · exact hsettled key hsame p (List.mem_cons_of_mem _ hp)
    refine ⟨fun key hchanged => ?_, ih hrest hnext⟩
    by_cases hback : present (applyPrepared path messages prepared).1 key = before key
    · have hdiffers : present messages key ≠ before key := by
        rw [← hback]
        exact Ne.symm hchanged
      rcases (applyPrepared_spec path messages prepared).partWay key with hkept | hasked
      · exact absurd hkept hchanged
      · rw [hback] at hasked
        exact absurd hasked (hsettled key hdiffers prepared List.mem_cons_self)
    · exact keepsTag_of_not_asked hback (hnext key hback)

omit [LinearOrder P] in
/-- One mutation for all members of a batch reverses nothing. -/
theorem noReversal_uniform (before : TagKey → Bool) (ids : List Str) (mutation : TagMutation) :
    NoReversal before
      (ids.map fun messageId => { messageId := messageId, mutation := mutation }) := by
  unfold NoReversal
  rw [List.pairwise_map]
  apply List.pairwise_of_forall
  intro earlier later key hearlier hlater
  unfold PreparedMessageMutation.overwrite overwriteOf at hearlier hlater
  split at hearlier
  · split at hlater
    · rw [hearlier] at hlater
      exact absurd (Option.some.inj hlater) (Bool.not_ne_self _)
    · cases hlater
  · cases hearlier

/-- No message appears or disappears. -/
theorem finalMessages_isSome (path : PathText P) (messages : Messages P)
    (batch : List (PreparedMessageMutation × MessageCalls P)) (messageId : Str) :
    (finalMessages path messages batch messageId).isSome = (messages messageId).isSome := by
  induction batch generalizing messages with
  | nil => rfl
  | cons prepared rest ih =>
    show (finalMessages path (applyPrepared path messages prepared).1 rest messageId).isSome = _
    rw [ih]
    unfold applyPrepared
    simp only
    split
    · rfl
    · split
      · rfl
      · rename_i message hmessage
        show (Function.update messages prepared.1.messageId (some _) messageId).isSome = _
        by_cases heq : messageId = prepared.1.messageId
        · rw [heq, Function.update_self, hmessage]
          rfl
        · rw [Function.update_of_ne heq]

end Notm.Notmuch
