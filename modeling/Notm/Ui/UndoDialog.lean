import Mathlib
import Notm.Lib.BTreeSet
import Notm.Ui.TagUndo

/-!
# The dialog to undo several tag operations

The dialog lists the history with the newest action first, as it was when the dialog opened. The
rows that the user selects are mapped back to positions of the history when he confirms them, from
the length that the history has then. A tag operation that is under way when the dialog opens ends
while it is open, and its action moves every other one to a different row. What the model calls a
confirmation is one that goes through: while an operation runs, `ensure_user_operation_allowed`
makes the function return before it looks at the history.

The model numbers the actions in the order in which they were recorded, so that one action of the
history can be told from an equal one. `TagHistory.actions` forgets the numbers.

* `applySelectedUndoDialogActions_eq` — what is taken out and handed over, by the rows of the
  history.
* `Numbered` — each action has a number of its own, so a row is known by what it shows.
* `RowsStand` — the confirmed rows show the same actions as when the dialog opened.
* `applySelected_undoes_shown_iff` — what is undone is what is shown exactly then.
-/

namespace Notm.Ui

open Rust

variable {A : Type}

/-! ## The dialog -/

/-- An index past the end removes nothing. -/
def removeUndoTagAction (actions : List A) (index : Nat) : Option A × List A :=
  match actions[index]? with
  | none => (none, actions)
  | some action => (some action, actions.eraseIdx index)

/-- The rows to undo: the row of the cursor when none is selected. -/
def displayIndices (selected : BTreeSet Nat) (cursor actionsLen : Nat) : BTreeSet Nat :=
  if selected.toList.isEmpty then .ofList [min cursor (actionsLen - 1)]
  else .ofList (selected.toList.filter (· < actionsLen))

/-- `original_len.checked_sub(1 + display_index)`. -/
def storageIndex (originalLen displayIndex : Nat) : Option Nat :=
  if 1 + displayIndex ≤ originalLen then some (originalLen - (1 + displayIndex)) else none

/-- The dialog shows the newest action first, so that its rows are counted from the end; the
positions are put in ascending order. -/
def storageIndices (originalLen : Nat) (displayIndices : BTreeSet Nat) : List Nat :=
  (displayIndices.toList.filterMap (storageIndex originalLen)).insertionSort (· ≤ ·)

/-- The loop that takes the actions at the positions out of the history. -/
def removeStorageIndices (originalLen : Nat) :
    List Nat → (actions : List A) → (removed : List (Nat × A)) → List A × List (Nat × A)
  | [], actions, removed => (actions, removed)
  | storageIndex :: rest, actions, removed =>
    match removeUndoTagAction actions storageIndex with
    | (some action, actions) =>
      removeStorageIndices originalLen rest actions
        (removed ++ [(originalLen - 1 - storageIndex, action)])
    | (none, actions) => removeStorageIndices originalLen rest actions removed

/-- `apply_selected_undo_dialog_actions` up to the call of `undo_tag_actions`: the history that is
left, and the actions to undo. -/
def applySelectedUndoDialogActions (actions : List A) (selected : BTreeSet Nat)
    (cursor actionsLen : Nat) : List A × List A :=
  if actionsLen = 0 then (actions, [])
  else
    let storage := storageIndices actions.length (displayIndices selected cursor actionsLen)
    let (actions, removed) := removeStorageIndices actions.length storage.reverse actions []
    (actions, (removed.insertionSort (·.1 ≤ ·.1)).map (·.2))

/-! ## The history while the dialog is open -/

/-- An action with the number of its recording, which tells equal ones apart. -/
structure RecordedAction where
  number : Nat
  action : UndoTagAction
deriving DecidableEq

/-- The tag operation that is in progress. -/
inductive TagOperation where
  | tagging
  | undoing (actions : List RecordedAction)

/-- The history behind the dialog, the newest action last, and the tag operation that is in
progress. The actions are numbered as they are recorded, so that each is known wherever it stands.
-/
structure TagHistory where
  entries : List RecordedAction
  /-- How many actions have been recorded. -/
  next : Nat
  inProgress : Option TagOperation

namespace TagHistory

variable (h : TagHistory)

def actions : List UndoTagAction := h.entries.map (·.action)

/-- What `load_undo_tag_actions` has read. -/
def load (actions : List UndoTagAction) : TagHistory where
  entries := actions.zipIdx.map fun entry => ⟨entry.2, entry.1⟩
  next := actions.length
  inProgress := none

/-- `dropOverflow`, for the actions with their numbers. -/
def trim (entries : List RecordedAction) : List RecordedAction :=
  entries.drop (entries.length - maxUndoTagActions)

/-- A new action is recorded under the next number. -/
def push (action : UndoTagAction) : TagHistory :=
  { h with entries := trim (h.entries ++ [⟨h.next, action⟩]), next := h.next + 1 }

/-- `restore_undo_tag_actions`, for actions with the newest first. -/
def restore (undone : List RecordedAction) : TagHistory :=
  { h with entries := trim (h.entries ++ undone.reverse) }

/-- `undo_tag_actions`; the worker may fail to start. -/
def undo (undone : List RecordedAction) (starts : Bool) : TagHistory :=
  match undone with
  | [] => h
  | entry :: rest =>
    if starts then { h with inProgress := some (.undoing (entry :: rest)) }
    else h.restore (entry :: rest)

/-- The tag operations that the history depends on. -/
inductive Event where
  | tag
  | undoLast (starts : Bool)
  | undoSelected (selected : BTreeSet Nat) (cursor actionsLen : Nat) (starts : Bool)
  /-- The worker is done: the action that a tag operation records, and whether an undo was done
  completely. -/
  | finished (action : Option UndoTagAction) (complete : Bool)

/-- `finish_tag_worker`. -/
def finish (action : Option UndoTagAction) (complete : Bool) : TagHistory :=
  match h.inProgress with
  | none => h
  | some .tagging =>
    match action with
    | none => { h with inProgress := none }
    | some action => { h with inProgress := none }.push action
  | some (.undoing undone) =>
    if complete then { h with inProgress := none }
    else { h with inProgress := none }.restore undone

/-- While a tag operation is in progress no other one starts. -/
def step : Event → TagHistory
  | .finished action complete => h.finish action complete
  | .tag => if h.inProgress.isSome then h else { h with inProgress := some .tagging }
  | .undoLast starts =>
    if h.inProgress.isSome then h
    else { h with entries := h.entries.dropLast }.undo h.entries.getLast?.toList starts
  | .undoSelected selected cursor actionsLen starts =>
    if h.inProgress.isSome then h
    else
      let (entries, undone) :=
        applySelectedUndoDialogActions h.entries selected cursor actionsLen
      { h with entries := entries }.undo undone starts

def run (events : List Event) : TagHistory := events.foldl step h

/-! ## The model and the functions on the history -/

theorem map_trim (entries : List RecordedAction) :
    (trim entries).map (·.action) = dropOverflow (entries.map (·.action)) := by
  unfold trim dropOverflow
  rw [List.map_drop, List.length_map]

end TagHistory

/-! ## The rows and the positions

A row `r` of a history shows the action at position `length - 1 - r`. -/

/-- The action that a row shows in a dialog for these actions. -/
def atRow (actions : List A) (row : Nat) : Option A := actions.reverse[row]?

/-- The actions that the rows show. -/
def shownIn (actions : List A) (rows : List Nat) : List A := rows.filterMap (atRow actions)

theorem mem_shownIn {actions : List A} {rows : List Nat} {action : A} :
    action ∈ shownIn actions rows ↔ ∃ row ∈ rows, atRow actions row = some action :=
  List.mem_filterMap

theorem atRow_eq (actions : List A) (row : Nat) :
    atRow actions row = (storageIndex actions.length row).bind (actions[·]?) := by
  unfold atRow storageIndex
  split
  · rename_i hrow
    have hlt : row < actions.length := by omega
    show actions.reverse[row]? = actions[actions.length - (1 + row)]?
    rw [List.getElem?_reverse hlt]
    congr 1
    omega
  · rename_i hrow
    apply List.getElem?_eq_none
    rw [List.length_reverse]
    omega

theorem mem_storageIndices {originalLen index : Nat} {displayed : BTreeSet Nat} :
    index ∈ storageIndices originalLen displayed ↔
      ∃ row ∈ displayed.toList, storageIndex originalLen row = some index := by
  unfold storageIndices
  rw [(List.perm_insertionSort _ _).mem_iff, List.mem_filterMap]

theorem storageIndices_ascending (originalLen : Nat) (displayed : BTreeSet Nat) :
    (storageIndices originalLen displayed).Pairwise (· < ·) := by
  have hnodup : (storageIndices originalLen displayed).Nodup := by
    unfold storageIndices
    rw [(List.perm_insertionSort _ _).nodup_iff]
    apply List.Nodup.filterMap _ (displayed.increasing.imp Nat.ne_of_lt)
    intro row row' index hrow hrow'
    unfold storageIndex at hrow hrow'
    simp only [Option.mem_def, Option.ite_none_right_eq_some, Option.some.injEq] at hrow hrow'
    omega
  have hsorted : (storageIndices originalLen displayed).Pairwise (· ≤ ·) :=
    List.pairwise_insertionSort (· ≤ ·) _
  exact hsorted.imp₂ (fun index index' hle hne => Nat.lt_of_le_of_ne hle hne) hnodup

/-- The loop takes the positions out from the back, so that none of them moves before its turn. -/
theorem removeStorageIndices_eq (originalLen : Nat) {indices : List Nat}
    (h : indices.Pairwise (· > ·)) (actions : List A) (removed : List (Nat × A)) :
    removeStorageIndices originalLen indices actions removed =
      (indices.foldl List.eraseIdx actions,
        removed ++ indices.filterMap fun index =>
          actions[index]?.map fun action => (originalLen - 1 - index, action)) := by
  induction indices generalizing actions removed with
  | nil => simp only [removeStorageIndices, List.foldl_nil, List.filterMap_nil, List.append_nil]
  | cons index rest ih =>
    obtain ⟨hbefore, hrest⟩ := List.pairwise_cons.1 h
    unfold removeStorageIndices removeUndoTagAction
    rw [List.foldl_cons]
    cases hget : actions[index]? with
    | none =>
      have hlength : actions.length ≤ index := List.getElem?_eq_none_iff.1 hget
      simp only [ih hrest, List.filterMap_cons, hget, Option.map_none,
        List.eraseIdx_of_length_le hlength]
    | some action =>
      have hstay : ∀ index' ∈ rest, (actions.eraseIdx index)[index']? = actions[index']? := by
        intro index' hmem
        exact List.getElem?_eraseIdx_of_lt (hbefore index' hmem)
      simp only [ih hrest, List.filterMap_cons, hget, Option.map_some, List.append_assoc,
        List.singleton_append]
      congr 3
      apply List.filterMap_congr
      intro index' hmem
      rw [hstay index' hmem]

/-- The entries at ascending positions stand in the list in that order. -/
theorem filterMap_getElem_sublist (actions : List A) {indices : List Nat} {start : Nat}
    (h : indices.Pairwise (· < ·)) (hstart : ∀ index ∈ indices, start ≤ index) :
    (indices.filterMap (actions[·]?)).Sublist (actions.drop start) := by
  induction indices generalizing start with
  | nil => exact List.nil_sublist _
  | cons index rest ih =>
    obtain ⟨hbefore, hrest⟩ := List.pairwise_cons.1 h
    have hle : start ≤ index := hstart index List.mem_cons_self
    have hfrom : (actions.drop index).Sublist (actions.drop start) :=
      List.drop_sublist_drop_left actions hle
    have htail := ih hrest fun index' hmem => Nat.succ_le_of_lt (hbefore index' hmem)
    rw [List.filterMap_cons]
    cases hget : actions[index]? with
    | none => exact (htail.trans (List.drop_sublist_drop_left actions index.le_succ)).trans hfrom
    | some action =>
      apply List.Sublist.trans _ hfrom
      rw [List.drop_eq_getElem?_toList_append, hget]
      exact htail.cons_cons action

/-- The positions of the rows hold what the rows show. -/
theorem mem_filterMap_storageIndices {actions : List A} {displayed : BTreeSet Nat} {action : A} :
    action ∈ (storageIndices actions.length displayed).filterMap (actions[·]?) ↔
      action ∈ shownIn actions displayed.toList := by
  rw [List.mem_filterMap, mem_shownIn]
  constructor
  · rintro ⟨index, hindex, hget⟩
    obtain ⟨row, hrow, hstorage⟩ := mem_storageIndices.1 hindex
    refine ⟨row, hrow, ?_⟩
    rw [atRow_eq, hstorage]
    exact hget
  · rintro ⟨row, hrow, hget⟩
    rw [atRow_eq] at hget
    obtain ⟨index, hstorage, hget⟩ := Option.bind_eq_some_iff.1 hget
    exact ⟨index, mem_storageIndices.2 ⟨row, hrow, hstorage⟩, hget⟩

/-- The removed actions are in the order of their rows already. -/
theorem insertionSort_removed (actions : List A) {indices : List Nat}
    (h : indices.Pairwise (· > ·)) :
    ((indices.filterMap fun index => actions[index]?.map fun action =>
        (actions.length - 1 - index, action)).insertionSort (·.1 ≤ ·.1)).map (·.2) =
      indices.filterMap (actions[·]?) := by
  have hsorted : (indices.filterMap fun index =>
      actions[index]?.map fun action => (actions.length - 1 - index, action)).Pairwise
        (·.1 ≤ ·.1) := by
    rw [List.pairwise_filterMap]
    apply h.imp
    intro index index' hgt entry hentry entry' hentry'
    obtain ⟨_, -, rfl⟩ := Option.map_eq_some_iff.1 hentry
    obtain ⟨_, -, rfl⟩ := Option.map_eq_some_iff.1 hentry'
    show actions.length - 1 - index ≤ actions.length - 1 - index'
    omega
  rw [hsorted.insertionSort_eq, List.map_filterMap]
  apply List.filterMap_congr
  intro index _
  cases actions[index]? <;> rfl

section Distinct

variable [DecidableEq A] {actions : List A} (hnodup : actions.Nodup)
include hnodup

/-- In a list without repetitions a sublist is all there is of its elements. -/
theorem sublist_eq_filter {part : List A} (h : part.Sublist actions) :
    part = actions.filter (· ∈ part) := by
  induction h with
  | slnil => rfl
  | cons action hpart ih =>
    obtain ⟨hnot, hrest⟩ := List.nodup_cons.1 hnodup
    rw [List.filter_cons_of_neg (by simpa using fun hmem => hnot (hpart.subset hmem))]
    exact ih hrest
  | cons_cons action hpart ih =>
    obtain ⟨hnot, hrest⟩ := List.nodup_cons.1 hnodup
    rw [List.filter_cons_of_pos (by simp)]
    congr 1
    refine (ih hrest).trans (List.filter_congr fun entry hmem => ?_)
    have hne : entry ≠ action := fun heq => hnot (heq ▸ hmem)
    simp [hne]

theorem foldl_eraseIdx_eq_filter {indices : List Nat} (h : indices.Pairwise (· > ·)) :
    indices.foldl List.eraseIdx actions =
      actions.filter (· ∉ indices.filterMap (actions[·]?)) := by
  induction indices generalizing actions with
  | nil => simp
  | cons index rest ih =>
    obtain ⟨hbefore, hrest⟩ := List.pairwise_cons.1 h
    have hstay : rest.filterMap ((actions.eraseIdx index)[·]?) =
        rest.filterMap (actions[·]?) := by
      apply List.filterMap_congr
      intro index' hmem
      exact List.getElem?_eraseIdx_of_lt (hbefore index' hmem)
    rw [List.foldl_cons, ih (hnodup.sublist (List.eraseIdx_sublist _ _)) hrest, hstay,
      List.filterMap_cons]
    cases hget : actions[index]? with
    | none =>
      rw [List.eraseIdx_of_length_le (List.getElem?_eq_none_iff.1 hget)]
    | some action =>
      obtain ⟨hlt, rfl⟩ := List.getElem?_eq_some_iff.1 hget
      rw [← hnodup.erase_getElem index hlt, hnodup.erase_eq_filter, List.filter_filter]
      apply List.filter_congr
      intro entry _
      simp only [List.mem_cons, not_or]
      rw [Bool.decide_and, Bool.and_comm]
      congr 1
      simp [bne, Bool.beq_eq_decide_eq]

/-- What the function removes and hands over are the actions at the rows of the history that it is
called with. -/
theorem applySelectedUndoDialogActions_eq (selected : BTreeSet Nat) (cursor : Nat)
    {actionsLen : Nat}
    (hopen : actionsLen ≠ 0) :
    applySelectedUndoDialogActions actions selected cursor actionsLen =
      (actions.filter (· ∉ shownIn actions (displayIndices selected cursor actionsLen).toList),
        (actions.filter
          (· ∈ shownIn actions (displayIndices selected cursor actionsLen).toList)).reverse) := by
  unfold applySelectedUndoDialogActions
  rw [if_neg hopen]
  generalize displayIndices selected cursor actionsLen = displayed
  have hascending := storageIndices_ascending actions.length displayed
  have hdescending : (storageIndices actions.length displayed).reverse.Pairwise (· > ·) :=
    List.pairwise_reverse.2 hascending
  have hsublist := filterMap_getElem_sublist actions hascending fun index _ => Nat.zero_le index
  simp only [removeStorageIndices_eq _ hdescending, List.nil_append]
  congr 1
  · rw [foldl_eraseIdx_eq_filter hnodup hdescending]
    apply List.filter_congr
    intro action _
    simp only [List.filterMap_reverse, List.mem_reverse, mem_filterMap_storageIndices]
  · rw [insertionSort_removed actions hdescending, List.filterMap_reverse]
    congr 1
    refine (sublist_eq_filter hnodup hsublist).trans (List.filter_congr fun action _ => ?_)
    simp only [mem_filterMap_storageIndices]

end Distinct

namespace TagHistory

/-! ## The numbers stay apart -/

/-- The actions that are in the history or are being undone. -/
def known (h : TagHistory) : List RecordedAction :=
  match h.inProgress with
  | some (.undoing undone) => h.entries ++ undone
  | _ => h.entries

structure Numbered (h : TagHistory) : Prop where
  nodup : (h.known.map (·.number)).Nodup
  below : ∀ entry ∈ h.known, entry.number < h.next

variable {h h' : TagHistory}

theorem trim_subset (entries : List RecordedAction) : (trim entries).Sublist entries :=
  List.drop_sublist _ _

theorem entries_sublist_known : h.entries.Sublist h.known := by
  unfold known
  split
  · exact List.sublist_append_left _ _
  · exact List.Sublist.refl _

theorem Numbered.nodup_entries (hn : h.Numbered) : h.entries.Nodup :=
  List.Nodup.of_map _ (hn.nodup.sublist (entries_sublist_known.map _))

theorem Numbered.of_subperm (hn : h.Numbered) (hsub : h'.known.Subperm h.known)
    (hnext : h.next ≤ h'.next) : h'.Numbered where
  nodup := by
    obtain ⟨part, hperm, hpart⟩ := hsub
    exact ((hperm.map _).nodup_iff).1 (hn.nodup.sublist (hpart.map _))
  below := fun entry hmem => (hn.below entry (hsub.subset hmem)).trans_le hnext

theorem numbered_load (actions : List UndoTagAction) : (load actions).Numbered := by
  have hknown : (load actions).known.map (·.number) = List.range' 0 actions.length := by
    show (actions.zipIdx.map _).map _ = _
    rw [List.map_map]
    exact List.zipIdx_map_snd 0 actions
  constructor
  · rw [hknown]
    exact List.nodup_range'
  · intro entry hmem
    have hnumber : entry.number ∈ (load actions).known.map (·.number) :=
      List.mem_map_of_mem hmem
    rw [hknown, List.mem_range'_1] at hnumber
    show entry.number < actions.length
    omega

theorem Numbered.push (hn : h.Numbered) (hfree : h.inProgress = none) (action : UndoTagAction) :
    (h.push action).Numbered := by
  have hold : h.known = h.entries := by
    unfold known
    rw [hfree]
  have hnew : (h.push action).known = trim (h.entries ++ [⟨h.next, action⟩]) := by
    unfold TagHistory.push known
    rw [hfree]
  have hnodup := hn.nodup
  have hbelow := hn.below
  rw [hold] at hnodup hbelow
  have happended :
      ((h.entries ++ [(⟨h.next, action⟩ : RecordedAction)]).map (·.number)).Nodup := by
    rw [List.map_append, List.nodup_append]
    refine ⟨hnodup, List.nodup_singleton _, ?_⟩
    intro number hmem number' hmem'
    obtain ⟨entry, hentry, rfl⟩ := List.mem_map.1 hmem
    obtain rfl := List.mem_singleton.1 hmem'
    exact (hbelow entry hentry).ne
  constructor
  · rw [hnew]
    exact happended.sublist ((trim_subset _).map _)
  · intro entry hmem
    rw [hnew] at hmem
    show entry.number < h.next + 1
    rcases List.mem_append.1 ((trim_subset _).subset hmem) with hmem | hmem
    · exact (hbelow entry hmem).trans h.next.lt_succ_self
    · obtain rfl := List.mem_singleton.1 hmem
      exact h.next.lt_succ_self

/-- Actions that are taken out of the history are being undone or are back in it. -/
theorem Numbered.undo {rest undone : List RecordedAction} {starts : Bool} (hn : h.Numbered)
    (hfree : h.inProgress = none) (hsub : (rest ++ undone).Subperm h.entries) :
    ({ h with entries := rest }.undo undone starts).Numbered := by
  have hknown : h.known = h.entries := by
    unfold known
    rw [hfree]
  rw [← hknown] at hsub
  unfold TagHistory.undo
  split
  · refine hn.of_subperm ?_ h.next.le_refl
    unfold known
    rw [hfree, ← hknown]
    simpa using hsub
  · split
    · exact hn.of_subperm hsub h.next.le_refl
    · refine hn.of_subperm ?_ h.next.le_refl
      unfold restore known
      rw [hfree, ← hknown]
      apply (trim_subset _).subperm.trans
      exact (List.Perm.append_left _ (List.reverse_perm _)).subperm.trans hsub

theorem dropLast_append_getLast (entries : List RecordedAction) :
    entries.dropLast ++ entries.getLast?.toList = entries := by
  cases entries using List.reverseRec with
  | nil => rfl
  | append_singleton entries entry => simp

theorem Numbered.finish (hn : h.Numbered) (action : Option UndoTagAction) (complete : Bool) :
    (h.finish action complete).Numbered := by
  have hentries : h.entries.Subperm h.known := entries_sublist_known.subperm
  have hended : ({ h with inProgress := none } : TagHistory).Numbered :=
    hn.of_subperm hentries h.next.le_refl
  unfold TagHistory.finish
  cases hprogress : h.inProgress with
  | none => exact hn
  | some operation =>
    cases operation with
    | tagging =>
      cases action with
      | none => exact hended
      | some action => exact hended.push rfl action
    | undoing undone =>
      show (if complete then _ else _ : TagHistory).Numbered
      split
      · exact hended
      · refine hn.of_subperm ?_ h.next.le_refl
        show (trim (h.entries ++ undone.reverse)).Subperm h.known
        have hknown : h.known = h.entries ++ undone := by
          unfold known
          rw [hprogress]
        rw [hknown]
        exact (trim_subset _).subperm.trans
          (List.Perm.append_left _ (List.reverse_perm _)).subperm

/-- What the function takes out and what it leaves are the history. -/
theorem applySelected_perm (hn : h.Numbered) (selected : BTreeSet Nat) (cursor actionsLen : Nat) :
    ((applySelectedUndoDialogActions h.entries selected cursor actionsLen).1 ++
      (applySelectedUndoDialogActions h.entries selected cursor actionsLen).2).Perm h.entries := by
  by_cases hopen : actionsLen = 0
  · unfold applySelectedUndoDialogActions
    rw [if_pos hopen, List.append_nil]
  · rw [applySelectedUndoDialogActions_eq hn.nodup_entries selected cursor hopen]
    apply ((List.reverse_perm _).append_left _).trans
    apply List.perm_append_comm.trans
    simpa using List.filter_append_perm
      (· ∈ shownIn h.entries (displayIndices selected cursor actionsLen).toList) h.entries

theorem Numbered.step (hn : h.Numbered) (event : Event) : (h.step event).Numbered := by
  cases event with
  | finished action complete => exact hn.finish action complete
  | tag =>
    show (if h.inProgress.isSome then h else _ : TagHistory).Numbered
    split
    · exact hn
    · have hentries : h.entries.Subperm h.known := entries_sublist_known.subperm
      exact hn.of_subperm hentries h.next.le_refl
  | undoLast starts =>
    show (if h.inProgress.isSome then h else _ : TagHistory).Numbered
    split
    · exact hn
    · rename_i hfree
      apply hn.undo (by simpa using hfree)
      rw [dropLast_append_getLast]
  | undoSelected selected cursor actionsLen starts =>
    show (if h.inProgress.isSome then h else _ : TagHistory).Numbered
    split
    · exact hn
    · rename_i hfree
      exact hn.undo (by simpa using hfree)
        (applySelected_perm hn selected cursor actionsLen).subperm

theorem numbered_run (actions : List UndoTagAction) (events : List Event) :
    ((load actions).run events).Numbered := by
  have hrun : ∀ (events : List Event) (h : TagHistory), h.Numbered → (h.run events).Numbered := by
    intro events
    induction events with
    | nil => exact fun h hn => hn
    | cons event events ih => exact fun h hn => ih (h.step event) (hn.step event)
  exact hrun events _ (numbered_load actions)

/-! ## What the dialog undoes -/

/-- The rows that are undone in a dialog that lists `actionsLen` actions. -/
def chosenRows (selected : BTreeSet Nat) (cursor actionsLen : Nat) : List Nat :=
  if actionsLen = 0 then [] else (displayIndices selected cursor actionsLen).toList

/-- The actions that the dialog shows in the chosen rows are the ones that are taken out of the
history, with the newest first, and the others stay. -/
def UndoesShown (shown : List RecordedAction) (rows : List Nat) (before : List RecordedAction)
    (result : List RecordedAction × List RecordedAction) : Prop :=
  result.1 = before.filter (· ∉ shownIn shown rows) ∧
    result.2 = (before.filter (· ∈ shownIn shown rows)).reverse

/-- The chosen rows of a dialog for the history as it is now would show the same actions of this
history as those of the dialog do. -/
def RowsStand (shown now : List RecordedAction) (rows : List Nat) : Prop :=
  ∀ row < now.length, row ∈ rows ↔
    ∃ row' ∈ rows, atRow shown row' = atRow now row

theorem mem_iff_atRow {actions : List A} {action : A} :
    action ∈ actions ↔ ∃ row < actions.length, atRow actions row = some action := by
  rw [← List.mem_reverse, List.mem_iff_getElem?]
  constructor
  · rintro ⟨row, hget⟩
    obtain ⟨hlt, -⟩ := List.getElem?_eq_some_iff.1 hget
    exact ⟨row, by simpa using hlt, hget⟩
  · rintro ⟨row, -, hget⟩
    exact ⟨row, hget⟩

/-- Without repetitions, an action is among those of the rows when its own row is. -/
theorem atRow_mem_shownIn {actions : List A} {rows : List Nat} {row : Nat} {action : A}
    (hnodup : actions.Nodup) (hget : atRow actions row = some action) :
    action ∈ shownIn actions rows ↔ row ∈ rows := by
  rw [mem_shownIn]
  constructor
  · rintro ⟨row', hrow', hget'⟩
    obtain ⟨hlt, -⟩ := List.getElem?_eq_some_iff.1 hget'
    have hsame : row' = row :=
      (List.getElem?_inj hlt (List.nodup_reverse.2 hnodup)).1 (hget'.trans hget.symm)
    exact hsame ▸ hrow'
  · exact fun hrow => ⟨row, hrow, hget⟩

theorem rowsStand_iff {shown now : List RecordedAction} {rows : List Nat} (hnodup : now.Nodup) :
    RowsStand shown now rows ↔
      ∀ entry ∈ now, entry ∈ shownIn now rows ↔ entry ∈ shownIn shown rows := by
  constructor
  · intro hstand entry hmem
    obtain ⟨row, hlt, hget⟩ := mem_iff_atRow.1 hmem
    rw [atRow_mem_shownIn hnodup hget, hstand row hlt, mem_shownIn, hget]
  · intro hsame row hlt
    have hlt' : row < now.reverse.length := by simpa using hlt
    have hget : atRow now row = some now.reverse[row] := List.getElem?_eq_getElem hlt'
    have hmem : now.reverse[row] ∈ now := List.mem_reverse.1 (List.getElem_mem hlt')
    rw [← atRow_mem_shownIn hnodup hget, hsame _ hmem, mem_shownIn, hget]

/-- Two ways to split a list agree when they do so on each of its elements. -/
theorem split_eq_iff {now : List RecordedAction} {p q : RecordedAction → Prop}
    [DecidablePred p] [DecidablePred q] :
    now.filter (¬ p ·) = now.filter (¬ q ·) ∧
        (now.filter (p ·)).reverse = (now.filter (q ·)).reverse ↔
      ∀ entry ∈ now, p entry ↔ q entry := by
  constructor
  · rintro ⟨-, htaken⟩ entry hmem
    have hiff : entry ∈ (now.filter (p ·)).reverse ↔ entry ∈ (now.filter (q ·)).reverse := by
      rw [htaken]
    simpa [hmem] using hiff
  · intro hsame
    constructor
    · apply List.filter_congr
      intro entry hmem
      simp only [hsame entry hmem]
    · congr 1
      apply List.filter_congr
      intro entry hmem
      simp only [hsame entry hmem]

/-- **The dialog undoes what it shows** if and only if the confirmed rows stand, that is, show the
actions that they showed when the dialog opened. Whatever has been recorded or undone in between
moves the actions to other rows. -/
theorem applySelected_undoes_shown_iff (loaded : List UndoTagAction) (earlier later : List Event)
    (selected : BTreeSet Nat) (cursor : Nat) :
    let shown := ((load loaded).run earlier).entries
    let now := (((load loaded).run earlier).run later).entries
    let rows := chosenRows selected cursor shown.length
    UndoesShown shown rows now
        (applySelectedUndoDialogActions now selected cursor shown.length) ↔
      RowsStand shown now rows := by
  intro shown now rows
  have hnodup : now.Nodup := by
    have hrun : ((load loaded).run earlier).run later = (load loaded).run (earlier ++ later) :=
      (List.foldl_append ..).symm
    show (((load loaded).run earlier).run later).entries.Nodup
    rw [hrun]
    exact (numbered_run loaded _).nodup_entries
  -- The function takes out of the history what its rows show now.
  have hresult : applySelectedUndoDialogActions now selected cursor shown.length =
      (now.filter (· ∉ shownIn now rows), (now.filter (· ∈ shownIn now rows)).reverse) := by
    by_cases hopen : shown.length = 0
    · have hrows : rows = [] := if_pos hopen
      unfold applySelectedUndoDialogActions
      rw [if_pos hopen, hrows]
      simp [shownIn]
    · have hrows : rows = (displayIndices selected cursor shown.length).toList := if_neg hopen
      rw [hrows]
      exact applySelectedUndoDialogActions_eq hnodup selected cursor hopen
  rw [hresult, rowsStand_iff hnodup]
  exact split_eq_iff

/-- The history of one action while the archiving of a message is in progress: it ends while the
dialog is open, and is undone in place of the action that the dialog shows. -/
theorem action_recorded_behind_dialog :
    let starred : UndoTagAction :=
      { mutations := [⟨['a'], [], ["flagged".toList]⟩], syncMaildirFlags := false
        label := "+flagged on 1 message (1 changed)".toList, detail := none }
    let archived : UndoTagAction :=
      { mutations := [⟨['b'], ["inbox".toList], []⟩], syncMaildirFlags := false
        label := "-inbox on 1 message (1 changed)".toList, detail := none }
    let opened := (load [starred]).run [.tag]
    let now := opened.run [.finished (some archived) true]
    let selected : BTreeSet Nat := .empty
    ¬ UndoesShown opened.entries (chosenRows selected 0 opened.entries.length) now.entries
      (applySelectedUndoDialogActions now.entries selected 0 opened.entries.length) := by
  unfold UndoesShown
  decide

/-! ## Which selections stand -/

/-- Nothing changes while the dialog is open. -/
theorem rowsStand_self {shown : List RecordedAction} (rows : List Nat) (hnodup : shown.Nodup) :
    RowsStand shown shown rows :=
  (rowsStand_iff hnodup).2 fun _ _ => Iff.rfl

theorem atRow_append (older newer : List A) (row : Nat) :
    atRow (older ++ newer) row =
      if row < newer.length then atRow newer row else atRow older (row - newer.length) := by
  unfold atRow
  rw [List.reverse_append, List.getElem?_append, List.length_reverse]

theorem atRow_drop (actions : List A) (count row : Nat) :
    atRow (actions.drop count) row =
      if row < actions.length - count then atRow actions row else none := by
  unfold atRow
  rw [List.reverse_drop, List.getElem?_take]

/-- When actions are recorded while the dialog is open and none is undone, no selection with a row
that the history still has stands. -/
theorem not_rowsStand_of_newer {shown newer : List RecordedAction} {dropped row : Nat}
    {rows : List Nat} (hnodup : shown.Nodup) (hnewer : newer ≠ [])
    (hfresh : ∀ entry ∈ newer, entry ∉ shown) (hmem : row ∈ rows)
    (hlt : row < (shown.drop dropped ++ newer).length) :
    ¬ RowsStand shown (shown.drop dropped ++ newer) rows := by
  intro hstand
  -- the first chosen row shows a newer action, or one that the dialog has in an earlier row
  classical
  have hexists : ∃ row, row ∈ rows := ⟨row, hmem⟩
  have hfirst := Nat.find_spec hexists
  have hmin : ∀ row' ∈ rows, Nat.find hexists ≤ row' :=
    fun row' hrow' => Nat.find_min' hexists hrow'
  revert hfirst hmin
  generalize Nat.find hexists = first
  intro hfirst hmin
  have hbound : first < (shown.drop dropped ++ newer).length := (hmin row hmem).trans_lt hlt
  obtain ⟨row', hrow', hsame⟩ := (hstand first hbound).1 hfirst
  have hpos : 0 < newer.length := List.length_pos_of_ne_nil hnewer
  rw [atRow_append] at hsame
  split at hsame
  · rename_i hnew
    obtain ⟨entry, hentry⟩ : ∃ entry, atRow newer first = some entry :=
      ⟨_, List.getElem?_eq_getElem (by simpa using hnew)⟩
    have hshown : entry ∈ shown :=
      List.mem_reverse.1 (List.mem_of_getElem? (hsame.trans hentry))
    exact hfresh entry (List.mem_reverse.1 (List.mem_of_getElem? hentry)) hshown
  · rename_i hold
    have hinside : first - newer.length < shown.length - dropped := by
      rw [List.length_append, List.length_drop] at hbound
      omega
    rw [atRow_drop, if_pos hinside] at hsame
    have hlt' : first - newer.length < shown.reverse.length := by
      rw [List.length_reverse]
      omega
    have hrow : first - newer.length = row' :=
      (List.getElem?_inj hlt' (List.nodup_reverse.2 hnodup)).1 hsame.symm
    have := hmin row' hrow'
    omega

end TagHistory

end Notm.Ui
