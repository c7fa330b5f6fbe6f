import Notm.Ui.ThreadListRows
import Notm.Ui.ThreadListSearch

/-!
# The thread list between two searches

When no search is loading and the list model is not being changed, the model holds the rows of the
list: as long as no search ends without a page while the update that it cancelled is still
missing.

* `Settled` — only a search that is loading may have left the model half-way.
* the lemmas `Settled.beginSearch` to `Settled.runIdle` — one for each part of a step.
* `rows_shown_between_searches` — what follows when nothing is loading.
* `failed_search_leaves_model_behind` — a search that fails behind a cancelled update.
-/

namespace Notm.Ui

open Rust Notmuch

namespace SearchWindow

variable {D : Type} {w w' : SearchWindow D}

/-- One row for each thread of the list, row `i` for thread `i`; for an empty list, no thread
row. -/
def RowsShown (w : SearchWindow D) : Prop :=
  w.list.ShowsRows w.pages.threadListItems.length

/-- The rows are shown, or an update is on the way to them. Otherwise an update was cancelled
half-way, and none has been started since. -/
def Whole (w : SearchWindow D) : Prop := w.list.Whole w.pages.threadListItems.length

instance : Decidable w.RowsShown := by unfold RowsShown; infer_instance

instance : Decidable w.Whole := by unfold Whole; infer_instance

/-- What an accepted response finds. A page that continues the list finds its rows, without a
status row; a failed search finds the list empty, and shows a status row in it, or finds it whole;
so does a page that is no longer wanted. -/
def ResponseFindsRows (w : SearchWindow D) (request : PageRequest) : PageAnswer D → Prop
  | .ok data _ _ =>
    match request.purpose with
    | .more _ =>
      data.offset = w.pages.windowOffset + w.pages.threadListItems.length →
        w.list.Holds w.pages.threadListItems.length
    | .search | .containingIndex => True
  | .error _ => w.pages.threadListItems = [] ∨ w.Whole
  | .stale => w.Whole

/-- What the steps that end a search without a new list must find. Three steps can end one so: a
response that brings no page, a cleared search text and a tag operation that asks for no refresh.
Where an earlier update of the list was cancelled for the search, the model was left half-way, and
nothing builds it anew. -/
def FindsRows (w : SearchWindow D) : SearchEvent D → Prop
  | .respond k answer =>
    ∀ request ∈ w.requests[k]?, w.accepts request = true → w.ResponseFindsRows request answer
  | .inputCleared syncInProgress syncRefreshing =>
    (syncInProgress = true ∧ (syncRefreshing = true ∨ w.searchLoading = true)) ∨ w.RowsShown
  | .tagOperation none => w.Whole
  | _ => True

instance (request : PageRequest) (answer : PageAnswer D) :
    Decidable (w.ResponseFindsRows request answer) := by
  cases answer with
  | ok data selectedThreadId selectedIndex =>
    unfold ResponseFindsRows
    cases request.purpose <;> infer_instance
  | error error => exact inferInstanceAs (Decidable (_ ∨ _))
  | stale => exact inferInstanceAs (Decidable w.Whole)

instance (event : SearchEvent D) : Decidable (w.FindsRows event) :=
  match event with
  | .inputCleared _ _ => inferInstanceAs (Decidable (_ ∨ _))
  | .respond k answer =>
    inferInstanceAs (Decidable (∀ request ∈ w.requests[k]?, w.accepts request = true →
      w.ResponseFindsRows request answer))
  | .tagOperation none => inferInstanceAs (Decidable w.Whole)
  | .tagOperation (some _) | .schedule _ _ | .inputReserved _ | .inputDispatched | .loadMore _
  | .loadPage _ | .removeThread _ | .applySettings _ _ | .setDisplay _ | .refreshRows _ _
  | .idle _ => inferInstanceAs (Decidable True)

/-- No counter is near its end, so a step takes a generation that no callback or request has. -/
def Room (w : SearchWindow D) : Prop :=
  w.list.modelUpdateGeneration + 3 ≤ u64Max ∧ w.list.refreshRequestGeneration + 1 ≤ u64Max ∧
    w.barGeneration + 2 ≤ u64Max

instance : Decidable w.Room := by unfold Room; infer_instance

/-! ## What every step keeps -/

/-- What holds of the list and its callbacks, whatever is loading. -/
structure Followed (w : SearchWindow D) : Prop where
  numbered : w.list.Numbered
  tracks : w.list.Tracks w.pages.threadListItems.length
  completions : ∀ generation, w.list.Completes generation → generation ≤ w.barGeneration

/-- Only a search that is loading may have left the model half-way, and its end is not that of an
update that was started before it. -/
structure Settled (w : SearchWindow D) : Prop extends Followed w where
  lagging : w.list.Completes w.searchGeneration → w.Whole
  loading : w.searchLoading = false → w.Whole

namespace Followed

theorem settled (h : Followed w) (hwhole : w.Whole) : Settled w where
  toFollowed := h
  lagging := fun _ => hwhole
  loading := fun _ => hwhole

/-- A search that begins has a generation of its own. -/
theorem beginSearch (h : Followed w) (hroom : w.barGeneration + 1 ≤ u64Max) :
    Settled w.beginSearch := by
  have hgeneration : saturatingSucc w.barGeneration = w.barGeneration + 1 :=
    saturatingSucc_of_lt (by omega)
  refine ⟨⟨h.numbered, h.tracks, ?_⟩, ?_, ?_⟩
  · intro generation hcompletes
    have hle := h.completions generation hcompletes
    show generation ≤ saturatingSucc w.barGeneration
    omega
  · intro hcompletes
    have hle := h.completions _ hcompletes
    have hnew : w.beginSearch.searchGeneration = w.barGeneration + 1 := hgeneration
    omega
  · intro hloading
    exact absurd hloading (by simp [SearchWindow.beginSearch])

theorem cancelSearch (h : Followed w) (hroom : w.barGeneration + 1 ≤ u64Max) :
    Followed w.cancelSearch := by
  have hgeneration : saturatingSucc w.barGeneration = w.barGeneration + 1 :=
    saturatingSucc_of_lt (by omega)
  refine ⟨h.numbered, h.tracks, ?_⟩
  intro generation hcompletes
  have hle := h.completions generation hcompletes
  show generation ≤ saturatingSucc w.barGeneration
  omega

theorem cancelModelUpdate (h : Followed w) (hroom : w.list.modelUpdateGeneration + 1 ≤ u64Max) :
    Followed w.cancelModelUpdate where
  numbered := h.numbered.cancelModelUpdate hroom
  tracks := ThreadListController.tracks_cancelModelUpdate h.numbered hroom _
  completions := h.completions

/-- The list is changed, and whatever its new callback completes is not newer than the search
bar. -/
theorem startWork {list : ThreadListController Nat} {pages : ThreadPages D}
    {display : ThreadListDisplay} {loading : Bool} {search bar : Nat}
    {reserved : Option (Str × Nat)} {requests : List PageRequest} {work : ModelWork Nat}
    (hnumbered : list.Numbered) (hroom : list.modelUpdateGeneration + 2 ≤ u64Max)
    (hprogress : list.Progress pages.threadListItems.length work)
    (hcompletions : ∀ generation, list.Completes generation → generation ≤ bar)
    (hcomplete : ∀ generation, work.complete = some generation → generation ≤ bar) :
    Followed (D := D) ⟨list.startWork work, pages, display, loading, search, bar, reserved,
      requests⟩ where
  numbered := hnumbered.startWork hroom work
  tracks := ThreadListController.tracks_startWork hnumbered hroom hprogress
  completions := fun generation hcompletes =>
    (ThreadListController.completes_startWork hcompletes).elim (hcompletions generation)
      (hcomplete generation)

/-- The list is built anew for the threads of the state. -/
theorem replace (h : Followed w) (hroom : w.list.modelUpdateGeneration + 2 ≤ u64Max)
    (pages : ThreadPages D) (display : ThreadListDisplay) {complete : Option Nat}
    (hcomplete : ∀ generation, complete = some generation → generation ≤ w.barGeneration) :
    Settled
      { w with
        pages := pages
        display := display
        list := w.list.applyModelUpdateThen ⟨pages.threadListItems.length, display⟩ .replace
          complete } := by
  have hprogress : w.list.Progress pages.threadListItems.length
      (ThreadListController.updateWork ⟨pages.threadListItems.length, display⟩ .replace
        complete) := ⟨rfl, Nat.zero_le _, rfl⟩
  refine (startWork h.numbered hroom hprogress h.completions hcomplete).settled ?_
  exact ThreadListController.whole_startWork rfl

/-- The status row is put in place of an empty list. -/
theorem setStatusRow (h : Followed w) (hroom : w.list.modelUpdateGeneration + 2 ≤ u64Max)
    {pages : ThreadPages D} (hempty : pages.threadListItems = []) (message : Str)
    (spinning : Bool) :
    Settled { w with pages := pages, list := w.list.setStatusRow message spinning } := by
  have hprogress : w.list.Progress pages.threadListItems.length
      (.status (.status message spinning)) := by
    rw [hempty]
    exact ⟨rfl, rfl⟩
  refine (startWork h.numbered hroom hprogress h.completions ?_).settled ?_
  · exact fun _ hcomplete => absurd hcomplete (by simp [ModelWork.complete])
  · exact ThreadListController.whole_startWork rfl

/-- A page that continues the list finds its rows, and its own rows follow them. -/
theorem append (h : Followed w) (hroom : w.list.modelUpdateGeneration + 2 ≤ u64Max)
    (hholds : w.list.Holds w.pages.threadListItems.length) {pages : ThreadPages D} {count : Nat}
    (hlength : pages.threadListItems.length = w.pages.threadListItems.length + count)
    {generation : Nat} (hgeneration : generation ≤ w.barGeneration) :
    Settled
      { w with
        pages := pages
        list := w.list.applyModelUpdateThen ⟨pages.threadListItems.length, w.display⟩
          (.append w.pages.threadListItems.length count) (some generation) } := by
  have hprogress : w.list.Progress pages.threadListItems.length
      (ThreadListController.updateWork ⟨pages.threadListItems.length, w.display⟩
        (.append w.pages.threadListItems.length count) (some generation)) := by
    refine ⟨?_, by omega, hholds⟩
    show min (w.pages.threadListItems.length + count) pages.threadListItems.length = _
    omega
  refine (startWork h.numbered hroom hprogress h.completions ?_).settled ?_
  · intro generation' hcomplete
    obtain rfl := Option.some.inj hcomplete
    exact hgeneration
  · exact ThreadListController.whole_startWork rfl

end Followed

namespace Settled

theorem launchRequest (h : Settled w) (purpose : PagePurpose) (query : Str) (offset : Nat) :
    Settled (w.launchRequest purpose query offset) where
  toFollowed := ⟨h.numbered, h.tracks, h.completions⟩
  lagging := h.lagging
  loading := h.loading

theorem finishSearchActivity (h : Followed w) (hwhole : w.Whole) (generation : Nat) :
    Settled (w.finishSearchActivity generation) := by
  unfold SearchWindow.finishSearchActivity
  split
  · exact ⟨⟨h.numbered, h.tracks, h.completions⟩, fun _ => hwhole, fun _ => hwhole⟩
  · exact h.settled hwhole

/-- A search is scheduled: whatever it cancels, it is loading from now on. -/
theorem scheduleSearch (h : Followed w) (hlist : w.list.modelUpdateGeneration + 1 ≤ u64Max)
    (hbar : w.barGeneration + 1 ≤ u64Max) (query : Str) : Settled (w.scheduleSearch query) :=
  ((h.cancelModelUpdate hlist).beginSearch hbar).launchRequest _ _ _

/-- The status row before a search is cancelled together with what it cancelled. -/
theorem schedule (h : Followed w) (hroom : w.Room) (query : Str) (loading : Option Str) :
    Settled ((w.showLoading loading).scheduleSearch query) := by
  obtain ⟨hlist, -, hbar⟩ := hroom
  cases loading with
  | none => exact scheduleSearch h (by show _ + 1 ≤ _; omega) (by show _ + 1 ≤ _; omega) query
  | some message =>
    have hgeneration := ThreadListController.startWork_generation (c := w.list) (by omega)
      (.status (.status message true))
    have hcancelled : Followed (w.showLoading (some message)).cancelModelUpdate := by
      have hnumbered := h.numbered.startWork (by omega) (.status (.status message true))
      have hlast : (w.list.setStatusRow message true).modelUpdateGeneration + 1 ≤ u64Max := by
        show (w.list.startWork _).modelUpdateGeneration + 1 ≤ u64Max
        omega
      refine ⟨hnumbered.cancelModelUpdate hlast,
        ThreadListController.tracks_cancelModelUpdate hnumbered hlast _, ?_⟩
      intro generation hcompletes
      refine h.completions generation ?_
      exact (ThreadListController.completes_startWork hcompletes).resolve_right
        (by simp [ModelWork.complete])
    have hsettled := hcancelled.beginSearch (by show w.barGeneration + 1 ≤ u64Max; omega)
    exact hsettled.launchRequest _ _ _

/-- The search text is cleared over the rows of the list, or a search begins at once. -/
theorem clearInput (h : Settled w) (hroom : w.Room) {syncInProgress syncRefreshing : Bool}
    (hfinds : (syncInProgress = true ∧ (syncRefreshing = true ∨ w.searchLoading = true)) ∨
      w.RowsShown) : Settled (w.clearInput syncInProgress syncRefreshing) := by
  obtain ⟨hlist, -, hbar⟩ := hroom
  have hbase : Settled { w with reserved := none } :=
    ⟨⟨h.numbered, h.tracks, h.completions⟩, h.lagging, h.loading⟩
  unfold SearchWindow.clearInput
  dsimp only
  split
  · exact hbase
  · next hworking =>
    have hcancelled := hbase.toFollowed.cancelModelUpdate (by
      show w.list.modelUpdateGeneration + 1 ≤ u64Max
      omega)
    have hended := hcancelled.cancelSearch (by show w.barGeneration + 1 ≤ u64Max; omega)
    split
    · have hgeneration : saturatingSucc w.barGeneration = w.barGeneration + 1 :=
        saturatingSucc_of_lt (by omega)
      have hbegun := hended.beginSearch (by
        show saturatingSucc w.barGeneration + 1 ≤ u64Max
        omega)
      exact hbegun.launchRequest _ _ _
    · next hidle =>
      -- no search begins, so the rows have to be there already
      have hshown : w.RowsShown := by
        refine hfinds.resolve_left ?_
        rintro ⟨rfl, rfl | hloading⟩
        · exact hworking rfl
        · exact hidle (by rw [Bool.true_and]; exact hloading)
      exact hended.settled (Or.inr hshown)

/-- What an accepted response does. -/
theorem answerRequest (h : Settled w) (hroom : w.Room) {request : PageRequest}
    (haccepts : w.accepts request = true) {answer : PageAnswer D}
    (hfinds : w.ResponseFindsRows request answer)
    (hstep : w.answerRequest request answer = some w') :
    Settled w' := by
  obtain ⟨hlist, -, -⟩ := hroom
  have hgeneration : request.generation ≤ w.barGeneration := by
    rw [accepts, Bool.and_eq_true, beq_iff_eq, beq_iff_eq] at haccepts
    exact Nat.le_of_eq haccepts.1.symm
  have hcomplete : ∀ generation, some request.generation = some generation →
      generation ≤ w.barGeneration := by
    intro generation hsome
    obtain rfl := Option.some.inj hsome
    exact hgeneration
  cases answer with
  | ok data selectedThreadId selectedIndex =>
    unfold SearchWindow.answerRequest at hstep
    dsimp only at hstep
    split at hstep
    · obtain rfl := Option.some.inj hstep
      exact h.toFollowed.replace (by omega) (.applyUpdate (reduceReplaceSearch data).update)
        w.display hcomplete
    · obtain rfl := Option.some.inj hstep
      exact h.toFollowed.replace (by omega) (.applyUpdate (reduceReplaceSearch data).update)
        w.display hcomplete
    · -- A page that continues the list, or starts it anew where it does not fit behind it.
      next selectLastLoaded hpurpose =>
      obtain rfl := Option.some.inj hstep
      unfold ResponseFindsRows at hfinds
      dsimp only at hfinds
      rw [hpurpose] at hfinds
      by_cases hoffset : data.offset = w.pages.windowOffset + w.pages.threadListItems.length
      · obtain ⟨hthreads, -, hupdate⟩ := reduceAppendSearch_continues
          (w.pages.searchSnapshot selectedThreadId selectedIndex) data selectLastLoaded hoffset
        unfold applyPage
        rw [hupdate]
        refine h.toFollowed.append (by omega) (hfinds hoffset) ?_ hgeneration
        show (reduceAppendSearch _ data selectLastLoaded).update.threads.length = _
        rw [hthreads, List.length_append]
        rfl
      · obtain ⟨-, -, hupdate⟩ := reduceAppendSearch_starts_anew
          (w.pages.searchSnapshot selectedThreadId selectedIndex) data selectLastLoaded hoffset
        unfold applyPage
        rw [hupdate]
        exact h.toFollowed.replace (by omega) (.applyUpdate (reduceAppendSearch
          (w.pages.searchSnapshot selectedThreadId selectedIndex) data selectLastLoaded).update)
            w.display hcomplete
  | error error =>
    obtain rfl := Option.some.inj hstep
    obtain ⟨hsame, hpages⟩ := w.finishSearchActivity_keeps request.generation
    have hfollowed : Followed (w.finishSearchActivity request.generation) := by
      unfold SearchWindow.finishSearchActivity
      split
      · exact ⟨h.numbered, h.tracks, h.completions⟩
      · exact h.toFollowed
    -- An error over an empty list puts the status row in its place; over other rows it ends the
    -- activity, so these have to be whole.
    by_cases hempty : w.pages.threadListItems = []
    · have hclear : (reduceSearchError error
          !(w.finishSearchActivity request.generation).pages.threadListItems.isEmpty
            ).clearEmptyCounts = true := by
        rw [hpages, hempty]
        rfl
      unfold finishSearchError
      dsimp only
      rw [if_pos hclear]
      refine hfollowed.setStatusRow ?_ ?_ _ false
      · rw [hsame]
        omega
      · show (w.finishSearchActivity request.generation).pages.threadListItems = []
        rw [hpages, hempty]
    · have hkeep : ¬ (reduceSearchError error
          !(w.finishSearchActivity request.generation).pages.threadListItems.isEmpty
            ).clearEmptyCounts = true := by
        rw [hpages]
        simpa [reduceSearchError] using hempty
      unfold finishSearchError
      dsimp only
      rw [if_neg hkeep]
      exact finishSearchActivity h.toFollowed (hfinds.resolve_left hempty) _
  | stale =>
    unfold SearchWindow.answerRequest at hstep
    dsimp only at hstep
    split at hstep
    · obtain rfl := Option.some.inj hstep
      exact finishSearchActivity h.toFollowed hfinds _
    · exact absurd hstep (by simp)
    · exact absurd hstep (by simp)

/-- An idle callback runs; the completion that it calls ends the activity of its search only when
the rows are on their way. -/
theorem runIdle (h : Settled w) (hroom : w.Room) {k : Nat} (hstep : w.runIdle k = some w') :
    Settled w' := by
  obtain ⟨⟨list, completion⟩, hrun, rfl⟩ := Option.map_eq_some_iff.1 hstep
  have hidle := ThreadListController.idleRun_of_runIdle hrun
  obtain ⟨hlist, -, -⟩ := hroom
  obtain ⟨htracks, hwhole⟩ := ThreadListController.tracks_idleRun h.numbered (by omega) h.tracks
    hidle
  obtain ⟨hcompletes, hcalls⟩ := ThreadListController.completes_idleRun h.tracks hidle
  have hfollowed : Followed { w with list := list } :=
    ⟨h.numbered.idleRun (by omega) hidle, htracks, fun generation hmem =>
      h.completions generation (hcompletes generation hmem)⟩
  have hsettled : Settled { w with list := list } :=
    ⟨hfollowed, fun hmem => hwhole (h.lagging (hcompletes _ hmem)), fun hloading =>
      hwhole (h.loading hloading)⟩
  cases completion with
  | none => exact hsettled
  | some completion =>
    obtain ⟨generation, applied⟩ := completion
    by_cases hcurrent : w.searchGeneration = generation
    · have hcalled : w.list.Completes w.searchGeneration := by
        rw [hcurrent]
        exact hcalls generation applied rfl
      exact finishSearchActivity hfollowed (hwhole (h.lagging hcalled)) generation
    · show Settled (SearchWindow.finishSearchActivity { w with list := list } generation)
      unfold SearchWindow.finishSearchActivity
      rw [if_neg hcurrent]
      exact hsettled

theorem refreshRows (h : Settled w) (hroom : w.Room) (display : ThreadListDisplay)
    (indices : List Nat) (force : Bool) :
    Settled (SearchWindow.refreshRows { w with display := display } indices force) := by
  obtain ⟨hlist, hrefresh, -⟩ := hroom
  have hroom' : w.list.Room := ⟨by omega, hrefresh⟩
  have hlen : (SearchWindow.threadModelSnapshot { w with display := display }).len ≤
      w.pages.threadListItems.length := Nat.le_refl _
  obtain ⟨htracks, hwhole⟩ := ThreadListController.tracks_refreshRows h.numbered hroom' h.tracks
    hlen indices force
  refine ⟨⟨h.numbered.refreshRows hroom' _ _ _, htracks, fun generation hmem => ?_⟩,
    fun hmem => hwhole (h.lagging ?_), fun hloading => hwhole (h.loading hloading)⟩
  · exact h.completions generation (ThreadListController.completes_refreshRows hmem)
  · exact ThreadListController.completes_refreshRows hmem

/-- One step. -/
theorem step (h : Settled w) (hroom : w.Room) {event : SearchEvent D}
    (hfinds : w.FindsRows event) (hstep : w.step event = some w') : Settled w' := by
  have hrooms := hroom
  obtain ⟨hlist, hrefresh, hbar⟩ := hrooms
  cases event with
  | schedule query loading =>
    obtain rfl := Option.some.inj hstep
    exact schedule h.toFollowed hroom query loading
  | inputCleared syncInProgress syncRefreshing =>
    obtain rfl := Option.some.inj hstep
    exact h.clearInput hroom hfinds
  | inputReserved query =>
    obtain rfl := Option.some.inj hstep
    have hcancelled := h.toFollowed.cancelModelUpdate (by omega)
    have hbegun := hcancelled.beginSearch (by show w.barGeneration + 1 ≤ u64Max; omega)
    exact ⟨⟨hbegun.numbered, hbegun.tracks, hbegun.completions⟩, hbegun.lagging, hbegun.loading⟩
  | inputDispatched =>
    have hstep : w.dispatchInput = some w' := hstep
    unfold dispatchInput at hstep
    have hbase : Settled { w with reserved := none } :=
      ⟨⟨h.numbered, h.tracks, h.completions⟩, h.lagging, h.loading⟩
    split at hstep
    · exact absurd hstep (by simp)
    · dsimp only at hstep
      split at hstep
      · obtain rfl := Option.some.inj hstep
        exact hbase.launchRequest _ _ _
      · obtain rfl := Option.some.inj hstep
        exact hbase
  | loadMore selectLastLoaded =>
    obtain rfl := Option.some.inj hstep
    unfold loadMoreThreads
    split
    · exact h
    · exact h
    · exact (h.toFollowed.beginSearch (by omega)).launchRequest _ _ _
  | loadPage offset =>
    obtain rfl := Option.some.inj hstep
    unfold SearchWindow.loadPage
    split
    · exact h
    · exact (h.toFollowed.beginSearch (by omega)).launchRequest _ _ _
  | respond k answer =>
    have hstep : w.respond k answer = some w' := hstep
    unfold SearchWindow.respond at hstep
    split at hstep
    · exact absurd hstep (by simp)
    · next request hrequest =>
      have hbase : Settled { w with requests := w.requests.eraseIdx k } :=
        ⟨⟨h.numbered, h.tracks, h.completions⟩, h.lagging, h.loading⟩
      dsimp only at hstep
      split at hstep
      · next haccepts =>
        refine hbase.answerRequest ⟨hlist, hrefresh, hbar⟩ haccepts ?_ hstep
        exact hfinds request hrequest haccepts
      · obtain rfl := Option.some.inj hstep
        exact hbase
  | tagOperation refresh =>
    cases refresh with
    | none =>
      obtain rfl := Option.some.inj hstep
      exact (h.toFollowed.cancelSearch (by omega)).settled hfinds
    | some query =>
      obtain rfl := Option.some.inj hstep
      have hgeneration : saturatingSucc w.barGeneration = w.barGeneration + 1 :=
        saturatingSucc_of_lt (by omega)
      refine scheduleSearch (h.toFollowed.cancelSearch (by omega)) ?_ ?_ query
      · show w.list.modelUpdateGeneration + 1 ≤ u64Max
        omega
      · show saturatingSucc w.barGeneration + 1 ≤ u64Max
        omega
  | removeThread threadId =>
    obtain rfl := Option.some.inj hstep
    exact h.toFollowed.replace (by omega) _ w.display fun _ hnone => absurd hnone (by simp)
  | applySettings display pageSize =>
    obtain rfl := Option.some.inj hstep
    exact h.toFollowed.replace (by omega) _ display fun _ hnone => absurd hnone (by simp)
  | setDisplay display =>
    obtain rfl := Option.some.inj hstep
    exact h.refreshRows hroom display _ _
  | refreshRows indices force =>
    obtain rfl := Option.some.inj hstep
    exact h.refreshRows hroom w.display indices force
  | idle k => exact h.runIdle hroom hstep

end Settled

/-! ## Runs -/

theorem settled_launch (query : Str) (pageSize : Nat) (display : ThreadListDisplay)
    (loading : Str) : Settled (launch query pageSize display loading : SearchWindow D) := by
  have hstart : Followed (D := D)
      ⟨.new, .initial query pageSize, display, false, 0, 0, none, []⟩ := by
    refine ⟨.new, ⟨fun _ hmem => absurd hmem List.not_mem_nil,
      fun _ _ _ hmem => absurd hmem List.not_mem_nil⟩, ?_⟩
    rintro generation ⟨callback, hmem, -⟩
    exact absurd hmem List.not_mem_nil
  have hroom : 0 + 2 ≤ u64Max := by decide
  exact hstart.setStatusRow hroom rfl loading true

open Transition in
/-- **The rows between two searches.** As long as no search ends without a page, and no page
continues the list, over a model that was left half-way, the model has its rows whenever no search
is loading and no update is under way. -/
theorem rows_shown_between_searches {query : Str} {pageSize : Nat} {display : ThreadListDisplay}
    {loading : Str} {trace : List (SearchWindow D × SearchEvent D)}
    (hrun : Run (Steps step) (launch query pageSize display loading) trace w)
    (hfinds : ∀ p ∈ trace, p.1.Room ∧ p.1.FindsRows p.2) (hloading : w.searchLoading = false)
    (hbusy : w.list.busy = false) : w.RowsShown := by
  have hsettled : Settled w := by
    refine Run.invariant_of_steps (G := fun t e => t.Room ∧ t.FindsRows e)
      (fun t e u ht hfinds hstep => ?_) (settled_launch _ _ _ _) hrun hfinds
    exact ht.step hfinds.1 hfinds.2 hstep
  rcases hsettled.loading hloading with hrebuilding | hshown
  · obtain ⟨work, hmem, -⟩ := ThreadListController.underWay_iff.1 hrebuilding
    exact absurd hmem (hsettled.numbered.work_not_mem hbusy work)
  · exact hshown

/-! ### A search that is cancelled by one that fails -/

/-- A page with one thread. -/
def oneThread : SearchData Unit where
  query := ['*']
  excludedTags := []
  threads := [⟨['a'], [], false, false⟩]
  details := .empty
  count := 1
  offset := 0
  limit := 1
  tags := []
  databasePath := []
  revision := ⟨1, []⟩
  cached := false

/-- The main window at its start. -/
def started : SearchWindow Unit :=
  launch ['*'] 1 ⟨true, true, true, true, 2⟩ []

/-- A search brings a thread, and the model follows. -/
def searchOnce : List (SearchEvent Unit) :=
  [.schedule ['*'] none, .respond 0 (.ok oneThread none none), .idle 0, .idle 0]

theorem rows_shown_after_search :
    (Transition.exec step started searchOnce).any (fun w => w.RowsShown) = true := by
  have hstate : (Transition.exec step started searchOnce).all
      (fun w => !w.searchLoading && !w.list.busy) = true := by
    decide
  cases hend : Transition.exec step started searchOnce with
  | none => exact absurd (congrArg Option.isNone hend) (by decide)
  | some w =>
    rw [hend] at hstate
    have hboth : (!w.searchLoading && !w.list.busy) = true := hstate
    rw [Bool.and_eq_true, Bool.not_eq_true', Bool.not_eq_true'] at hboth
    have hshown := rows_shown_between_searches (Transition.run_of_exec _ hend) (by decide)
      hboth.1 hboth.2
    exact decide_eq_true hshown

/-- A second search begins before the rows of the first are in the model, and fails: the list has a
thread and the model no row, and nothing is left that would add it. -/
theorem failed_search_leaves_model_behind :
    (Transition.exec step started
        [.schedule ['*'] none, .respond 0 (.ok oneThread none none), .schedule ['*'] none,
          .respond 0 (.error []), .idle 0, .idle 0]).map
        (fun w => (w.searchLoading, w.list.busy, w.list.idle, w.pages.threadListItems.length,
          w.list.model.length)) =
      some (false, false, [], 1, 0) := by
  decide

end SearchWindow

end Notm.Ui
