import Notm.Lib.Transition
import Notm.Ui.ThreadListCallbacks
import Notm.Ui.ThreadWindow

/-!
# Searches and the thread list

The main window's searches, from the search text or a schedule to the page that is shown: the
state takes a page at once, and the list model follows in an update that any newer search cancels.

* `PageRequest`, `PageAnswer` — what the worker is asked, and what comes back.
* `SearchWindow`, `SearchEvent` and `step` — the searches of the main window.
-/

namespace Notm.Ui

open Rust Notmuch

/-- What a requested page is for. -/
inductive PagePurpose where
  /-- `start_full_search` -/
  | search
  /-- `load_more_threads` -/
  | more (selectLastLoaded : Bool)
  /-- `load_thread_page_containing_index` -/
  | containingIndex
deriving DecidableEq, Repr

/-- A page that the search worker has been asked for. -/
structure PageRequest where
  generation : Nat
  purpose : PagePurpose
  query : Str
  offset : Nat
deriving DecidableEq, Repr

/-- What the main window finds in a response. -/
inductive PageAnswer (D : Type) where
  | ok (data : SearchData D) (selectedThreadId : Option Str) (selectedIndex : Option Nat)
  | error (error : Str)
  /-- the visual selection that the page was requested for has changed -/
  | stale

/-- The search state of the main window. A completion of a list update carries the generation of
its search. -/
structure SearchWindow (D : Type) where
  list : ThreadListController Nat
  pages : ThreadPages D
  display : ThreadListDisplay
  searchLoading : Bool
  /-- of the state -/
  searchGeneration : Nat
  /-- of the search bar -/
  barGeneration : Nat
  /-- the search text that waits to be dispatched -/
  reserved : Option (Str × Nat)
  requests : List PageRequest

/-- What happens to the search of the window: the user's input and its timer, pages that are asked
for, answers, and the callbacks of the list. -/
inductive SearchEvent (D : Type) where
  /-- `schedule_search`, after `show_thread_list_loading` when a status is given -/
  | schedule (query : Str) (loading : Option Str)
  | inputCleared (syncInProgress syncRefreshing : Bool)
  | inputReserved (query : Str)
  | inputDispatched
  | loadMore (selectLastLoaded : Bool)
  | loadPage (offset : Nat)
  /-- the response to the request at place `k` arrives -/
  | respond (k : Nat) (answer : PageAnswer D)
  /-- a tag operation starts, or ends; at its end the list may be searched again -/
  | tagOperation (refresh : Option Str)
  /-- the selected thread of a deleted draft leaves the list -/
  | removeThread (threadId : Str)
  | applySettings (display : ThreadListDisplay) (pageSize : Nat)
  | setDisplay (display : ThreadListDisplay)
  | refreshRows (indices : List Nat) (force : Bool)
  /-- the idle callback at place `k` runs -/
  | idle (k : Nat)

namespace SearchWindow

variable {D : Type}

/-- `thread_model_snapshot`. -/
def threadModelSnapshot (w : SearchWindow D) : ThreadModelSnapshot where
  len := w.pages.threadListItems.length
  display := w.display

/-- The main window when it is built: the list waits for the draft recovery. -/
def launch (query : Str) (pageSize : Nat) (display : ThreadListDisplay) (loading : Str) :
    SearchWindow D where
  list := ThreadListController.new.setStatusRow loading true
  pages := .initial query pageSize
  display
  searchLoading := false
  searchGeneration := 0
  barGeneration := 0
  reserved := none
  requests := []

/-! ## The activity of the search -/

/-- `begin_search_activity` under a newly reserved generation. -/
def beginSearch (w : SearchWindow D) : SearchWindow D :=
  let generation := saturatingSucc w.barGeneration
  { w with searchLoading := true, searchGeneration := generation, barGeneration := generation }

/-- `cancel_search_activity` under a newly reserved generation. -/
def cancelSearch (w : SearchWindow D) : SearchWindow D :=
  let generation := saturatingSucc w.barGeneration
  { w with searchLoading := false, searchGeneration := generation, barGeneration := generation }

/-- `finish_search_activity`. -/
def finishSearchActivity (w : SearchWindow D) (generation : Nat) : SearchWindow D :=
  if w.searchGeneration = generation then { w with searchLoading := false } else w

theorem finishSearchActivity_keeps (w : SearchWindow D) (generation : Nat) :
    (w.finishSearchActivity generation).list = w.list ∧
      (w.finishSearchActivity generation).pages = w.pages := by
  unfold finishSearchActivity
  split
  · exact ⟨rfl, rfl⟩
  · exact ⟨rfl, rfl⟩

/-- A page is requested under the newest generation of the search bar. -/
def launchRequest (w : SearchWindow D) (purpose : PagePurpose) (query : Str) (offset : Nat) :
    SearchWindow D :=
  { w with requests := w.requests ++ [⟨w.barGeneration, purpose, query, offset⟩] }

/-- A change of the list that is under way will find a newer generation. -/
def cancelModelUpdate (w : SearchWindow D) : SearchWindow D :=
  { w with list := w.list.cancelModelUpdate }

/-- `show_thread_list_loading`. -/
def showLoading (w : SearchWindow D) : Option Str → SearchWindow D
  | none => w
  | some message => { w with list := w.list.setStatusRow message true }

/-- `schedule_search`. -/
def scheduleSearch (w : SearchWindow D) (query : Str) : SearchWindow D :=
  (w.cancelModelUpdate.beginSearch).launchRequest .search query 0

/-! ## Pages -/

/-- `accept_search_page_response`. -/
def accepts (w : SearchWindow D) (request : PageRequest) : Bool :=
  w.barGeneration == request.generation && w.searchGeneration == request.generation

/-- `apply_thread_search_state_update`, then `apply_model_update_then`. -/
def applyPage (w : SearchWindow D) (update : ThreadSearchStateUpdate D)
    (modelUpdate : ThreadModelUpdate) (generation : Nat) : SearchWindow D :=
  let w := { w with pages := .applyUpdate update }
  { w with
    list := w.list.applyModelUpdateThen w.threadModelSnapshot modelUpdate (some generation) }

/-- `finish_search_error`, with `reduce_search_error`. -/
def finishSearchError (w : SearchWindow D) (error : Str) : SearchWindow D :=
  let outcome := reduceSearchError error !w.pages.threadListItems.isEmpty
  if outcome.clearEmptyCounts then
    { w with
      pages := { w.pages with loadedCount := 0, totalCount := 0, canLoadMore := false }
      list := w.list.setStatusRow outcome.message false }
  else w

/-- The response to a request, once it is accepted. -/
def answerRequest (w : SearchWindow D) (request : PageRequest) : PageAnswer D →
    Option (SearchWindow D)
  | .ok data selectedThreadId selectedIndex =>
    match request.purpose with
    | .search | .containingIndex =>
      some (w.applyPage (reduceReplaceSearch data).update .replace request.generation)
    | .more selectLastLoaded =>
      let outcome := reduceAppendSearch
        (w.pages.searchSnapshot selectedThreadId selectedIndex) data selectLastLoaded
      some (w.applyPage outcome.update outcome.modelUpdate request.generation)
  | .error error => some ((w.finishSearchActivity request.generation).finishSearchError error)
  | .stale =>
    match request.purpose with
    | .containingIndex => some (w.finishSearchActivity request.generation)
    | .search | .more _ => none

/-- The response to the request at place `k`. -/
def respond (w : SearchWindow D) (k : Nat) (answer : PageAnswer D) : Option (SearchWindow D) :=
  match w.requests[k]? with
  | none => none
  | some request =>
    let w := { w with requests := w.requests.eraseIdx k }
    if w.accepts request then w.answerRequest request answer else some w

/-! ## The other operations -/

/-- The search text is cleared. -/
def clearInput (w : SearchWindow D) (syncInProgress syncRefreshing : Bool) : SearchWindow D :=
  let w := { w with reserved := none }
  if syncInProgress && syncRefreshing then w
  else
    let replaceCancelledSearch := syncInProgress && w.searchLoading
    let w := w.cancelModelUpdate.cancelSearch
    if replaceCancelledSearch then
      w.beginSearch.launchRequest .search w.pages.currentQuery 0
    else w

/-- The search text changes: its search waits for the debounce. -/
def reserveInput (w : SearchWindow D) (query : Str) : SearchWindow D :=
  let w := w.cancelModelUpdate.beginSearch
  { w with reserved := some (query, w.barGeneration) }

/-- The debounce is over. -/
def dispatchInput (w : SearchWindow D) : Option (SearchWindow D) :=
  match w.reserved with
  | none => none
  | some (query, generation) =>
    let w := { w with reserved := none }
    if w.barGeneration = generation then some (w.launchRequest .search query 0) else some w

/-- `load_more_threads`. -/
def loadMoreThreads (w : SearchWindow D) (selectLastLoaded : Bool) : SearchWindow D :=
  match planLoadMore { w.pages.pagingSnapshot with searchLoading := w.searchLoading } with
  | .busy | .exhausted => w
  | .ready query offset => w.beginSearch.launchRequest (.more selectLastLoaded) query offset

/-- `load_thread_page_containing_index`. -/
def loadPage (w : SearchWindow D) (offset : Nat) : SearchWindow D :=
  if w.searchLoading then w
  else w.beginSearch.launchRequest .containingIndex w.pages.currentQuery offset

/-- A thread leaves the list, and the model is built anew. -/
def removeThread (w : SearchWindow D) (threadId : Str) : SearchWindow D :=
  let items := w.pages.threadListItems.filter (·.threadId != threadId)
  let totalCount :=
    if items.length < w.pages.threadListItems.length then w.pages.totalCount - 1
    else w.pages.totalCount
  let pages :=
    { w.pages with
      threadListItems := items
      details := w.pages.details.remove threadId
      loadedCount := items.length
      totalCount
      canLoadMore := decide (w.pages.windowOffset + items.length < totalCount) }
  let w := { w with pages }
  { w with list := w.list.applyModelUpdateThen w.threadModelSnapshot .replace none }

/-- The part of `apply_settings_application` that the list shows. -/
def applySettings (w : SearchWindow D) (display : ThreadListDisplay) (pageSize : Nat) :
    SearchWindow D :=
  let w := { w with display, pages := { w.pages with pageSize } }
  { w with list := w.list.applyModelUpdateThen w.threadModelSnapshot .replace none }

/-- `refresh_rows` with the snapshot of the state. -/
def refreshRows (w : SearchWindow D) (indices : List Nat) (force : Bool) : SearchWindow D :=
  { w with list := w.list.refreshRows w.threadModelSnapshot indices force }

/-- `set_thread_display_visible`. -/
def setDisplay (w : SearchWindow D) (display : ThreadListDisplay) : SearchWindow D :=
  let w := { w with display }
  w.refreshRows (List.range w.pages.threadListItems.length) false

/-- An idle callback runs; a completion ends the activity of its search. What it does besides
(selecting a thread, whose load begins at once; another search) are events of their own, which come
right after it. -/
def runIdle (w : SearchWindow D) (k : Nat) : Option (SearchWindow D) :=
  (w.list.runIdle k).map fun result =>
    let w := { w with list := result.1 }
    match result.2 with
    | none => w
    | some (generation, _) => w.finishSearchActivity generation

/-- The function of the source that each event runs. -/
def step (w : SearchWindow D) : SearchEvent D → Option (SearchWindow D)
  | .schedule query loading => some ((w.showLoading loading).scheduleSearch query)
  | .inputCleared syncInProgress syncRefreshing =>
    some (w.clearInput syncInProgress syncRefreshing)
  | .inputReserved query => some (w.reserveInput query)
  | .inputDispatched => w.dispatchInput
  | .loadMore selectLastLoaded => some (w.loadMoreThreads selectLastLoaded)
  | .loadPage offset => some (w.loadPage offset)
  | .respond k answer => w.respond k answer
  | .tagOperation none => some w.cancelSearch
  | .tagOperation (some query) => some (w.cancelSearch.scheduleSearch query)
  | .removeThread threadId => some (w.removeThread threadId)
  | .applySettings display pageSize => some (w.applySettings display pageSize)
  | .setDisplay display => some (w.setDisplay display)
  | .refreshRows indices force => some (w.refreshRows indices force)
  | .idle k => w.runIdle k

end SearchWindow

end Notm.Ui
