import Notm.Lib.BTreeMap
import Notm.Lib.Rust
import Notm.Notmuch.Thread
import Notm.Ui.ThreadListModel

/-!
# Loading pages of a search

The reducers of `thread_list.rs`: what a page that has been loaded makes of the thread list, when
it takes the place of the list and when it continues it.

* `planLoadMore` — whether another page is asked for.
* `reduceReplaceSearch`, `reduceAppendSearch` — a page takes the place of the list or continues it.
* `reduceSearchError` — what is left of the list when a search fails.
-/

namespace Notm.Ui

open Rust Notmuch

/-- `SearchData`: a page and the database it comes from. `D` are the details of a thread. -/
structure SearchData (D : Type) where
  query : Str
  excludedTags : List Str
  threads : List ThreadSummary
  details : BTreeMap Str D
  count : Nat
  offset : Nat
  limit : Nat
  tags : List Str
  databasePath : Str
  revision : Revision
  cached : Bool
deriving DecidableEq

/-- `ThreadPagingSnapshot`. -/
structure ThreadPagingSnapshot where
  searchLoading : Bool
  currentQuery : Str
  windowOffset : Nat
  loadedCount : Nat
  canLoadMore : Bool
deriving DecidableEq

/-- Whether another page can be asked for, and from where. -/
inductive LoadMoreDecision where
  | busy
  | exhausted
  | ready (query : Str) (offset : Nat)
deriving DecidableEq

/-- The next page begins where the loaded window ends. -/
def planLoadMore (snapshot : ThreadPagingSnapshot) : LoadMoreDecision :=
  if snapshot.searchLoading then .busy
  else if !snapshot.canLoadMore then .exhausted
  else .ready snapshot.currentQuery (snapshot.windowOffset + snapshot.loadedCount)

theorem planLoadMore_ready {snapshot : ThreadPagingSnapshot} {query : Str} {offset : Nat}
    (h : planLoadMore snapshot = .ready query offset) :
    snapshot.searchLoading = false ∧ snapshot.canLoadMore = true ∧
      query = snapshot.currentQuery ∧ offset = snapshot.windowOffset + snapshot.loadedCount := by
  unfold planLoadMore at h
  split at h
  · exact absurd h (by simp)
  · next hloading =>
    split at h
    · exact absurd h (by simp)
    · next hmore =>
      obtain ⟨rfl, rfl⟩ := LoadMoreDecision.ready.inj h
      refine ⟨Bool.eq_false_iff.2 hloading, ?_, rfl, rfl⟩
      rw [Bool.not_eq_true, Bool.not_eq_false'] at hmore
      exact hmore

/-- `ThreadSearchStateSnapshot`. -/
structure ThreadSearchStateSnapshot (D : Type) where
  windowOffset : Nat
  threads : List ThreadSummary
  details : BTreeMap Str D
  selectedThreadId : Option Str
  selectedIndex : Option Nat

/-- `ThreadSearchStateUpdate`. -/
structure ThreadSearchStateUpdate (D : Type) where
  currentQuery : Str
  windowOffset : Nat
  threads : List ThreadSummary
  totalCount : Nat
  loadedCount : Nat
  pageSize : Nat
  canLoadMore : Bool
  details : BTreeMap Str D
  visibleTags : List Str
  databasePath : Str
  revision : Revision

/-- What a new search makes of the list. -/
structure ReplaceSearchOutcome (D : Type) where
  update : ThreadSearchStateUpdate D
  cached : Bool

/-- What another page makes of it: the rows that are added and the one that is to be selected. -/
structure AppendSearchOutcome (D : Type) where
  update : ThreadSearchStateUpdate D
  modelUpdate : ThreadModelUpdate
  selectedIndex : Option Nat

/-- What is shown when a search has failed. The counts go only where no rows are left to count. -/
structure SearchErrorOutcome where
  error : Str
  message : Str
  clearEmptyCounts : Bool
deriving DecidableEq

variable {D : Type}

/-- The page is all that the list has from now on. -/
def reduceReplaceSearch (data : SearchData D) : ReplaceSearchOutcome D :=
  let loadedCount := data.threads.length
  { cached := data.cached
    update :=
      { currentQuery := data.query
        windowOffset := data.offset
        threads := data.threads
        totalCount := data.count
        loadedCount
        pageSize := data.limit
        canLoadMore := data.offset + loadedCount < data.count
        details := data.details
        visibleTags := data.tags
        databasePath := data.databasePath
        revision := data.revision } }

/-- A page at another offset than the one after the list starts the list anew. -/
def reduceAppendSearch (snapshot : ThreadSearchStateSnapshot D) (data : SearchData D)
    (selectLastLoaded : Bool) : AppendSearchOutcome D :=
  let expectedOffset := snapshot.windowOffset + snapshot.threads.length
  let resetModel := data.offset != expectedOffset
  let kept := if resetModel then [] else snapshot.threads
  let keptDetails := if resetModel then BTreeMap.empty else snapshot.details
  let appendStart := kept.length
  let appendCount := data.threads.length
  let threads := kept ++ data.threads
  let details :=
    data.details.entries.foldl (fun map entry => map.insert entry.1 entry.2) keptDetails
  let windowOffset := if resetModel then data.offset else snapshot.windowOffset
  let restoredIndex :=
    if resetModel then
      ((snapshot.selectedThreadId.bind fun threadId =>
          threads.findIdx? (·.threadId == threadId)).or snapshot.selectedIndex).filter
        (· < threads.length)
    else snapshot.selectedIndex
  let selectedIndex :=
    if selectLastLoaded && 0 < appendCount then some (appendStart + appendCount - 1)
    else restoredIndex
  let loadedCount := threads.length
  { modelUpdate := if resetModel then .replace else .append appendStart appendCount
    selectedIndex
    update :=
      { currentQuery := data.query
        windowOffset
        threads
        totalCount := data.count
        loadedCount
        pageSize := data.limit
        canLoadMore := windowOffset + loadedCount < data.count
        details
        visibleTags := data.tags
        databasePath := data.databasePath
        revision := data.revision } }

def reduceSearchError (error : Str) (hasThreads : Bool) : SearchErrorOutcome where
  message := "Search failed: ".toList ++ error
  error
  clearEmptyCounts := !hasThreads

/-! ## A page that continues the list, and one that does not -/

section

variable (snapshot : ThreadSearchStateSnapshot D) (data : SearchData D) (selectLastLoaded : Bool)

theorem reduceAppendSearch_continues
    (h : data.offset = snapshot.windowOffset + snapshot.threads.length) :
    (reduceAppendSearch snapshot data selectLastLoaded).update.threads =
        snapshot.threads ++ data.threads ∧
      (reduceAppendSearch snapshot data selectLastLoaded).update.windowOffset =
        snapshot.windowOffset ∧
      (reduceAppendSearch snapshot data selectLastLoaded).modelUpdate =
        .append snapshot.threads.length data.threads.length := by
  have hreset : (data.offset != snapshot.windowOffset + snapshot.threads.length) = false := by
    rw [h]
    exact bne_self_eq_false _
  unfold reduceAppendSearch
  dsimp only
  rw [hreset]
  exact ⟨rfl, rfl, rfl⟩

theorem reduceAppendSearch_starts_anew
    (h : data.offset ≠ snapshot.windowOffset + snapshot.threads.length) :
    (reduceAppendSearch snapshot data selectLastLoaded).update.threads = data.threads ∧
      (reduceAppendSearch snapshot data selectLastLoaded).update.windowOffset = data.offset ∧
      (reduceAppendSearch snapshot data selectLastLoaded).modelUpdate = .replace := by
  have hreset : (data.offset != snapshot.windowOffset + snapshot.threads.length) = true :=
    bne_iff_ne.2 h
  unfold reduceAppendSearch
  dsimp only
  rw [hreset]
  exact ⟨rfl, rfl, rfl⟩

theorem reduceAppendSearch_canLoadMore :
    (reduceAppendSearch snapshot data selectLastLoaded).update.canLoadMore =
      decide ((reduceAppendSearch snapshot data selectLastLoaded).update.windowOffset +
        (reduceAppendSearch snapshot data selectLastLoaded).update.threads.length <
          data.count) := rfl

end

end Notm.Ui
