import Notm.Lib.BTreeSet
import Notm.Lib.Transition
import Notm.Ui.AppConfig
import Notm.Ui.ThreadPaging

/-!
# The window of the thread list

Runs of page loads against a database that changes between them. A page that continues the list is
asked for by its offset alone: the list stays a window of one result list as long as the page comes
from the revision that the list came from.

* `MailSearch` — what a search finds, at each revision of the database.
* `executeSearchPage_eq` — a page is a window of its result list.
* `current_of_replace`, `current_of_append` — what a page makes of the list.
* `window_of_one_revision` — a whole run of pages.
* `page_of_new_revision_repeats_thread` — a page of another revision.
-/

namespace Notm.Ui

open Rust Notmuch

/-- What a search finds, at each revision of the database: the threads of the query, newest first,
without those that only messages with excluded tags match. A search lists a thread once. -/
structure MailSearch where
  found : Revision → Str → List Str → List ThreadSummary
  nodup : ∀ revision query excludedTags,
    ((found revision query excludedTags).map ThreadSummary.threadId).Nodup

/-- Sorted, and each tag once. -/
def canonicalExcludedTags (excludedTags : List Str) : List Str :=
  (BTreeSet.ofList excludedTags).toList

/-- The circumstances in which a worker loads a page. -/
structure PageLoad (D : Type) where
  revision : Revision
  excludedTags : List Str
  limit : Nat
  /-- `count_threads` fails; a page that need not be authoritative counts its own threads then. -/
  countFails : Bool
  details : BTreeMap Str D
  tags : List Str
  databasePath : Str
  cached : Bool

variable {D : Type}

/-- `execute_search_page_with_cancel`, when nothing but the count fails. -/
def executeSearchPage (mail : MailSearch) (query : Str) (offset : Nat) (load : PageLoad D) :
    Option (SearchData D) :=
  if 1 ≤ load.limit ∧ load.limit ≤ maxSearchPageSize then
    let excludedTags := canonicalExcludedTags load.excludedTags
    let found := mail.found load.revision query excludedTags
    let threads := searchThreads found ⟨load.limit, offset, excludedTags⟩
    some
      { query
        excludedTags
        threads
        details := load.details
        count := if load.countFails then threads.length else found.length
        offset
        limit := load.limit
        tags := load.tags
        databasePath := load.databasePath
        revision := load.revision
        cached := load.cached }
  else none

/-- The part of the state of the user interface that page loads change. -/
structure ThreadPages (D : Type) where
  currentQuery : Str
  windowOffset : Nat
  threadListItems : List ThreadSummary
  totalCount : Nat
  loadedCount : Nat
  pageSize : Nat
  canLoadMore : Bool
  details : BTreeMap Str D
  visibleTags : List Str
  databasePath : Option Str
  databaseRevision : Option Revision

namespace ThreadPages

/-- Before the first search. -/
def initial (query : Str) (pageSize : Nat) : ThreadPages D where
  currentQuery := query
  windowOffset := 0
  threadListItems := []
  totalCount := 0
  loadedCount := 0
  pageSize
  canLoadMore := false
  details := .empty
  visibleTags := []
  databasePath := none
  databaseRevision := none

/-- `apply_thread_search_state_update`. -/
def applyUpdate (update : ThreadSearchStateUpdate D) : ThreadPages D where
  currentQuery := update.currentQuery
  windowOffset := update.windowOffset
  threadListItems := update.threads
  totalCount := update.totalCount
  loadedCount := update.loadedCount
  pageSize := update.pageSize
  canLoadMore := update.canLoadMore
  details := update.details
  visibleTags := update.visibleTags
  databasePath := some update.databasePath
  databaseRevision := some update.revision

/-- `thread_paging_snapshot`, when no search is loading. -/
def pagingSnapshot (pages : ThreadPages D) : ThreadPagingSnapshot where
  searchLoading := false
  currentQuery := pages.currentQuery
  windowOffset := pages.windowOffset
  loadedCount := pages.threadListItems.length
  canLoadMore := pages.canLoadMore

/-- `thread_search_state_snapshot`. -/
def searchSnapshot (pages : ThreadPages D) (selectedThreadId : Option Str)
    (selectedIndex : Option Nat) : ThreadSearchStateSnapshot D where
  windowOffset := pages.windowOffset
  threads := pages.threadListItems
  details := pages.details
  selectedThreadId
  selectedIndex

end ThreadPages

/-- An accepted page: of a new search or of a jump to some offset, or one that continues the
list. -/
inductive PageEvent (D : Type) where
  | replace (query : Str) (offset : Nat) (load : PageLoad D)
  | append (load : PageLoad D) (selectedThreadId : Option Str) (selectedIndex : Option Nat)
      (selectLastLoaded : Bool)

/-- The loaded list, with the excluded tags of the page it began with. -/
structure LoadedThreads (D : Type) where
  pages : ThreadPages D
  excludedTags : List Str

namespace LoadedThreads

variable {mail : MailSearch} {loaded loaded' : LoadedThreads D}

/-- The page that an event brings. -/
def page (mail : MailSearch) (loaded : LoadedThreads D) : PageEvent D → Option (SearchData D)
  | .replace query offset load => executeSearchPage mail query offset load
  | .append load _ _ _ =>
    match planLoadMore loaded.pages.pagingSnapshot with
    | .ready query offset => executeSearchPage mail query offset load
    | .busy | .exhausted => none

/-- A page is accepted. -/
def step (mail : MailSearch) (loaded : LoadedThreads D) (event : PageEvent D) :
    Option (LoadedThreads D) :=
  (loaded.page mail event).map fun data =>
    match event with
    | .replace _ _ _ =>
      { pages := .applyUpdate (reduceReplaceSearch data).update
        excludedTags := data.excludedTags }
    | .append _ selectedThreadId selectedIndex selectLastLoaded =>
      { pages := .applyUpdate (reduceAppendSearch
          (loaded.pages.searchSnapshot selectedThreadId selectedIndex) data
          selectLastLoaded).update
        excludedTags := data.excludedTags }

def initial (query : Str) (pageSize : Nat) : LoadedThreads D where
  pages := .initial query pageSize
  excludedTags := []

/-! ## What the list should be -/

/-- The list is the window from its offset on of one result list, lists no thread twice, and more
can be loaded exactly when the window ends before the result list does. -/
structure Shows (found : List ThreadSummary) (pages : ThreadPages D) : Prop where
  nodup : (pages.threadListItems.map ThreadSummary.threadId).Nodup
  window : pages.threadListItems =
    (found.drop pages.windowOffset).take pages.threadListItems.length
  more : pages.canLoadMore = true ↔
    pages.windowOffset + pages.threadListItems.length < found.length

/-- A page that comes from another revision than the list takes its place. -/
def Replaces (mail : MailSearch) (loaded : LoadedThreads D) (event : PageEvent D) : Prop :=
  ∀ data loaded', loaded.page mail event = some data → loaded.step mail event = some loaded' →
    loaded.pages.databaseRevision ≠ some data.revision →
      loaded'.pages.threadListItems = data.threads

/-- The count that a page brings tells whether more can be loaded: it has been made, or the page
reaches the end of the result list. -/
def CountTells (mail : MailSearch) (query : Str) (offset : Nat) (load : PageLoad D) : Prop :=
  load.countFails = true →
    (mail.found load.revision query (canonicalExcludedTags load.excludedTags)).length ≤
      offset + load.limit

/-- A page that continues a list comes from the revision that the list came from, and leaves out
the same tags. -/
def Continues (loaded : LoadedThreads D) (load : PageLoad D) : Prop :=
  loaded.pages.threadListItems = [] ∨
    (loaded.pages.databaseRevision = some load.revision ∧
      loaded.excludedTags = canonicalExcludedTags load.excludedTags)

/-- What the pages of a run must keep to. A page that continues the list comes from the revision and
the excluded tags of the list; and the count of any page has been made, or the page reaches the end
of its result list. -/
def SameSource (mail : MailSearch) (loaded : LoadedThreads D) : PageEvent D → Prop
  | .replace query offset load => CountTells mail query offset load
  | .append load _ _ _ =>
    Continues loaded load ∧
      CountTells mail loaded.pages.currentQuery
        (loaded.pages.windowOffset + loaded.pages.threadListItems.length) load

/-! ## One page -/

/-- A page is the window of its result list that the limit allows, and it is empty only at the end
of the list. -/
theorem executeSearchPage_eq {query : Str} {offset : Nat} {load : PageLoad D}
    {data : SearchData D} (h : executeSearchPage mail query offset load = some data) :
    data.query = query ∧ data.offset = offset ∧ data.revision = load.revision ∧
      data.excludedTags = canonicalExcludedTags load.excludedTags ∧
      data.threads = ((mail.found data.revision query data.excludedTags).drop offset).take
        load.limit ∧
      (CountTells mail query offset load →
        (offset + data.threads.length < data.count ↔
          offset + data.threads.length <
            (mail.found data.revision query data.excludedTags).length)) := by
  unfold executeSearchPage at h
  split at h
  · next hlimit =>
    obtain rfl := Option.some.inj h
    have hthreads := searchThreads_eq
      (mail.found load.revision query (canonicalExcludedTags load.excludedTags))
      ⟨load.limit, offset, canonicalExcludedTags load.excludedTags⟩ hlimit.1
    refine ⟨rfl, rfl, rfl, rfl, hthreads, fun hcount => ?_⟩
    dsimp only
    cases hfails : load.countFails with
    | false => exact Iff.rfl
    | true =>
      have hend := hcount hfails
      rw [if_pos rfl, hthreads, List.length_take, List.length_drop]
      dsimp only
      omega
  · exact absurd h (by simp)

/-- A window of a result list lists no thread twice. -/
theorem window_nodup (revision : Revision) (query : Str) (excludedTags : List Str)
    (offset n : Nat) :
    ((((mail.found revision query excludedTags).drop offset).take n).map
      ThreadSummary.threadId).Nodup := by
  have hsublist : (((mail.found revision query excludedTags).drop offset).take n).Sublist
      (mail.found revision query excludedTags) :=
    (List.take_sublist _ _).trans (List.drop_sublist _ _)
  exact (mail.nodup revision query excludedTags).sublist (hsublist.map _)

/-- A window taken up to a limit is the window of its own length. -/
theorem take_length_take {α : Type*} (l : List α) (n : Nat) :
    l.take n = l.take (l.take n).length := by
  rw [List.length_take]
  exact (List.take_eq_take_min ..)

/-- The list shows the result list of its revision. -/
def Current (mail : MailSearch) (loaded : LoadedThreads D) : Prop :=
  ∃ revision, loaded.pages.databaseRevision = some revision ∧
    Shows (mail.found revision loaded.pages.currentQuery loaded.excludedTags) loaded.pages

/-- A page that takes the place of the list. -/
theorem current_of_replace {query : Str} {offset : Nat} {load : PageLoad D}
    (hcount : CountTells mail query offset load)
    (hstep : loaded.step mail (.replace query offset load) = some loaded') :
    Current mail loaded' := by
  obtain ⟨data, hdata, rfl⟩ := Option.map_eq_some_iff.1 hstep
  obtain ⟨hquery, hoffset, -, -, hthreads, hmore⟩ := executeSearchPage_eq hdata
  refine ⟨data.revision, rfl, ?_⟩
  show Shows (mail.found data.revision data.query data.excludedTags) _
  rw [hquery]
  constructor
  · show (data.threads.map _).Nodup
    rw [hthreads]
    exact window_nodup _ _ _ _ _
  · show data.threads = List.take data.threads.length (List.drop data.offset _)
    rw [hoffset, hthreads]
    exact take_length_take _ _
  · show decide (data.offset + data.threads.length < data.count) = true ↔
      data.offset + data.threads.length < _
    rw [decide_eq_true_iff, hoffset]
    exact hmore hcount

/-- The request for the next page asks for the offset after the list. -/
theorem page_append {load : PageLoad D} {selectedThreadId : Option Str}
    {selectedIndex : Option Nat} {selectLastLoaded : Bool} {data : SearchData D}
    (h : loaded.page mail (.append load selectedThreadId selectedIndex selectLastLoaded) =
      some data) :
    executeSearchPage mail loaded.pages.currentQuery
      (loaded.pages.windowOffset + loaded.pages.threadListItems.length) load = some data := by
  unfold page at h
  dsimp only at h
  split at h
  · next query offset hplan =>
    obtain ⟨-, -, rfl, rfl⟩ := planLoadMore_ready hplan
    exact h
  · exact absurd h (by simp)
  · exact absurd h (by simp)

/-- A window and the page after it are a window. -/
theorem window_extends {α : Type*} {found items : List α} {offset : Nat}
    (h : items = (found.drop offset).take items.length) (limit : Nat) :
    items ++ (found.drop (offset + items.length)).take limit =
      (found.drop offset).take (items.length + limit) := by
  rw [List.take_add, List.drop_drop, ← h]

/-- A page that continues a list comes from its result list. -/
theorem items_of_append {load : PageLoad D} {data : SearchData D}
    (hcurrent : loaded.pages.threadListItems = [] ∨ Current mail loaded)
    (hcontinues : Continues loaded load)
    (hdata : executeSearchPage mail loaded.pages.currentQuery
      (loaded.pages.windowOffset + loaded.pages.threadListItems.length) load = some data) :
    loaded.pages.threadListItems ++ data.threads =
      ((mail.found data.revision data.query data.excludedTags).drop
        loaded.pages.windowOffset).take
          (loaded.pages.threadListItems.length + load.limit) := by
  obtain ⟨hquery, -, hrevision, hexcluded, hthreads, -⟩ := executeSearchPage_eq hdata
  rw [hthreads, hquery]
  rcases hcontinues with hempty | ⟨hsame, htags⟩
  · rw [hempty, List.length_nil, Nat.add_zero, Nat.zero_add, List.nil_append]
  · rcases hcurrent with hempty | ⟨revision, hcurrent, hshows⟩
    · rw [hempty, List.length_nil, Nat.add_zero, Nat.zero_add, List.nil_append]
    · obtain rfl : revision = data.revision := by
        rw [hsame, Option.some.injEq] at hcurrent
        rw [← hcurrent, hrevision]
      rw [hexcluded, ← htags]
      exact window_extends hshows.window load.limit

/-- A page that continues the list of its own revision. -/
theorem current_of_append {load : PageLoad D} {selectedThreadId : Option Str}
    {selectedIndex : Option Nat} {selectLastLoaded : Bool}
    (hcurrent : loaded.pages.threadListItems = [] ∨ Current mail loaded)
    (hsame : SameSource mail loaded
      (.append load selectedThreadId selectedIndex selectLastLoaded))
    (hstep : loaded.step mail (.append load selectedThreadId selectedIndex selectLastLoaded) =
      some loaded') : Current mail loaded' := by
  obtain ⟨hcontinues, hcount⟩ := hsame
  obtain ⟨data, hpage, rfl⟩ := Option.map_eq_some_iff.1 hstep
  have hdata := page_append hpage
  have hitems := items_of_append hcurrent hcontinues hdata
  obtain ⟨hquery, hoffset, -, -, -, hmore⟩ := executeSearchPage_eq hdata
  obtain ⟨hthreads, hwindow, -⟩ := reduceAppendSearch_continues
    (loaded.pages.searchSnapshot selectedThreadId selectedIndex) data selectLastLoaded hoffset
  have hthreads : (reduceAppendSearch (loaded.pages.searchSnapshot selectedThreadId selectedIndex)
      data selectLastLoaded).update.threads =
        loaded.pages.threadListItems ++ data.threads := hthreads
  refine ⟨data.revision, rfl, ?_⟩
  show Shows (mail.found data.revision data.query data.excludedTags)
    (.applyUpdate (reduceAppendSearch _ data selectLastLoaded).update)
  constructor
  · show ((reduceAppendSearch _ data selectLastLoaded).update.threads.map _).Nodup
    rw [hthreads, hitems]
    exact window_nodup _ _ _ _ _
  · show (reduceAppendSearch _ data selectLastLoaded).update.threads =
      List.take (reduceAppendSearch _ data selectLastLoaded).update.threads.length
        (List.drop (reduceAppendSearch _ data selectLastLoaded).update.windowOffset _)
    rw [hthreads, hwindow, hitems]
    exact take_length_take _ _
  · show (reduceAppendSearch _ data selectLastLoaded).update.canLoadMore = true ↔
      (reduceAppendSearch _ data selectLastLoaded).update.windowOffset +
        (reduceAppendSearch _ data selectLastLoaded).update.threads.length < _
    rw [reduceAppendSearch_canLoadMore, hthreads, hwindow, decide_eq_true_iff,
      List.length_append]
    show loaded.pages.windowOffset + (loaded.pages.threadListItems.length + data.threads.length) <
        data.count ↔ loaded.pages.windowOffset +
          (loaded.pages.threadListItems.length + data.threads.length) < _
    rw [← Nat.add_assoc, hquery]
    exact hmore hcount

/-- A page of another revision continues an empty list only. -/
theorem replaces_of_append {load : PageLoad D} {selectedThreadId : Option Str}
    {selectedIndex : Option Nat} {selectLastLoaded : Bool} (hcontinues : Continues loaded load) :
    Replaces mail loaded (.append load selectedThreadId selectedIndex selectLastLoaded) := by
  intro data loaded' hpage hstep hother
  obtain ⟨-, hoffset, hrevision, -⟩ := executeSearchPage_eq (page_append hpage)
  obtain ⟨hthreads, -⟩ := reduceAppendSearch_continues
    (loaded.pages.searchSnapshot selectedThreadId selectedIndex) data selectLastLoaded hoffset
  unfold step at hstep
  rw [hpage] at hstep
  obtain rfl := Option.some.inj hstep
  rcases hcontinues with hempty | ⟨hsame, -⟩
  · refine hthreads.trans ?_
    show loaded.pages.threadListItems ++ data.threads = data.threads
    rw [hempty, List.nil_append]
  · rw [hrevision] at hother
    exact absurd hsame hother

/-! ## Runs -/

open Transition in
/-- **The list is a window of one result list.** As long as every page that continues the list comes
from the revision and the excluded tags that the list came from, and its count can be relied on, the
list is a window of the result list of its revision after every page; and a page of another revision
takes the place of the list. -/
theorem window_of_one_revision {query : Str} {pageSize : Nat}
    {trace : List (LoadedThreads D × PageEvent D)}
    (hrun : Run (Steps (step mail)) (initial query pageSize) trace loaded)
    (hsame : ∀ p ∈ trace, SameSource mail p.1 p.2) :
    (trace = [] ∨ Current mail loaded) ∧ ∀ p ∈ trace, Replaces mail p.1 p.2 := by
  induction hrun with
  | nil => exact ⟨Or.inl rfl, fun p hp => absurd hp List.not_mem_nil⟩
  | @snoc trace before event after hearlier hlast ih =>
    obtain ⟨hbefore, hreplaces⟩ := ih fun p hp => hsame p (List.mem_append_left _ hp)
    have hevent := hsame (before, event) (List.mem_append_right _ (List.mem_singleton_self _))
    -- Before the first page the list is empty.
    have hcurrent : before.pages.threadListItems = [] ∨ Current mail before := by
      refine hbefore.imp_left fun hnil => ?_
      rw [hearlier.eq_of_nil hnil]
      rfl
    have hlast' : Current mail after ∧ Replaces mail before event := by
      cases event with
      | replace query offset load =>
        refine ⟨current_of_replace hevent hlast, ?_⟩
        intro data loaded' hpage hstep _
        unfold step at hstep
        rw [hpage] at hstep
        obtain rfl := Option.some.inj hstep
        rfl
      | append load selectedThreadId selectedIndex selectLastLoaded =>
        exact ⟨current_of_append hcurrent hevent hlast, replaces_of_append hevent.1⟩
    refine ⟨Or.inr hlast'.1, fun p hp => ?_⟩
    rcases List.mem_append.1 hp with hp | hp
    · exact hreplaces p hp
    · obtain rfl := List.mem_singleton.1 hp
      exact hlast'.2

/-! ### New mail between two pages -/

/-- A thread that no tag marks. -/
def plainThread (threadId : Str) : ThreadSummary := ⟨threadId, [], false, false⟩

/-- Two threads at the first revision, and a newer one from the next revision on. -/
def newMail : MailSearch where
  found revision _ _ :=
    if revision.revision ≤ 1 then [plainThread ['b'], plainThread ['a']]
    else [plainThread ['c'], plainThread ['b'], plainThread ['a']]
  nodup := by
    intro revision query excludedTags
    split <;> decide

/-- A page of one thread at a revision. -/
def pageAt (revision : Nat) : PageLoad Unit where
  revision := ⟨revision, []⟩
  excludedTags := []
  limit := 1
  countFails := false
  details := .empty
  tags := []
  databasePath := []
  cached := false

/-- Both pages come from the first revision. -/
def quietPages : List (PageEvent Unit) :=
  [.replace ['*'] 0 (pageAt 1), .append (pageAt 1) none none false]

instance (event : PageEvent D) : Decidable (SameSource mail loaded event) := by
  cases event <;> unfold SameSource <;> (try unfold Continues) <;> unfold CountTells <;>
    infer_instance

theorem window_of_quiet_pages :
    (Transition.exec (step newMail) (initial ['*'] 1) quietPages).map
        (fun loaded => loaded.pages.threadListItems.map ThreadSummary.threadId) =
      some [['b'], ['a']] ∧
    ∀ loaded, Transition.exec (step newMail) (initial ['*'] 1) quietPages = some loaded →
      Current newMail loaded := by
  refine ⟨by decide, fun loaded hend => ?_⟩
  have hwindow := window_of_one_revision (Transition.run_of_exec _ hend) (by decide)
  exact hwindow.1.resolve_left (by decide)

/-- A message arrives before the next page is loaded: every thread moves down by one place, and
the page brings the thread that the list ends with once more. -/
theorem page_of_new_revision_repeats_thread :
    (Transition.exec (step newMail) (initial ['*'] 1)
        [.replace ['*'] 0 (pageAt 1), .append (pageAt 2) none none false]).map
        (fun loaded => loaded.pages.threadListItems.map ThreadSummary.threadId) =
      some [['b'], ['b']] := by
  decide

end LoadedThreads

end Notm.Ui
