import Notm.Lib.BTreeMap
import Notm.Lib.Counter
import Notm.Lib.Except
import Notm.Notmuch.Thread

/-!
# The threads of a visual selection

`collect_thread_ids_for_range`: the threads of a range of the result list are read page by page
from one read-only handle, while others may write to the database. Between the pages the database
is opened anew and compared with the fingerprint that the selection was made under.

* `insertPage_eq`, `insertPage_collected` — one page of the range.
* `collectPages_eq` — the loop ends with the whole range collected.
* `collectThreadIdsForRange_exact` — a range that is returned, whatever others write meanwhile.
* `collectThreadIdsForRange_quiet` — and without writers every range is returned.
-/

namespace Notm.Ui

open Rust Notmuch

/-- What a selection was made under: the query, the revision of the database, the number of threads
found and the tags that were left out. -/
structure VisualSearchFingerprint where
  query : Str
  revision : Revision
  totalCount : Nat
  excludedTags : List Str
deriving DecidableEq

/-- Why the threads of a range could not be collected: the search or the database has changed, or
could not be read. -/
inductive VisualRangeError where
  | queryChanged (expected observed : Str)
  | uuidChanged (expected observed : Str)
  | revisionChanged (expected observed : Nat)
  | countChanged (expected observed : Nat)
  | excludedTagsChanged (expected observed : List Str)
  | database (error : Notmuch.Error)
  | page (error : Str)
  | rangeIncomplete (expected resolved : Nat)
deriving DecidableEq

/-- The text of the error; `debug` is how `{:?}` writes a list of tags. -/
def VisualRangeError.text (debug : List Str → Str) : VisualRangeError → Str
  | .queryChanged expected observed =>
    "visual search query changed from `".toList ++ expected ++ "` to `".toList ++ observed ++ ['`']
  | .uuidChanged expected observed =>
    "visual search database UUID changed from `".toList ++ expected ++ "` to `".toList ++
      observed ++ ['`']
  | .revisionChanged expected observed =>
    "visual search revision changed from ".toList ++ natText expected ++ " to ".toList ++
      natText observed
  | .countChanged expected observed =>
    "visual search thread count changed from ".toList ++ natText expected ++ " to ".toList ++
      natText observed
  | .excludedTagsChanged expected observed =>
    "visual search excluded-tag policy changed from ".toList ++ debug expected ++ " to ".toList ++
      debug observed
  | .database error => error.text
  | .page error => error
  | .rangeIncomplete expected resolved =>
    "selected range expected ".toList ++ natText expected ++ " thread IDs but resolved ".toList ++
      natText resolved

/-- The first difference is reported. -/
def validateVisualSearchFingerprint (expected observed : VisualSearchFingerprint) :
    Except VisualRangeError Unit :=
  if observed.query ≠ expected.query then
    .error (.queryChanged expected.query observed.query)
  else if observed.revision.uuid ≠ expected.revision.uuid then
    .error (.uuidChanged expected.revision.uuid observed.revision.uuid)
  else if observed.revision.revision ≠ expected.revision.revision then
    .error (.revisionChanged expected.revision.revision observed.revision.revision)
  else if observed.totalCount ≠ expected.totalCount then
    .error (.countChanged expected.totalCount observed.totalCount)
  else if observed.excludedTags ≠ expected.excludedTags then
    .error (.excludedTagsChanged expected.excludedTags observed.excludedTags)
  else .ok ()

/-- Only the expected fingerprint passes. -/
theorem validateVisualSearchFingerprint_eq_ok {expected observed : VisualSearchFingerprint} :
    validateVisualSearchFingerprint expected observed = .ok () ↔ observed = expected := by
  obtain ⟨query, ⟨revision, uuid⟩, totalCount, excludedTags⟩ := expected
  obtain ⟨query', ⟨revision', uuid'⟩, totalCount', excludedTags'⟩ := observed
  unfold validateVisualSearchFingerprint
  constructor
  · intro h
    repeat' split at h
    all_goals simp_all
  · intro h
    simp_all

/-! ## The database under concurrent writes -/

/-- One state of the database. A search finds threads newest first, and fewer of them than the
`unsigned int` of Notmuch counts; two states of one revision need not agree on what is found. -/
structure DatabaseState where
  revision : Revision
  found : Str → List Str → List ThreadSummary
  fits : ∀ query excludedTags, (found query excludedTags).length < 2 ^ 32

/-- What the steps of one call meet: the state of the database at each, when others write to it
between any two, the reads that fail and what the hook says after a page. -/
structure ConcurrentDatabase where
  opened : Nat → Except Notmuch.Error DatabaseState
  readFails : Nat → Option Notmuch.Error
  afterPage : Nat → Nat → Except Str Unit

namespace ConcurrentDatabase

variable (world : ConcurrentDatabase)

/-- `Database::open`. -/
def openReadOnly (step : Nat) : Except VisualRangeError DatabaseState :=
  (world.opened step).mapError .database

/-- A read on a handle: it serves the state that the handle was opened at, or it fails. -/
def read {α : Type} (step : Nat) (value : α) : Except VisualRangeError α :=
  match world.readFails step with
  | some error => .error (.database error)
  | none => .ok value

theorem read_eq_ok {α : Type} {step : Nat} {value value' : α}
    (h : world.read step value = .ok value') : value' = value := by
  unfold read at h
  split at h
  · exact absurd h (by simp)
  · exact (Except.ok.inj h).symm

/-- `validate_database_visual_search_fingerprint`, in two steps. -/
def validateDatabaseFingerprint (expected : VisualSearchFingerprint) (step : Nat) :
    Except VisualRangeError Unit := do
  let db ← world.openReadOnly step
  let totalCount ←
    world.read (step + 1) (db.found expected.query expected.excludedTags).length
  validateVisualSearchFingerprint expected
    ⟨expected.query, db.revision, totalCount, expected.excludedTags⟩
  validateVisualSearchFingerprint expected
    ⟨expected.query, db.revision, totalCount, expected.excludedTags⟩

end ConcurrentDatabase

/-! ## Reading the range -/

/-- Take up the threads of a page whose positions are in the range. -/
def insertPage (start stop offset : Nat) (snapshots : BTreeMap Str ThreadSummary)
    (threads : List ThreadSummary) : BTreeMap Str ThreadSummary :=
  (threads.zipIdx offset).foldl
    (fun snapshots (thread, absoluteIndex) =>
      if start ≤ absoluteIndex ∧ absoluteIndex ≤ stop then
        snapshots.insert thread.threadId thread
      else snapshots)
    snapshots

/-- The loop over the pages; with the number of the step after it. -/
def collectPages (world : ConcurrentDatabase) (db : DatabaseState)
    (expected : VisualSearchFingerprint) (start stop pageSize step offset : Nat)
    (snapshots : BTreeMap Str ThreadSummary) :
    Except VisualRangeError (BTreeMap Str ThreadSummary × Nat) :=
  if offset ≤ stop then do
    let threads ← world.read step
      (searchThreads (db.found expected.query expected.excludedTags)
        ⟨max pageSize 1, offset, expected.excludedTags⟩)
    (world.afterPage (step + 1) offset).mapError .page
    world.validateDatabaseFingerprint expected (step + 2)
    if threads.isEmpty then .ok (snapshots, step + 4)
    else
      let snapshots := insertPage start stop offset snapshots threads
      let nextOffset := saturatingAdd offset (max pageSize 1)
      if nextOffset ≤ offset then .ok (snapshots, step + 4)
      else collectPages world db expected start stop pageSize (step + 4) nextOffset snapshots
  else .ok (snapshots, step)
termination_by stop + 1 - offset

def collectThreadIdsForRangeWithPageHook (world : ConcurrentDatabase)
    (expected : VisualSearchFingerprint) (start stop pageSize : Nat) :
    Except VisualRangeError (BTreeMap Str ThreadSummary) := do
  let db ← world.openReadOnly 0
  validateVisualSearchFingerprint expected
    ⟨expected.query, db.revision, expected.totalCount, expected.excludedTags⟩
  world.validateDatabaseFingerprint expected 1
  let (snapshots, step) ← collectPages world db expected start stop pageSize 3
    (start / max pageSize 1 * max pageSize 1) .empty
  world.validateDatabaseFingerprint expected step
  let expectedCount := saturatingAdd (stop - start) 1
  if snapshots.entries.length = expectedCount then .ok snapshots
  else .error (.rangeIncomplete expectedCount snapshots.entries.length)

/-! ## What is collected -/

/-- The entries for the positions from `start` on and before `bound`. -/
def rangeEntries (found : List ThreadSummary) (start bound : Nat) : List (Str × ThreadSummary) :=
  ((found.take bound).drop start).map fun thread => (thread.threadId, thread)

theorem length_rangeEntries (found : List ThreadSummary) (start bound : Nat) :
    (rangeEntries found start bound).length = min bound found.length - start := by
  unfold rangeEntries
  rw [List.length_map, List.length_drop, List.length_take]

/-- Nothing is in the range before its start. -/
theorem rangeEntries_before (found : List ThreadSummary) {start bound : Nat} (h : bound ≤ start) :
    rangeEntries found start bound = [] := by
  have hlength := length_rangeEntries found start bound
  exact List.length_eq_zero_iff.1 (by omega)

/-- Past the end of the result list the bound makes no difference. -/
theorem rangeEntries_past (found : List ThreadSummary) (start : Nat) {bound bound' : Nat}
    (hbound : found.length ≤ bound) (hbound' : found.length ≤ bound') :
    rangeEntries found start bound = rangeEntries found start bound' := by
  unfold rangeEntries
  rw [List.take_of_length_le hbound, List.take_of_length_le hbound']

/-- A page continues the range by what it has of it. -/
theorem rangeEntries_continue (found : List ThreadSummary) {start stop offset limit : Nat}
    (h : offset ≤ stop) :
    rangeEntries found start (min (offset + limit) (stop + 1)) =
      rangeEntries found start (min offset (stop + 1)) ++
        (((((found.drop offset).take limit).take (stop + 1 - offset)).drop (start - offset)).map
          fun thread => (thread.threadId, thread)) := by
  have hbefore : min offset (stop + 1) = offset := by omega
  have hafter : min (offset + limit) (stop + 1) = offset + min limit (stop + 1 - offset) := by omega
  unfold rangeEntries
  rw [hbefore, hafter, List.take_add, List.drop_append, List.map_append, List.take_take,
    Nat.min_comm limit, List.length_take]
  -- A result list that ends before the page has nothing left for it.
  rcases Nat.le_total offset found.length with hlong | hshort
  · rw [Nat.min_eq_left hlong]
  · rw [List.drop_eq_nil_of_le hshort, List.take_nil, List.drop_nil, List.drop_nil]

/-- Taking up a page collects those of its threads that are in the range. -/
theorem insertPage_eq (start stop offset : Nat) (snapshots : BTreeMap Str ThreadSummary)
    (threads : List ThreadSummary) :
    insertPage start stop offset snapshots threads =
      (((threads.take (stop + 1 - offset)).drop (start - offset)).map
        fun thread => (thread.threadId, thread)).foldl
          (fun map entry => map.insert entry.1 entry.2) snapshots := by
  induction threads generalizing offset snapshots with
  | nil => simp [insertPage]
  | cons thread threads ih =>
    have hrest := ih (offset + 1)
    unfold insertPage at hrest ⊢
    rw [List.zipIdx_cons, List.foldl_cons, hrest]
    by_cases hstop : offset ≤ stop
    · have htake : stop + 1 - offset = stop + 1 - (offset + 1) + 1 := by omega
      rw [htake, List.take_succ_cons]
      by_cases hstart : start ≤ offset
      · have hdrop : start - offset = 0 := by omega
        have hdrop' : start - (offset + 1) = 0 := by omega
        rw [hdrop, hdrop', List.drop_zero, List.drop_zero, List.map_cons, List.foldl_cons]
        show List.foldl _ (if start ≤ offset ∧ offset ≤ stop then _ else _) _ = _
        rw [if_pos ⟨hstart, hstop⟩]
      · have hdrop : start - offset = start - (offset + 1) + 1 := by omega
        rw [hdrop, List.drop_succ_cons]
        show List.foldl _ (if start ≤ offset ∧ offset ≤ stop then _ else _) _ = _
        rw [if_neg fun h => hstart h.1]
    · have htake : stop + 1 - offset = 0 := by omega
      have htake' : stop + 1 - (offset + 1) = 0 := by omega
      rw [htake, htake', List.take_zero, List.take_zero, List.drop_nil, List.drop_nil]
      show List.foldl _ (if start ≤ offset ∧ offset ≤ stop then _ else _) _ = _
      rw [if_neg fun h => hstop h.2]

/-- One page takes the collected range from its offset to the next. -/
theorem insertPage_collected {found : List ThreadSummary} {start stop offset limit : Nat}
    (h : offset ≤ stop) :
    insertPage start stop offset (.ofList (rangeEntries found start (min offset (stop + 1))))
        ((found.drop offset).take limit) =
      .ofList (rangeEntries found start (min (offset + limit) (stop + 1))) := by
  rw [insertPage_eq, rangeEntries_continue found h, BTreeMap.ofList_append]

/-- The loop ends with the whole range collected, as far as the result list reaches. -/
theorem collectPages_eq {world : ConcurrentDatabase} {db : DatabaseState}
    {expected : VisualSearchFingerprint} {start stop pageSize step offset : Nat}
    {snapshots snapshots' : BTreeMap Str ThreadSummary} {step' : Nat}
    (hsnapshots : snapshots = .ofList (rangeEntries (db.found expected.query expected.excludedTags)
      start (min offset (stop + 1))))
    (h : collectPages world db expected start stop pageSize step offset snapshots =
      .ok (snapshots', step')) :
    snapshots' = .ofList (rangeEntries (db.found expected.query expected.excludedTags) start
      (stop + 1)) := by
  have hfits : (db.found expected.query expected.excludedTags).length < u64Max :=
    (db.fits expected.query expected.excludedTags).trans (by decide)
  have hlimit : 0 < max pageSize 1 := by omega
  generalize hfound : db.found expected.query expected.excludedTags = found at hsnapshots hfits ⊢
  -- The offset carries the induction: it grows with every page that the loop goes on after.
  induction hleft : stop + 1 - offset using Nat.strong_induction_on
    generalizing step offset snapshots with
  | _ left ih =>
    rw [collectPages] at h
    split at h
    · next hoffset =>
      obtain ⟨threads, hread, h⟩ := bind_eq_ok.1 h
      obtain ⟨_, _, h⟩ := bind_eq_ok.1 h
      obtain ⟨_, _, h⟩ := bind_eq_ok.1 h
      have hthreads : threads = (found.drop offset).take (max pageSize 1) := by
        rw [world.read_eq_ok hread, hfound]
        exact searchThreads_eq found _ hlimit
      split at h
      · next hempty =>
        obtain ⟨rfl, -⟩ := Prod.mk.inj (Except.ok.inj h)
        -- An empty page is past the end of the result list.
        have hpast : found.length ≤ offset := by
          have hlength := congrArg List.length hthreads
          rw [List.isEmpty_iff.1 hempty, List.length_take, List.length_drop,
            List.length_nil] at hlength
          omega
        have hrange := @rangeEntries_past found start (min offset (stop + 1)) (stop + 1) (by omega)
          (by omega)
        rw [hsnapshots, hrange]
      · rw [hsnapshots, hthreads, insertPage_collected hoffset] at h
        dsimp only at h
        split at h
        · next hlast =>
          obtain ⟨rfl, -⟩ := Prod.mk.inj (Except.ok.inj h)
          have hend : u64Max ≤ offset := by
            unfold saturatingAdd at hlast
            omega
          have hrange := @rangeEntries_past found start
            (min (offset + max pageSize 1) (stop + 1)) (stop + 1) (by omega) (by omega)
          rw [hrange]
        · next hnext =>
          have hcollected :
              rangeEntries found start (min (offset + max pageSize 1) (stop + 1)) =
                rangeEntries found start
                  (min (saturatingAdd offset (max pageSize 1)) (stop + 1)) := by
            unfold saturatingAdd
            rcases Nat.le_total (offset + max pageSize 1) u64Max with hle | hge
            · rw [Nat.min_eq_left hle]
            · rcases Nat.le_total (stop + 1) u64Max with hstop | hstop
              · congr 1
                omega
              · exact rangeEntries_past found start (by omega) (by omega)
          rw [hcollected] at h
          have hgrows : stop + 1 - saturatingAdd offset (max pageSize 1) < left := by omega
          exact ih _ hgrows h rfl rfl
    · next hoffset =>
      obtain ⟨rfl, -⟩ := Prod.mk.inj (Except.ok.inj h)
      have hbound : min offset (stop + 1) = stop + 1 := by omega
      rw [hsnapshots, hbound]

/-- **A range is exact.** A range that is returned is the one of the result list of a state at the
expected revision: the threads at its positions, none missing, and each once. All pages are read
from the handle that was opened first, so what is written meanwhile does not come into them. -/
theorem collectThreadIdsForRange_exact {world : ConcurrentDatabase}
    {expected : VisualSearchFingerprint} {start stop pageSize : Nat}
    {snapshots : BTreeMap Str ThreadSummary}
    (h : collectThreadIdsForRangeWithPageHook world expected start stop pageSize =
      .ok snapshots) :
    ∃ db, world.opened 0 = .ok db ∧ db.revision = expected.revision ∧
      stop < (db.found expected.query expected.excludedTags).length ∧
      snapshots.entries.length = stop + 1 - start ∧
      snapshots.entries.Perm
        ((((db.found expected.query expected.excludedTags).take (stop + 1)).drop start).map
          fun thread => (thread.threadId, thread)) := by
  unfold collectThreadIdsForRangeWithPageHook at h
  obtain ⟨db, hopen, h⟩ := bind_eq_ok.1 h
  obtain ⟨⟨⟩, hfingerprint, h⟩ := bind_eq_ok.1 h
  obtain ⟨⟨⟩, _, h⟩ := bind_eq_ok.1 h
  obtain ⟨⟨collected, step⟩, hpages, h⟩ := bind_eq_ok.1 h
  obtain ⟨⟨⟩, _, h⟩ := bind_eq_ok.1 h
  have hopened : world.opened 0 = .ok db := mapError_eq_ok.1 hopen
  have hrevision : db.revision = expected.revision :=
    congrArg VisualSearchFingerprint.revision
      (validateVisualSearchFingerprint_eq_ok.1 hfingerprint)
  have hstart : start / max pageSize 1 * max pageSize 1 ≤ start := Nat.div_mul_le_self _ _
  -- The first page starts at or before the range, so the collection starts empty.
  have hcollected := collectPages_eq (by
    rw [rangeEntries_before _ (by omega)]
    rfl) hpages
  have hfits := db.fits expected.query expected.excludedTags
  dsimp only at h
  split at h
  · -- The result is returned only if it has as many threads as the range has positions.
    next hcount =>
    obtain rfl := Except.ok.inj h
    have hle := BTreeMap.length_ofList_le
      (rangeEntries (db.found expected.query expected.excludedTags) start (stop + 1))
    have hlength := length_rangeEntries (db.found expected.query expected.excludedTags) start
      (stop + 1)
    rw [← hcollected, hcount] at hle
    -- A count that saturates would need more threads than a database has.
    have hexact : saturatingAdd (stop - start) 1 = stop - start + 1 := by
      have hmax : (2 : Nat) ^ 32 < u64Max := by decide
      unfold saturatingAdd at hle ⊢
      omega
    rw [hexact] at hcount hle
    refine ⟨db, hopened, hrevision, by omega, by omega, ?_⟩
    rw [hcollected] at hcount ⊢
    exact BTreeMap.ofList_perm (by omega)
  · exact absurd h (by simp)

/-! ## A database that nobody writes to -/

/-- Every open shows the one state, and nothing fails. -/
def quietDatabase (db : DatabaseState) : ConcurrentDatabase where
  opened _ := .ok db
  readFails _ := none
  afterPage _ _ := .ok ()

/-- The fingerprint of a query on the state. -/
def DatabaseState.fingerprint (db : DatabaseState) (query : Str) (excludedTags : List Str) :
    VisualSearchFingerprint :=
  ⟨query, db.revision, (db.found query excludedTags).length, excludedTags⟩

variable (db : DatabaseState) (query : Str) (excludedTags : List Str)

theorem quietDatabase_validates (step : Nat) :
    (quietDatabase db).validateDatabaseFingerprint (db.fingerprint query excludedTags) step =
      .ok () := by
  have hvalid := validateVisualSearchFingerprint_eq_ok.2
    (Eq.refl (db.fingerprint query excludedTags))
  exact bind_eq_ok.2 ⟨db, rfl, bind_eq_ok.2 ⟨_, rfl, bind_eq_ok.2 ⟨(), hvalid, hvalid⟩⟩⟩

/-- The loop reads all pages of the range. -/
theorem quietDatabase_collects (start stop pageSize step offset : Nat)
    (snapshots : BTreeMap Str ThreadSummary) :
    ∃ result, collectPages (quietDatabase db) db (db.fingerprint query excludedTags) start stop
      pageSize step offset snapshots = .ok result := by
  induction hleft : stop + 1 - offset using Nat.strong_induction_on
    generalizing step offset snapshots with
  | _ left ih =>
    rw [collectPages]
    split
    · have hread : ∀ threads : List ThreadSummary,
          (quietDatabase db).read step threads = .ok threads := fun _ => rfl
      have hpage : (((quietDatabase db).afterPage (step + 1) offset).mapError
          VisualRangeError.page) = .ok () := rfl
      rw [hread, hpage, quietDatabase_validates]
      dsimp only [bind, Except.bind]
      split
      · exact ⟨_, rfl⟩
      · split
        · exact ⟨_, rfl⟩
        · exact ih _ (by omega) _ _ _ rfl
    · exact ⟨_, rfl⟩

/-- Without writers every range of the result list is returned. -/
theorem collectThreadIdsForRange_quiet {start stop : Nat} (pageSize : Nat)
    (hrange : start ≤ stop) (hstop : stop < (db.found query excludedTags).length)
    (hnodup : ((db.found query excludedTags).map ThreadSummary.threadId).Nodup) :
    ∃ snapshots, collectThreadIdsForRangeWithPageHook (quietDatabase db)
      (db.fingerprint query excludedTags) start stop pageSize = .ok snapshots := by
  obtain ⟨⟨snapshots, step⟩, hpages⟩ := quietDatabase_collects db query excludedTags start stop
    pageSize 3 (start / max pageSize 1 * max pageSize 1) .empty
  have hstart : start / max pageSize 1 * max pageSize 1 ≤ start := Nat.div_mul_le_self _ _
  have hcollected : snapshots =
      .ofList (rangeEntries (db.found query excludedTags) start (stop + 1)) :=
    collectPages_eq (by rw [rangeEntries_before _ (by omega)]; rfl) hpages
  have hkeys : ((rangeEntries (db.found query excludedTags) start (stop + 1)).map
      Prod.fst).Nodup := by
    unfold rangeEntries
    rw [List.map_map]
    exact hnodup.sublist (((List.drop_sublist _ _).trans (List.take_sublist _ _)).map _)
  have hlength : snapshots.entries.length = stop + 1 - start := by
    rw [hcollected, (BTreeMap.ofList_perm_of_nodup hkeys).length_eq, length_rangeEntries]
    omega
  have hfits := db.fits query excludedTags
  have hmax : (2 : Nat) ^ 32 < u64Max := by decide
  have hcount : snapshots.entries.length = saturatingAdd (stop - start) 1 := by
    unfold saturatingAdd
    omega
  refine ⟨snapshots, bind_eq_ok.2 ⟨db, rfl, bind_eq_ok.2
    ⟨(), validateVisualSearchFingerprint_eq_ok.2 rfl, bind_eq_ok.2
      ⟨(), quietDatabase_validates db query excludedTags 1, bind_eq_ok.2
        ⟨_, hpages, bind_eq_ok.2 ⟨(), quietDatabase_validates db query excludedTags step, ?_⟩⟩⟩⟩⟩⟩
  exact if_pos hcount

/-- Threads a, b and c, whatever the query. -/
def threeThreads : DatabaseState where
  revision := ⟨1, ['u']⟩
  found _ _ := [⟨['a'], [], false, false⟩, ⟨['b'], [], false, false⟩, ⟨['c'], [], false, false⟩]
  fits _ _ := by decide

/-- The second and the third thread, in pages of two. -/
theorem second_and_third_collected :
    ∃ snapshots, collectThreadIdsForRangeWithPageHook (quietDatabase threeThreads)
        (threeThreads.fingerprint ['*'] []) 1 2 2 = .ok snapshots ∧
      snapshots.entries.length = 2 := by
  obtain ⟨snapshots, hok⟩ := collectThreadIdsForRange_quiet threeThreads ['*'] [] 2
    (show 1 ≤ 2 by decide) (show 2 < 3 by decide) (by decide)
  obtain ⟨_, _, _, _, hlength, _⟩ := collectThreadIdsForRange_exact hok
  exact ⟨snapshots, hok, hlength⟩

end Notm.Ui
