import Notm.Lib.Transition
import Notm.Ui.ThreadListCallbacks

/-!
# Forced refreshes of the thread list

A forced refresh asks for other objects in place of the ones its rows have. It is done at once, or
waits in an idle callback, or is done a few rows at a time; each of these can be cancelled by a
later call. What a call must leave alone for every forced refresh to be carried out.

* `WatchedThreadList` — the list, with the objects that forced refreshes were to replace.
* `Kept` — each of these has a callback that covers it.
* `runWork_old`, `refreshRows_forced` — what a run of a callback leaves of the older objects.
* `Kept.step` — one step keeps it, where the call spares what is covered.
* `forced_rows_rebound` — so nothing is left when the list rests.
-/

namespace Notm.Ui

open Rust

/-! ## What a callback has still to do for a row -/

namespace ModelWork

variable {κ : Type}

/-- Every row of the model goes before the callback ends. -/
def clearing : ModelWork κ → Bool
  | status _ => true
  | refresh _ _ _ => false
  | update _ removing _ _ _ _ _ => removing

/-- The rows that the callback puts in anew whatever their tokens. -/
def forcedRest : ModelWork κ → List Nat
  | status _ => []
  | refresh _ rest force => if force then rest else []
  | update _ _ _ _ _ _ _ => []

end ModelWork

namespace ThreadListController

variable {κ : Type} {c c' : ThreadListController κ}

/-- A change of the model under way removes every row first. -/
def clearing (c : ThreadListController κ) : Bool := c.underWay ModelWork.clearing

/-- The rows that a forced refresh under way has still to put in anew. -/
def restForced (c : ThreadListController κ) : List Nat :=
  c.idle.flatMap fun
    | .model generation work =>
      if generation = c.modelUpdateGeneration then work.forcedRest else []
    | .parked _ _ _ _ _ => []

theorem clearing_iff :
    c.clearing = true ↔
      ∃ work, .model c.modelUpdateGeneration work ∈ c.idle ∧ work.clearing = true := underWay_iff

theorem mem_restForced {row : Nat} :
    row ∈ c.restForced ↔
      ∃ work, .model c.modelUpdateGeneration work ∈ c.idle ∧ row ∈ work.forcedRest := by
  rw [restForced, List.mem_flatMap]
  constructor
  · rintro ⟨callback, hmem, hrow⟩
    cases callback with
    | model generation work =>
      dsimp only at hrow
      split at hrow
      · next hgeneration =>
        subst hgeneration
        exact ⟨work, hmem, hrow⟩
      · exact absurd hrow List.not_mem_nil
    | parked => exact absurd hrow List.not_mem_nil
  · rintro ⟨work, hmem, hrow⟩
    refine ⟨_, hmem, ?_⟩
    show row ∈ if c.modelUpdateGeneration = c.modelUpdateGeneration then work.forcedRest else []
    rwa [if_pos rfl]

/-- Some callback will put in the row anew, or remove it. -/
def Covers (c : ThreadListController κ) (row : Nat) : Prop :=
  c.clearing = true ∨ row ∈ c.restForced ∨
    ∃ snapshot indices, row ∈ indices ∧ row < snapshot.len ∧
      .parked c.refreshRequestGeneration c.modelUpdateGeneration snapshot indices true ∈ c.idle

/-! ## The objects that stay -/

/-- An object that was there before is where it was. -/
def StaysPut (c c' : ThreadListController κ) : Prop :=
  ∀ (row : Nat) (item : ModelItem), c'.model[row]? = some item → item.identity < c.nextIdentity →
    c.model[row]? = some item

theorem StaysPut.refl (c : ThreadListController κ) : StaysPut c c := fun _ _ h _ => h

theorem StaysPut.trans {c'' : ThreadListController κ} (h : StaysPut c c') (h' : StaysPut c' c'')
    (hidentity : c.nextIdentity ≤ c'.nextIdentity) : StaysPut c c'' := by
  intro row item hitem hold
  have hmiddle := h' row item hitem (Nat.lt_of_lt_of_le hold hidentity)
  exact h row item hmiddle hold

theorem staysPut_splice (position : Nat) (token : ThreadToken) :
    StaysPut c (c.splice position token) := by
  intro row item hitem hold
  rw [splice_model, List.getElem?_set] at hitem
  split at hitem
  · split at hitem
    · obtain rfl := Option.some.inj hitem
      exact absurd hold (Nat.lt_irrefl _)
    · exact absurd hitem (by simp)
  · exact hitem

theorem staysPut_append (tokens : List ThreadToken) : StaysPut c (c.append tokens) := by
  intro row item hitem hold
  rw [append_model, List.getElem?_append] at hitem
  split at hitem
  · exact hitem
  · have hnew := (newItems_identity (List.mem_of_getElem? hitem)).1
    omega

theorem staysPut_refreshRow (snapshot : ThreadModelSnapshot) (force : Bool) (index : Nat) :
    StaysPut c (refreshRow snapshot force c index) := by
  unfold refreshRow
  split
  · split
    · exact staysPut_splice _ _
    · exact .refl c
  · exact .refl c

theorem staysPut_refreshRows (snapshot : ThreadModelSnapshot) (force : Bool)
    (indices : List Nat) : StaysPut c (indices.foldl (refreshRow snapshot force) c) := by
  induction indices generalizing c with
  | nil => exact .refl c
  | cons index indices ih =>
    exact (staysPut_refreshRow snapshot force index).trans ih
      (rowsChanged_refreshRow snapshot force index).nextIdentity

/-- A forced refresh leaves none of the objects of its rows. -/
theorem refreshRows_forced {snapshot : ThreadModelSnapshot} {indices : List Nat} {row : Nat}
    {item : ModelItem} (hrow : row ∈ indices)
    (hitem : (indices.foldl (refreshRow snapshot true) c).model[row]? = some item) :
    c.nextIdentity ≤ item.identity := by
  induction indices generalizing c with
  | nil => exact absurd hrow List.not_mem_nil
  | cons index indices ih =>
    have hnext := (rowsChanged_refreshRow (c := c) snapshot true index).nextIdentity
    by_cases hrest : row ∈ indices
    · exact Nat.le_trans hnext (ih hrest hitem)
    · obtain rfl : row = index := (List.mem_cons.1 hrow).resolve_right hrest
      by_contra hold
      have hfirst := staysPut_refreshRows snapshot true indices row item hitem (by omega)
      -- the first row has just been put in anew, or there is none
      unfold refreshRow at hfirst
      split at hfirst
      · next hlen =>
        rw [if_pos (by rfl), splice_model, List.getElem?_set_self hlen] at hfirst
        obtain rfl := Option.some.inj hfirst
        exact hold (Nat.le_refl _)
      · next hlen =>
        rw [List.getElem?_eq_none (Nat.le_of_not_lt hlen)] at hfirst
        exact absurd hfirst (by simp)

theorem staysPut_runAdditions (snapshot : ThreadModelSnapshot)
    (budget nextAdd endAdd nextRefresh refreshEnd : Nat) (complete : Option κ) :
    StaysPut c (c.runAdditions snapshot budget nextAdd endAdd nextRefresh refreshEnd
      complete).1 := by
  unfold runAdditions
  dsimp only
  split
  · exact staysPut_append _
  · exact (staysPut_append _).trans (staysPut_refreshRows _ _ _)
      (rowsChanged_append _).nextIdentity

/-- What a run of a callback leaves of the older objects, and what it has then still to do: a
callback that clears the model is not at its end, another one has moved nothing and goes on to the
forced rows that are left. -/
theorem runWork_old {work : ModelWork κ} {rest : Option (ModelWork κ)}
    (h : c.runWork work = (c', rest)) {row : Nat} {item : ModelItem}
    (hitem : c'.model[row]? = some item) (hold : item.identity < c.nextIdentity) :
    (work.clearing = true → ∃ left, rest = some left ∧ left.clearing = true) ∧
      (work.clearing = false → c.model[row]? = some item ∧
        (row ∈ work.forcedRest → ∃ left, rest = some left ∧ row ∈ left.forcedRest)) := by
  cases work with
  | status token =>
    refine ⟨fun _ => ?_, fun hclear => absurd hclear (by simp [ModelWork.clearing])⟩
    simp only [runWork, runStatus] at h
    split at h
    · obtain ⟨-, rfl⟩ := Prod.mk.inj h
      exact ⟨_, rfl, rfl⟩
    · next hempty =>
      -- no row was left, so the only object is new
      obtain ⟨rfl, -⟩ := Prod.mk.inj h
      have hmodel : c.model = [] := by
        rw [← List.length_eq_zero_iff]
        unfold threadModelRowsPerUpdate at hempty
        omega
      rw [append_model, hmodel] at hitem
      have hnew := (newItems_identity (List.mem_of_getElem? hitem)).1
      omega
  | refresh snapshot indices force =>
    refine ⟨fun hclear => absurd hclear (by simp [ModelWork.clearing]), fun _ => ?_⟩
    obtain ⟨rfl, rfl⟩ := Prod.mk.inj h
    refine ⟨staysPut_refreshRows _ _ _ row item hitem hold, fun hrow => ?_⟩
    cases force with
    | false => exact absurd hrow List.not_mem_nil
    | true =>
      have hrow : row ∈ indices := hrow
      rw [← List.take_append_drop threadModelRowsPerUpdate indices] at hrow
      rcases List.mem_append.1 hrow with hrow | hrow
      · have hnew := refreshRows_forced hrow hitem
        omega
      · have hleft : ¬ (indices.drop threadModelRowsPerUpdate).isEmpty = true := by
          rw [List.isEmpty_iff]
          exact List.ne_nil_of_mem hrow
        rw [if_neg hleft]
        exact ⟨_, rfl, hrow⟩
  | update snapshot removing nextAdd endAdd nextRefresh refreshEnd complete =>
    cases removing with
    | false =>
      refine ⟨fun hclear => absurd hclear (by simp [ModelWork.clearing]), fun _ => ⟨?_, ?_⟩⟩
      · have hadded := staysPut_runAdditions (c := c) snapshot threadModelRowsPerUpdate nextAdd
          endAdd nextRefresh refreshEnd complete row item
        have hc' : (c.runAdditions snapshot threadModelRowsPerUpdate nextAdd endAdd nextRefresh
            refreshEnd complete).1 = c' := congrArg Prod.fst h
        rw [hc'] at hadded
        exact hadded hitem hold
      · intro hrow
        exact absurd hrow List.not_mem_nil
    | true =>
      refine ⟨fun _ => ?_, fun hclear => absurd hclear (by simp [ModelWork.clearing])⟩
      simp only [runWork, runUpdate, if_true] at h
      split at h
      · next hempty =>
        -- the last row is gone, so what is there now was added
        have hadded := staysPut_runAdditions
          (c := c.removeFront (min c.model.length threadModelRowsPerUpdate)) snapshot
          (threadModelRowsPerUpdate - min c.model.length threadModelRowsPerUpdate) nextAdd
          endAdd nextRefresh refreshEnd complete row item
        rw [h] at hadded
        have hnone := hadded hitem hold
        rw [List.isEmpty_iff.1 hempty] at hnone
        exact absurd hnone (by simp)
      · obtain ⟨-, rfl⟩ := Prod.mk.inj h
        exact ⟨_, rfl, rfl⟩

/-! ## What covers a row -/

/-- The change under way of a state in which nothing else has changed but rows. -/
theorem covers_of_goesOn {k row : Nat} {work left : ModelWork κ} {rows : ThreadListController κ}
    (hnumbered : c.Numbered) (hk : c.idle[k]? = some (.model c.modelUpdateGeneration work))
    (hwork : c.runWork work = (rows, some left)) {item : ModelItem}
    (hitem : rows.model[row]? = some item) (hold : item.identity < c.nextIdentity)
    (hcovers : c.model[row]? = some item → c.Covers row) :
    Covers { rows with idle := rows.idle.set k (.model c.modelUpdateGeneration left) } row := by
  have hrows : RowsChanged c rows := by
    have hrows := rowsChanged_runWork (c := c) work
    rwa [hwork] at hrows
  have hplace : k < rows.idle.length := by
    rw [hrows.idle]
    exact (List.getElem?_eq_some_iff.1 hk).1
  have hleft : .model rows.modelUpdateGeneration left ∈
      rows.idle.set k (.model c.modelUpdateGeneration left) := by
    rw [hrows.modelUpdateGeneration]
    exact List.mem_set hplace _
  obtain ⟨hclears, hstays⟩ := runWork_old hwork hitem hold
  -- Either the change still clears the row, or it has rewritten the row or has it before it.
  cases hclearing : work.clearing with
  | true =>
    obtain ⟨left', hsome, hleft'⟩ := hclears hclearing
    obtain rfl := Option.some.inj hsome
    exact Or.inl (clearing_iff.2 ⟨left, hleft, hleft'⟩)
  | false =>
    obtain ⟨hbefore, hforced⟩ := hstays hclearing
    rcases hcovers hbefore with hclear | hrest | ⟨snapshot, indices, hindex, hlen, hparked⟩
    · obtain ⟨work', hmem, hclear⟩ := clearing_iff.1 hclear
      obtain rfl := hnumbered.work_unique hk hmem
      exact absurd hclear (by rw [hclearing]; exact Bool.false_ne_true)
    · obtain ⟨work', hmem, hrest⟩ := mem_restForced.1 hrest
      obtain rfl := hnumbered.work_unique hk hmem
      obtain ⟨left', hsome, hleft'⟩ := hforced hrest
      obtain rfl := Option.some.inj hsome
      exact Or.inr (Or.inl (mem_restForced.2 ⟨left, hleft, hleft'⟩))
    · refine Or.inr (Or.inr ⟨snapshot, indices, hindex, hlen, ?_⟩)
      show .parked rows.refreshRequestGeneration rows.modelUpdateGeneration snapshot indices true ∈
        rows.idle.set k _
      rw [hrows.refreshRequestGeneration, hrows.modelUpdateGeneration, hrows.idle]
      obtain ⟨before, after, hidle, -, hset⟩ := exists_around hk
      rw [hset]
      rw [hidle] at hparked
      rcases List.mem_append.1 hparked with hparked | hparked
      · exact List.mem_append_left _ hparked
      · rcases List.mem_cons.1 hparked with hparked | hparked
        · exact absurd hparked (by simp)
        · exact List.mem_append_right _ (List.mem_cons_of_mem _ hparked)

/-- A callback that goes takes with it what it covered. -/
theorem Covers.erase {k row : Nat} {callback : IdleCallback κ}
    (hk : c.idle[k]? = some callback) {busy : Bool} (h : c.Covers row)
    (hmodel : ∀ work, callback = .model c.modelUpdateGeneration work →
      work.clearing = false ∧ row ∉ work.forcedRest)
    (hparked : ∀ snapshot indices, callback ≠
      .parked c.refreshRequestGeneration c.modelUpdateGeneration snapshot indices true) :
    Covers { c with busy := busy, idle := c.idle.eraseIdx k } row := by
  obtain ⟨before, after, hidle, herase, -⟩ := exists_around hk
  have hother : ∀ callback', callback' ∈ c.idle → callback' ≠ callback →
      callback' ∈ c.idle.eraseIdx k := by
    intro callback' hmem hne
    rw [herase]
    rw [hidle] at hmem
    rcases List.mem_append.1 hmem with hmem | hmem
    · exact List.mem_append_left _ hmem
    · exact List.mem_append_right _ ((List.mem_cons.1 hmem).resolve_left hne)
  rcases h with hclear | hrest | ⟨snapshot, indices, hindex, hlen, hmem⟩
  · obtain ⟨work, hmem, hclear⟩ := clearing_iff.1 hclear
    refine Or.inl (clearing_iff.2 ⟨work, hother _ hmem ?_, hclear⟩)
    rintro rfl
    rw [(hmodel work rfl).1] at hclear
    exact Bool.false_ne_true hclear
  · obtain ⟨work, hmem, hrest⟩ := mem_restForced.1 hrest
    refine Or.inr (Or.inl (mem_restForced.2 ⟨work, hother _ hmem ?_, hrest⟩))
    rintro rfl
    exact (hmodel work rfl).2 hrest
  · exact Or.inr (Or.inr ⟨snapshot, indices, hindex, hlen,
      hother _ hmem (hparked snapshot indices).symm⟩)

/-- What covers a row in a list that is not busy is a waiting refresh. -/
theorem Covers.parked_of_not_busy {row : Nat} (h : c.Covers row) (hnumbered : c.Numbered)
    (hbusy : c.busy = false) :
    ∃ snapshot indices, row ∈ indices ∧ row < snapshot.len ∧
      .parked c.refreshRequestGeneration c.modelUpdateGeneration snapshot indices true ∈
        c.idle := by
  rcases h with hclear | hrest | hparked
  · obtain ⟨work, hmem, -⟩ := clearing_iff.1 hclear
    exact absurd hmem (hnumbered.work_not_mem hbusy work)
  · obtain ⟨work, hmem, -⟩ := mem_restForced.1 hrest
    exact absurd hmem (hnumbered.work_not_mem hbusy work)
  · exact hparked

/-- A forced refresh whose turn has come covers its rows, or has put them in anew. -/
theorem refreshRowsReady_forced {snapshot : ThreadModelSnapshot} {indices : List Nat} {row : Nat}
    (hindex : row ∈ indices) (hlen : row < snapshot.len) {item : ModelItem}
    (hitem : (c.refreshRowsReady snapshot indices true).model[row]? = some item)
    (hold : item.identity < c.nextIdentity) :
    (c.refreshRowsReady snapshot indices true).Covers row := by
  have hrow : row ∈ indices.filter (· < snapshot.len) :=
    List.mem_filter.2 ⟨hindex, decide_eq_true hlen⟩
  unfold refreshRowsReady at hitem ⊢
  split
  · exact Or.inr (Or.inl (mem_restForced.2 ⟨_, startWork_mem _, hrow⟩))
  · next hfew =>
    rw [if_neg hfew] at hitem
    have hnew := refreshRows_forced hrow hitem
    omega

theorem nextIdentity_le_refreshRowsReady (snapshot : ThreadModelSnapshot) (indices : List Nat)
    (force : Bool) :
    c.nextIdentity ≤ (c.refreshRowsReady snapshot indices force).nextIdentity := by
  unfold refreshRowsReady
  split
  · exact Nat.le_refl _
  · exact (rowsChanged_refreshRows _ _ _).nextIdentity

theorem staysPut_refreshRowsReady (snapshot : ThreadModelSnapshot) (indices : List Nat)
    (force : Bool) : StaysPut c (c.refreshRowsReady snapshot indices force) := by
  unfold refreshRowsReady
  split
  · exact fun row item hitem _ => hitem
  · exact staysPut_refreshRows _ _ _

end ThreadListController

/-! ## Runs -/

/-- The thread list, with the objects that forced refreshes were to replace: an object is
`awaited` from the call on. -/
structure WatchedThreadList (κ : Type) where
  list : ThreadListController κ
  awaited : List Nat
  deriving DecidableEq, Repr

namespace WatchedThreadList

open ThreadListController

variable {κ : Type} {w w' : WatchedThreadList κ}

/-- The thread list before any call. -/
def new : WatchedThreadList κ where
  list := .new
  awaited := []

/-- The objects that a call asks to replace. -/
def asked (w : WatchedThreadList κ) : ThreadListEvent κ → List Nat
  | .refreshRows _ indices true =>
    indices.filterMap fun index => w.list.model[index]?.map ModelItem.identity
  | _ => []

/-- One call, or one run of an idle callback. -/
def step (w : WatchedThreadList κ) (event : ThreadListEvent κ) :
    Option (WatchedThreadList κ) :=
  (w.list.step event).map fun list => { list, awaited := w.awaited ++ w.asked event }

/-- The rows whose objects are still the ones that were to be replaced. -/
def awaitedRows (w : WatchedThreadList κ) : List Nat :=
  (List.range w.list.model.length).filter fun row =>
    w.list.model[row]?.any fun item => item.identity ∈ w.awaited

theorem mem_awaitedRows {row : Nat} :
    row ∈ w.awaitedRows ↔
      ∃ item, w.list.model[row]? = some item ∧ item.identity ∈ w.awaited := by
  rw [awaitedRows, List.mem_filter, List.mem_range]
  constructor
  · rintro ⟨hrow, hany⟩
    rw [List.getElem?_eq_getElem hrow] at hany ⊢
    exact ⟨_, rfl, of_decide_eq_true hany⟩
  · rintro ⟨item, hitem, hawaited⟩
    refine ⟨(List.getElem?_eq_some_iff.1 hitem).1, ?_⟩
    rw [hitem]
    exact decide_eq_true hawaited

/-- The call leaves alone what forced refreshes wait for. A later refresh leaves it to a change
that removes every row, to a forced refresh under way, or is itself forced and names its rows; an
appended page and a bare cancellation find nothing waiting. A forced refresh names rows of its
snapshot. -/
def Spares (w : WatchedThreadList κ) : ThreadListEvent κ → Prop
  | .refreshRows snapshot indices force =>
    (force = true → ∀ index ∈ indices, index < snapshot.len) ∧
      (w.list.clearing = true ∨
        ∀ row ∈ w.awaitedRows, row ∈ w.list.restForced ∨ (force = true ∧ row ∈ indices))
  | .applyModelUpdate _ (.append _ _) _ => w.awaitedRows = []
  | .cancelModelUpdate => w.awaitedRows = []
  | .applyModelUpdate _ .replace _ => True
  | .setStatusRow _ _ => True
  | .idle _ => True

instance (event : ThreadListEvent κ) : Decidable (w.Spares event) := by
  cases event with
  | applyModelUpdate snapshot update complete =>
    cases update <;> unfold Spares <;> infer_instance
  | _ => unfold Spares; infer_instance

/-- Each object that was to be replaced has been, or something covers its row. -/
structure Kept (w : WatchedThreadList κ) : Prop where
  numbered : w.list.Numbered
  made : ∀ identity ∈ w.awaited, identity < w.list.nextIdentity
  covered : ∀ row ∈ w.awaitedRows, w.list.Covers row

theorem Kept.new : Kept (new : WatchedThreadList κ) where
  numbered := .new
  made := fun _ h => absurd h List.not_mem_nil
  covered := fun _ h => absurd h List.not_mem_nil

/-- The list changes and nothing new is asked for. -/
theorem Kept.change (h : Kept w) {list : ThreadListController κ} (hnumbered : list.Numbered)
    (hidentity : w.list.nextIdentity ≤ list.nextIdentity)
    (hcovered : ∀ row item, list.model[row]? = some item → item.identity < w.list.nextIdentity →
      (w.list.model[row]? = some item → w.list.Covers row) → list.Covers row) :
    Kept { list, awaited := w.awaited ++ [] } where
  numbered := hnumbered
  made := by
    intro identity hmem
    rw [List.append_nil] at hmem
    exact Nat.lt_of_lt_of_le (h.made identity hmem) hidentity
  covered := by
    intro row hrow
    obtain ⟨item, hitem, hawaited⟩ := mem_awaitedRows.1 hrow
    rw [List.append_nil] at hawaited
    refine hcovered row item hitem (h.made _ hawaited) fun hbefore => ?_
    exact h.covered row (mem_awaitedRows.2 ⟨item, hbefore, hawaited⟩)

/-- The callbacks change while nothing is awaited. -/
theorem Kept.change_of_none (h : Kept w) (hnone : w.awaitedRows = [])
    {list : ThreadListController κ} (hnumbered : list.Numbered)
    (hidentity : list.nextIdentity = w.list.nextIdentity) (hmodel : list.model = w.list.model) :
    Kept { list, awaited := w.awaited ++ [] } where
  numbered := hnumbered
  made := by
    intro identity hmem
    rw [List.append_nil] at hmem
    rw [hidentity]
    exact h.made identity hmem
  covered := by
    intro row hrow
    have hrow : row ∈ w.awaitedRows := by
      rw [mem_awaitedRows] at hrow ⊢
      rwa [hmodel, List.append_nil] at hrow
    rw [hnone] at hrow
    exact absurd hrow List.not_mem_nil

/-- A callback runs. -/
theorem Kept.idle (h : Kept w) (hroom : w.list.Room) {k : Nat}
    {list : ThreadListController κ} {completion : Option (κ × Bool)}
    (hrun : IdleRun w.list k list completion) : Kept { list, awaited := w.awaited ++ [] } := by
  have hnumbered := h.numbered.idleRun hroom.1 hrun
  cases hrun with
  | stale callback hk hlive =>
    refine h.change hnumbered (Nat.le_refl _) fun row item hitem hold hcovers => ?_
    refine (hcovers hitem).erase hk ?_ ?_
    · rintro work rfl
      exact absurd rfl hlive
    · rintro snapshot indices rfl
      exact hlive ⟨rfl, rfl⟩
  | goesOn work rest rows hk hwork =>
    have hrows : RowsChanged w.list rows := by
      have hrows := rowsChanged_runWork (c := w.list) work
      rwa [hwork] at hrows
    refine h.change hnumbered hrows.nextIdentity fun row item hitem hold hcovers => ?_
    exact covers_of_goesOn h.numbered hk hwork hitem hold hcovers
  | finishes work rows hk hwork =>
    have hrows : RowsChanged w.list rows := by
      have hrows := rowsChanged_runWork (c := w.list) work
      rwa [hwork] at hrows
    refine h.change hnumbered hrows.nextIdentity fun row item hitem hold hcovers => ?_
    -- the callback is at its end, so it had nothing left to do for an object that stays
    obtain ⟨hclears, hstays⟩ := runWork_old hwork hitem hold
    have hclearing : work.clearing = false := by
      rw [← Bool.not_eq_true]
      intro hclearing
      obtain ⟨left, hsome, -⟩ := hclears hclearing
      exact absurd hsome (by simp)
    obtain ⟨hbefore, hforced⟩ := hstays hclearing
    have herased : Covers { w.list with busy := false, idle := w.list.idle.eraseIdx k } row := by
      refine (hcovers hbefore).erase hk ?_ (by simp)
      intro work' hwork'
      obtain rfl := (IdleCallback.model.inj hwork').2
      refine ⟨hclearing, fun hrow => ?_⟩
      obtain ⟨left, hsome, -⟩ := hforced hrow
      exact absurd hsome (by simp)
    unfold Covers clearing underWay restForced at herased ⊢
    rw [hrows.idle, hrows.modelUpdateGeneration, hrows.refreshRequestGeneration]
    exact herased
  | waits =>
    refine h.change hnumbered (Nat.le_refl _) fun row item hitem _ hcovers => hcovers hitem
  | refreshes snapshot indices force hk hbusy =>
    have hnext := nextIdentity_le_refreshRowsReady
      (c := { w.list with idle := w.list.idle.eraseIdx k }) snapshot indices force
    refine h.change hnumbered hnext fun row item hitem hold hcovers => ?_
    have hbefore := staysPut_refreshRowsReady snapshot indices force row item hitem hold
    -- nothing else covers the row: the list is not busy, and no other refresh is the newest
    obtain ⟨snapshot', indices', hindex, hlen, hmem⟩ :=
      (hcovers hbefore).parked_of_not_busy h.numbered hbusy
    obtain ⟨rfl, rfl, rfl⟩ : snapshot' = snapshot ∧ indices' = indices ∧ true = force := by
      obtain ⟨before, after, hidle, herase, -⟩ := exists_around hk
      have hothers : .parked w.list.refreshRequestGeneration w.list.modelUpdateGeneration snapshot'
          indices' true ∉ w.list.idle.eraseIdx k := h.numbered.parked_not_mem_erase hk
      rw [herase] at hothers
      rw [hidle] at hmem
      rcases List.mem_append.1 hmem with hmem | hmem
      · exact absurd (List.mem_append_left _ hmem) hothers
      · rcases List.mem_cons.1 hmem with hmem | hmem
        · obtain ⟨-, -, hsnapshot, hindices, hforce⟩ := IdleCallback.parked.inj hmem
          exact ⟨hsnapshot, hindices, hforce⟩
        · exact absurd (List.mem_append_right _ hmem) hothers
    exact refreshRowsReady_forced hindex hlen hitem hold

/-- The rows whose objects a call asks to replace. -/
theorem awaited_or_named (h : w.list.Distinct) {snapshot : ThreadModelSnapshot}
    {indices : List Nat} {force : Bool} {row : Nat} {item : ModelItem}
    (hitem : w.list.model[row]? = some item)
    (hmem : item.identity ∈ w.awaited ++ w.asked (.refreshRows snapshot indices force)) :
    row ∈ w.awaitedRows ∨ (force = true ∧ row ∈ indices) := by
  rcases List.mem_append.1 hmem with hmem | hmem
  · exact Or.inl (mem_awaitedRows.2 ⟨item, hitem, hmem⟩)
  · cases force with
    | false => exact absurd hmem List.not_mem_nil
    | true =>
      obtain ⟨index, hindex, hidentity⟩ := List.mem_filterMap.1 hmem
      obtain ⟨item', hitem', hidentity⟩ := Option.map_eq_some_iff.1 hidentity
      -- an object is in one place only
      have hplace : row = index := by
        have hrow : (w.list.model.map ModelItem.identity)[row]? = some item.identity := by
          rw [List.getElem?_map, hitem]
          rfl
        have hindex' : (w.list.model.map ModelItem.identity)[index]? = some item.identity := by
          rw [List.getElem?_map, hitem', ← hidentity]
          rfl
        obtain ⟨hrow, hrow'⟩ := List.getElem?_eq_some_iff.1 hrow
        obtain ⟨hindex, hindex''⟩ := List.getElem?_eq_some_iff.1 hindex'
        exact (h.nodup.getElem_inj_iff).1 (hrow'.trans hindex''.symm)
      rw [hplace]
      exact Or.inr ⟨rfl, hindex⟩

/-- A refresh waits: what is under way goes on. -/
theorem covers_park {c : ThreadListController κ} {row : Nat} {callback : IdleCallback κ}
    {number : Nat} (h : c.clearing = true ∨ row ∈ c.restForced) :
    Covers { c with refreshRequestGeneration := number, idle := c.idle ++ [callback] } row := by
  rcases h with h | h
  · obtain ⟨work, hmem, hwork⟩ := clearing_iff.1 h
    exact Or.inl (clearing_iff.2 ⟨work, List.mem_append_left _ hmem, hwork⟩)
  · obtain ⟨work, hmem, hwork⟩ := mem_restForced.1 h
    exact Or.inr (Or.inl (mem_restForced.2 ⟨work, List.mem_append_left _ hmem, hwork⟩))

theorem staysPut_refreshRows (c : ThreadListController κ) (snapshot : ThreadModelSnapshot)
    (indices : List Nat) (force : Bool) : StaysPut c (c.refreshRows snapshot indices force) := by
  unfold refreshRows
  dsimp only
  split
  · exact fun row item hitem _ => hitem
  · intro row item hitem hold
    exact staysPut_refreshRowsReady (c := { c with
      refreshRequestGeneration := saturatingSucc c.refreshRequestGeneration }) snapshot indices
        force row item hitem hold

theorem nextIdentity_le_refreshRows (c : ThreadListController κ) (snapshot : ThreadModelSnapshot)
    (indices : List Nat) (force : Bool) :
    c.nextIdentity ≤ (c.refreshRows snapshot indices force).nextIdentity := by
  unfold refreshRows
  dsimp only
  split
  · exact Nat.le_refl _
  · exact nextIdentity_le_refreshRowsReady (c := { c with
      refreshRequestGeneration := saturatingSucc c.refreshRequestGeneration }) _ _ _

/-- A refresh is asked for. -/
theorem Kept.refreshRows (h : Kept w) (hroom : w.list.Room) {snapshot : ThreadModelSnapshot}
    {indices : List Nat} {force : Bool}
    (hspares : w.Spares (.refreshRows snapshot indices force)) :
    Kept
      { list := w.list.refreshRows snapshot indices force
        awaited := w.awaited ++ w.asked (.refreshRows snapshot indices force) } := by
  obtain ⟨hnames, hspares⟩ := hspares
  have hmade : ∀ identity ∈ w.awaited ++ w.asked (.refreshRows snapshot indices force),
      identity < w.list.nextIdentity := by
    intro identity hmem
    rcases List.mem_append.1 hmem with hmem | hmem
    · exact h.made identity hmem
    · cases force with
      | false => exact absurd hmem List.not_mem_nil
      | true =>
        obtain ⟨index, -, hidentity⟩ := List.mem_filterMap.1 hmem
        obtain ⟨item, hitem, rfl⟩ := Option.map_eq_some_iff.1 hidentity
        exact h.numbered.distinct.made item (List.mem_of_getElem? hitem)
  refine ⟨h.numbered.refreshRows hroom snapshot indices force, fun identity hmem =>
    Nat.lt_of_lt_of_le (hmade identity hmem) (nextIdentity_le_refreshRows _ _ _ _), ?_⟩
  intro row hrow
  obtain ⟨item, hitem, hawaited⟩ := mem_awaitedRows.1 hrow
  have hold := hmade _ hawaited
  have hbefore := staysPut_refreshRows _ _ _ _ row item hitem hold
  have hcase : (w.list.clearing = true ∨ row ∈ w.list.restForced) ∨
      (force = true ∧ row ∈ indices) := by
    rcases awaited_or_named h.numbered.distinct hbefore hawaited with hrow | hnamed
    · rcases hspares with hclear | hspares
      · exact Or.inl (Or.inl hclear)
      · exact (hspares row hrow).imp_left Or.inr
    · exact Or.inr hnamed
  unfold ThreadListController.refreshRows at hitem ⊢
  dsimp only at hitem ⊢
  cases hbusy : w.list.busy with
  | true =>
    rw [if_pos rfl]
    rcases hcase with hcase | ⟨rfl, hindex⟩
    · exact covers_park hcase
    · exact Or.inr (Or.inr ⟨snapshot, indices, hindex, hnames rfl row hindex,
        List.mem_append_right _ (List.mem_singleton_self _)⟩)
  | false =>
    rw [hbusy] at hitem
    rw [if_neg Bool.false_ne_true] at hitem ⊢
    rcases hcase with hcase | ⟨rfl, hindex⟩
    · -- nothing is under way in a list that is not busy
      rcases hcase with hclear | hrest
      · obtain ⟨work, hmem, -⟩ := clearing_iff.1 hclear
        exact absurd hmem (h.numbered.work_not_mem hbusy work)
      · obtain ⟨work, hmem, -⟩ := mem_restForced.1 hrest
        exact absurd hmem (h.numbered.work_not_mem hbusy work)
    · exact refreshRowsReady_forced hindex (hnames rfl row hindex) hitem hold

/-- One step keeps what forced refreshes wait for. -/
theorem Kept.step (h : Kept w) {event : ThreadListEvent κ} (hroom : w.list.Room)
    (hspares : w.Spares event) (hstep : w.step event = some w') : Kept w' := by
  obtain ⟨list, hlist, rfl⟩ := Option.map_eq_some_iff.1 hstep
  cases event with
  | refreshRows snapshot indices force =>
    obtain rfl := Option.some.inj hlist
    exact h.refreshRows hroom hspares
  | applyModelUpdate snapshot update complete =>
    obtain rfl := Option.some.inj hlist
    have hnumbered := h.numbered.startWork hroom.1 (updateWork snapshot update complete)
    cases update with
    | replace =>
      refine h.change hnumbered (Nat.le_refl _) fun row item _ _ _ => ?_
      exact Or.inl (clearing_iff.2 ⟨_, startWork_mem _, rfl⟩)
    | append start count => exact h.change_of_none hspares hnumbered rfl rfl
  | setStatusRow message spinning =>
    obtain rfl := Option.some.inj hlist
    refine h.change (h.numbered.startWork hroom.1 _) (Nat.le_refl _) fun row item _ _ _ => ?_
    exact Or.inl (clearing_iff.2 ⟨_, startWork_mem _, rfl⟩)
  | cancelModelUpdate =>
    obtain rfl := Option.some.inj hlist
    exact h.change_of_none hspares
      (h.numbered.cancelModelUpdate (Nat.le_of_succ_le hroom.1)) rfl rfl
  | idle k =>
    obtain ⟨⟨list', completion⟩, hrun, rfl⟩ := Option.map_eq_some_iff.1 hlist
    exact h.idle hroom (idleRun_of_runIdle hrun)

open Transition in
/-- **Forced refreshes are carried out.** As long as no call takes away what an earlier forced
refresh waits for, a list at rest holds none of the objects that forced refreshes were to replace.
-/
theorem forced_rows_rebound {trace : List (WatchedThreadList κ × ThreadListEvent κ)}
    (hrun : Run (Steps step) new trace w)
    (hspares : ∀ p ∈ trace, p.1.list.Room ∧ p.1.Spares p.2) (hidle : w.list.Idle) :
    w.awaitedRows = [] := by
  have hkept : Kept w := by
    refine Run.invariant_of_steps (G := fun t e => t.list.Room ∧ t.Spares e)
      (fun t e u ht hspares hstep => ?_) Kept.new hrun hspares
    exact ht.step hspares.1 hspares.2 hstep
  rw [List.eq_nil_iff_forall_not_mem]
  intro row hrow
  -- Whatever covers a row is a callback, and at rest there is none.
  rcases hkept.covered row hrow with hclear | hrest | ⟨snapshot, indices, -, -, hmem⟩
  · obtain ⟨work, hmem, -⟩ := clearing_iff.1 hclear
    exact hidle _ hmem rfl
  · obtain ⟨work, hmem, -⟩ := mem_restForced.1 hrest
    exact hidle _ hmem rfl
  · exact hidle _ hmem ⟨rfl, rfl⟩

/-- A page is appended to two rows, and a changed row is to be shown while it is. -/
def pageWithRefresh : List (ThreadListEvent Unit) :=
  let snapshot : ThreadModelSnapshot := ⟨3, ⟨true, true, true, true, 2⟩⟩
  [.applyModelUpdate { snapshot with len := 2 } .replace none, .idle 0,
    .applyModelUpdate snapshot (.append 2 1) none, .refreshRows snapshot [0] true,
    .idle 0, .idle 0]

theorem forced_rows_rebound_after_page :
    (Transition.exec step new pageWithRefresh).map awaitedRows = some [] := by
  have hidle : (Transition.exec step new pageWithRefresh).all (fun w => w.list.Idle) = true := by
    decide
  cases hend : Transition.exec step new pageWithRefresh with
  | none => exact absurd hend (by decide)
  | some w =>
    rw [hend] at hidle
    have hrows := forced_rows_rebound (Transition.run_of_exec _ hend) (by decide)
      (of_decide_eq_true hidle)
    show some w.awaitedRows = some []
    rw [hrows]

/-- The same, and the selection is refreshed directly after the changed row. -/
def pageWithRefreshes : List (ThreadListEvent Unit) :=
  let snapshot : ThreadModelSnapshot := ⟨3, ⟨true, true, true, true, 2⟩⟩
  [.applyModelUpdate { snapshot with len := 2 } .replace none, .idle 0,
    .applyModelUpdate snapshot (.append 2 1) none, .refreshRows snapshot [0] true,
    .refreshRows snapshot [0, 1, 2] false, .idle 0, .idle 0, .idle 0]

/-- The second refresh takes the place of the first and leaves the changed row as it was: no
callback is left, and the object of the row is still the old one. -/
theorem forced_refresh_dropped_by_selection_refresh :
    (Transition.exec step new pageWithRefreshes).map
      (fun w => (w.list.busy, w.list.idle, w.awaitedRows)) = some (false, [], [0]) := by
  decide

end WatchedThreadList

end Notm.Ui
