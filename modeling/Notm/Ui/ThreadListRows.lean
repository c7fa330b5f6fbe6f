import Notm.Ui.ThreadListCallbacks

/-!
# The rows of the list model

What the callbacks make of the model when each of them was started for a list of `n` threads: an
update that comes to its end leaves one row for each thread, in order; and a refresh changes no
row's place.

* `Advances`, `advances_runWork` — every callback goes on towards the rows it was started for.
* `Tracks` — the newest change, the waiting refresh and the completion, by what they were started
  for.
* `tracks_idleRun` — a run of a callback keeps to the rows of the list.
* `completes_idleRun` — and calls no completion but its own.
-/

namespace Notm.Ui

open Rust

namespace ModelWork

variable {κ : Type}

/-- The callback builds the model, and does not only refresh rows of it. -/
def rebuilding : ModelWork κ → Bool
  | status _ => true
  | refresh _ _ _ => false
  | update _ _ _ _ _ _ _ => true

end ModelWork

namespace ThreadListController

variable {κ : Type} {c c' : ThreadListController κ} {n : Nat}

/-- The threads of the rows, from the first row on. -/
def rowIndices (c : ThreadListController κ) : List (Option Nat) :=
  c.model.map fun item => item.token.index?

/-- One row for each of `n` threads, in order. -/
def Holds (c : ThreadListController κ) (n : Nat) : Prop :=
  c.rowIndices = (List.range n).map some

/-- One row for each of `n` threads, in order; for no thread, no thread row. -/
def ShowsRows (c : ThreadListController κ) (n : Nat) : Prop :=
  if n = 0 then ∀ item ∈ c.model, item.token.index? = none else c.Holds n

instance : Decidable (c.Holds n) := by unfold Holds; infer_instance

instance : Decidable (c.ShowsRows n) := by unfold ShowsRows; infer_instance

/-- The model is being built. -/
def rebuilding (c : ThreadListController κ) : Bool := c.underWay ModelWork.rebuilding

/-- The model has its rows, or is on the way to them. -/
def Whole (c : ThreadListController κ) (n : Nat) : Prop :=
  c.rebuilding = true ∨ c.ShowsRows n

instance : Decidable (c.Whole n) := by unfold Whole; infer_instance

/-! ## Rows -/

theorem Holds.length (h : c.Holds n) : c.model.length = n := by
  have hlength : c.rowIndices.length = ((List.range n).map some).length := congrArg _ h
  rwa [rowIndices, List.length_map, List.length_map, List.length_range] at hlength

theorem holds_zero_iff : c.Holds 0 ↔ c.model = [] := by
  unfold Holds rowIndices
  exact List.map_eq_nil_iff

theorem Holds.shows (h : c.Holds n) : c.ShowsRows n := by
  unfold ShowsRows
  split
  · next hzero =>
    subst hzero
    rw [holds_zero_iff.1 h]
    exact fun item hitem => absurd hitem List.not_mem_nil
  · exact h

/-- The rows that are added follow the rows that are there. -/
theorem Holds.append (h : c.Holds n) (snapshot : ThreadModelSnapshot) (added : Nat) :
    (c.append (rowTokens snapshot n added)).Holds (n + added) := by
  have htokens : (newItems c.nextIdentity (rowTokens snapshot n added)).map
      (fun item => item.token.index?) = (List.range' n added).map some := by
    have hmap : (fun item : ModelItem => item.token.index?) =
        ThreadToken.index? ∘ ModelItem.token := rfl
    rw [hmap, ← List.map_map, newItems_token, rowTokens, List.map_map]
    rfl
  show (c.append (rowTokens snapshot n added)).rowIndices = _
  rw [rowIndices, append_model, List.map_append, htokens]
  have hrows : c.model.map (fun item => item.token.index?) = (List.range n).map some := h
  have hrange : List.range' 0 n ++ List.range' (0 + n) added = List.range' 0 (n + added) :=
    List.range'_append_1
  rw [Nat.zero_add] at hrange
  rw [hrows, ← List.map_append, List.range_eq_range', List.range_eq_range', hrange]

theorem refreshRow_rowIndices (snapshot : ThreadModelSnapshot) (force : Bool) (index : Nat) :
    (refreshRow snapshot force c index).rowIndices = c.rowIndices ∨
      (refreshRow snapshot force c index).rowIndices = c.rowIndices.set index (some index) := by
  unfold refreshRow
  split
  · split
    · right
      rw [rowIndices, splice_model, List.map_set]
      rfl
    · exact Or.inl rfl
  · exact Or.inl rfl

/-- A refreshed row has the index of its place. -/
theorem Holds.refreshRow (h : c.Holds n) (snapshot : ThreadModelSnapshot) (force : Bool)
    (index : Nat) : (refreshRow snapshot force c index).Holds n := by
  rcases refreshRow_rowIndices (c := c) snapshot force index with hrows | hrows
  · rw [Holds, hrows]
    exact h
  · rw [Holds, hrows, h]
    apply List.ext_getElem?
    intro i
    rw [List.getElem?_set]
    split
    · next hindex =>
      subst hindex
      split
      · next hlt =>
        rw [List.length_map, List.length_range] at hlt
        rw [List.getElem?_map, List.getElem?_range hlt]
        rfl
      · next hlt =>
        rw [List.getElem?_eq_none (Nat.le_of_not_lt hlt)]
    · rfl

theorem Holds.refreshRows (h : c.Holds n) (snapshot : ThreadModelSnapshot) (force : Bool)
    (indices : List Nat) : (indices.foldl (ThreadListController.refreshRow snapshot force) c).Holds
      n := by
  induction indices generalizing c with
  | nil => exact h
  | cons index indices ih => exact ih (h.refreshRow snapshot force index)

/-- Refreshing rows of the threads leaves the rows as they are. -/
theorem ShowsRows.refreshRows (h : c.ShowsRows n) {indices : List Nat}
    (hindices : ∀ index ∈ indices, index < n) (snapshot : ThreadModelSnapshot) (force : Bool) :
    (indices.foldl (ThreadListController.refreshRow snapshot force) c).ShowsRows n := by
  by_cases hzero : n = 0
  · have hnone : indices = [] := by
      rw [List.eq_nil_iff_forall_not_mem]
      intro index hindex
      have hlt := hindices index hindex
      omega
    rw [hnone]
    exact h
  · unfold ShowsRows at h ⊢
    rw [if_neg hzero] at h ⊢
    exact h.refreshRows snapshot force indices

/-! ## The way to the rows -/

/-- What a callback that was started for `n` threads has made of the model. -/
def Progress (c : ThreadListController κ) (n : Nat) : ModelWork κ → Prop
  | .status token => n = 0 ∧ token.index? = none
  | .refresh _ rest _ => ∀ index ∈ rest, index < n
  | .update _ removing nextAdd endAdd _ _ _ =>
    endAdd = n ∧ nextAdd ≤ n ∧ if removing then nextAdd = 0 else c.Holds nextAdd

/-- A run of a callback: it goes on towards the same rows, or the rows are there. -/
structure Advances (c c' : ThreadListController κ) (n : Nat) (work : ModelWork κ)
    (rest : Option (ModelWork κ)) : Prop where
  goesOn : ∀ left, rest = some left → c'.Progress n left ∧ left.rebuilding = work.rebuilding ∧
    left.complete = work.complete
  ends : rest = none → work.rebuilding = true → c'.ShowsRows n
  keeps : work.rebuilding = false → c.ShowsRows n → c'.ShowsRows n

theorem advances_runStatus {token : ThreadToken} (h : c.Progress n (.status token)) :
    Advances c (c.runStatus token).1 n (.status token) (c.runStatus token).2 := by
  obtain ⟨rfl, htoken⟩ := h
  unfold runStatus
  dsimp only
  split
  · refine ⟨fun left hleft => ?_, fun hnone => ?_, fun hwork => ?_⟩
    · obtain rfl := Option.some.inj hleft
      exact ⟨⟨rfl, htoken⟩, rfl, rfl⟩
    · exact absurd hnone (by simp)
    · exact absurd hwork (by simp [ModelWork.rebuilding])
  · next hempty =>
    refine ⟨fun left hleft => absurd hleft (by simp), fun _ _ => ?_, fun hwork => ?_⟩
    · -- the rows are gone, and the status row alone is there
      have hmodel : c.model = [] := by
        rw [← List.length_eq_zero_iff]
        unfold threadModelRowsPerUpdate at hempty
        omega
      show if 0 = 0 then _ else _
      rw [if_pos rfl, append_model, hmodel]
      intro item hitem
      obtain rfl := List.mem_singleton.1 hitem
      exact htoken
    · exact absurd hwork (by simp [ModelWork.rebuilding])

theorem advances_runRefresh {snapshot : ThreadModelSnapshot} {rest : List Nat} {force : Bool}
    (h : c.Progress n (.refresh snapshot rest force)) :
    Advances c (c.runRefresh snapshot rest force).1 n (.refresh snapshot rest force)
      (c.runRefresh snapshot rest force).2 := by
  unfold runRefresh
  dsimp only
  refine ⟨fun left hleft => ?_, fun _ hwork => ?_, fun _ hshows => ?_⟩
  · split at hleft
    · exact absurd hleft (by simp)
    · obtain rfl := Option.some.inj hleft
      exact ⟨fun index hindex => h index (List.mem_of_mem_drop hindex), rfl, rfl⟩
  · exact absurd hwork (by simp [ModelWork.rebuilding])
  · exact hshows.refreshRows (fun index hindex => h index (List.mem_of_mem_take hindex)) _ _

theorem advances_runAdditions {snapshot : ThreadModelSnapshot} {removing : Bool}
    {nextAdd endAdd nextRefresh refreshEnd : Nat} {complete : Option κ} (budget : Nat)
    {start : ThreadListController κ} (hend : endAdd = n) (hadd : nextAdd ≤ n)
    (hholds : c.Holds nextAdd) :
    Advances start
      (c.runAdditions snapshot budget nextAdd endAdd nextRefresh refreshEnd complete).1 n
      (.update snapshot removing nextAdd endAdd nextRefresh refreshEnd complete)
      (c.runAdditions snapshot budget nextAdd endAdd nextRefresh refreshEnd complete).2 := by
  subst hend
  have hadded := hholds.append snapshot (min budget (endAdd - nextAdd))
  unfold runAdditions
  dsimp only
  split
  · refine ⟨fun left hleft => ?_, fun hnone => absurd hnone (by simp),
      fun hwork => absurd hwork (by simp [ModelWork.rebuilding])⟩
    obtain rfl := Option.some.inj hleft
    exact ⟨⟨rfl, by omega, hadded⟩, rfl, rfl⟩
  · next hlast =>
    have hall : nextAdd + min budget (endAdd - nextAdd) = endAdd := by omega
    rw [hall] at hadded ⊢
    have hrefreshed := hadded.refreshRows snapshot false
      (List.range' nextRefresh
        (min (budget - min budget (endAdd - nextAdd)) (refreshEnd - nextRefresh)))
    refine ⟨fun left hleft => ?_, fun _ _ => hrefreshed.shows,
      fun hwork => absurd hwork (by simp [ModelWork.rebuilding])⟩
    split at hleft
    · obtain rfl := Option.some.inj hleft
      exact ⟨⟨rfl, Nat.le_refl _, hrefreshed⟩, rfl, rfl⟩
    · exact absurd hleft (by simp)

theorem advances_runUpdate {snapshot : ThreadModelSnapshot} {removing : Bool}
    {nextAdd endAdd nextRefresh refreshEnd : Nat} {complete : Option κ}
    (h : c.Progress n
      (.update snapshot removing nextAdd endAdd nextRefresh refreshEnd complete)) :
    Advances c
      (c.runUpdate snapshot removing nextAdd endAdd nextRefresh refreshEnd complete).1 n
      (.update snapshot removing nextAdd endAdd nextRefresh refreshEnd complete)
      (c.runUpdate snapshot removing nextAdd endAdd nextRefresh refreshEnd complete).2 := by
  obtain ⟨hend, hadd, hrows⟩ := h
  unfold runUpdate
  dsimp only
  split
  · next hremoving =>
    rw [if_pos hremoving] at hrows
    subst hrows
    split
    · next hempty =>
      exact advances_runAdditions _ hend hadd (holds_zero_iff.2 (List.isEmpty_iff.1 hempty))
    · refine ⟨fun left hleft => ?_, fun hnone => absurd hnone (by simp),
        fun hwork => absurd hwork (by simp [ModelWork.rebuilding])⟩
      obtain rfl := Option.some.inj hleft
      exact ⟨⟨hend, hadd, rfl⟩, rfl, rfl⟩
  · next hremoving =>
    rw [if_neg hremoving] at hrows
    exact advances_runAdditions _ hend hadd hrows

/-- Every callback goes on towards the rows it was started for. -/
theorem advances_runWork {work : ModelWork κ} (h : c.Progress n work) :
    Advances c (c.runWork work).1 n work (c.runWork work).2 := by
  cases work with
  | status token => exact advances_runStatus h
  | refresh snapshot rest force => exact advances_runRefresh h
  | update snapshot removing nextAdd endAdd nextRefresh refreshEnd complete =>
    exact advances_runUpdate h

/-! ## The operations -/

/-- Everything that is the newest of its kind was started for `n` threads. -/
structure Tracks (c : ThreadListController κ) (n : Nat) : Prop where
  work : ∀ work, .model c.modelUpdateGeneration work ∈ c.idle → c.Progress n work
  parked : ∀ snapshot indices force,
    .parked c.refreshRequestGeneration c.modelUpdateGeneration snapshot indices force ∈ c.idle →
      snapshot.len ≤ n

theorem Progress.of_model_eq {work : ModelWork κ} (h : c.Progress n work)
    (hmodel : c'.model = c.model) : c'.Progress n work := by
  cases work with
  | status => exact h
  | refresh => exact h
  | update =>
    unfold Progress Holds rowIndices at h ⊢
    rwa [hmodel]

theorem ShowsRows.of_model_eq (h : c.ShowsRows n) (hmodel : c'.model = c.model) :
    c'.ShowsRows n := by
  unfold ShowsRows Holds rowIndices at h ⊢
  rwa [hmodel]

/-- Nothing of the generation after the next one is there yet. -/
theorem Numbered.model_not_mem (h : c.Numbered) {generation : Nat}
    (hgeneration : c.modelUpdateGeneration < generation) (work : ModelWork κ) :
    .model generation work ∉ c.idle := by
  intro hmem
  have hle := h.modelsLe generation (List.mem_filterMap.2 ⟨_, hmem, rfl⟩)
  omega

/-- A change of the model that is begun is the only one that is tracked. -/
theorem tracks_startWork (h : c.Numbered) (hroom : c.modelUpdateGeneration + 2 ≤ u64Max)
    {work : ModelWork κ} (hwork : c.Progress n work) : (c.startWork work).Tracks n := by
  have hgeneration := startWork_generation hroom work
  have hnew : c.modelUpdateGeneration < (c.startWork work).modelUpdateGeneration := by omega
  constructor
  · intro work' hmem
    rcases List.mem_append.1 hmem with hmem | hmem
    · exact absurd hmem (h.model_not_mem hnew work')
    · obtain rfl := (IdleCallback.model.inj (List.mem_singleton.1 hmem)).2
      exact hwork.of_model_eq rfl
  · intro snapshot indices force hmem
    rcases List.mem_append.1 hmem with hmem | hmem
    · have hle := h.parkedModelLe _ _ _ _ _ hmem
      omega
    · exact absurd (List.mem_singleton.1 hmem) (by simp)

/-- After a cancellation nothing is tracked. -/
theorem tracks_cancelModelUpdate (h : c.Numbered) (hroom : c.modelUpdateGeneration + 1 ≤ u64Max)
    (n : Nat) : c.cancelModelUpdate.Tracks n := by
  have hgeneration : c.cancelModelUpdate.modelUpdateGeneration = c.modelUpdateGeneration + 1 :=
    saturatingSucc_of_lt (by omega)
  constructor
  · intro work hmem
    exact absurd hmem (h.model_not_mem (by omega) work)
  · intro snapshot indices force hmem
    have hle := h.parkedModelLe _ _ _ _ _ hmem
    omega

theorem whole_startWork {work : ModelWork κ} (hwork : work.rebuilding = true) :
    (c.startWork work).Whole n :=
  Or.inl (underWay_iff.2 ⟨work, startWork_mem work, hwork⟩)

/-- In a list that is not busy a refresh changes no row's place. -/
theorem tracks_refreshRowsReady (h : c.Numbered) (hroom : c.modelUpdateGeneration + 2 ≤ u64Max)
    (htracks : c.Tracks n) (hbusy : c.busy = false) {snapshot : ThreadModelSnapshot}
    (hlen : snapshot.len ≤ n) (indices : List Nat) (force : Bool) :
    (c.refreshRowsReady snapshot indices force).Tracks n ∧
      (c.Whole n → (c.refreshRowsReady snapshot indices force).Whole n) := by
  have hindices : ∀ index ∈ indices.filter (· < snapshot.len), index < n := by
    intro index hindex
    exact Nat.lt_of_lt_of_le (of_decide_eq_true (List.mem_filter.1 hindex).2) hlen
  have hshows : c.Whole n → c.ShowsRows n := by
    rintro (hrebuilding | hshows)
    · obtain ⟨work, hmem, -⟩ := underWay_iff.1 hrebuilding
      exact absurd hmem (h.work_not_mem hbusy work)
    · exact hshows
  unfold refreshRowsReady
  split
  · refine ⟨tracks_startWork h hroom hindices, fun hwhole => Or.inr ?_⟩
    exact (hshows hwhole).of_model_eq rfl
  · have hrows := rowsChanged_refreshRows (c := c) snapshot force
      (indices.filter (· < snapshot.len))
    refine ⟨⟨fun work hmem => ?_, fun snapshot' indices' force' hmem => ?_⟩, fun hwhole =>
      Or.inr ((hshows hwhole).refreshRows hindices _ _)⟩
    · have hmem' : .model c.modelUpdateGeneration work ∈ c.idle := by
        rw [← hrows.modelUpdateGeneration, ← hrows.idle]
        exact hmem
      exact absurd hmem' (h.work_not_mem hbusy work)
    · refine htracks.parked snapshot' indices' force' ?_
      rw [← hrows.modelUpdateGeneration, ← hrows.refreshRequestGeneration, ← hrows.idle]
      exact hmem

theorem tracks_refreshRows (h : c.Numbered) (hroom : c.Room) (htracks : c.Tracks n)
    {snapshot : ThreadModelSnapshot} (hlen : snapshot.len ≤ n) (indices : List Nat)
    (force : Bool) :
    (c.refreshRows snapshot indices force).Tracks n ∧
      (c.Whole n → (c.refreshRows snapshot indices force).Whole n) := by
  have hgeneration : saturatingSucc c.refreshRequestGeneration = c.refreshRequestGeneration + 1 :=
    saturatingSucc_of_lt (by have := hroom.2; omega)
  -- a refresh that waited already is no longer the newest
  have hold : ∀ modelGeneration snapshot indices force,
      .parked (c.refreshRequestGeneration + 1) modelGeneration snapshot indices force ∉
        c.idle := by
    intro modelGeneration snapshot indices force hmem
    have hle := h.parkedLe _ (List.mem_filterMap.2 ⟨_, hmem, rfl⟩)
    omega
  unfold refreshRows
  dsimp only
  rw [hgeneration]
  split
  · refine ⟨⟨fun work hmem => ?_, fun snapshot' indices' force' hmem => ?_⟩, fun hwhole => ?_⟩
    · rcases List.mem_append.1 hmem with hmem | hmem
      · exact (htracks.work work hmem).of_model_eq rfl
      · exact absurd (List.mem_singleton.1 hmem) (by simp)
    · rcases List.mem_append.1 hmem with hmem | hmem
      · exact absurd hmem (hold _ _ _ _)
      · obtain ⟨-, -, rfl, -, -⟩ := IdleCallback.parked.inj (List.mem_singleton.1 hmem)
        exact hlen
    · rcases hwhole with hrebuilding | hshows
      · obtain ⟨work, hmem, hwork⟩ := underWay_iff.1 hrebuilding
        exact Or.inl (underWay_iff.2 ⟨work, List.mem_append_left _ hmem, hwork⟩)
      · exact Or.inr (hshows.of_model_eq rfl)
  · next hbusy =>
    have hnumbered := h.request hroom
    rw [hgeneration] at hnumbered
    refine tracks_refreshRowsReady hnumbered hroom.1 ⟨htracks.work, ?_⟩
      (Bool.eq_false_iff.2 hbusy) hlen indices force
    intro snapshot' indices' force' hmem
    exact absurd hmem (hold _ _ _ _)

/-- A callback that is erased is no longer tracked; the others are as before. -/
theorem Tracks.erase (h : c.Tracks n) (k : Nat) (busy : Bool) :
    Tracks { c with busy := busy, idle := c.idle.eraseIdx k } n where
  work := fun work hmem => (h.work work (List.mem_of_mem_eraseIdx hmem)).of_model_eq rfl
  parked := fun snapshot indices force hmem =>
    h.parked snapshot indices force (List.mem_of_mem_eraseIdx hmem)

/-- A callback that is not the newest goes, and what is built goes on. -/
theorem Whole.erase_stale {k : Nat} {callback : IdleCallback κ} (h : c.Whole n)
    (hk : c.idle[k]? = some callback) (hlive : ¬ c.Live callback) :
    Whole { c with idle := c.idle.eraseIdx k } n := by
  rcases h with hrebuilding | hshows
  · obtain ⟨work, hmem, hwork⟩ := underWay_iff.1 hrebuilding
    refine Or.inl (underWay_iff.2 ⟨work, ?_, hwork⟩)
    obtain ⟨before, after, hidle, herase, -⟩ := exists_around hk
    show _ ∈ c.idle.eraseIdx k
    rw [herase]
    rw [hidle] at hmem
    rcases List.mem_append.1 hmem with hmem | hmem
    · exact List.mem_append_left _ hmem
    · rcases List.mem_cons.1 hmem with rfl | hmem
      · exact absurd rfl hlive
      · exact List.mem_append_right _ hmem
  · exact Or.inr (hshows.of_model_eq rfl)

/-- The rows after a run of the change under way, if it only refreshes them. -/
theorem shows_of_refreshed (h : c.Numbered) {k : Nat} {work : ModelWork κ}
    {rest : Option (ModelWork κ)} (hk : c.idle[k]? = some (.model c.modelUpdateGeneration work))
    (hadvances : Advances c c' n work rest) (hrebuilding : work.rebuilding = false)
    (hwhole : c.Whole n) : c'.ShowsRows n := by
  rcases hwhole with hother | hshows
  · obtain ⟨work', hmem, hwork'⟩ := underWay_iff.1 hother
    obtain rfl := h.work_unique hk hmem
    rw [hrebuilding] at hwork'
    exact absurd hwork' Bool.false_ne_true
  · exact hadvances.keeps hrebuilding hshows

/-- A run of a callback keeps to the rows of the list. -/
theorem tracks_idleRun (h : c.Numbered) (hroom : c.modelUpdateGeneration + 2 ≤ u64Max)
    (htracks : c.Tracks n) {k : Nat} {completion : Option (κ × Bool)}
    (hrun : IdleRun c k c' completion) : c'.Tracks n ∧ (c.Whole n → c'.Whole n) := by
  have hnumbered := h.idleRun hroom hrun
  cases hrun with
  | stale callback hk hlive =>
    exact ⟨htracks.erase k c.busy, fun hwhole => hwhole.erase_stale hk hlive⟩
  -- The change goes on in its place. If it rebuilds the list the rows may be missing until it ends.
  | goesOn work rest rows hk hwork =>
    have hadvances := advances_runWork (htracks.work work (List.mem_of_getElem? hk))
    have hrows := rowsChanged_runWork (c := c) work
    rw [hwork] at hadvances hrows
    obtain ⟨hprogress, hrebuilding, -⟩ := hadvances.goesOn rest rfl
    have hplace : (rows.idle.set k (.model c.modelUpdateGeneration rest))[k]? =
        some (.model rows.modelUpdateGeneration rest) := by
      rw [List.getElem?_set_self, hrows.modelUpdateGeneration]
      rw [hrows.idle]
      exact (List.getElem?_eq_some_iff.1 hk).1
    refine ⟨⟨fun work' hmem => ?_, fun snapshot indices force hmem => ?_⟩, fun hwhole => ?_⟩
    · obtain rfl := hnumbered.work_unique hplace hmem
      exact hprogress.of_model_eq rfl
    · refine htracks.parked snapshot indices force ?_
      rcases List.mem_or_eq_of_mem_set hmem with hmem | hmem
      · rw [← hrows.modelUpdateGeneration, ← hrows.refreshRequestGeneration, ← hrows.idle]
        exact hmem
      · exact absurd hmem (by simp)
    · cases hkind : work.rebuilding with
      | true =>
        rw [hkind] at hrebuilding
        exact Or.inl (underWay_iff.2 ⟨rest, List.mem_of_getElem? hplace, hrebuilding⟩)
      | false =>
        exact Or.inr ((shows_of_refreshed h hk hadvances hkind hwhole).of_model_eq rfl)
  | finishes work rows hk hwork =>
    have hadvances := advances_runWork (htracks.work work (List.mem_of_getElem? hk))
    have hrows := rowsChanged_runWork (c := c) work
    rw [hwork] at hadvances hrows
    have hplace : rows.idle[k]? = some (.model rows.modelUpdateGeneration work) := by
      rw [hrows.idle, hrows.modelUpdateGeneration]
      exact hk
    refine ⟨⟨fun work' hmem => ?_, fun snapshot indices force hmem => ?_⟩, fun hwhole =>
      Or.inr ?_⟩
    · exact absurd hmem ((h.rows hrows).work_not_mem_erase hplace)
    · refine htracks.parked snapshot indices force ?_
      rw [← hrows.modelUpdateGeneration, ← hrows.refreshRequestGeneration, ← hrows.idle]
      exact List.mem_of_mem_eraseIdx hmem
    cases hkind : work.rebuilding with
    | true => exact (hadvances.ends rfl hkind).of_model_eq rfl
    | false => exact (shows_of_refreshed h hk hadvances hkind hwhole).of_model_eq rfl
  | waits => exact ⟨htracks, id⟩
  -- A refresh that has waited runs only when the list is not busy, so the rows are whole.
  | refreshes snapshot indices force hk hbusy =>
    have hnumbered : Numbered { c with idle := c.idle.eraseIdx k } := h.erase hk (Or.inl rfl)
    have hlen := htracks.parked snapshot indices force (List.mem_of_getElem? hk)
    have hready := tracks_refreshRowsReady hnumbered hroom (htracks.erase k c.busy) hbusy hlen
      indices force
    refine ⟨hready.1, fun hwhole => hready.2 ?_⟩
    rcases hwhole with hrebuilding | hshows
    · obtain ⟨work, hmem, -⟩ := underWay_iff.1 hrebuilding
      exact absurd hmem (h.work_not_mem hbusy work)
    · exact Or.inr (hshows.of_model_eq rfl)

/-! ## Completions -/

/-- Some callback has still to call the completion. -/
def Completes (c : ThreadListController κ) (complete : κ) : Prop :=
  ∃ callback ∈ c.idle, callback.complete = some complete

theorem completes_startWork {work : ModelWork κ} {complete : κ}
    (h : (c.startWork work).Completes complete) :
    c.Completes complete ∨ work.complete = some complete := by
  obtain ⟨callback, hmem, hcomplete⟩ := h
  rcases List.mem_append.1 hmem with hmem | hmem
  · exact Or.inl ⟨callback, hmem, hcomplete⟩
  · obtain rfl := List.mem_singleton.1 hmem
    exact Or.inr hcomplete

theorem completes_refreshRowsReady {snapshot : ThreadModelSnapshot} {indices : List Nat}
    {force : Bool} {complete : κ}
    (h : (c.refreshRowsReady snapshot indices force).Completes complete) :
    c.Completes complete := by
  unfold refreshRowsReady at h
  split at h
  · refine (completes_startWork h).resolve_right ?_
    simp [ModelWork.complete]
  · obtain ⟨callback, hmem, hcomplete⟩ := h
    have hrows := rowsChanged_refreshRows (c := c) snapshot force
      (indices.filter (· < snapshot.len))
    refine ⟨callback, ?_, hcomplete⟩
    rw [← hrows.idle]
    exact hmem

theorem completes_refreshRows {snapshot : ThreadModelSnapshot} {indices : List Nat}
    {force : Bool} {complete : κ} (h : (c.refreshRows snapshot indices force).Completes complete) :
    c.Completes complete := by
  unfold refreshRows at h
  dsimp only at h
  split at h
  · obtain ⟨callback, hmem, hcomplete⟩ := h
    rcases List.mem_append.1 hmem with hmem | hmem
    · exact ⟨callback, hmem, hcomplete⟩
    · obtain rfl := List.mem_singleton.1 hmem
      exact absurd hcomplete (by simp [IdleCallback.complete])
  · have hready := completes_refreshRowsReady h
    exact hready

/-- A run of a callback calls no completion but its own, and leaves it to the rest of its work. -/
theorem completes_idleRun (htracks : c.Tracks n) {k : Nat} {completion : Option (κ × Bool)}
    (hrun : IdleRun c k c' completion) :
    (∀ complete, c'.Completes complete → c.Completes complete) ∧
      ∀ complete applied, completion = some (complete, applied) → c.Completes complete := by
  have herase : ∀ complete, (∃ callback ∈ c.idle.eraseIdx k,
      IdleCallback.complete callback = some complete) → c.Completes complete := by
    rintro complete ⟨callback, hmem, hcomplete⟩
    exact ⟨callback, List.mem_of_mem_eraseIdx hmem, hcomplete⟩
  -- One case for each way a callback can run.
  cases hrun with
  | stale callback hk hlive =>
    refine ⟨herase, fun complete applied hcompletion => ?_⟩
    obtain ⟨complete', hcomplete, hpair⟩ := Option.map_eq_some_iff.1 hcompletion
    obtain ⟨rfl, -⟩ := Prod.mk.inj hpair
    exact ⟨callback, List.mem_of_getElem? hk, hcomplete⟩
  | goesOn work rest rows hk hwork =>
    have hadvances := advances_runWork (htracks.work work (List.mem_of_getElem? hk))
    have hrows := rowsChanged_runWork (c := c) work
    rw [hwork] at hadvances hrows
    obtain ⟨-, -, hsame⟩ := hadvances.goesOn rest rfl
    refine ⟨fun complete hcompletes => ?_, fun complete applied hcompletion =>
      absurd hcompletion (by simp)⟩
    obtain ⟨callback, hmem, hcomplete⟩ := hcompletes
    rcases List.mem_or_eq_of_mem_set hmem with hmem | rfl
    · refine ⟨callback, ?_, hcomplete⟩
      rw [← hrows.idle]
      exact hmem
    · exact ⟨_, List.mem_of_getElem? hk, hsame.symm.trans hcomplete⟩
  | finishes work rows hk hwork =>
    have hrows := rowsChanged_runWork (c := c) work
    rw [hwork] at hrows
    refine ⟨fun complete hcompletes => herase complete ?_, fun complete applied hcompletion => ?_⟩
    · rw [← hrows.idle]
      exact hcompletes
    · obtain ⟨complete', hcomplete, hpair⟩ := Option.map_eq_some_iff.1 hcompletion
      obtain ⟨rfl, -⟩ := Prod.mk.inj hpair
      exact ⟨_, List.mem_of_getElem? hk, hcomplete⟩
  | waits => exact ⟨fun _ h => h, fun _ _ h => absurd h (by simp)⟩
  | refreshes snapshot indices force hk hbusy =>
    refine ⟨fun complete hcompletes => ?_, fun _ _ h => absurd h (by simp)⟩
    exact herase complete (completes_refreshRowsReady hcompletes)

end ThreadListController

end Notm.Ui
