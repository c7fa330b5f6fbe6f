import Notm.Ui.ThreadListModel
import Mathlib

/-!
# The idle callbacks of the thread list

The generations keep the callbacks apart: as long as the counters have not reached their end, at
most one change of the model and at most one waiting refresh are the newest of their kind, and the
list is busy while a change is.

* `Numbered` — what the generations of the callbacks keep.
* `work_unique`, `work_not_mem` — the change under way is the only one, and none is while the list
  rests.
* `IdleRun` — what a run of a callback does to the list.
* `Numbered.step` — every step keeps them.
-/

namespace Notm.Ui

open Rust

namespace IdleCallback

variable {κ : Type}

/-- The generation of a change of the model. -/
def modelGeneration? : IdleCallback κ → Option Nat
  | model generation _ => some generation
  | parked _ _ _ _ _ => none

/-- The generation of a waiting refresh. -/
def refreshGeneration? : IdleCallback κ → Option Nat
  | model _ _ => none
  | parked refreshGeneration _ _ _ _ => some refreshGeneration

/-- The completion of a callback. -/
def complete : IdleCallback κ → Option κ
  | model _ work => work.complete
  | parked _ _ _ _ _ => none

end IdleCallback

namespace ThreadListController

variable {κ : Type} {c c' : ThreadListController κ}

/-- The callback would act at its next run. -/
def Live (c : ThreadListController κ) : IdleCallback κ → Prop
  | .model generation _ => c.modelUpdateGeneration = generation
  | .parked refreshGeneration modelGeneration _ _ _ =>
    c.refreshRequestGeneration = refreshGeneration ∧ c.modelUpdateGeneration = modelGeneration

/-- Nothing is left to do. -/
def Idle (c : ThreadListController κ) : Prop := ∀ callback ∈ c.idle, ¬ c.Live callback

instance (callback : IdleCallback κ) : Decidable (c.Live callback) := by
  cases callback <;> unfold Live <;> infer_instance

instance : Decidable c.Idle := by unfold Idle; infer_instance

/-- The change of the model that is under way, if any, is of some kind. -/
def underWay (c : ThreadListController κ) (kind : ModelWork κ → Bool) : Bool :=
  c.idle.any fun
    | .model generation work => generation == c.modelUpdateGeneration && kind work
    | .parked _ _ _ _ _ => false

theorem underWay_iff {kind : ModelWork κ → Bool} :
    c.underWay kind = true ↔
      ∃ work, .model c.modelUpdateGeneration work ∈ c.idle ∧ kind work = true := by
  rw [underWay, List.any_eq_true]
  constructor
  · rintro ⟨callback, hmem, hcallback⟩
    cases callback with
    | model generation work =>
      rw [Bool.and_eq_true, beq_iff_eq] at hcallback
      obtain ⟨rfl, hwork⟩ := hcallback
      exact ⟨work, hmem, hwork⟩
    | parked => exact absurd hcallback Bool.false_ne_true
  · rintro ⟨work, hmem, hwork⟩
    refine ⟨_, hmem, ?_⟩
    rw [Bool.and_eq_true, beq_iff_eq]
    exact ⟨rfl, hwork⟩

/-- Neither counter is at its end. -/
def Room (c : ThreadListController κ) : Prop :=
  c.modelUpdateGeneration + 2 ≤ u64Max ∧ c.refreshRequestGeneration + 1 ≤ u64Max

instance : Decidable c.Room := by unfold Room; infer_instance

/-- The objects of the list are distinct, and a new one is none of them. -/
structure Distinct (c : ThreadListController κ) : Prop where
  nodup : (c.model.map ModelItem.identity).Nodup
  made : ∀ item ∈ c.model, item.identity < c.nextIdentity

/-- What the generations keep. -/
structure Numbered (c : ThreadListController κ) : Prop where
  models : (c.idle.filterMap IdleCallback.modelGeneration?).Nodup
  modelsLe : ∀ generation ∈ c.idle.filterMap IdleCallback.modelGeneration?,
    generation ≤ c.modelUpdateGeneration
  parked : (c.idle.filterMap IdleCallback.refreshGeneration?).Nodup
  parkedLe : ∀ generation ∈ c.idle.filterMap IdleCallback.refreshGeneration?,
    generation ≤ c.refreshRequestGeneration
  parkedModelLe : ∀ refreshGeneration modelGeneration snapshot indices force,
    .parked refreshGeneration modelGeneration snapshot indices force ∈ c.idle →
      modelGeneration ≤ c.modelUpdateGeneration
  busy : ∀ work, .model c.modelUpdateGeneration work ∈ c.idle → c.busy = true
  distinct : c.Distinct

/-! ## Changes of the rows alone -/

/-- Only rows have changed, and what is new is newer. -/
structure RowsChanged (c c' : ThreadListController κ) : Prop where
  idle : c'.idle = c.idle
  busy : c'.busy = c.busy
  modelUpdateGeneration : c'.modelUpdateGeneration = c.modelUpdateGeneration
  refreshRequestGeneration : c'.refreshRequestGeneration = c.refreshRequestGeneration
  nextIdentity : c.nextIdentity ≤ c'.nextIdentity
  distinct : c.Distinct → c'.Distinct

namespace RowsChanged

protected theorem refl (c : ThreadListController κ) : RowsChanged c c where
  idle := rfl
  busy := rfl
  modelUpdateGeneration := rfl
  refreshRequestGeneration := rfl
  nextIdentity := Nat.le_refl _
  distinct := id

theorem trans {c'' : ThreadListController κ} (h : RowsChanged c c') (h' : RowsChanged c' c'') :
    RowsChanged c c'' where
  idle := h'.idle.trans h.idle
  busy := h'.busy.trans h.busy
  modelUpdateGeneration := h'.modelUpdateGeneration.trans h.modelUpdateGeneration
  refreshRequestGeneration := h'.refreshRequestGeneration.trans h.refreshRequestGeneration
  nextIdentity := Nat.le_trans h.nextIdentity h'.nextIdentity
  distinct := fun hold => h'.distinct (h.distinct hold)

end RowsChanged

theorem rowsChanged_splice (position : Nat) (token : ThreadToken) :
    RowsChanged c (c.splice position token) where
  idle := rfl
  busy := rfl
  modelUpdateGeneration := rfl
  refreshRequestGeneration := rfl
  nextIdentity := Nat.le_succ _
  distinct := by
    intro hold
    constructor
    · rw [splice_model, List.map_set]
      refine hold.nodup.set fun hmem => ?_
      obtain ⟨item, hitem, hidentity⟩ := List.mem_map.1 hmem
      exact absurd hidentity (Nat.ne_of_lt (hold.made item hitem))
    · intro item hitem
      show item.identity < c.nextIdentity + 1
      rcases List.mem_or_eq_of_mem_set hitem with hitem | rfl
      · exact Nat.lt_succ_of_lt (hold.made item hitem)
      · exact Nat.lt_succ_self _

theorem rowsChanged_removeFront (count : Nat) : RowsChanged c (c.removeFront count) where
  idle := rfl
  busy := rfl
  modelUpdateGeneration := rfl
  refreshRequestGeneration := rfl
  nextIdentity := Nat.le_refl _
  distinct := fun hold => {
    nodup := hold.nodup.sublist ((List.drop_sublist _ _).map _)
    made := fun item hitem => hold.made item (List.mem_of_mem_drop hitem) }

theorem rowsChanged_append (tokens : List ThreadToken) : RowsChanged c (c.append tokens) where
  idle := rfl
  busy := rfl
  modelUpdateGeneration := rfl
  refreshRequestGeneration := rfl
  nextIdentity := Nat.le_add_right _ _
  distinct := by
    intro hold
    constructor
    · rw [append_model, List.map_append, List.nodup_append]
      refine ⟨hold.nodup, newItems_nodup _ _, ?_⟩
      intro identity hmem identity' hmem'
      obtain ⟨item, hitem, rfl⟩ := List.mem_map.1 hmem
      obtain ⟨item', hitem', rfl⟩ := List.mem_map.1 hmem'
      have hold' := hold.made item hitem
      have hnew := (newItems_identity hitem').1
      omega
    · intro item hitem
      show item.identity < c.nextIdentity + tokens.length
      rcases List.mem_append.1 hitem with hitem | hitem
      · have hlt := hold.made item hitem
        omega
      · exact (newItems_identity hitem).2

theorem rowsChanged_refreshRow (snapshot : ThreadModelSnapshot) (force : Bool) (index : Nat) :
    RowsChanged c (refreshRow snapshot force c index) := by
  unfold refreshRow
  split
  · split
    · exact rowsChanged_splice _ _
    · exact .refl c
  · exact .refl c

theorem rowsChanged_refreshRows (snapshot : ThreadModelSnapshot) (force : Bool)
    (indices : List Nat) : RowsChanged c (indices.foldl (refreshRow snapshot force) c) := by
  induction indices generalizing c with
  | nil => exact .refl c
  | cons index indices ih =>
    exact (rowsChanged_refreshRow snapshot force index).trans ih

theorem rowsChanged_runStatus (token : ThreadToken) : RowsChanged c (c.runStatus token).1 := by
  unfold runStatus
  dsimp only
  split
  · exact rowsChanged_removeFront _
  · exact rowsChanged_append _

theorem rowsChanged_runAdditions (snapshot : ThreadModelSnapshot)
    (budget nextAdd endAdd nextRefresh refreshEnd : Nat) (complete : Option κ) :
    RowsChanged c (c.runAdditions snapshot budget nextAdd endAdd nextRefresh refreshEnd
      complete).1 := by
  unfold runAdditions
  dsimp only
  split
  · exact rowsChanged_append _
  · exact (rowsChanged_append _).trans (rowsChanged_refreshRows _ _ _)

theorem rowsChanged_runUpdate (snapshot : ThreadModelSnapshot) (removing : Bool)
    (nextAdd endAdd nextRefresh refreshEnd : Nat) (complete : Option κ) :
    RowsChanged c (c.runUpdate snapshot removing nextAdd endAdd nextRefresh refreshEnd
      complete).1 := by
  unfold runUpdate
  dsimp only
  split
  · split
    · exact (rowsChanged_removeFront _).trans (rowsChanged_runAdditions _ _ _ _ _ _ _)
    · exact rowsChanged_removeFront _
  · exact rowsChanged_runAdditions _ _ _ _ _ _ _

/-- A run of a callback changes rows alone; the callback itself is changed by `runIdle`. -/
theorem rowsChanged_runWork (work : ModelWork κ) : RowsChanged c (c.runWork work).1 := by
  cases work with
  | status token => exact rowsChanged_runStatus token
  | refresh snapshot rest force => exact rowsChanged_refreshRows _ _ _
  | update snapshot removing nextAdd endAdd nextRefresh refreshEnd complete =>
    exact rowsChanged_runUpdate _ _ _ _ _ _ _

theorem startWork_generation (hroom : c.modelUpdateGeneration + 2 ≤ u64Max) (work : ModelWork κ) :
    (c.startWork work).modelUpdateGeneration = c.modelUpdateGeneration + 2 := by
  have hfirst : saturatingSucc c.modelUpdateGeneration = c.modelUpdateGeneration + 1 :=
    saturatingSucc_of_lt (by omega)
  show saturatingSucc (saturatingSucc c.modelUpdateGeneration) = _
  rw [hfirst, saturatingSucc_of_lt (by omega)]

/-- A change of the model that is begun is under way. -/
theorem startWork_mem (work : ModelWork κ) :
    .model (c.startWork work).modelUpdateGeneration work ∈ (c.startWork work).idle :=
  List.mem_append_right _ (List.mem_singleton_self _)

/-! ## The generations keep the callbacks apart -/

/-- The list around its member at place `k`. -/
theorem exists_around {α : Type} {l : List α} {k : Nat} {x : α} (h : l[k]? = some x) :
    ∃ before after, l = before ++ x :: after ∧ l.eraseIdx k = before ++ after ∧
      ∀ y, l.set k y = before ++ y :: after := by
  obtain ⟨hk, rfl⟩ := List.getElem?_eq_some_iff.1 h
  refine ⟨l.take k, l.drop (k + 1), ?_, List.eraseIdx_eq_take_drop_succ .., ?_⟩
  · rw [← List.drop_eq_getElem_cons hk, List.take_append_drop]
  · intro y
    rw [List.set_eq_take_append_cons_drop, if_pos hk]

namespace Numbered

theorem new : Numbered (ThreadListController.new : ThreadListController κ) where
  models := List.nodup_nil
  modelsLe := fun _ h => absurd h List.not_mem_nil
  parked := List.nodup_nil
  parkedLe := fun _ h => absurd h List.not_mem_nil
  parkedModelLe := fun _ _ _ _ _ h => absurd h List.not_mem_nil
  busy := fun _ h => absurd h List.not_mem_nil
  distinct := ⟨List.nodup_nil, fun _ h => absurd h List.not_mem_nil⟩

theorem rows (h : Numbered c) (hrows : RowsChanged c c') : Numbered c' where
  models := by rw [hrows.idle]; exact h.models
  modelsLe := by rw [hrows.idle, hrows.modelUpdateGeneration]; exact h.modelsLe
  parked := by rw [hrows.idle]; exact h.parked
  parkedLe := by rw [hrows.idle, hrows.refreshRequestGeneration]; exact h.parkedLe
  parkedModelLe := by rw [hrows.idle, hrows.modelUpdateGeneration]; exact h.parkedModelLe
  busy := by rw [hrows.idle, hrows.modelUpdateGeneration, hrows.busy]; exact h.busy
  distinct := hrows.distinct h.distinct

/-- No other callback changes the model under the same generation. -/
theorem work_not_mem_erase (h : Numbered c) {k generation : Nat} {work work' : ModelWork κ}
    (hk : c.idle[k]? = some (.model generation work)) :
    .model generation work' ∉ c.idle.eraseIdx k := by
  obtain ⟨before, after, hidle, herase, -⟩ := exists_around hk
  have hnodup := h.models
  rw [hidle] at hnodup
  simp only [List.filterMap_append, List.filterMap_cons, IdleCallback.modelGeneration?,
    List.nodup_append, List.nodup_cons, List.mem_cons, List.mem_filterMap] at hnodup
  obtain ⟨-, ⟨hafter, -⟩, hbefore⟩ := hnodup
  rw [herase]
  intro hmem
  rcases List.mem_append.1 hmem with hmem | hmem
  · exact absurd rfl (hbefore _ ⟨_, hmem, rfl⟩ _ (Or.inl rfl))
  · exact absurd ⟨_, hmem, rfl⟩ hafter

/-- The change under way is the only one. -/
theorem work_unique (h : Numbered c) {k generation : Nat} {work work' : ModelWork κ}
    (hk : c.idle[k]? = some (.model generation work)) (hmem : .model generation work' ∈ c.idle) :
    work' = work := by
  obtain ⟨before, after, hidle, herase, -⟩ := exists_around hk
  have hothers : .model generation work' ∉ c.idle.eraseIdx k := h.work_not_mem_erase hk
  rw [herase] at hothers
  rw [hidle] at hmem
  rcases List.mem_append.1 hmem with hmem | hmem
  · exact absurd (List.mem_append_left _ hmem) hothers
  · rcases List.mem_cons.1 hmem with hmem | hmem
    · exact (IdleCallback.model.inj hmem).2
    · exact absurd (List.mem_append_right _ hmem) hothers

/-- No other refresh waits under the same number. -/
theorem parked_not_mem_erase (h : Numbered c) {k number generation generation' : Nat}
    {snapshot snapshot' : ThreadModelSnapshot} {indices indices' : List Nat} {force force' : Bool}
    (hk : c.idle[k]? = some (.parked number generation snapshot indices force)) :
    .parked number generation' snapshot' indices' force' ∉ c.idle.eraseIdx k := by
  obtain ⟨before, after, hidle, herase, -⟩ := exists_around hk
  have hnodup := h.parked
  rw [hidle] at hnodup
  simp only [List.filterMap_append, List.filterMap_cons, IdleCallback.refreshGeneration?,
    List.nodup_append, List.nodup_cons, List.mem_cons, List.mem_filterMap] at hnodup
  obtain ⟨-, ⟨hafter, -⟩, hbefore⟩ := hnodup
  rw [herase]
  intro hmem
  rcases List.mem_append.1 hmem with hmem | hmem
  · exact absurd rfl (hbefore _ ⟨_, hmem, rfl⟩ _ (Or.inl rfl))
  · exact absurd ⟨_, hmem, rfl⟩ hafter

/-- Nothing is under way in a list that is not busy. -/
theorem work_not_mem (h : Numbered c) (hbusy : c.busy = false) (work : ModelWork κ) :
    .model c.modelUpdateGeneration work ∉ c.idle := by
  intro hmem
  have htrue := h.busy work hmem
  rw [hbusy] at htrue
  exact Bool.false_ne_true htrue

/-- A callback goes; the list stays busy unless the callback was the change under way. -/
theorem erase (h : Numbered c) {k : Nat} {callback : IdleCallback κ}
    (hk : c.idle[k]? = some callback) {busy : Bool}
    (hbusy : busy = c.busy ∨ ∃ work, callback = .model c.modelUpdateGeneration work) :
    Numbered { c with idle := c.idle.eraseIdx k, busy := busy } where
  models := h.models.sublist ((List.eraseIdx_sublist _ _).filterMap _)
  modelsLe := fun generation hmem =>
    h.modelsLe generation (((List.eraseIdx_sublist _ _).filterMap _).subset hmem)
  parked := h.parked.sublist ((List.eraseIdx_sublist _ _).filterMap _)
  parkedLe := fun generation hmem =>
    h.parkedLe generation (((List.eraseIdx_sublist _ _).filterMap _).subset hmem)
  parkedModelLe := fun _ _ _ _ _ hmem =>
    h.parkedModelLe _ _ _ _ _ (List.mem_of_mem_eraseIdx hmem)
  busy := by
    intro work hwork
    show busy = true
    rcases hbusy with rfl | ⟨work', rfl⟩
    · exact h.busy work (List.mem_of_mem_eraseIdx hwork)
    · -- the callback that goes was the only one of its generation
      exact absurd hwork (h.work_not_mem_erase hk)
  distinct := ⟨h.distinct.nodup, h.distinct.made⟩

/-- A change of the model goes on under its generation. -/
theorem set (h : Numbered c) {k generation : Nat} {work rest : ModelWork κ}
    (hk : c.idle[k]? = some (.model generation work)) :
    Numbered { c with idle := c.idle.set k (.model generation rest) } := by
  obtain ⟨before, after, hidle, -, hset⟩ := exists_around hk
  -- The callback keeps its place and its generation, so both lists of generations stay.
  have hmodels : (c.idle.set k (.model generation rest)).filterMap IdleCallback.modelGeneration? =
      c.idle.filterMap IdleCallback.modelGeneration? := by
    rw [hset, hidle, List.filterMap_append, List.filterMap_append]
    rfl
  have hparked :
      (c.idle.set k (.model generation rest)).filterMap IdleCallback.refreshGeneration? =
        c.idle.filterMap IdleCallback.refreshGeneration? := by
    rw [hset, hidle, List.filterMap_append, List.filterMap_append]
    rfl
  have hmem : ∀ callback, callback ∈ c.idle.set k (.model generation rest) →
      callback ∈ c.idle ∨ callback = .model generation rest := fun callback hcallback =>
    List.mem_or_eq_of_mem_set hcallback
  refine ⟨?_, ?_, ?_, ?_, ?_, ?_, ⟨h.distinct.nodup, h.distinct.made⟩⟩
  · show (List.filterMap _ _).Nodup
    rw [hmodels]
    exact h.models
  · show ∀ generation ∈ List.filterMap _ _, _
    rw [hmodels]
    exact h.modelsLe
  · show (List.filterMap _ _).Nodup
    rw [hparked]
    exact h.parked
  · show ∀ generation ∈ List.filterMap _ _, _
    rw [hparked]
    exact h.parkedLe
  · intro refreshGeneration modelGeneration snapshot indices force hcallback
    rcases hmem _ hcallback with hcallback | hcallback
    · exact h.parkedModelLe _ _ _ _ _ hcallback
    · exact absurd hcallback (by simp)
  · intro work' hcallback
    rcases hmem _ hcallback with hcallback | hcallback
    · exact h.busy _ hcallback
    · have hgeneration : c.modelUpdateGeneration = generation :=
        (IdleCallback.model.inj hcallback).1
      rw [← hgeneration] at hk
      exact h.busy work (List.mem_of_getElem? hk)

theorem cancelModelUpdate (h : Numbered c) (hroom : c.modelUpdateGeneration + 1 ≤ u64Max) :
    Numbered c.cancelModelUpdate := by
  have hgeneration : c.cancelModelUpdate.modelUpdateGeneration = c.modelUpdateGeneration + 1 :=
    saturatingSucc_of_lt (by omega)
  refine ⟨h.models, ?_, h.parked, h.parkedLe, ?_, ?_, ⟨h.distinct.nodup, h.distinct.made⟩⟩
  · intro generation hmem
    have hle := h.modelsLe generation hmem
    omega
  · intro refreshGeneration modelGeneration snapshot indices force hmem
    have hle := h.parkedModelLe _ _ _ _ _ hmem
    omega
  · intro work hmem
    have hle := h.modelsLe c.cancelModelUpdate.modelUpdateGeneration
      (List.mem_filterMap.2 ⟨_, hmem, rfl⟩)
    omega

theorem startWork (h : Numbered c) (hroom : c.modelUpdateGeneration + 2 ≤ u64Max)
    (work : ModelWork κ) :
    Numbered (c.startWork work) := by
  have hgeneration := startWork_generation hroom work
  have hidle : (c.startWork work).idle =
      c.idle ++ [.model (c.startWork work).modelUpdateGeneration work] := rfl
  have hnew : ∀ generation ∈ c.idle.filterMap IdleCallback.modelGeneration?,
      generation < (c.startWork work).modelUpdateGeneration := by
    intro generation hmem
    have hle := h.modelsLe generation hmem
    omega
  refine ⟨?_, ?_, ?_, ?_, ?_, fun _ _ => rfl, ⟨h.distinct.nodup, h.distinct.made⟩⟩
  · rw [hidle, List.filterMap_append, List.nodup_append]
    refine ⟨h.models, List.nodup_singleton _, ?_⟩
    intro generation hmem generation' hmem'
    obtain rfl := List.mem_singleton.1 hmem'
    exact Nat.ne_of_lt (hnew generation hmem)
  · intro generation hmem
    rw [hidle, List.filterMap_append] at hmem
    rcases List.mem_append.1 hmem with hmem | hmem
    · exact Nat.le_of_lt (hnew generation hmem)
    · obtain rfl := List.mem_singleton.1 hmem
      exact Nat.le_refl _
  · rw [hidle, List.filterMap_append]
    show (_ ++ []).Nodup
    rw [List.append_nil]
    exact h.parked
  · intro generation hmem
    rw [hidle, List.filterMap_append] at hmem
    have hmem' : generation ∈ c.idle.filterMap IdleCallback.refreshGeneration? ++ [] := hmem
    rw [List.append_nil] at hmem'
    exact h.parkedLe generation hmem'
  · intro refreshGeneration modelGeneration snapshot indices force hmem
    rw [hidle] at hmem
    rcases List.mem_append.1 hmem with hmem | hmem
    · have hle := h.parkedModelLe _ _ _ _ _ hmem
      omega
    · exact absurd (List.mem_singleton.1 hmem) (by simp)

/-- A refresh waits: it alone has its number. -/
theorem park (h : Numbered c) (hroom : c.Room) (snapshot : ThreadModelSnapshot)
    (indices : List Nat) (force : Bool) :
    Numbered
      { c with
        refreshRequestGeneration := saturatingSucc c.refreshRequestGeneration
        idle := c.idle ++ [.parked (saturatingSucc c.refreshRequestGeneration)
          c.modelUpdateGeneration snapshot indices force] } := by
  have hgeneration : saturatingSucc c.refreshRequestGeneration = c.refreshRequestGeneration + 1 :=
    saturatingSucc_of_lt (by have := hroom.2; omega)
  rw [hgeneration]
  refine ⟨?_, ?_, ?_, ?_, ?_, ?_, ⟨h.distinct.nodup, h.distinct.made⟩⟩
  · rw [List.filterMap_append]
    show (_ ++ []).Nodup
    rw [List.append_nil]
    exact h.models
  · intro generation hmem
    rw [List.filterMap_append] at hmem
    have hmem' : generation ∈ c.idle.filterMap IdleCallback.modelGeneration? ++ [] := hmem
    rw [List.append_nil] at hmem'
    exact h.modelsLe generation hmem'
  · rw [List.filterMap_append, List.nodup_append]
    refine ⟨h.parked, List.nodup_singleton _, ?_⟩
    intro generation hmem generation' hmem'
    -- The new number is greater than every number that waits.
    obtain rfl := List.mem_singleton.1 hmem'
    have hle := h.parkedLe generation hmem
    omega
  · intro generation hmem
    rw [List.filterMap_append] at hmem
    show generation ≤ c.refreshRequestGeneration + 1
    rcases List.mem_append.1 hmem with hmem | hmem
    · have hle := h.parkedLe generation hmem
      omega
    · obtain rfl := List.mem_singleton.1 hmem
      exact Nat.le_refl _
  · intro refreshGeneration modelGeneration snapshot' indices' force' hmem
    rcases List.mem_append.1 hmem with hmem | hmem
    · exact h.parkedModelLe _ _ _ _ _ hmem
    · obtain ⟨-, rfl, -⟩ := IdleCallback.parked.inj (List.mem_singleton.1 hmem)
      exact Nat.le_refl _
  · intro work hmem
    rcases List.mem_append.1 hmem with hmem | hmem
    · exact h.busy work hmem
    · exact absurd (List.mem_singleton.1 hmem) (by simp)

/-- The refresh generation alone grows. -/
theorem request (h : Numbered c) (hroom : c.Room) :
    Numbered
      { c with refreshRequestGeneration := saturatingSucc c.refreshRequestGeneration } where
  models := h.models
  modelsLe := h.modelsLe
  parked := h.parked
  parkedLe := by
    intro generation hmem
    have hle := h.parkedLe generation hmem
    show generation ≤ saturatingSucc c.refreshRequestGeneration
    rw [saturatingSucc_of_lt (by have := hroom.2; omega)]
    omega
  parkedModelLe := h.parkedModelLe
  busy := h.busy
  distinct := ⟨h.distinct.nodup, h.distinct.made⟩

/-- The bounded refresh needs room for the model generation alone. -/
theorem refreshRowsReady (h : Numbered c) (hroom : c.modelUpdateGeneration + 2 ≤ u64Max)
    (snapshot : ThreadModelSnapshot) (indices : List Nat) (force : Bool) :
    Numbered (c.refreshRowsReady snapshot indices force) := by
  unfold ThreadListController.refreshRowsReady
  split
  · exact h.startWork hroom _
  · exact h.rows (rowsChanged_refreshRows _ _ _)

theorem refreshRows (h : Numbered c) (hroom : c.Room) (snapshot : ThreadModelSnapshot)
    (indices : List Nat) (force : Bool) : Numbered (c.refreshRows snapshot indices force) := by
  unfold ThreadListController.refreshRows
  dsimp only
  split
  · exact h.park hroom snapshot indices force
  · exact (h.request hroom).refreshRowsReady hroom.1 snapshot indices force

end Numbered

/-! ## A run of a callback -/

/-- What a run of the callback at place `k` can do. -/
inductive IdleRun (c : ThreadListController κ) (k : Nat) :
    ThreadListController κ → Option (κ × Bool) → Prop where
  /-- the callback is of another generation and stops -/
  | stale (callback : IdleCallback κ) (hk : c.idle[k]? = some callback)
      (hlive : ¬ c.Live callback) :
      IdleRun c k { c with idle := c.idle.eraseIdx k }
        ((callback.complete).map fun f => (f, false))
  /-- a change of the model with work left -/
  | goesOn (work rest : ModelWork κ) (c₁ : ThreadListController κ)
      (hk : c.idle[k]? = some (.model c.modelUpdateGeneration work))
      (hwork : c.runWork work = (c₁, some rest)) :
      IdleRun c k { c₁ with idle := c₁.idle.set k (.model c.modelUpdateGeneration rest) } none
  /-- a change of the model at its end -/
  | finishes (work : ModelWork κ) (c₁ : ThreadListController κ)
      (hk : c.idle[k]? = some (.model c.modelUpdateGeneration work))
      (hwork : c.runWork work = (c₁, none)) :
      IdleRun c k { c₁ with busy := false, idle := c₁.idle.eraseIdx k }
        (work.complete.map fun f => (f, true))
  /-- a refresh that goes on waiting -/
  | waits (snapshot : ThreadModelSnapshot) (indices : List Nat) (force : Bool)
      (hk : c.idle[k]? = some (.parked c.refreshRequestGeneration c.modelUpdateGeneration snapshot
        indices force))
      (hbusy : c.busy = true) :
      IdleRun c k c none
  /-- a refresh whose turn has come -/
  | refreshes (snapshot : ThreadModelSnapshot) (indices : List Nat) (force : Bool)
      (hk : c.idle[k]? = some (.parked c.refreshRequestGeneration c.modelUpdateGeneration snapshot
        indices force))
      (hbusy : c.busy = false) :
      IdleRun c k
        ({ c with idle := c.idle.eraseIdx k }.refreshRowsReady snapshot indices force) none

theorem idleRun_of_runIdle {k : Nat} {completion : Option (κ × Bool)}
    (h : c.runIdle k = some (c', completion)) : IdleRun c k c' completion := by
  unfold runIdle at h
  split at h
  · exact absurd h (by simp)
  · next generation work hk =>
    split at h
    · next hgeneration =>
      obtain ⟨rfl, rfl⟩ := Prod.mk.inj (Option.some.inj h)
      exact .stale _ hk hgeneration
    · next hgeneration =>
      obtain rfl := Decidable.not_not.1 hgeneration
      split at h
      · next c₁ rest hwork =>
        obtain ⟨rfl, rfl⟩ := Prod.mk.inj (Option.some.inj h)
        exact .goesOn work rest c₁ hk hwork
      · next c₁ hwork =>
        obtain ⟨rfl, rfl⟩ := Prod.mk.inj (Option.some.inj h)
        exact .finishes work c₁ hk hwork
  · next refreshGeneration modelGeneration snapshot indices force hk =>
    split at h
    · next hgenerations =>
      obtain ⟨rfl, rfl⟩ := Prod.mk.inj (Option.some.inj h)
      refine .stale _ hk ?_
      rintro ⟨hrefresh, hmodel⟩
      exact hgenerations.elim (absurd hrefresh) (absurd hmodel)
    · next hgenerations =>
      rw [not_or, Decidable.not_not, Decidable.not_not] at hgenerations
      obtain ⟨rfl, rfl⟩ := hgenerations
      split at h
      · next hbusy =>
        obtain ⟨rfl, rfl⟩ := Prod.mk.inj (Option.some.inj h)
        exact .waits snapshot indices force hk hbusy
      · next hbusy =>
        obtain ⟨rfl, rfl⟩ := Prod.mk.inj (Option.some.inj h)
        exact .refreshes snapshot indices force hk (Bool.eq_false_iff.2 hbusy)

theorem Numbered.idleRun (h : Numbered c) (hroom : c.modelUpdateGeneration + 2 ≤ u64Max) {k : Nat}
    {completion : Option (κ × Bool)} (hrun : IdleRun c k c' completion) : Numbered c' := by
  cases hrun with
  | stale callback hk hlive => exact h.erase hk (Or.inl rfl)
  | goesOn work rest c₁ hk hwork =>
    have hrows : RowsChanged c c₁ := by
      have hrows := rowsChanged_runWork (c := c) work
      rwa [hwork] at hrows
    rw [← hrows.idle] at hk
    exact (h.rows hrows).set hk
  | finishes work c₁ hk hwork =>
    have hrows : RowsChanged c c₁ := by
      have hrows := rowsChanged_runWork (c := c) work
      rwa [hwork] at hrows
    rw [← hrows.idle] at hk
    refine (h.rows hrows).erase hk (Or.inr ⟨work, ?_⟩)
    rw [hrows.modelUpdateGeneration]
  | waits => exact h
  | refreshes snapshot indices force hk hbusy =>
    have herased : Numbered { c with idle := c.idle.eraseIdx k } := h.erase hk (Or.inl rfl)
    exact herased.refreshRowsReady hroom snapshot indices force

/-- The generations keep what they keep. -/
theorem Numbered.step (h : Numbered c) (hroom : c.Room) {event : ThreadListEvent κ}
    (hstep : c.step event = some c') : Numbered c' := by
  cases event with
  | refreshRows snapshot indices force =>
    obtain rfl := Option.some.inj hstep
    exact h.refreshRows hroom snapshot indices force
  | applyModelUpdate snapshot update complete =>
    obtain rfl := Option.some.inj hstep
    exact h.startWork hroom.1 _
  | setStatusRow message spinning =>
    obtain rfl := Option.some.inj hstep
    exact h.startWork hroom.1 _
  | cancelModelUpdate =>
    obtain rfl := Option.some.inj hstep
    exact h.cancelModelUpdate (Nat.le_of_succ_le hroom.1)
  | idle k =>
    obtain ⟨⟨c₁, completion⟩, hrun, rfl⟩ := Option.map_eq_some_iff.1 hstep
    exact h.idleRun hroom.1 (idleRun_of_runIdle hrun)

end ThreadListController

end Notm.Ui
