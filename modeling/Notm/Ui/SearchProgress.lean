import Notm.Ui.SearchNumbers
import Notm.Ui.ThreadListRows

/-!
# A search that is loading comes to an end

While the window says that a search is loading, something is on the way that ends it: a text that
waits, a request under way or an update of the list, under the newest generation. The updates of
the list end after finitely many runs of their callbacks.

* `left_runWork` — a run of a callback that leaves work leaves less of it.
* `drains` — so every completion is called.
* `InFlight`, `inFlight_step` — a search that is loading has something on the way that ends it.
-/

namespace Notm.Ui

open Rust Notmuch

/-- What is left to do, for a model of some length. -/
def ModelWork.left {κ : Type} (len : Nat) : ModelWork κ → Nat
  | .status _ => len
  | .refresh _ rest _ => rest.length
  | .update _ removing nextAdd endAdd nextRefresh refreshEnd _ =>
    (if removing then len + 1 else 0) + (endAdd - nextAdd) + (refreshEnd - nextRefresh)

namespace ThreadListController

variable {κ : Type} {c c' : ThreadListController κ}

/-! ## The callbacks of the list -/

theorem length_removeFront (count : Nat) :
    (c.removeFront count).model.length = c.model.length - count := List.length_drop

theorem left_runStatus {token : ThreadToken} {rest : ModelWork κ}
    (h : c.runStatus token = (c', some rest)) :
    rest.complete = none ∧ rest.left c'.model.length < c.model.length := by
  unfold runStatus at h
  dsimp only at h
  split at h
  · next hcount =>
    obtain ⟨rfl, hrest⟩ := Prod.mk.inj h
    obtain rfl := Option.some.inj hrest
    refine ⟨rfl, ?_⟩
    show (c.removeFront _).model.length < c.model.length
    rw [length_removeFront]
    omega
  · exact absurd (Prod.mk.inj h).2 (by simp)

theorem left_runRefresh {snapshot : ThreadModelSnapshot} {indices : List Nat} {force : Bool}
    {rest : ModelWork κ} (h : c.runRefresh snapshot indices force = (c', some rest)) :
    rest.complete = none ∧ rest.left c'.model.length < indices.length := by
  unfold runRefresh at h
  dsimp only at h
  split at h
  · exact absurd (Prod.mk.inj h).2 (by simp)
  · next hleft =>
    obtain rfl := Option.some.inj (Prod.mk.inj h).2
    refine ⟨rfl, ?_⟩
    show (indices.drop threadModelRowsPerUpdate).length < indices.length
    -- something is left, so a whole portion was taken
    have hmore : ¬ (indices.drop threadModelRowsPerUpdate).length = 0 := by
      rw [List.length_eq_zero_iff]
      simpa using hleft
    rw [List.length_drop] at hmore ⊢
    unfold threadModelRowsPerUpdate at hmore ⊢
    omega

/-- The additions never leave more to do, and with some budget they leave less. -/
theorem left_runAdditions {snapshot : ThreadModelSnapshot}
    {budget nextAdd endAdd nextRefresh refreshEnd : Nat} {complete : Option κ} {rest : ModelWork κ}
    (h : c.runAdditions snapshot budget nextAdd endAdd nextRefresh refreshEnd complete =
      (c', some rest)) :
    rest.complete = complete ∧
      rest.left c'.model.length ≤ (endAdd - nextAdd) + (refreshEnd - nextRefresh) ∧
      (0 < budget →
        rest.left c'.model.length < (endAdd - nextAdd) + (refreshEnd - nextRefresh)) := by
  unfold runAdditions at h
  dsimp only at h
  split at h
  · next hmore =>
    obtain rfl := Option.some.inj (Prod.mk.inj h).2
    refine ⟨rfl, ?_, fun hbudget => ?_⟩
    · simp only [ModelWork.left, Bool.false_eq_true, if_false]
      omega
    · simp only [ModelWork.left, Bool.false_eq_true, if_false]
      omega
  · next hadded =>
    obtain ⟨-, hrest⟩ := Prod.mk.inj h
    split at hrest
    · next hmore =>
      obtain rfl := Option.some.inj hrest
      refine ⟨rfl, ?_, fun hbudget => ?_⟩
      · simp only [ModelWork.left, Bool.false_eq_true, if_false]
        omega
      · simp only [ModelWork.left, Bool.false_eq_true, if_false]
        omega
    · exact absurd hrest (by simp)

theorem left_runUpdate {snapshot : ThreadModelSnapshot} {removing : Bool}
    {nextAdd endAdd nextRefresh refreshEnd : Nat} {complete : Option κ} {rest : ModelWork κ}
    (h : c.runUpdate snapshot removing nextAdd endAdd nextRefresh refreshEnd complete =
      (c', some rest)) :
    rest.complete = complete ∧
      rest.left c'.model.length <
        (ModelWork.update snapshot removing nextAdd endAdd nextRefresh refreshEnd
          complete).left c.model.length := by
  unfold runUpdate at h
  cases removing with
  | true =>
    rw [if_pos rfl] at h
    dsimp only at h
    split at h
    · obtain ⟨hcomplete, hle, -⟩ := left_runAdditions h
      refine ⟨hcomplete, ?_⟩
      simp only [ModelWork.left, if_true] at hle ⊢
      omega
    · next hmore =>
      obtain ⟨rfl, hrest⟩ := Prod.mk.inj h
      obtain rfl := Option.some.inj hrest
      refine ⟨rfl, ?_⟩
      -- rows are left, so a whole portion has gone
      have hrows : ¬ (c.removeFront (min c.model.length threadModelRowsPerUpdate)).model.length =
          0 := by
        rw [List.length_eq_zero_iff]
        simpa using hmore
      rw [length_removeFront] at hrows
      simp only [ModelWork.left, if_true, length_removeFront]
      unfold threadModelRowsPerUpdate at hrows ⊢
      omega
  | false =>
    rw [if_neg Bool.false_ne_true] at h
    obtain ⟨hcomplete, -, hlt⟩ := left_runAdditions h
    refine ⟨hcomplete, ?_⟩
    have hlt' := hlt (by decide)
    simp only [ModelWork.left, Bool.false_eq_true, if_false] at hlt' ⊢
    omega

/-- A run of a callback that leaves work leaves less of it, for the same completion. -/
theorem left_runWork {work rest : ModelWork κ} (h : c.runWork work = (c', some rest)) :
    rest.complete = work.complete ∧ rest.left c'.model.length < work.left c.model.length := by
  cases work with
  | status token => exact left_runStatus h
  | refresh snapshot indices force => exact left_runRefresh h
  | update snapshot removing nextAdd endAdd nextRefresh refreshEnd complete =>
    exact left_runUpdate h

/-- The callback at place `k` runs until it calls its completion. -/
inductive Drains (k : Nat) :
    ThreadListController κ → ThreadListController κ → κ × Bool → Prop where
  | last {c c' : ThreadListController κ} {completion : κ × Bool}
      (h : c.runIdle k = some (c', some completion)) : Drains k c c' completion
  | more {c c₁ c' : ThreadListController κ} {completion : κ × Bool}
      (h : c.runIdle k = some (c₁, none)) (hrest : Drains k c₁ c' completion) :
      Drains k c c' completion

/-- Every completion is called, and that of the newest update is told that it was applied. -/
theorem drains {k generation : Nat} {work : ModelWork κ} {complete : κ}
    (hk : c.idle[k]? = some (.model generation work)) (hcomplete : work.complete = some complete) :
    ∃ c' applied, Drains k c c' (complete, applied) ∧
      (c.modelUpdateGeneration = generation → applied = true) := by
  induction hleft : work.left c.model.length using Nat.strong_induction_on
    generalizing c work with
  | _ left ih =>
    by_cases hlive : c.modelUpdateGeneration = generation
    · cases hwork : c.runWork work with
      | mk c₁ rest =>
        have hrows := rowsChanged_runWork (c := c) work
        rw [hwork] at hrows
        cases rest with
        | none =>
          -- the last portion
          have hrun : c.runIdle k =
              some ({ c₁ with busy := false, idle := c₁.idle.eraseIdx k },
                some (complete, true)) := by
            unfold runIdle
            simp only [hk, hlive, ne_eq, not_true_eq_false, if_false, hwork, hcomplete,
              Option.map_some]
          exact ⟨_, true, .last hrun, fun _ => rfl⟩
        | some rest =>
          have hrun : c.runIdle k =
              some ({ c₁ with idle := c₁.idle.set k (.model generation rest) }, none) := by
            unfold runIdle
            simp only [hk, hlive, ne_eq, not_true_eq_false, if_false, hwork]
          obtain ⟨hsame, hless⟩ := left_runWork hwork
          have hlt : k < c₁.idle.length := by
            rw [hrows.idle]
            exact (List.getElem?_eq_some_iff.1 hk).1
          have hk' : (c₁.idle.set k (.model generation rest))[k]? = some (.model generation rest) :=
            List.getElem?_set_self hlt
          have hgeneration : c₁.modelUpdateGeneration = generation := by
            rw [hrows.modelUpdateGeneration, hlive]
          rw [hleft] at hless
          obtain ⟨c', applied, hdrains, happlied⟩ := ih (rest.left c₁.model.length) hless
            (c := { c₁ with idle := c₁.idle.set k (.model generation rest) }) hk'
            (hsame.trans hcomplete) rfl
          exact ⟨c', applied, .more hrun hdrains, fun _ => happlied hgeneration⟩
    · have hrun : c.runIdle k =
          some ({ c with idle := c.idle.eraseIdx k }, some (complete, false)) := by
        unfold runIdle
        simp only [hk, hlive, ne_eq, not_false_eq_true, if_true, hcomplete, Option.map_some]
      exact ⟨_, false, .last hrun, fun hsame => absurd hsame hlive⟩

/-! ## Completions that are still to come -/

theorem Completes.startWork {complete : κ} (h : c.Completes complete) (work : ModelWork κ) :
    (c.startWork work).Completes complete := by
  obtain ⟨callback, hmem, hcomplete⟩ := h
  exact ⟨callback, List.mem_append_left _ hmem, hcomplete⟩

theorem completes_own {work : ModelWork κ} {complete : κ}
    (hcomplete : work.complete = some complete) : (c.startWork work).Completes complete :=
  ⟨.model _ work, List.mem_append_right _ (List.mem_singleton_self _), hcomplete⟩

theorem Completes.refreshRowsReady {complete : κ} (h : c.Completes complete)
    (snapshot : ThreadModelSnapshot) (indices : List Nat) (force : Bool) :
    (c.refreshRowsReady snapshot indices force).Completes complete := by
  unfold ThreadListController.refreshRowsReady
  split
  · exact h.startWork _
  · obtain ⟨callback, hmem, hcomplete⟩ := h
    have hrows := rowsChanged_refreshRows (c := c) snapshot force
      (indices.filter (· < snapshot.len))
    refine ⟨callback, ?_, hcomplete⟩
    show callback ∈ ((indices.filter (· < snapshot.len)).foldl (refreshRow snapshot force) c).idle
    rw [hrows.idle]
    exact hmem

theorem Completes.refreshRows {complete : κ} (h : c.Completes complete)
    (snapshot : ThreadModelSnapshot) (indices : List Nat) (force : Bool) :
    (c.refreshRows snapshot indices force).Completes complete := by
  unfold ThreadListController.refreshRows
  dsimp only
  split
  · obtain ⟨callback, hmem, hcomplete⟩ := h
    exact ⟨callback, List.mem_append_left _ hmem, hcomplete⟩
  · have hsame : Completes
        { c with refreshRequestGeneration := saturatingSucc c.refreshRequestGeneration }
        complete := h
    exact hsame.refreshRowsReady snapshot indices force

/-- A completion is still to come after a run of a callback, unless the run has called it. -/
theorem Completes.idleRun {complete : κ} (h : c.Completes complete) {k : Nat}
    {completion : Option (κ × Bool)} (hrun : IdleRun c k c' completion) :
    c'.Completes complete ∨ ∃ applied, completion = some (complete, applied) := by
  obtain ⟨callback, hmem, hcomplete⟩ := h
  obtain ⟨i, hi⟩ := List.getElem?_of_mem hmem
  -- any other callback stays where it is
  have hother : ∀ {idle : List (IdleCallback κ)}, idle = c.idle → k ≠ i →
      callback ∈ idle.eraseIdx k := by
    rintro idle rfl hplace
    exact List.mem_eraseIdx_iff_getElem?.2 ⟨i, hplace.symm, hi⟩
  cases hrun with
  | stale callback' hk hlive =>
    by_cases hplace : k = i
    · subst hplace
      obtain rfl := Option.some.inj (hk.symm.trans hi)
      exact Or.inr ⟨false, by rw [hcomplete]; rfl⟩
    · exact Or.inl ⟨callback, hother rfl hplace, hcomplete⟩
  | goesOn work rest rows hk hwork =>
    have hrows := rowsChanged_runWork (c := c) work
    rw [hwork] at hrows
    have hlt : k < rows.idle.length := by
      rw [hrows.idle]
      exact (List.getElem?_eq_some_iff.1 hk).1
    by_cases hplace : k = i
    · subst hplace
      obtain rfl := Option.some.inj (hk.symm.trans hi)
      refine Or.inl ⟨.model c.modelUpdateGeneration rest, List.mem_set hlt _, ?_⟩
      exact (left_runWork hwork).1.trans hcomplete
    · refine Or.inl ⟨callback, ?_, hcomplete⟩
      refine List.mem_of_getElem? (i := i) ?_
      show (rows.idle.set k _)[i]? = some callback
      rw [List.getElem?_set_ne hplace, hrows.idle, hi]
  | finishes work rows hk hwork =>
    have hrows := rowsChanged_runWork (c := c) work
    rw [hwork] at hrows
    by_cases hplace : k = i
    · subst hplace
      obtain rfl := Option.some.inj (hk.symm.trans hi)
      have hown : work.complete = some complete := hcomplete
      exact Or.inr ⟨true, by rw [hown]; rfl⟩
    · exact Or.inl ⟨callback, hother hrows.idle hplace, hcomplete⟩
  | waits => exact Or.inl ⟨callback, hmem, hcomplete⟩
  | refreshes snapshot indices force hk hbusy =>
    by_cases hplace : k = i
    · subst hplace
      obtain rfl := Option.some.inj (hk.symm.trans hi)
      exact absurd hcomplete (by simp [IdleCallback.complete])
    · refine Or.inl ?_
      have herased : Completes { c with idle := c.idle.eraseIdx k } complete :=
        ⟨callback, hother rfl hplace, hcomplete⟩
      exact herased.refreshRowsReady snapshot indices force

end ThreadListController

namespace SearchWindow

variable {D : Type} {w w' : SearchWindow D}

/-! ## What ends the newest search -/

/-- A text that waits, a request under way or an update of the list has the newest generation. -/
def InFlight (w : SearchWindow D) : Prop :=
  (∃ query, w.reserved = some (query, w.barGeneration)) ∨
    (∃ request ∈ w.requests, request.generation = w.barGeneration) ∨
    w.list.Completes w.barGeneration

theorem InFlight.list {list : ThreadListController Nat} (h : InFlight w)
    (hcompletes : w.list.Completes w.barGeneration → list.Completes w.barGeneration)
    (hsame : w'.reserved = w.reserved ∧ w'.requests = w.requests ∧
      w'.barGeneration = w.barGeneration ∧ w'.list = list) : InFlight w' := by
  obtain ⟨hreserved, hrequests, hbar, hlist⟩ := hsame
  unfold InFlight
  rw [hreserved, hrequests, hbar, hlist]
  exact h.imp_right (Or.imp_right hcompletes)

/-- A page is requested under the newest generation. -/
theorem inFlight_launchRequest (w : SearchWindow D) (purpose : PagePurpose) (query : Str)
    (offset : Nat) : InFlight (w.launchRequest purpose query offset) :=
  Or.inr (Or.inl ⟨_, List.mem_append_right _ (List.mem_singleton_self _), rfl⟩)

theorem finishSearchActivity_loading {generation : Nat} (h : w.searchGeneration = generation) :
    (w.finishSearchActivity generation).searchLoading = false := by
  unfold finishSearchActivity
  rw [if_pos h]

theorem finishSearchError_loading (w : SearchWindow D) (error : Str) :
    (w.finishSearchError error).searchLoading = w.searchLoading := by
  unfold finishSearchError
  dsimp only
  split <;> rfl

/-- A page that is accepted puts an update of the list on its way, which completes its request. -/
theorem answerRequest_ok (w : SearchWindow D) (request : PageRequest) (data : SearchData D)
    (selectedThreadId : Option Str) (selectedIndex : Option Nat) :
    ∃ work pages, work.complete = some request.generation ∧
      w.answerRequest request (.ok data selectedThreadId selectedIndex) =
        some { w with list := w.list.startWork work, pages := pages } := by
  obtain ⟨generation, purpose, query, offset⟩ := request
  cases purpose with
  | search => exact ⟨_, _, rfl, rfl⟩
  | containingIndex => exact ⟨_, _, rfl, rfl⟩
  | more selectLastLoaded =>
    refine ⟨_, _, ?_, rfl⟩
    cases (reduceAppendSearch (w.pages.searchSnapshot selectedThreadId selectedIndex) data
      selectLastLoaded).modelUpdate with
    | replace => rfl
    | append start count => rfl

/-- An accepted answer puts an update on its way, or ends the activity. -/
theorem inFlight_answerRequest {request : PageRequest} {answer : PageAnswer D}
    (hgeneration : request.generation = w.barGeneration)
    (hsearch : w.searchGeneration = w.barGeneration)
    (h : w.answerRequest request answer = some w') :
    w'.searchLoading = false ∨ InFlight w' := by
  have hown : w.searchGeneration = request.generation := by rw [hsearch, hgeneration]
  cases answer with
  | ok data selectedThreadId selectedIndex =>
    obtain ⟨work, pages, hcomplete, hanswer⟩ :=
      w.answerRequest_ok request data selectedThreadId selectedIndex
    obtain rfl := Option.some.inj (hanswer.symm.trans h)
    rw [hgeneration] at hcomplete
    exact Or.inr (Or.inr (Or.inr (ThreadListController.completes_own hcomplete)))
  | error error =>
    obtain rfl := Option.some.inj h
    refine Or.inl ?_
    rw [finishSearchError_loading]
    exact finishSearchActivity_loading hown
  | stale =>
    unfold answerRequest at h
    dsimp only at h
    split at h
    · obtain rfl := Option.some.inj h
      exact Or.inl (finishSearchActivity_loading hown)
    · exact absurd h (by simp)
    · exact absurd h (by simp)

theorem inFlight_respond (hsearch : w.searchGeneration = w.barGeneration) (h : InFlight w)
    {k : Nat} {answer : PageAnswer D} (hstep : w.respond k answer = some w') :
    w'.searchLoading = false ∨ InFlight w' := by
  unfold respond at hstep
  split at hstep
  · exact absurd hstep (by simp)
  · next request hrequest =>
    dsimp only at hstep
    split at hstep
    · next haccepts =>
      rw [accepts, Bool.and_eq_true, beq_iff_eq, beq_iff_eq] at haccepts
      exact inFlight_answerRequest (w := { w with requests := w.requests.eraseIdx k })
        haccepts.1.symm hsearch hstep
    · next hlate =>
      obtain rfl := Option.some.inj hstep
      refine Or.inr (h.imp_right (Or.imp_left ?_))
      rintro ⟨other, hmem, hnewest⟩
      -- the response that comes too late is that of another request
      obtain ⟨i, hi⟩ := List.getElem?_of_mem hmem
      refine ⟨other, List.mem_eraseIdx_iff_getElem?.2 ⟨i, ?_, hi⟩, hnewest⟩
      rintro rfl
      obtain rfl := Option.some.inj (hi.symm.trans hrequest)
      refine hlate ?_
      rw [accepts, Bool.and_eq_true, beq_iff_eq, beq_iff_eq]
      exact ⟨hnewest.symm, by rw [hnewest]; exact hsearch⟩

theorem inFlight_runIdle (hsearch : w.searchGeneration = w.barGeneration) (h : InFlight w)
    {k : Nat} (hstep : w.runIdle k = some w') : w'.searchLoading = false ∨ InFlight w' := by
  obtain ⟨⟨list, completion⟩, hrun, rfl⟩ := Option.map_eq_some_iff.1 hstep
  have hidle := ThreadListController.idleRun_of_runIdle hrun
  by_cases hcalled : ∃ applied, completion = some (w.barGeneration, applied)
  · obtain ⟨applied, rfl⟩ := hcalled
    refine Or.inl ?_
    exact finishSearchActivity_loading (w := { w with list := list }) hsearch
  · have hlist : InFlight { w with list := list } :=
      h.list (fun hcompletes => (hcompletes.idleRun hidle).resolve_right hcalled)
        ⟨rfl, rfl, rfl, rfl⟩
    cases completion with
    | none => exact Or.inr hlist
    | some completion =>
      obtain ⟨loading, -, hfinished⟩ :=
        finishSearchActivity_eq { w with list := list } completion.1
      refine Or.inr ?_
      show InFlight (finishSearchActivity { w with list := list } completion.1)
      rw [hfinished]
      exact hlist

/-- A search that is loading has something on the way that ends it: every step keeps that, as long
as no text that waits under the newest generation is dropped for a sync. -/
theorem inFlight_step (hsearch : w.searchGeneration = w.barGeneration)
    (h : w.searchLoading = true → InFlight w) {event : SearchEvent D}
    (hkept : event = .inputCleared true true →
      ∀ query, w.reserved ≠ some (query, w.barGeneration))
    (hstep : w.step event = some w') (hloading : w'.searchLoading = true) : InFlight w' := by
  have hnot : ∀ {b : Bool}, b = true → ¬ b = false := by simp
  cases event with
  | schedule query loading =>
    obtain rfl := Option.some.inj hstep
    exact inFlight_launchRequest _ _ _ _
  -- A cleared text drops what waits. During a sync the search before goes on without it.
  | inputCleared syncInProgress syncRefreshing =>
    obtain rfl := Option.some.inj hstep
    unfold clearInput at hloading ⊢
    dsimp only at hloading ⊢
    split at hloading
    · next hsync =>
      rw [if_pos hsync]
      rw [Bool.and_eq_true] at hsync
      obtain ⟨rfl, rfl⟩ := hsync
      exact Or.inr ((h hloading).resolve_left fun ⟨query, hwaits⟩ => hkept rfl query hwaits)
    · next hsync =>
      rw [if_neg hsync]
      split at hloading
      · next hreplaces =>
        rw [if_pos hreplaces]
        exact inFlight_launchRequest _ _ _ _
      · exact absurd hloading Bool.false_ne_true
  | inputReserved query =>
    obtain rfl := Option.some.inj hstep
    exact Or.inl ⟨query, rfl⟩
  | inputDispatched =>
    have hstep : w.dispatchInput = some w' := hstep
    unfold dispatchInput at hstep
    split at hstep
    · exact absurd hstep (by simp)
    · next query generation hreserved =>
      dsimp only at hstep
      split at hstep
      · obtain rfl := Option.some.inj hstep
        exact inFlight_launchRequest _ _ _ _
      · next hold =>
        obtain rfl := Option.some.inj hstep
        refine Or.inr ((h hloading).resolve_left ?_)
        rintro ⟨query', hwaits⟩
        obtain ⟨-, rfl⟩ := Prod.mk.inj (Option.some.inj (hreserved.symm.trans hwaits))
        exact hold rfl
  | loadMore selectLastLoaded =>
    obtain rfl := Option.some.inj hstep
    unfold loadMoreThreads at hloading ⊢
    split at hloading
    · exact h hloading
    · exact h hloading
    · exact inFlight_launchRequest _ _ _ _
  | loadPage offset =>
    obtain rfl := Option.some.inj hstep
    unfold SearchWindow.loadPage at hloading ⊢
    split at hloading
    · next hbusy =>
      rw [if_pos hbusy]
      exact h hloading
    · next hfree =>
      rw [if_neg hfree]
      exact inFlight_launchRequest _ _ _ _
  | respond k answer =>
    have hrespond : w.respond k answer = some w' := hstep
    exact (inFlight_respond hsearch (h (loading_respond hrespond hloading))
      hrespond).resolve_left (hnot hloading)
  | tagOperation refresh =>
    cases refresh with
    | none =>
      obtain rfl := Option.some.inj hstep
      exact absurd hloading Bool.false_ne_true
    | some query =>
      obtain rfl := Option.some.inj hstep
      exact inFlight_launchRequest _ _ _ _
  -- The list is changed by a new update, which leaves what completes the search where it is.
  | removeThread threadId =>
    obtain rfl := Option.some.inj hstep
    exact (h hloading).list (fun hcompletes => hcompletes.startWork _) ⟨rfl, rfl, rfl, rfl⟩
  | applySettings display pageSize =>
    obtain rfl := Option.some.inj hstep
    exact (h hloading).list (fun hcompletes => hcompletes.startWork _) ⟨rfl, rfl, rfl, rfl⟩
  | setDisplay display =>
    obtain rfl := Option.some.inj hstep
    exact (h hloading).list (fun hcompletes => hcompletes.refreshRows _ _ _) ⟨rfl, rfl, rfl, rfl⟩
  | refreshRows indices force =>
    obtain rfl := Option.some.inj hstep
    exact (h hloading).list (fun hcompletes => hcompletes.refreshRows _ _ _) ⟨rfl, rfl, rfl, rfl⟩
  | idle k =>
    have hidle : w.runIdle k = some w' := hstep
    exact (inFlight_runIdle hsearch (h (loading_runIdle hidle hloading))
      hidle).resolve_left (hnot hloading)

end SearchWindow

end Notm.Ui
