import Notm.Ui.ThreadListSearch

/-!
# The generations of the searches

What a step of the search can do to them, said once: a generation is taken for a text that waits,
for a page that is requested, or for nothing but the end of the search before it.

* `Numbers` — what a step can do to the generations, together with the text that waits.
* `numbers_step` — every step is one of these while the generations last.
* `loading_respond`, `loading_runIdle` — a response and a callback begin nothing.
-/

namespace Notm.Ui

open Rust Notmuch

namespace SearchWindow

variable {D : Type} {w w' : SearchWindow D}

/-- What a step can do to the generations, to the text that waits and to the requests under way. -/
inductive Numbers (w w' : SearchWindow D) : Prop where
  | keeps (hbar : w'.barGeneration = w.barGeneration)
      (hsearch : w'.searchGeneration = w.searchGeneration)
      (hrequests : w'.requests = w.requests) (hreserved : w'.reserved = w.reserved)
  /-- a text that waited is gone -/
  | drops (hbar : w'.barGeneration = w.barGeneration)
      (hsearch : w'.searchGeneration = w.searchGeneration)
      (hrequests : w'.requests = w.requests) (hreserved : w'.reserved = none)
  /-- a text that waited is requested under its own generation -/
  | dispatches (query : Str) (hbar : w'.barGeneration = w.barGeneration)
      (hsearch : w'.searchGeneration = w.searchGeneration)
      (hwaited : w.reserved = some (query, w.barGeneration))
      (hrequests : w'.requests = w.requests ++ [⟨w.barGeneration, .search, query, 0⟩])
      (hreserved : w'.reserved = none)
  /-- a generation for nothing but to end the search before it -/
  | cancels (hbar : w.barGeneration < w'.barGeneration)
      (hsearch : w'.searchGeneration = w'.barGeneration) (hrequests : w'.requests = w.requests)
      (hreserved : w'.reserved = none ∨ w'.reserved = w.reserved)
  /-- a generation for a text that waits from now on -/
  | reserves (query : Str) (hbar : w.barGeneration < w'.barGeneration)
      (hsearch : w'.searchGeneration = w'.barGeneration) (hrequests : w'.requests = w.requests)
      (hreserved : w'.reserved = some (query, w'.barGeneration))
  /-- a generation for a page that is requested at once; a full search begins at its first -/
  | begins (purpose : PagePurpose) (query : Str) (offset : Nat)
      (hbar : w.barGeneration < w'.barGeneration)
      (hsearch : w'.searchGeneration = w'.barGeneration)
      (hrequests : w'.requests = w.requests ++ [⟨w'.barGeneration, purpose, query, offset⟩])
      (hreserved : w'.reserved = none ∨ w'.reserved = w.reserved)
      (hoffset : purpose = .search → offset = 0)
  /-- the response to the request at place `k` has arrived -/
  | answers (k : Nat) (request : PageRequest) (hbar : w'.barGeneration = w.barGeneration)
      (hsearch : w'.searchGeneration = w.searchGeneration)
      (hrequest : w.requests[k]? = some request) (hrequests : w'.requests = w.requests.eraseIdx k)
      (hreserved : w'.reserved = w.reserved)

/-- The activity may end, and nothing else does. -/
theorem finishSearchActivity_eq (w : SearchWindow D) (generation : Nat) :
    ∃ loading, (loading = true → w.searchLoading = true) ∧
      w.finishSearchActivity generation = { w with searchLoading := loading } := by
  unfold finishSearchActivity
  split
  · exact ⟨false, fun h => absurd h Bool.false_ne_true, rfl⟩
  · exact ⟨w.searchLoading, id, rfl⟩

/-- An accepted answer changes the list and its pages, and may end the activity. -/
theorem answerRequest_eq {request : PageRequest} {answer : PageAnswer D}
    (h : w.answerRequest request answer = some w') :
    ∃ list pages loading, (loading = true → w.searchLoading = true) ∧
      w' = { w with list := list, pages := pages, searchLoading := loading } := by
  cases answer with
  | ok data selectedThreadId selectedIndex =>
    unfold answerRequest at h
    dsimp only at h
    split at h
    all_goals
      obtain rfl := Option.some.inj h
      exact ⟨_, _, w.searchLoading, id, rfl⟩
  | error error =>
    obtain rfl := Option.some.inj h
    obtain ⟨loading, hmay, hfinished⟩ := w.finishSearchActivity_eq request.generation
    rw [hfinished]
    unfold finishSearchError
    dsimp only
    split
    · exact ⟨_, _, loading, hmay, rfl⟩
    · exact ⟨w.list, w.pages, loading, hmay, rfl⟩
  | stale =>
    unfold answerRequest at h
    dsimp only at h
    split at h
    · obtain rfl := Option.some.inj h
      obtain ⟨loading, hmay, hfinished⟩ := w.finishSearchActivity_eq request.generation
      exact ⟨w.list, w.pages, loading, hmay, hfinished⟩
    · exact absurd h (by simp)
    · exact absurd h (by simp)

theorem numbers_respond {k : Nat} {answer : PageAnswer D} (h : w.respond k answer = some w') :
    Numbers w w' := by
  unfold respond at h
  split at h
  · exact absurd h (by simp)
  · next request hrequest =>
    dsimp only at h
    split at h
    · obtain ⟨list, pages, loading, -, rfl⟩ := answerRequest_eq h
      exact .answers k request rfl rfl hrequest rfl rfl
    · obtain rfl := Option.some.inj h
      exact .answers k request rfl rfl hrequest rfl rfl

theorem numbers_runIdle {k : Nat} (h : w.runIdle k = some w') : Numbers w w' := by
  obtain ⟨⟨list, completion⟩, -, rfl⟩ := Option.map_eq_some_iff.1 h
  cases completion with
  | none => exact .keeps rfl rfl rfl rfl
  | some completion =>
    obtain ⟨loading, -, hfinished⟩ :=
      SearchWindow.finishSearchActivity_eq { w with list := list } completion.1
    have hnumbers : Numbers w (SearchWindow.finishSearchActivity { w with list := list }
        completion.1) := by
      rw [hfinished]
      exact .keeps rfl rfl rfl rfl
    exact hnumbers

/-- Two generations are taken at most. -/
theorem numbers_clearInput (hroom : w.barGeneration + 2 ≤ u64Max)
    (syncInProgress syncRefreshing : Bool) :
    Numbers w (w.clearInput syncInProgress syncRefreshing) := by
  have hnext : saturatingSucc w.barGeneration = w.barGeneration + 1 :=
    saturatingSucc_of_lt (by omega)
  have hnext' : saturatingSucc (w.barGeneration + 1) = w.barGeneration + 2 :=
    saturatingSucc_of_lt (by omega)
  unfold clearInput
  dsimp only
  split
  · exact .drops rfl rfl rfl rfl
  · split
    · refine .begins .search w.pages.currentQuery 0 ?_ rfl rfl (Or.inl rfl) fun _ => rfl
      show w.barGeneration < saturatingSucc (saturatingSucc w.barGeneration)
      rw [hnext, hnext']
      omega
    · refine .cancels ?_ rfl rfl (Or.inl rfl)
      show w.barGeneration < saturatingSucc w.barGeneration
      omega

/-- A step is one of these as long as the generations do not run out. -/
theorem numbers_step (hroom : w.barGeneration + 2 ≤ u64Max) {event : SearchEvent D}
    (h : w.step event = some w') : Numbers w w' := by
  have hnext : saturatingSucc w.barGeneration = w.barGeneration + 1 :=
    saturatingSucc_of_lt (by omega)
  have hnext' : saturatingSucc (w.barGeneration + 1) = w.barGeneration + 2 :=
    saturatingSucc_of_lt (by omega)
  have hlt : w.barGeneration < saturatingSucc w.barGeneration := by omega
  cases event with
  | schedule query loading =>
    obtain rfl := Option.some.inj h
    cases loading with
    | none => exact .begins .search query 0 hlt rfl rfl (Or.inr rfl) fun _ => rfl
    | some message => exact .begins .search query 0 hlt rfl rfl (Or.inr rfl) fun _ => rfl
  | inputCleared syncInProgress syncRefreshing =>
    obtain rfl := Option.some.inj h
    exact numbers_clearInput hroom syncInProgress syncRefreshing
  | inputReserved query =>
    obtain rfl := Option.some.inj h
    exact .reserves query hlt rfl rfl rfl
  -- the text is dispatched under the generation that it reserved, or dropped with it
  | inputDispatched =>
    have h : w.dispatchInput = some w' := h
    unfold dispatchInput at h
    split at h
    · exact absurd h (by simp)
    · next query generation hreserved =>
      dsimp only at h
      split at h
      · next hcurrent =>
        obtain rfl := Option.some.inj h
        refine .dispatches query rfl rfl ?_ rfl rfl
        rw [hreserved, ← hcurrent]
      · obtain rfl := Option.some.inj h
        exact .drops rfl rfl rfl rfl
  | loadMore selectLastLoaded =>
    obtain rfl := Option.some.inj h
    unfold loadMoreThreads
    split
    · exact .keeps rfl rfl rfl rfl
    · exact .keeps rfl rfl rfl rfl
    · next query offset _ =>
      exact .begins (.more selectLastLoaded) query offset hlt rfl rfl (Or.inr rfl) (by simp)
  | loadPage offset =>
    obtain rfl := Option.some.inj h
    unfold SearchWindow.loadPage
    split
    · exact .keeps rfl rfl rfl rfl
    · exact .begins .containingIndex w.pages.currentQuery offset hlt rfl rfl (Or.inr rfl) (by simp)
  | respond k answer => exact numbers_respond h
  -- One generation ends the search before; the refresh takes the one behind it.
  | tagOperation refresh =>
    cases refresh with
    | none =>
      obtain rfl := Option.some.inj h
      exact .cancels hlt rfl rfl (Or.inr rfl)
    | some query =>
      obtain rfl := Option.some.inj h
      refine .begins .search query 0 ?_ rfl rfl (Or.inr rfl) fun _ => rfl
      show w.barGeneration < saturatingSucc (saturatingSucc w.barGeneration)
      rw [hnext, hnext']
      omega
  | removeThread threadId =>
    obtain rfl := Option.some.inj h
    exact .keeps rfl rfl rfl rfl
  | applySettings display pageSize =>
    obtain rfl := Option.some.inj h
    exact .keeps rfl rfl rfl rfl
  | setDisplay display =>
    obtain rfl := Option.some.inj h
    exact .keeps rfl rfl rfl rfl
  | refreshRows indices force =>
    obtain rfl := Option.some.inj h
    exact .keeps rfl rfl rfl rfl
  | idle k => exact numbers_runIdle h

theorem Numbers.bar_le (h : Numbers w w') : w.barGeneration ≤ w'.barGeneration := by
  cases h <;> omega

/-! ## The activity -/

/-- A response begins nothing. -/
theorem loading_respond {k : Nat} {answer : PageAnswer D} (h : w.respond k answer = some w')
    (hloading : w'.searchLoading = true) : w.searchLoading = true := by
  unfold respond at h
  split at h
  · exact absurd h (by simp)
  · dsimp only at h
    split at h
    · obtain ⟨list, pages, loading, hmay, rfl⟩ := answerRequest_eq h
      exact hmay hloading
    · obtain rfl := Option.some.inj h
      exact hloading

/-- Nor does a callback of the list. -/
theorem loading_runIdle {k : Nat} (h : w.runIdle k = some w')
    (hloading : w'.searchLoading = true) : w.searchLoading = true := by
  obtain ⟨⟨list, completion⟩, -, rfl⟩ := Option.map_eq_some_iff.1 h
  cases completion with
  | none => exact hloading
  | some completion =>
    obtain ⟨loading, hmay, hfinished⟩ :=
      SearchWindow.finishSearchActivity_eq { w with list := list } completion.1
    refine hmay ?_
    have hloading' : (SearchWindow.finishSearchActivity { w with list := list }
        completion.1).searchLoading = true := hloading
    rw [hfinished] at hloading'
    exact hloading'

end SearchWindow

end Notm.Ui
