import Notm.Ui.ExternalRefresh
import Notm.Ui.SearchNumbers

/-!
# The steps of a refresh

What each step can do, said once: to the requests that wait, and to what the window remembers of its
full searches. Every call has one reply, and every generation one use.

* `Polls` — what the timer of a request can do.
* `Follows` — what a step of the search does to what is remembered of the full searches.
* `Used`, `Remembers` — no generation is used twice, and what is remembered is of the past.
* `Counted` — the calls that have arrived are those that wait and those that were answered.
* `searches_step`, `search_of_step` — a step leaves the searches alone, or is one of theirs.
-/

namespace Notm.Ui

open Rust Notmuch Transition

namespace RefreshWindow

variable {D : Type} {r r' : RefreshWindow D}

/-! ## Each call has one reply -/

/-- The calls that have arrived are those that wait and those that have a reply, each once; the
count of those that wait is right, and bounded; so is the time they have left. -/
structure Counted (r : RefreshWindow D) : Prop where
  calls : (r.waiting.map WaitingRefresh.invocation ++ r.replies.map Prod.fst).Perm
    (List.range r.calls)
  pending : r.pending = r.waiting.length
  bounded : r.pending ≤ maxPending
  deadlines : ∀ request ∈ r.waiting, request.deadline ≤ r.now + 300000

/-- The requests are as they were, and so are the searches under way. -/
structure SameRequests (r r' : RefreshWindow D) : Prop where
  now : r'.now = r.now
  search : r'.search = r.search
  waiting : r'.waiting = r.waiting
  replies : r'.replies = r.replies
  pending : r'.pending = r.pending
  calls : r'.calls = r.calls
  visible : r'.visible = r.visible
  closeWhenIdle : r'.closeWhenIdle = r.closeWhenIdle
  closeFlushInProgress : r'.closeFlushInProgress = r.closeFlushInProgress
  syncRefreshGeneration : r'.syncRefreshGeneration = r.syncRefreshGeneration

namespace SameRequests

theorem trans {r'' : RefreshWindow D} (h : SameRequests r r') (h' : SameRequests r' r'') :
    SameRequests r r'' where
  now := h'.now.trans h.now
  search := h'.search.trans h.search
  waiting := h'.waiting.trans h.waiting
  replies := h'.replies.trans h.replies
  pending := h'.pending.trans h.pending
  calls := h'.calls.trans h.calls
  visible := h'.visible.trans h.visible
  closeWhenIdle := h'.closeWhenIdle.trans h.closeWhenIdle
  closeFlushInProgress := h'.closeFlushInProgress.trans h.closeFlushInProgress
  syncRefreshGeneration := h'.syncRefreshGeneration.trans h.syncRefreshGeneration

/-- What the window remembers of its searches is not of the requests. -/
theorem remembered (r : RefreshWindow D) (error : Option Str) (recording : List Nat) :
    SameRequests r { r with searchError := error, recording := recording } := by
  constructor <;> rfl

end SameRequests

theorem sameRequests_record (r : RefreshWindow D) (generation : Nat) (completed : Bool) :
    SameRequests r (r.recordFullSearchOutcome generation completed) := by
  unfold recordFullSearchOutcome
  split <;> constructor <;> rfl

theorem sameRequests_afterResponse (r : RefreshWindow D) (request : PageRequest)
    (answer : PageAnswer D) : SameRequests r (r.afterResponse request answer) := by
  unfold afterResponse
  split
  · split <;> constructor <;> rfl
  · split <;> constructor <;> rfl
  · constructor <;> rfl

theorem sameRequests_afterListUpdate (r : RefreshWindow D) (generation : Nat) (applied : Bool) :
    SameRequests r (r.afterListUpdate generation applied) := by
  have hrecording := SameRequests.remembered r r.searchError
    (r.recording.filter (· != generation))
  unfold afterListUpdate
  dsimp only
  split
  · have hrecorded := hrecording.trans (sameRequests_record _ generation applied)
    split
    · exact hrecorded
    · exact hrecorded.trans (by constructor <;> rfl)
  · exact hrecording

/-- A step of the search leaves the requests as they were. -/
theorem sameRequests_afterSearch (r : RefreshWindow D) (event : SearchEvent D)
    (search : SearchWindow D) :
    SameRequests { r with search := search } (r.afterSearch event search) := by
  have herror := SameRequests.remembered { r with search := search } (r.searchErrorAfter event)
    r.recording
  cases event with
  | respond k answer =>
    unfold afterSearch
    dsimp only
    split
    · exact herror
    · next request _ =>
      split
      · exact herror.trans (sameRequests_afterResponse _ request answer)
      · exact herror
  | idle k =>
    unfold afterSearch
    dsimp only
    split
    · next generation applied _ =>
      exact herror.trans (sameRequests_afterListUpdate _ generation applied)
    · exact herror
  | tagOperation refresh => cases refresh <;> constructor <;> rfl
  | _ => constructor <;> rfl

/-- A step of the search, and what follows from it. -/
theorem search_of_step {event : SearchEvent D} (h : r.step (.search event) = some r') :
    ∃ search, r.Admits event ∧ r.search.step event = some search ∧
      r.afterSearch event search = r' := by
  unfold step at h
  dsimp only at h
  split at h
  · next hadmits =>
    obtain ⟨search, hsearch, hafter⟩ := Option.map_eq_some_iff.1 h
    exact ⟨search, hadmits, hsearch, hafter⟩
  · exact absurd h (by simp)

/-- What the timer of a request can do. -/
inductive Polls (r : RefreshWindow D) (k : Nat) (request : WaitingRefresh) :
    RefreshWindow D → Prop where
  /-- the window is closing, or the time is up -/
  | refuses (kind : String) (message : Str)
      (hover : r.visible = false ∨ r.closeWhenIdle = true ∨ r.closeFlushInProgress = true ∨
        request.deadline ≤ r.now)
      (hkind : kind = "Closed" ∨ kind = "Timeout") :
      Polls r k request ({ r with
        pending := r.pending - 1
        waiting := r.waiting.eraseIdx k }.reply request.invocation (returnError kind message))
  /-- a writer is busy, and the search must begin after it -/
  | postpones (hbusy : r.writers.busy = true) :
      Polls r k request { r with
        waiting := r.waiting.set k
          { request with minimumGeneration := saturatingSucc r.search.searchGeneration } }
  /-- a search is loading -/
  | waits (hbusy : r.writers.busy = false) (hloading : r.search.searchLoading = true) :
      Polls r k request { r with waiting := r.waiting.set k request }
  /-- a full search has ended that began late enough -/
  | succeeds (hbusy : r.writers.busy = false) (hloading : r.search.searchLoading = false)
      (houtcome : request.minimumGeneration ≤ r.fullSearchOutcomeGeneration)
      (herror : r.fullSearchOutcomeError = none) :
      Polls r k request ({ r with
        pending := r.pending - 1
        waiting := r.waiting.eraseIdx k }.reply request.invocation
          (.value r.fullSearchOutcomeGeneration))
  /-- such a search has failed -/
  | fails (error : Str) (hbusy : r.writers.busy = false)
      (hloading : r.search.searchLoading = false)
      (houtcome : request.minimumGeneration ≤ r.fullSearchOutcomeGeneration)
      (herror : r.fullSearchOutcomeError = some error) :
      Polls r k request ({ r with
        pending := r.pending - 1
        waiting := r.waiting.eraseIdx k }.reply request.invocation
          (returnError "SearchFailed" error))
  /-- such a search is begun -/
  | schedules (hbusy : r.writers.busy = false) (hloading : r.search.searchLoading = false)
      (houtcome : r.fullSearchOutcomeGeneration < request.minimumGeneration) :
      Polls r k request { r.scheduleRefresh with
        waiting := r.scheduleRefresh.waiting.set k request }

theorem polls_of_poll {k : Nat} (h : r.poll k = some r') :
    ∃ request, r.waiting[k]? = some request ∧ Polls r k request r' := by
  unfold poll at h
  cases hk : r.waiting[k]? with
  | none => simp [hk] at h
  | some request =>
    refine ⟨request, rfl, ?_⟩
    rw [hk] at h
    dsimp only at h
    unfold pollRefresh at h
    -- The questions of `poll_refresh` in their order; the first that is answered decides.
    by_cases hclosed : r.visible = false ∨ r.closeWhenIdle = true ∨ r.closeFlushInProgress = true
    · rw [if_pos hclosed] at h
      obtain rfl := Option.some.inj h
      refine .refuses "Closed" _ ?_ (Or.inl rfl)
      rcases hclosed with hvisible | hidle | hflush
      · exact Or.inl hvisible
      · exact Or.inr (Or.inl hidle)
      · exact Or.inr (Or.inr (Or.inl hflush))
    · rw [if_neg hclosed] at h
      by_cases hdeadline : request.deadline ≤ r.now
      · rw [if_pos hdeadline] at h
        obtain rfl := Option.some.inj h
        exact .refuses "Timeout" _ (Or.inr (Or.inr (Or.inr hdeadline))) (Or.inr rfl)
      · rw [if_neg hdeadline] at h
        cases hbusy : r.writers.busy with
        | true =>
          rw [if_pos hbusy] at h
          obtain rfl := Option.some.inj h
          exact .postpones hbusy
        | false =>
          rw [if_neg (by rw [hbusy]; exact Bool.false_ne_true)] at h
          cases hloading : r.search.searchLoading with
          | true =>
            rw [if_pos hloading] at h
            obtain rfl := Option.some.inj h
            exact .waits hbusy hloading
          | false =>
            rw [if_neg (by rw [hloading]; exact Bool.false_ne_true)] at h
            unfold fullSearchOutcomeAtOrAfter at h
            by_cases houtcome : r.fullSearchOutcomeGeneration ≥ request.minimumGeneration
            · rw [if_pos houtcome] at h
              cases herror : r.fullSearchOutcomeError with
              | none =>
                rw [herror] at h
                obtain rfl := Option.some.inj h
                exact .succeeds hbusy hloading houtcome herror
              | some error =>
                rw [herror] at h
                obtain rfl := Option.some.inj h
                exact .fails error hbusy hloading houtcome herror
            · rw [if_neg houtcome] at h
              obtain rfl := Option.some.inj h
              exact .schedules hbusy hloading (by omega)

namespace Counted

/-- A call that is answered at once. -/
theorem reply (h : Counted r) (answer : RefreshReply) :
    Counted ({ r with calls := r.calls + 1 }.reply r.calls answer) where
  calls := by
    show (r.waiting.map _ ++ (r.replies ++ [(r.calls, answer)]).map Prod.fst).Perm
      (List.range (r.calls + 1))
    rw [List.map_append, ← List.append_assoc, List.range_succ]
    exact h.calls.append_right _
  pending := h.pending
  bounded := h.bounded
  deadlines := h.deadlines

/-- A call that waits. -/
theorem waitForRefresh (h : Counted r) (hroom : r.pending < maxPending) {timeout : Nat}
    (htimeout : timeout ≤ 300000) :
    Counted ({ r with calls := r.calls + 1, pending := r.pending + 1 }.waitForRefresh r.calls
      timeout) where
  calls := by
    show ((r.waiting ++ [_]).map WaitingRefresh.invocation ++ r.replies.map Prod.fst).Perm
      (List.range (r.calls + 1))
    rw [List.map_append, List.append_assoc, List.range_succ]
    refine (List.Perm.append_left _ List.perm_append_comm).trans ?_
    rw [← List.append_assoc]
    exact h.calls.append_right _
  pending := by
    show r.pending + 1 = (r.waiting ++ [_]).length
    rw [List.length_append, h.pending]
    rfl
  bounded := hroom
  deadlines := by
    intro request hmem
    rcases List.mem_append.1 hmem with hmem | hmem
    · exact h.deadlines request hmem
    · obtain rfl := List.mem_singleton.1 hmem
      exact Nat.add_le_add_left htimeout _

/-- A timer that goes on. -/
theorem goesOn (h : Counted r) {k : Nat} {request request' : WaitingRefresh}
    (hk : r.waiting[k]? = some request) (hsame : request'.invocation = request.invocation)
    (hdeadline : request'.deadline = request.deadline) :
    Counted { r with waiting := r.waiting.set k request' } where
  calls := by
    have hmap : (r.waiting.set k request').map WaitingRefresh.invocation =
        r.waiting.map WaitingRefresh.invocation := by
      rw [List.map_set, hsame]
      refine List.ext_getElem? fun i => ?_
      by_cases hi : k = i
      · subst hi
        rw [List.getElem?_set_self', List.getElem?_map, hk]
        rfl
      · rw [List.getElem?_set_ne hi]
    show ((r.waiting.set k request').map _ ++ _).Perm _
    rw [hmap]
    exact h.calls
  pending := by
    show r.pending = (r.waiting.set k request').length
    rw [List.length_set]
    exact h.pending
  bounded := h.bounded
  deadlines := by
    intro request'' hmem
    rcases List.mem_or_eq_of_mem_set hmem with hmem | rfl
    · exact h.deadlines request'' hmem
    · rw [hdeadline]
      exact h.deadlines request (List.mem_of_getElem? hk)

/-- A timer that ends with a reply. -/
theorem ends (h : Counted r) {k : Nat} {request : WaitingRefresh}
    (hk : r.waiting[k]? = some request) (answer : RefreshReply) :
    Counted ({ r with pending := r.pending - 1, waiting := r.waiting.eraseIdx k }.reply
      request.invocation answer) := by
  obtain ⟨hlt, hget⟩ := List.getElem?_eq_some_iff.1 hk
  have hperm : (request :: r.waiting.eraseIdx k).Perm r.waiting := by
    rw [← hget]
    exact List.getElem_cons_eraseIdx_perm hlt
  refine ⟨?_, ?_, ?_, fun request' hmem => h.deadlines request' (List.mem_of_mem_eraseIdx hmem)⟩
  · show ((r.waiting.eraseIdx k).map WaitingRefresh.invocation ++
      (r.replies ++ [(request.invocation, answer)]).map Prod.fst).Perm (List.range r.calls)
    rw [List.map_append, ← List.append_assoc]
    have hmoved := (hperm.map WaitingRefresh.invocation).append_right (r.replies.map Prod.fst)
    exact (List.perm_append_singleton _ _).trans (hmoved.trans h.calls)
  · show r.pending - 1 = (r.waiting.eraseIdx k).length
    rw [List.length_eraseIdx_of_lt hlt, h.pending]
  · exact Nat.le_trans (Nat.sub_le _ _) h.bounded

theorem of_sameRequests (h : Counted r) (hsame : SameRequests r r') : Counted r' where
  calls := by rw [hsame.waiting, hsame.replies, hsame.calls]; exact h.calls
  pending := by rw [hsame.pending, hsame.waiting]; exact h.pending
  bounded := by rw [hsame.pending]; exact h.bounded
  deadlines := by rw [hsame.waiting, hsame.now]; exact h.deadlines

theorem afterSearch (h : Counted r) (event : SearchEvent D) (search : SearchWindow D) :
    Counted (r.afterSearch event search) :=
  of_sameRequests (r := { r with search := search })
    ⟨h.calls, h.pending, h.bounded, h.deadlines⟩ (sameRequests_afterSearch r event search)

theorem methodCall (h : Counted r) (method : Str) (parameters : Option Nat) :
    Counted (r.methodCall method parameters) := by
  unfold RefreshWindow.methodCall
  dsimp only
  split
  · exact h.reply _
  · split
    · exact h.reply _
    · next timeout =>
      split
      · exact h.reply _
      · next htimeout =>
        split
        · exact h.reply _
        · split
          · exact h.reply _
          · next hroom => exact h.waitForRefresh (by omega) (by omega)

theorem poll (h : Counted r) {k : Nat} (hstep : r.poll k = some r') : Counted r' := by
  obtain ⟨request, hk, hpolls⟩ := polls_of_poll hstep
  cases hpolls with
  | refuses kind message hover hkind => exact h.ends hk _
  | postpones hbusy => exact h.goesOn hk rfl rfl
  | waits hbusy hloading => exact h.goesOn hk rfl rfl
  | succeeds hbusy hloading houtcome herror => exact h.ends hk _
  | fails error hbusy hloading houtcome herror => exact h.ends hk _
  | schedules hbusy hloading houtcome =>
    have hsame := sameRequests_afterSearch r (.schedule r.search.pages.currentQuery none)
      (r.search.scheduleSearch r.search.pages.currentQuery)
    have hscheduled : Counted r.scheduleRefresh := by
      have hafter := h.afterSearch (.schedule r.search.pages.currentQuery none)
        (r.search.scheduleSearch r.search.pages.currentQuery)
      exact ⟨hafter.calls, hafter.pending, hafter.bounded, hafter.deadlines⟩
    have hk' : r.scheduleRefresh.waiting[k]? = some request := by
      rw [← hk]
      exact congrArg (fun waiting => waiting[k]?) hsame.waiting
    exact hscheduled.goesOn hk' rfl rfl

theorem step (h : Counted r) {event : RefreshEvent D} (hstep : r.step event = some r') :
    Counted r' := by
  cases event with
  | call method parameters =>
    obtain rfl := Option.some.inj hstep
    exact h.methodCall method parameters
  | poll k => exact h.poll hstep
  | search event =>
    obtain ⟨search, -, -, rfl⟩ := search_of_step hstep
    exact h.afterSearch event search
  | syncRefresh query =>
    obtain rfl := Option.some.inj hstep
    have hafter := h.afterSearch (.schedule query none) (r.search.scheduleSearch query)
    exact ⟨hafter.calls, hafter.pending, hafter.bounded, hafter.deadlines⟩
  | syncEnds =>
    obtain rfl := Option.some.inj hstep
    exact ⟨h.calls, h.pending, h.bounded, h.deadlines⟩
  | tick milliseconds =>
    obtain rfl := Option.some.inj hstep
    refine ⟨h.calls, h.pending, h.bounded, fun request hmem => ?_⟩
    have hdeadline := h.deadlines request hmem
    show request.deadline ≤ r.now + milliseconds + 300000
    omega
  | work writers =>
    obtain rfl := Option.some.inj hstep
    exact ⟨h.calls, h.pending, h.bounded, h.deadlines⟩
  | select thread uncertain =>
    obtain rfl := Option.some.inj hstep
    exact ⟨h.calls, h.pending, h.bounded, h.deadlines⟩
  | window ready visible closeWhenIdle closeFlushInProgress =>
    obtain rfl := Option.some.inj hstep
    exact ⟨h.calls, h.pending, h.bounded, h.deadlines⟩

theorem launch (search : SearchWindow D) : Counted (RefreshWindow.launch search) where
  calls := List.Perm.refl _
  pending := rfl
  bounded := Nat.zero_le _
  deadlines := fun _ hmem => absurd hmem List.not_mem_nil

end Counted

/-! ## What the window remembers of a full search -/

/-- The outcome that was recorded last is still the one. -/
def SameOutcome (r r' : RefreshWindow D) : Prop :=
  r'.fullSearchOutcomeGeneration = r.fullSearchOutcomeGeneration ∧
    r'.fullSearchOutcomeError = r.fullSearchOutcomeError

/-- The outcome of a search is recorded. -/
def Records (generation : Nat) (error : Option Str) (r' : RefreshWindow D) : Prop :=
  r'.fullSearchOutcomeGeneration = generation ∧ r'.fullSearchOutcomeError = error

/-- What a step of the search does to it. -/
inductive Follows (r : RefreshWindow D) (event : SearchEvent D) (r' : RefreshWindow D) : Prop where
  /-- nothing is brought or recorded, and no error is new -/
  | plain (hnumbers : SearchWindow.Numbers r.search r'.search)
      (hrecording : r'.recording = r.recording) (houtcome : SameOutcome r r')
      (herror : r'.searchError = r.searchError ∨ r'.searchError = none)
  /-- the first page of a full search is accepted -/
  | brings (k : Nat) (request : PageRequest) (data : SearchData D)
      (selectedThreadId : Option Str) (selectedIndex : Option Nat)
      (hevent : event = .respond k (.ok data selectedThreadId selectedIndex))
      (hrequest : r.search.requests[k]? = some request)
      (haccepts : r.search.accepts request = true) (hpurpose : request.purpose = .search)
      (hnumbers : SearchWindow.Numbers r.search r'.search)
      (hbar : r'.search.barGeneration = r.search.barGeneration)
      (hrequests : r'.search.requests = r.search.requests.eraseIdx k)
      (hrecording : r'.recording = request.generation :: r.recording)
      (houtcome : SameOutcome r r') (herror : r'.searchError = none)
  /-- a failure is accepted; that of a full search is recorded at once -/
  | breaks (k : Nat) (request : PageRequest) (error : Str)
      (hevent : event = .respond k (.error error))
      (hrequest : r.search.requests[k]? = some request)
      (haccepts : r.search.accepts request = true)
      (hnumbers : SearchWindow.Numbers r.search r'.search)
      (hbar : r'.search.barGeneration = r.search.barGeneration)
      (hrequests : r'.search.requests = r.search.requests.eraseIdx k)
      (hrecording : r'.recording = r.recording) (herror : r'.searchError = some error)
      (houtcome : SameOutcome r r' ∨
        (request.purpose = .search ∧ Records request.generation (some error) r'))
  /-- the list update of a full search ends -/
  | completes (k generation : Nat) (applied : Bool) (list : ThreadListController Nat)
      (hevent : event = .idle k)
      (hrun : r.search.list.runIdle k = some (list, some (generation, applied)))
      (hnumbers : SearchWindow.Numbers r.search r'.search)
      (hbar : r'.search.barGeneration = r.search.barGeneration)
      (hrequests : r'.search.requests = r.search.requests)
      (hrecording : r'.recording = r.recording.filter (· != generation))
      (herror : r'.searchError = r.searchError)
      (houtcome : SameOutcome r r' ∨
        (generation ∈ r.recording ∧ applied = true ∧ r'.search.searchGeneration = generation ∧
          Records generation r.searchError r'))

/-- Apart from responses and completions, a step of the search leaves all this alone. -/
theorem plain_afterSearch (r : RefreshWindow D) (event : SearchEvent D) (search : SearchWindow D)
    (hnumbers : SearchWindow.Numbers r.search search)
    (hrespond : ∀ k answer, event ≠ .respond k answer) (hidle : ∀ k, event ≠ .idle k) :
    Follows r event (r.afterSearch event search) := by
  cases event with
  | respond k answer => exact absurd rfl (hrespond k answer)
  | idle k => exact absurd rfl (hidle k)
  | schedule query loading => exact .plain hnumbers rfl ⟨rfl, rfl⟩ (Or.inr rfl)
  | inputCleared syncInProgress syncRefreshing =>
    refine .plain hnumbers rfl ⟨rfl, rfl⟩ ?_
    show (if syncInProgress && syncRefreshing then r.searchError else none) = _ ∨
      (if syncInProgress && syncRefreshing then r.searchError else none) = none
    split
    · exact Or.inl rfl
    · exact Or.inr rfl
  | inputReserved query => exact .plain hnumbers rfl ⟨rfl, rfl⟩ (Or.inr rfl)
  | loadMore selectLastLoaded =>
    refine .plain hnumbers rfl ⟨rfl, rfl⟩ ?_
    show r.searchErrorAfter (.loadMore selectLastLoaded) = _ ∨
      r.searchErrorAfter (.loadMore selectLastLoaded) = none
    unfold searchErrorAfter
    dsimp only
    split
    · exact Or.inl rfl
    · exact Or.inl rfl
    · exact Or.inr rfl
  | loadPage offset =>
    refine .plain hnumbers rfl ⟨rfl, rfl⟩ ?_
    show (if r.search.searchLoading then r.searchError else none) = _ ∨
      (if r.search.searchLoading then r.searchError else none) = none
    split
    · exact Or.inl rfl
    · exact Or.inr rfl
  | tagOperation refresh =>
    cases refresh with
    | none => exact .plain hnumbers rfl ⟨rfl, rfl⟩ (Or.inr rfl)
    | some query => exact .plain hnumbers rfl ⟨rfl, rfl⟩ (Or.inr rfl)
  | _ => exact .plain hnumbers rfl ⟨rfl, rfl⟩ (Or.inl rfl)

/-- An accepted response, once the search has taken it. -/
theorem afterSearch_accepted {k : Nat} {answer : PageAnswer D} {request : PageRequest}
    (hrequest : r.search.requests[k]? = some request) (haccepts : r.search.accepts request = true)
    (search : SearchWindow D) :
    r.afterSearch (.respond k answer) search =
      { r with
        search := search
        searchError := r.searchErrorAfter (.respond k answer) }.afterResponse request answer := by
  unfold afterSearch
  simp only [hrequest, haccepts, if_true]

theorem searchErrorAfter_accepted {k : Nat} {answer : PageAnswer D} {request : PageRequest}
    (hrequest : r.search.requests[k]? = some request)
    (haccepts : r.search.accepts request = true) :
    r.searchErrorAfter (.respond k answer) =
      match answer with
      | .ok _ _ _ => none
      | .error error => some error
      | .stale => r.searchError := by
  cases answer with
  | ok | error | stale => simp only [searchErrorAfter, hrequest, haccepts, if_true]

theorem follows_respond {k : Nat} {answer : PageAnswer D} {search : SearchWindow D}
    (h : r.search.respond k answer = some search) :
    Follows r (.respond k answer) (r.afterSearch (.respond k answer) search) := by
  have hnumbers := SearchWindow.numbers_respond h
  unfold SearchWindow.respond at h
  cases hrequest : r.search.requests[k]? with
  | none => simp [hrequest] at h
  | some request =>
    rw [hrequest] at h
    dsimp only at h
    cases haccepts : r.search.accepts request with
    | false =>
      -- the response comes too late: nothing but the request goes
      have hafter : r.afterSearch (.respond k answer) search =
          { r with
            search := search
            searchError := r.searchErrorAfter (.respond k answer) } := by
        unfold afterSearch
        simp [hrequest, haccepts]
      have herror : r.searchErrorAfter (.respond k answer) = r.searchError := by
        unfold searchErrorAfter
        simp [hrequest, haccepts]
      rw [hafter]
      exact .plain hnumbers rfl ⟨rfl, rfl⟩ (Or.inl herror)
    | true =>
      have haccepts' : SearchWindow.accepts
          { r.search with requests := r.search.requests.eraseIdx k } request = true := haccepts
      rw [if_pos haccepts'] at h
      obtain ⟨list, pages, loading, -, rfl⟩ := SearchWindow.answerRequest_eq h
      have herror : r.searchErrorAfter (.respond k answer) = _ :=
        searchErrorAfter_accepted hrequest haccepts
      rw [afterSearch_accepted hrequest haccepts]
      cases answer with
      | ok data selectedThreadId selectedIndex =>
        unfold afterResponse
        dsimp only
        cases hpurpose : request.purpose with
        | search =>
          exact .brings k request data selectedThreadId selectedIndex rfl hrequest haccepts
            hpurpose hnumbers rfl rfl rfl ⟨rfl, rfl⟩ herror
        | more selectLastLoaded => exact .plain hnumbers rfl ⟨rfl, rfl⟩ (Or.inr herror)
        | containingIndex => exact .plain hnumbers rfl ⟨rfl, rfl⟩ (Or.inr herror)
      | error error =>
        unfold afterResponse
        dsimp only
        cases hpurpose : request.purpose with
        | search =>
          exact .breaks k request error rfl hrequest haccepts hnumbers rfl rfl rfl herror
            (Or.inr ⟨hpurpose, rfl, herror⟩)
        | more selectLastLoaded =>
          exact .breaks k request error rfl hrequest haccepts hnumbers rfl rfl rfl herror
            (Or.inl ⟨rfl, rfl⟩)
        | containingIndex =>
          exact .breaks k request error rfl hrequest haccepts hnumbers rfl rfl rfl herror
            (Or.inl ⟨rfl, rfl⟩)
      | stale => exact .plain hnumbers rfl ⟨rfl, rfl⟩ (Or.inl herror)

/-- A list update that is still that of the newest search records its outcome when it has been
applied. -/
theorem follows_idle {k : Nat} {search : SearchWindow D} (h : r.search.runIdle k = some search) :
    Follows r (.idle k) (r.afterSearch (.idle k) search) := by
  have hnumbers := SearchWindow.numbers_runIdle h
  obtain ⟨⟨list, completion⟩, hrun, rfl⟩ := Option.map_eq_some_iff.1 h
  unfold afterSearch
  simp only [hrun]
  cases completion with
  | none => exact .plain hnumbers rfl ⟨rfl, rfl⟩ (Or.inl rfl)
  | some completion =>
    obtain ⟨generation, applied⟩ := completion
    obtain ⟨loading, -, hfinished⟩ :=
      SearchWindow.finishSearchActivity_eq { r.search with list := list } generation
    simp only [hfinished] at hnumbers ⊢
    unfold afterListUpdate
    dsimp only
    split
    · next hnewest =>
      rw [Bool.and_eq_true, List.contains_iff_mem, beq_iff_eq] at hnewest
      cases applied with
      | true =>
        exact .completes k generation true list rfl hrun hnumbers rfl rfl rfl rfl
          (Or.inr ⟨hnewest.1, rfl, hnewest.2, rfl, rfl⟩)
      | false =>
        exact .completes k generation false list rfl hrun hnumbers rfl rfl rfl rfl
          (Or.inl ⟨rfl, rfl⟩)
    · exact .completes k generation applied list rfl hrun hnumbers rfl rfl rfl rfl
        (Or.inl ⟨rfl, rfl⟩)

theorem follows_step (hroom : r.search.barGeneration + 2 ≤ u64Max) {event : SearchEvent D}
    {search : SearchWindow D} (h : r.search.step event = some search) :
    Follows r event (r.afterSearch event search) := by
  have hnumbers := SearchWindow.numbers_step hroom h
  cases event with
  | respond k answer => exact follows_respond h
  | idle k => exact follows_idle h
  | _ => exact plain_afterSearch r _ search hnumbers (by simp) (by simp)

/-- No generation is used twice: each is that of one request under way or of one list update, and
none is newer than the search bar. -/
structure Used (bar : Nat) (requests : List PageRequest) (recording : List Nat) : Prop where
  requestsLe : ∀ request ∈ requests, request.generation ≤ bar
  nodup : (requests.map PageRequest.generation).Nodup
  recordingLe : ∀ generation ∈ recording, generation ≤ bar
  apart : ∀ generation ∈ recording, ∀ request ∈ requests, request.generation ≠ generation

namespace Used

variable {bar bar' : Nat} {requests requests' : List PageRequest} {recording recording' : List Nat}

theorem mono (h : Used bar requests recording) (hbar : bar ≤ bar')
    (hrequests : requests'.Sublist requests)
    (hrecording : ∀ generation ∈ recording', generation ∈ recording) :
    Used bar' requests' recording' where
  requestsLe := fun request hmem =>
    Nat.le_trans (h.requestsLe request (hrequests.subset hmem)) hbar
  nodup := h.nodup.sublist (hrequests.map _)
  recordingLe := fun generation hmem =>
    Nat.le_trans (h.recordingLe generation (hrecording generation hmem)) hbar
  apart := fun generation hmem request hrequest =>
    h.apart generation (hrecording generation hmem) request (hrequests.subset hrequest)

/-- A request under a generation that no one has. -/
theorem request (h : Used bar requests recording) {new : PageRequest} (hnew : new.generation = bar)
    (hfresh : ∀ request ∈ requests, request.generation ≠ bar) (hunrecorded : bar ∉ recording) :
    Used bar (requests ++ [new]) recording where
  requestsLe := by
    intro request hmem
    rcases List.mem_append.1 hmem with hmem | hmem
    · exact h.requestsLe request hmem
    · obtain rfl := List.mem_singleton.1 hmem
      exact Nat.le_of_eq hnew
  nodup := by
    rw [List.map_append, List.nodup_append]
    refine ⟨h.nodup, List.nodup_singleton _, ?_⟩
    intro generation hmem generation' hmem'
    obtain ⟨other, hother, rfl⟩ := List.mem_map.1 hmem
    obtain rfl := List.mem_singleton.1 hmem'
    rw [hnew]
    exact hfresh other hother
  recordingLe := h.recordingLe
  apart := by
    intro generation hmem request hrequest
    rcases List.mem_append.1 hrequest with hrequest | hrequest
    · exact h.apart generation hmem request hrequest
    · obtain rfl := List.mem_singleton.1 hrequest
      rw [hnew]
      rintro rfl
      exact hunrecorded hmem

/-- The response has come, and its generation is that of a list update from now on. -/
theorem record (h : Used bar requests recording) {k : Nat} {request : PageRequest}
    (hk : requests[k]? = some request) :
    Used bar (requests.eraseIdx k) (request.generation :: recording) := by
  have hmono : Used bar (requests.eraseIdx k) recording :=
    h.mono (Nat.le_refl _) (List.eraseIdx_sublist _ _) fun _ hmem => hmem
  refine ⟨hmono.requestsLe, hmono.nodup, ?_, ?_⟩
  · intro generation hmem
    rcases List.mem_cons.1 hmem with rfl | hmem
    · exact h.requestsLe request (List.mem_of_getElem? hk)
    · exact h.recordingLe generation hmem
  · intro generation hmem other hother
    rcases List.mem_cons.1 hmem with rfl | hmem
    · -- the generations of the requests are distinct, and this one's request is gone
      obtain ⟨hlt, hget⟩ := List.getElem?_eq_some_iff.1 hk
      have hperm : (request :: requests.eraseIdx k).Perm requests := by
        rw [← hget]
        exact List.getElem_cons_eraseIdx_perm hlt
      have hnodup := (hperm.map PageRequest.generation).nodup_iff.2 h.nodup
      intro heq
      refine (List.nodup_cons.1 hnodup).1 ?_
      rw [← heq]
      exact List.mem_map_of_mem hother
    · exact hmono.apart generation hmem other hother

theorem above (h : Used bar requests recording) (hbar : bar < bar') :
    (∀ request ∈ requests, request.generation ≠ bar') ∧ bar' ∉ recording := by
  refine ⟨fun request hmem heq => ?_, fun hmem => ?_⟩
  · have hle := h.requestsLe request hmem
    omega
  · have hle := h.recordingLe bar' hmem
    omega

end Used

/-- What every step keeps: the generations are used once, and the newest search has no error before
its end. -/
structure Remembers (r : RefreshWindow D) : Prop where
  search : r.search.searchGeneration = r.search.barGeneration
  used : Used r.search.barGeneration r.search.requests r.recording
  reservedLe : ∀ query generation, r.search.reserved = some (query, generation) →
    generation ≤ r.search.barGeneration
  reserved : ∀ query, r.search.reserved = some (query, r.search.barGeneration) →
    (∀ request ∈ r.search.requests, request.generation ≠ r.search.barGeneration) ∧
      r.search.barGeneration ∉ r.recording
  searchError : r.search.barGeneration ∈ r.recording → r.searchError = none
  outcome : r.fullSearchOutcomeGeneration ≤ r.search.barGeneration

namespace Remembers

/-- A step that makes no new list update. -/
theorem of_numbers (h : Remembers r) (hnumbers : SearchWindow.Numbers r.search r'.search)
    (hrecording : ∀ generation ∈ r'.recording, generation ∈ r.recording)
    (herror : r'.search.barGeneration = r.search.barGeneration →
      r.search.barGeneration ∈ r'.recording → r'.searchError = none)
    (houtcome : r'.fullSearchOutcomeGeneration ≤ r.search.barGeneration) : Remembers r' := by
  have houtcome' := Nat.le_trans houtcome hnumbers.bar_le
  cases hnumbers with
  | keeps hbar hsearch hrequests hreserved =>
    refine ⟨by rw [hsearch, hbar, h.search], ?_, ?_, ?_, fun hmem => herror hbar (hbar ▸ hmem),
      houtcome'⟩
    · rw [hrequests]
      exact h.used.mono (Nat.le_of_eq hbar.symm) (List.Sublist.refl _) hrecording
    · rw [hreserved, hbar]
      exact h.reservedLe
    · rw [hreserved, hbar, hrequests]
      intro query hwaits
      obtain ⟨hfresh, hunrecorded⟩ := h.reserved query hwaits
      exact ⟨hfresh, fun hmem => hunrecorded (hrecording _ hmem)⟩
  | drops hbar hsearch hrequests hreserved =>
    refine ⟨by rw [hsearch, hbar, h.search], ?_, ?_, ?_, fun hmem => herror hbar (hbar ▸ hmem),
      houtcome'⟩
    · rw [hrequests]
      exact h.used.mono (Nat.le_of_eq hbar.symm) (List.Sublist.refl _) hrecording
    · simp [hreserved]
    · simp [hreserved]
  | dispatches query hbar hsearch hwaited hrequests hreserved =>
    refine ⟨by rw [hsearch, hbar, h.search], ?_, ?_, ?_, fun hmem => herror hbar (hbar ▸ hmem),
      houtcome'⟩
    · rw [hrequests, hbar]
      obtain ⟨hfresh, hunrecorded⟩ := h.reserved query hwaited
      have hmono : Used r.search.barGeneration r.search.requests r'.recording :=
        h.used.mono (Nat.le_refl _) (List.Sublist.refl _) hrecording
      exact hmono.request rfl hfresh fun hmem => hunrecorded (hrecording _ hmem)
    · simp [hreserved]
    · simp [hreserved]
  -- A generation above all others: nothing was recorded or requested under it.
  | cancels hbar hsearch hrequests hreserved =>
    have hmono := h.used.mono (Nat.le_of_lt hbar) (List.Sublist.refl _) hrecording
    obtain ⟨hfresh, hgone⟩ := h.used.above hbar
    refine ⟨hsearch, ?_, ?_, ?_, fun hmem => absurd (hrecording _ hmem) hgone,
      houtcome'⟩
    · rw [hrequests]
      exact hmono
    · intro query generation hwaits
      rcases hreserved with hnone | hkept
      · exact absurd (hnone.symm.trans hwaits) (by simp)
      · have hle := h.reservedLe query generation (hkept.symm.trans hwaits)
        omega
    · intro query hwaits
      rw [hrequests]
      exact ⟨hfresh, fun hmem => hgone (hrecording _ hmem)⟩
  | reserves query hbar hsearch hrequests hreserved =>
    have hmono := h.used.mono (Nat.le_of_lt hbar) (List.Sublist.refl _) hrecording
    obtain ⟨hfresh, hgone⟩ := h.used.above hbar
    refine ⟨hsearch, ?_, ?_, ?_, fun hmem => absurd (hrecording _ hmem) hgone,
      houtcome'⟩
    · rw [hrequests]
      exact hmono
    · intro query' generation hwaits
      obtain ⟨-, rfl⟩ := Prod.mk.inj (Option.some.inj (hreserved.symm.trans hwaits))
      exact Nat.le_refl _
    · intro query' hwaits
      rw [hrequests]
      exact ⟨hfresh, fun hmem => hgone (hrecording _ hmem)⟩
  | begins purpose query offset hbar hsearch hrequests hreserved hoffset =>
    have hmono := h.used.mono (Nat.le_of_lt hbar) (List.Sublist.refl _) hrecording
    obtain ⟨hfresh, hgone⟩ := h.used.above hbar
    refine ⟨hsearch, ?_, ?_, ?_, fun hmem => absurd (hrecording _ hmem) hgone,
      houtcome'⟩
    · rw [hrequests]
      exact hmono.request rfl hfresh fun hmem => hgone (hrecording _ hmem)
    · intro query' generation hwaits
      rcases hreserved with hnone | hkept
      · exact absurd (hnone.symm.trans hwaits) (by simp)
      · have hle := h.reservedLe query' generation (hkept.symm.trans hwaits)
        omega
    · intro query' hwaits
      rcases hreserved with hnone | hkept
      · exact absurd (hnone.symm.trans hwaits) (by simp)
      · have hle := h.reservedLe query' _ (hkept.symm.trans hwaits)
        omega
  | answers k request hbar hsearch hrequest hrequests hreserved =>
    refine ⟨by rw [hsearch, hbar, h.search], ?_, ?_, ?_, fun hmem => herror hbar (hbar ▸ hmem),
      houtcome'⟩
    · rw [hrequests]
      exact h.used.mono (Nat.le_of_eq hbar.symm) (List.eraseIdx_sublist _ _) hrecording
    · rw [hreserved, hbar]
      exact h.reservedLe
    · rw [hreserved, hbar, hrequests]
      intro query hwaits
      obtain ⟨hfresh, hunrecorded⟩ := h.reserved query hwaits
      exact ⟨fun other hmem => hfresh other (List.mem_of_mem_eraseIdx hmem),
        fun hmem => hunrecorded (hrecording _ hmem)⟩

/-- The generation of an accepted response is the newest. -/
theorem accepted {request : PageRequest} (haccepts : r.search.accepts request = true) :
    r.search.barGeneration = request.generation ∧
      r.search.searchGeneration = request.generation := by
  rw [SearchWindow.accepts, Bool.and_eq_true, beq_iff_eq, beq_iff_eq] at haccepts
  exact haccepts

theorem follows (h : Remembers r) {event : SearchEvent D} (hfollows : Follows r event r') :
    Remembers r' := by
  cases hfollows with
  | plain hnumbers hrecording houtcome herror =>
    refine h.of_numbers hnumbers (fun generation hmem => hrecording ▸ hmem) (fun _ hmem => ?_)
      (houtcome.1 ▸ h.outcome)
    rcases herror with hsame | hnone
    · rw [hsame]
      exact h.searchError (hrecording ▸ hmem)
    · exact hnone
  | brings k request data selectedThreadId selectedIndex hevent hrequest haccepts hpurpose hnumbers
      hbar hrequests hrecording houtcome herror =>
    -- first without the new list update, which then takes over the generation of its request
    have hbase : Remembers { r' with recording := r.recording } :=
      h.of_numbers hnumbers (fun _ hmem => hmem) (fun _ _ => herror) (houtcome.1 ▸ h.outcome)
    refine ⟨hbase.search, ?_, hbase.reservedLe, ?_, fun _ => herror, hbase.outcome⟩
    · rw [hbar, hrequests, hrecording]
      exact h.used.record hrequest
    · intro query hwaits
      obtain ⟨hfresh, hunrecorded⟩ := hbase.reserved query hwaits
      refine ⟨hfresh, fun hmem => ?_⟩
      rw [hrecording] at hmem
      rcases List.mem_cons.1 hmem with heq | hmem
      · -- the text that waits has the newest generation, and so has the request
        have hreserved : r.search.reserved = some (query, r.search.barGeneration) ∨
            r'.search.reserved = none := by
          cases hnumbers with
          | keeps _ _ _ hreserved => exact Or.inl (by rw [← hreserved, hwaits, hbar])
          | drops _ _ _ hreserved => exact Or.inr hreserved
          | dispatches _ _ _ _ _ hreserved => exact Or.inr hreserved
          | answers _ _ _ _ _ _ hreserved => exact Or.inl (by rw [← hreserved, hwaits, hbar])
          | cancels hlt => omega
          | reserves _ hlt => omega
          | begins _ _ _ hlt => omega
        rcases hreserved with hwaited | hnone
        · have hother := (h.reserved query hwaited).1 request (List.mem_of_getElem? hrequest)
          exact hother (accepted haccepts).1.symm
        · rw [hnone] at hwaits
          exact absurd hwaits (by simp)
      · exact hunrecorded hmem
  | breaks k request error hevent hrequest haccepts hnumbers hbar hrequests hrecording herror
      houtcome =>
    refine h.of_numbers hnumbers (fun generation hmem => hrecording ▸ hmem) (fun _ hmem => ?_) ?_
    · -- the newest generation is that of a request, so it is not that of a list update
      have hapart := h.used.apart _ (hrecording ▸ hmem) request (List.mem_of_getElem? hrequest)
      exact absurd (accepted haccepts).1.symm hapart
    · rcases houtcome with hkept | ⟨-, hrecords⟩
      · exact hkept.1 ▸ h.outcome
      · rw [hrecords.1]
        exact h.used.requestsLe request (List.mem_of_getElem? hrequest)
  | completes k generation applied list hevent hrun hnumbers hbar hrequests hrecording herror
      houtcome =>
    have hsub : ∀ generation' ∈ r'.recording, generation' ∈ r.recording := by
      intro generation' hmem
      rw [hrecording] at hmem
      exact List.mem_of_mem_filter hmem
    refine h.of_numbers hnumbers hsub (fun _ hmem => ?_) ?_
    · rw [herror]
      exact h.searchError (hsub _ hmem)
    · rcases houtcome with hkept | ⟨hmem, -, -, hrecords⟩
      · exact hkept.1 ▸ h.outcome
      · rw [hrecords.1]
        exact h.used.recordingLe generation hmem

end Remembers

/-- The searches under way and what is remembered of them are as they were. -/
structure SameSearch (r r' : RefreshWindow D) : Prop where
  search : r'.search = r.search
  recording : r'.recording = r.recording
  searchError : r'.searchError = r.searchError
  outcome : SameOutcome r r'

theorem sameSearch_methodCall (r : RefreshWindow D) (method : Str) (parameters : Option Nat) :
    SameSearch r (r.methodCall method parameters) := by
  unfold methodCall
  dsimp only
  split
  · exact ⟨rfl, rfl, rfl, rfl, rfl⟩
  · split
    · exact ⟨rfl, rfl, rfl, rfl, rfl⟩
    · split
      · exact ⟨rfl, rfl, rfl, rfl, rfl⟩
      · split
        · exact ⟨rfl, rfl, rfl, rfl, rfl⟩
        · split <;> exact ⟨rfl, rfl, rfl, rfl, rfl⟩

/-- A call that waits, waits for a search that has not begun. -/
theorem waiting_methodCall {method : Str} {parameters : Option Nat} {request : WaitingRefresh}
    (hmem : request ∈ (r.methodCall method parameters).waiting) :
    request ∈ r.waiting ∨
      request.minimumGeneration = saturatingSucc r.search.searchGeneration := by
  unfold methodCall at hmem
  dsimp only at hmem
  split at hmem
  · exact Or.inl hmem
  · split at hmem
    · exact Or.inl hmem
    · split at hmem
      · exact Or.inl hmem
      · split at hmem
        · exact Or.inl hmem
        · split at hmem
          · exact Or.inl hmem
          · rcases List.mem_append.1 hmem with hmem | hmem
            · exact Or.inl hmem
            · obtain rfl := List.mem_singleton.1 hmem
              exact Or.inr rfl

theorem sync_methodCall (r : RefreshWindow D) (method : Str) (parameters : Option Nat) :
    (r.methodCall method parameters).syncRefreshGeneration = r.syncRefreshGeneration := by
  unfold methodCall
  dsimp only
  split
  · rfl
  · split
    · rfl
    · split
      · rfl
      · split
        · rfl
        · split <;> rfl

/-- A search that the window schedules on its own account, whatever else it notes. -/
theorem follows_schedule (hroom : r.search.barGeneration + 2 ≤ u64Max) (query : Str)
    (hsearch : r'.search = r.search.scheduleSearch query)
    (hrecording : r'.recording = r.recording) (houtcome : SameOutcome r r')
    (herror : r'.searchError = none) : Follows r (.schedule query none) r' := by
  have hstep : r.search.step (.schedule query none) = some (r.search.scheduleSearch query) := rfl
  have hnumbers := SearchWindow.numbers_step hroom hstep
  exact .plain (hsearch ▸ hnumbers) hrecording houtcome (Or.inr herror)

/-- A step either leaves the searches alone or is a step of the search: one of its own, or a search
that the window schedules. -/
theorem searches_step (hroom : r.search.barGeneration + 2 ≤ u64Max) {event : RefreshEvent D}
    (h : r.step event = some r') :
    SameSearch r r' ∨
      ∃ event', Follows r event' r' ∧
        (event = .search event' ∨ ∃ query, event' = .schedule query none) := by
  cases event with
  | call method parameters =>
    obtain rfl := Option.some.inj h
    exact Or.inl (sameSearch_methodCall r method parameters)
  | poll k =>
    obtain ⟨request, hk, hpolls⟩ := polls_of_poll h
    cases hpolls with
    | schedules hbusy hloading houtcome =>
      refine Or.inr ⟨.schedule r.search.pages.currentQuery none, ?_, Or.inr ⟨_, rfl⟩⟩
      exact follows_schedule hroom _ rfl rfl ⟨rfl, rfl⟩ rfl
    | _ => exact Or.inl ⟨rfl, rfl, rfl, rfl, rfl⟩
  | search event =>
    obtain ⟨search, -, hsearch, rfl⟩ := search_of_step h
    exact Or.inr ⟨event, follows_step hroom hsearch, Or.inl rfl⟩
  | syncRefresh query =>
    obtain rfl := Option.some.inj h
    refine Or.inr ⟨.schedule query none, ?_, Or.inr ⟨query, rfl⟩⟩
    exact follows_schedule hroom query rfl rfl ⟨rfl, rfl⟩ rfl
  | syncEnds =>
    obtain rfl := Option.some.inj h
    exact Or.inl ⟨rfl, rfl, rfl, rfl, rfl⟩
  | work writers =>
    obtain rfl := Option.some.inj h
    exact Or.inl ⟨rfl, rfl, rfl, rfl, rfl⟩
  | select thread uncertain =>
    obtain rfl := Option.some.inj h
    exact Or.inl ⟨rfl, rfl, rfl, rfl, rfl⟩
  | window ready visible closeWhenIdle closeFlushInProgress =>
    obtain rfl := Option.some.inj h
    exact Or.inl ⟨rfl, rfl, rfl, rfl, rfl⟩
  | tick milliseconds =>
    obtain rfl := Option.some.inj h
    exact Or.inl ⟨rfl, rfl, rfl, rfl, rfl⟩

namespace Remembers

theorem step (h : Remembers r) (hroom : r.search.barGeneration + 2 ≤ u64Max)
    {event : RefreshEvent D} (hstep : r.step event = some r') : Remembers r' := by
  rcases searches_step hroom hstep with hsame | ⟨event', hfollows, -⟩
  · obtain ⟨hsearch, hrecording, herror, houtcome⟩ := hsame
    refine ⟨?_, ?_, ?_, ?_, ?_, ?_⟩
    · rw [hsearch]
      exact h.search
    · rw [hsearch, hrecording]
      exact h.used
    · rw [hsearch]
      exact h.reservedLe
    · rw [hsearch, hrecording]
      exact h.reserved
    · rw [hsearch, hrecording, herror]
      exact h.searchError
    · rw [hsearch, houtcome.1]
      exact h.outcome
  · exact h.follows hfollows

theorem launch (query : Str) (pageSize : Nat) (display : ThreadListDisplay) (loading : Str) :
    Remembers (RefreshWindow.launch (D := D) (.launch query pageSize display loading)) where
  search := rfl
  used := by
    refine ⟨?_, List.nodup_nil, ?_, ?_⟩
    · exact fun _ hmem => absurd hmem List.not_mem_nil
    · exact fun _ hmem => absurd hmem List.not_mem_nil
    · exact fun _ hmem => absurd hmem List.not_mem_nil
  reservedLe :=
    fun _ _ hwaits => absurd hwaits (by simp [RefreshWindow.launch, SearchWindow.launch])
  reserved := fun _ hwaits => absurd hwaits (by simp [RefreshWindow.launch, SearchWindow.launch])
  searchError := fun _ => rfl
  outcome := Nat.le_refl _

end Remembers

end RefreshWindow

end Notm.Ui
