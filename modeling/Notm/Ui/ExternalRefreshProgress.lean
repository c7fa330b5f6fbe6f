import Notm.Ui.ExternalRefreshFresh
import Notm.Ui.SearchProgress

/-!
# A refresh that waits can be answered

Whatever has happened, a request whose window is open and whose time is not up needs nothing but
its own timer, the debounce of the search text, the search worker, the callbacks of the list and the
thread loader to get its reply, once no writer is busy: no search that is loading is stuck, and the
search that its timer begins is late enough.

* `Going` is what every step keeps: a search that is loading has something on its way that ends it;
* `Helps` are the moves that nobody has to ask for. What comes of them is not ours to choose: the
  worker answers with any page or error, and the completion of a list update may select a thread
  whose load has to end before the timer looks at the searches again;
* `settles` brings a search that is loading to its end, and `Going.answers` a request to its reply;
* `refresh_can_be_answered` says so of every state that a run can reach.
-/

namespace Notm.Ui

open Rust Notmuch Transition

/-- Where nothing is busy, there is nothing to cancel. -/
theorem Writers.cancelPreparation_of_idle {w : Writers} (h : w.busy = false) :
    w.cancelPreparation = w := by
  unfold busy at h
  simp only [Bool.or_eq_false_iff, Option.isSome_eq_false_iff, Option.isNone_iff_eq_none] at h
  obtain ⟨⟨⟨-, hload⟩, hpreparation⟩, -⟩ := h
  unfold cancelPreparation
  cases w
  cases hload
  cases hpreparation
  rfl

namespace RefreshWindow

variable {D : Type} {r r' : RefreshWindow D}

/-! ## What every step keeps -/

/-- No search is stuck, no request waits for more than the next search, and a sync does not wait for
a text that is still to be dispatched. -/
structure Going (r : RefreshWindow D) : Prop where
  remembers : Remembers r
  inFlight : r.search.searchLoading = true → r.search.InFlight
  minimum : ∀ request ∈ r.waiting, request.minimumGeneration ≤ r.search.barGeneration + 1
  syncLe : ∀ generation, r.syncRefreshGeneration = some generation →
    generation ≤ r.search.barGeneration
  sync : r.syncRefreshGeneration = some r.search.barGeneration →
    ∀ query, r.search.reserved ≠ some (query, r.search.barGeneration)

namespace Going

/-- The sync still waits for the search it waited for. -/
theorem sync_numbers (h : Going r) (hnumbers : SearchWindow.Numbers r.search r'.search)
    (hsame : r'.syncRefreshGeneration = r.syncRefreshGeneration) :
    (∀ generation, r'.syncRefreshGeneration = some generation →
      generation ≤ r'.search.barGeneration) ∧
    (r'.syncRefreshGeneration = some r'.search.barGeneration →
      ∀ query, r'.search.reserved ≠ some (query, r'.search.barGeneration)) := by
  have hle : ∀ generation, r.syncRefreshGeneration = some generation →
      generation ≤ r'.search.barGeneration :=
    fun generation hsome => Nat.le_trans (h.syncLe generation hsome) hnumbers.bar_le
  -- a generation that is newer is not the one that the sync waits for
  have hnewer : r.search.barGeneration < r'.search.barGeneration →
      r.syncRefreshGeneration ≠ some r'.search.barGeneration := by
    intro hlt hsome
    have hsync := h.syncLe _ hsome
    omega
  rw [hsame]
  refine ⟨hle, fun hsome query hwaits => ?_⟩
  cases hnumbers with
  | keeps hbar hsearch hrequests hreserved =>
    rw [hbar] at hsome hwaits
    exact h.sync hsome query (hreserved ▸ hwaits)
  | drops hbar hsearch hrequests hreserved => exact absurd (hreserved.symm.trans hwaits) (by simp)
  | dispatches _ hbar hsearch hwaited hrequests hreserved =>
    exact absurd (hreserved.symm.trans hwaits) (by simp)
  | cancels hbar hsearch hrequests hreserved => exact hnewer hbar hsome
  | reserves _ hbar hsearch hrequests hreserved => exact hnewer hbar hsome
  | begins _ _ _ hbar hsearch hrequests hreserved hoffset => exact hnewer hbar hsome
  | answers k request hbar hsearch hrequest hrequests hreserved =>
    rw [hbar] at hsome hwaits
    exact h.sync hsome query (hreserved ▸ hwaits)

/-- A search that the window schedules: its page is requested, and it is late enough for every
request that waits. -/
theorem schedule (h : Going r) (hroom : r.search.barGeneration + 2 ≤ u64Max) {query : Str}
    {event : RefreshEvent D} (hstep : r.step event = some r')
    (hsearch : r'.search = r.search.scheduleSearch query)
    (hwaiting : ∀ request ∈ r'.waiting, request ∈ r.waiting)
    (hsync : r'.syncRefreshGeneration = r.syncRefreshGeneration ∨
      r'.syncRefreshGeneration = some r'.search.barGeneration) : Going r' := by
  have hbar : r'.search.barGeneration = r.search.barGeneration + 1 := by
    have hlt : r.search.barGeneration < u64Max := by omega
    rw [hsearch]
    exact saturatingSucc_of_lt hlt
  refine ⟨h.remembers.step hroom hstep, fun _ => ?_, ?_, ?_, ?_⟩
  · rw [hsearch]
    exact SearchWindow.inFlight_launchRequest _ _ _ _
  · intro request hmem
    have hminimum := h.minimum request (hwaiting request hmem)
    omega
  · intro generation hsome
    rcases hsync with hkept | hown
    · have hle := h.syncLe generation (hkept.symm.trans hsome)
      omega
    · obtain rfl := Option.some.inj (hown.symm.trans hsome)
      exact Nat.le_refl _
  · intro _ query' hwaits
    rw [hsearch] at hwaits
    have hreserved : r.search.reserved = some (query', r'.search.barGeneration) := by
      rw [hsearch]
      exact hwaits
    have hle := h.remembers.reservedLe query' _ hreserved
    omega

/-- The searches stay as they are. -/
theorem of_sameSearch (h : Going r) {event : RefreshEvent D} (hstep : r.step event = some r')
    (hroom : r.search.barGeneration + 2 ≤ u64Max) (hsearch : r'.search = r.search)
    (hwaiting : ∀ request ∈ r'.waiting,
      request.minimumGeneration ≤ r.search.barGeneration + 1)
    (hsync : r'.syncRefreshGeneration = r.syncRefreshGeneration ∨
      r'.syncRefreshGeneration = none) : Going r' := by
  refine ⟨h.remembers.step hroom hstep, ?_, ?_, ?_, ?_⟩
  · rw [hsearch]
    exact h.inFlight
  · rw [hsearch]
    exact hwaiting
  · rw [hsearch]
    intro generation hsome
    rcases hsync with hkept | hnone
    · exact h.syncLe generation (hkept.symm.trans hsome)
    · exact absurd (hnone.symm.trans hsome) (by simp)
  · rw [hsearch]
    intro hsome
    rcases hsync with hkept | hnone
    · exact h.sync (hkept.symm.trans hsome)
    · exact absurd (hnone.symm.trans hsome) (by simp)

/-- A step of the search itself. -/
theorem search (h : Going r) (hroom : r.search.barGeneration + 2 ≤ u64Max)
    {event : SearchEvent D} (hstep : r.step (.search event) = some r') : Going r' := by
  have hremembers := h.remembers.step hroom hstep
  obtain ⟨search, hadmits, hsearch, rfl⟩ := search_of_step hstep
  have hsame := sameRequests_afterSearch r event search
  have hnumbers : SearchWindow.Numbers r.search (r.afterSearch event search).search := by
    rw [hsame.search]
    exact SearchWindow.numbers_step hroom hsearch
  obtain ⟨hsyncLe, hsync⟩ := h.sync_numbers hnumbers hsame.syncRefreshGeneration
  refine ⟨hremembers, ?_, ?_, hsyncLe, hsync⟩
  · rw [hsame.search]
    refine SearchWindow.inFlight_step h.remembers.search h.inFlight ?_ hsearch
    -- a text that is dropped for a sync does not wait under the newest generation
    rintro rfl
    have hown : true = (r.syncRefreshGeneration == some r.search.searchGeneration) := hadmits.2
    refine h.sync ?_
    rw [← h.remembers.search]
    exact beq_iff_eq.1 hown.symm
  · rw [hsame.waiting]
    intro request hmem
    exact Nat.le_trans (h.minimum request hmem) (Nat.succ_le_succ hnumbers.bar_le)

/-- The timer of a request. -/
theorem poll (h : Going r) (hroom : r.search.barGeneration + 2 ≤ u64Max) {k : Nat}
    (hstep : r.poll k = some r') : Going r' := by
  have hwhole : r.step (.poll k) = some r' := hstep
  obtain ⟨request, hk, hpolls⟩ := polls_of_poll hstep
  have hnext : saturatingSucc r.search.searchGeneration ≤ r.search.barGeneration + 1 := by
    rw [h.remembers.search]
    exact Nat.min_le_left _ _
  have hset : ∀ {request' : WaitingRefresh},
      request'.minimumGeneration ≤ r.search.barGeneration + 1 →
        ∀ other ∈ r.waiting.set k request',
          other.minimumGeneration ≤ r.search.barGeneration + 1 := by
    intro request' hminimum other hmem
    rcases List.mem_or_eq_of_mem_set hmem with hmem | rfl
    · exact h.minimum other hmem
    · exact hminimum
  have herase : ∀ other ∈ r.waiting.eraseIdx k,
      other.minimumGeneration ≤ r.search.barGeneration + 1 :=
    fun other hmem => h.minimum other (List.mem_of_mem_eraseIdx hmem)
  cases hpolls with
  | refuses kind message hover hkind => exact h.of_sameSearch hwhole hroom rfl herase (Or.inl rfl)
  | postpones hbusy => exact h.of_sameSearch hwhole hroom rfl (hset hnext) (Or.inl rfl)
  | waits hbusy hloading =>
    exact h.of_sameSearch hwhole hroom rfl (hset (h.minimum request (List.mem_of_getElem? hk)))
      (Or.inl rfl)
  | succeeds hbusy hloading houtcome herror =>
    exact h.of_sameSearch hwhole hroom rfl herase (Or.inl rfl)
  | fails error hbusy hloading houtcome herror =>
    exact h.of_sameSearch hwhole hroom rfl herase (Or.inl rfl)
  | schedules hbusy hloading houtcome =>
    have hwaiting : ∀ other ∈ r.waiting.set k request, other ∈ r.waiting := by
      intro other hmem
      rcases List.mem_or_eq_of_mem_set hmem with hmem | rfl
      · exact hmem
      · exact List.mem_of_getElem? hk
    exact h.schedule hroom hwhole rfl hwaiting (Or.inl rfl)

theorem step (h : Going r) (hroom : r.search.barGeneration + 2 ≤ u64Max)
    {event : RefreshEvent D} (hstep : r.step event = some r') : Going r' := by
  -- Everything but a timer, a search and the refresh of a sync leaves the search as it is.
  cases event with
  | call method parameters =>
    have hwhole := hstep
    obtain rfl := Option.some.inj hstep
    have hsame := sameSearch_methodCall r method parameters
    refine h.of_sameSearch hwhole hroom hsame.search (fun request hmem => ?_)
      (Or.inl (sync_methodCall r method parameters))
    rcases waiting_methodCall hmem with hold | hnew
    · exact h.minimum request hold
    · rw [hnew, h.remembers.search]
      exact Nat.min_le_left _ _
  | poll k => exact h.poll hroom hstep
  | search event => exact h.search hroom hstep
  | syncRefresh query =>
    have hwhole := hstep
    obtain rfl := Option.some.inj hstep
    exact h.schedule hroom hwhole rfl (fun _ hmem => hmem) (Or.inr rfl)
  | syncEnds =>
    have hwhole := hstep
    obtain rfl := Option.some.inj hstep
    exact h.of_sameSearch hwhole hroom rfl h.minimum (Or.inr rfl)
  | work writers =>
    have hwhole := hstep
    obtain rfl := Option.some.inj hstep
    exact h.of_sameSearch hwhole hroom rfl h.minimum (Or.inl rfl)
  | select thread uncertain =>
    have hwhole := hstep
    obtain rfl := Option.some.inj hstep
    exact h.of_sameSearch hwhole hroom rfl h.minimum (Or.inl rfl)
  | window ready visible closeWhenIdle closeFlushInProgress =>
    have hwhole := hstep
    obtain rfl := Option.some.inj hstep
    exact h.of_sameSearch hwhole hroom rfl h.minimum (Or.inl rfl)
  | tick milliseconds =>
    have hwhole := hstep
    obtain rfl := Option.some.inj hstep
    exact h.of_sameSearch hwhole hroom rfl h.minimum (Or.inl rfl)

/-- The selection is nothing that the requests wait for. -/
theorem select (h : Going r) (thread : Option Str) :
    Going { r with selectedThread := thread } where
  remembers :=
    { search := h.remembers.search
      used := h.remembers.used
      reservedLe := h.remembers.reservedLe
      reserved := h.remembers.reserved
      searchError := h.remembers.searchError
      outcome := h.remembers.outcome }
  inFlight := h.inFlight
  minimum := h.minimum
  syncLe := h.syncLe
  sync := h.sync

theorem launch (query : Str) (pageSize : Nat) (display : ThreadListDisplay) (loading : Str) :
    Going (RefreshWindow.launch (D := D) (.launch query pageSize display loading)) where
  remembers := .launch query pageSize display loading
  inFlight := fun hloading => absurd hloading Bool.false_ne_true
  minimum := fun _ hmem => absurd hmem List.not_mem_nil
  syncLe := fun _ hsome => absurd hsome (by simp [RefreshWindow.launch])
  sync := fun hsome => absurd hsome (by simp [RefreshWindow.launch])

end Going

/-! ## Moves that nobody has to ask for -/

theorem step_search {event : SearchEvent D} {search : SearchWindow D} (hadmits : r.Admits event)
    (hsearch : r.search.step event = some search) :
    r.step (.search event) = some (r.afterSearch event search) := by
  unfold RefreshWindow.step
  dsimp only
  rw [if_pos hadmits, hsearch]
  rfl

/-- **The moves.** What comes of `respond` is up to the search worker. The completion of a list
update may select a thread, and then the callback that it runs in begins the load of this thread.
What the loader brings is an error, or a message that is shown and asks for nothing more: a draft
that goes to the composer would make the window wait for the composer as well. -/
inductive Helps (invocation : Nat) (r : RefreshWindow D) : Set (RefreshWindow D) → Prop where
  /-- the timer of the call itself; the others can wait -/
  | poll {k : Nat} {request : WaitingRefresh} {r' : RefreshWindow D}
      (hk : r.waiting[k]? = some request) (hown : request.invocation = invocation)
      (hstep : r.step (.poll k) = some r') : Helps invocation r {r'}
  /-- the debounce of the search text -/
  | dispatched {r' : RefreshWindow D} (hstep : r.step (.search .inputDispatched) = some r') :
      Helps invocation r {r'}
  /-- the search worker, which answers in some way -/
  | respond {k : Nat} {request : PageRequest} (hrequest : r.search.requests[k]? = some request) :
      Helps invocation r {r' | ∃ answer, r.step (.search (.respond k answer)) = some r'}
  /-- a callback of the list that has not come to its completion -/
  | callback {k : Nat} {list : ThreadListController Nat} {r' : RefreshWindow D}
      (hrun : r.search.list.runIdle k = some (list, none))
      (hstep : r.step (.search (.idle k)) = some r') : Helps invocation r {r'}
  /-- one that has, and may begin a thread load -/
  | completion {k : Nat} {list : ThreadListController Nat} {completed : Nat × Bool}
      {r' : RefreshWindow D} (hrun : r.search.list.runIdle k = some (list, some completed))
      (hstep : r.step (.search (.idle k)) = some r') :
      Helps invocation r {r'' | r'' = r' ∨ ∃ generation,
        r'.step (.work (r'.writers.scheduleThreadLoad generation)) = some r''}
  /-- the thread loader, after which some thread is selected -/
  | loaded (hload : r.writers.threadLoadGeneration.isSome = true) :
      Helps invocation r {r' | ∃ thread r₁, r.step (.work r.writers.finishThreadLoad) = some r₁ ∧
        r₁.step (.select thread r.tagPathsUncertain) = some r'}

namespace Helps

variable {invocation : Nat} {outcomes : Set (RefreshWindow D)}

theorem reachable_of_step {event : RefreshEvent D} (hstep : r.step event = some r') :
    Reachable (Steps step) r r' := ⟨_, Run.nil.snoc hstep⟩

/-- A move is made of steps of the window. -/
theorem reachable (h : Helps invocation r outcomes) (hr' : r' ∈ outcomes) :
    Reachable (Steps step) r r' := by
  cases h with
  | poll hk hown hstep =>
    rw [Set.mem_singleton_iff.1 hr']
    exact reachable_of_step hstep
  | dispatched hstep =>
    rw [Set.mem_singleton_iff.1 hr']
    exact reachable_of_step hstep
  | respond hrequest =>
    obtain ⟨answer, hstep⟩ := hr'
    exact reachable_of_step hstep
  | callback hrun hstep =>
    rw [Set.mem_singleton_iff.1 hr']
    exact reachable_of_step hstep
  | completion hrun hstep =>
    rcases hr' with rfl | ⟨generation, hload⟩
    · exact reachable_of_step hstep
    · exact (reachable_of_step hstep).trans (reachable_of_step hload)
  | loaded hload =>
    obtain ⟨thread, r₁, hwork, hselect⟩ := hr'
    exact (reachable_of_step hwork).trans (reachable_of_step hselect)

/-- A move has an outcome: the worker can always answer with an error. -/
theorem nonempty (h : Helps invocation r outcomes) : outcomes.Nonempty := by
  cases h with
  | poll hk hown hstep => exact Set.singleton_nonempty _
  | dispatched hstep => exact Set.singleton_nonempty _
  | @respond k request hrequest =>
    have hsearch : ∃ search, r.search.step (.respond k (.error [])) = some search := by
      show ∃ search, r.search.respond k (.error []) = some search
      unfold SearchWindow.respond
      rw [hrequest]
      dsimp only
      split
      · exact ⟨_, rfl⟩
      · exact ⟨_, rfl⟩
    obtain ⟨search, hsearch⟩ := hsearch
    exact ⟨r.afterSearch (.respond k (.error [])) search, .error [], step_search trivial hsearch⟩
  | callback hrun hstep => exact Set.singleton_nonempty _
  | completion hrun hstep => exact ⟨_, Or.inl rfl⟩
  | loaded hload => exact ⟨_, none, _, rfl, rfl⟩

end Helps

/-- All that the timer of a request looks at besides the searches, and the newest generation. -/
structure Quiet (r r' : RefreshWindow D) : Prop where
  waiting : r'.waiting = r.waiting
  replies : r'.replies = r.replies
  writers : r'.writers = r.writers
  visible : r'.visible = r.visible
  closeWhenIdle : r'.closeWhenIdle = r.closeWhenIdle
  closeFlushInProgress : r'.closeFlushInProgress = r.closeFlushInProgress
  now : r'.now = r.now
  bar : r'.search.barGeneration = r.search.barGeneration

theorem Quiet.refl (r : RefreshWindow D) : Quiet r r := by constructor <;> rfl

theorem Quiet.trans {r'' : RefreshWindow D} (h : Quiet r r') (h' : Quiet r' r'') : Quiet r r'' where
  waiting := h'.waiting.trans h.waiting
  replies := h'.replies.trans h.replies
  writers := h'.writers.trans h.writers
  visible := h'.visible.trans h.visible
  closeWhenIdle := h'.closeWhenIdle.trans h.closeWhenIdle
  closeFlushInProgress := h'.closeFlushInProgress.trans h.closeFlushInProgress
  now := h'.now.trans h.now
  bar := h'.bar.trans h.bar

/-- The search that was loading has come to an end without a new one. -/
structure Settled (r r' : RefreshWindow D) : Prop where
  going : Going r'
  quiet : Quiet r r'
  ended : r'.search.searchLoading = false

/-- The end of another search that was loading since is an end of this one. -/
theorem Settled.after {r'' : RefreshWindow D} (hquiet : Quiet r r') (h : Settled r' r'') :
    Settled r r'' := ⟨h.going, hquiet.trans h.quiet, h.ended⟩

section Helped

variable {invocation : Nat}

/-! ## The callbacks of the list -/

/-- A callback with work left changes the list and nothing else. -/
theorem step_idle_goesOn {k : Nat} {list : ThreadListController Nat}
    (h : r.search.list.runIdle k = some (list, none)) :
    r.step (.search (.idle k)) = some { r with search := { r.search with list := list } } := by
  have hsearch : r.search.step (.idle k) = some { r.search with list := list } := by
    show (r.search.list.runIdle k).map _ = _
    rw [h]
    rfl
  have hafter : r.afterSearch (.idle k) { r.search with list := list } =
      { r with search := { r.search with list := list } } := by
    unfold afterSearch
    simp only [h]
    rfl
  rw [← hafter]
  exact step_search trivial hsearch

/-- A callback that calls its completion. -/
theorem step_idle_ends {k generation : Nat} {applied : Bool} {list : ThreadListController Nat}
    (h : r.search.list.runIdle k = some (list, some (generation, applied))) :
    r.step (.search (.idle k)) =
      some ({ r with
        search := SearchWindow.finishSearchActivity { r.search with list := list }
          generation }.afterListUpdate generation applied) := by
  have hsearch : r.search.step (.idle k) =
      some (SearchWindow.finishSearchActivity { r.search with list := list } generation) := by
    show (r.search.list.runIdle k).map _ = _
    rw [h]
    rfl
  have hafter : r.afterSearch (.idle k)
      (SearchWindow.finishSearchActivity { r.search with list := list } generation) =
      { r with
        search := SearchWindow.finishSearchActivity { r.search with list := list }
          generation }.afterListUpdate generation applied := by
    unfold afterSearch
    simp only [h]
    rfl
  rw [← hafter]
  exact step_search trivial hsearch

theorem writers_afterListUpdate (r : RefreshWindow D) (generation : Nat) (applied : Bool) :
    (r.afterListUpdate generation applied).writers = r.writers := by
  unfold afterListUpdate
  dsimp only
  split
  · cases applied <;> rfl
  · rfl

/-- A list update that is recorded, if it is that of a full search and was applied. -/
theorem afterListUpdate_records {generation : Nat}
    (hsearch : r.search.searchGeneration = generation) (applied : Bool)
    (hmem : generation ∈ r.recording) (happlied : applied = true) :
    (r.afterListUpdate generation applied).fullSearchOutcomeGeneration = generation := by
  have hnewest : (r.recording.contains generation &&
      r.search.searchGeneration == generation) = true := by
    rw [Bool.and_eq_true, List.contains_iff_mem, beq_iff_eq]
    exact ⟨hmem, hsearch⟩
  unfold afterListUpdate
  dsimp only
  rw [if_pos hnewest, happlied]
  rfl

/-! ## Thread loads -/

/-- A thread load that a completion has begun ends: the writers are as idle as they were. -/
theorem finishThreadLoad_scheduleThreadLoad {w : Writers} (h : w.busy = false) (generation : Nat) :
    (w.scheduleThreadLoad generation).finishThreadLoad = w :=
  Writers.cancelPreparation_of_idle h

/-- **Whatever a completion begins is over.** The thread that it selects is loaded, and then nothing
that the timer looks at has changed. -/
theorem completed {goal : RefreshWindow D → Prop} {k : Nat} {list : ThreadListController Nat}
    {completion : Nat × Bool} (hrun : r.search.list.runIdle k = some (list, some completion))
    (hstep : r.step (.search (.idle k)) = some r') (hidle : r'.writers.busy = false)
    (hgoal : ∀ thread, goal { r' with selectedThread := thread }) :
    Forces (Helps invocation) goal r := by
  refine .next (.completion hrun hstep) fun r'' hr'' => ?_
  rcases hr'' with rfl | ⟨generation, hload⟩
  · exact .reached (hgoal r''.selectedThread)
  · obtain rfl := Option.some.inj hload
    refine .next (.loaded rfl) fun r₂ hr₂ => ?_
    obtain ⟨thread, r₁, hwork, hselect⟩ := hr₂
    obtain rfl := Option.some.inj hwork
    obtain rfl := Option.some.inj hselect
    refine .reached ?_
    show goal { r' with
      writers := (r'.writers.scheduleThreadLoad generation).finishThreadLoad
      selectedThread := thread }
    rw [finishThreadLoad_scheduleThreadLoad hidle]
    exact hgoal thread

/-- An update of the list runs to its end: its callback goes on until it calls the completion. -/
theorem drained {k : Nat} {c c' : ThreadListController Nat} {completion : Nat × Bool}
    {goal : RefreshWindow D → Prop} (h : ThreadListController.Drains k c c' completion)
    (hgoing : Going r) (hroom : r.search.barGeneration + 2 ≤ u64Max)
    (hidle : r.writers.busy = false) (hlist : r.search.list = c)
    (hgoal : ∀ r', Going r' → r' = { r with
        search := SearchWindow.finishSearchActivity { r.search with list := c' }
          completion.1 }.afterListUpdate completion.1 completion.2 →
      ∀ thread, goal { r' with selectedThread := thread }) :
    Forces (Helps invocation) goal r := by
  induction h generalizing r with
  | last hrun =>
    subst hlist
    have hstep := step_idle_ends hrun
    exact completed hrun hstep (by rw [writers_afterListUpdate]; exact hidle)
      (hgoal _ (hgoing.step hroom hstep) rfl)
  | more hrun hrest ih =>
    subst hlist
    have hstep := step_idle_goesOn hrun
    refine .one (.callback hrun hstep) ?_
    exact ih (hgoing.step hroom hstep) hroom hidle rfl hgoal

/-- The newest search has come into the list: its update runs to its end, and with it the activity
ends. A full search is recorded, unless its update was cancelled. -/
theorem completes (hgoing : Going r) (hroom : r.search.barGeneration + 2 ≤ u64Max)
    (hidle : r.writers.busy = false) {k generation : Nat} {work : ModelWork Nat}
    (hk : r.search.list.idle[k]? = some (.model generation work))
    (hcomplete : work.complete = some r.search.barGeneration) :
    Forces (Helps invocation) (fun r' => Settled r r' ∧
      (r.search.barGeneration ∈ r.recording → r.search.list.modelUpdateGeneration = generation →
        r'.fullSearchOutcomeGeneration = r.search.barGeneration)) r := by
  obtain ⟨list, applied, hdrains, happlied⟩ := ThreadListController.drains hk hcomplete
  refine drained hdrains hgoing hroom hidle rfl ?_
  rintro r' hgoing' rfl thread
  obtain ⟨loading, -, hfinished⟩ :=
    SearchWindow.finishSearchActivity_eq { r.search with list := list } r.search.barGeneration
  have hended : (SearchWindow.finishSearchActivity { r.search with list := list }
      r.search.barGeneration).searchLoading = false :=
    SearchWindow.finishSearchActivity_loading (w := { r.search with list := list })
      hgoing.remembers.search
  rw [hfinished] at hended hgoing' ⊢
  have hsame := sameRequests_afterListUpdate
    { r with search := { r.search with list := list, searchLoading := loading } }
    r.search.barGeneration applied
  have hrecords := afterListUpdate_records
    (r := { r with search := { r.search with list := list, searchLoading := loading } })
    hgoing.remembers.search applied
  refine ⟨⟨hgoing'.select thread, ⟨hsame.waiting, hsame.replies, writers_afterListUpdate _ _ _,
    hsame.visible, hsame.closeWhenIdle, hsame.closeFlushInProgress, hsame.now, ?_⟩, ?_⟩, ?_⟩
  · exact (congrArg SearchWindow.barGeneration hsame.search).trans rfl
  · exact (congrArg SearchWindow.searchLoading hsame.search).trans hended
  · exact fun hmem hnewest => hrecords hmem (happlied hnewest)

/-! ## The search worker -/

theorem writers_afterResponse (r : RefreshWindow D) (request : PageRequest)
    (answer : PageAnswer D) : (r.afterResponse request answer).writers = r.writers := by
  unfold afterResponse
  split
  · split <;> rfl
  · split <;> rfl
  · rfl

/-- The response to the newest request is accepted. -/
theorem respond_newest (hgoing : Going r) {i : Nat} {request : PageRequest}
    (hrequest : r.search.requests[i]? = some request)
    (hnewest : request.generation = r.search.barGeneration) {answer : PageAnswer D}
    (hstep : r.step (.search (.respond i answer)) = some r') :
    ∃ search, SearchWindow.answerRequest
        { r.search with requests := r.search.requests.eraseIdx i } request answer = some search ∧
      Quiet r r' ∧ r'.search = search ∧
      r' = { r with
        search := search
        searchError := r.searchErrorAfter (.respond i answer) }.afterResponse request answer := by
  have haccepts : r.search.accepts request = true := by
    rw [SearchWindow.accepts, Bool.and_eq_true, beq_iff_eq, beq_iff_eq, hnewest]
    exact ⟨rfl, hgoing.remembers.search⟩
  have haccepts' : SearchWindow.accepts
      { r.search with requests := r.search.requests.eraseIdx i } request = true := haccepts
  obtain ⟨search, -, hsearch, rfl⟩ := search_of_step hstep
  have hanswer : SearchWindow.answerRequest
      { r.search with requests := r.search.requests.eraseIdx i } request answer =
        some search := by
    have hrespond : r.search.respond i answer = some search := hsearch
    unfold SearchWindow.respond at hrespond
    rw [hrequest] at hrespond
    dsimp only at hrespond
    rw [if_pos haccepts'] at hrespond
    exact hrespond
  have hafter : r.afterSearch (.respond i answer) search = _ :=
    afterSearch_accepted hrequest haccepts search
  have hsame := sameRequests_afterSearch r (.respond i answer) search
  have hwriters : (r.afterSearch (.respond i answer) search).writers = r.writers := by
    rw [hafter]
    exact writers_afterResponse _ _ _
  obtain ⟨list, pages, loading, -, heq⟩ := SearchWindow.answerRequest_eq hanswer
  have hbar : search.barGeneration = r.search.barGeneration := by rw [heq]
  refine ⟨search, hanswer, ?_, hsame.search, hafter⟩
  exact ⟨hsame.waiting, hsame.replies, hwriters, hsame.visible, hsame.closeWhenIdle,
    hsame.closeFlushInProgress, hsame.now, by rw [hsame.search]; exact hbar⟩

/-- **The newest request is answered**, in whatever way: its search comes to an end, and a full
search is recorded. -/
theorem answered (hgoing : Going r) (hroom : r.search.barGeneration + 2 ≤ u64Max)
    (hidle : r.writers.busy = false) {i : Nat} {request : PageRequest}
    (hrequest : r.search.requests[i]? = some request)
    (hnewest : request.generation = r.search.barGeneration) :
    Forces (Helps invocation) (fun r' => Settled r r' ∧ (request.purpose = .search →
      r'.fullSearchOutcomeGeneration = r.search.barGeneration)) r := by
  refine .next (.respond hrequest) fun r₁ hr₁ => ?_
  obtain ⟨answer, hstep⟩ := hr₁
  obtain ⟨search, hanswer, hquiet, hsearch, hafter⟩ :=
    respond_newest hgoing hrequest hnewest hstep
  have hgoing₁ := hgoing.step hroom hstep
  have hown : SearchWindow.searchGeneration
      { r.search with requests := r.search.requests.eraseIdx i } = request.generation := by
    rw [hnewest]
    exact hgoing.remembers.search
  cases answer with
  | stale =>
    -- only a page that a visual selection has asked for can be stale
    have hpurpose : request.purpose = .containingIndex ∧ search =
        SearchWindow.finishSearchActivity
          { r.search with requests := r.search.requests.eraseIdx i } request.generation := by
      unfold SearchWindow.answerRequest at hanswer
      dsimp only at hanswer
      split at hanswer
      · next hpurpose => exact ⟨hpurpose, (Option.some.inj hanswer).symm⟩
      · cases hanswer
      · cases hanswer
    refine .reached ⟨⟨hgoing₁, hquiet, ?_⟩, fun hsearch => ?_⟩
    · rw [hsearch, hpurpose.2]
      exact SearchWindow.finishSearchActivity_loading hown
    · rw [hpurpose.1] at hsearch
      cases hsearch
  | error error =>
    obtain rfl := Option.some.inj hanswer
    refine .reached ⟨⟨hgoing₁, hquiet, ?_⟩, fun hpurpose => ?_⟩
    · rw [hsearch, SearchWindow.finishSearchError_loading]
      exact SearchWindow.finishSearchActivity_loading hown
    · rw [hafter]
      unfold afterResponse
      dsimp only
      rw [hpurpose]
      exact hnewest
  | ok data selectedThreadId selectedIndex =>
    obtain ⟨work, pages, hcomplete, hpage⟩ := SearchWindow.answerRequest_ok
      { r.search with requests := r.search.requests.eraseIdx i } request data selectedThreadId
      selectedIndex
    obtain rfl := Option.some.inj (hpage.symm.trans hanswer)
    -- the callback of the update is the last of the list, and the newest
    have hlist : r₁.search.list = r.search.list.startWork work := by rw [hsearch]
    have hlast : r₁.search.list.idle[r.search.list.idle.length]? =
        some (.model r₁.search.list.modelUpdateGeneration work) := by
      rw [hlist]
      exact List.getElem?_concat_length
    rw [hnewest, ← hquiet.bar] at hcomplete
    have hroom' : r₁.search.barGeneration + 2 ≤ u64Max := by
      rw [hquiet.bar]
      exact hroom
    have hidle' : r₁.writers.busy = false := by
      rw [hquiet.writers]
      exact hidle
    refine (completes hgoing₁ hroom' hidle' hlast hcomplete).trans fun r' h => ?_
    obtain ⟨hsettled, hrecorded⟩ := h
    refine .reached ⟨hsettled.after hquiet, fun hpurpose => ?_⟩
    rw [← hquiet.bar]
    refine hrecorded ?_ rfl
    rw [hquiet.bar, hafter]
    unfold afterResponse
    dsimp only
    rw [hpurpose, ← hnewest]
    exact List.mem_cons_self

/-- **A search that is loading comes to an end** without any new one: the text that waits is
requested, the request is answered, and the update of the list is run. -/
theorem settles (hgoing : Going r) (hroom : r.search.barGeneration + 2 ≤ u64Max)
    (hidle : r.writers.busy = false) (hloading : r.search.searchLoading = true) :
    Forces (Helps invocation) (Settled r) r := by
  rcases hgoing.inFlight hloading with ⟨query, hwaits⟩ | ⟨request, hmem, hnewest⟩ | hcompletes
  · -- the debounce ends, and the text is requested
    have hsearch : r.search.step .inputDispatched =
        some (SearchWindow.launchRequest { r.search with reserved := none } .search query 0) := by
      show r.search.dispatchInput = _
      unfold SearchWindow.dispatchInput
      rw [hwaits]
      dsimp only
      rw [if_pos rfl]
    have hadmits : r.Admits .inputDispatched := trivial
    have hstep := step_search hadmits hsearch
    have hquiet : Quiet r (r.afterSearch .inputDispatched
        (SearchWindow.launchRequest { r.search with reserved := none } .search query 0)) := by
      constructor <;> rfl
    have hlast : (r.search.requests ++
        [⟨r.search.barGeneration, .search, query, 0⟩])[r.search.requests.length]? =
          some ⟨r.search.barGeneration, .search, query, 0⟩ := List.getElem?_concat_length
    refine .one (.dispatched hstep) ?_
    refine (answered (hgoing.step hroom hstep) hroom hidle hlast rfl).trans fun r' h => ?_
    exact .reached (h.1.after hquiet)
  · obtain ⟨i, hi⟩ := List.getElem?_of_mem hmem
    exact (answered hgoing hroom hidle hi hnewest).trans fun _ h => .reached h.1
  · obtain ⟨callback, hmem, hcomplete⟩ := hcompletes
    obtain ⟨k, hk⟩ := List.getElem?_of_mem hmem
    cases callback with
    | parked => exact absurd hcomplete (by simp [IdleCallback.complete])
    | model generation work =>
      exact (completes hgoing hroom hidle hk hcomplete).trans fun _ h => .reached h.1

end Helped

/-! ## The timer of a request -/

/-- The window is open, the time of the request is not up and no writer is busy. -/
structure Open (r : RefreshWindow D) (request : WaitingRefresh) : Prop where
  visible : r.visible = true
  closeWhenIdle : r.closeWhenIdle = false
  closeFlushInProgress : r.closeFlushInProgress = false
  early : r.now < request.deadline
  idle : r.writers.busy = false

theorem Open.quiet {request : WaitingRefresh} (h : Open r request) (hquiet : Quiet r r') :
    Open r' request where
  visible := hquiet.visible.trans h.visible
  closeWhenIdle := hquiet.closeWhenIdle.trans h.closeWhenIdle
  closeFlushInProgress := hquiet.closeFlushInProgress.trans h.closeFlushInProgress
  early := by rw [hquiet.now]; exact h.early
  idle := by rw [hquiet.writers]; exact h.idle

/-- Nothing of all this keeps a poll of an open window from the searches. -/
theorem Open.looks {request : WaitingRefresh} (h : Open r request) :
    ¬ (r.visible = false ∨ r.closeWhenIdle = true ∨ r.closeFlushInProgress = true) ∧
      ¬ r.now ≥ request.deadline ∧ ¬ r.writers.busy = true := by
  rw [h.visible, h.closeWhenIdle, h.closeFlushInProgress, h.idle]
  exact ⟨by simp, Nat.not_le.2 h.early, Bool.false_ne_true⟩

/-- The reply is there: it tells of a search, or of its failure. -/
def Answered (r : RefreshWindow D) (invocation : Nat) : Prop :=
  (∃ generation, (invocation, .value generation) ∈ r.replies) ∨
    ∃ error, (invocation, returnError "SearchFailed" error) ∈ r.replies

/-- A full search has ended that is late enough. -/
theorem poll_answers {k : Nat} {request : WaitingRefresh} (hk : r.waiting[k]? = some request)
    (h : Open r request) (hloading : r.search.searchLoading = false)
    (houtcome : request.minimumGeneration ≤ r.fullSearchOutcomeGeneration) :
    ∃ r', r.step (.poll k) = some r' ∧ Answered r' request.invocation := by
  obtain ⟨hopen, hearly, hidle⟩ := h.looks
  have hended : ¬ r.search.searchLoading = true := by simp [hloading]
  have hreply : ∀ {reply : RefreshReply},
      (request.invocation, reply) ∈ ({ r with
        pending := r.pending - 1
        waiting := r.waiting.eraseIdx k }.reply request.invocation reply).replies :=
    List.mem_append_right _ (List.mem_singleton_self _)
  cases herror : r.fullSearchOutcomeError with
  | none =>
    refine ⟨_, ?_, Or.inl ⟨r.fullSearchOutcomeGeneration, hreply⟩⟩
    show r.poll k = some _
    unfold RefreshWindow.poll pollRefresh fullSearchOutcomeAtOrAfter
    simp only [hk, if_neg hopen, if_neg hearly, if_neg hidle, if_neg hended, if_pos houtcome,
      herror]
  | some error =>
    refine ⟨_, ?_, Or.inr ⟨error, hreply⟩⟩
    show r.poll k = some _
    unfold RefreshWindow.poll pollRefresh fullSearchOutcomeAtOrAfter
    simp only [hk, if_neg hopen, if_neg hearly, if_neg hidle, if_neg hended, if_pos houtcome,
      herror]

/-- No such search has ended: one is begun, which cancels no preparation. -/
theorem poll_schedules {k : Nat} {request : WaitingRefresh} (hk : r.waiting[k]? = some request)
    (h : Open r request) (hloading : r.search.searchLoading = false)
    (houtcome : r.fullSearchOutcomeGeneration < request.minimumGeneration) :
    ∃ r', r.step (.poll k) = some r' ∧ Open r' request ∧ r'.waiting = r.waiting ∧
      r'.search = r.search.scheduleSearch r.search.pages.currentQuery ∧
      r'.writers = r.writers := by
  obtain ⟨hopen, hearly, hidle⟩ := h.looks
  have hended : ¬ r.search.searchLoading = true := by simp [hloading]
  have hwriters := Writers.cancelPreparation_of_idle h.idle
  refine ⟨{ r.scheduleRefresh with waiting := r.waiting.set k request }, ?_, ?_, ?_, rfl,
    hwriters⟩
  · show r.poll k = some _
    unfold RefreshWindow.poll pollRefresh fullSearchOutcomeAtOrAfter
    simp only [hk, if_neg hopen, if_neg hearly, if_neg hidle, if_neg hended,
      if_neg (Nat.not_le.2 houtcome)]
    rfl
  · refine ⟨h.visible, h.closeWhenIdle, h.closeFlushInProgress, h.early, ?_⟩
    show r.writers.cancelPreparation.busy = false
    rw [hwriters]
    exact h.idle
  · show r.waiting.set k request = r.waiting
    obtain ⟨hlt, hget⟩ := List.getElem?_eq_some_iff.1 hk
    rw [← hget]
    exact List.set_getElem_self hlt

/-! ## Runs -/

/-- A request that waits behind an open window, with no writer busy, can be answered: the searches
that are loading end, and if none of them was late enough, the one that its timer begins is. -/
theorem Going.answers (hgoing : Going r) (hroom : r.search.barGeneration + 3 ≤ u64Max) {k : Nat}
    {request : WaitingRefresh} (hk : r.waiting[k]? = some request) (hopen : Open r request) :
    Forces (Helps request.invocation) (fun r' => Answered r' request.invocation) r := by
  -- whatever is loading ends first
  have hends : Forces (Helps request.invocation) (Settled r) r := by
    cases hloading : r.search.searchLoading with
    | true => exact settles hgoing (by omega) hopen.idle hloading
    | false => exact .reached ⟨hgoing, .refl r, hloading⟩
  refine hends.trans fun r₁ hsettled => ?_
  have hk₁ : r₁.waiting[k]? = some request := by rw [hsettled.quiet.waiting]; exact hk
  have hopen₁ := hopen.quiet hsettled.quiet
  have hbar₁ := hsettled.quiet.bar
  by_cases houtcome : request.minimumGeneration ≤ r₁.fullSearchOutcomeGeneration
  · obtain ⟨r', hpoll, hanswered⟩ := poll_answers hk₁ hopen₁ hsettled.ended houtcome
    exact .one (.poll hk₁ rfl hpoll) (.reached hanswered)
  · obtain ⟨r₂, hpoll, hopen₂, hwaiting, hsearch, -⟩ :=
      poll_schedules hk₁ hopen₁ hsettled.ended (by omega)
    have hgoing₂ := hsettled.going.step (by omega) hpoll
    have hbar₂ : r₂.search.barGeneration = r₁.search.barGeneration + 1 := by
      have hlt : r₁.search.barGeneration < u64Max := by omega
      rw [hsearch]
      exact saturatingSucc_of_lt hlt
    -- the search that has begun is under way, and is late enough
    have hunderway : r₂.search.requests[r₁.search.requests.length]? =
        some (⟨r₂.search.barGeneration, .search, r₁.search.pages.currentQuery, 0⟩ :
          PageRequest) := by
      rw [hsearch]
      exact List.getElem?_concat_length
    refine .one (.poll hk₁ rfl hpoll) ?_
    refine (answered hgoing₂ (by omega) hopen₂.idle hunderway rfl).trans fun r₃ h => ?_
    obtain ⟨hsettled₃, hrecorded⟩ := h
    have hk₃ : r₃.waiting[k]? = some request := by
      rw [hsettled₃.quiet.waiting, hwaiting]
      exact hk₁
    have hminimum := hsettled.going.minimum request (List.mem_of_getElem? hk₁)
    have hlate : request.minimumGeneration ≤ r₃.fullSearchOutcomeGeneration := by
      have houtcome₃ := hrecorded rfl
      omega
    obtain ⟨r', hpoll', hanswered⟩ :=
      poll_answers hk₃ (hopen₂.quiet hsettled₃.quiet) hsettled₃.ended hlate
    exact .one (.poll hk₃ rfl hpoll') (.reached hanswered)

/-- **No refresh is stuck.** In whatever state a run leaves it, a request whose window is open and
whose time is not up can be answered as soon as no writer is busy, by moves that nobody has to ask
for and whatever comes of them; and so there is a run in which it is. -/
theorem refresh_can_be_answered {query : Str} {pageSize : Nat} {display : ThreadListDisplay}
    {loading : Str} {trace : List (RefreshWindow D × RefreshEvent D)}
    (hrun : Run (Steps step) (launch (D := D) (.launch query pageSize display loading)) trace r)
    (hroom : ∀ p ∈ trace, p.1.search.barGeneration + 2 ≤ u64Max)
    (hlast : r.search.barGeneration + 3 ≤ u64Max) {k : Nat} {request : WaitingRefresh}
    (hk : r.waiting[k]? = some request) (hopen : Open r request) :
    Forces (Helps request.invocation) (fun r' => Answered r' request.invocation) r ∧
      ∃ r', Reachable (Steps step) r r' ∧ Answered r' request.invocation := by
  have hgoing : Going r :=
    hrun.invariant_of_steps (I := Going) (G := fun t _ => t.search.barGeneration + 2 ≤ u64Max)
      (fun _ _ _ ht hroom hstep => ht.step hroom hstep) (.launch query pageSize display loading)
      hroom
  have hforces := hgoing.answers hlast hk hopen
  exact ⟨hforces, hforces.exists_reachable (fun _ _ h _ => h.reachable) fun _ _ h => h.nonempty⟩

/-- The tag operation is over, and the call that waited for it can be answered. -/
theorem refresh_once_can_be_answered :
    ∃ r, exec step shownWindow (refreshOnce.take 5) = some r ∧
      Forces (Helps 0) (fun r' => Answered r' 0) r ∧
      ∃ r', Reachable (Steps step) r r' ∧ Answered r' 0 := by
  have hstate : (exec step shownWindow (refreshOnce.take 5)).map (fun r =>
      [r.visible, r.closeWhenIdle, r.closeFlushInProgress, r.writers.busy, decide (r.now < 1000),
        decide (r.search.barGeneration + 3 ≤ u64Max),
        decide (r.waiting[0]? = some ⟨0, 1, 1000⟩)]) =
      some [true, false, false, false, true, true, true] := by
    decide
  obtain ⟨r, hend, hfacts⟩ := Option.map_eq_some_iff.1 hstate
  simp only [List.cons.injEq, decide_eq_true_eq, and_true] at hfacts
  obtain ⟨hvisible, hclose, hflush, hidle, hearly, hroom, hk⟩ := hfacts
  exact ⟨r, hend, refresh_can_be_answered (run_of_exec _ hend) (by decide) hroom hk
    ⟨hvisible, hclose, hflush, hearly, hidle⟩⟩

end RefreshWindow

end Notm.Ui
