import Notm.Ui.ExternalRefreshSteps
import Notm.Ui.ThreadListSettled

/-!
# What a refresh is answered with

A request that is told a generation is told of a full search that was handed to its worker,
answered and shown after the request had arrived, and after the last look of its timer at a busy
writer.

* `Marks` — the moments that a reply is compared with: the call, and a look at a busy writer.
* `Explained` — the outcomes that the window remembers, by what the steps since then have done.
* `Owed` — what these steps owe to one call.
* `refresh_calls_answered_once` — every call has one reply, in time.
* `refresh_answered_by_newer_search` — and one that tells of a search tells of a newer one.
-/

namespace Notm.Ui

open Rust Notmuch Transition

namespace RefreshWindow

variable {D : Type} {r r' : RefreshWindow D} {trace : List (RefreshWindow D × RefreshEvent D)}

/-! ## The steps of a full search -/

/-- The step hands a request to the search worker. -/
def Launches (p : RefreshWindow D × RefreshEvent D) (request : PageRequest) : Prop :=
  ∃ r', p.1.step p.2 = some r' ∧ r'.search.requests = p.1.search.requests ++ [request]

/-- The page that the worker read for it is accepted. -/
def Brings (p : RefreshWindow D × RefreshEvent D) (request : PageRequest) : Prop :=
  ∃ k data selectedThreadId selectedIndex,
    p.2 = .search (.respond k (.ok data selectedThreadId selectedIndex)) ∧
      p.1.search.requests[k]? = some request ∧ p.1.search.accepts request = true

/-- The worker failed, and its failure is accepted. -/
def Breaks (p : RefreshWindow D × RefreshEvent D) (request : PageRequest) (error : Str) : Prop :=
  ∃ k, p.2 = .search (.respond k (.error error)) ∧
    p.1.search.requests[k]? = some request ∧ p.1.search.accepts request = true

/-- The last rows of the page have come into the list. -/
def Shows (p : RefreshWindow D × RefreshEvent D) (request : PageRequest) : Prop :=
  ∃ k list, p.2 = .search (.idle k) ∧
    p.1.search.list.runIdle k = some (list, some (request.generation, true))

/-- The timer of a request finds no writer busy and no search loading. This says what the poll
finds; where it then has an outcome to reply with, the same step of the poll appends the reply and
takes the request out of the waiting ones. -/
def Acknowledges (p : RefreshWindow D × RefreshEvent D) (invocation : Nat) : Prop :=
  ∃ k request, p.2 = .poll k ∧ p.1.waiting[k]? = some request ∧
    request.invocation = invocation ∧ p.1.writers.busy = false ∧
    p.1.search.searchLoading = false

/-- The first page of the full search of a generation. -/
def fullSearch (generation : Nat) (query : Str) : PageRequest where
  generation
  purpose := .search
  query
  offset := 0

/-- A full search was handed over and its page accepted, in this order. -/
def Brought (trace : List (RefreshWindow D × RefreshEvent D)) (request : PageRequest) : Prop :=
  ∃ launch answer, [launch, answer].Sublist trace ∧ Launches launch request ∧
    Brings answer request

/-- A full search was handed over, and its failure accepted. -/
def Broken (trace : List (RefreshWindow D × RefreshEvent D)) (request : PageRequest)
    (error : Str) : Prop :=
  ∃ launch answer, [launch, answer].Sublist trace ∧ Launches launch request ∧
    Breaks answer request error

/-- A full search was handed over, its page accepted and shown. -/
def Shown (trace : List (RefreshWindow D × RefreshEvent D)) (request : PageRequest) : Prop :=
  ∃ launch answer applied, [launch, answer, applied].Sublist trace ∧ Launches launch request ∧
    Brings answer request ∧ Shows applied request

theorem sublist_snoc {α : Type} {l trace : List α} (h : l.Sublist trace) (p : α) :
    (l ++ [p]).Sublist (trace ++ [p]) := h.append (List.Sublist.refl _)

theorem Brought.snoc {request : PageRequest} (h : Brought trace request)
    (p : RefreshWindow D × RefreshEvent D) : Brought (trace ++ [p]) request := by
  obtain ⟨launch, answer, horder, hlaunch, hanswer⟩ := h
  exact ⟨launch, answer, horder.trans (List.sublist_append_left _ _), hlaunch, hanswer⟩

theorem Broken.snoc {request : PageRequest} {error : Str} (h : Broken trace request error)
    (p : RefreshWindow D × RefreshEvent D) : Broken (trace ++ [p]) request error := by
  obtain ⟨launch, answer, horder, hlaunch, hanswer⟩ := h
  exact ⟨launch, answer, horder.trans (List.sublist_append_left _ _), hlaunch, hanswer⟩

theorem Shown.snoc {request : PageRequest} (h : Shown trace request)
    (p : RefreshWindow D × RefreshEvent D) : Shown (trace ++ [p]) request := by
  obtain ⟨launch, answer, applied, horder, hsteps⟩ := h
  exact ⟨launch, answer, applied, horder.trans (List.sublist_append_left _ _), hsteps⟩

/-- The outcome of a search that is newer than a moment is that of steps since then. -/
structure OutcomeExplained (base : Nat) (trace : List (RefreshWindow D × RefreshEvent D))
    (r : RefreshWindow D) : Prop where
  shown : base < r.fullSearchOutcomeGeneration → r.fullSearchOutcomeError = none →
    ∃ query, Shown trace (fullSearch r.fullSearchOutcomeGeneration query)
  broken : ∀ error, base < r.fullSearchOutcomeGeneration →
    r.fullSearchOutcomeError = some error →
      ∃ query, Broken trace (fullSearch r.fullSearchOutcomeGeneration query) error

/-- What the steps since some moment explain: every full search that is newer than the newest of
that moment has been begun since. -/
structure Explained (base : Nat) (trace : List (RefreshWindow D × RefreshEvent D))
    (r : RefreshWindow D) : Prop where
  remembers : Remembers r
  bar : base ≤ r.search.barGeneration
  requests : ∀ request ∈ r.search.requests, request.purpose = .search →
    base < request.generation → request.offset = 0 ∧ ∃ launch ∈ trace, Launches launch request
  recording : ∀ generation ∈ r.recording, base < generation →
    ∃ query, Brought trace (fullSearch generation query)
  outcome : OutcomeExplained base trace r

/-- A request under way was so before, or is handed over by the step. -/
theorem requests_numbers {w w' : SearchWindow D} (h : SearchWindow.Numbers w w')
    {request : PageRequest} (hmem : request ∈ w'.requests) :
    request ∈ w.requests ∨
      (w'.requests = w.requests ++ [request] ∧
      (request.purpose = .search → request.offset = 0)) := by
  cases h with
  | keeps hbar hsearch hrequests hreserved => exact Or.inl (hrequests ▸ hmem)
  | drops hbar hsearch hrequests hreserved => exact Or.inl (hrequests ▸ hmem)
  | cancels hbar hsearch hrequests hreserved => exact Or.inl (hrequests ▸ hmem)
  | reserves query hbar hsearch hrequests hreserved => exact Or.inl (hrequests ▸ hmem)
  | answers k request' hbar hsearch hrequest hrequests hreserved =>
    rw [hrequests] at hmem
    exact Or.inl (List.mem_of_mem_eraseIdx hmem)
  | dispatches query hbar hsearch hwaited hrequests hreserved =>
    rw [hrequests] at hmem
    rcases List.mem_append.1 hmem with hmem | hmem
    · exact Or.inl hmem
    · obtain rfl := List.mem_singleton.1 hmem
      exact Or.inr ⟨hrequests, fun _ => rfl⟩
  | begins purpose query offset hbar hsearch hrequests hreserved hoffset =>
    rw [hrequests] at hmem
    rcases List.mem_append.1 hmem with hmem | hmem
    · exact Or.inl hmem
    · obtain rfl := List.mem_singleton.1 hmem
      exact Or.inr ⟨hrequests, hoffset⟩

/-- A request of a full search is the first page of its generation. -/
theorem eq_fullSearch {request : PageRequest} (hpurpose : request.purpose = .search)
    (hoffset : request.offset = 0) : request = fullSearch request.generation request.query := by
  obtain ⟨generation, purpose, query, offset⟩ := request
  obtain rfl : purpose = .search := hpurpose
  obtain rfl : offset = 0 := hoffset
  rfl

/-- The outcome stays, and what explained it still does. -/
theorem OutcomeExplained.snoc {base : Nat} (h : OutcomeExplained base trace r)
    (houtcome : SameOutcome r r') (p : RefreshWindow D × RefreshEvent D) :
    OutcomeExplained base (trace ++ [p]) r' where
  shown := by
    rw [houtcome.1, houtcome.2]
    intro hnew hnone
    obtain ⟨query, hshown⟩ := h.shown hnew hnone
    exact ⟨query, hshown.snoc p⟩
  broken := by
    rw [houtcome.1, houtcome.2]
    intro error hnew hsome
    obtain ⟨query, hbroken⟩ := h.broken error hnew hsome
    exact ⟨query, hbroken.snoc p⟩

namespace Explained

variable {base : Nat} {event : RefreshEvent D}

/-- A request that was handed over since, and whose response arrives. -/
theorem handed (h : Explained base trace r) {k : Nat} {request : PageRequest}
    (hrequest : r.search.requests[k]? = some request) (hpurpose : request.purpose = .search)
    (hnew : base < request.generation) :
    request = fullSearch request.generation request.query ∧
      ∃ launch ∈ trace, Launches launch request := by
  obtain ⟨hoffset, hlaunched⟩ := h.requests request (List.mem_of_getElem? hrequest) hpurpose hnew
  exact ⟨eq_fullSearch hpurpose hoffset, hlaunched⟩

/-- Whatever the step of the search is, a request is an old one or is handed over now. -/
theorem requests_snoc (h : Explained base trace r) (hstep : r.step event = some r')
    (hnumbers : SearchWindow.Numbers r.search r'.search) :
    ∀ request ∈ r'.search.requests, request.purpose = .search → base < request.generation →
      request.offset = 0 ∧ ∃ launch ∈ trace ++ [(r, event)], Launches launch request := by
  intro request hmem hpurpose hnew
  rcases requests_numbers hnumbers hmem with hold | ⟨happend, hoffset⟩
  · obtain ⟨hoffset, launch, hlaunch, hlaunched⟩ := h.requests request hold hpurpose hnew
    exact ⟨hoffset, launch, List.mem_append_left _ hlaunch, hlaunched⟩
  · exact ⟨hoffset hpurpose, (r, event), by simp, r', hstep, happend⟩

theorem recording_snoc (h : Explained base trace r) (p : RefreshWindow D × RefreshEvent D) :
    ∀ generation ∈ r.recording, base < generation →
      ∃ query, Brought (trace ++ [p]) (fullSearch generation query) := by
  intro generation hmem hnew
  obtain ⟨query, hbrought⟩ := h.recording generation hmem hnew
  exact ⟨query, hbrought.snoc _⟩

/-- The page of a full search is accepted. -/
theorem brought (h : Explained base trace r) {k : Nat} {request : PageRequest}
    (hrequest : r.search.requests[k]? = some request) (hpurpose : request.purpose = .search)
    (hbrings : Brings (r, event) request) (hnew : base < request.generation) :
    ∃ query, Brought (trace ++ [(r, event)]) (fullSearch request.generation query) := by
  obtain ⟨hfull, launch, hlaunch, hlaunched⟩ := h.handed hrequest hpurpose hnew
  refine ⟨request.query, launch, (r, event), ?_, hfull ▸ hlaunched, hfull ▸ hbrings⟩
  exact sublist_snoc (List.singleton_sublist.2 hlaunch) _

/-- The failure of a full search is accepted, and recorded. -/
theorem broken (h : Explained base trace r) {k : Nat} {request : PageRequest} {error : Str}
    (hrequest : r.search.requests[k]? = some request) (hpurpose : request.purpose = .search)
    (hbreaks : Breaks (r, event) request error)
    (hrecords : Records request.generation (some error) r') :
    OutcomeExplained base (trace ++ [(r, event)]) r' := by
  obtain ⟨hgeneration, herror⟩ := hrecords
  refine ⟨?_, ?_⟩
  · rw [herror]
    exact fun _ hnone => absurd hnone (by simp)
  · rw [hgeneration, herror]
    intro error' hnew hsome
    obtain rfl := Option.some.inj hsome
    obtain ⟨hfull, launch, hlaunch, hlaunched⟩ := h.handed hrequest hpurpose hnew
    refine ⟨request.query, launch, (r, event), ?_, hfull ▸ hlaunched, hfull ▸ hbreaks⟩
    exact sublist_snoc (List.singleton_sublist.2 hlaunch) _

/-- The list update of the newest search has been applied: that search has had no error since it
began. -/
theorem shown (h : Explained base trace r) {k generation : Nat}
    {list : ThreadListController Nat} (hevent : event = .search (.idle k))
    (hrun : r.search.list.runIdle k = some (list, some (generation, true)))
    (hmem : generation ∈ r.recording) (hnewest : r.search.barGeneration = generation)
    (hrecords : Records generation r.searchError r') :
    OutcomeExplained base (trace ++ [(r, event)]) r' := by
  obtain ⟨hgeneration, herror⟩ := hrecords
  have hclean : r.searchError = none := h.remembers.searchError (hnewest ▸ hmem)
  refine ⟨?_, ?_⟩
  · rw [hgeneration]
    intro hnew _
    obtain ⟨query, launch, answer, horder, hlaunch, hanswer⟩ := h.recording _ hmem hnew
    exact ⟨query, launch, answer, (r, event), sublist_snoc horder _, hlaunch, hanswer, k, list,
      hevent, hrun⟩
  · rw [herror, hclean]
    exact fun _ _ hsome => absurd hsome (by simp)

/-- One step. -/
theorem step (h : Explained base trace r) (hroom : r.search.barGeneration + 2 ≤ u64Max)
    (hstep : r.step event = some r') : Explained base (trace ++ [(r, event)]) r' := by
  have hremembers := h.remembers.step hroom hstep
  rcases searches_step hroom hstep with hsame | ⟨event', hfollows, hevent⟩
  · obtain ⟨hsearch, hrecording, -, houtcome⟩ := hsame
    refine ⟨hremembers, by rw [hsearch]; exact h.bar, ?_, ?_, h.outcome.snoc houtcome _⟩
    · rw [hsearch]
      intro request hmem hpurpose hnew
      obtain ⟨hoffset, launch, hlaunch, hlaunched⟩ := h.requests request hmem hpurpose hnew
      exact ⟨hoffset, launch, List.mem_append_left _ hlaunch, hlaunched⟩
    · rw [hrecording]
      exact h.recording_snoc _
  · -- a response or a completion is no step of a poll
    have hown : (∀ query, event' ≠ .schedule query none) → event = .search event' := by
      intro hother
      rcases hevent with hsearch | ⟨query, hschedule⟩
      · exact hsearch
      · exact absurd hschedule (hother query)
    cases hfollows with
    | plain hnumbers hrecording houtcome herror =>
      refine ⟨hremembers, Nat.le_trans h.bar hnumbers.bar_le, h.requests_snoc hstep hnumbers, ?_,
        h.outcome.snoc houtcome _⟩
      rw [hrecording]
      exact h.recording_snoc _
    | brings k request data selectedThreadId selectedIndex hanswer hrequest haccepts hpurpose
        hnumbers hbar hrequests hrecording houtcome herror =>
      refine ⟨hremembers, Nat.le_trans h.bar hnumbers.bar_le, h.requests_snoc hstep hnumbers, ?_,
        h.outcome.snoc houtcome _⟩
      rw [hrecording]
      intro generation hmem hnew
      rcases List.mem_cons.1 hmem with rfl | hmem
      · subst hanswer
        exact h.brought hrequest hpurpose ⟨k, data, selectedThreadId, selectedIndex,
          hown (by simp), hrequest, haccepts⟩ hnew
      · exact h.recording_snoc _ generation hmem hnew
    | breaks k request error hanswer hrequest haccepts hnumbers hbar hrequests hrecording herror
        houtcome =>
      refine ⟨hremembers, Nat.le_trans h.bar hnumbers.bar_le, h.requests_snoc hstep hnumbers, ?_,
        ?_⟩
      · rw [hrecording]
        exact h.recording_snoc _
      · rcases houtcome with hkept | ⟨hpurpose, hrecords⟩
        · exact h.outcome.snoc hkept _
        · subst hanswer
          exact h.broken hrequest hpurpose ⟨k, hown (by simp), hrequest, haccepts⟩ hrecords
    | completes k generation applied list hidle hrun hnumbers hbar hrequests hrecording herror
        houtcome =>
      refine ⟨hremembers, Nat.le_trans h.bar hnumbers.bar_le, h.requests_snoc hstep hnumbers, ?_,
        ?_⟩
      · rw [hrecording]
        exact fun generation' hmem hnew =>
          h.recording_snoc _ generation' (List.mem_of_mem_filter hmem) hnew
      · rcases houtcome with hkept | ⟨hmem, happlied, hnewest, hrecords⟩
        · exact h.outcome.snoc hkept _
        · subst hidle
          have hcurrent : r.search.barGeneration = generation := by
            rw [← hbar, ← hremembers.search, hnewest]
          rw [happlied] at hrun
          exact h.shown (hown (by simp)) hrun hmem hcurrent hrecords

end Explained

/-! ## The reply to one request -/

/-- A full search was handed over, its page accepted and shown, and then the timer of the request
found nothing in its way. -/
def Served (trace : List (RefreshWindow D × RefreshEvent D)) (invocation : Nat)
    (request : PageRequest) : Prop :=
  ∃ launch answer applied poll, [launch, answer, applied, poll].Sublist trace ∧
    Launches launch request ∧ Brings answer request ∧ Shows applied request ∧
      Acknowledges poll invocation

/-- A full search was handed over, its failure accepted, and then the timer of the request found
nothing in its way. -/
def Failed (trace : List (RefreshWindow D × RefreshEvent D)) (invocation : Nat)
    (request : PageRequest) (error : Str) : Prop :=
  ∃ launch answer poll, [launch, answer, poll].Sublist trace ∧
    Launches launch request ∧ Breaks answer request error ∧ Acknowledges poll invocation

/-- The reply says nothing about a search. -/
def Refusal (answer : RefreshReply) : Prop :=
  (∀ generation, answer ≠ .value generation) ∧
    ∀ error, answer ≠ returnError "SearchFailed" error

theorem refusal_of_name {name message : Str}
    (hname : name ≠ refreshInterface ++ ".".toList ++ "SearchFailed".toList) :
    Refusal (.error name message) := by
  refine ⟨fun generation heq => RefreshReply.noConfusion heq, fun error heq => ?_⟩
  exact hname (RefreshReply.error.inj heq).1

/-- A call is answered at once with a refusal only. -/
theorem replies_methodCall {method : Str} {parameters : Option Nat} {invocation : Nat}
    {answer : RefreshReply}
    (hmem : (invocation, answer) ∈ (r.methodCall method parameters).replies) :
    (invocation, answer) ∈ r.replies ∨ Refusal answer := by
  have hreply : ∀ {refused : RefreshReply}, Refusal refused →
      (invocation, answer) ∈ r.replies ++ [(r.calls, refused)] →
        (invocation, answer) ∈ r.replies ∨ Refusal answer := by
    intro refused hrefusal hmem
    rcases List.mem_append.1 hmem with hmem | hmem
    · exact Or.inl hmem
    · obtain ⟨-, rfl⟩ := Prod.mk.inj (List.mem_singleton.1 hmem)
      exact Or.inr hrefusal
  unfold methodCall at hmem
  dsimp only at hmem
  split at hmem
  · exact hreply (refusal_of_name (by decide)) hmem
  · split at hmem
    · exact hreply (refusal_of_name (by decide)) hmem
    · split at hmem
      · exact hreply (refusal_of_name (by decide)) hmem
      · split at hmem
        · exact hreply (refusal_of_name (by decide)) hmem
        · split at hmem
          · exact hreply (refusal_of_name (by decide)) hmem
          · exact Or.inl hmem

/-- What the steps since some moment owe to a request: it waits for a newer search, and its reply
tells of one. -/
structure Owed (base invocation : Nat) (trace : List (RefreshWindow D × RefreshEvent D))
    (r : RefreshWindow D) : Prop where
  waiting : ∀ request ∈ r.waiting, request.invocation = invocation →
    base < request.minimumGeneration
  value : ∀ generation, (invocation, .value generation) ∈ r.replies →
    ∃ query, Served trace invocation (fullSearch generation query)
  failure : ∀ error, (invocation, returnError "SearchFailed" error) ∈ r.replies →
    ∃ generation query, Failed trace invocation (fullSearch generation query) error

namespace Owed

variable {base invocation : Nat} {event : RefreshEvent D}

/-- What was owed is owed still; new replies are refusals, or explained. -/
theorem snoc (h : Owed base invocation trace r) (p : RefreshWindow D × RefreshEvent D)
    (hwaiting : ∀ request ∈ r'.waiting, request.invocation = invocation →
      request ∈ r.waiting ∨ base < request.minimumGeneration)
    (hvalue : ∀ generation, (invocation, .value generation) ∈ r'.replies →
      (invocation, .value generation) ∈ r.replies ∨
        ∃ query, Served (trace ++ [p]) invocation (fullSearch generation query))
    (hfailure : ∀ error, (invocation, returnError "SearchFailed" error) ∈ r'.replies →
      (invocation, returnError "SearchFailed" error) ∈ r.replies ∨
        ∃ generation query, Failed (trace ++ [p]) invocation (fullSearch generation query) error) :
    Owed base invocation (trace ++ [p]) r' where
  waiting := fun request hmem hinvocation =>
    (hwaiting request hmem hinvocation).elim (fun hold => h.waiting request hold hinvocation) id
  value := by
    intro generation hmem
    rcases hvalue generation hmem with hold | hnew
    · obtain ⟨query, launch, answer, applied, poll, horder, hsteps⟩ := h.value generation hold
      exact ⟨query, launch, answer, applied, poll,
        horder.trans (List.sublist_append_left _ _), hsteps⟩
    · exact hnew
  failure := by
    intro error hmem
    rcases hfailure error hmem with hold | hnew
    · obtain ⟨generation, query, launch, answer, poll, horder, hsteps⟩ := h.failure error hold
      exact ⟨generation, query, launch, answer, poll,
        horder.trans (List.sublist_append_left _ _), hsteps⟩
    · exact hnew

theorem of_keeps (h : Owed base invocation trace r) (hwaiting : r'.waiting = r.waiting)
    (hreplies : r'.replies = r.replies) (p : RefreshWindow D × RefreshEvent D) :
    Owed base invocation (trace ++ [p]) r' := by
  refine h.snoc p ?_ ?_ ?_
  · rw [hwaiting]
    exact fun _ hmem _ => Or.inl hmem
  · rw [hreplies]
    exact fun _ hmem => Or.inl hmem
  · rw [hreplies]
    exact fun _ hmem => Or.inl hmem

theorem methodCall (h : Owed base invocation trace r)
    (hnext : base < saturatingSucc r.search.searchGeneration) (method : Str)
    (parameters : Option Nat) (p : RefreshWindow D × RefreshEvent D) :
    Owed base invocation (trace ++ [p]) (r.methodCall method parameters) := by
  refine h.snoc p ?_ ?_ ?_
  · intro request hmem _
    rcases waiting_methodCall hmem with hold | hnew
    · exact Or.inl hold
    · rw [hnew]
      exact Or.inr hnext
  · intro generation hmem
    exact (replies_methodCall hmem).imp_right fun hrefusal => absurd rfl (hrefusal.1 generation)
  · intro error hmem
    exact (replies_methodCall hmem).imp_right fun hrefusal => absurd rfl (hrefusal.2 error)

/-- The timer of a request ends with a reply. -/
theorem ends (h : Owed base invocation trace r) {k : Nat} {request : WaitingRefresh}
    {answer : RefreshReply} (p : RefreshWindow D × RefreshEvent D)
    (hvalue : ∀ generation, request.invocation = invocation → answer = .value generation →
      ∃ query, Served (trace ++ [p]) invocation (fullSearch generation query))
    (hfailure : ∀ error, request.invocation = invocation →
      answer = returnError "SearchFailed" error →
        ∃ generation query, Failed (trace ++ [p]) invocation (fullSearch generation query) error) :
    Owed base invocation (trace ++ [p]) ({ r with
      pending := r.pending - 1
      waiting := r.waiting.eraseIdx k }.reply request.invocation answer) := by
  refine h.snoc p ?_ ?_ ?_
  · exact fun _ hmem _ => Or.inl (List.mem_of_mem_eraseIdx hmem)
  · intro generation hmem
    rcases List.mem_append.1 hmem with hmem | hmem
    · exact Or.inl hmem
    · obtain ⟨hinvocation, hanswer⟩ := Prod.mk.inj (List.mem_singleton.1 hmem)
      exact Or.inr (hvalue generation hinvocation.symm hanswer.symm)
  · intro error hmem
    rcases List.mem_append.1 hmem with hmem | hmem
    · exact Or.inl hmem
    · obtain ⟨hinvocation, hanswer⟩ := Prod.mk.inj (List.mem_singleton.1 hmem)
      exact Or.inr (hfailure error hinvocation.symm hanswer.symm)

/-- The timer of a request goes on, with its generation or with a newer one. -/
theorem goesOn (h : Owed base invocation trace r) {k : Nat} {request request' : WaitingRefresh}
    (hk : r.waiting[k]? = some request) (hsame : request'.invocation = request.invocation)
    (hminimum : request'.minimumGeneration = request.minimumGeneration ∨
      base < request'.minimumGeneration) (p : RefreshWindow D × RefreshEvent D)
    (hwaiting : r'.waiting = r.waiting.set k request') (hreplies : r'.replies = r.replies) :
    Owed base invocation (trace ++ [p]) r' := by
  refine h.snoc p ?_ ?_ ?_
  · rw [hwaiting]
    intro other hmem hinvocation
    rcases List.mem_or_eq_of_mem_set hmem with hmem | rfl
    · exact Or.inl hmem
    · refine Or.inr ?_
      rcases hminimum with hkept | hnew
      · rw [hkept]
        exact h.waiting request (List.mem_of_getElem? hk) (hsame.symm.trans hinvocation)
      · exact hnew
  · rw [hreplies]
    exact fun _ hmem => Or.inl hmem
  · rw [hreplies]
    exact fun _ hmem => Or.inl hmem

/-- The timer of a request: a reply that tells of a search tells of one that is newer than the
moment, since the request has waited for one. -/
theorem poll (h : Owed base invocation trace r) (hexplained : OutcomeExplained base trace r)
    (hnext : base < saturatingSucc r.search.searchGeneration) {k : Nat}
    (hstep : r.poll k = some r') :
    Owed base invocation (trace ++ [(r, .poll k)]) r' := by
  obtain ⟨request, hk, hpolls⟩ := polls_of_poll hstep
  have hmem := List.mem_of_getElem? hk
  -- Only two of the ways a timer ends tell of a search: success and the search's own failure.
  cases hpolls with
  | refuses kind message hover hkind =>
    have hrefusal : Refusal (returnError kind message) := by
      rcases hkind with rfl | rfl
      · exact refusal_of_name (by decide)
      · exact refusal_of_name (by decide)
    refine h.ends _ ?_ ?_
    · exact fun generation _ hanswer => absurd hanswer (hrefusal.1 generation)
    · exact fun error _ hanswer => absurd hanswer (hrefusal.2 error)
  | postpones hbusy =>
    refine h.goesOn hk ?_ (Or.inr ?_) _ rfl rfl
    · rfl
    · exact hnext
  | waits hbusy hloading => exact h.goesOn hk rfl (Or.inl rfl) _ rfl rfl
  | succeeds hbusy hloading houtcome herror =>
    refine h.ends _ ?_ ?_
    · intro generation hinvocation hanswer
      obtain rfl := RefreshReply.value.inj hanswer
      have hnew := Nat.lt_of_lt_of_le (h.waiting request hmem hinvocation) houtcome
      obtain ⟨query, launch, answer, applied, horder, hlaunch, hbrings, hshows⟩ :=
        hexplained.shown hnew herror
      exact ⟨query, launch, answer, applied, _, sublist_snoc horder _, hlaunch, hbrings, hshows,
        k, request, rfl, hk, hinvocation, hbusy, hloading⟩
    · exact fun error _ hanswer => RefreshReply.noConfusion hanswer
  | fails error hbusy hloading houtcome herror =>
    refine h.ends _ ?_ ?_
    · exact fun generation _ hanswer => RefreshReply.noConfusion hanswer
    · intro error' hinvocation hanswer
      obtain rfl := (RefreshReply.error.inj hanswer).2
      have hnew := Nat.lt_of_lt_of_le (h.waiting request hmem hinvocation) houtcome
      obtain ⟨query, launch, answer, horder, hlaunch, hbreaks⟩ :=
        hexplained.broken error hnew herror
      exact ⟨_, query, launch, answer, _, sublist_snoc horder _, hlaunch, hbreaks, k, request,
        rfl, hk, hinvocation, hbusy, hloading⟩
  | schedules hbusy hloading houtcome => exact h.goesOn hk rfl (Or.inl rfl) _ rfl rfl

/-- One step. -/
theorem step (h : Owed base invocation trace r) (hexplained : Explained base trace r)
    (hroom : r.search.barGeneration + 2 ≤ u64Max) (hstep : r.step event = some r') :
    Owed base invocation (trace ++ [(r, event)]) r' := by
  have hnext : base < saturatingSucc r.search.searchGeneration := by
    rw [hexplained.remembers.search, saturatingSucc_of_lt (by omega)]
    have hbar := hexplained.bar
    omega
  cases event with
  | call method parameters =>
    obtain rfl := Option.some.inj hstep
    exact h.methodCall hnext method parameters _
  | poll k => exact h.poll hexplained.outcome hnext hstep
  | search event =>
    obtain ⟨search, -, -, rfl⟩ := search_of_step hstep
    have hsame := sameRequests_afterSearch r event search
    exact h.of_keeps hsame.waiting hsame.replies _
  | syncRefresh query =>
    obtain rfl := Option.some.inj hstep
    have hsame := sameRequests_afterSearch r (.schedule query none)
      (r.search.scheduleSearch query)
    refine h.of_keeps ?_ ?_ _
    · exact hsame.waiting
    · exact hsame.replies
  | syncEnds =>
    obtain rfl := Option.some.inj hstep
    refine h.of_keeps ?_ ?_ _ <;> rfl
  | work writers =>
    obtain rfl := Option.some.inj hstep
    refine h.of_keeps ?_ ?_ _ <;> rfl
  | select thread uncertain =>
    obtain rfl := Option.some.inj hstep
    refine h.of_keeps ?_ ?_ _ <;> rfl
  | window ready visible closeWhenIdle closeFlushInProgress =>
    obtain rfl := Option.some.inj hstep
    refine h.of_keeps ?_ ?_ _ <;> rfl
  | tick milliseconds =>
    obtain rfl := Option.some.inj hstep
    refine h.of_keeps ?_ ?_ _ <;> rfl

end Owed

/-- The moments that the search of a reply has to follow: the call arrives, or its timer finds a
writer busy. -/
def Marks (p : RefreshWindow D × RefreshEvent D) (invocation : Nat) : Prop :=
  (∃ method parameters, p.2 = .call method parameters ∧ p.1.calls = invocation) ∨
    ∃ k request, p.2 = .poll k ∧ p.1.waiting[k]? = some request ∧
      request.invocation = invocation ∧ p.1.writers.busy = true

namespace Counted

theorem nodup (h : Counted r) :
    (r.waiting.map WaitingRefresh.invocation ++ r.replies.map Prod.fst).Nodup :=
  h.calls.nodup_iff.2 List.nodup_range

/-- A request that waits has no reply. -/
theorem not_replied (h : Counted r) {request : WaitingRefresh} (hmem : request ∈ r.waiting)
    (answer : RefreshReply) : (request.invocation, answer) ∉ r.replies := by
  intro hreplied
  have hapart := (List.nodup_append.1 h.nodup).2.2
  exact hapart _ (List.mem_map_of_mem hmem) _ (List.mem_map_of_mem hreplied) rfl

/-- Two timers are of two calls. -/
theorem place_inj (h : Counted r) {i j : Nat} {request request' : WaitingRefresh}
    (hi : r.waiting[i]? = some request) (hj : r.waiting[j]? = some request')
    (hsame : request.invocation = request'.invocation) : i = j := by
  have hnodup := (List.nodup_append.1 h.nodup).1
  obtain ⟨hilt, hi⟩ := List.getElem?_eq_some_iff.1 hi
  obtain ⟨hjlt, hj⟩ := List.getElem?_eq_some_iff.1 hj
  have hilt' : i < (r.waiting.map WaitingRefresh.invocation).length := by rwa [List.length_map]
  have hjlt' : j < (r.waiting.map WaitingRefresh.invocation).length := by rwa [List.length_map]
  have hsame' : (r.waiting.map WaitingRefresh.invocation)[i] =
      (r.waiting.map WaitingRefresh.invocation)[j] := by
    rw [List.getElem_map, List.getElem_map, hi, hj, hsame]
  exact hnodup.getElem_inj_iff.1 hsame'

/-- The next call is none of those that have arrived. -/
theorem arrived (h : Counted r) :
    (∀ request ∈ r.waiting, request.invocation ≠ r.calls) ∧
      ∀ answer, (r.calls, answer) ∉ r.replies := by
  have hnew : r.calls ∉ r.waiting.map WaitingRefresh.invocation ++ r.replies.map Prod.fst := by
    intro hmem
    have hlt := List.mem_range.1 (h.calls.mem_iff.1 hmem)
    omega
  refine ⟨fun request hmem heq => hnew ?_, fun answer hmem => hnew ?_⟩
  · rw [← heq]
    exact List.mem_append_left _ (List.mem_map_of_mem hmem)
  · exact List.mem_append_right _ (List.mem_map_of_mem (f := Prod.fst) hmem)

end Counted

/-- At such a moment everything is still owed. -/
theorem owed_of_marks (hremembers : Remembers r) (hcounted : Counted r)
    (hroom : r.search.barGeneration + 2 ≤ u64Max) {event : RefreshEvent D} {invocation : Nat}
    (hmarks : Marks (r, event) invocation) (hstep : r.step event = some r') :
    Owed r'.search.barGeneration invocation [] r' := by
  have hnext : r.search.barGeneration < saturatingSucc r.search.searchGeneration := by
    rw [hremembers.search, saturatingSucc_of_lt (by omega)]
    omega
  rcases hmarks with ⟨method, parameters, hevent, hcalls⟩ | ⟨k, request, hevent, hk, hsame, hbusy⟩
  · -- The call arrives: it waits for a search that has not begun, or is refused at once.
    obtain rfl : event = .call method parameters := hevent
    obtain rfl : r.calls = invocation := hcalls
    obtain rfl := Option.some.inj hstep
    obtain ⟨hwaiting, hreplies⟩ := hcounted.arrived
    have hsearch := (sameSearch_methodCall r method parameters).search
    refine ⟨?_, ?_, ?_⟩
    · intro request hmem hinvocation
      rw [hsearch]
      rcases waiting_methodCall hmem with hold | hnew
      · exact absurd hinvocation (hwaiting request hold)
      · rw [hnew]
        exact hnext
    · intro generation hmem
      rcases replies_methodCall hmem with hold | hrefusal
      · exact absurd hold (hreplies _)
      · exact absurd rfl (hrefusal.1 generation)
    · intro error hmem
      rcases replies_methodCall hmem with hold | hrefusal
      · exact absurd hold (hreplies _)
      · exact absurd rfl (hrefusal.2 error)
  · -- The timer looks while a writer is busy: it is told nothing but a refusal, or it postpones.
    obtain rfl : event = .poll k := hevent
    obtain ⟨request', hk', hpolls⟩ := polls_of_poll hstep
    obtain rfl := Option.some.inj (hk'.symm.trans hk)
    have hmem := List.mem_of_getElem? hk
    have hunreplied : ∀ answer, (invocation, answer) ∉ r.replies := by
      intro answer
      rw [← hsame]
      exact hcounted.not_replied hmem answer
    cases hpolls with
    | refuses kind message hover hkind =>
      have hcounted' := hcounted.poll hstep
      have hrefusal : Refusal (returnError kind message) := by
        rcases hkind with rfl | rfl
        · exact refusal_of_name (by decide)
        · exact refusal_of_name (by decide)
      refine ⟨?_, ?_, ?_⟩
      · intro other hother hinvocation
        refine absurd ?_ (hcounted'.not_replied hother (returnError kind message))
        rw [hinvocation, ← hsame]
        exact List.mem_append_right _ (List.mem_singleton_self _)
      · intro generation hreplied
        rcases List.mem_append.1 hreplied with hold | hnew
        · exact absurd hold (hunreplied _)
        · obtain ⟨-, hanswer⟩ := Prod.mk.inj (List.mem_singleton.1 hnew)
          exact absurd hanswer.symm (hrefusal.1 generation)
      · intro error hreplied
        rcases List.mem_append.1 hreplied with hold | hnew
        · exact absurd hold (hunreplied _)
        · obtain ⟨-, hanswer⟩ := Prod.mk.inj (List.mem_singleton.1 hnew)
          exact absurd hanswer.symm (hrefusal.2 error)
    | postpones hbusy =>
      refine ⟨?_, fun _ hreplied => absurd hreplied (hunreplied _),
        fun _ hreplied => absurd hreplied (hunreplied _)⟩
      intro other hother hinvocation
      obtain ⟨i, hi⟩ := List.getElem?_of_mem hother
      by_cases hplace : k = i
      · subst hplace
        have hset := hi
        rw [List.getElem?_set_self (List.getElem?_eq_some_iff.1 hk).1] at hset
        obtain rfl := Option.some.inj hset
        exact hnext
      · have hset := hi
        rw [List.getElem?_set_ne hplace] at hset
        exact absurd (hcounted.place_inj hk hset (hsame.trans hinvocation.symm)) hplace
    | waits hidle => exact absurd (hidle.symm.trans hbusy) (by simp)
    | succeeds hidle => exact absurd (hidle.symm.trans hbusy) (by simp)
    | fails _ hidle => exact absurd (hidle.symm.trans hbusy) (by simp)
    | schedules hidle => exact absurd (hidle.symm.trans hbusy) (by simp)

/-! ## Runs -/

section Runs

variable {query : Str} {pageSize : Nat} {display : ThreadListDisplay} {loading : Str}

theorem remembers_run
    (hrun : Run (Steps step) (launch (D := D) (.launch query pageSize display loading)) trace r)
    (hroom : ∀ p ∈ trace, p.1.search.barGeneration + 2 ≤ u64Max) : Remembers r :=
  hrun.invariant_of_steps (I := Remembers)
    (G := fun t _ => t.search.barGeneration + 2 ≤ u64Max)
    (fun _ _ _ ht hroom hstep => ht.step hroom hstep) (.launch query pageSize display loading) hroom

theorem counted_run {search : SearchWindow D} (hrun : Run (Steps step) (launch search) trace r) :
    Counted r :=
  hrun.invariant (fun _ _ _ ht hstep => ht.step hstep) (.launch search)

/-- **Every call is answered once**, at once or by its timer; no more than `maxPending` wait, none
of them for longer than five minutes, and at its deadline the next look of its timer is its end. -/
theorem refresh_calls_answered_once {search : SearchWindow D}
    (hrun : Run (Steps step) (launch search) trace r) :
    (r.waiting.map WaitingRefresh.invocation ++ r.replies.map Prod.fst).Perm
        (List.range r.calls) ∧
      r.pending = r.waiting.length ∧ r.pending ≤ maxPending ∧
      ∀ k request, r.waiting[k]? = some request →
        request.deadline ≤ r.now + 300000 ∧
          (request.deadline ≤ r.now → ∃ r' kind message, r.poll k = some r' ∧
            r'.replies = r.replies ++ [(request.invocation, returnError kind message)]) := by
  have hcounted := counted_run hrun
  refine ⟨hcounted.calls, hcounted.pending, hcounted.bounded, fun k request hk => ?_⟩
  refine ⟨hcounted.deadlines request (List.mem_of_getElem? hk), fun hdeadline => ?_⟩
  -- A look at or behind the deadline finds the window closed, or the time up.
  obtain ⟨kind, message, hanswer⟩ : ∃ kind message,
      r.pollRefresh request.minimumGeneration request.deadline =
        (some (returnError kind message), request.minimumGeneration, r) := by
    unfold pollRefresh
    split
    · exact ⟨_, _, rfl⟩
    · exact ⟨_, _, rfl⟩
  refine ⟨{ r with
    pending := r.pending - 1
    waiting := r.waiting.eraseIdx k }.reply request.invocation (returnError kind message), kind,
    message, ?_, rfl⟩
  unfold poll
  simp only [hk, hanswer]

/-- **A reply tells of a newer search.** A reply that tells of a full search tells of one that was
handed to its worker, answered and shown after the call had arrived and after the last look of its
timer at a busy writer; then no writer was busy and no search was loading. So does a reply that
tells of a failure.

The moment is the step `p` of the run: the call, or such a look. What has happened before it is
forgotten: nothing of it explains an outcome with a newer generation than the one that the search
bar has then. The bound on the generations keeps them from running out, for behind it two searches
have the same one. -/
theorem refresh_answered_by_newer_search
    (hrun : Run (Steps step) (launch (D := D) (.launch query pageSize display loading)) trace r)
    (hroom : ∀ p ∈ trace, p.1.search.barGeneration + 2 ≤ u64Max)
    {before after : List (RefreshWindow D × RefreshEvent D)}
    {p : RefreshWindow D × RefreshEvent D} {invocation : Nat}
    (htrace : trace = before ++ p :: after) (hmarks : Marks p invocation) :
    (∀ generation, (invocation, .value generation) ∈ r.replies →
      ∃ query, Served after invocation (fullSearch generation query)) ∧
      ∀ error, (invocation, returnError "SearchFailed" error) ∈ r.replies →
        ∃ generation query, Failed after invocation (fullSearch generation query) error := by
  subst htrace
  obtain ⟨start, hbefore, hstep, hafter⟩ := hrun.split
  have hroomBefore : ∀ q ∈ before, q.1.search.barGeneration + 2 ≤ u64Max :=
    fun q hmem => hroom q (List.mem_append_left _ hmem)
  have hroomMark := hroom p (by simp)
  have hremembers := remembers_run hbefore hroomBefore
  -- At the mark nothing has been explained yet, and the call is owed everything.
  have howed := owed_of_marks hremembers (counted_run hbefore) hroomMark hmarks hstep
  -- from the mark on, both what is explained and what is owed go along the run
  have hremembers' := hremembers.step hroomMark hstep
  have hexplained : Explained start.search.barGeneration [] start := by
    -- The outcome that is recorded at the mark is that of an older search.
    have hold : ¬ start.search.barGeneration < start.fullSearchOutcomeGeneration :=
      Nat.not_lt.2 hremembers'.outcome
    refine ⟨hremembers', Nat.le_refl _, ?_, ?_, ⟨?_, ?_⟩⟩
    · intro request hmem _ hnew
      have hle := hremembers'.used.requestsLe request hmem
      omega
    · intro generation hmem hnew
      have hle := hremembers'.used.recordingLe generation hmem
      omega
    · exact fun hnew => absurd hnew hold
    · exact fun _ hnew => absurd hnew hold
  have hroomAfter : ∀ q ∈ after, q.1.search.barGeneration + 2 ≤ u64Max :=
    fun q hmem => hroom q (List.mem_append_right _ (List.mem_cons_of_mem _ hmem))
  -- The induction over the rest of the run carries both, for what is owed is explained.
  have hboth := (hafter.restrict (G := fun t _ => t.search.barGeneration + 2 ≤ u64Max)
    hroomAfter).history (I := fun trace t => Explained start.search.barGeneration trace t ∧
      Owed start.search.barGeneration invocation trace t)
    (fun _ _ _ _ _ h hlast => ⟨h.1.step hlast.1 hlast.2, h.2.step h.1 hlast.1 hlast.2⟩)
    ⟨hexplained, howed⟩
  exact ⟨hboth.2.value, hboth.2.failure⟩

end Runs

/-! ### A refresh that a writer holds up -/

/-- The main window, shown and ready. -/
def shownWindow : RefreshWindow Unit := launch SearchWindow.started

/-- A call arrives, its timer finds a tag operation under way, and at its next look begins the
search that it then waits for. -/
def refreshOnce : List (RefreshEvent Unit) :=
  [.window true true false false, .call "Refresh".toList (some 1000),
    .work { Writers.idle with tagInProgress := true }, .poll 0, .work .idle, .poll 0,
    .search (.respond 0 (.ok SearchWindow.oneThread none none)), .search (.idle 0),
    .search (.idle 0), .poll 0]

theorem refresh_once_answered :
    (exec step shownWindow refreshOnce).map (fun r => (r.calls, r.pending, r.replies)) =
      some (1, 0, [(0, .value 1)]) := by
  decide

/-- While its search is loading, the call is the one that waits. -/
theorem refresh_once_counted :
    ∃ r, exec step shownWindow (refreshOnce.take 6) = some r ∧
      (r.waiting.map WaitingRefresh.invocation ++ r.replies.map Prod.fst).Perm (List.range 1) ∧
      r.pending = r.waiting.length := by
  have hcalls : (exec step shownWindow (refreshOnce.take 6)).map (fun r => r.calls) = some 1 := by
    decide
  obtain ⟨r, hend, hone⟩ := Option.map_eq_some_iff.1 hcalls
  have hcounted := refresh_calls_answered_once (run_of_exec _ hend)
  refine ⟨r, hend, ?_, hcounted.2.1⟩
  rw [← hone]
  exact hcounted.1

theorem refresh_once_newer :
    ∃ query, Served ((execTrace step shownWindow refreshOnce).drop 4) 0 (fullSearch 1 query) := by
  obtain ⟨r, hend, hreplies⟩ := Option.map_eq_some_iff.1 refresh_once_answered
  have hlength : 3 < (execTrace step shownWindow refreshOnce).length := by decide
  have hcut : execTrace step shownWindow refreshOnce =
      (execTrace step shownWindow refreshOnce).take 3 ++
        (execTrace step shownWindow refreshOnce)[3] ::
          (execTrace step shownWindow refreshOnce).drop 4 := by
    rw [← List.drop_eq_getElem_cons hlength, List.take_append_drop]
  have hmarks : Marks (execTrace step shownWindow refreshOnce)[3] 0 :=
    Or.inr ⟨0, ⟨0, 1, 1000⟩, rfl, rfl, rfl, rfl⟩
  have hanswered := refresh_answered_by_newer_search (run_of_exec _ hend) (by decide) hcut hmarks
  refine hanswered.1 1 ?_
  rw [(Prod.mk.inj (Prod.mk.inj hreplies).2).2]
  exact List.mem_singleton_self _

end RefreshWindow

end Notm.Ui
