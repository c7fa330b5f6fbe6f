import Notm.Lib.BTreeMap
import Notm.Lib.BTreeSet
import Notm.Lib.Counter
import Notm.Notmuch.Error

/-!
# The messages of several threads

`thread_messages_for_threads_bounded` asks for the messages of many threads with one query. It
counts before it loads: a thread with too many messages, or a batch with too many of them, gets an
outcome that says so in place of its messages, and a thread is loaded whole or not at all.

* `Counted` — what the loop over the threads has come to: the counts that are kept, and the
  outcomes.
* `Counted.run` — it keeps that, whatever the library answers.
* `LoadsWhole` — each outcome by what the library has answered, and the limits.
* `threadMessagesForThreadsBounded_loadsWhole` — a call that returns meets it.
-/

namespace Notm.Notmuch

open Rust

inductive BoundedThreadMessages (M : Type) where
  | loaded (messages : List M)
  | threadLimitExceeded (threadId : Str) (total limit : Nat)
  | batchLimitExceeded (total limit : Nat)
deriving DecidableEq

variable {M : Type}

namespace BoundedThreadMessages

/-- `Display`. -/
def text : BoundedThreadMessages M → Str
  | loaded messages => "loaded ".toList ++ natText messages.length ++ " message(s)".toList
  | threadLimitExceeded threadId total limit =>
    "thread `".toList ++ threadId ++ "` contains ".toList ++ natText total ++
      " message(s), exceeding the requested safety limit of ".toList ++ natText limit ++
      "; no partial thread was loaded".toList
  | batchLimitExceeded total limit =>
    "the requested thread-detail batch contains ".toList ++ natText total ++
      " loadable message(s), exceeding the aggregate safety limit of ".toList ++ natText limit ++
      "; no partial batch was loaded".toList

/-- The messages of an outcome. -/
def messages : BoundedThreadMessages M → List M
  | loaded messages => messages
  | threadLimitExceeded _ _ _ | batchLimitExceeded _ _ => []

/-- `matches!(outcome, BoundedThreadMessages::Loaded(_))`. -/
def isLoaded : BoundedThreadMessages M → Bool
  | loaded _ => true
  | threadLimitExceeded _ _ _ | batchLimitExceeded _ _ => false

end BoundedThreadMessages

/-- What the library answers. A null pointer in an iterator is `none`; a thread comes with its id
and its total, a message with the id of its thread. -/
structure ThreadBatchAnswers (M : Type) where
  createQueryIsNull : Bool
  searchThreads : Option Str
  threads : List (Option (Str × Int))
  threadsIterator : Option Str
  searchMessages : Option Str
  messages : List (Option (Str × M))
  messagesIterator : Option Str

/-- `thread_query`. -/
def threadQuery (threadIds : BTreeSet Str) : Str :=
  List.intercalate " or ".toList (threadIds.toList.map fun threadId => "thread:".toList ++ threadId)

/-- `check`, and `check_iterator_status`. -/
def checkAnswer : Option Str → Except Error Unit
  | some error => .error (.status error)
  | none => .ok ()

/-- `create_query`, of a query without excluded tags. -/
def createThreadQuery (answers : ThreadBatchAnswers M) (query : Str) : Except Error Unit :=
  match cStringError query with
  | some error => .error (.nul error)
  | none =>
    if answers.createQueryIsNull then .error (.null "notmuch_query_create".toList) else .ok ()

/-- What the loop over the threads keeps. -/
structure ThreadCounts (M : Type) where
  outcomes : BTreeMap Str (BoundedThreadMessages M)
  expectedCounts : BTreeMap Str Nat
  loadableTotal : Nat

/-- The body of the loop over the threads. -/
def countThread (requested : BTreeSet Str) (threadMaximum : Nat) (counts : ThreadCounts M) :
    Option (Str × Int) → ThreadCounts M
  | none => counts
  | some (threadId, total) =>
    -- `usize::try_from(total).unwrap_or_default()`
    let total := total.toNat
    if threadId ∈ requested then
      let expectedCounts := counts.expectedCounts.insert threadId total
      if threadMaximum < total then
        { counts with
          expectedCounts
          outcomes :=
            counts.outcomes.insert threadId (.threadLimitExceeded threadId total threadMaximum) }
      else
        { counts with
          expectedCounts, loadableTotal := saturatingAdd counts.loadableTotal total }
    else counts

/-- `expected_counts.get(thread_id).copied().unwrap_or_default()`. -/
def ThreadCounts.expected (counts : ThreadCounts M) (threadId : Str) : Nat :=
  (counts.expectedCounts.get? threadId).getD 0

/-- The outcomes of a batch that is too large. -/
def exceedBatch (batchMaximum : Nat) (counts : ThreadCounts M) :
    BTreeMap Str (BoundedThreadMessages M) :=
  counts.outcomes.mapValues fun threadId outcome =>
    if 0 < counts.expected threadId ∧ outcome.isLoaded = true then
      .batchLimitExceeded counts.loadableTotal batchMaximum
    else outcome

/-- The body of the loop over the messages. -/
def pushThreadMessage (outcomes : BTreeMap Str (BoundedThreadMessages M)) :
    Option (Str × M) → BTreeMap Str (BoundedThreadMessages M)
  | none => outcomes
  | some (threadId, message) =>
    match outcomes.get? threadId with
    | some (.loaded messages) => outcomes.insert threadId (.loaded (messages ++ [message]))
    | _ => outcomes

/-- The last loop: every thread that was loaded has all of its messages. -/
def checkLoaded (counts : ThreadCounts M) : List (Str × BoundedThreadMessages M) → Except Error Unit
  | [] => .ok ()
  | (threadId, .loaded messages) :: rest =>
    if messages.length ≠ counts.expected threadId then
      .error (.inconsistentThreadMessages threadId (counts.expected threadId) messages.length)
    else checkLoaded counts rest
  | _ :: rest => checkLoaded counts rest

def threadMessagesForThreadsBounded (answers : ThreadBatchAnswers M) (threadIds : List Str)
    (threadMaximum batchMaximum : Nat) :
    Except Error (BTreeMap Str (BoundedThreadMessages M)) := do
  let requested := BTreeSet.ofList threadIds
  if requested.toList = [] then return .empty
  createThreadQuery answers (threadQuery requested)
  let outcomes := BTreeMap.ofList (requested.toList.map fun threadId => (threadId, .loaded []))
  checkAnswer answers.searchThreads
  let counts := answers.threads.foldl (countThread requested threadMaximum) ⟨outcomes, .empty, 0⟩
  checkAnswer answers.threadsIterator
  if batchMaximum < counts.loadableTotal then return exceedBatch batchMaximum counts
  if counts.loadableTotal = 0 then return counts.outcomes
  checkAnswer answers.searchMessages
  let outcomes := answers.messages.foldl pushThreadMessage counts.outcomes
  checkAnswer answers.messagesIterator
  checkLoaded counts outcomes.entries
  return outcomes

/-! ## What the answers say -/

/-- The threads of an iterator with their totals. -/
def foundThreads (threads : List (Option (Str × Int))) : List (Str × Nat) :=
  threads.filterMap fun thread => thread.map fun thread => (thread.1, thread.2.toNat)

/-- The total of a thread; an iterator that comes to a thread again has the last word. -/
def threadTotal (threads : List (Option (Str × Int))) (threadId : Str) : Nat :=
  (((foundThreads threads).filter fun thread => thread.1 = threadId).getLast?.map Prod.snd).getD 0

/-- The messages of a thread in the order of the iterator. -/
def messagesOf (messages : List (Option (Str × M))) (threadId : Str) : List M :=
  messages.filterMap fun message =>
    message.bind fun message => if message.1 = threadId then some message.2 else none

/-- The messages of the requested threads that are not too large. -/
def loadableMessages (threads : List (Option (Str × Int))) (threadIds : List Str)
    (threadMaximum : Nat) : Nat :=
  (((foundThreads threads).filter fun thread =>
    thread.1 ∈ threadIds ∧ thread.2 ≤ threadMaximum).map Prod.snd).sum

variable {threads : List (Option (Str × Int))} {threadIds : List Str} {threadMaximum : Nat}
  {threadId : Str} {total : Nat} {counts : ThreadCounts M}

theorem foundThreads_concat (thread : Option (Str × Int)) :
    foundThreads (threads ++ [thread]) = foundThreads threads ++ foundThreads [thread] :=
  List.filterMap_append

theorem threadTotal_concat (id : Str) (total : Int) :
    threadTotal (threads ++ [some (id, total)]) threadId =
      if id = threadId then total.toNat else threadTotal threads threadId := by
  unfold threadTotal
  rw [foundThreads_concat, List.filter_append]
  show ((List.getLast? (_ ++ List.filter _ [(id, total.toNat)])).map Prod.snd).getD 0 = _
  split
  · next heq =>
    rw [List.filter_cons_of_pos (by simpa using heq), List.filter_nil, List.getLast?_concat]
    rfl
  · next hne =>
    rw [List.filter_cons_of_neg (by simpa using hne), List.filter_nil, List.append_nil]

theorem threadTotal_le (h : ∀ total, (threadId, total) ∈ foundThreads threads →
    total ≤ threadMaximum) : threadTotal threads threadId ≤ threadMaximum := by
  unfold threadTotal
  cases hlast : ((foundThreads threads).filter fun thread => thread.1 = threadId).getLast? with
  | none => exact Nat.zero_le _
  | some thread =>
    obtain ⟨hmem, heq⟩ := List.mem_filter.1 (List.mem_of_getLast? hlast)
    have heq : thread.1 = threadId := of_decide_eq_true heq
    exact h thread.2 (heq ▸ hmem)

/-! ## Counting -/

/-- What the loop over the threads has come to after `threads`. -/
structure Counted (threadIds : List Str) (threadMaximum : Nat)
    (threads : List (Option (Str × Int))) (counts : ThreadCounts M) : Prop where
  keys : ∀ threadId, (counts.outcomes.get? threadId).isSome ↔ threadId ∈ threadIds
  /-- nothing is loaded yet -/
  outcomes : ∀ threadId outcome, counts.outcomes.get? threadId = some outcome →
    (outcome = .loaded [] ∧
      ∀ total, (threadId, total) ∈ foundThreads threads → total ≤ threadMaximum) ∨
    ∃ total, outcome = .threadLimitExceeded threadId total threadMaximum ∧
      (threadId, total) ∈ foundThreads threads ∧ threadMaximum < total
  expected : ∀ threadId ∈ threadIds, counts.expected threadId = threadTotal threads threadId
  loadable : counts.loadableTotal = min (loadableMessages threads threadIds threadMaximum) u64Max
  /-- the counts that are kept are among those that were added up -/
  kept : (counts.expectedCounts.entries.map fun entry =>
    if entry.2 ≤ threadMaximum then entry.2 else 0).sum ≤
      loadableMessages threads threadIds threadMaximum

/-- The outcomes before the loop. -/
def noMessages (requested : BTreeSet Str) : BTreeMap Str (BoundedThreadMessages M) :=
  BTreeMap.ofList (requested.toList.map fun threadId => (threadId, .loaded []))

theorem noMessages_entries (requested : BTreeSet Str) :
    (noMessages requested : BTreeMap Str (BoundedThreadMessages M)).entries =
      requested.toList.map fun threadId => (threadId, .loaded []) := by
  have hsorted : (requested.toList.map fun threadId =>
      (threadId, (.loaded [] : BoundedThreadMessages M))).Pairwise fun a b => a.1 < b.1 :=
    List.pairwise_map.2 requested.increasing
  exact BTreeMap.foldl_insert (List.nil_append _ ▸ hsorted)

theorem counted_initial (threadIds : List Str) (threadMaximum : Nat) :
    Counted threadIds threadMaximum []
      (⟨noMessages (BTreeSet.ofList threadIds), .empty, 0⟩ : ThreadCounts M) where
  keys := by
    intro threadId
    refine Iff.trans ?_ BTreeSet.mem_ofList
    rw [Option.isSome_iff_exists]
    simp only [BTreeMap.get?_eq_some_iff, noMessages_entries, List.mem_map]
    constructor
    · rintro ⟨outcome, id, hid, heq⟩
      obtain ⟨rfl, -⟩ := Prod.mk.inj heq
      exact hid
    · exact fun hmem => ⟨_, threadId, hmem, rfl⟩
  outcomes := by
    intro threadId outcome houtcome
    rw [BTreeMap.get?_eq_some_iff, noMessages_entries] at houtcome
    obtain ⟨id, -, heq⟩ := List.mem_map.1 houtcome
    obtain ⟨-, rfl⟩ := Prod.mk.inj heq
    exact Or.inl ⟨rfl, fun total htotal => absurd htotal List.not_mem_nil⟩
  expected := fun _ _ => rfl
  loadable := rfl
  kept := le_rfl

/-- The sum of the kept counts after one of them has been put in. -/
theorem sum_insert_le (g : Nat → Nat) (map : BTreeMap Str Nat) (threadId : Str) (total : Nat) :
    ((map.insert threadId total).entries.map fun entry => g entry.2).sum ≤
      (map.entries.map fun entry => g entry.2).sum + g total := by
  obtain ⟨entries, hsorted⟩ := map
  show ((insertEntry threadId total entries).map fun entry => g entry.2).sum ≤
    (entries.map fun entry => g entry.2).sum + g total
  clear hsorted
  induction entries with
  | nil => exact (Nat.zero_add _).ge
  | cons first rest ih =>
    unfold insertEntry
    split
    · simp only [List.map_cons, List.sum_cons]
      omega
    · split
      · simp only [List.map_cons, List.sum_cons]
        omega
      · simp only [List.map_cons, List.sum_cons]
        omega

theorem loadableMessages_concat (id : Str) (n : Int) :
    loadableMessages (threads ++ [some (id, n)]) threadIds threadMaximum =
      loadableMessages threads threadIds threadMaximum +
        if id ∈ threadIds ∧ n.toNat ≤ threadMaximum then n.toNat else 0 := by
  unfold loadableMessages
  rw [foundThreads_concat, List.filter_append, List.map_append, List.sum_append]
  show _ + ((List.filter _ [(id, n.toNat)]).map Prod.snd).sum = _
  split
  · next hin =>
    rw [List.filter_cons_of_pos (by simpa using hin)]
    rfl
  · next hout =>
    rw [List.filter_cons_of_neg (by simpa using hout)]
    rfl

theorem mem_foundThreads_concat (id : Str) (n : Int) :
    (threadId, total) ∈ foundThreads (threads ++ [some (id, n)]) ↔
      (threadId, total) ∈ foundThreads threads ∨ (threadId = id ∧ total = n.toNat) := by
  rw [foundThreads_concat, List.mem_append]
  show _ ∨ (threadId, total) ∈ [(id, n.toNat)] ↔ _
  rw [List.mem_singleton, Prod.mk.injEq]

/-- A null pointer counts for nothing. -/
theorem Counted.null (h : Counted threadIds threadMaximum threads counts) :
    Counted threadIds threadMaximum (threads ++ [none]) counts := by
  have hfound : foundThreads (threads ++ [none]) = foundThreads threads := by
    rw [foundThreads_concat]
    exact List.append_nil _
  have htotal : ∀ threadId, threadTotal (threads ++ [none]) threadId =
      threadTotal threads threadId :=
    fun threadId => by unfold threadTotal; rw [hfound]
  have hloadable : loadableMessages (threads ++ [none]) threadIds threadMaximum =
      loadableMessages threads threadIds threadMaximum := by
    unfold loadableMessages
    rw [hfound]
  refine ⟨h.keys, ?_, ?_, ?_, ?_⟩
  · rw [hfound]
    exact h.outcomes
  · exact fun threadId hmem => (h.expected threadId hmem).trans (htotal threadId).symm
  · rw [hloadable]
    exact h.loadable
  · rw [hloadable]
    exact h.kept

theorem expected_insert (id : Str) (n : Nat) (counts' : ThreadCounts M)
    (hcounts : counts'.expectedCounts = counts.expectedCounts.insert id n) :
    counts'.expected threadId = if threadId = id then n else counts.expected threadId := by
  unfold ThreadCounts.expected
  rw [hcounts, BTreeMap.get?_insert]
  split <;> rfl

/-- A thread that was not asked for changes nothing. -/
theorem Counted.other (h : Counted threadIds threadMaximum threads counts) {id : Str} {n : Int}
    (hid : id ∉ threadIds) : Counted threadIds threadMaximum
    (threads ++ [some (id, n)]) counts := by
  have hloadable : loadableMessages (threads ++ [some (id, n)]) threadIds threadMaximum =
      loadableMessages threads threadIds threadMaximum := by
    rw [loadableMessages_concat, if_neg fun hin => hid hin.1, Nat.add_zero]
  have hne : ∀ threadId ∈ threadIds, threadId ≠ id := fun threadId hmem heq => hid (heq ▸ hmem)
  refine ⟨h.keys, ?_, ?_, hloadable ▸ h.loadable, hloadable ▸ h.kept⟩
  · intro threadId outcome houtcome
    have hmem := (h.keys threadId).1 (Option.isSome_of_eq_some houtcome)
    rcases h.outcomes threadId outcome houtcome with ⟨rfl, hsmall⟩ | ⟨total, rfl, hfound, hlt⟩
    · refine Or.inl ⟨rfl, fun total htotal => ?_⟩
      rcases (mem_foundThreads_concat id n).1 htotal with hold | ⟨heq, -⟩
      · exact hsmall total hold
      · exact absurd heq (hne threadId hmem)
    · exact Or.inr ⟨total, rfl, (mem_foundThreads_concat id n).2 (Or.inl hfound), hlt⟩
  · intro threadId hmem
    rw [threadTotal_concat, if_neg (hne threadId hmem).symm]
    exact h.expected threadId hmem

/-- A thread that was asked for, with too many messages or not. -/
theorem Counted.requested (h : Counted threadIds threadMaximum threads counts) {id : Str} {n : Int}
    (hid : id ∈ threadIds) : Counted threadIds threadMaximum (threads ++ [some (id, n)])
      (countThread (BTreeSet.ofList threadIds) threadMaximum counts (some (id, n))) := by
  have hmem : id ∈ BTreeSet.ofList threadIds := BTreeSet.mem_ofList.2 hid
  -- The kept count is that of the last answer for the thread, whether or not it is too large.
  have hexpected : ∀ counts' : ThreadCounts M,
      counts'.expectedCounts = counts.expectedCounts.insert id n.toNat → ∀ threadId ∈ threadIds,
        counts'.expected threadId = threadTotal (threads ++ [some (id, n)]) threadId := by
    intro counts' hcounts threadId hthread
    rw [expected_insert id n.toNat counts' hcounts, threadTotal_concat]
    by_cases heq : threadId = id
    · rw [if_pos heq, if_pos heq.symm]
    · rw [if_neg heq, if_neg (Ne.symm heq)]
      exact h.expected threadId hthread
  have hsum := sum_insert_le (fun m => if m ≤ threadMaximum then m else 0) counts.expectedCounts id
    n.toNat
  have hkept := h.kept
  -- A thread that is too large gets its outcome at once and adds nothing to the total; the total of
  -- the others saturates.
  by_cases hlarge : threadMaximum < n.toNat
  · have hstep : countThread (BTreeSet.ofList threadIds) threadMaximum counts (some (id, n)) =
        { counts with
          expectedCounts := counts.expectedCounts.insert id n.toNat
          outcomes :=
            counts.outcomes.insert id (.threadLimitExceeded id n.toNat threadMaximum) } := by
      simp only [countThread, if_pos hmem, if_pos hlarge]
    have hloadable : loadableMessages (threads ++ [some (id, n)]) threadIds threadMaximum =
        loadableMessages threads threadIds threadMaximum := by
      rw [loadableMessages_concat, if_neg fun hin => absurd hin.2 (by omega), Nat.add_zero]
    rw [hstep]
    refine ⟨?_, ?_, hexpected _ rfl, hloadable ▸ h.loadable, ?_⟩
    · intro threadId
      rw [BTreeMap.get?_insert]
      split
      · next heq => exact iff_of_true rfl (heq ▸ hid)
      · exact h.keys threadId
    · intro threadId outcome houtcome
      rw [BTreeMap.get?_insert] at houtcome
      split at houtcome
      · next heq =>
        obtain rfl := Option.some.inj houtcome
        subst heq
        exact Or.inr ⟨n.toNat, rfl, (mem_foundThreads_concat threadId n).2 (Or.inr ⟨rfl, rfl⟩),
          hlarge⟩
      · next hne =>
        rcases h.outcomes threadId outcome houtcome with ⟨rfl, hsmall⟩ | ⟨total, rfl, hfound, hlt⟩
        · refine Or.inl ⟨rfl, fun total htotal => ?_⟩
          rcases (mem_foundThreads_concat id n).1 htotal with hold | ⟨heq, -⟩
          · exact hsmall total hold
          · exact absurd heq hne
        · exact Or.inr ⟨total, rfl, (mem_foundThreads_concat id n).2 (Or.inl hfound), hlt⟩
    · rw [hloadable]
      rw [if_neg (by omega : ¬ n.toNat ≤ threadMaximum)] at hsum
      exact hsum.trans hkept
  · have hsmall : n.toNat ≤ threadMaximum := by omega
    have hstep : countThread (BTreeSet.ofList threadIds) threadMaximum counts (some (id, n)) =
        { counts with
          expectedCounts := counts.expectedCounts.insert id n.toNat
          loadableTotal := saturatingAdd counts.loadableTotal n.toNat } := by
      simp only [countThread, if_pos hmem, if_neg hlarge]
    have hloadable : loadableMessages (threads ++ [some (id, n)]) threadIds threadMaximum =
        loadableMessages threads threadIds threadMaximum + n.toNat := by
      rw [loadableMessages_concat, if_pos ⟨hid, hsmall⟩]
    rw [hstep]
    refine ⟨h.keys, ?_, hexpected _ rfl, ?_, ?_⟩
    · intro threadId outcome houtcome
      rcases h.outcomes threadId outcome houtcome with ⟨rfl, hold⟩ | ⟨total, rfl, hfound, hlt⟩
      · refine Or.inl ⟨rfl, fun total htotal => ?_⟩
        rcases (mem_foundThreads_concat id n).1 htotal with hmem | ⟨-, rfl⟩
        · exact hold total hmem
        · exact hsmall
      · exact Or.inr ⟨total, rfl, (mem_foundThreads_concat id n).2 (Or.inl hfound), hlt⟩
    · show saturatingAdd counts.loadableTotal n.toNat = _
      rw [hloadable, h.loadable]
      unfold saturatingAdd
      omega
    · rw [hloadable]
      rw [if_pos hsmall] at hsum
      exact hsum.trans (Nat.add_le_add_right hkept n.toNat)

theorem Counted.step (h : Counted threadIds threadMaximum threads counts)
    (thread : Option (Str × Int)) : Counted threadIds threadMaximum (threads ++ [thread])
      (countThread (BTreeSet.ofList threadIds) threadMaximum counts thread) := by
  cases thread with
  | none => exact h.null
  | some thread =>
    by_cases hid : thread.1 ∈ threadIds
    · exact h.requested hid
    · have hstep : countThread (BTreeSet.ofList threadIds) threadMaximum counts (some thread) =
          counts := if_neg fun hmem => hid (BTreeSet.mem_ofList.1 hmem)
      rw [hstep]
      exact h.other hid

/-- The whole loop over the threads. -/
theorem Counted.run (h : Counted threadIds threadMaximum threads counts)
    (rest : List (Option (Str × Int))) : Counted threadIds threadMaximum (threads ++ rest)
      (rest.foldl (countThread (BTreeSet.ofList threadIds) threadMaximum) counts) := by
  induction rest generalizing threads counts with
  | nil => rwa [List.append_nil]
  | cons thread rest ih =>
    rw [List.append_cons]
    exact ih (h.step thread)

/-! ## Loading -/

/-- An outcome with further messages. -/
def BoundedThreadMessages.extend (more : List M) : BoundedThreadMessages M → BoundedThreadMessages M
  | loaded messages => loaded (messages ++ more)
  | threadLimitExceeded threadId total limit => threadLimitExceeded threadId total limit
  | batchLimitExceeded total limit => batchLimitExceeded total limit

theorem BoundedThreadMessages.extend_extend (outcome : BoundedThreadMessages M)
    (more later : List M) :
    (outcome.extend more).extend later = outcome.extend (more ++ later) := by
  cases outcome with
  | loaded messages => exact congrArg loaded (List.append_assoc messages more later)
  | threadLimitExceeded threadId total limit => rfl
  | batchLimitExceeded total limit => rfl

@[simp] theorem BoundedThreadMessages.extend_nil (outcome : BoundedThreadMessages M) :
    outcome.extend [] = outcome := by
  cases outcome with
  | loaded messages => exact congrArg loaded (List.append_nil messages)
  | threadLimitExceeded threadId total limit => rfl
  | batchLimitExceeded total limit => rfl

/-- A message goes to its thread, unless that is not loaded. -/
theorem get?_pushThreadMessage (outcomes : BTreeMap Str (BoundedThreadMessages M))
    (message : Option (Str × M)) (threadId : Str) :
    (pushThreadMessage outcomes message).get? threadId =
      (outcomes.get? threadId).map (·.extend (messagesOf [message] threadId)) := by
  cases message with
  | none =>
    show outcomes.get? threadId = (outcomes.get? threadId).map (·.extend [])
    simp
  | some message =>
    obtain ⟨id, message⟩ := message
    by_cases heq : id = threadId
    · subst heq
      have hof : messagesOf [some (id, message)] id = [message] := by simp [messagesOf]
      rw [hof]
      unfold pushThreadMessage
      cases hget : outcomes.get? id with
      | none => simp [hget]
      | some outcome =>
        cases outcome with
        | loaded messages =>
          simp only [hget, BTreeMap.get?_insert, if_pos, Option.map_some]
          rfl
        | threadLimitExceeded threadId total limit => simp [hget, BoundedThreadMessages.extend]
        | batchLimitExceeded total limit => simp [hget, BoundedThreadMessages.extend]
    · have hof : messagesOf [some (id, message)] threadId = [] := by simp [messagesOf, heq]
      rw [hof]
      unfold pushThreadMessage
      simp only [BoundedThreadMessages.extend_nil, Option.map_id']
      split
      · rw [BTreeMap.get?_insert, if_neg (Ne.symm heq)]
      · rfl

theorem get?_foldl_pushThreadMessage (outcomes : BTreeMap Str (BoundedThreadMessages M))
    (messages : List (Option (Str × M))) (threadId : Str) :
    (messages.foldl pushThreadMessage outcomes).get? threadId =
      (outcomes.get? threadId).map (·.extend (messagesOf messages threadId)) := by
  induction messages generalizing outcomes with
  | nil =>
    show outcomes.get? threadId = (outcomes.get? threadId).map (·.extend [])
    simp
  | cons message messages ih =>
    have hof : messagesOf (message :: messages) threadId =
        messagesOf [message] threadId ++ messagesOf messages threadId :=
      List.filterMap_append (l := [message])
    rw [List.foldl_cons, ih, get?_pushThreadMessage, Option.map_map, hof]
    congr 1
    funext outcome
    exact outcome.extend_extend _ _

theorem checkLoaded_eq_ok {entries : List (Str × BoundedThreadMessages M)}
    (h : checkLoaded counts entries = .ok ()) {messages : List M}
    (hmem : (threadId, .loaded messages) ∈ entries) :
    messages.length = counts.expected threadId := by
  induction entries with
  | nil => exact absurd hmem List.not_mem_nil
  | cons first rest ih =>
    obtain ⟨id, outcome⟩ := first
    cases outcome with
    | loaded loaded =>
      unfold checkLoaded at h
      split at h
      · exact absurd h (by simp)
      · next hlength =>
        rcases List.mem_cons.1 hmem with heq | hmem
        · obtain ⟨rfl, hsame⟩ := Prod.mk.inj heq
          obtain rfl := BoundedThreadMessages.loaded.inj hsame
          exact not_not.1 hlength
        · exact ih h hmem
    | threadLimitExceeded id' total limit =>
      refine ih h ((List.mem_cons.1 hmem).resolve_left fun heq => ?_)
      exact absurd (Prod.mk.inj heq).2 (by simp)
    | batchLimitExceeded total limit =>
      refine ih h ((List.mem_cons.1 hmem).resolve_left fun heq => ?_)
      exact absurd (Prod.mk.inj heq).2 (by simp)

/-! ## Whole threads only -/

/-- **What the outcomes are worth**, by what the library has said. There is one for each thread that
was asked for. A thread is loaded with as many messages as were counted, or has an outcome that says
that it has too many, or that the batch has; and in the last case no thread with messages is loaded.
-/
structure LoadsWhole (answers : ThreadBatchAnswers M) (threadIds : List Str)
    (threadMaximum batchMaximum : Nat) (outcomes : BTreeMap Str (BoundedThreadMessages M)) :
    Prop where
  keys : ∀ threadId, (outcomes.get? threadId).isSome ↔ threadId ∈ threadIds
  /-- a loaded thread has as many messages as it was said to have, and they are those that the
  iterator gave for it, in its order -/
  whole : ∀ threadId messages, outcomes.get? threadId = some (.loaded messages) →
    messages.length = threadTotal answers.threads threadId ∧ messages.length ≤ threadMaximum ∧
      (messages ≠ [] → messages = messagesOf answers.messages threadId)
  bounded : min (outcomes.entries.map fun entry => entry.2.messages.length).sum u64Max ≤
    batchMaximum
  overThread : ∀ threadId ∈ threadIds, ∀ total, (threadId, total) ∈ foundThreads answers.threads →
    threadMaximum < total → ∃ total', threadMaximum < total' ∧
      (threadId, total') ∈ foundThreads answers.threads ∧
        outcomes.get? threadId = some (.threadLimitExceeded threadId total' threadMaximum)
  /-- a batch that is too large has no messages at all -/
  overBatch :
    batchMaximum < min (loadableMessages answers.threads threadIds threadMaximum) u64Max →
      ∀ threadId ∈ threadIds, 0 < threadTotal answers.threads threadId →
        (∀ total, (threadId, total) ∈ foundThreads answers.threads → total ≤ threadMaximum) →
          outcomes.get? threadId = some (.batchLimitExceeded
            (min (loadableMessages answers.threads threadIds threadMaximum) u64Max) batchMaximum)
  loads : min (loadableMessages answers.threads threadIds threadMaximum) u64Max ≤ batchMaximum →
    ∀ threadId ∈ threadIds,
      (∀ total, (threadId, total) ∈ foundThreads answers.threads → total ≤ threadMaximum) →
        ∃ messages, outcomes.get? threadId = some (.loaded messages)

variable {answers : ThreadBatchAnswers M} {batchMaximum : Nat}
  {outcomes : BTreeMap Str (BoundedThreadMessages M)}

/-- What has been counted for a thread that is not too large is what it has. -/
theorem Counted.threadTotal_le (h : Counted threadIds threadMaximum threads counts)
    (hloaded : counts.outcomes.get? threadId = some (.loaded [])) :
    threadTotal threads threadId ≤ threadMaximum := by
  rcases h.outcomes threadId _ hloaded with ⟨-, hsmall⟩ | ⟨total, heq, -⟩
  · exact Notmuch.threadTotal_le hsmall
  · exact absurd heq (by simp)

/-- A thread that is too large has its outcome from then on. -/
theorem Counted.overThread (h : Counted threadIds threadMaximum threads counts)
    (hmem : threadId ∈ threadIds) (hfound : (threadId, total) ∈ foundThreads threads)
    (hlarge : threadMaximum < total) : ∃ total', threadMaximum < total' ∧
      (threadId, total') ∈ foundThreads threads ∧
        counts.outcomes.get? threadId =
          some (.threadLimitExceeded threadId total' threadMaximum) := by
  obtain ⟨outcome, houtcome⟩ := Option.isSome_iff_exists.1 ((h.keys threadId).2 hmem)
  rcases h.outcomes threadId outcome houtcome with ⟨-, hsmall⟩ | ⟨total', rfl, hfound', hlt⟩
  · exact absurd (hsmall total hfound) (by omega)
  · exact ⟨total', hlt, hfound', houtcome⟩

/-- A thread that is not too large is there to be loaded. -/
theorem Counted.loads (h : Counted threadIds threadMaximum threads counts)
    (hmem : threadId ∈ threadIds)
    (hsmall : ∀ total, (threadId, total) ∈ foundThreads threads → total ≤ threadMaximum) :
    counts.outcomes.get? threadId = some (.loaded []) := by
  obtain ⟨outcome, houtcome⟩ := Option.isSome_iff_exists.1 ((h.keys threadId).2 hmem)
  rcases h.outcomes threadId outcome houtcome with ⟨rfl, -⟩ | ⟨total, -, hfound, hlt⟩
  · exact houtcome
  · exact absurd (hsmall total hfound) (by omega)

/-- Before anything is loaded there is nothing. -/
theorem Counted.messages_eq_nil (h : Counted threadIds threadMaximum threads counts)
    {entry : Str × BoundedThreadMessages M} (hentry : entry ∈ counts.outcomes.entries) :
    entry.2.messages = [] := by
  rcases h.outcomes entry.1 entry.2 (BTreeMap.get?_eq_some_iff.2 hentry) with
    ⟨hloaded, -⟩ | ⟨total, hlimit, -⟩
  · rw [hloaded]
    rfl
  · rw [hlimit]
    rfl

/-- The counts that are kept are those of the sum: a list whose entries other than zeros are among
those of another has no greater sum. -/
theorem sum_le_of_entries (xs ys : List (Str × Nat)) (hkeys : (xs.map Prod.fst).Nodup)
    (h : ∀ x ∈ xs, 0 < x.2 → x ∈ ys) : (xs.map Prod.snd).sum ≤ (ys.map Prod.snd).sum := by
  have hnodup : (xs.filter fun x => 0 < x.2).Nodup := (List.Nodup.of_map _ hkeys).filter _
  have hsubset : (xs.filter fun x => 0 < x.2) ⊆ ys := by
    intro x hx
    obtain ⟨hmem, hpos⟩ := List.mem_filter.1 hx
    exact h x hmem (of_decide_eq_true hpos)
  have hsame : ((xs.filter fun x => 0 < x.2).map Prod.snd).sum = (xs.map Prod.snd).sum := by
    clear hkeys h hnodup hsubset
    induction xs with
    | nil => rfl
    | cons x xs ih =>
      by_cases hpos : 0 < x.2
      · rw [List.filter_cons_of_pos (by simpa using hpos), List.map_cons, List.map_cons,
          List.sum_cons, List.sum_cons, ih]
      · rw [List.filter_cons_of_neg (by simpa using hpos), ih, List.map_cons, List.sum_cons]
        omega
  obtain ⟨zs, hperm, hsub⟩ := hnodup.subperm hsubset
  rw [← hsame, ← (hperm.map Prod.snd).sum_eq]
  exact (hsub.map Prod.snd).sum_le_sum fun n _ => Nat.zero_le n

section Endings

variable (h : Counted threadIds threadMaximum answers.threads counts)
include h

/-- A batch that is too large. -/
theorem Counted.exceeded (hlarge : batchMaximum < counts.loadableTotal) :
    LoadsWhole answers threadIds threadMaximum batchMaximum (exceedBatch batchMaximum counts) := by
  have hget : ∀ threadId, (exceedBatch batchMaximum counts).get? threadId =
      (counts.outcomes.get? threadId).map fun outcome =>
        if 0 < counts.expected threadId ∧ outcome.isLoaded = true then
          .batchLimitExceeded counts.loadableTotal batchMaximum
        else outcome := BTreeMap.get?_mapValues _ counts.outcomes
  -- Nothing has been loaded yet, so no outcome of a batch that is too large has messages.
  have hnone : ∀ entry ∈ (exceedBatch batchMaximum counts).entries, entry.2.messages = [] := by
    intro entry hentry
    obtain ⟨old, hold, rfl⟩ := List.mem_map.1 hentry
    show (if _ then _ else _ : BoundedThreadMessages M).messages = []
    split
    · rfl
    · exact h.messages_eq_nil hold
  refine ⟨?_, ?_, ?_, ?_, ?_, ?_⟩
  · intro threadId
    rw [hget, Option.isSome_map]
    exact h.keys threadId
  · intro threadId messages hloaded
    rw [hget] at hloaded
    obtain ⟨outcome, houtcome, heq⟩ := Option.map_eq_some_iff.1 hloaded
    split at heq
    · exact absurd heq (by simp)
    · next hnot =>
      subst heq
      have hempty : messages = [] := h.messages_eq_nil (BTreeMap.mem_of_get? houtcome)
      have hmem := (h.keys threadId).1 (Option.isSome_of_eq_some houtcome)
      -- It is still loaded only when there is nothing to load.
      have hzero : counts.expected threadId = 0 := by
        by_contra hpos
        exact hnot ⟨Nat.pos_of_ne_zero hpos, rfl⟩
      rw [← h.expected threadId hmem, hzero, hempty]
      exact ⟨rfl, Nat.zero_le _, fun hne => absurd rfl hne⟩
  · have hsum : ((exceedBatch batchMaximum counts).entries.map fun entry =>
        entry.2.messages.length).sum = 0 := by
      refine List.sum_eq_zero fun n hn => ?_
      obtain ⟨entry, hentry, rfl⟩ := List.mem_map.1 hn
      rw [hnone entry hentry]
      rfl
    rw [hsum]
    exact (Nat.min_le_left _ _).trans (Nat.zero_le _)
  · intro threadId hmem total hfound hover
    obtain ⟨total', hlt, hfound', houtcome⟩ := h.overThread hmem hfound hover
    refine ⟨total', hlt, hfound', ?_⟩
    rw [hget, houtcome]
    exact congrArg some (if_neg fun hin => Bool.false_ne_true hin.2)
  · intro _ threadId hmem hpos hsmall
    rw [hget, h.loads hmem hsmall, ← h.loadable]
    have hexpected : 0 < counts.expected threadId := by rwa [h.expected threadId hmem]
    exact congrArg some (if_pos ⟨hexpected, rfl⟩)
  · intro hle
    rw [h.loadable] at hlarge
    omega

/-- Nothing is loaded where there is nothing to load. -/
theorem Counted.nothing (hzero : counts.loadableTotal = 0) :
    LoadsWhole answers threadIds threadMaximum batchMaximum counts.outcomes := by
  have hall : loadableMessages answers.threads threadIds threadMaximum = 0 := by
    have hloadable := h.loadable
    unfold u64Max at hloadable
    omega
  refine ⟨h.keys, ?_, ?_, fun threadId hmem total => h.overThread hmem, ?_, ?_⟩
  · intro threadId messages hloaded
    have hmem := (h.keys threadId).1 (Option.isSome_of_eq_some hloaded)
    have hempty : messages = [] := h.messages_eq_nil (BTreeMap.mem_of_get? hloaded)
    subst hempty
    have hsmall := h.threadTotal_le hloaded
    have hnothing : threadTotal answers.threads threadId = 0 := by
      -- its count would be among those that were added up
      by_contra hpos
      have hexpected := h.expected threadId hmem
      unfold ThreadCounts.expected at hexpected
      cases hcount : counts.expectedCounts.get? threadId with
      | none =>
        rw [hcount] at hexpected
        exact hpos hexpected.symm
      | some n =>
        rw [hcount] at hexpected
        have hn : n = threadTotal answers.threads threadId := hexpected
        have hle := List.single_le_sum
          (l := counts.expectedCounts.entries.map fun entry =>
            if entry.2 ≤ threadMaximum then entry.2 else 0)
          (fun n _ => Nat.zero_le n) _ (List.mem_map.2 ⟨_, BTreeMap.mem_of_get? hcount, rfl⟩)
        have hkept := h.kept
        rw [if_pos (hn ▸ hsmall)] at hle
        omega
    rw [hnothing]
    exact ⟨rfl, Nat.zero_le _, fun hne => absurd rfl hne⟩
  · have hsum : (counts.outcomes.entries.map fun entry => entry.2.messages.length).sum = 0 := by
      refine List.sum_eq_zero fun n hn => ?_
      obtain ⟨entry, hentry, rfl⟩ := List.mem_map.1 hn
      rw [h.messages_eq_nil hentry]
      rfl
    rw [hsum]
    exact (Nat.min_le_left _ _).trans (Nat.zero_le _)
  · intro hlarge
    rw [hall] at hlarge
    omega
  · exact fun _ threadId hmem hsmall => ⟨[], h.loads hmem hsmall⟩

/-- The messages have been loaded, and the last loop has found nothing amiss. -/
theorem Counted.loaded (hsmall : ¬ batchMaximum < counts.loadableTotal)
    (hchecked : checkLoaded counts
      (answers.messages.foldl pushThreadMessage counts.outcomes).entries = .ok ()) :
    LoadsWhole answers threadIds threadMaximum batchMaximum
      (answers.messages.foldl pushThreadMessage counts.outcomes) := by
  have hget := get?_foldl_pushThreadMessage counts.outcomes answers.messages
  have hfrom : ∀ threadId messages,
      (answers.messages.foldl pushThreadMessage counts.outcomes).get? threadId =
        some (.loaded messages) → counts.outcomes.get? threadId = some (.loaded []) ∧
          messages = messagesOf answers.messages threadId := by
    intro threadId messages hloaded
    rw [hget] at hloaded
    obtain ⟨outcome, houtcome, heq⟩ := Option.map_eq_some_iff.1 hloaded
    rcases h.outcomes threadId outcome houtcome with ⟨rfl, -⟩ | ⟨total, rfl, -⟩
    · exact ⟨houtcome, (BoundedThreadMessages.loaded.inj heq).symm⟩
    · exact absurd heq (by simp [BoundedThreadMessages.extend])
  have hlength : ∀ threadId messages,
      (answers.messages.foldl pushThreadMessage counts.outcomes).get? threadId =
        some (.loaded messages) → messages.length = counts.expected threadId :=
    fun threadId messages hloaded => checkLoaded_eq_ok hchecked (BTreeMap.mem_of_get? hloaded)
  refine ⟨?_, ?_, ?_, ?_, ?_, ?_⟩
  · intro threadId
    rw [hget, Option.isSome_map]
    exact h.keys threadId
  · intro threadId messages hloaded
    obtain ⟨hold, hmessages⟩ := hfrom threadId messages hloaded
    have hmem := (h.keys threadId).1 (Option.isSome_of_eq_some hold)
    rw [hlength threadId messages hloaded, h.expected threadId hmem]
    exact ⟨rfl, h.threadTotal_le hold, fun _ => hmessages⟩
  · -- each thread that was loaded is counted once, and within the limit
    have hsum := sum_le_of_entries
      ((answers.messages.foldl pushThreadMessage counts.outcomes).entries.map fun entry =>
        (entry.1, entry.2.messages.length))
      (counts.expectedCounts.entries.map fun entry =>
        (entry.1, if entry.2 ≤ threadMaximum then entry.2 else 0)) ?_ ?_
    · rw [List.map_map, List.map_map] at hsum
      have hkept := h.kept
      have hloadable := h.loadable
      have htotal : ((answers.messages.foldl pushThreadMessage counts.outcomes).entries.map
          fun entry => entry.2.messages.length).sum ≤
            loadableMessages answers.threads threadIds threadMaximum := hsum.trans hkept
      omega
    · rw [List.map_map]
      exact BTreeMap.keys_nodup _
    · intro x hx hpos
      obtain ⟨⟨threadId, outcome⟩, hentry, rfl⟩ := List.mem_map.1 hx
      cases outcome with
      | threadLimitExceeded id total limit => exact absurd hpos (Nat.lt_irrefl 0)
      | batchLimitExceeded total limit => exact absurd hpos (Nat.lt_irrefl 0)
      | loaded messages =>
        have hloaded := BTreeMap.get?_eq_some_iff.2 hentry
        have hold := (hfrom threadId messages hloaded).1
        have hmem := (h.keys threadId).1 (Option.isSome_of_eq_some hold)
        have hexpected := hlength threadId messages hloaded
        have hwithin := h.threadTotal_le hold
        rw [← h.expected threadId hmem, ← hexpected] at hwithin
        have hpos : 0 < messages.length := hpos
        unfold ThreadCounts.expected at hexpected
        cases hcount : counts.expectedCounts.get? threadId with
        | none =>
          rw [hcount] at hexpected
          exact absurd hexpected (by simpa using Nat.ne_of_gt hpos)
        | some n =>
          rw [hcount] at hexpected
          have hn : messages.length = n := hexpected
          refine List.mem_map.2 ⟨_, BTreeMap.mem_of_get? hcount, ?_⟩
          rw [if_pos (hn ▸ hwithin), ← hn]
          rfl
  · intro threadId hmem total hfound hover
    obtain ⟨total', hlt, hfound', houtcome⟩ := h.overThread hmem hfound hover
    refine ⟨total', hlt, hfound', ?_⟩
    rw [hget, houtcome]
    rfl
  · intro hlarge
    rw [h.loadable] at hsmall
    exact absurd hlarge hsmall
  · intro _ threadId hmem hwithin
    refine ⟨messagesOf answers.messages threadId, ?_⟩
    rw [hget, h.loads hmem hwithin]
    rfl

end Endings

/-- **A thread is loaded whole or not at all.** What is loaded is no more than the limits allow,
whatever the library answers; what is not loaded says why. The counts and the messages are two
answers of the library, and a thread with other than the counted messages is an error. -/
theorem threadMessagesForThreadsBounded_loadsWhole
    (h : threadMessagesForThreadsBounded answers threadIds threadMaximum batchMaximum =
      .ok outcomes) : LoadsWhole answers threadIds threadMaximum batchMaximum outcomes := by
  have hcounted := (counted_initial (M := M) threadIds threadMaximum).run answers.threads
  rw [List.nil_append] at hcounted
  unfold threadMessagesForThreadsBounded at h
  dsimp only at h
  split at h
  · -- Nothing was asked for.
    next hnone =>
    obtain rfl := Except.ok.inj h
    have hids : ∀ threadId, threadId ∉ threadIds := by
      intro threadId hmem
      have hset : threadId ∈ (BTreeSet.ofList threadIds).toList := BTreeSet.mem_ofList.2 hmem
      rw [hnone] at hset
      exact List.not_mem_nil hset
    refine ⟨?_, ?_, ?_, ?_, ?_, ?_⟩
    · exact fun threadId => iff_of_false (by simp) (hids threadId)
    · exact fun threadId messages hloaded => absurd hloaded (by simp)
    · exact (Nat.min_le_left _ _).trans (Nat.zero_le _)
    · exact fun threadId hmem => absurd hmem (hids threadId)
    · exact fun _ threadId hmem => absurd hmem (hids threadId)
    · exact fun _ threadId hmem => absurd hmem (hids threadId)
  · obtain ⟨_, _, h⟩ := bind_eq_ok.1 h
    obtain ⟨_, _, h⟩ := bind_eq_ok.1 h
    obtain ⟨_, _, h⟩ := bind_eq_ok.1 h
    split at h
    · -- The batch is too large: no message is loaded.
      next hlarge =>
      obtain rfl := Except.ok.inj h
      exact hcounted.exceeded hlarge
    · next hsmall =>
      split at h
      · -- The threads that are not too large have no messages.
        next hzero =>
        obtain rfl := Except.ok.inj h
        exact hcounted.nothing hzero
      · obtain ⟨_, _, h⟩ := bind_eq_ok.1 h
        obtain ⟨_, _, h⟩ := bind_eq_ok.1 h
        obtain ⟨_, hchecked, h⟩ := bind_eq_ok.1 h
        obtain rfl := Except.ok.inj h
        exact hcounted.loaded hsmall hchecked

/-- A thread of two messages, a thread of three and one that is gone. -/
def threeThreads : ThreadBatchAnswers Nat where
  createQueryIsNull := false
  searchThreads := none
  threads := [some (['a'], 2), none, some (['b'], 3)]
  threadsIterator := none
  searchMessages := none
  messages := [some (['a'], 1), some (['b'], 2), none, some (['a'], 3), some (['b'], 4),
    some (['b'], 5)]
  messagesIterator := none

/-- At most two messages of a thread: the second is not loaded. -/
theorem three_threads_loaded : ∃ outcomes,
    threadMessagesForThreadsBounded threeThreads [['b'], ['a'], ['c'], ['a']] 2 8 = .ok outcomes ∧
      outcomes.entries = [(['a'], .loaded [1, 3]), (['b'], .threadLimitExceeded ['b'] 3 2),
        (['c'], .loaded [])] ∧
      LoadsWhole threeThreads [['b'], ['a'], ['c'], ['a']] 2 8 outcomes := by
  obtain ⟨outcomes, houtcomes⟩ := exists_eq_ok
    (x := threadMessagesForThreadsBounded threeThreads [['b'], ['a'], ['c'], ['a']] 2 8) (by decide)
  have hentries : (threadMessagesForThreadsBounded threeThreads
      [['b'], ['a'], ['c'], ['a']] 2 8).toOption.map BTreeMap.entries =
        some [(['a'], .loaded [1, 3]), (['b'], .threadLimitExceeded ['b'] 3 2),
          (['c'], .loaded [])] := by decide
  rw [houtcomes] at hentries
  exact ⟨outcomes, houtcomes, Option.some.inj hentries,
    threadMessagesForThreadsBounded_loadsWhole houtcomes⟩

end Notm.Notmuch
