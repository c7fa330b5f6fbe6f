import Notm.Ui.ComposerCacheLaw
import Notm.Ui.ComposerCacheOwned

/-!
# The directories of the composer's attachment cache

Every file that the service has made is in the directory of a request that is prepared or whose
lease is out, was taken over by the composer, or could not be removed. No step of the service
removes a file that is not its own.

* `Kept` — every directory belongs to a request that is prepared or whose lease is out.
* `kept_of_run_steps` — every step keeps that.
* `CleansUp` — what becomes of the files.
* `leftBehind_of_run` — nothing stays behind while every removal succeeds.
* `cache_directories_cleaned_up` — the two for whole runs.
-/

namespace Notm.Ui

open Rust Transition Calls

/-! ## The service and its directories -/

namespace ComposerCache

variable {root : CachePath} {s s' : ComposerCache} {event : CacheEvent}

/-- The directories of the leases that are out. -/
def leased (s : ComposerCache) : List (Nat × CachePath) :=
  s.leases.filterMap fun lease => lease.2.ownedDirectory.map fun directory => (lease.1, directory)

/-- What a request that needs no directory any longer may have left. -/
def Released (s : ComposerCache) (id : Nat) : Prop := id ∈ s.leftBehind ∨ id ∈ s.committed

/-- The directories belong to the requests that are prepared or whose leases are out. -/
structure Kept (root : CachePath) (s : ComposerCache) : Prop where
  owned : Owned root s.files s.owners s.Released
  stage : ∀ run stage, s.worker = .running run stage → stage.Consistent run
  nodup : (s.leases.map Prod.fst).Nodup
  leases : ∀ id lease, (id, lease) ∈ s.leases →
    ∃ response, (id, response) ∈ s.responses ∧ response.result = .ok lease
  committed : ∀ id ∈ s.committed, id ∉ s.leases.map Prod.fst ∧
    ∃ response lease, (id, response) ∈ s.responses ∧ response.result = .ok lease
  leftBehind : ∀ id ∈ s.leftBehind, id ∈ s.runs

theorem kept_initial (root : CachePath) (files : List (CachePath × Option Bytes)) :
    (initial files).Kept root where
  owned := by
    refine ⟨?_, ?_, ?_, ?_, ?_⟩
    · exact fun owner howner => absurd howner List.not_mem_nil
    · exact fun owner howner => absurd howner List.not_mem_nil
    · exact fun owner howner => absurd howner List.not_mem_nil
    · exact fun owner howner => absurd howner List.not_mem_nil
    · intro entry hentry id hmaker
      obtain ⟨file, -, rfl⟩ := List.mem_map.1 hentry
      exact absurd hmaker (by simp)
  stage := fun run stage hworker => absurd hworker (by simp [initial])
  nodup := List.nodup_nil
  leases := fun id lease hlease => absurd hlease List.not_mem_nil
  committed := fun id hid => absurd hid List.not_mem_nil
  leftBehind := fun id hid => absurd hid List.not_mem_nil

theorem mem_leased {owner : Nat × CachePath} :
    owner ∈ s.leased ↔ ∃ lease, (owner.1, lease) ∈ s.leases ∧
      lease.ownedDirectory = some owner.2 := by
  constructor
  · intro howner
    obtain ⟨lease, hlease, hmap⟩ := List.mem_filterMap.1 howner
    obtain ⟨directory, hdirectory, rfl⟩ := Option.map_eq_some_iff.1 hmap
    exact ⟨lease.2, hlease, hdirectory⟩
  · intro hexists
    obtain ⟨lease, hlease, hdirectory⟩ := hexists
    exact List.mem_filterMap.2 ⟨_, hlease, by rw [hdirectory]; rfl⟩

/-- A request that is answered is no longer held by the worker. -/
theorem Accounted.worker_not_answered (h : s.Accounted) {job : ComposerAttachmentCacheJob}
    (hworker : s.worker.job = some job) {id : Nat} (hid : id ∈ s.responses.map Prod.fst) :
    id ≠ job.id := by
  rintro rfl
  have htwice := List.nodup_iff_count_le_one.1 h.nodup_places job.id
  rw [count_places, hworker] at htwice
  have hanswered := List.count_pos_iff.2 hid
  simp [jobId] at htwice
  omega

/-- Two responses to one request are one. -/
theorem Accounted.response_unique (h : s.Accounted) {id : Nat}
    {response response' : ComposerAttachmentCacheResponse}
    (hresponse : (id, response) ∈ s.responses)
    (hresponse' : (id, response') ∈ s.responses) : response = response' := by
  have hnodup : (s.responses.map Prod.fst).Nodup := by
    refine List.nodup_iff_count_le_one.2 fun id' => ?_
    have hid := List.nodup_iff_count_le_one.1 h.nodup_places id'
    rw [count_places] at hid
    omega
  have hsame := List.inj_on_of_nodup_map hnodup hresponse hresponse' rfl
  exact (Prod.mk.inj hsame).2

theorem worker_of_owner {worker : CacheWorker} {owner : Nat × CachePath}
    (h : worker.owner = some owner) : ∃ job, worker.job = some job ∧ owner.1 = job.id := by
  cases worker with
  | receiving | looping => exact absurd h (by simp [CacheWorker.owner])
  | running run stage =>
    obtain ⟨directory, -, rfl⟩ := Option.map_eq_some_iff.1 h
    exact ⟨run.job, rfl, rfl⟩
  | prepared job result | cleared job result =>
    cases result with
    | error error => exact absurd h (by simp [CacheWorker.owner])
    | ok lease =>
      obtain ⟨directory, -, rfl⟩ := Option.map_eq_some_iff.1 h
      exact ⟨job, rfl, rfl⟩

namespace Kept

theorem answered_of_lease (h : s.Kept root) {id : Nat} (hid : id ∈ s.leases.map Prod.fst) :
    id ∈ s.responses.map Prod.fst := by
  obtain ⟨lease, hlease, rfl⟩ := List.mem_map.1 hid
  obtain ⟨response, hresponse, -⟩ := h.leases lease.1 lease.2 hlease
  exact List.mem_map.2 ⟨_, hresponse, rfl⟩

theorem lease_unique (h : s.Kept root) {id : Nat} {lease lease' : ComposerAttachmentCacheLease}
    (hlease : (id, lease) ∈ s.leases) (hlease' : (id, lease') ∈ s.leases) : lease = lease' :=
  (Prod.mk.inj (List.inj_on_of_nodup_map h.nodup hlease hlease' rfl)).2

/-- The request whose lease is out has nothing to do with that of the worker. -/
theorem leased_ne_worker (h : s.Kept root) (haccounted : s.Accounted)
    {job : ComposerAttachmentCacheJob} (hworker : s.worker.job = some job) :
    ∀ owner ∈ s.leased, owner.1 ≠ job.id := by
  intro owner howner
  obtain ⟨lease, hlease, -⟩ := mem_leased.1 howner
  have hid := h.answered_of_lease (List.mem_map.2 ⟨_, hlease, rfl⟩)
  exact haccounted.worker_not_answered hworker hid

/-- A step that leaves the directories and leases alone. -/
theorem of_eq (h : s.Kept root) (hworker : s'.worker.owner = s.worker.owner)
    (hstage : ∀ run stage, s'.worker = .running run stage → stage.Consistent run)
    (hleases : s'.leases = s.leases) (hfiles : s'.files = s.files)
    (hresponses : s'.responses = s.responses) (hcommitted : s'.committed = s.committed)
    (hleft : s'.leftBehind = s.leftBehind) (hruns : ∀ id ∈ s.runs, id ∈ s'.runs) :
    s'.Kept root := by
  have howners : s'.owners = s.owners := by
    rw [owners, owners, hworker, hleases]
  refine ⟨?_, hstage, ?_, ?_, ?_, ?_⟩
  · rw [howners, hfiles]
    refine h.owned.of_iff (fun _ => Iff.rfl) fun id hid => ?_
    rw [Released, hleft, hcommitted]
    exact hid
  · rw [hleases]
    exact h.nodup
  · rw [hleases, hresponses]
    exact h.leases
  · rw [hcommitted, hleases, hresponses]
    exact h.committed
  · rw [hleft]
    exact fun id hid => hruns id (h.leftBehind id hid)

/-- Who owns what once the leases of a request are gone. -/
theorem mem_owners_withoutLease (h : s.Kept root) (haccounted : s.Accounted) {id : Nat}
    (hid : id ∈ s.leases.map Prod.fst) (owner : Nat × CachePath) :
    owner ∈ (s.withoutLease id).owners ↔ owner ∈ s.owners ∧ owner.1 ≠ id := by
  have hleased : owner ∈ (s.withoutLease id).leased ↔ owner ∈ s.leased ∧ owner.1 ≠ id := by
    rw [mem_leased, mem_leased]
    constructor
    · intro hexists
      obtain ⟨lease, hlease, hdirectory⟩ := hexists
      obtain ⟨hmem, hne⟩ := List.mem_filter.1 hlease
      exact ⟨⟨lease, hmem, hdirectory⟩, by simpa using hne⟩
    · intro hboth
      obtain ⟨⟨lease, hlease, hdirectory⟩, hne⟩ := hboth
      exact ⟨lease, List.mem_filter.2 ⟨hlease, by simpa using hne⟩, hdirectory⟩
  have hworker : s.worker.owner = some owner → owner.1 ≠ id := by
    intro howner
    obtain ⟨job, hjob, hsame⟩ := worker_of_owner howner
    rw [hsame]
    exact (haccounted.worker_not_answered hjob (h.answered_of_lease hid)).symm
  constructor
  · intro howner
    rcases List.mem_append.1 howner with hmine | howner
    · exact ⟨List.mem_append_left _ hmine, hworker (Option.mem_toList.1 hmine)⟩
    · obtain ⟨hmem, hne⟩ := hleased.1 howner
      exact ⟨List.mem_append_right _ hmem, hne⟩
  · intro hboth
    rcases List.mem_append.1 hboth.1 with hmine | howner
    · exact List.mem_append_left _ hmine
    · exact List.mem_append_right _ (hleased.2 ⟨howner, hboth.2⟩)

/-- The leases of a request are gone; the directory is taken care of. -/
theorem withoutLease (h : s.Kept root) (id : Nat)
    (howned : Owned root s'.files s'.owners s'.Released)
    (hworker : s'.worker = s.worker) (hleases : s'.leases = (s.withoutLease id).leases)
    (hresponses : s'.responses = s.responses) (hruns : s'.runs = s.runs)
    (hcommitted : ∀ id' ∈ s'.committed, id' ∈ s.committed ∨
      id' = id ∧ id ∈ s.leases.map Prod.fst)
    (hleft : ∀ id' ∈ s'.leftBehind, id' ∈ s.leftBehind ∨ id' ∈ s.runs) : s'.Kept root := by
  have hsub : ∀ lease ∈ s'.leases, lease ∈ s.leases ∧ lease.1 ≠ id := by
    intro lease hlease
    rw [hleases] at hlease
    obtain ⟨hmem, hne⟩ := List.mem_filter.1 hlease
    exact ⟨hmem, by simpa using hne⟩
  refine ⟨howned, ?_, ?_, ?_, ?_, ?_⟩
  · rw [hworker]
    exact h.stage
  · rw [hleases]
    exact h.nodup.sublist (List.filter_sublist.map Prod.fst)
  · rw [hresponses]
    exact fun id' lease hlease => h.leases id' lease (hsub _ hlease).1
  · rw [hresponses]
    intro id' hid'
    have hout : id' ∉ s.leases.map Prod.fst ∨ id' = id → id' ∉ s'.leases.map Prod.fst := by
      intro hcases hmem
      obtain ⟨lease, hlease, rfl⟩ := List.mem_map.1 hmem
      obtain ⟨hold, hne⟩ := hsub lease hlease
      exact hcases.elim (fun hnot => hnot (List.mem_map.2 ⟨lease, hold, rfl⟩)) hne
    rcases hcommitted id' hid' with hold | ⟨rfl, hleased⟩
    · obtain ⟨hnot, hanswered⟩ := h.committed id' hold
      exact ⟨hout (Or.inl hnot), hanswered⟩
    · obtain ⟨⟨id, lease⟩, hlease, rfl⟩ := List.mem_map.1 hleased
      obtain ⟨response, hresponse, hok⟩ := h.leases id lease hlease
      exact ⟨hout (Or.inr rfl), response, lease, hresponse, hok⟩
  · rw [hruns]
    exact fun id' hid' => (hleft id' hid').elim (h.leftBehind id') fun hrun => hrun

end Kept

theorem mem_of_lookup {leases : List (Nat × ComposerAttachmentCacheLease)} {id : Nat}
    {lease : ComposerAttachmentCacheLease} (h : leases.lookup id = some lease) :
    (id, lease) ∈ leases := by
  obtain ⟨before, after, rfl, -⟩ := List.lookup_eq_some_iff.1 h
  exact List.mem_append_right _ List.mem_cons_self

theorem kept_of_dropLease (hs : s.Kept root) (haccounted : s.Accounted) {id : Nat}
    {lease : ComposerAttachmentCacheLease} (hlease : (id, lease) ∈ s.leases) (removal : Removal) :
    (s.dropLease id lease removal).Kept root := by
  have hid : id ∈ s.leases.map Prod.fst := List.mem_map.2 ⟨_, hlease, rfl⟩
  have howners := hs.mem_owners_withoutLease haccounted hid
  unfold ComposerCache.dropLease
  cases hdirectory : lease.ownedDirectory with
  | none =>
    -- no directory belongs to the lease
    refine hs.withoutLease id ?_ rfl rfl rfl rfl (fun _ hid' => .inl hid')
      fun _ hid' => .inl hid'
    refine hs.owned.of_iff (fun owner => (howners owner).trans ⟨And.left, fun howner => ?_⟩)
      fun _ hid' => hid'
    refine ⟨howner, fun hsame => ?_⟩
    rcases List.mem_append.1 howner with hmine | howner
    · obtain ⟨job, hjob, hjobId⟩ := worker_of_owner (Option.mem_toList.1 hmine)
      have hne := haccounted.worker_not_answered hjob (hs.answered_of_lease hid)
      exact hne (hsame.symm.trans hjobId)
    · obtain ⟨lease', hlease', hdirectory'⟩ := mem_leased.1 howner
      rw [hsame] at hlease'
      rw [hs.lease_unique hlease hlease', hdirectory'] at hdirectory
      exact absurd hdirectory (by simp)
  | some directory =>
    have howner : (id, directory) ∈ s.owners :=
      List.mem_append_right _ (mem_leased.2 ⟨lease, hlease, hdirectory⟩)
    have hrun : id ∈ s.runs := by
      rw [← List.count_pos_iff, haccounted.runs]
      have hanswered := List.count_pos_iff.2 (hs.answered_of_lease hid)
      omega
    refine hs.withoutLease id ?_ rfl rfl rfl rfl (fun _ hid' => .inl hid') ?_
    · refine hs.owned.removeDirAll howner howners removal ?_ ?_
      · intro id' hid'
        exact hid'.imp (fun hleft => List.mem_append_left _ hleft) fun hcommitted => hcommitted
      · cases removal with
        | removed => exact Or.inr rfl
        | failed left error =>
          exact Or.inl (Or.inl (List.mem_append_right _ (List.mem_singleton_self _)))
    · intro id' hid'
      rcases List.mem_append.1 hid' with hid' | hid'
      · exact Or.inl hid'
      · cases removal with
        | removed => exact absurd hid' List.not_mem_nil
        | failed left error =>
          obtain rfl := List.mem_singleton.1 hid'
          exact Or.inr hrun

theorem kept_of_commitLease (hs : s.Kept root) (haccounted : s.Accounted) {id : Nat}
    {lease : ComposerAttachmentCacheLease} (hlease : (id, lease) ∈ s.leases) :
    ({ s.withoutLease id with committed := s.committed ++ [id] } : ComposerCache).Kept root := by
  have hid : id ∈ s.leases.map Prod.fst := List.mem_map.2 ⟨_, hlease, rfl⟩
  have howners := hs.mem_owners_withoutLease haccounted hid
  refine hs.withoutLease id ?_ rfl rfl rfl rfl ?_ (fun _ hid' => .inl hid')
  · have hmore : ∀ id', s.Released id' → id' ∈ s.leftBehind ∨ id' ∈ s.committed ++ [id] := by
      exact fun id' hid' => hid'.imp (fun hleft => hleft) (List.mem_append_left _)
    by_cases hexists : ∃ owner ∈ s.owners, owner.1 = id
    · obtain ⟨owner, howner, rfl⟩ := hexists
      refine hs.owned.giveUp howner howners (fun _ hentry => hentry) (fun _ hentry _ => hentry)
        hmore (Or.inl (Or.inr (List.mem_append_right _ (List.mem_singleton_self _))))
    · refine hs.owned.of_iff (fun owner => (howners owner).trans ⟨And.left, fun howner => ?_⟩) hmore
      exact ⟨howner, fun hsame => hexists ⟨owner, howner, hsame⟩⟩
  · intro id' hid'
    rcases List.mem_append.1 hid' with hid' | hid'
    · exact Or.inl hid'
    · obtain rfl := List.mem_singleton.1 hid'
      exact Or.inr ⟨rfl, hid⟩

/-- The lease is sent with the response. -/
theorem kept_of_respond (hs : s.Kept root) (haccounted : s.Accounted)
    {job : ComposerAttachmentCacheJob} {result : Except Str ComposerAttachmentCacheLease}
    (hworker : s.worker = .cleared job result) : (s.respond job result).Kept root := by
  have hnew : job.id ∉ s.responses.map Prod.fst := by
    exact fun hid => haccounted.worker_not_answered (by rw [hworker]; rfl) hid rfl
  have hold : ∀ id lease, (id, lease) ∈ s.leases → ∃ response,
      (id, response) ∈ (s.respond job result).responses ∧ response.result = .ok lease := by
    intro id lease hlease
    obtain ⟨response, hresponse, hok⟩ := hs.leases id lease hlease
    exact ⟨response, List.mem_append_left _ hresponse, hok⟩
  have hcommitted : ∀ id ∈ s.committed, ∃ response lease,
      (id, response) ∈ (s.respond job result).responses ∧ response.result = .ok lease := by
    intro id hid
    obtain ⟨-, response, lease, hresponse, hok⟩ := hs.committed id hid
    exact ⟨response, lease, List.mem_append_left _ hresponse, hok⟩
  have hstage : ∀ run stage, (s.respond job result).worker = .running run stage →
      stage.Consistent run :=
    fun run stage hrunning => absurd hrunning (by simp [ComposerCache.respond])
  cases result with
  | error error =>
    have hleases : (s.respond job (.error error)).leases = s.leases := List.append_nil _
    refine ⟨?_, hstage, ?_, ?_, ?_, hs.leftBehind⟩
    · refine hs.owned.of_iff (fun owner => ?_) fun _ hid => hid
      rw [owners, owners, hleases, hworker]
      exact Iff.rfl
    · rw [hleases]
      exact hs.nodup
    · rw [hleases]
      exact hold
    · rw [hleases]
      exact fun id hid => ⟨(hs.committed id hid).1, hcommitted id hid⟩
  | ok lease =>
    have hleases : (s.respond job (.ok lease)).leases = s.leases ++ [(job.id, lease)] := rfl
    refine ⟨?_, hstage, ?_, ?_, ?_, hs.leftBehind⟩
    · refine hs.owned.of_iff (fun owner => ?_) fun _ hid => hid
      -- the directory goes from the worker to the lease
      have hone : leased { s with leases := [(job.id, lease)] } =
          (lease.ownedDirectory.map fun directory => (job.id, directory)).toList := by
        cases hdirectory : lease.ownedDirectory with
        | none => simp [leased, hdirectory]
        | some directory => simp [leased, hdirectory]
      rw [owners, owners, hleases, hworker, List.filterMap_append]
      show owner ∈ s.leased ++ leased { s with leases := [(job.id, lease)] } ↔
        owner ∈ (lease.ownedDirectory.map fun directory => (job.id, directory)).toList ++ s.leased
      rw [hone, List.mem_append, List.mem_append]
      exact or_comm
    · rw [hleases, List.map_append]
      refine List.nodup_append.2 ⟨hs.nodup, List.nodup_singleton _, ?_⟩
      rintro id hid id' hid' rfl
      obtain rfl := List.mem_singleton.1 hid'
      exact hnew (hs.answered_of_lease hid)
    · rw [hleases]
      intro id lease' hlease'
      rcases List.mem_append.1 hlease' with hlease' | hlease'
      · exact hold id lease' hlease'
      · obtain ⟨rfl, rfl⟩ := Prod.mk.inj (List.mem_singleton.1 hlease')
        exact ⟨_, List.mem_append_right _ (List.mem_singleton_self _), rfl⟩
    · rw [hleases]
      refine fun id hid => ⟨fun hmem => ?_, hcommitted id hid⟩
      rw [List.map_append] at hmem
      rcases List.mem_append.1 hmem with hmem | hmem
      · exact (hs.committed id hid).1 hmem
      · obtain rfl := List.mem_singleton.1 hmem
        obtain ⟨-, response, lease', hresponse, -⟩ := hs.committed job.id hid
        exact hnew (List.mem_map.2 ⟨_, hresponse, rfl⟩)

/-- The directories after a step of the run. -/
theorem owners_of_run {run : CacheRun} {stage : RunStage} {runEvent : RunEvent}
    {outcome : RunOutcome} {set : Bool}
    (hrun : run.Moves root s.files set stage runEvent outcome) :
    ((s.withFiles run.job.id outcome).withProgress run.job outcome.progress).owners =
      CacheRun.ownersOf run.job.id outcome.progress.directory s.leased := by
  cases hprogress : outcome.progress with
  | going run' stage' =>
    have hjob := (hrun.going hprogress).1
    show (run'.ownedDirectory.map fun directory => (run'.job.id, directory)).toList ++ s.leased = _
    rw [hjob]
    rfl
  | done result =>
    cases result with
    | error error => rfl
    | ok lease => rfl

theorem kept_of_run (hs : s.Kept root) (haccounted : s.Accounted) {run : CacheRun}
    {stage : RunStage} {runEvent : RunEvent} {outcome : RunOutcome}
    (hworker : s.worker = .running run stage)
    (hrun : run.Moves root s.files (s.cancelled.contains run.job.id) stage runEvent outcome) :
    ((s.withFiles run.job.id outcome).withProgress run.job outcome.progress).Kept root := by
  have hjob : s.worker.job = some run.job := by
    rw [hworker]
    rfl
  have hconsistent := hs.stage run stage hworker
  have howned : Owned root s.files (CacheRun.ownersOf run.job.id run.ownedDirectory s.leased)
      s.Released := by
    have howners : s.owners = CacheRun.ownersOf run.job.id run.ownedDirectory s.leased := by
      rw [owners, hworker]
      rfl
    rw [← howners]
    exact hs.owned
  -- The request of the run has been begun, so what it leaves behind is that of a run.
  have hbegun : run.job.id ∈ s.runs := by
    rw [← List.count_pos_iff, haccounted.runs, hjob]
    simp [jobId]
  have hreleased : ∀ id, s.Released id ∨ outcome.leftBehind = true ∧ id = run.job.id →
      ((s.withFiles run.job.id outcome).withProgress run.job outcome.progress).Released id := by
    intro id hid
    have hfields : ((s.withFiles run.job.id outcome).withProgress run.job
        outcome.progress).Released id ↔
          id ∈ s.leftBehind ++ (if outcome.leftBehind then [run.job.id] else []) ∨
            id ∈ s.committed := by
      cases outcome.progress with
      | going run' stage' => exact Iff.rfl
      | done result => exact Iff.rfl
    refine hfields.2 ?_
    rcases hid with (hleft | hcommitted) | ⟨hleft, rfl⟩
    · exact Or.inl (List.mem_append_left _ hleft)
    · exact Or.inr hcommitted
    · refine Or.inl (List.mem_append_right _ ?_)
      rw [hleft]
      exact List.mem_singleton_self _
  have hnext := hrun.owned hconsistent (hs.leased_ne_worker haccounted hjob) hreleased howned
  have howners := owners_of_run hrun
  have hleftBehind : ∀ id ∈ s.leftBehind ++ (if outcome.leftBehind then [run.job.id] else []),
      id ∈ s.runs := by
    intro id hid
    rcases List.mem_append.1 hid with hid | hid
    · exact hs.leftBehind id hid
    · split at hid
      · exact List.mem_singleton.1 hid ▸ hbegun
      · exact absurd hid List.not_mem_nil
  -- The run goes on, with its directory, or it ends: then the directory is leased or given up.
  cases hprogress : outcome.progress with
  | going run' stage' =>
    rw [hprogress] at hnext howners
    refine ⟨howners ▸ hnext, ?_, hs.nodup, hs.leases, hs.committed, hleftBehind⟩
    intro run'' stage'' hrunning
    obtain ⟨rfl, rfl⟩ := CacheWorker.running.inj hrunning
    exact hrun.consistent hconsistent hprogress
  | done result =>
    rw [hprogress] at hnext howners
    refine ⟨howners ▸ hnext, ?_, hs.nodup, hs.leases, hs.committed, hleftBehind⟩
    exact fun run'' stage'' hrunning => absurd hrunning (by simp [withProgress])

theorem Moves.kept (h : s.Moves root event s') (haccounted : s.Accounted) (hs : s.Kept root) :
    s'.Kept root := by
  cases h with
  | submit request hcall => exact hs.of_eq rfl hs.stage rfl rfl rfl rfl rfl fun _ hid => hid
  | activate hcall => exact hs.of_eq rfl hs.stage rfl rfl rfl rfl rfl fun _ hid => hid
  | place hcall => exact hs.of_eq rfl hs.stage rfl rfl rfl rfl rfl fun _ hid => hid
  | wake hcall => exact hs.of_eq rfl hs.stage rfl rfl rfl rfl rfl fun _ hid => hid
  | cancel hcall => exact hs.of_eq rfl hs.stage rfl rfl rfl rfl rfl fun _ hid => hid
  | cancelPending hcall => exact hs.of_eq rfl hs.stage rfl rfl rfl rfl rfl fun _ hid => hid
  | receive hworker hwake =>
    refine hs.of_eq (by rw [hworker]; rfl) ?_ rfl rfl rfl rfl rfl fun _ hid => hid
    exact fun run stage hrunning => absurd hrunning (by simp)
  | @take job hworker hpending =>
    refine hs.of_eq (by rw [hworker]; rfl) ?_ rfl rfl rfl rfl rfl ?_
    · intro run stage hrunning
      obtain ⟨rfl, rfl⟩ := CacheWorker.running.inj hrunning
      exact rfl
    · exact fun id hid => List.mem_append_left _ hid
  | takeNone hworker hpending =>
    refine hs.of_eq (by rw [hworker]; rfl) ?_ rfl rfl rfl rfl rfl fun _ hid => hid
    exact fun run stage hrunning => absurd hrunning (by simp)
  | run hworker hrun => exact kept_of_run hs haccounted hworker hrun
  | @clear job result hworker =>
    refine hs.of_eq ?_ ?_ rfl rfl rfl rfl rfl fun _ hid => hid
    · rw [hworker]
      cases result with
      | error error => rfl
      | ok lease => rfl
    · exact fun run stage hrunning => absurd hrunning (by simp)
  | @respond job result hworker => exact kept_of_respond hs haccounted hworker
  | dropLease removal hlease => exact kept_of_dropLease hs haccounted (mem_of_lookup hlease) removal
  | commitLease hlease => exact kept_of_commitLease hs haccounted (mem_of_lookup hlease)
  | @others files hfiles =>
    refine ⟨hs.owned.others ?_, hs.stage, hs.nodup, hs.leases, hs.committed, hs.leftBehind⟩
    intro entry hentry
    obtain ⟨file, hfile, rfl⟩ := List.mem_map.1 hentry
    exact ⟨rfl, hfiles file hfile⟩

/-! ## What a step leaves of the files -/

/-- What a step removes is below a directory that its request gives up, unless it is not the
service's. -/
theorem Moves.mem_files_or (h : s.Moves root event s') (hevent : ∀ files, event ≠ .others files)
    (haccounted : s.Accounted) (hs : s.Kept root) {entry : CacheFile} (hentry : entry ∈ s.files) :
    entry ∈ s'.files ∨ ∃ owner ∈ s.owners, owner.2 <+: entry.path ∧ owner ∉ s'.owners := by
  cases h with
  | submit _ _ | activate _ | place _ | wake _ | cancel _ | cancelPending _ | receive _ _ | take _ _
  | takeNone _ _ | clear _ | respond _ | commitLease _ => exact Or.inl hentry
  -- Only the clean-up of a run removes anything, and then the run has given its directory up.
  | @run run stage runEvent outcome hworker hrun =>
    have howners := owners_of_run hrun
    have hfiles : ((s.withFiles run.job.id outcome).withProgress run.job
        outcome.progress).files = outcome.files := by
      cases outcome.progress with
      | going run' stage' => rfl
      | done result => rfl
    rw [hfiles, howners]
    refine (hrun.mem_files_or hentry).imp (fun hkept => hkept) ?_
    intro hremoved
    obtain ⟨directory, hdirectory, hbelow, hnone⟩ := hremoved
    refine ⟨(run.job.id, directory), ?_, hbelow, ?_⟩
    · rw [owners, hworker]
      refine List.mem_append_left _ ?_
      show (run.job.id, directory) ∈ (run.ownedDirectory.map _).toList
      rw [hdirectory]
      exact List.mem_singleton_self _
    · rw [hnone]
      intro hmem
      exact hs.leased_ne_worker haccounted (by rw [hworker]; rfl) _ hmem rfl
  -- A lease that is dropped takes its directory with it, as far as that can be removed.
  | @dropLease id lease removal hlease =>
    have hmem := mem_of_lookup hlease
    have hid : id ∈ s.leases.map Prod.fst := List.mem_map.2 ⟨_, hmem, rfl⟩
    unfold ComposerCache.dropLease
    cases hdirectory : lease.ownedDirectory with
    | none => exact Or.inl hentry
    | some directory =>
      by_cases hbelow : directory <+: entry.path
      · refine Or.inr ⟨(id, directory), ?_, hbelow, ?_⟩
        · exact List.mem_append_right _ (mem_leased.2 ⟨lease, hmem, hdirectory⟩)
        · exact fun howner =>
            ((hs.mem_owners_withoutLease haccounted hid _).1 howner).2 rfl
      · refine Or.inl ?_
        cases removal with
        | removed => exact List.mem_filter.2 ⟨hentry, by simp [hbelow]⟩
        | failed left error => exact List.mem_filter.2 ⟨hentry, by simp [hbelow]⟩
  | others _ => exact absurd rfl (hevent _)

/-- What a step makes is the worker's. -/
theorem Moves.maker_of_new (h : s.Moves root event s') (hevent : ∀ files, event ≠ .others files)
    {entry : CacheFile} (hentry : entry ∈ s'.files) :
    entry ∈ s.files ∨ ∃ id, entry.maker = some id := by
  cases h with
  | submit _ _ | activate _ | place _ | wake _ | cancel _ | cancelPending _ | receive _ _ | take _ _
  | takeNone _ _ | clear _ | respond _ | commitLease _ => exact Or.inl hentry
  | @run run stage runEvent outcome hworker hrun =>
    have hfiles : ((s.withFiles run.job.id outcome).withProgress run.job
        outcome.progress).files = outcome.files := by
      cases outcome.progress with
      | going run' stage' => rfl
      | done result => rfl
    rw [hfiles] at hentry
    exact (hrun.maker_of_new hentry).imp (fun hold => hold) fun hmaker => ⟨_, hmaker⟩
  | @dropLease id lease removal hlease =>
    unfold ComposerCache.dropLease at hentry
    split at hentry
    · exact Or.inl hentry
    · cases removal with
      | removed => exact Or.inl (List.mem_of_mem_filter hentry)
      | failed left error => exact Or.inl (List.mem_of_mem_filter hentry)
  | others _ => exact absurd rfl (hevent _)

/-- Below a directory that a request keeps, every step leaves what is there. -/
theorem Moves.mem_files_of_owner (h : s.Moves root event s') (haccounted : s.Accounted)
    (hs : s.Kept root) {owner : Nat × CachePath} (howner : owner ∈ s.owners)
    (howner' : owner ∈ s'.owners) {entry : CacheFile} (hentry : entry ∈ s.files)
    (hbelow : owner.2 <+: entry.path) : entry ∈ s'.files := by
  by_cases hevent : ∀ files, event ≠ .others files
  · refine (h.mem_files_or hevent haccounted hs hentry).resolve_right fun hremoved => ?_
    obtain ⟨other, hother, hbelow', hgone⟩ := hremoved
    exact hgone (hs.owned.eq_of_prefixes howner hother hbelow hbelow' ▸ howner')
  · obtain ⟨files, hothers⟩ := not_forall_not.1 hevent
    subst hothers
    cases h with
    | others hfiles =>
      refine List.mem_append_left _ (List.mem_filter.2 ⟨hentry, ?_⟩)
      exact List.any_eq_true.2 ⟨owner, howner, decide_eq_true hbelow⟩

/-! ## Every run -/

/-- **What becomes of the files.** Whatever a request has made is below its own directory, no two
directories have anything in common, and nothing of a request stays that failed, was passed over or
has given up its lease, except what could not be removed. The files of the user and those that the
composer has taken over are left alone by every step, and so are those of a lease that is out.
`others` stands for the rest of the system, which may change what is not below a directory of the
service. -/
structure CleansUp (root : CachePath) (s : ComposerCache) : Prop where
  /-- what the service has made is in the directory of a request that is prepared or whose lease is
  out, was taken over by the composer, or could not be removed -/
  accounted : ∀ entry ∈ s.files, ∀ id, entry.maker = some id →
    (id ∈ s.leftBehind ∨ id ∈ s.committed) ∨
      ∃ owner ∈ s.owners, owner.1 = id ∧ owner.2 <+: entry.path
  apart : ∀ owner ∈ s.owners, ∀ other ∈ s.owners, owner.2 <+: other.2 → owner = other
  own : ∀ owner ∈ s.owners, ∀ entry ∈ s.files, owner.2 <+: entry.path →
    entry.maker = some owner.1
  failed : ∀ id response error, (id, response) ∈ s.responses → response.result = .error error →
    id ∉ s.leases.map Prod.fst ∧ id ∉ s.committed
  /-- nothing is left of a request that failed or whose lease was dropped -/
  settled : ∀ id ∈ s.responses.map Prod.fst, id ∉ s.leases.map Prod.fst → id ∉ s.committed →
    id ∉ s.leftBehind → ∀ entry ∈ s.files, entry.maker ≠ some id
  /-- a request that was passed over has made nothing -/
  dropped : ∀ id ∈ s.dropped, ∀ entry ∈ s.files, entry.maker ≠ some id
  /-- no step of the service makes or removes a file of the user -/
  users : ∀ event s', s.step root event = some s' → (∀ files, event ≠ .others files) →
    ∀ entry, entry.maker = none → (entry ∈ s'.files ↔ entry ∈ s.files)
  /-- nor one that the composer has taken over -/
  takenOver : ∀ event s', s.step root event = some s' → (∀ files, event ≠ .others files) →
    ∀ entry ∈ s.files, ∀ id ∈ s.committed, entry.maker = some id → entry ∈ s'.files
  held : ∀ event s', s.step root event = some s' → ∀ owner ∈ s.owners, owner ∈ s'.owners →
    ∀ entry ∈ s.files, owner.2 <+: entry.path → entry ∈ s'.files

theorem kept_of_run_steps {files : List (CachePath × Option Bytes)}
    {trace : List (ComposerCache × CacheEvent)}
    (h : Run (Steps (step root)) (initial files) trace s) : s.Accounted ∧ s.Kept root := by
  have hinitial : (initial files).Accounted ∧ (initial files).Kept root :=
    ⟨accounted_initial files, kept_initial root files⟩
  refine h.invariant (I := fun s => s.Accounted ∧ s.Kept root) ?_ hinitial
  rintro t event u ⟨haccounted, hkept⟩ hstep
  have hmoves := moves_of_step hstep
  exact ⟨hmoves.accounted haccounted, hmoves.kept haccounted hkept⟩

/-- An owner is the worker's request, or one whose lease is out. -/
theorem owner_cases {owner : Nat × CachePath} (howner : owner ∈ s.owners) :
    (∃ job, s.worker.job = some job ∧ owner.1 = job.id) ∨ owner.1 ∈ s.leases.map Prod.fst := by
  rcases List.mem_append.1 howner with hmine | hleased
  · exact Or.inl (worker_of_owner (Option.mem_toList.1 hmine))
  · obtain ⟨lease, hlease, -⟩ := mem_leased.1 hleased
    exact Or.inr (List.mem_map.2 ⟨_, hlease, rfl⟩)

theorem Kept.not_maker_of_settled (h : s.Kept root) (haccounted : s.Accounted) {id : Nat}
    (hid : id ∈ s.responses.map Prod.fst) (hlease : id ∉ s.leases.map Prod.fst)
    (hreleased : ¬ s.Released id) {entry : CacheFile} (hentry : entry ∈ s.files) :
    entry.maker ≠ some id := by
  intro hmaker
  obtain ⟨owner, howner, rfl, -⟩ :=
    (h.owned.accounted entry hentry id hmaker).resolve_left hreleased
  rcases owner_cases howner with ⟨job, hjob, hsame⟩ | hmem
  · exact haccounted.worker_not_answered hjob hid hsame
  · exact hlease hmem

/-- Where what a request has made may be, the request was run. -/
theorem Kept.mem_runs_of_maker (h : s.Kept root) (haccounted : s.Accounted) {id : Nat}
    {entry : CacheFile} (hentry : entry ∈ s.files) (hmaker : entry.maker = some id) :
    id ∈ s.runs := by
  have hanswered : id ∈ s.responses.map Prod.fst → id ∈ s.runs := by
    intro hid
    rw [← List.count_pos_iff, haccounted.runs]
    have hone := List.count_pos_iff.2 hid
    omega
  rcases h.owned.accounted entry hentry id hmaker with (hleft | hcommitted) |
    ⟨owner, howner, rfl, -⟩
  · exact h.leftBehind id hleft
  · obtain ⟨-, response, lease, hresponse, -⟩ := h.committed id hcommitted
    exact hanswered (List.mem_map.2 ⟨_, hresponse, rfl⟩)
  · rcases owner_cases howner with ⟨job, hjob, hsame⟩ | hmem
    · rw [← List.count_pos_iff, haccounted.runs, hjob, hsame]
      simp [jobId]
    · exact hanswered (h.answered_of_lease hmem)

theorem cleansUp_of_kept (haccounted : s.Accounted) (h : s.Kept root) : s.CleansUp root := by
  constructor
  case accounted => exact h.owned.accounted
  case apart =>
    intro owner howner other hother hbelow
    exact h.owned.eq_of_prefixes howner hother hbelow List.prefix_rfl
  case own => exact h.owned.own
  -- A lease is out, or was committed, only with a response that has it.
  case failed =>
    intro id response error hresponse herror
    refine ⟨fun hid => ?_, fun hid => ?_⟩
    · obtain ⟨⟨id, lease⟩, hlease, rfl⟩ := List.mem_map.1 hid
      obtain ⟨response', hresponse', hok⟩ := h.leases id lease hlease
      rw [haccounted.response_unique hresponse hresponse', hok] at herror
      exact absurd herror (by simp)
    · obtain ⟨-, response', lease, hresponse', hok⟩ := h.committed id hid
      rw [haccounted.response_unique hresponse hresponse', hok] at herror
      exact absurd herror (by simp)
  case settled =>
    intro id hid hlease hcommitted hleft entry hentry
    exact h.not_maker_of_settled haccounted hid hlease
      (fun hreleased => hreleased.elim hleft hcommitted) hentry
  case dropped =>
    intro id hid entry hentry hmaker
    have hrun := List.count_pos_iff.2 (h.mem_runs_of_maker haccounted hentry hmaker)
    have hplaces := List.nodup_iff_count_le_one.1 haccounted.nodup_places id
    have hdropped := List.count_pos_iff.2 hid
    rw [haccounted.runs] at hrun
    rw [count_places] at hplaces
    omega
  -- A file that no request has made is below none of the directories.
  case users =>
    intro event s' hstep hevent entry hmaker
    have hmoves := moves_of_step hstep
    constructor
    · intro hentry
      refine (hmoves.maker_of_new hevent hentry).resolve_right fun hid => ?_
      exact hid.elim fun id hid => absurd (hmaker.symm.trans hid) (by simp)
    · intro hentry
      refine (hmoves.mem_files_or hevent haccounted h hentry).resolve_right fun hremoved => ?_
      obtain ⟨owner, howner, hbelow, -⟩ := hremoved
      exact absurd (hmaker.symm.trans (h.owned.own owner howner entry hentry hbelow)) (by simp)
  -- What was taken over is below no directory any more: its request is answered, hence not with the
  -- worker, and its lease is gone.
  case takenOver =>
    intro event s' hstep hevent entry hentry id hid hmaker
    refine ((moves_of_step hstep).mem_files_or hevent haccounted h hentry).resolve_right ?_
    intro hremoved
    obtain ⟨owner, howner, hbelow, -⟩ := hremoved
    have hsame := Option.some.inj
      (hmaker.symm.trans (h.owned.own owner howner entry hentry hbelow))
    obtain ⟨hnot, response, lease, hresponse, -⟩ := h.committed id hid
    rcases owner_cases howner with ⟨job, hjob, hjobId⟩ | hmem
    · have hanswered : id ∈ s.responses.map Prod.fst := List.mem_map.2 ⟨_, hresponse, rfl⟩
      exact haccounted.worker_not_answered hjob hanswered (hsame.trans hjobId)
    · exact hnot (hsame ▸ hmem)
  case held =>
    intro event s' hstep owner howner howner' entry hentry hbelow
    exact (moves_of_step hstep).mem_files_of_owner haccounted h howner howner' hentry hbelow

/-! ## Directories that could not be removed -/

end ComposerCache

namespace CacheEvent

/-- The file system refuses to remove a directory. -/
def leaves : CacheEvent → Bool
  | run (.makeRequestDirectory _ (.permissionsFailed _ removed)) => !removed
  | run (.cleanup (.failed _ _)) | dropLease _ (.failed _ _) => true
  | _ => false

end CacheEvent

namespace CacheRun

variable {root : CachePath} {files : List CacheFile} {set : Bool} {run : CacheRun}
  {stage : RunStage} {event : RunEvent} {outcome : RunOutcome}

theorem Moves.leaves (h : run.Moves root files set stage event outcome)
    (hleft : outcome.leftBehind = true) : (CacheEvent.run event).leaves = true := by
  cases h with
  | refused _ | startCancelled _ | started _ _ | cancelled _ _ | finished _ _ | source _ _
  | reused _ | absent _ | loadFailed _ | overLimit _ | loaded _ _ | needsDirectory _ _
  | hasDirectory _ _ | requestDirectoryFailed _ | sourceDirectoryFailed _ | pushed _
  | nothingToClean _ | requestDirectory _ | sourceDirectoryLeft _ | sourceDirectory _ | wrote
  | writeFailed | cleaned _ => exact absurd hleft (by simp)
  | requestDirectoryLeft _ => rfl
  | cleanupFailed _ => rfl

end CacheRun

namespace ComposerCache

variable {root : CachePath} {s s' : ComposerCache} {event : CacheEvent}

theorem Moves.leftBehind_eq (h : s.Moves root event s') (hevent : event.leaves = false) :
    s'.leftBehind = s.leftBehind := by
  cases h with
  | submit _ _ | activate _ | place _ | wake _ | cancel _ | cancelPending _ | receive _ _ | take _ _
  | takeNone _ _ | clear _ | respond _ | commitLease _ | others _ => rfl
  | @run run stage runEvent outcome hworker hrun =>
    have hfields : ((s.withFiles run.job.id outcome).withProgress run.job
        outcome.progress).leftBehind =
          s.leftBehind ++ if outcome.leftBehind then [run.job.id] else [] := by
      cases outcome.progress with
      | going run' stage' => rfl
      | done result => rfl
    rw [hfields]
    cases hleft : outcome.leftBehind with
    | true => exact absurd (hrun.leaves hleft) (by simp [hevent])
    | false => exact List.append_nil _
  | @dropLease id lease removal hlease =>
    unfold ComposerCache.dropLease
    split
    · rfl
    · cases removal with
      | removed => exact List.append_nil _
      | failed left error => exact absurd hevent (by simp [CacheEvent.leaves])

/-- Nothing is left behind while every removal succeeds. -/
theorem leftBehind_of_run {files : List (CachePath × Option Bytes)}
    {trace : List (ComposerCache × CacheEvent)}
    (h : Run (Steps (step root)) (initial files) trace s)
    (htrace : ∀ p ∈ trace, p.2.leaves = false) : s.leftBehind = [] := by
  refine h.invariant_of_steps (I := fun s => s.leftBehind = [])
    (G := fun _ event => event.leaves = false) ?_ rfl htrace
  intro t event u hnone hevent hstep
  rw [(moves_of_step hstep).leftBehind_eq hevent]
  exact hnone

/-- **The directories are cleaned up.** Whatever the order of the calls, of the worker's steps and
of what becomes of the leases, and whichever operation of the file system fails, the files fare as
`CleansUp` says; and no directory is left behind unless the file system has refused to remove one.
-/
theorem cache_directories_cleaned_up {files : List (CachePath × Option Bytes)}
    {trace : List (ComposerCache × CacheEvent)}
    (h : Run (Steps (step root)) (initial files) trace s) :
    s.CleansUp root ∧ ((∀ p ∈ trace, p.2.leaves = false) → s.leftBehind = []) := by
  obtain ⟨haccounted, hkept⟩ := kept_of_run_steps h
  exact ⟨cleansUp_of_kept haccounted hkept, leftBehind_of_run h⟩

/-- A request is cancelled when its first source is written, and a second one whose source is a
file of the user. -/
def cancelledThenReused : List CacheEvent :=
  [.submit ⟨1, [.shared [] [0], .shared [] [1]]⟩, .activate, .place, .wake, .receive, .take,
    .run .look, .run .look, .run .testSource, .run (.load (.ok [])), .run .look,
    .run (.makeRequestDirectory [] .made), .run (.makeSourceDirectory .made),
    .run (.write .written), .cancel, .cancelPending, .run .look, .run (.cleanup .removed), .clear,
    .respond, .take, .submit ⟨2, [.owned [] [2] (some [['a']])]⟩, .activate, .place, .wake,
    .receive, .take, .run .look, .run .look, .run .testSource, .run .look, .clear, .respond]

/-- The copies are gone, the file of the user is not, and it is the path of the second answer. -/
theorem cancelled_then_reused_cleaned_up :
    ∃ s, exec (step []) (initial [([['a']], some [2])]) cancelledThenReused = some s ∧
      s.files = [⟨[['a']], none, some [2]⟩] ∧
        s.leases.map (fun lease => lease.2.paths) = [[[['a']]]] ∧
      s.CleansUp [] := by
  have hrun : (exec (step []) (initial [([['a']], some [2])]) cancelledThenReused).map
      (fun s => (s.files, s.leases.map fun lease => lease.2.paths)) =
        some ([⟨[['a']], none, some [2]⟩], [[[['a']]]]) := by decide
  obtain ⟨s, hs, hends⟩ := Option.map_eq_some_iff.1 hrun
  obtain ⟨hfiles, hleases⟩ := Prod.mk.inj hends
  have hrun := run_of_exec cancelledThenReused hs
  exact ⟨s, hs, hfiles, hleases, (cache_directories_cleaned_up hrun).1⟩

end ComposerCache

end Notm.Ui
