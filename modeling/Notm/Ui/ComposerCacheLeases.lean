import Notm.Ui.ComposerCacheFiles

/-!
# What a lease of the composer's attachment cache holds

A lease has one path for each source of its request, in their order: the file that the user
selected, or a copy in a directory that no other source has. The copies stay as they were written
until the lease is dropped or the composer takes them over.

What a copy holds is what the run of its request has read. A source in memory is read as its own
bytes; a source in a message is read from a file, and what was read is told by the trace: the
answer to the load that the worker made for this source, at this place of the request (`Loaded`).

Main results:

* `Moves.lays`: one step of a run keeps what it has done so far laid out, source after source.
* `Moves.complete`: nothing that happens elsewhere touches the copies of a lease that stays out.
* `laysOut_of_trace`: both together, over every interleaving of the service.
* `lease_paths_laid`: a lease that is out has a path for each source, the copies on disk with the
  bytes that were read and at most 32 MiB in all.
-/

namespace Notm.Ui

open Rust Transition Calls

/-! ## Sources and their paths -/

namespace ComposerAttachmentSource

/-- The copy of a source in the directory of a number. -/
def copyPath (source : ComposerAttachmentSource) (directory : CachePath) (number : Nat) :
    CachePath :=
  directory ++ [natText number] ++ [sanitizeAttachmentFilename source.filename]

theorem prefix_copyPath (source : ComposerAttachmentSource) (directory : CachePath)
    (number : Nat) : directory <+: source.copyPath directory number :=
  (List.prefix_append _ _).trans (List.prefix_append _ _)

end ComposerAttachmentSource

/-- What a run has read for its sources: the sources before, the source and its bytes. A source
that stands twice in a request is read twice, and the sources before tell the two apart. -/
abbrev SourceReads := List ComposerAttachmentSource → ComposerAttachmentSource → Bytes → Prop

/-- **The paths of some sources.** Each is the file that the user selected, or a copy in the
directory of the next number, which is on disk and has the bytes that were read for this source.
There are `count` copies, of `total` bytes in all. -/
inductive Laid (reads : SourceReads) (files : List CacheFile) (id : Nat)
    (owned : Option CachePath) :
    List ComposerAttachmentSource → List CachePath → Nat → Nat → Prop where
  | nil : Laid reads files id owned [] [] 0 0
  | reused {sources : List ComposerAttachmentSource} {paths : List CachePath} {count total : Nat}
      {source : ComposerAttachmentSource} {path : CachePath}
      (h : Laid reads files id owned sources paths count total)
      (hpath : source.sourcePath = some path) :
      Laid reads files id owned (sources ++ [source]) (paths ++ [path]) count total
  | cached {sources : List ComposerAttachmentSource} {paths : List CachePath} {count total : Nat}
      {source : ComposerAttachmentSource} {directory : CachePath} {bytes : Bytes}
      (h : Laid reads files id owned sources paths count total)
      (howned : owned = some directory) (hloaded : reads sources source bytes)
      (hfile : ⟨source.copyPath directory count, some id, some bytes⟩ ∈ files) :
      Laid reads files id owned (sources ++ [source])
        (paths ++ [source.copyPath directory count]) (count + 1) (total + bytes.length)

namespace Laid

variable {reads reads' : SourceReads} {files files' : List CacheFile} {id : Nat}
  {owned : Option CachePath} {sources : List ComposerAttachmentSource} {paths : List CachePath}
  {count total : Nat}

theorem length_eq (h : Laid reads files id owned sources paths count total) :
    paths.length = sources.length := by
  induction h with
  | nil => rfl
  | reused _ _ ih => rw [List.length_append, List.length_append, ih]; rfl
  | cached _ _ _ _ ih => rw [List.length_append, List.length_append, ih]; rfl

/-- The files below the directory are still there, and what has been read stays read. -/
theorem mono (h : Laid reads files id owned sources paths count total)
    (hloads : ∀ before source bytes, reads before source bytes → reads' before source bytes)
    (hfiles : ∀ directory, owned = some directory → ∀ entry ∈ files, directory <+: entry.path →
      entry ∈ files') : Laid reads' files' id owned sources paths count total := by
  induction h with
  | nil => exact .nil
  | reused _ hpath ih => exact .reused ih hpath
  | cached _ howned hloaded hfile ih =>
    refine .cached ih howned (hloads _ _ _ hloaded) (hfiles _ howned _ hfile ?_)
    exact ComposerAttachmentSource.prefix_copyPath _ _ _

/-- Without a directory nothing was copied. -/
theorem of_none (h : Laid reads files id none sources paths count total)
    (owned' : Option CachePath) : Laid reads files' id owned' sources paths count total := by
  induction h with
  | nil => exact .nil
  | reused _ hpath ih => exact .reused ih hpath
  | cached _ howned _ _ _ => exact absurd howned (by simp)

end Laid

/-! ## A run -/

namespace CacheRun

/-- The sources `before` this one, which is `source` if the run is at one, are done. -/
def Before (reads : SourceReads) (files : List CacheFile) (run : CacheRun)
    (before : List ComposerAttachmentSource) (source : Option ComposerAttachmentSource)
    (count total : Nat) : Prop :=
  run.job.request.sources = before ++ source.toList ++ run.remaining ∧
    Laid reads files run.job.id run.ownedDirectory before run.paths count total

/-- The source was read as these bytes, which the limit allows, and those before it are done. -/
def Holds (reads : SourceReads) (files : List CacheFile) (run : CacheRun)
    (source : ComposerAttachmentSource) (bytes : Bytes) (count : Nat) : Prop :=
  run.cachedBytes ≤ maxComposerCacheBytes ∧
    ∃ before total, reads before source bytes ∧ run.cachedBytes = total + bytes.length ∧
      run.Before reads files before (some source) count total

section

variable {reads reads' : SourceReads} {files files' : List CacheFile} {run : CacheRun}
  {before : List ComposerAttachmentSource} {source : Option ComposerAttachmentSource}
  {count total : Nat}

theorem Before.mono (h : run.Before reads files before source count total)
    (hloads : ∀ before source bytes, reads before source bytes → reads' before source bytes)
    (hfiles : ∀ directory, run.ownedDirectory = some directory → ∀ entry ∈ files,
      directory <+: entry.path → entry ∈ files') :
    run.Before reads' files' before source count total :=
  ⟨h.1, h.2.mono hloads hfiles⟩

theorem Holds.mono {source : ComposerAttachmentSource} {bytes : Bytes}
    (h : run.Holds reads files source bytes count)
    (hloads : ∀ before source bytes, reads before source bytes → reads' before source bytes)
    (hfiles : ∀ directory, run.ownedDirectory = some directory → ∀ entry ∈ files,
      directory <+: entry.path → entry ∈ files') : run.Holds reads' files' source bytes count := by
  obtain ⟨hlimit, before, total, hloaded, htotal, hbefore⟩ := h
  exact ⟨hlimit, before, total, hloads _ _ _ hloaded, htotal, hbefore.mono hloads hfiles⟩

end

end CacheRun

namespace RunStage

/-- What is done of the sources at a stage. From `loaded` on the bytes of the present source are
in the run's hands; from `written` on they are in its file. -/
def Lays (reads : SourceReads) (files : List CacheFile) (run : CacheRun) : RunStage → Prop
  | start | next => run.cachedBytes ≤ maxComposerCacheBytes ∧
      ∃ before, run.Before reads files before none run.materializedSources run.cachedBytes
  | existing source | loading source => run.cachedBytes ≤ maxComposerCacheBytes ∧
      ∃ before, run.Before reads files before (some source) run.materializedSources
        run.cachedBytes
  | loaded source bytes | requestDirectory source bytes =>
    run.Holds reads files source bytes run.materializedSources
  | sourceDirectory source bytes directory =>
    run.ownedDirectory = some directory ∧
      run.Holds reads files source bytes run.materializedSources
  | writing directory filename bytes => ∃ source owned count,
      run.ownedDirectory = some owned ∧ run.materializedSources = count + 1 ∧
        directory ++ [filename] = source.copyPath owned count ∧
        run.Holds reads files source bytes count
  | written path => ∃ source owned count bytes,
      run.ownedDirectory = some owned ∧ run.materializedSources = count + 1 ∧
        path = source.copyPath owned count ∧ ⟨path, some run.job.id, some bytes⟩ ∈ files ∧
        run.Holds reads files source bytes count
  | failed _ => True

/-- What is done stays done while the files below the directory stay. -/
theorem Lays.mono {reads reads' : SourceReads} {files files' : List CacheFile} {run : CacheRun}
    {stage : RunStage} (h : stage.Lays reads files run)
    (hloads : ∀ before source bytes, reads before source bytes → reads' before source bytes)
    (hfiles : ∀ directory, run.ownedDirectory = some directory → ∀ entry ∈ files,
      directory <+: entry.path → entry ∈ files') : stage.Lays reads' files' run := by
  cases stage with
  | start | next | existing _ | loading _ =>
    obtain ⟨hlimit, before, hbefore⟩ := h
    exact ⟨hlimit, before, hbefore.mono hloads hfiles⟩
  | loaded _ _ | requestDirectory _ _ => exact CacheRun.Holds.mono h hloads hfiles
  | sourceDirectory _ _ _ => exact ⟨h.1, h.2.mono hloads hfiles⟩
  | writing directory filename bytes =>
    obtain ⟨source, owned, count, howned, hcount, hpath, hholds⟩ := h
    exact ⟨source, owned, count, howned, hcount, hpath, hholds.mono hloads hfiles⟩
  | written path =>
    obtain ⟨source, owned, count, bytes, howned, hcount, hpath, hfile, hholds⟩ := h
    refine ⟨source, owned, count, bytes, howned, hcount, hpath, ?_, hholds.mono hloads hfiles⟩
    refine hfiles owned howned _ hfile ?_
    rw [hpath]
    exact source.prefix_copyPath owned count
  | failed _ => exact trivial

end RunStage

namespace CacheRun

variable {root : CachePath} {reads : SourceReads} {files : List CacheFile} {set : Bool}
  {run : CacheRun} {stage : RunStage} {event : RunEvent} {outcome : RunOutcome}

theorem sourcePath_of_existing {source : ComposerAttachmentSource} {path : CachePath}
    (h : source.existingSource files = some path) : source.sourcePath = some path :=
  (Option.filter_eq_some_iff.1 h).1

/-- **One step lays out what it has done.** Where the step is the load of a source, its answer is
what counts as read (`hload`); all other steps read nothing. By cases of the step. -/
theorem Moves.lays (h : run.Moves root files set stage event outcome)
    (hconsistent : stage.Consistent run) (hs : stage.Lays reads files run)
    (hload : ∀ read source before bytes, event = .load read → stage = .loading source →
      run.job.request.sources = before ++ source :: run.remaining →
      loadSource source read = .ok bytes → reads before source bytes)
    {run' : CacheRun} {stage' : RunStage} (hgoing : outcome.progress = .going run' stage') :
    stage'.Lays reads outcome.files run' := by
  have hmore : ∀ new : List CacheFile, ∀ directory, run.ownedDirectory = some directory →
      ∀ entry ∈ files, directory <+: entry.path → entry ∈ files ++ new :=
    fun new _ _ _ hentry _ => List.mem_append_left new hentry
  cases h with
  -- the run ends
  | refused _ | startCancelled _ | finished _ _ | nothingToClean _ | cleaned _ | cleanupFailed _ =>
    exact absurd hgoing (by simp)
  -- the run goes on to its clean-up, where nothing is claimed of the copies
  | cancelled _ _ | loadFailed _ | overLimit _ | requestDirectoryFailed _ | requestDirectoryLeft _
  | sourceDirectoryFailed _ | sourceDirectoryLeft _ | writeFailed =>
    obtain ⟨rfl, rfl⟩ := RunProgress.going.inj hgoing
    exact trivial
  | started _ _ | absent _ | needsDirectory _ _ =>
    obtain ⟨rfl, rfl⟩ := RunProgress.going.inj hgoing
    exact hs
  | hasDirectory howned _ =>
    obtain ⟨rfl, rfl⟩ := RunProgress.going.inj hgoing
    exact ⟨howned, hs⟩
  | source hremaining _ =>
    obtain ⟨rfl, rfl⟩ := RunProgress.going.inj hgoing
    obtain ⟨hlimit, before, hsources, hlaid⟩ := hs
    refine ⟨hlimit, before, ?_, hlaid⟩
    rw [hsources, hremaining]
    simp
  | reused hexisting =>
    obtain ⟨rfl, rfl⟩ := RunProgress.going.inj hgoing
    obtain ⟨hlimit, before, hsources, hlaid⟩ := hs
    refine ⟨hlimit, before ++ [_], ?_, hlaid.reused (sourcePath_of_existing hexisting)⟩
    rw [hsources]
    simp
  -- The sum has not saturated: a total that has would be over the limit.
  | @loaded source read bytes hread hlimit =>
    obtain ⟨rfl, rfl⟩ := RunProgress.going.inj hgoing
    obtain ⟨-, before, hsources, hlaid⟩ := hs
    have hsum : saturatingAdd run.cachedBytes bytes.length = run.cachedBytes + bytes.length := by
      refine saturatingAdd_of_le (Nat.le_of_not_lt fun hover => ?_)
      have hcapped : saturatingAdd run.cachedBytes bytes.length = u64Max :=
        Nat.min_eq_right hover.le
      rw [hcapped] at hlimit
      exact absurd hlimit (by decide)
    have hplace : run.job.request.sources = before ++ source :: run.remaining := by
      rw [hsources]
      simp
    exact ⟨hlimit, before, run.cachedBytes, hload read source before bytes rfl rfl hplace hread,
      hsum, hsources, hlaid⟩
  | requestDirectory _ =>
    obtain ⟨rfl, rfl⟩ := RunProgress.going.inj hgoing
    have hnone : run.ownedDirectory = none := hconsistent
    obtain ⟨hlimit, before, total, hloaded, htotal, hsources, hlaid⟩ := hs
    rw [hnone] at hlaid
    exact ⟨rfl, hlimit, before, total, hloaded, htotal, hsources, hlaid.of_none _⟩
  | sourceDirectory _ =>
    obtain ⟨rfl, rfl⟩ := RunProgress.going.inj hgoing
    exact ⟨_, _, _, hs.1, rfl, rfl, hs.2.mono (fun _ _ _ h => h) (hmore _)⟩
  | wrote =>
    obtain ⟨rfl, rfl⟩ := RunProgress.going.inj hgoing
    obtain ⟨source, owned, count, howned, hcount, hpath, hholds⟩ := hs
    refine ⟨source, owned, count, _, howned, hcount, hpath, ?_,
      hholds.mono (fun _ _ _ h => h) (hmore _)⟩
    exact List.mem_append_right _ (List.mem_singleton_self _)
  -- The copy is written, and its path joins the others.
  | pushed _ =>
    obtain ⟨rfl, rfl⟩ := RunProgress.going.inj hgoing
    obtain ⟨source, owned, count, bytes, howned, hcount, hpath, hfile, hlimit, before, total,
      hloaded, htotal, hsources, hlaid⟩ := hs
    refine ⟨hlimit, before ++ [source], ?_, ?_⟩
    · rw [hsources]
      simp
    · rw [hpath] at hfile ⊢
      rw [hcount, htotal]
      exact hlaid.cached howned hloaded hfile

/-- A run that ends with a lease has laid out all sources. -/
theorem Moves.laid_of_lease (h : run.Moves root files set stage event outcome)
    (hs : stage.Lays reads files run) {lease : ComposerAttachmentCacheLease}
    (hdone : outcome.progress = .done (.ok lease)) :
    outcome.files = files ∧ ∃ count total, total ≤ maxComposerCacheBytes ∧
      Laid reads files run.job.id lease.ownedDirectory run.job.request.sources lease.paths count
        total := by
  cases h with
  | finished hremaining _ =>
    obtain rfl := Except.ok.inj (RunProgress.done.inj hdone)
    obtain ⟨hlimit, before, hsources, hlaid⟩ := hs
    rw [hremaining, List.append_nil] at hsources
    refine ⟨rfl, run.materializedSources, run.cachedBytes, hlimit, ?_⟩
    rw [hsources]
    simpa using hlaid
  | refused _ | startCancelled _ | started _ _ | cancelled _ _ | source _ _ | reused _ | absent _
  | loadFailed _ | overLimit _ | loaded _ _ | needsDirectory _ _ | hasDirectory _ _
  | requestDirectoryFailed _ | requestDirectoryLeft _ | requestDirectory _
  | sourceDirectoryFailed _ | sourceDirectoryLeft _ | sourceDirectory _ | wrote | writeFailed
  | pushed _ | nothingToClean _ | cleaned _ | cleanupFailed _ => exact absurd hdone (by simp)

end CacheRun

/-! ## The service -/

namespace ComposerCache

variable {root : CachePath} {s s' : ComposerCache} {event : CacheEvent}

/-- What has been submitted and read so far, by the numbers of the requests. -/
structure Records where
  submitted : Nat → ComposerAttachmentCacheRequest → Prop
  loaded : Nat → SourceReads

/-- The records only grow. -/
structure Records.Within (records records' : Records) : Prop where
  submitted : ∀ id request, records.submitted id request → records'.submitted id request
  loaded : ∀ id before source bytes, records.loaded id before source bytes →
    records'.loaded id before source bytes

variable {records records' : Records}

/-- The lease of a request is complete. -/
def Complete (records : Records) (files : List CacheFile) (id : Nat)
    (request : ComposerAttachmentCacheRequest) (lease : ComposerAttachmentCacheLease) : Prop :=
  ∃ count total, total ≤ maxComposerCacheBytes ∧
    Laid (records.loaded id) files id lease.ownedDirectory request.sources lease.paths count total

theorem Complete.mono {files files' : List CacheFile} {id : Nat}
    {request : ComposerAttachmentCacheRequest} {lease : ComposerAttachmentCacheLease}
    (h : Complete records files id request lease) (hwithin : records.Within records')
    (hfiles : ∀ directory, lease.ownedDirectory = some directory → ∀ entry ∈ files,
      directory <+: entry.path → entry ∈ files') : Complete records' files' id request lease := by
  obtain ⟨count, total, htotal, hlaid⟩ := h
  exact ⟨count, total, htotal, hlaid.mono (hwithin.loaded id) hfiles⟩

/-- What the worker has done of its job. -/
def WorkerLays (records : Records) (files : List CacheFile) : CacheWorker → Prop
  | .running run stage => stage.Lays (records.loaded run.job.id) files run
  | .prepared job (.ok lease) | .cleared job (.ok lease) =>
    Complete records files job.id job.request lease
  | .receiving | .looping | .prepared _ (.error _) | .cleared _ (.error _) => True

theorem WorkerLays.mono {files files' : List CacheFile} {worker : CacheWorker}
    (h : WorkerLays records files worker) (hwithin : records.Within records')
    (hfiles : ∀ owner, worker.owner = some owner → ∀ entry ∈ files, owner.2 <+: entry.path →
      entry ∈ files') : WorkerLays records' files' worker := by
  cases worker with
  | receiving | looping => exact trivial
  | running run stage =>
    refine RunStage.Lays.mono h (hwithin.loaded _) fun directory hdirectory =>
      hfiles (run.job.id, directory) ?_
    simp [CacheWorker.owner, hdirectory]
  | prepared job result | cleared job result =>
    cases result with
    | error error => exact trivial
    | ok lease =>
      refine Complete.mono h hwithin fun directory hdirectory => hfiles (job.id, directory) ?_
      simp [CacheWorker.owner, hdirectory]

/-- **The invariant.** Every job is that of a request that was submitted, the worker has laid out
what it has done of its job, and every lease is complete. -/
structure LaysOut (records : Records) (s : ComposerCache) : Prop where
  call : ∀ job, s.call.bind CacheCall.job = some job → records.submitted job.id job.request
  pending : ∀ job, s.pending = some job → records.submitted job.id job.request
  held : ∀ job, s.worker.job = some job → records.submitted job.id job.request
  worker : WorkerLays records s.files s.worker
  leases : ∀ id lease, (id, lease) ∈ s.leases →
    ∃ request, records.submitted id request ∧ Complete records s.files id request lease

theorem laysOut_initial (files : List (CachePath × Option Bytes)) :
    (initial files).LaysOut records where
  call := fun _ hjob => absurd hjob (by simp [initial])
  pending := fun _ hjob => absurd hjob (by simp [initial])
  held := fun _ hjob => absurd hjob (by simp [initial, CacheWorker.job])
  worker := trivial
  leases := fun _ _ hlease => absurd hlease List.not_mem_nil

/-- The leases that stay out stay complete. -/
theorem Moves.complete (h : s.Moves root event s') (haccounted : s.Accounted) (hs : s.Kept root)
    {id : Nat} {request : ComposerAttachmentCacheRequest} {lease : ComposerAttachmentCacheLease}
    (hlease : (id, lease) ∈ s.leases) (hlease' : (id, lease) ∈ s'.leases)
    (hwithin : records.Within records') (hcomplete : Complete records s.files id request lease) :
    Complete records' s'.files id request lease := by
  refine hcomplete.mono hwithin fun directory hdirectory entry hentry hbelow => ?_
  have howner : (id, directory) ∈ s.owners :=
    List.mem_append_right _ (mem_leased.2 ⟨lease, hlease, hdirectory⟩)
  have howner' : (id, directory) ∈ s'.owners :=
    List.mem_append_right _ (mem_leased.2 ⟨lease, hlease', hdirectory⟩)
  exact h.mem_files_of_owner haccounted hs howner howner' hentry hbelow

/-- The worker keeps what it has done while other steps are taken. -/
theorem Moves.workerLays (h : s.Moves root event s') (haccounted : s.Accounted) (hs : s.Kept root)
    (hworker : s'.worker.owner = s.worker.owner) (hwithin : records.Within records')
    (hlays : WorkerLays records s.files s.worker) : WorkerLays records' s'.files s.worker := by
  refine hlays.mono hwithin fun owner howner entry hentry hbelow => ?_
  refine h.mem_files_of_owner haccounted hs ?_ ?_ hentry hbelow
  · exact List.mem_append_left _ (Option.mem_toList.2 howner)
  · exact List.mem_append_left _ (Option.mem_toList.2 (hworker.trans howner))

namespace LaysOut

/-- A step after which the worker is as before, and no more leases are out. -/
theorem of_worker (hs : s.LaysOut records) (h : s.Moves root event s') (haccounted : s.Accounted)
    (hkept : s.Kept root) (hwithin : records.Within records')
    (hcall : ∀ job, s'.call.bind CacheCall.job = some job →
      s.call.bind CacheCall.job = some job ∨ records'.submitted job.id job.request)
    (hpending : ∀ job, s'.pending = some job →
      s.pending = some job ∨ s.call.bind CacheCall.job = some job)
    (hworker : s'.worker = s.worker)
    (hleases : ∀ lease ∈ s'.leases, lease ∈ s.leases) : s'.LaysOut records' := by
  refine ⟨?_, ?_, ?_, ?_, ?_⟩
  · exact fun job hjob =>
      (hcall job hjob).elim (fun hold => hwithin.submitted _ _ (hs.call job hold)) fun hnew => hnew
  · intro job hjob
    refine hwithin.submitted _ _ ?_
    rcases hpending job hjob with hold | hnew
    · exact hs.pending job hold
    · exact hs.call job hnew
  · rw [hworker]
    exact fun job hjob => hwithin.submitted _ _ (hs.held job hjob)
  · rw [hworker]
    exact h.workerLays haccounted hkept (congrArg CacheWorker.owner hworker) hwithin hs.worker
  · intro id lease hlease
    obtain ⟨request, hrequest, hcomplete⟩ := hs.leases id lease (hleases _ hlease)
    refine ⟨request, hwithin.submitted id request hrequest, ?_⟩
    exact h.complete haccounted hkept (hleases _ hlease) hlease hwithin hcomplete

/-- A step of the worker. -/
theorem of_held (hs : s.LaysOut records) (h : s.Moves root event s') (haccounted : s.Accounted)
    (hkept : s.Kept root) (hwithin : records.Within records')
    (hcall : s'.call = s.call) (hpending : ∀ job, s'.pending = some job → s.pending = some job)
    (hheld : ∀ job, s'.worker.job = some job → s.worker.job = some job ∨ s.pending = some job)
    (hworker : WorkerLays records' s'.files s'.worker)
    (hleases : s'.leases = s.leases) : s'.LaysOut records' := by
  refine ⟨?_, ?_, ?_, hworker, ?_⟩
  · rw [hcall]
    exact fun job hjob => hwithin.submitted _ _ (hs.call job hjob)
  · exact fun job hjob => hwithin.submitted _ _ (hs.pending job (hpending job hjob))
  · intro job hjob
    refine hwithin.submitted _ _ ?_
    rcases hheld job hjob with hold | hnew
    · exact hs.held job hold
    · exact hs.pending job hnew
  · intro id lease hlease
    have hlease' : (id, lease) ∈ s.leases := hleases ▸ hlease
    obtain ⟨request, hrequest, hcomplete⟩ := hs.leases id lease hlease'
    refine ⟨request, hwithin.submitted id request hrequest, ?_⟩
    exact h.complete haccounted hkept hlease' hlease hwithin hcomplete

end LaysOut

/-- A step of the run that the worker is at. -/
theorem laysOut_of_run (hs : s.LaysOut records) (haccounted : s.Accounted) (hkept : s.Kept root)
    (hwithin : records.Within records') {run : CacheRun}
    {stage : RunStage} {runEvent : RunEvent} {outcome : RunOutcome}
    (hworker : s.worker = .running run stage)
    (hrun : run.Moves root s.files (s.cancelled.contains run.job.id) stage runEvent outcome)
    (hload : ∀ read source before bytes, runEvent = .load read → stage = .loading source →
      run.job.request.sources = before ++ source :: run.remaining →
      CacheRun.loadSource source read = .ok bytes →
      records'.loaded run.job.id before source bytes) :
    ((s.withFiles run.job.id outcome).withProgress run.job outcome.progress).LaysOut
      records' := by
  have hmoves : s.Moves root (.run runEvent) _ := .run hworker hrun
  have hlays : stage.Lays (records'.loaded run.job.id) s.files run := by
    have hworkerLays := hs.worker
    rw [hworker] at hworkerLays
    exact RunStage.Lays.mono hworkerLays (hwithin.loaded _) fun _ _ _ hentry _ => hentry
  have hheld : s.worker.job = some run.job := by
    rw [hworker]
    rfl
  cases hprogress : outcome.progress with
  | going run' stage' =>
    rw [hprogress] at hmoves
    have hjob : run'.job = run.job := (hrun.going hprogress).1
    refine hs.of_held hmoves haccounted hkept hwithin rfl (fun _ hjob => hjob) ?_ ?_ rfl
    · intro job hmem
      obtain rfl := Option.some.inj hmem
      rw [hjob]
      exact Or.inl hheld
    · show stage'.Lays (records'.loaded run'.job.id) outcome.files run'
      rw [hjob]
      exact hrun.lays (hkept.stage run stage hworker) hlays hload hprogress
  | done result =>
    rw [hprogress] at hmoves
    refine hs.of_held hmoves haccounted hkept hwithin rfl (fun _ hjob => hjob) ?_ ?_ rfl
    · intro job hjob
      obtain rfl := Option.some.inj hjob
      exact Or.inl hheld
    · cases result with
      | error error => exact trivial
      | ok lease =>
        obtain ⟨hfiles, hlaid⟩ := hrun.laid_of_lease hlays hprogress
        show Complete records' outcome.files run.job.id run.job.request lease
        rw [hfiles]
        exact hlaid

/-- The lease that is sent is complete, because its run was. -/
theorem laysOut_of_respond (hs : s.LaysOut records) (hwithin : records.Within records')
    {job : ComposerAttachmentCacheJob} {result : Except Str ComposerAttachmentCacheLease}
    (hworker : s.worker = .cleared job result) : (s.respond job result).LaysOut records' := by
  have hlays := hs.worker
  rw [hworker] at hlays
  refine ⟨?_, ?_, ?_, trivial, ?_⟩
  · exact fun job hjob => hwithin.submitted _ _ (hs.call job hjob)
  · exact fun job hjob => hwithin.submitted _ _ (hs.pending job hjob)
  · exact fun job hjob => absurd hjob (by simp [ComposerCache.respond, CacheWorker.job])
  · intro id lease hlease
    have hstay : ∀ {id request lease}, Complete records s.files id request lease →
        Complete records' s.files id request lease :=
      fun hcomplete => hcomplete.mono hwithin fun _ _ _ hentry _ => hentry
    rcases List.mem_append.1 hlease with hlease | hlease
    · obtain ⟨request, hrequest, hcomplete⟩ := hs.leases id lease hlease
      exact ⟨request, hwithin.submitted id request hrequest, hstay hcomplete⟩
    · cases result with
      | error error => exact absurd hlease List.not_mem_nil
      | ok lease' =>
        obtain ⟨rfl, rfl⟩ := Prod.mk.inj (List.mem_singleton.1 hlease)
        exact ⟨job.request, hwithin.submitted _ _ (hs.held job (by rw [hworker]; rfl)),
          hstay hlays⟩

/-- **One step of the service keeps everything laid out**, where the records take up the request
that it submits and the bytes that it reads. -/
theorem Moves.laysOut (h : s.Moves root event s') (haccounted : s.Accounted) (hkept : s.Kept root)
    (hs : s.LaysOut records) (hwithin : records.Within records')
    (hnew : ∀ request, event = .submit request → records'.submitted s.nextId request)
    (hload : ∀ run read source before bytes, event = .run (.load read) →
      s.worker = .running run (.loading source) →
      run.job.request.sources = before ++ source :: run.remaining →
      CacheRun.loadSource source read = .ok bytes →
      records'.loaded run.job.id before source bytes) :
    s'.LaysOut records' := by
  have hmoves := h
  -- Three kinds of steps: those that pass a job on, those of the worker, and those that let a lease
  -- go.
  cases h with
  | submit request hcall =>
    refine hs.of_worker hmoves haccounted hkept hwithin ?_ (fun _ hjob => .inl hjob) rfl
      fun _ hlease => hlease
    intro job hjob
    obtain rfl := Option.some.inj hjob
    exact Or.inr (hnew request rfl)
  | activate hcall =>
    refine hs.of_worker hmoves haccounted hkept hwithin ?_ (fun _ hjob => .inl hjob) rfl
      fun _ hlease => hlease
    intro job hjob
    rw [hcall]
    exact Or.inl hjob
  | place hcall =>
    refine hs.of_worker hmoves haccounted hkept hwithin (fun _ hjob => ?_) ?_ rfl
      fun _ hlease => hlease
    · exact absurd hjob (by simp [CacheCall.job])
    · intro job hjob
      rw [hcall]
      exact Or.inr hjob
  | wake hcall =>
    refine hs.of_worker hmoves haccounted hkept hwithin (fun _ hjob => ?_)
      (fun _ hjob => .inl hjob) rfl fun _ hlease => hlease
    exact absurd hjob (by simp)
  | cancel hcall =>
    refine hs.of_worker hmoves haccounted hkept hwithin (fun _ hjob => ?_)
      (fun _ hjob => .inl hjob) rfl fun _ hlease => hlease
    exact absurd hjob (by simp [ComposerCache.cancel, CacheCall.job])
  | cancelPending hcall =>
    refine hs.of_worker hmoves haccounted hkept hwithin (fun _ hjob => ?_) (fun _ hjob => ?_) rfl
      fun _ hlease => hlease
    · exact absurd hjob (by simp)
    · exact absurd hjob (by simp [replacePending])
  | receive hworker hwake =>
    refine hs.of_held hmoves haccounted hkept hwithin rfl (fun _ hjob => hjob) ?_ trivial rfl
    exact fun job hjob => absurd hjob (by simp [CacheWorker.job])
  | @take job hworker hpending =>
    refine hs.of_held hmoves haccounted hkept hwithin rfl ?_ ?_ ?_ rfl
    · exact fun _ hjob => absurd hjob (by simp [beginPreparation])
    · intro job' hjob
      obtain rfl := Option.some.inj hjob
      exact Or.inr hpending
    · exact ⟨Nat.zero_le _, [], rfl, .nil⟩
  | takeNone hworker hpending =>
    refine hs.of_held hmoves haccounted hkept hwithin rfl (fun _ hjob => hjob) ?_ trivial rfl
    exact fun job hjob => absurd hjob (by simp [CacheWorker.job])
  | run hworker hrun =>
    refine laysOut_of_run hs haccounted hkept hwithin hworker hrun ?_
    intro read source before bytes hevent hstage hsources hread
    exact hload _ read source before bytes (congrArg CacheEvent.run hevent)
      (hworker.trans (by rw [hstage])) hsources hread
  | @clear job result hworker =>
    refine hs.of_held hmoves haccounted hkept hwithin rfl (fun _ hjob => hjob) ?_ ?_ rfl
    · intro job' hjob
      rw [hworker]
      exact Or.inl hjob
    · have hlays := hs.worker
      rw [hworker] at hlays
      cases result with
      | error error => exact trivial
      | ok lease => exact Complete.mono hlays hwithin fun _ _ _ hentry _ => hentry
  | respond hworker => exact laysOut_of_respond hs hwithin hworker
  | @dropLease id lease removal hlease =>
    have hfields : (s.dropLease id lease removal).call = s.call ∧
        (s.dropLease id lease removal).pending = s.pending ∧
        (s.dropLease id lease removal).worker = s.worker ∧
        ∀ lease' ∈ (s.dropLease id lease removal).leases, lease' ∈ s.leases := by
      unfold ComposerCache.dropLease
      split
      · exact ⟨rfl, rfl, rfl, fun _ hmem => List.mem_of_mem_filter hmem⟩
      · exact ⟨rfl, rfl, rfl, fun _ hmem => List.mem_of_mem_filter hmem⟩
    obtain ⟨hcall, hpending, hworker, hleases⟩ := hfields
    refine hs.of_worker hmoves haccounted hkept hwithin ?_ ?_ hworker hleases
    · rw [hcall]
      exact fun _ hjob => Or.inl hjob
    · rw [hpending]
      exact fun _ hjob => Or.inl hjob
  | commitLease hlease =>
    exact hs.of_worker hmoves haccounted hkept hwithin (fun _ hjob => .inl hjob)
      (fun _ hjob => .inl hjob) rfl fun _ hmem => List.mem_of_mem_filter hmem
  | others hfiles =>
    exact hs.of_worker hmoves haccounted hkept hwithin (fun _ hjob => .inl hjob)
      (fun _ hjob => .inl hjob) rfl fun _ hmem => hmem

/-- The request that was submitted under a number. -/
def Submitted (trace : List (ComposerCache × CacheEvent)) (id : Nat)
    (request : ComposerAttachmentCacheRequest) : Prop :=
  ∃ t, (t, .submit request) ∈ trace ∧ t.nextId = id

/-- **What was read for a source.** The trace has a load by the worker at this source of the request
`id`, with the sources `before` it done, and `bytes` is what `load_composer_attachment_source` makes
of the answer: for a source in a message the bytes of the answer, for one in memory its own. -/
def Loaded (trace : List (ComposerCache × CacheEvent)) (id : Nat) : SourceReads :=
  fun before source bytes => ∃ t run read, (t, .run (.load read)) ∈ trace ∧
    t.worker = .running run (.loading source) ∧ run.job.id = id ∧
    run.job.request.sources = before ++ source :: run.remaining ∧
    CacheRun.loadSource source read = .ok bytes

/-- A source in memory is read as its own bytes. -/
theorem Loaded.eq_of_resident {trace : List (ComposerCache × CacheEvent)} {id : Nat}
    {before : List ComposerAttachmentSource} {source : ComposerAttachmentSource}
    {bytes resident : Bytes} (h : Loaded trace id before source bytes)
    (hresident : source.residentBytes = some resident) : bytes = resident := by
  obtain ⟨-, -, read, -, -, -, -, hread⟩ := h
  simp only [CacheRun.loadSource, hresident] at hread
  split at hread
  · exact (Except.ok.inj hread).symm
  · exact absurd hread (by simp)

/-- A source in a message is read as what the file gave at the load. -/
theorem Loaded.answered {trace : List (ComposerCache × CacheEvent)} {id : Nat}
    {before : List ComposerAttachmentSource} {source : ComposerAttachmentSource}
    {bytes : Bytes} (h : Loaded trace id before source bytes)
    (hresident : source.residentBytes = none) : ∃ t run,
      (t, CacheEvent.run (.load (.ok bytes))) ∈ trace ∧
      t.worker = .running run (.loading source) ∧ run.job.id = id := by
  obtain ⟨t, run, read, hmem, hworker, hid, -, hread⟩ := h
  simp only [CacheRun.loadSource, hresident] at hread
  exact ⟨t, run, hread ▸ hmem, hworker, hid⟩

/-- The records of a trace. -/
def recorded (trace : List (ComposerCache × CacheEvent)) : Records where
  submitted := Submitted trace
  loaded := Loaded trace

theorem recorded_within (trace : List (ComposerCache × CacheEvent))
    (step : ComposerCache × CacheEvent) :
    (recorded trace).Within (recorded (trace ++ [step])) where
  submitted := fun _ _ ⟨t, hmem, hid⟩ => ⟨t, List.mem_append_left _ hmem, hid⟩
  loaded := fun _ _ _ _ ⟨t, run, read, hmem, hload⟩ =>
    ⟨t, run, read, List.mem_append_left _ hmem, hload⟩

/-- The invariant along a run, by induction on the run from its last step. -/
theorem laysOut_of_trace {files : List (CachePath × Option Bytes)}
    {trace : List (ComposerCache × CacheEvent)}
    (h : Run (Steps (step root)) (initial files) trace s) : s.LaysOut (recorded trace) := by
  induction h with
  | nil => exact laysOut_initial files
  | @snoc trace t event u hrun hlast ih =>
    obtain ⟨haccounted, hkept⟩ := kept_of_run_steps hrun
    have hself : (t, event) ∈ trace ++ [(t, event)] :=
      List.mem_append_right _ (List.mem_singleton_self _)
    refine (moves_of_step hlast).laysOut haccounted hkept ih (recorded_within trace _) ?_ ?_
    · intro request hevent
      subst hevent
      exact ⟨t, hself, rfl⟩
    · intro run read source before bytes hevent hworker hsources hread
      subst hevent
      exact ⟨t, run, read, hself, hworker, rfl, hsources, hread⟩

/-- **A lease holds what was read.** Whatever else happens, a lease that is out has a path for each
source of its request, in their order: the file that the user selected, or a copy in a directory of
its own which has the bytes that the trace says were read for this source, still on disk. The
copies have at most 32 MiB in all. -/
theorem lease_paths_laid {files : List (CachePath × Option Bytes)}
    {trace : List (ComposerCache × CacheEvent)}
    (h : Run (Steps (step root)) (initial files) trace s) {id : Nat}
    {lease : ComposerAttachmentCacheLease} (hlease : (id, lease) ∈ s.leases) :
    ∃ request, Submitted trace id request ∧ lease.paths.length = request.sources.length ∧
      ∃ count total, total ≤ maxComposerCacheBytes ∧
        Laid (Loaded trace id) s.files id lease.ownedDirectory request.sources lease.paths count
          total := by
  obtain ⟨request, hrequest, count, total, htotal, hlaid⟩ :=
    (laysOut_of_trace h).leases id lease hlease
  exact ⟨request, hrequest, hlaid.length_eq, count, total, htotal, hlaid⟩

/-- A copy, a file of the user and another copy. -/
def mixedSources : List ComposerAttachmentSource :=
  [.shared ['a'] [0], .owned ['u'] [2] (some [['u']]), .shared ['a'] [1]]

/-- They are cached while the file of the user is rewritten. -/
def cacheMixedSources : List CacheEvent :=
  [.submit ⟨1, mixedSources⟩, .activate, .place, .wake, .receive, .take, .run .look, .run .look,
    .run .testSource, .run (.load (.ok [])), .run .look, .run (.makeRequestDirectory [] .made),
    .run (.makeSourceDirectory .made), .run (.write .written), .run .look,
    .others [([['u']], some [3])], .run .look, .run .testSource, .run .look, .run .testSource,
    .run (.load (.ok [])), .run .look, .run (.makeSourceDirectory .made), .run (.write .written),
    .run .look, .run .look, .clear, .respond]

/-- The copies are in the directories `0` and `1`, around the file of the user. -/
theorem mixed_sources_laid :
    ∃ s request count total,
      exec (step []) (initial [([['u']], some [2])]) cacheMixedSources = some s ∧
        Submitted (execTrace (step []) (initial [([['u']], some [2])]) cacheMixedSources) 0
          request ∧ request.sources.length = 3 ∧
        Laid (Loaded (execTrace (step []) (initial [([['u']], some [2])]) cacheMixedSources) 0)
          s.files 0 (some [[]]) request.sources
          [[[], ['0'], ['a']], [['u']], [[], ['1'], ['a']]] count total := by
  have hrun : (exec (step []) (initial [([['u']], some [2])]) cacheMixedSources).map
      (fun s => s.leases) =
        some [(0, ⟨[[[], ['0'], ['a']], [['u']], [[], ['1'], ['a']]], some [[]]⟩)] := by decide
  obtain ⟨s, hs, hleases⟩ := Option.map_eq_some_iff.1 hrun
  obtain ⟨request, hrequest, hlength, count, total, -, hlaid⟩ :=
    lease_paths_laid (run_of_exec cacheMixedSources hs) (hleases ▸ List.mem_singleton_self _)
  exact ⟨s, request, count, total, hs, hrequest, hlength.symm, hlaid⟩

end ComposerCache

end Notm.Ui
