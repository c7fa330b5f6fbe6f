import Notm.Ui.ComposerCache

/-!
# The steps of the composer's attachment cache, one by one

What a step of a run, and of the service, finds and does, guards included.

* `Looks` — the stages at which a run looks at its flag.
* `Moves` — the steps of a run, and those of the service: one constructor for each.
-/

namespace Notm.Ui

open Rust Calls

namespace CacheRun

variable {root : CachePath} {files : List CacheFile} {set : Bool} {run : CacheRun}
  {stage : RunStage} {event : RunEvent} {outcome : RunOutcome}

/-- The stages at which the loop looks at the flag. -/
inductive Looks : RunStage → Prop where
  | next : Looks .next
  | loaded (source : ComposerAttachmentSource) (bytes : Bytes) : Looks (.loaded source bytes)
  | written (path : CachePath) : Looks (.written path)

/-- A directory that could not be made, and is not there. -/
def notMade (outcome : DirectoryOutcome) (error : Str) : Prop :=
  outcome = .createFailed error ∨ outcome = .permissionsFailed error true

/-- The steps of a run. -/
inductive Moves (root : CachePath) (files : List CacheFile) (set : Bool) (run : CacheRun) :
    RunStage → RunEvent → RunOutcome → Prop where
  | refused {error : Str} (hstart : startError run.remaining = some error) :
      Moves root files set run .start .look ⟨files, false, .done (.error error)⟩
  | startCancelled (hset : set = true) :
      Moves root files set run .start .look ⟨files, false, .done (.error cancelledError)⟩
  | started (hstart : startError run.remaining = none) (hset : set = false) :
      Moves root files set run .start .look ⟨files, false, .going run .next⟩
  | cancelled {stage : RunStage} (hstage : Looks stage) (hset : set = true) :
      Moves root files set run stage .look ⟨files, false, .going run (.failed cancelledError)⟩
  | finished (hremaining : run.remaining = []) (hset : set = false) :
      Moves root files set run .next .look
        ⟨files, false, .done (.ok ⟨run.paths, run.ownedDirectory⟩)⟩
  | source {source : ComposerAttachmentSource} {remaining : List ComposerAttachmentSource}
      (hremaining : run.remaining = source :: remaining) (hset : set = false) :
      Moves root files set run .next .look
        ⟨files, false, .going { run with remaining } (.existing source)⟩
  | reused {source : ComposerAttachmentSource} {path : CachePath}
      (hexisting : source.existingSource files = some path) :
      Moves root files set run (.existing source) .testSource
        ⟨files, false, .going { run with paths := run.paths ++ [path] } .next⟩
  | absent {source : ComposerAttachmentSource} (hexisting : source.existingSource files = none) :
      Moves root files set run (.existing source) .testSource
        ⟨files, false, .going run (.loading source)⟩
  | loadFailed {source : ComposerAttachmentSource} {read : Except Str Bytes} {error : Str}
      (hload : loadSource source read = .error error) :
      Moves root files set run (.loading source) (.load read)
        ⟨files, false, .going run (.failed error)⟩
  | overLimit {source : ComposerAttachmentSource} {read : Except Str Bytes} {bytes : Bytes}
      {error : Str} (hload : loadSource source read = .ok bytes) :
      Moves root files set run (.loading source) (.load read)
        ⟨files, false, .going
          { run with cachedBytes := saturatingAdd run.cachedBytes bytes.length } (.failed error)⟩
  | loaded {source : ComposerAttachmentSource} {read : Except Str Bytes} {bytes : Bytes}
      (hload : loadSource source read = .ok bytes)
      (hlimit : saturatingAdd run.cachedBytes bytes.length ≤ maxComposerCacheBytes) :
      Moves root files set run (.loading source) (.load read)
        ⟨files, false, .going
          { run with cachedBytes := saturatingAdd run.cachedBytes bytes.length }
          (.loaded source bytes)⟩
  | needsDirectory {source : ComposerAttachmentSource} {bytes : Bytes}
      (howned : run.ownedDirectory = none) (hset : set = false) :
      Moves root files set run (.loaded source bytes) .look
        ⟨files, false, .going run (.requestDirectory source bytes)⟩
  | hasDirectory {source : ComposerAttachmentSource} {bytes : Bytes} {directory : CachePath}
      (howned : run.ownedDirectory = some directory) (hset : set = false) :
      Moves root files set run (.loaded source bytes) .look
        ⟨files, false, .going run (.sourceDirectory source bytes directory)⟩
  | requestDirectoryFailed {source : ComposerAttachmentSource} {bytes : Bytes} {uuid error : Str}
      {creation : DirectoryOutcome}
      (hcreation : notMade creation error) :
      Moves root files set run (.requestDirectory source bytes)
        (.makeRequestDirectory uuid creation)
        ⟨files, false, .going run (.failed error)⟩
  | requestDirectoryLeft {source : ComposerAttachmentSource} {bytes : Bytes} {uuid error : Str}
      (hfree : ¬ CacheFile.Exists files (root ++ [uuid])) :
      Moves root files set run (.requestDirectory source bytes)
        (.makeRequestDirectory uuid (.permissionsFailed error false))
        ⟨files ++ [run.directoryEntry (root ++ [uuid])], true, .going run (.failed error)⟩
  | requestDirectory {source : ComposerAttachmentSource} {bytes : Bytes} {uuid : Str}
      (hfree : ¬ CacheFile.Exists files (root ++ [uuid])) :
      Moves root files set run (.requestDirectory source bytes) (.makeRequestDirectory uuid .made)
        ⟨files ++ [run.directoryEntry (root ++ [uuid])], false, .going
          { run with ownedDirectory := some (root ++ [uuid]) }
          (.sourceDirectory source bytes (root ++ [uuid]))⟩
  | sourceDirectoryFailed {source : ComposerAttachmentSource} {bytes : Bytes}
      {directory : CachePath} {error : Str} {creation : DirectoryOutcome}
      (hcreation : notMade creation error) :
      Moves root files set run (.sourceDirectory source bytes directory)
        (.makeSourceDirectory creation) ⟨files, false, .going run (.failed error)⟩
  | sourceDirectoryLeft {source : ComposerAttachmentSource} {bytes : Bytes}
      {directory : CachePath} {error : Str}
      (hfree : ¬ CacheFile.Exists files (run.nextSourceDirectory directory)) :
      Moves root files set run (.sourceDirectory source bytes directory)
        (.makeSourceDirectory (.permissionsFailed error false))
        ⟨files ++ [run.directoryEntry (run.nextSourceDirectory directory)], false,
          .going run (.failed error)⟩
  | sourceDirectory {source : ComposerAttachmentSource} {bytes : Bytes} {directory : CachePath}
      (hfree : ¬ CacheFile.Exists files (run.nextSourceDirectory directory)) :
      Moves root files set run (.sourceDirectory source bytes directory)
        (.makeSourceDirectory .made)
        ⟨files ++ [run.directoryEntry (run.nextSourceDirectory directory)], false, .going
          { run with materializedSources := run.materializedSources + 1 }
          (.writing (run.nextSourceDirectory directory)
            (sanitizeAttachmentFilename source.filename) bytes)⟩
  | wrote {directory : CachePath} {filename : Str} {bytes : Bytes} :
      Moves root files set run (.writing directory filename bytes) (.write .written)
        ⟨files ++ [run.fileEntry (directory ++ [filename]) bytes], false,
          .going run (.written (directory ++ [filename]))⟩
  | writeFailed {directory : CachePath} {filename error : Str} {bytes : Bytes}
      {left : List (Str × Bytes)} :
      Moves root files set run (.writing directory filename bytes) (.write (.failed error left))
        ⟨files ++ left.map fun file => run.fileEntry (directory ++ [file.1]) file.2, false,
          .going run (.failed error)⟩
  | pushed {path : CachePath} (hset : set = false) :
      Moves root files set run (.written path) .look
        ⟨files, false, .going { run with paths := run.paths ++ [path] } .next⟩
  | nothingToClean {error : Str} {removal : Removal} (howned : run.ownedDirectory = none) :
      Moves root files set run (.failed error) (.cleanup removal)
        ⟨files, false, .done (.error error)⟩
  | cleaned {error : Str} {directory : CachePath} (howned : run.ownedDirectory = some directory) :
      Moves root files set run (.failed error) (.cleanup .removed)
        ⟨CacheFile.removeDirAll files directory .removed, false, .done (.error error)⟩
  | cleanupFailed {error cause message : Str} {directory : CachePath} {left : List CachePath}
      (howned : run.ownedDirectory = some directory) :
      Moves root files set run (.failed error) (.cleanup (.failed left cause))
        ⟨CacheFile.removeDirAll files directory (.failed left cause), true,
          .done (.error message)⟩

theorem moves_of_look (h : run.look files set stage = some outcome) :
    Moves root files set run stage .look outcome := by
  -- The loop looks at four stages, and where the flag is set the run goes to its clean-up.
  cases stage with
  | start =>
    simp only [look] at h
    split at h
    · rename_i error hstart
      obtain rfl := Option.some.inj h
      exact .refused hstart
    · rename_i hstart
      cases hset : set with
      | true =>
        rw [if_pos hset] at h
        obtain rfl := Option.some.inj h
        exact .startCancelled rfl
      | false =>
        rw [if_neg (by simp [hset])] at h
        obtain rfl := Option.some.inj h
        exact .started hstart rfl
  | next =>
    cases hset : set with
    | true =>
      obtain rfl := Option.some.inj ((if_pos hset).symm.trans h)
      exact .cancelled .next rfl
    | false =>
      simp only [look, hset, Bool.false_eq_true, if_false] at h
      split at h
      · rename_i hremaining
        obtain rfl := Option.some.inj h
        exact .finished hremaining rfl
      · rename_i source remaining hremaining
        obtain rfl := Option.some.inj h
        exact .source hremaining rfl
  | loaded source bytes =>
    cases hset : set with
    | true =>
      obtain rfl := Option.some.inj ((if_pos hset).symm.trans h)
      exact .cancelled (.loaded source bytes) rfl
    | false =>
      simp only [look, hset, Bool.false_eq_true, if_false] at h
      split at h
      · rename_i howned
        obtain rfl := Option.some.inj h
        exact .needsDirectory howned rfl
      · rename_i directory howned
        obtain rfl := Option.some.inj h
        exact .hasDirectory howned rfl
  | written path =>
    cases hset : set with
    | true =>
      obtain rfl := Option.some.inj ((if_pos hset).symm.trans h)
      exact .cancelled (.written path) rfl
    | false =>
      simp only [look, hset, Bool.false_eq_true, if_false] at h
      obtain rfl := Option.some.inj h
      exact .pushed rfl
  | existing _ | loading _ | requestDirectory _ _ | sourceDirectory _ _ _ | writing _ _ _
  | failed _ => exact absurd h (by simp [look])

theorem moves_of_load {source : ComposerAttachmentSource} {read : Except Str Bytes} :
    Moves root files set run (.loading source) (.load read)
      ⟨files, false, .going (run.load source read).1 (run.load source read).2⟩ := by
  unfold load
  split
  · rename_i error hload
    exact .loadFailed hload
  · rename_i bytes hload
    dsimp only
    split
    · exact .overLimit hload
    · rename_i hlimit
      exact .loaded hload (Nat.le_of_not_lt hlimit)

theorem moves_of_makeRequestDirectory {source : ComposerAttachmentSource} {bytes : Bytes}
    {uuid : Str} {creation : DirectoryOutcome}
    (h : makeRequestDirectory root files run source bytes uuid creation = some outcome) :
    Moves root files set run (.requestDirectory source bytes)
      (.makeRequestDirectory uuid creation) outcome := by
  cases creation with
  | createFailed error =>
    obtain rfl := Option.some.inj h
    exact .requestDirectoryFailed (.inl rfl)
  | permissionsFailed error removed =>
    simp only [makeRequestDirectory] at h
    split at h
    · exact absurd h (by simp)
    · rename_i hfree
      cases removed with
      | true =>
        obtain rfl := Option.some.inj h
        exact .requestDirectoryFailed (.inr rfl)
      | false =>
        obtain rfl := Option.some.inj h
        exact .requestDirectoryLeft hfree
  | made =>
    simp only [makeRequestDirectory] at h
    split at h
    · exact absurd h (by simp)
    · rename_i hfree
      obtain rfl := Option.some.inj h
      exact .requestDirectory hfree

theorem moves_of_makeSourceDirectory {source : ComposerAttachmentSource} {bytes : Bytes}
    {directory : CachePath} {creation : DirectoryOutcome}
    (h : makeSourceDirectory files run source bytes directory creation = some outcome) :
    Moves root files set run (.sourceDirectory source bytes directory)
      (.makeSourceDirectory creation) outcome := by
  cases creation with
  | createFailed error =>
    obtain rfl := Option.some.inj h
    exact .sourceDirectoryFailed (.inl rfl)
  | permissionsFailed error removed =>
    simp only [makeSourceDirectory] at h
    split at h
    · exact absurd h (by simp)
    · rename_i hfree
      cases removed with
      | true =>
        obtain rfl := Option.some.inj h
        exact .sourceDirectoryFailed (.inr rfl)
      | false =>
        obtain rfl := Option.some.inj h
        exact .sourceDirectoryLeft hfree
  | made =>
    simp only [makeSourceDirectory] at h
    split at h
    · exact absurd h (by simp)
    · rename_i hfree
      obtain rfl := Option.some.inj h
      exact .sourceDirectory hfree

theorem moves_of_cleanup {error : Str} {removal : Removal} :
    Moves root files set run (.failed error) (.cleanup removal)
      (cleanup files run error removal) := by
  unfold cleanup
  split
  · rename_i howned
    exact .nothingToClean howned
  · rename_i directory howned
    exact .cleaned howned
  · rename_i directory left cause howned
    exact .cleanupFailed howned

theorem moves_of_step (h : run.step root files set stage event = some outcome) :
    Moves root files set run stage event outcome := by
  cases event with
  | look => exact moves_of_look h
  | testSource =>
    simp only [step] at h
    split at h
    · split at h
      · rename_i path hexisting
        obtain rfl := Option.some.inj h
        exact .reused hexisting
      · rename_i hexisting
        obtain rfl := Option.some.inj h
        exact .absent hexisting
    · exact absurd h (by simp)
  | load read =>
    simp only [step] at h
    split at h
    · obtain rfl := Option.some.inj h
      exact moves_of_load
    · exact absurd h (by simp)
  | makeRequestDirectory uuid creation =>
    simp only [step] at h
    split at h
    · exact moves_of_makeRequestDirectory h
    · exact absurd h (by simp)
  | makeSourceDirectory creation =>
    simp only [step] at h
    split at h
    · exact moves_of_makeSourceDirectory h
    · exact absurd h (by simp)
  | write ending =>
    simp only [step] at h
    split at h
    · cases ending with
      | written =>
        obtain rfl := Option.some.inj h
        exact .wrote
      | failed error left =>
        obtain rfl := Option.some.inj h
        exact .writeFailed
    · exact absurd h (by simp)
  | cleanup removal =>
    simp only [step] at h
    split at h
    · obtain rfl := Option.some.inj h
      exact moves_of_cleanup
    · exact absurd h (by simp)

end CacheRun

namespace ComposerCache

variable {root : CachePath} {s s' : ComposerCache} {event : CacheEvent}

/-- The steps of the service, with those of a run as one. -/
inductive Moves (root : CachePath) (s : ComposerCache) : CacheEvent → ComposerCache → Prop where
  | submit (request : ComposerAttachmentCacheRequest) (hcall : s.call = none) :
      Moves root s (.submit request) (s.submit request)
  | activate {job : ComposerAttachmentCacheJob} (hcall : s.call = some (.submitting job)) :
      Moves root s .activate
        { s with call := some (.activated job), active := some (job.request.generation, job.id) }
  | place {job : ComposerAttachmentCacheJob} (hcall : s.call = some (.activated job)) :
      Moves root s .place { s.replacePending (some job) with call := some .placed }
  | wake (hcall : s.call = some .placed) :
      Moves root s .wake { s with call := none, wake := true }
  | cancel (hcall : s.call = none) : Moves root s .cancel s.cancel
  | cancelPending (hcall : s.call = some .cancelling) :
      Moves root s .cancelPending { s.replacePending none with call := none }
  | receive (hworker : s.worker = .receiving) (hwake : s.wake = true) :
      Moves root s .receive { s with worker := .looping, wake := false }
  | take {job : ComposerAttachmentCacheJob} (hworker : s.worker = .looping)
      (hpending : s.pending = some job) : Moves root s .take (s.beginPreparation job)
  | takeNone (hworker : s.worker = .looping) (hpending : s.pending = none) :
      Moves root s .take { s with worker := .receiving }
  | run {run : CacheRun} {stage : RunStage} {event : RunEvent} {outcome : RunOutcome}
      (hworker : s.worker = .running run stage)
      (hrun : run.Moves root s.files (s.cancelled.contains run.job.id) stage event outcome) :
      Moves root s (.run event)
        ((s.withFiles run.job.id outcome).withProgress run.job outcome.progress)
  | clear {job : ComposerAttachmentCacheJob} {result : Except Str ComposerAttachmentCacheLease}
      (hworker : s.worker = .prepared job result) :
      Moves root s .clear { s.clearActive job with worker := .cleared job result }
  | respond {job : ComposerAttachmentCacheJob} {result : Except Str ComposerAttachmentCacheLease}
      (hworker : s.worker = .cleared job result) : Moves root s .respond (s.respond job result)
  | dropLease {id : Nat} {lease : ComposerAttachmentCacheLease} (removal : Removal)
      (hlease : s.leases.lookup id = some lease) :
      Moves root s (.dropLease id removal) (s.dropLease id lease removal)
  | commitLease {id : Nat} {lease : ComposerAttachmentCacheLease}
      (hlease : s.leases.lookup id = some lease) :
      Moves root s (.commitLease id)
        { s.withoutLease id with committed := s.committed ++ [id] }
  | others {files : List (CachePath × Option Bytes)}
      (hfiles : ∀ file ∈ files, ∀ owner ∈ s.owners, ¬ owner.2 <+: file.1) :
      Moves root s (.others files) { s with files := s.ownedFiles ++ userFiles files }

theorem moves_of_step (h : s.step root event = some s') : s.Moves root event s' := by
  cases event with
  | submit request =>
    simp only [step] at h
    split at h
    · rename_i hcall
      obtain rfl := Option.some.inj h
      exact .submit request hcall
    · exact absurd h (by simp)
  | activate =>
    simp only [step] at h
    split at h
    · rename_i job hcall
      obtain rfl := Option.some.inj h
      exact .activate hcall
    · exact absurd h (by simp)
  | place =>
    simp only [step] at h
    split at h
    · rename_i job hcall
      obtain rfl := Option.some.inj h
      exact .place hcall
    · exact absurd h (by simp)
  | wake =>
    simp only [step] at h
    split at h
    · rename_i hcall
      obtain rfl := Option.some.inj h
      exact .wake hcall
    · exact absurd h (by simp)
  | cancel =>
    simp only [step] at h
    split at h
    · rename_i hcall
      obtain rfl := Option.some.inj h
      exact .cancel hcall
    · exact absurd h (by simp)
  | cancelPending =>
    simp only [step] at h
    split at h
    · rename_i hcall
      obtain rfl := Option.some.inj h
      exact .cancelPending hcall
    · exact absurd h (by simp)
  | receive =>
    simp only [step] at h
    split at h
    · rename_i hworker hwake
      obtain rfl := Option.some.inj h
      exact .receive hworker hwake
    · exact absurd h (by simp)
  | take =>
    simp only [step] at h
    split at h
    · rename_i job hworker hpending
      obtain rfl := Option.some.inj h
      exact .take hworker hpending
    · rename_i hworker hpending
      obtain rfl := Option.some.inj h
      exact .takeNone hworker hpending
    · exact absurd h (by simp)
  | run event =>
    simp only [step] at h
    split at h
    · rename_i run stage hworker
      obtain ⟨outcome, hrun, rfl⟩ := Option.map_eq_some_iff.1 h
      exact .run hworker (CacheRun.moves_of_step hrun)
    · exact absurd h (by simp)
  | clear =>
    simp only [step] at h
    split at h
    · rename_i job result hworker
      obtain rfl := Option.some.inj h
      exact .clear hworker
    · exact absurd h (by simp)
  | respond =>
    simp only [step] at h
    split at h
    · rename_i job result hworker
      obtain rfl := Option.some.inj h
      exact .respond hworker
    · exact absurd h (by simp)
  | dropLease id removal =>
    obtain ⟨lease, hlease, rfl⟩ := Option.map_eq_some_iff.1 h
    exact .dropLease removal hlease
  | commitLease id =>
    obtain ⟨lease, hlease, rfl⟩ := Option.map_eq_some_iff.1 h
    exact .commitLease hlease
  | others files =>
    simp only [step] at h
    split at h
    · exact absurd h (by simp)
    · rename_i hfiles
      obtain rfl := Option.some.inj h
      refine .others fun file hfile owner howner hprefix => hfiles ?_
      have hbelow : decide (owner.2 <+: file.1) = true := decide_eq_true hprefix
      exact List.any_eq_true.2 ⟨file, hfile, List.any_eq_true.2 ⟨owner, howner, hbelow⟩⟩

end ComposerCache

end Notm.Ui
