import Notm.Ui.ComposerCacheSteps

/-!
# Directories that requests own

A request that is run makes files in a directory of its own only, and gives it up with what is
below it.

* `Owned` — each request has a directory of its own, and what it makes is below it.
* `Moves.owned` — a step of a run keeps the directories apart, and records what it leaves.
* `Moves.maker_of_new`, `Moves.mem_files_or` — what a step makes and removes.
-/

namespace Notm.Ui

open Rust Transition Calls

/-! ## Directories and what is below them -/

/-- Each request in `owners` has a directory in `root`, with nothing below it that it did not make;
what a request that is not `released` has made is below its directory. -/
structure Owned (root : CachePath) (files : List CacheFile) (owners : List (Nat × CachePath))
    (released : Nat → Prop) : Prop where
  rooted : ∀ owner ∈ owners, ∃ uuid, owner.2 = root ++ [uuid]
  unique : ∀ owner ∈ owners, ∀ other ∈ owners, owner.1 = other.1 → owner = other
  present : ∀ owner ∈ owners, ∃ entry ∈ files, entry.path = owner.2
  own : ∀ owner ∈ owners, ∀ entry ∈ files, owner.2 <+: entry.path → entry.maker = some owner.1
  accounted : ∀ entry ∈ files, ∀ id, entry.maker = some id →
    released id ∨ ∃ owner ∈ owners, owner.1 = id ∧ owner.2 <+: entry.path

namespace Owned

variable {root : CachePath} {files new : List CacheFile} {owners owners' : List (Nat × CachePath)}
  {released released' : Nat → Prop}

/-- Two directories with something in common are that of one request. -/
theorem eq_of_prefixes (h : Owned root files owners released) {owner other : Nat × CachePath}
    (howner : owner ∈ owners) (hother : other ∈ owners) {path : CachePath}
    (hpath : owner.2 <+: path) (hpath' : other.2 <+: path) : owner = other := by
  obtain ⟨uuid, hdirectory⟩ := h.rooted owner howner
  obtain ⟨uuid', hdirectory'⟩ := h.rooted other hother
  have hlength : owner.2.length = other.2.length := by
    rw [hdirectory, hdirectory', List.length_append, List.length_append]
    rfl
  have hsame : owner.2 = other.2 :=
    (List.prefix_of_prefix_length_le hpath hpath' hlength.le).eq_of_length hlength
  obtain ⟨entry, hentry, hroot⟩ := h.present owner howner
  refine h.unique owner howner other hother (Option.some.inj ?_)
  rw [← h.own owner howner entry hentry (hroot ▸ List.prefix_rfl)]
  exact h.own other hother entry hentry (hroot ▸ hsame ▸ List.prefix_rfl)

/-- The owners may stand in another order, and more may be released. -/
theorem of_iff (h : Owned root files owners released)
    (howners : ∀ owner, owner ∈ owners' ↔ owner ∈ owners)
    (hreleased : ∀ id, released id → released' id) : Owned root files owners' released' where
  rooted := fun owner howner => h.rooted owner ((howners owner).1 howner)
  unique := fun owner howner other hother =>
    h.unique owner ((howners owner).1 howner) other ((howners other).1 hother)
  present := fun owner howner => h.present owner ((howners owner).1 howner)
  own := fun owner howner => h.own owner ((howners owner).1 howner)
  accounted := by
    intro entry hentry id hmaker
    refine (h.accounted entry hentry id hmaker).imp (hreleased id) ?_
    exact fun hown => hown.imp fun owner hparts => ⟨(howners owner).2 hparts.1, hparts.2⟩

/-- Entries are made in the directory of a request. -/
theorem add (h : Owned root files owners released) {owner : Nat × CachePath}
    (howner : owner ∈ owners)
    (hnew : ∀ entry ∈ new, owner.2 <+: entry.path ∧ entry.maker = some owner.1) :
    Owned root (files ++ new) owners released where
  rooted := h.rooted
  unique := h.unique
  present := by
    intro other hother
    obtain ⟨entry, hentry, hpath⟩ := h.present other hother
    exact ⟨entry, List.mem_append_left _ hentry, hpath⟩
  own := by
    intro other hother entry hentry hbelow
    rcases List.mem_append.1 hentry with hentry | hentry
    · exact h.own other hother entry hentry hbelow
    · obtain ⟨hpath, hmaker⟩ := hnew entry hentry
      rw [hmaker, h.eq_of_prefixes howner hother hpath hbelow]
  accounted := by
    intro entry hentry id hmaker
    rcases List.mem_append.1 hentry with hentry | hentry
    · exact h.accounted entry hentry id hmaker
    · obtain ⟨hpath, hmaker'⟩ := hnew entry hentry
      exact Or.inr ⟨owner, howner, Option.some.inj (hmaker'.symm.trans hmaker), hpath⟩

/-- A directory that is not there has nothing in common with the directory of a request. -/
theorem not_prefix_of_free (h : Owned root files owners released) {uuid : Str}
    (hfree : ¬ CacheFile.Exists files (root ++ [uuid])) {owner : Nat × CachePath}
    (howner : owner ∈ owners) : ¬ owner.2 <+: root ++ [uuid] := by
  intro hbelow
  obtain ⟨uuid', hdirectory⟩ := h.rooted owner howner
  have hlength : owner.2.length = (root ++ [uuid]).length := by
    rw [hdirectory, List.length_append, List.length_append]
    rfl
  obtain ⟨entry, hentry, hpath⟩ := h.present owner howner
  refine hfree ⟨entry, hentry, ?_⟩
  rw [hpath, hbelow.eq_of_length hlength]

/-- A request makes its directory. -/
theorem claim (h : Owned root files owners released) {uuid : Str} {id : Nat}
    (hfree : ¬ CacheFile.Exists files (root ++ [uuid])) (hid : ∀ owner ∈ owners, owner.1 ≠ id)
    (howners : ∀ owner, owner ∈ owners' ↔ owner = (id, root ++ [uuid]) ∨ owner ∈ owners) :
    Owned root (files ++ [⟨root ++ [uuid], some id, none⟩]) owners' released where
  rooted := by
    intro owner howner
    rcases (howners owner).1 howner with rfl | howner
    · exact ⟨uuid, rfl⟩
    · exact h.rooted owner howner
  unique := by
    intro owner howner other hother hsame
    rcases (howners owner).1 howner with rfl | howner
    · rcases (howners other).1 hother with rfl | hother
      · rfl
      · exact absurd hsame.symm (hid other hother)
    · rcases (howners other).1 hother with rfl | hother
      · exact absurd hsame (hid owner howner)
      · exact h.unique owner howner other hother hsame
  present := by
    intro owner howner
    rcases (howners owner).1 howner with rfl | howner
    · exact ⟨_, List.mem_append_right _ (List.mem_singleton_self _), rfl⟩
    · obtain ⟨entry, hentry, hpath⟩ := h.present owner howner
      exact ⟨entry, List.mem_append_left _ hentry, hpath⟩
  -- nothing was below the directory before it was made
  own := by
    intro owner howner entry hentry hbelow
    rcases (howners owner).1 howner with rfl | howner
    · rcases List.mem_append.1 hentry with hentry | hentry
      · exact absurd ⟨entry, hentry, hbelow⟩ hfree
      · obtain rfl := List.mem_singleton.1 hentry
        rfl
    · rcases List.mem_append.1 hentry with hentry | hentry
      · exact h.own owner howner entry hentry hbelow
      · obtain rfl := List.mem_singleton.1 hentry
        exact absurd hbelow (h.not_prefix_of_free hfree howner)
  accounted := by
    intro entry hentry id' hmaker
    rcases List.mem_append.1 hentry with hentry | hentry
    · refine (h.accounted entry hentry id' hmaker).imp (fun hid => hid) ?_
      exact fun hown => hown.imp fun owner hparts =>
        ⟨(howners owner).2 (Or.inr hparts.1), hparts.2⟩
    · obtain rfl := List.mem_singleton.1 hentry
      refine Or.inr ⟨_, (howners _).2 (Or.inl rfl), Option.some.inj hmaker, List.prefix_rfl⟩

/-- A directory is left that no request owns. -/
theorem spill (h : Owned root files owners released) {uuid : Str} {id : Nat}
    (hfree : ¬ CacheFile.Exists files (root ++ [uuid]))
    (hreleased : ∀ id', released id' ∨ id' = id → released' id') :
    Owned root (files ++ [⟨root ++ [uuid], some id, none⟩]) owners released' where
  rooted := h.rooted
  unique := h.unique
  present := by
    intro owner howner
    obtain ⟨entry, hentry, hpath⟩ := h.present owner howner
    exact ⟨entry, List.mem_append_left _ hentry, hpath⟩
  own := by
    intro owner howner entry hentry hbelow
    rcases List.mem_append.1 hentry with hentry | hentry
    · exact h.own owner howner entry hentry hbelow
    · obtain rfl := List.mem_singleton.1 hentry
      exact absurd hbelow (h.not_prefix_of_free hfree howner)
  accounted := by
    intro entry hentry id' hmaker
    rcases List.mem_append.1 hentry with hentry | hentry
    · exact (h.accounted entry hentry id' hmaker).imp (fun hid => hreleased id' (Or.inl hid))
        fun hown => hown
    · obtain rfl := List.mem_singleton.1 hentry
      exact Or.inl (hreleased id' (Or.inr (Option.some.inj hmaker).symm))

/-- A request gives up its directory: what was below it is no longer there, or it is released. -/
theorem giveUp (h : Owned root files owners released) {owner : Nat × CachePath}
    (howner : owner ∈ owners)
    (howners : ∀ other, other ∈ owners' ↔ other ∈ owners ∧ other.1 ≠ owner.1)
    {files' : List CacheFile} (hsub : ∀ entry ∈ files', entry ∈ files)
    (hkept : ∀ entry ∈ files, ¬ owner.2 <+: entry.path → entry ∈ files')
    (hreleased : ∀ id, released id → released' id)
    (hleft : released' owner.1 ∨ ∀ entry ∈ files', ¬ owner.2 <+: entry.path) :
    Owned root files' owners' released' where
  rooted := fun other hother => h.rooted other ((howners other).1 hother).1
  unique := fun other hother third hthird =>
    h.unique other ((howners other).1 hother).1 third ((howners third).1 hthird).1
  present := by
    intro other hother
    obtain ⟨hold, hne⟩ := (howners other).1 hother
    obtain ⟨entry, hentry, hpath⟩ := h.present other hold
    refine ⟨entry, hkept entry hentry fun hbelow => hne ?_, hpath⟩
    rw [h.eq_of_prefixes hold howner (hpath ▸ List.prefix_rfl) hbelow]
  own := fun other hother entry hentry =>
    h.own other ((howners other).1 hother).1 entry (hsub entry hentry)
  accounted := by
    intro entry hentry id hmaker
    rcases h.accounted entry (hsub entry hentry) id hmaker with hid | ⟨other, hother, hid, hbelow⟩
    · exact Or.inl (hreleased id hid)
    · by_cases hsame : other.1 = owner.1
      · rcases hleft with hleft | hnone
        · exact Or.inl (hid ▸ hsame ▸ hleft)
        · exact absurd (h.unique other hother owner howner hsame ▸ hbelow) (hnone entry hentry)
      · exact Or.inr ⟨other, (howners other).2 ⟨hother, hsame⟩, hid, hbelow⟩

/-- Whatever is below no directory of a request is replaced. -/
theorem others (h : Owned root files owners released)
    (hnew : ∀ entry ∈ new, entry.maker = none ∧ ∀ owner ∈ owners, ¬ owner.2 <+: entry.path) :
    Owned root
      ((files.filter fun entry => owners.any fun owner => decide (owner.2 <+: entry.path)) ++ new)
      owners released := by
  have hmem : ∀ entry, entry ∈ (files.filter fun entry =>
      owners.any fun owner => decide (owner.2 <+: entry.path)) →
      entry ∈ files ∧ ∃ owner ∈ owners, owner.2 <+: entry.path := by
    intro entry hentry
    obtain ⟨hfile, hany⟩ := List.mem_filter.1 hentry
    obtain ⟨owner, howner, hbelow⟩ := List.any_eq_true.1 hany
    exact ⟨hfile, owner, howner, of_decide_eq_true hbelow⟩
  refine ⟨h.rooted, h.unique, ?_, ?_, ?_⟩
  · intro owner howner
    obtain ⟨entry, hentry, hpath⟩ := h.present owner howner
    refine ⟨entry, List.mem_append_left _ (List.mem_filter.2 ⟨hentry, ?_⟩), hpath⟩
    exact List.any_eq_true.2 ⟨owner, howner, decide_eq_true (hpath ▸ List.prefix_rfl)⟩
  · intro owner howner entry hentry hbelow
    rcases List.mem_append.1 hentry with hentry | hentry
    · exact h.own owner howner entry (hmem entry hentry).1 hbelow
    · exact absurd hbelow ((hnew entry hentry).2 owner howner)
  · intro entry hentry id hmaker
    rcases List.mem_append.1 hentry with hentry | hentry
    · exact h.accounted entry (hmem entry hentry).1 id hmaker
    · exact absurd hmaker (by simp [(hnew entry hentry).1])

/-- A directory is removed, as far as it can be. -/
theorem removeDirAll (h : Owned root files owners released) {owner : Nat × CachePath}
    (howner : owner ∈ owners)
    (howners : ∀ other, other ∈ owners' ↔ other ∈ owners ∧ other.1 ≠ owner.1) (removal : Removal)
    (hreleased : ∀ id, released id → released' id)
    (hleft : released' owner.1 ∨ removal = .removed) :
    Owned root (CacheFile.removeDirAll files owner.2 removal) owners' released' := by
  cases removal with
  | removed =>
    refine h.giveUp howner howners ?_ ?_ hreleased (Or.inr ?_)
    · exact fun entry hentry => List.mem_of_mem_filter hentry
    · exact fun entry hentry hbelow => List.mem_filter.2 ⟨hentry, by simp [hbelow]⟩
    · exact fun entry hentry => by simpa using (List.mem_filter.1 hentry).2
  | failed left error =>
    refine h.giveUp howner howners ?_ ?_ hreleased (Or.inl (hleft.resolve_right (by simp)))
    · exact fun entry hentry => List.mem_of_mem_filter hentry
    · exact fun entry hentry hbelow => List.mem_filter.2 ⟨hentry, by simp [hbelow]⟩

end Owned

/-! ## A run and its directory -/

namespace RunStage

/-- What a stage knows of the directories. -/
def Consistent (run : CacheRun) : RunStage → Prop
  | start | requestDirectory _ _ => run.ownedDirectory = none
  | sourceDirectory _ _ directory => run.ownedDirectory = some directory
  | writing directory _ _ => ∃ owned, run.ownedDirectory = some owned ∧ owned <+: directory
  | next | existing _ | loading _ | loaded _ _ | written _ | failed _ => True

end RunStage

namespace RunProgress

/-- The directory of the request after a step. -/
def directory : RunProgress → Option CachePath
  | going run _ => run.ownedDirectory
  | done (.ok lease) => lease.ownedDirectory
  | done (.error _) => none

end RunProgress

namespace CacheRun

variable {root : CachePath} {files : List CacheFile} {set : Bool} {run : CacheRun}
  {stage : RunStage} {event : RunEvent} {outcome : RunOutcome}

theorem Moves.consistent (h : run.Moves root files set stage event outcome)
    (hs : stage.Consistent run) {run' : CacheRun} {stage' : RunStage}
    (hgoing : outcome.progress = .going run' stage') : stage'.Consistent run' := by
  cases h with
  | refused _ | startCancelled _ | finished _ _ | nothingToClean _ | cleaned _ | cleanupFailed _ =>
    exact absurd hgoing (by simp)
  | needsDirectory howned _ =>
    obtain ⟨rfl, rfl⟩ := RunProgress.going.inj hgoing
    exact howned
  | hasDirectory howned _ =>
    obtain ⟨rfl, rfl⟩ := RunProgress.going.inj hgoing
    exact howned
  | requestDirectory _ =>
    obtain ⟨rfl, rfl⟩ := RunProgress.going.inj hgoing
    exact rfl
  | sourceDirectory hfree =>
    obtain ⟨rfl, rfl⟩ := RunProgress.going.inj hgoing
    exact ⟨_, hs, List.prefix_append _ _⟩
  | started _ _ | cancelled _ _ | source _ _ | reused _ | absent _ | loadFailed _ | overLimit _
  | loaded _ _ | requestDirectoryFailed _ | requestDirectoryLeft _ | sourceDirectoryFailed _
  | sourceDirectoryLeft _ | wrote | writeFailed | pushed _ =>
    obtain ⟨rfl, rfl⟩ := RunProgress.going.inj hgoing
    exact trivial

/-- Who owns what while the request `id` is run, and other requests have their leases. -/
def ownersOf (id : Nat) (directory : Option CachePath) (leased : List (Nat × CachePath)) :
    List (Nat × CachePath) :=
  (directory.map fun directory => (id, directory)).toList ++ leased

/-- One step keeps the directories, and records what it leaves. -/
theorem Moves.owned (h : run.Moves root files set stage event outcome)
    (hs : stage.Consistent run) {leased : List (Nat × CachePath)} {released released' : Nat → Prop}
    (hleased : ∀ owner ∈ leased, owner.1 ≠ run.job.id)
    (hreleased : ∀ id, released id ∨ outcome.leftBehind = true ∧ id = run.job.id → released' id)
    (howned : Owned root files (ownersOf run.job.id run.ownedDirectory leased) released) :
    Owned root outcome.files (ownersOf run.job.id outcome.progress.directory leased) released' := by
  have hold : ∀ id, released id → released' id := fun id hid => hreleased id (Or.inl hid)
  have hsame := howned.of_iff (fun _ => Iff.rfl) hold
  have hown : ∀ {directory}, run.ownedDirectory = some directory →
      (run.job.id, directory) ∈ ownersOf run.job.id run.ownedDirectory leased := by
    intro directory hdirectory
    rw [ownersOf, hdirectory]
    exact List.mem_append_left _ (List.mem_singleton_self _)
  -- without its directory, the request is none of the owners
  have hgone : ∀ directory, run.ownedDirectory = some directory → ∀ other,
      other ∈ ownersOf run.job.id none leased ↔
        other ∈ ownersOf run.job.id run.ownedDirectory leased ∧ other.1 ≠ run.job.id := by
    intro directory hdirectory other
    rw [hdirectory]
    constructor
    · exact fun hother => ⟨List.mem_append_right _ hother, hleased other hother⟩
    · rintro ⟨hother, hne⟩
      refine (List.mem_append.1 hother).resolve_left fun hmine => hne ?_
      rw [List.mem_singleton.1 hmine]
  cases h with
  | refused _ | startCancelled _ =>
    have hnone : run.ownedDirectory = none := hs
    rw [hnone] at hsame
    exact hsame
  | nothingToClean hnone =>
    rw [hnone] at hsame
    exact hsame
  | started _ _ | cancelled _ _ | finished _ _ | source _ _ | reused _ | absent _ | loadFailed _
  | overLimit _ | loaded _ _ | needsDirectory _ _ | hasDirectory _ _ | requestDirectoryFailed _
  | sourceDirectoryFailed _ | pushed _ => exact hsame
  | requestDirectoryLeft hfree =>
    refine howned.spill hfree fun id hid => hreleased id (hid.imp (fun hid => hid) ?_)
    exact fun hid => ⟨rfl, hid⟩
  | @requestDirectory source bytes uuid hfree =>
    have hnone : run.ownedDirectory = none := hs
    rw [hnone] at hsame
    refine hsame.claim hfree ?_ ?_
    · exact fun owner howner => hleased owner howner
    · exact fun owner => List.mem_cons
  | sourceDirectoryLeft hfree =>
    refine hsame.add (hown hs) fun entry hentry => ?_
    obtain rfl := List.mem_singleton.1 hentry
    exact ⟨List.prefix_append _ _, rfl⟩
  | sourceDirectory hfree =>
    refine hsame.add (hown hs) fun entry hentry => ?_
    obtain rfl := List.mem_singleton.1 hentry
    exact ⟨List.prefix_append _ _, rfl⟩
  | wrote =>
    obtain ⟨owned, hdirectory, hbelow⟩ := hs
    refine hsame.add (hown hdirectory) fun entry hentry => ?_
    obtain rfl := List.mem_singleton.1 hentry
    exact ⟨hbelow.trans (List.prefix_append _ _), rfl⟩
  | writeFailed =>
    obtain ⟨owned, hdirectory, hbelow⟩ := hs
    refine hsame.add (hown hdirectory) fun entry hentry => ?_
    obtain ⟨file, -, rfl⟩ := List.mem_map.1 hentry
    exact ⟨hbelow.trans (List.prefix_append _ _), rfl⟩
  | cleaned hdirectory =>
    exact howned.removeDirAll (hown hdirectory) (hgone _ hdirectory) .removed hold (Or.inr rfl)
  | @cleanupFailed error cause message directory left hdirectory =>
    refine howned.removeDirAll (hown hdirectory) (hgone _ hdirectory) (.failed left cause) hold ?_
    exact Or.inl (hreleased _ (Or.inr ⟨rfl, rfl⟩))

/-- What a step of the run removes is below the directory that it gives up. -/
theorem Moves.mem_files_or (h : run.Moves root files set stage event outcome) {entry : CacheFile}
    (hentry : entry ∈ files) :
    entry ∈ outcome.files ∨ ∃ directory, run.ownedDirectory = some directory ∧
      directory <+: entry.path ∧ outcome.progress.directory = none := by
  cases h with
  | refused _ | startCancelled _ | started _ _ | cancelled _ _ | finished _ _ | source _ _
  | reused _ | absent _ | loadFailed _ | overLimit _ | loaded _ _ | needsDirectory _ _
  | hasDirectory _ _ | requestDirectoryFailed _ | sourceDirectoryFailed _ | pushed _
  | nothingToClean _ => exact Or.inl hentry
  | requestDirectoryLeft _ | requestDirectory _ | sourceDirectoryLeft _ | sourceDirectory _
  | wrote | writeFailed => exact Or.inl (List.mem_append_left _ hentry)
  | @cleaned error directory howned =>
    by_cases hbelow : directory <+: entry.path
    · exact Or.inr ⟨directory, howned, hbelow, rfl⟩
    · exact Or.inl (List.mem_filter.2 ⟨hentry, by simp [hbelow]⟩)
  | @cleanupFailed error cause message directory left howned =>
    by_cases hbelow : directory <+: entry.path
    · exact Or.inr ⟨directory, howned, hbelow, rfl⟩
    · exact Or.inl (List.mem_filter.2 ⟨hentry, by simp [hbelow]⟩)

/-- What a step of the run makes is the request's. -/
theorem Moves.maker_of_new (h : run.Moves root files set stage event outcome) {entry : CacheFile}
    (hentry : entry ∈ outcome.files) : entry ∈ files ∨ entry.maker = some run.job.id := by
  cases h with
  | refused _ | startCancelled _ | started _ _ | cancelled _ _ | finished _ _ | source _ _
  | reused _ | absent _ | loadFailed _ | overLimit _ | loaded _ _ | needsDirectory _ _
  | hasDirectory _ _ | requestDirectoryFailed _ | sourceDirectoryFailed _ | pushed _
  | nothingToClean _ => exact Or.inl hentry
  | requestDirectoryLeft _ | requestDirectory _ | sourceDirectoryLeft _ | sourceDirectory _
  | wrote =>
    refine (List.mem_append.1 hentry).imp (fun hold => hold) fun hnew => ?_
    rw [List.mem_singleton.1 hnew]
    rfl
  | writeFailed =>
    refine (List.mem_append.1 hentry).imp (fun hold => hold) fun hnew => ?_
    obtain ⟨file, -, rfl⟩ := List.mem_map.1 hnew
    rfl
  | cleaned _ | cleanupFailed _ => exact Or.inl (List.mem_of_mem_filter hentry)

end CacheRun

end Notm.Ui
