import Notm.Lib.Transition
import Notm.Lib.VersionedCell
import Notm.Notmuch.Message

/-!
# Readers of a message and remaps of its path

A `MessageSource` shares one path among its clones. A reader takes a snapshot of the path, reads
the file with no lock held, and looks at the generation again before it returns; when the file is
gone it asks the database, and replaces the path if the generation is still that of its snapshot.
Meanwhile tag operations remap the path. The readers are threads whose steps interleave with the
remaps in any order; each step sees the files as they are at that moment.

* `MessageSource`, `SourceEvent` and `step` — the path, its readers and the remaps.
* `UnchangedSince`, `NeverStale` — the writes of the path, with what each writer had seen.
* `advance_cases` — one step of a reader.
* `messageSource_run` — what is written and what is returned, in every run.
* `stale_result_overwrites` — where the generations have run out.
-/

namespace Notm.Ui

open Rust Notm.Notmuch

/-- `P` are paths. The value is the path, the version is its generation. -/
abbrev CurrentMessagePath (P : Type*) := VersionedCell P

/-- `E` are the errors of the file system and the database. -/
inductive ReadError (P E : Type*) where
  /-- The cached path was unavailable and there is no resolver. -/
  | cached (error : E)
  | lookup (error : E)
  /-- The file that the database named could not be read either. -/
  | unavailable (cachedPath : P) (cachedError : E) (messageId : Str) (error : E)
  | changedRepeatedly

/-- Where a reader stands in its loop; `B` are the contents of files. What the resolver found also
remembers how many writes of the path had happened by then. -/
inductive Reader (P B E : Type*) where
  | attempt (n : Nat)
  | read (n : Nat) (snapshot : CurrentMessagePath P)
  | cachedResult (n : Nat) (snapshot : CurrentMessagePath P) (result : Except E B)
  | resolve (n : Nat) (snapshot : CurrentMessagePath P) (cachedError : E)
  | resolvedResult (n : Nat) (snapshot : CurrentMessagePath P)
      (resolved : Except (ReadError P E) (P × B)) (since : Nat)
  | replace (n : Nat) (snapshot : CurrentMessagePath P) (path : P) (bytes : B) (since : Nat)
  | returned (result : Except (ReadError P E) (P × B))

/-- The writes of the shared path, each with the path before and after it. -/
inductive PathWrite (P : Type*) where
  | remapped (before after : P)
  | replaced (before after : P) (since : Nat)

/-- The write leaves another path behind. -/
def PathWrite.Changes {P : Type*} : PathWrite P → Prop
  | .remapped before after => before ≠ after
  | .replaced before after _ => before ≠ after

/-- The files and the database at one moment. -/
structure Files (P B E : Type*) where
  readBounded : P → Except E B
  openMessageIdFile : Str → Except E P

/-- The shared source with its readers. The writes of the path and the files that each reader has
read are kept in order. -/
structure MessageSource (P B E : Type*) where
  path : CurrentMessagePath P
  resolver : Option Str
  readers : List (Reader P B E) := []
  writes : List (PathWrite P) := []
  reads : List (Nat × P × B) := []

inductive SourceEvent (P B E : Type*) where
  /-- `apply_to_source` with the path states of a tag operation. -/
  | remap (messageId : Str) (pathStates : List (MessagePathState P))
  /-- A call of `read_bounded_with_path`. -/
  | call
  /-- The next step of a reader. -/
  | advance (reader : Nat) (files : Files P B E)

namespace MessageSource

variable {P B E : Type*} [DecidableEq P]

/-- The path after one path state. -/
def followPathState (path : P) (state : MessagePathState P) : P :=
  match state.pathChanges.find? fun change => change.previousPath = path with
  | some change => change.currentPath
  | none => path

/-- The path after the states of one message, and whether the last one contains it. -/
def applyMatchingPathStates (path : P) (pathStates : List (MessagePathState P)) : Bool × P :=
  let current := pathStates.foldl followPathState path
  match pathStates.getLast? with
  | none => (true, current)
  | some state => (state.paths.contains current, current)

/-- `AuthoritativePathMap::apply_to_source`. -/
def applyToSource (path : CurrentMessagePath P) (messageId : Str)
    (pathStates : List (MessagePathState P)) : Bool × CurrentMessagePath P :=
  match pathStates.filter fun state => state.messageId = messageId with
  | [] => (true, path)
  | matching =>
    let (resolved, current) := applyMatchingPathStates path.value matching
    (resolved, path.write current)

def replacePathIfGeneration (path : CurrentMessagePath P) (expectedGeneration : Nat)
    (resolvedPath : P) : Option (CurrentMessagePath P) :=
  path.replaceIf expectedGeneration resolvedPath

/-- The turns of the loop. -/
def maxAttempts : Nat := 8

def setReader (source : MessageSource P B E) (i : Nat) (reader : Reader P B E) :
    MessageSource P B E :=
  { source with readers := source.readers.set i reader }

/-- Note a file that a reader has read. -/
def noteRead (source : MessageSource P B E) (i : Nat) (path : P) (result : Except E B) :
    MessageSource P B E :=
  match result with
  | .ok bytes => { source with reads := source.reads ++ [(i, path, bytes)] }
  | .error _ => source

/-- The database names the file, which is then read. -/
def resolveFile (files : Files P B E) (cachedPath : P) (cachedError : E) (messageId : Str) :
    Except (ReadError P E) (P × B) :=
  match files.openMessageIdFile messageId with
  | .error error => .error (.lookup error)
  | .ok path =>
    match files.readBounded path with
    | .error error => .error (.unavailable cachedPath cachedError messageId error)
    | .ok bytes => .ok (path, bytes)

/-- The next step of reader `i`, which stands at `reader`. -/
def advance (source : MessageSource P B E) (i : Nat) (files : Files P B E) :
    Reader P B E → Option (MessageSource P B E)
  | .attempt n =>
    if n < maxAttempts then some (source.setReader i (.read n source.path))
    else some (source.setReader i (.returned (.error .changedRepeatedly)))
  | .read n snapshot =>
    let result := files.readBounded snapshot.value
    some ((source.noteRead i snapshot.value result).setReader i (.cachedResult n snapshot result))
  | .cachedResult n snapshot (.ok bytes) =>
    if source.path.version = snapshot.version then
      some (source.setReader i (.returned (.ok (snapshot.value, bytes))))
    else some (source.setReader i (.attempt (n + 1)))
  | .cachedResult n snapshot (.error cachedError) =>
    if source.path.version ≠ snapshot.version then some (source.setReader i (.attempt (n + 1)))
    else
      match source.resolver with
      | none => some (source.setReader i (.returned (.error (.cached cachedError))))
      | some _ => some (source.setReader i (.resolve n snapshot cachedError))
  | .resolve n snapshot cachedError =>
    source.resolver.map fun messageId =>
      let resolved := resolveFile files snapshot.value cachedError messageId
      let noted :=
        match resolved with
        | .ok (path, bytes) => source.noteRead i path (.ok bytes)
        | .error _ => source
      noted.setReader i (.resolvedResult n snapshot resolved source.writes.length)
  | .resolvedResult n snapshot resolved since =>
    if source.path.version ≠ snapshot.version then some (source.setReader i (.attempt (n + 1)))
    else
      match resolved with
      | .error error => some (source.setReader i (.returned (.error error)))
      | .ok (path, bytes) => some (source.setReader i (.replace n snapshot path bytes since))
  | .replace n snapshot path bytes since =>
    match replacePathIfGeneration source.path snapshot.version path with
    | none => some (source.setReader i (.attempt (n + 1)))
    | some current =>
      some { source.setReader i (.returned (.ok (path, bytes))) with
        path := current
        writes := source.writes ++ [.replaced source.path.value path since] }
  | .returned _ => none

def step (source : MessageSource P B E) : SourceEvent P B E → Option (MessageSource P B E)
  | .remap messageId pathStates =>
    let current := (applyToSource source.path messageId pathStates).2
    some { source with
      path := current
      writes := source.writes ++ [.remapped source.path.value current.value] }
  | .call => some { source with readers := source.readers ++ [.attempt 0] }
  | .advance i files => source.readers[i]?.bind (source.advance i files)

/-! ## What a step does to the shared state -/

variable {source source' : MessageSource P B E} {i : Nat} {files : Files P B E}
  {reader : Reader P B E} {event : SourceEvent P B E}

/-- The files read stay noted, and the path is written at most once. -/
structure Advances (source source' : MessageSource P B E) : Prop where
  reads : ∀ r ∈ source.reads, r ∈ source'.reads
  path : (source'.path = source.path ∧ source'.writes = source.writes) ∨
    ∃ path write, source'.path = source.path.write path ∧
      source'.writes = source.writes ++ [write] ∧ (write.Changes ↔ source.path.value ≠ path)

omit [DecidableEq P] in
theorem noteRead_reads {path : P} {result : Except E B} :
    ∀ r ∈ source.reads, r ∈ (source.noteRead i path result).reads := by
  intro r hr
  cases result with
  | ok bytes => exact List.mem_append_left _ hr
  | error error => exact hr

omit [DecidableEq P] in
@[simp] theorem noteRead_path {path : P} {result : Except E B} :
    (source.noteRead i path result).path = source.path := by
  cases result <;> rfl

omit [DecidableEq P] in
@[simp] theorem noteRead_writes {path : P} {result : Except E B} :
    (source.noteRead i path result).writes = source.writes := by
  cases result <;> rfl

omit [DecidableEq P] in
@[simp] theorem noteRead_readers {path : P} {result : Except E B} :
    (source.noteRead i path result).readers = source.readers := by
  cases result <;> rfl

theorem Advances.of_eq (hreads : ∀ r ∈ source.reads, r ∈ source'.reads)
    (hpath : source'.path = source.path) (hwrites : source'.writes = source.writes) :
    Advances source source' :=
  ⟨hreads, Or.inl ⟨hpath, hwrites⟩⟩

theorem Advances.version_le (h : Advances source source') :
    source.path.version ≤ source'.path.version := by
  rcases h.path with ⟨hpath, -⟩ | ⟨path, write, hpath, -, -⟩
  · rw [hpath]
  · rw [hpath]
    exact VersionedCell.version_le_write

theorem Advances.follows (h : Advances source source') {snapshot : CurrentMessagePath P}
    (hsnapshot : source.path.Follows snapshot) : source'.path.Follows snapshot := by
  rcases h.path with ⟨hpath, -⟩ | ⟨path, write, hpath, -, -⟩
  · rw [hpath]
    exact hsnapshot
  · rw [hpath]
    exact hsnapshot.write path

/-- No write after the first `since` has changed the path if the generation is still that of the
snapshot. -/
structure UnchangedSince (source : MessageSource P B E) (snapshot : CurrentMessagePath P)
    (since : Nat) : Prop where
  since_le : since ≤ source.writes.length
  unchanged : source.path.version < u64Max → source.path.version = snapshot.version →
    ∀ write ∈ source.writes.drop since, ¬ write.Changes

theorem Advances.unchangedSince (h : Advances source source') {snapshot : CurrentMessagePath P}
    {since : Nat} (hsnapshot : source.path.Follows snapshot)
    (hsince : UnchangedSince source snapshot since) : UnchangedSince source' snapshot since := by
  have hle := h.version_le
  have hbefore := hsnapshot.version_le
  rcases h.path with ⟨hpath, hwrites⟩ | ⟨path, write, hpath, hwrites, hchanges⟩
  · refine ⟨by rw [hwrites]; exact hsince.since_le, ?_⟩
    rw [hpath, hwrites]
    exact hsince.unchanged
  · refine ⟨?_, fun hlt hversion w hw => ?_⟩
    · have := hsince.since_le
      rw [hwrites, List.length_append]
      omega
    · rw [hwrites, List.drop_append_of_le_length hsince.since_le] at hw
      rcases List.mem_append.1 hw with hw | hw
      · exact hsince.unchanged (by omega) (by omega) w hw
      · -- a change would have moved the generation past that of the snapshot
        obtain rfl := List.mem_singleton.1 hw
        rw [hchanges]
        intro hne
        have hmoved := VersionedCell.write_version_of_ne hne (by omega)
        rw [← hpath] at hmoved
        omega

/-! ## What a reader holds -/

/-- The path has only moved on since the reader's snapshot, and what the reader has read is
noted. -/
def Holds (source : MessageSource P B E) (i : Nat) : Reader P B E → Prop
  | .attempt _ => True
  | .read _ snapshot => source.path.Follows snapshot
  | .cachedResult _ snapshot result =>
    source.path.Follows snapshot ∧
      ∀ bytes, result = .ok bytes → (i, snapshot.value, bytes) ∈ source.reads
  | .resolve _ snapshot _ => source.path.Follows snapshot
  | .resolvedResult _ snapshot resolved since =>
    source.path.Follows snapshot ∧ UnchangedSince source snapshot since ∧
      ∀ path bytes, resolved = .ok (path, bytes) → (i, path, bytes) ∈ source.reads
  | .replace _ snapshot path bytes since =>
    source.path.Follows snapshot ∧ UnchangedSince source snapshot since ∧
      (i, path, bytes) ∈ source.reads
  | .returned _ => True

theorem Advances.holds (h : Advances source source') (hreader : Holds source i reader) :
    Holds source' i reader := by
  cases reader with
  | attempt n => trivial
  | read n snapshot => exact h.follows hreader
  | cachedResult n snapshot result =>
    obtain ⟨hsnapshot, hread⟩ := hreader
    exact ⟨h.follows hsnapshot, fun bytes hok => h.reads _ (hread bytes hok)⟩
  | resolve n snapshot cachedError => exact h.follows hreader
  | resolvedResult n snapshot resolved since =>
    obtain ⟨hsnapshot, hsince, hread⟩ := hreader
    exact ⟨h.follows hsnapshot, h.unchangedSince hsnapshot hsince,
      fun path bytes hok => h.reads _ (hread path bytes hok)⟩
  | replace n snapshot path bytes since =>
    obtain ⟨hsnapshot, hsince, hread⟩ := hreader
    exact ⟨h.follows hsnapshot, h.unchangedSince hsnapshot hsince, h.reads _ hread⟩
  | returned result => trivial

/-- What a step of reader `i` makes of the source: only its own place among the readers changes,
and what it holds there is accounted for; a reader that returns bytes has read them from the path
that is the current one now; and a replacement finds the path unchanged. -/
structure Advanced (source : MessageSource P B E) (i : Nat) (source' : MessageSource P B E)
    (reader' : Reader P B E) : Prop where
  advances : Advances source source'
  readers : source'.readers = source.readers.set i reader'
  holds : Holds source' i reader'
  current : ∀ path bytes, reader' = .returned (.ok (path, bytes)) →
    source'.path.version < u64Max →
    source'.path.value = path ∧ (i, path, bytes) ∈ source'.reads
  replaced : source'.writes = source.writes ∨ ∃ before after since,
    source'.writes = source.writes ++ [.replaced before after since] ∧
      (source'.path.version < u64Max → ∀ write ∈ source.writes.drop since, ¬ write.Changes)

/-- A step that touches neither the path nor the files read. -/
theorem advanced_setReader {reader' : Reader P B E} (hholds : Holds source i reader')
    (hcurrent : ∀ path bytes, reader' = .returned (.ok (path, bytes)) →
      source.path.version < u64Max → source.path.value = path ∧ (i, path, bytes) ∈ source.reads) :
    Advanced source i (source.setReader i reader') reader' := by
  have hadvances : Advances source (source.setReader i reader') :=
    .of_eq (fun _ hr => hr) rfl rfl
  exact ⟨hadvances, rfl, hadvances.holds hholds, hcurrent, Or.inl rfl⟩

/-- A step that notes a file read and does not return. -/
theorem advanced_noteRead {path : P} {result : Except E B} {reader' : Reader P B E}
    (hholds : Holds (source.noteRead i path result) i reader')
    (hreader' : ∀ read, reader' ≠ .returned (.ok read)) :
    Advanced source i ((source.noteRead i path result).setReader i reader') reader' := by
  have hsame : Advances (source.noteRead i path result)
      ((source.noteRead i path result).setReader i reader') := .of_eq (fun _ hr => hr) rfl rfl
  refine ⟨.of_eq noteRead_reads noteRead_path noteRead_writes, ?_, hsame.holds hholds, ?_,
    Or.inl noteRead_writes⟩
  · show (List.set _ i _) = _
    rw [noteRead_readers]
  · exact fun path bytes heq => absurd heq (hreader' _)

omit [DecidableEq P] in
/-- As long as the path has not changed since the snapshot, it is that of the snapshot. -/
theorem snapshot_current {snapshot : CurrentMessagePath P} (h : source.path.Follows snapshot)
    (hversion : source.path.version = snapshot.version) (hlt : source.path.version < u64Max) :
    source.path.value = snapshot.value := by
  rw [h.unchanged hlt hversion]

theorem advance_advanced (hreader : Holds source i reader)
    (h : source.advance i files reader = some source') :
    ∃ reader', Advanced source i source' reader' := by
  have hretry : ∀ n, Advanced source i (source.setReader i (.attempt n)) (.attempt n) :=
    fun n => advanced_setReader trivial (fun _ _ heq => by cases heq)
  have hfails : ∀ error : ReadError P E, Advanced source i
      (source.setReader i (.returned (.error error))) (.returned (.error error)) :=
    fun error => advanced_setReader trivial (fun _ _ heq => by cases heq)
  -- By the place of the reader in its loop: it tries again, fails, goes on, or returns. Only the
  -- last two cases of a match write the path or return bytes.
  cases reader with
  | attempt n =>
    simp only [advance] at h
    split at h
    · obtain rfl := Option.some.inj h
      exact ⟨_, advanced_setReader (VersionedCell.Follows.refl _) (fun _ _ heq => by cases heq)⟩
    · obtain rfl := Option.some.inj h
      exact ⟨_, hfails _⟩
  | read n snapshot =>
    obtain rfl := Option.some.inj h
    refine ⟨_, advanced_noteRead ⟨?_, ?_⟩ (fun _ heq => by cases heq)⟩
    · rw [noteRead_path]
      exact hreader
    · intro bytes hok
      rw [hok]
      exact List.mem_append_right _ (List.mem_singleton_self _)
  | cachedResult n snapshot result =>
    obtain ⟨hsnapshot, hread⟩ := hreader
    cases result with
    | ok bytes =>
      simp only [advance] at h
      split at h
      · obtain rfl := Option.some.inj h
        -- the generation is that of the snapshot, so the path is still the one that was read
        rename_i hversion
        refine ⟨_, advanced_setReader trivial ?_⟩
        intro path bytes' heq hlt
        obtain ⟨rfl, rfl⟩ := Prod.mk.inj (Except.ok.inj (Reader.returned.inj heq))
        exact ⟨snapshot_current hsnapshot hversion hlt, hread _ rfl⟩
      · obtain rfl := Option.some.inj h
        exact ⟨_, hretry _⟩
    | error cachedError =>
      simp only [advance] at h
      split at h
      · obtain rfl := Option.some.inj h
        exact ⟨_, hretry _⟩
      · split at h
        · obtain rfl := Option.some.inj h
          exact ⟨_, hfails _⟩
        · obtain rfl := Option.some.inj h
          exact ⟨_, advanced_setReader hsnapshot (fun _ _ heq => by cases heq)⟩
  | resolve n snapshot cachedError =>
    obtain ⟨messageId, -, rfl⟩ := Option.map_eq_some_iff.1 h
    have hnow : UnchangedSince source snapshot source.writes.length := by
      refine ⟨Nat.le_refl _, fun _ _ write hwrite => ?_⟩
      rw [List.drop_length] at hwrite
      exact absurd hwrite List.not_mem_nil
    cases hresolved : resolveFile files snapshot.value cachedError messageId with
    | error error =>
      exact ⟨_, advanced_setReader ⟨hreader, hnow, fun _ _ heq => by cases heq⟩
        (fun _ _ heq => by cases heq)⟩
    | ok found =>
      refine ⟨_, advanced_noteRead ⟨hreader, ⟨hnow.since_le, hnow.unchanged⟩, ?_⟩
        (fun _ heq => by cases heq)⟩
      intro path bytes heq
      obtain rfl := Except.ok.inj heq
      exact List.mem_append_right _ (List.mem_singleton_self _)
  | resolvedResult n snapshot resolved since =>
    obtain ⟨hsnapshot, hsince, hread⟩ := hreader
    simp only [advance] at h
    split at h
    · obtain rfl := Option.some.inj h
      exact ⟨_, hretry _⟩
    · cases resolved with
      | error error =>
        obtain rfl := Option.some.inj h
        exact ⟨_, hfails _⟩
      | ok found =>
        obtain rfl := Option.some.inj h
        exact ⟨_, advanced_setReader ⟨hsnapshot, hsince, hread _ _ rfl⟩
          (fun _ _ heq => by cases heq)⟩
  | replace n snapshot path bytes since =>
    obtain ⟨hsnapshot, hsince, hread⟩ := hreader
    simp only [advance] at h
    cases hreplace : replacePathIfGeneration source.path snapshot.version path with
    | none =>
      rw [hreplace] at h
      obtain rfl := Option.some.inj h
      exact ⟨_, hretry _⟩
    | some current =>
      rw [hreplace] at h
      obtain rfl := Option.some.inj h
      -- The path is replaced under the generation of the snapshot: nothing was written since.
      obtain ⟨hversion, rfl⟩ := VersionedCell.replaceIf_eq_some hreplace
      refine ⟨_, ⟨fun _ hr => hr, Or.inr ⟨path, _, rfl, rfl, Iff.rfl⟩⟩, rfl, trivial, ?_,
        Or.inr ⟨_, _, _, rfl, fun hlt => ?_⟩⟩
      · intro path' bytes' heq _
        obtain ⟨rfl, rfl⟩ := Prod.mk.inj (Except.ok.inj (Reader.returned.inj heq))
        exact ⟨VersionedCell.write_value, hread⟩
      · exact hsince.unchanged (Nat.lt_of_le_of_lt VersionedCell.version_le_write hlt) hversion
  | returned result => exact absurd h (Option.some_ne_none _).symm

/-! ## Runs -/

/-- What every reader holds is accounted for. -/
def Accounted (source : MessageSource P B E) : Prop :=
  ∀ i reader, source.readers[i]? = some reader → Holds source i reader

/-- No replaced path was found before a remap or another replacement that changed the path. -/
def NeverStale (source : MessageSource P B E) : Prop :=
  ∀ older before after since newer,
    source.writes = older ++ PathWrite.replaced before after since :: newer →
    ∀ write ∈ older.drop since, ¬ write.Changes

omit [DecidableEq P] in
/-- A further write keeps the order clean if it is no stale replacement. -/
theorem NeverStale.append (h : NeverStale source) {write : PathWrite P}
    (hwrites : source'.writes = source.writes ++ [write])
    (hwrite : ∀ before after since, write = .replaced before after since →
      ∀ w ∈ source.writes.drop since, ¬ w.Changes) : NeverStale source' := by
  intro older before after since newer hsplit
  rw [hwrites] at hsplit
  rcases List.eq_nil_or_concat newer with rfl | ⟨init, last, rfl⟩
  · obtain ⟨rfl, hlast⟩ := List.append_inj' hsplit rfl
    exact hwrite _ _ _ (List.head_eq_of_cons_eq hlast)
  · rw [List.concat_eq_append, ← List.cons_append, ← List.append_assoc] at hsplit
    obtain ⟨hinit, -⟩ := List.append_inj' hsplit rfl
    exact h _ _ _ _ _ hinit

/-- `apply_to_source` writes the path at most once. -/
theorem applyToSource_write (path : CurrentMessagePath P) (messageId : Str)
    (pathStates : List (MessagePathState P)) :
    ∃ current, (applyToSource path messageId pathStates).2 = path.write current := by
  unfold applyToSource
  split
  · exact ⟨path.value, (VersionedCell.write_of_eq rfl).symm⟩
  · exact ⟨_, rfl⟩

theorem remap_advances {messageId : Str} {pathStates : List (MessagePathState P)}
    (h : step source (.remap messageId pathStates) = some source') : Advances source source' := by
  obtain rfl := Option.some.inj h
  obtain ⟨current, hcurrent⟩ := applyToSource_write source.path messageId pathStates
  refine ⟨fun _ hr => hr, Or.inr ⟨current, _, hcurrent, rfl, ?_⟩⟩
  show source.path.value ≠ _ ↔ _
  rw [hcurrent, VersionedCell.write_value]

/-- The step of a reader, with the reader that takes it. -/
theorem advance_cases (hsource : Accounted source)
    (h : step source (.advance i files) = some source') :
    ∃ reader reader', source.readers[i]? = some reader ∧ Advanced source i source' reader' := by
  obtain ⟨reader, hreader, hadvance⟩ := Option.bind_eq_some_iff.1 h
  obtain ⟨reader', hadvanced⟩ := advance_advanced (hsource i reader hreader) hadvance
  exact ⟨reader, reader', hreader, hadvanced⟩

theorem accounted_step (hsource : Accounted source) (h : step source event = some source') :
    Accounted source' := by
  cases event with
  | remap messageId pathStates =>
    have hadvances := remap_advances h
    obtain rfl := Option.some.inj h
    exact fun i reader hreader => hadvances.holds (hsource i reader hreader)
  | call =>
    obtain rfl := Option.some.inj h
    have hadvances : Advances source
        { source with readers := source.readers ++ [Reader.attempt 0] } :=
      .of_eq (fun _ hr => hr) rfl rfl
    intro i reader hreader
    rcases Nat.lt_or_ge i source.readers.length with hold | hnew
    · have hold' : source.readers[i]? = some reader :=
        (List.getElem?_append_left hold).symm.trans hreader
      exact hadvances.holds (hsource i reader hold')
    · have hnew' : [Reader.attempt 0][i - source.readers.length]? = some reader :=
        (List.getElem?_append_right hnew).symm.trans hreader
      obtain rfl := List.mem_singleton.1 (List.mem_of_getElem? hnew')
      trivial
  | advance i files =>
    obtain ⟨reader, reader', -, hadvanced⟩ := advance_cases hsource h
    intro j other hother
    rw [hadvanced.readers] at hother
    by_cases hij : i = j
    · subst hij
      rw [List.getElem?_set_self'] at hother
      obtain ⟨_, -, rfl⟩ := Option.map_eq_some_iff.1 hother
      exact hadvanced.holds
    · rw [List.getElem?_set_ne hij] at hother
      exact hadvanced.advances.holds (hsource j other hother)

theorem neverStale_step (haccounted : Accounted source)
    (hsource : source.path.version < u64Max → NeverStale source)
    (h : step source event = some source') (hlt : source'.path.version < u64Max) :
    NeverStale source' := by
  cases event with
  | remap messageId pathStates =>
    have hle := (remap_advances h).version_le
    obtain rfl := Option.some.inj h
    exact (hsource (Nat.lt_of_le_of_lt hle hlt)).append rfl (fun _ _ _ heq => by cases heq)
  | call =>
    obtain rfl := Option.some.inj h
    exact hsource hlt
  | advance i files =>
    obtain ⟨_, _, -, hadvanced⟩ := advance_cases haccounted h
    have hsource := hsource (Nat.lt_of_le_of_lt hadvanced.advances.version_le hlt)
    rcases hadvanced.replaced with hwrites | ⟨before, after, since, hwrites, hunchanged⟩
    · intro older before after since newer hsplit
      rw [hwrites] at hsplit
      exact hsource older before after since newer hsplit
    · apply hsource.append hwrites
      intro _ _ since' heq
      obtain ⟨-, -, rfl⟩ := PathWrite.replaced.inj heq
      exact hunchanged hlt

/-- **Readers and remaps.** While the generation is below its end: no resolver result overwrites a
remap, or another replacement, that changed the path after it was found; and a reader that returns
bytes read them from the path that is the current one at its last look at the generation. -/
theorem messageSource_run (path : P) (resolver : Option Str)
    {trace : List (MessageSource P B E × SourceEvent P B E)}
    (hrun : Transition.Run (Transition.Steps step) { path := .new path, resolver := resolver }
      trace source)
    (hversion : source.path.version < u64Max) :
    (∀ older before after since newer,
      source.writes = older ++ PathWrite.replaced before after since :: newer →
      ∀ write ∈ older.drop since, ¬ write.Changes) ∧
    ∀ i files next, step source (.advance i files) = some next → next.path.version < u64Max →
      ∀ path bytes, next.readers[i]? = some (.returned (.ok (path, bytes))) →
        next.path.value = path ∧ (i, path, bytes) ∈ next.reads := by
  obtain ⟨haccounted, hstale⟩ : Accounted source ∧
      (source.path.version < u64Max → NeverStale source) := by
    apply Transition.Run.invariant (I := fun source => Accounted source ∧
      (source.path.version < u64Max → NeverStale source)) _ _ hrun
    · intro t e u ht hstep
      exact ⟨accounted_step ht.1 hstep, neverStale_step ht.1 ht.2 hstep⟩
    · refine ⟨fun i reader hreader => absurd hreader (by simp), fun _ => ?_⟩
      intro older before after since newer hsplit
      exact absurd hsplit (by simp)
  -- The reader that returns has just compared the generation with that of its snapshot.
  refine ⟨hstale hversion, fun i files next hnext hlt path bytes hreturned => ?_⟩
  obtain ⟨reader, reader', hreader, hadvanced⟩ := advance_cases haccounted hnext
  rw [hadvanced.readers, List.getElem?_set_self', hreader] at hreturned
  exact hadvanced.current path bytes (Option.some.inj hreturned) hlt

/-- The database knows where the message is. -/
def movedTo (path : Nat) : Files Nat Nat Nat where
  readBounded tried := if tried = path then .ok (10 * path) else .error tried
  openMessageIdFile _ := .ok path

/-- A remap and then a reader that asks the database; a second reader returns what it finds. -/
theorem messageSource_run_moved : ∃ source : MessageSource Nat Nat Nat,
    ((∀ older before after since newer,
      source.writes = older ++ PathWrite.replaced before after since :: newer →
      ∀ write ∈ older.drop since, ¬ write.Changes) ∧
    ∀ i files next, step source (.advance i files) = some next → next.path.version < u64Max →
      ∀ path bytes, next.readers[i]? = some (.returned (.ok (path, bytes))) →
        next.path.value = path ∧ (i, path, bytes) ∈ next.reads) ∧
    source.writes = [.remapped 1 2, .replaced 2 3 1] :=
  ⟨_, messageSource_run 1 (some ['m']) (Transition.run_of_exec
    [.remap ['m'] [⟨['m'], [2], [⟨1, 2⟩]⟩], .call, .advance 0 (movedTo 3), .advance 0 (movedTo 3),
      .advance 0 (movedTo 3), .advance 0 (movedTo 3), .advance 0 (movedTo 3),
      .advance 0 (movedTo 3), .call, .advance 1 (movedTo 3), .advance 1 (movedTo 3)] rfl)
    (by decide), rfl⟩

/-! ## Remaps that do not move the generation -/

/-- After as many remaps as there are generations the counter stands at its end. -/
theorem generation_exhausted (n : Nat) : ∃ trace writes,
    Transition.Run (Transition.Steps step) ({ path := .new 0, resolver := some ['m'] } :
      MessageSource Nat Nat Nat) trace
      { path := ⟨n, min n u64Max, Nat.min_le_right _ _⟩
        resolver := some ['m']
        writes } := by
  induction n with
  | zero => exact ⟨[], [], .nil⟩
  | succ n ih =>
    obtain ⟨trace, writes, hrun⟩ := ih
    have hnext : saturatingSucc (min n u64Max) = min (n + 1) u64Max := by
      unfold saturatingSucc
      omega
    refine ⟨_, writes ++ [.remapped n (n + 1)],
      hrun.snoc (e := .remap ['m'] [⟨['m'], [n + 1], [⟨n, n + 1⟩]⟩]) ?_⟩
    unfold Transition.Steps step applyToSource
    simp [applyMatchingPathStates, followPathState, VersionedCell.write, hnext]

/-- A resolver result overwrites the path that a later remap has left: when the states of that
remap lead away from the path and back again, and when the generation stands at its end. -/
theorem stale_result_overwrites :
    (∃ trace, ∃ source : MessageSource Nat Nat Nat,
      Transition.Run (Transition.Steps step) { path := .new 0, resolver := some ['m'] }
        trace source ∧
      ∃ older before after since newer,
        source.writes = older ++ PathWrite.replaced before after since :: newer ∧
        before ≠ after ∧ ∃ remapped, .remapped remapped before ∈ older.drop since) ∧
    ∃ trace, ∃ source : MessageSource Nat Nat Nat,
      Transition.Run (Transition.Steps step) { path := .new 0, resolver := some ['m'] }
        trace source ∧
      ∃ older before after since newer,
        source.writes = older ++ PathWrite.replaced before after since :: newer ∧
        before ≠ after ∧ ∃ remapped, remapped ≠ before ∧
          .remapped remapped before ∈ older.drop since := by
  constructor
  · have hrun := Transition.run_of_exec (f := step)
      (s := ({ path := .new 0, resolver := some ['m'] } : MessageSource Nat Nat Nat))
      [.call, .advance 0 (movedTo 1), .advance 0 (movedTo 1), .advance 0 (movedTo 1),
        .advance 0 (movedTo 1), .remap ['m'] [⟨['m'], [1], [⟨0, 1⟩]⟩, ⟨['m'], [0], [⟨1, 0⟩]⟩],
        .advance 0 (movedTo 0), .advance 0 (movedTo 0)] rfl
    exact ⟨_, _, hrun, [.remapped 0 0], 0, 1, 0, [], rfl, by decide, 0, List.mem_singleton_self _⟩
  · obtain ⟨trace, writes, hrun⟩ := generation_exhausted u64Max
    have hrest := Transition.run_of_exec (f := step)
      [.call, .advance 0 (movedTo 0), .advance 0 (movedTo 1), .advance 0 (movedTo 1),
        .advance 0 (movedTo 1), .remap ['m'] [⟨['m'], [2], [⟨u64Max, 2⟩]⟩],
        .advance 0 (movedTo 2), .advance 0 (movedTo 2)]
      (show Transition.exec step
        ({ path := ⟨u64Max, min u64Max u64Max, Nat.min_le_right _ _⟩, resolver := some ['m']
           writes := writes } : MessageSource Nat Nat Nat) _ = some _ from rfl)
    refine ⟨_, _, hrun.trans hrest, writes ++ [.remapped u64Max 2], 2, 1, writes.length, [], ?_,
      by decide, u64Max, by decide, ?_⟩
    · show writes ++ [PathWrite.remapped u64Max 2] ++ [PathWrite.replaced 2 1 writes.length] = _
      rfl
    · rw [List.drop_left]
      exact List.mem_singleton_self _

end MessageSource

end Notm.Ui
