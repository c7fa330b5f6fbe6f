import Notm.Lib.Counter
import Notm.Lib.FilePath

/-!
# Saving an attachment

An attachment is saved under its own name made safe, or under the first number after that name for
which there is no file yet. The file is created and then written, so when the writing fails it stays
with what has been written of it.

* `saveNumbered_spec` — the search ends at the first attempt that does not collide.
* `numberedFilename_injective` — different attempts have different names.
* `saveAttachment_cases` — a save fails without a file, or it creates one and writes it.
* `SavesSafely`, `WriteFails` — what a save should leave, and the one thing that goes wrong.
* `attachment_saved_safely_iff` — a save is safe exactly where that does not happen.
-/

namespace Notm.Mail

open Rust

/-! ## Names -/

/-- No name that is returned leads out of the directory. -/
def sanitizeAttachmentFilename (filename : Str) : Str :=
  let cleaned := filename.map fun c => if c = '/' ∨ c = '\\' ∨ c = '\x00' then '_' else c
  if trim cleaned = [] ∨ cleaned = ['.'] ∨ cleaned = ['.', '.'] then "attachment.bin".toList
  else cleaned

/-- The number after a name, as `format!` writes it. -/
def collisionSuffix (collisionIndex : Nat) : OsString :=
  OsString.ofStr (" (".toList ++ natText collisionIndex ++ [')'])

/-- The number goes in front of the extension, if there is one. -/
def numberedFilename (filename : OsString) (collisionIndex : Nat) : OsString :=
  if collisionIndex = 0 then filename
  else
    let extension := filename.extension.filter (· ≠ [])
    let stem := match extension with
      | some _ => filename.fileStem
      | none => filename
    let numbered := stem ++ collisionSuffix collisionIndex
    match extension with
    | some extension => numbered ++ OsString.dot :: extension
    | none => numbered

/-! ## Files -/

/-- What stands under a path: a file, or anything else. -/
inductive SaveEntry where
  | file (content : Bytes)
  | other
  deriving DecidableEq

/-- The file system, a path with what stands under it. -/
abbrev SaveFiles := List (FilePath × SaveEntry)

/-- How the operating system answers: with an error, or not. An error of opening is not
`AlreadyExists`, and one of writing comes after some bytes. -/
structure SaveCalls where
  createDirAll : FilePath → Option Nat
  openNew : FilePath → Option Nat
  writeAll : FilePath → Option (Nat × Nat)

/-- An error of the operating system, or one of the function's own. -/
inductive SaveError where
  | os (code : Nat)
  | invalidInput (text : Str)
  | other (text : Str)
  deriving DecidableEq

def missingFilename : SaveError :=
  .invalidInput "attachment target must include a filename".toList

def counterOverflowed : SaveError :=
  .other "attachment filename collision counter overflowed".toList

/-- `file.write_all(bytes)` on the file that has been created. -/
def writeNew (calls : SaveCalls) (files : SaveFiles) (path : FilePath) (bytes : Bytes) :
    Except SaveError FilePath × SaveFiles :=
  match calls.writeAll path with
  | some (written, code) =>
    if written < bytes.length then (.error (.os code), (path, .file (bytes.take written)) :: files)
    else (.ok path, (path, .file bytes) :: files)
  | none => (.ok path, (path, .file bytes) :: files)

/-- The loop of `save_attachment_to_target_without_overwrite`. -/
def saveNumbered (calls : SaveCalls) (target : FilePath) (filename : OsString) (bytes : Bytes)
    (files : SaveFiles) (collisionIndex : Nat) : Except SaveError FilePath × SaveFiles :=
  let path := target.withFileName (numberedFilename filename collisionIndex)
  match calls.openNew path with
  | some code => (.error (.os code), files)
  | none =>
    if (files.lookup path).isSome = true then
      -- `AlreadyExists`
      if collisionIndex < u64Max then
        saveNumbered calls target filename bytes files (collisionIndex + 1)
      else (.error counterOverflowed, files)
    else writeNew calls files path bytes
termination_by u64Max - collisionIndex

/-- `save_attachment_to_target_without_overwrite`. A directory that is created is no change to what
stands in the directories there are. -/
def saveAttachmentToTargetWithoutOverwrite (calls : SaveCalls) (files : SaveFiles)
    (target : FilePath) (bytes : Bytes) : Except SaveError FilePath × SaveFiles :=
  let parent := (target.parent.filter (· ≠ [])).getD [.curDir]
  match target.fileName with
  | none => (.error missingFilename, files)
  | some filename =>
    match calls.createDirAll parent with
    | some code => (.error (.os code), files)
    | none => saveNumbered calls target filename bytes files 0

/-- The directory is made if it is missing; the name is made safe before it is joined. -/
def saveAttachmentWithoutOverwrite (calls : SaveCalls) (files : SaveFiles) (targetDir : FilePath)
    (filename : Str) (bytes : Bytes) : Except SaveError FilePath × SaveFiles :=
  match calls.createDirAll targetDir with
  | some code => (.error (.os code), files)
  | none =>
    saveAttachmentToTargetWithoutOverwrite calls files
      (targetDir.join (OsString.ofStr (sanitizeAttachmentFilename filename))) bytes

/-! ## Safe names -/

variable {filename : Str} {name : OsString} {i j : Nat}

theorem isFileName_of_plain {text : Str} (hne : text ≠ []) (hslash : '/' ∉ text)
    (hdot : text ≠ ['.']) (hdots : text ≠ ['.', '.']) :
    FilePath.IsFileName (OsString.ofStr text) where
  nonempty := fun hnil => hne (List.map_eq_nil_iff.1 hnil)
  noSlash := by
    intro hmem
    obtain ⟨c, hc, hunit⟩ := List.mem_map.1 hmem
    exact hslash (OsUnit.char.inj hunit ▸ hc)
  notDot := fun heq => hdot (OsString.ofStr_injective heq)
  notDots := fun heq => hdots (OsString.ofStr_injective heq)

/-- Whatever an attachment is called, it is saved under a name that a file may have. -/
theorem sanitizeAttachmentFilename_isFileName (filename : Str) :
    FilePath.IsFileName (OsString.ofStr (sanitizeAttachmentFilename filename)) := by
  unfold sanitizeAttachmentFilename
  dsimp only
  split
  · exact isFileName_of_plain (by decide) (by decide) (by decide) (by decide)
  · next hsafe =>
    simp only [not_or] at hsafe
    refine isFileName_of_plain (fun hnil => hsafe.1 ?_) (fun hmem => ?_) hsafe.2.1 hsafe.2.2
    · rw [hnil, trim_nil]
    · obtain ⟨c, _, hc⟩ := List.mem_map.1 hmem
      split at hc
      · exact absurd hc (by decide)
      · next hkept => exact hkept (Or.inl hc)

/-- A numbered name is the name with the number put in. -/
theorem numberedFilename_split (name : OsString) :
    ∃ stem ending, stem ++ ending = name ∧
      ∀ i ≠ 0, numberedFilename name i = stem ++ (collisionSuffix i ++ ending) := by
  cases hextension : name.extension.filter (· ≠ []) with
  | none =>
    refine ⟨name, [], List.append_nil name, fun i hi => ?_⟩
    unfold numberedFilename
    rw [if_neg hi, hextension, List.append_nil]
  | some extension =>
    have hsome := (Option.filter_eq_some_iff.1 hextension).1
    refine ⟨name.fileStem, OsString.dot :: extension, (OsString.fileStem_extension hsome).2,
      fun i hi => ?_⟩
    unfold numberedFilename
    rw [if_neg hi, hextension]
    exact List.append_assoc _ _ _

theorem three_le_length_collisionSuffix (i : Nat) : 3 ≤ (collisionSuffix i).length := by
  unfold collisionSuffix OsString.ofStr
  rw [List.length_map, List.length_append, List.length_append]
  show 3 ≤ 2 + _ + 1
  omega

theorem collisionSuffix_injective (h : collisionSuffix i = collisionSuffix j) : i = j := by
  have htext := OsString.ofStr_injective h
  rw [List.append_assoc, List.append_assoc] at htext
  exact natText_injective (List.append_cancel_right (List.append_cancel_left htext))

theorem slash_not_mem_collisionSuffix (i : Nat) : FilePath.slash ∉ collisionSuffix i := by
  intro hmem
  obtain ⟨c, hc, hunit⟩ := List.mem_map.1 hmem
  obtain rfl : c = '/' := OsUnit.char.inj hunit
  simp only [List.mem_append, List.mem_singleton] at hc
  rcases hc with (hopen | hdigit) | hclose
  · exact absurd hopen (by decide)
  · exact absurd (isDigit_of_mem_natText hdigit) (by decide)
  · exact absurd hclose (by decide)

/-- Different attempts have different names. -/
theorem numberedFilename_injective (h : numberedFilename name i = numberedFilename name j) :
    i = j := by
  obtain ⟨stem, ending, hname, hnumbered⟩ := numberedFilename_split name
  have hzero : numberedFilename name 0 = name := if_pos rfl
  -- A number makes a name longer than the name without one.
  have hlonger : ∀ i ≠ 0, numberedFilename name i ≠ name := by
    intro i hi heq
    have hlength := congrArg List.length (heq.symm.trans (hnumbered i hi))
    rw [← hname] at hlength
    simp only [List.length_append] at hlength
    have hsuffix := three_le_length_collisionSuffix i
    omega
  by_cases hi : i = 0
  · by_contra hne
    subst hi
    exact hlonger j (fun hj => hne hj.symm) (h.symm.trans hzero)
  · by_cases hj : j = 0
    · subst hj
      exact absurd (h.trans hzero) (hlonger i hi)
    · rw [hnumbered i hi, hnumbered j hj] at h
      exact collisionSuffix_injective (List.append_cancel_right (List.append_cancel_left h))

theorem numberedFilename_isFileName (h : FilePath.IsFileName name) (i : Nat) :
    FilePath.IsFileName (numberedFilename name i) := by
  by_cases hi : i = 0
  · subst hi
    exact h
  · obtain ⟨stem, ending, hname, hnumbered⟩ := numberedFilename_split name
    rw [hnumbered i hi]
    have hlong : 3 ≤ (stem ++ (collisionSuffix i ++ ending)).length := by
      have hsuffix := three_le_length_collisionSuffix i
      simp only [List.length_append]
      omega
    have hslash := h.noSlash
    rw [← hname, List.mem_append, not_or] at hslash
    refine ⟨fun heq => ?_, fun hmem => ?_, fun heq => ?_, fun heq => ?_⟩
    · rw [heq] at hlong
      exact absurd hlong (by decide)
    · simp only [List.mem_append] at hmem
      rcases hmem with hstem | hsuffix | hending
      · exact hslash.1 hstem
      · exact slash_not_mem_collisionSuffix i hsuffix
      · exact hslash.2 hending
    · rw [heq] at hlong
      exact absurd hlong (by decide)
    · rw [heq] at hlong
      exact absurd hlong (by decide)

/-! ## The search -/

variable {calls : SaveCalls} {files : SaveFiles} {targetDir : FilePath} {bytes : Bytes}

/-- The path of an attempt. -/
def attemptPath (targetDir : FilePath) (filename : Str) (i : Nat) : FilePath :=
  targetDir ++
    [.normal (numberedFilename (OsString.ofStr (sanitizeAttachmentFilename filename)) i)]

theorem attemptPath_injective (h : attemptPath targetDir filename i =
    attemptPath targetDir filename j) : i = j := by
  have hname := List.append_cancel_left h
  exact numberedFilename_injective (PathComponent.normal.inj (List.cons.inj hname).1)

/-- An attempt meets something that stands under its path. -/
def Collides (calls : SaveCalls) (files : SaveFiles) (targetDir : FilePath) (filename : Str)
    (i : Nat) : Prop :=
  calls.openNew (attemptPath targetDir filename i) = none ∧
    (files.lookup (attemptPath targetDir filename i)).isSome = true

/-- What the attempt does with which the search ends. -/
def finish (calls : SaveCalls) (files : SaveFiles) (path : FilePath) (bytes : Bytes) :
    Except SaveError FilePath × SaveFiles :=
  match calls.openNew path with
  | some code => (.error (.os code), files)
  | none => writeNew calls files path bytes

/-- The search ends with the first attempt that does not collide, or with the last there is. -/
theorem saveNumbered_spec (calls : SaveCalls) (files : SaveFiles) (targetDir : FilePath)
    (filename : Str) (bytes : Bytes) (start : Nat) (hstart : start ≤ u64Max) :
    (∃ n, start ≤ n ∧ n ≤ u64Max ∧
      (∀ i, start ≤ i → i < n → Collides calls files targetDir filename i) ∧
      ¬ Collides calls files targetDir filename n ∧
      saveNumbered calls (attemptPath targetDir filename 0)
          (OsString.ofStr (sanitizeAttachmentFilename filename)) bytes files start =
        finish calls files (attemptPath targetDir filename n) bytes) ∨
    ((∀ i, start ≤ i → i ≤ u64Max → Collides calls files targetDir filename i) ∧
      saveNumbered calls (attemptPath targetDir filename 0)
          (OsString.ofStr (sanitizeAttachmentFilename filename)) bytes files start =
        (.error counterOverflowed, files)) := by
  have hpath : (attemptPath targetDir filename 0).withFileName (numberedFilename
      (OsString.ofStr (sanitizeAttachmentFilename filename)) start) =
        attemptPath targetDir filename start :=
    FilePath.withFileName_concat
      (numberedFilename_isFileName (sanitizeAttachmentFilename_isFileName filename) start)
  rw [saveNumbered, hpath]
  -- The recursion is on the numbers that are left.
  by_cases hcollides : Collides calls files targetDir filename start
  · rw [hcollides.1]
    dsimp only
    rw [if_pos hcollides.2]
    by_cases hlast : start < u64Max
    · rw [if_pos hlast]
      have hlater : ∀ i, start ≤ i → i ≠ start → start + 1 ≤ i := fun i hi hne => by omega
      rcases saveNumbered_spec calls files targetDir filename bytes (start + 1) hlast with
        ⟨n, hn, hmax, hbefore, hfree, hresult⟩ | ⟨hall, hresult⟩
      · refine Or.inl ⟨n, by omega, hmax, fun i hi hlt => ?_, hfree, hresult⟩
        by_cases hfirst : i = start
        · exact hfirst ▸ hcollides
        · exact hbefore i (hlater i hi hfirst) hlt
      · refine Or.inr ⟨fun i hi hle => ?_, hresult⟩
        by_cases hfirst : i = start
        · exact hfirst ▸ hcollides
        · exact hall i (hlater i hi hfirst) hle
    · -- This was the last number.
      rw [if_neg hlast]
      refine Or.inr ⟨fun i hi hle => ?_, rfl⟩
      obtain rfl : i = start := by omega
      exact hcollides
  · refine Or.inl ⟨start, Nat.le_refl _, hstart, fun i hi hlt => absurd hi (by omega),
      hcollides, ?_⟩
    unfold finish
    cases hopen : calls.openNew (attemptPath targetDir filename start) with
    | some code => rfl
    | none =>
      dsimp only
      exact if_neg fun hsome => hcollides ⟨hopen, hsome⟩
termination_by u64Max - start

/-! ## What a save does -/

/-- The directory of the target, as it is created. -/
def parentDir (targetDir : FilePath) : FilePath :=
  if targetDir = [] then [.curDir] else targetDir

/-- The search ends with this attempt. -/
structure EndsAt (calls : SaveCalls) (files : SaveFiles) (targetDir : FilePath) (filename : Str)
    (n : Nat) : Prop where
  inRange : n ≤ u64Max
  before : ∀ i < n, Collides calls files targetDir filename i
  free : ¬ Collides calls files targetDir filename n

theorem EndsAt.unique {m n : Nat} (h : EndsAt calls files targetDir filename m)
    (h' : EndsAt calls files targetDir filename n) : m = n := by
  have hmn : ¬ m < n := fun hlt => h.free (h'.before m hlt)
  have hnm : ¬ n < m := fun hlt => h'.free (h.before n hlt)
  omega

/-- The file is created, and then its writing fails before all bytes are written. Both calls before
it have succeeded, for else nothing is created. -/
structure WriteFails (calls : SaveCalls) (files : SaveFiles) (targetDir : FilePath)
    (filename : Str) (bytes : Bytes) : Prop where
  directory : calls.createDirAll targetDir = none
  parent : calls.createDirAll (parentDir targetDir) = none
  write : ∃ n written code, EndsAt calls files targetDir filename n ∧
    calls.openNew (attemptPath targetDir filename n) = none ∧
    calls.writeAll (attemptPath targetDir filename n) = some (written, code) ∧
    written < bytes.length

theorem saveAttachment_eq (calls : SaveCalls) (files : SaveFiles) (targetDir : FilePath)
    (filename : Str) (bytes : Bytes) :
    saveAttachmentWithoutOverwrite calls files targetDir filename bytes =
      match calls.createDirAll targetDir with
      | some code => (.error (.os code), files)
      | none =>
        match calls.createDirAll (parentDir targetDir) with
        | some code => (.error (.os code), files)
        | none => saveNumbered calls (attemptPath targetDir filename 0)
          (OsString.ofStr (sanitizeAttachmentFilename filename)) bytes files 0 := by
  have htarget : targetDir.join (OsString.ofStr (sanitizeAttachmentFilename filename)) =
      attemptPath targetDir filename 0 :=
    FilePath.join_of_isFileName (sanitizeAttachmentFilename_isFileName filename)
  have hparent : (((attemptPath targetDir filename 0).parent).filter (· ≠ [])).getD [.curDir] =
      parentDir targetDir := by
    unfold attemptPath parentDir
    rw [FilePath.parent_concat]
    by_cases hempty : targetDir = []
    · rw [if_pos hempty, hempty]
      rfl
    · have hkept : (some targetDir).filter (· ≠ []) = some targetDir :=
        Option.filter_some_pos (decide_eq_true hempty)
      rw [if_neg hempty, hkept]
      rfl
  have hname : (attemptPath targetDir filename 0).fileName =
      some (OsString.ofStr (sanitizeAttachmentFilename filename)) := FilePath.fileName_concat _ _
  unfold saveAttachmentWithoutOverwrite saveAttachmentToTargetWithoutOverwrite
  rw [htarget, hparent, hname]

/-- A save fails without a file, or it creates one and writes it. -/
theorem saveAttachment_cases (calls : SaveCalls) (files : SaveFiles) (targetDir : FilePath)
    (filename : Str) (bytes : Bytes) :
    (∃ code, saveAttachmentWithoutOverwrite calls files targetDir filename bytes =
        (.error (.os code), files) ∧ ¬ WriteFails calls files targetDir filename bytes) ∨
    ((∀ i ≤ u64Max, Collides calls files targetDir filename i) ∧
      saveAttachmentWithoutOverwrite calls files targetDir filename bytes =
        (.error counterOverflowed, files)) ∨
    ∃ n, EndsAt calls files targetDir filename n ∧ calls.createDirAll targetDir = none ∧
      calls.createDirAll (parentDir targetDir) = none ∧
      calls.openNew (attemptPath targetDir filename n) = none ∧
      saveAttachmentWithoutOverwrite calls files targetDir filename bytes =
        writeNew calls files (attemptPath targetDir filename n) bytes := by
  rw [saveAttachment_eq]
  cases hdirectory : calls.createDirAll targetDir with
  | some code =>
    refine Or.inl ⟨code, rfl, fun hfails => ?_⟩
    exact absurd (hdirectory.symm.trans hfails.directory) (by simp)
  | none =>
    cases hparent : calls.createDirAll (parentDir targetDir) with
    | some code =>
      refine Or.inl ⟨code, rfl, fun hfails => ?_⟩
      exact absurd (hparent.symm.trans hfails.parent) (by simp)
    | none =>
      dsimp only
      rcases saveNumbered_spec calls files targetDir filename bytes 0 (Nat.zero_le _) with
        ⟨n, _, hmax, hbefore, hfree, hresult⟩ | ⟨hall, hresult⟩
      · have hends : EndsAt calls files targetDir filename n :=
          ⟨hmax, fun i hi => hbefore i (Nat.zero_le i) hi, hfree⟩
        rw [hresult]
        unfold finish
        cases hopen : calls.openNew (attemptPath targetDir filename n) with
        | some code =>
          refine Or.inl ⟨code, rfl, fun hfails => ?_⟩
          obtain ⟨m, _, _, hends', hopen', _⟩ := hfails.write
          rw [hends.unique hends', hopen'] at hopen
          exact absurd hopen (by simp)
        | none => exact Or.inr (Or.inr ⟨n, hends, rfl, rfl, hopen, rfl⟩)
      · exact Or.inr (Or.inl ⟨fun i hi => hall i (Nat.zero_le i) hi, hresult⟩)

/-- Among as many attempts as there are paths, and one more, one is free. -/
theorem exists_free_attempt (files : SaveFiles) (targetDir : FilePath) (filename : Str) :
    ∃ n ≤ files.length, files.lookup (attemptPath targetDir filename n) = none := by
  by_contra hnone
  push Not at hnone
  have hsubset : (Finset.range (files.length + 1)).image (attemptPath targetDir filename) ⊆
      (files.map Prod.fst).toFinset := by
    intro path hpath
    obtain ⟨n, hn, rfl⟩ := Finset.mem_image.1 hpath
    obtain ⟨entry, hentry⟩ := Option.ne_none_iff_exists'.1
      (hnone n (Nat.lt_succ_iff.1 (Finset.mem_range.1 hn)))
    obtain ⟨before, after, hsplit, _⟩ := List.lookup_eq_some_iff.1 hentry
    rw [List.mem_toFinset, hsplit]
    exact List.mem_map_of_mem (List.mem_append_right before List.mem_cons_self)
  have hcard := Finset.card_le_card hsubset
  rw [Finset.card_image_of_injective _ fun _ _ => attemptPath_injective, Finset.card_range] at hcard
  have hkeys := List.toFinset_card_le (files.map Prod.fst)
  rw [List.length_map] at hkeys
  omega

/-- What a save leaves: the files there were, and no other than one under the target directory, with
the whole attachment; and what the search for its name is like. -/
structure SavesSafely (files : SaveFiles) (targetDir : FilePath) (filename : Str) (bytes : Bytes)
    (result : Except SaveError FilePath × SaveFiles) : Prop where
  kept : ∀ path entry, files.lookup path = some entry → result.2.lookup path = some entry
  child : ∀ path, result.2.lookup path ≠ files.lookup path →
    ∃ name, FilePath.IsFileName name ∧ path = targetDir ++ [.normal name]
  saved : ∀ path, result.1 = .ok path →
    files.lookup path = none ∧ result.2.lookup path = some (.file bytes)
  free : ∃ n ≤ files.length, files.lookup (attemptPath targetDir filename n) = none
  found : files.length ≤ u64Max → result.1 ≠ .error counterOverflowed
  distinct : ∀ i j, numberedFilename (OsString.ofStr (sanitizeAttachmentFilename filename)) i =
    numberedFilename (OsString.ofStr (sanitizeAttachmentFilename filename)) j → i = j
  failed : ∀ error, result.1 = .error error → ∀ path, result.2.lookup path = files.lookup path

theorem lookup_new (files : SaveFiles) (path other : FilePath) (entry : SaveEntry) :
    ((path, entry) :: files : SaveFiles).lookup other =
      if other = path then some entry else files.lookup other := by
  rw [List.lookup_cons]
  by_cases h : other = path
  · rw [if_pos h, h]
    simp
  · rw [if_neg h, beq_false_of_ne h]

/-- A path under which nothing stood has the new file, and the others have what they had. -/
theorem lookup_new_kept {path other : FilePath} {entry old : SaveEntry}
    (hnew : files.lookup path = none) (hold : files.lookup other = some old) :
    ((path, entry) :: files : SaveFiles).lookup other = some old := by
  have hne : other ≠ path := by
    intro heq
    rw [heq, hnew] at hold
    exact absurd hold (by simp)
  rw [lookup_new, if_neg hne, hold]

theorem EndsAt.lookup_eq_none {n : Nat} (h : EndsAt calls files targetDir filename n)
    (hopen : calls.openNew (attemptPath targetDir filename n) = none) :
    files.lookup (attemptPath targetDir filename n) = none := by
  rw [← Option.not_isSome_iff_eq_none]
  exact fun hsome => h.free ⟨hopen, hsome⟩

/-- A file that is created stands under the target directory. -/
theorem eq_attemptPath_of_changed {n : Nat} {path : FilePath} {entry : SaveEntry}
    (h : ((attemptPath targetDir filename n, entry) :: files : SaveFiles).lookup path ≠
      files.lookup path) :
    ∃ name, FilePath.IsFileName name ∧ path = targetDir ++ [.normal name] := by
  have heq : path = attemptPath targetDir filename n := by
    by_contra hne
    rw [lookup_new, if_neg hne] at h
    exact h rfl
  exact ⟨_, numberedFilename_isFileName (sanitizeAttachmentFilename_isFileName filename) n, heq⟩

/-- A save that leaves the files as they are, with an error of the system or of the counter. -/
theorem savesSafely_of_unchanged {error : SaveError}
    (hfound : files.length ≤ u64Max → error ≠ counterOverflowed) :
    SavesSafely files targetDir filename bytes (.error error, files) where
  kept := fun _ _ hlookup => hlookup
  child := fun _ hchanged => absurd rfl hchanged
  saved := fun _ hok => absurd hok (by simp)
  free := exists_free_attempt files targetDir filename
  found := fun hlength heq => hfound hlength (Except.error.inj heq)
  distinct := fun _ _ => numberedFilename_injective
  failed := fun _ _ _ => rfl

theorem savesSafely_of_written {n : Nat}
    (hnew : files.lookup (attemptPath targetDir filename n) = none) :
    SavesSafely files targetDir filename bytes (.ok (attemptPath targetDir filename n),
      (attemptPath targetDir filename n, .file bytes) :: files) where
  kept := fun _ _ hlookup => lookup_new_kept hnew hlookup
  child := fun _ hchanged => eq_attemptPath_of_changed hchanged
  saved := by
    intro path hok
    obtain rfl := Except.ok.inj hok
    exact ⟨hnew, by rw [lookup_new, if_pos rfl]⟩
  free := exists_free_attempt files targetDir filename
  found := fun _ heq => absurd heq (by simp)
  distinct := fun _ _ => numberedFilename_injective
  failed := fun _ herror => absurd herror (by simp)

/-- **Saving an attachment.** A save is safe but where the file is created and then cannot be
written: what has been written of it stays. Whatever else fails leaves the files as they were, and
there are more names to try than files in the way. -/
theorem attachment_saved_safely_iff (calls : SaveCalls) (files : SaveFiles) (targetDir : FilePath)
    (filename : Str) (bytes : Bytes) :
    SavesSafely files targetDir filename bytes
        (saveAttachmentWithoutOverwrite calls files targetDir filename bytes) ↔
      ¬ WriteFails calls files targetDir filename bytes := by
  constructor
  · -- The write fails: of the cases of a save this is one that creates the file, at the attempt
    -- where the search ends, and the file is left with a part of the bytes.
    intro hsafe hfails
    obtain ⟨n, written, code, hends, hopen, hwrite, hshort⟩ := hfails.write
    rcases saveAttachment_cases calls files targetDir filename bytes with
      ⟨_, _, hnot⟩ | ⟨hall, _⟩ | ⟨m, hends', _, _, _, hresult⟩
    · exact hnot hfails
    · exact hends.free (hall n hends.inRange)
    · obtain rfl := hends.unique hends'
      have hleft : writeNew calls files (attemptPath targetDir filename n) bytes =
          (.error (.os code), (attemptPath targetDir filename n, .file (bytes.take written)) ::
            files) := by
        unfold writeNew
        rw [hwrite]
        exact if_pos hshort
      rw [hresult, hleft] at hsafe
      have hpartial := hsafe.failed _ rfl (attemptPath targetDir filename n)
      rw [lookup_new, if_pos rfl, hends.lookup_eq_none hopen] at hpartial
      exact absurd hpartial (by simp)
  · intro hnot
    rcases saveAttachment_cases calls files targetDir filename bytes with
      ⟨code, hresult, _⟩ | ⟨hall, hresult⟩ | ⟨n, hends, hdirectory, hparent, hopen, hresult⟩
    · rw [hresult]
      exact savesSafely_of_unchanged fun _ heq => by cases heq
    · rw [hresult]
      -- The numbers are exhausted: that needs more files than there are.
      refine savesSafely_of_unchanged fun hlength => ?_
      obtain ⟨n, hn, hfree⟩ := exists_free_attempt files targetDir filename
      have hsome := (hall n (by omega)).2
      rw [hfree] at hsome
      exact absurd hsome (by simp)
    · have hwritten : writeNew calls files (attemptPath targetDir filename n) bytes =
          (.ok (attemptPath targetDir filename n),
            (attemptPath targetDir filename n, .file bytes) :: files) := by
        unfold writeNew
        split
        · next written code hwrite =>
          refine if_neg fun hshort => ?_
          exact hnot ⟨hdirectory, hparent, n, written, code, hends, hopen, hwrite, hshort⟩
        · rfl
      rw [hresult, hwritten]
      exact savesSafely_of_written (hends.lookup_eq_none hopen)

/-- A disk that is full after one byte. -/
def fullDisk : SaveCalls where
  createDirAll := fun _ => none
  openNew := fun _ => none
  writeAll := fun _ => some (1, 28)

def downloads : FilePath := [.normal (OsString.ofStr ['d'])]

/-- One byte of two stays in a file that was not there before. -/
theorem partial_file_left :
    (saveAttachmentWithoutOverwrite fullDisk [] downloads ['n'] [1, 2]).1 = .error (.os 28) ∧
      (saveAttachmentWithoutOverwrite fullDisk [] downloads ['n'] [1, 2]).2.lookup
          (downloads ++ [.normal (OsString.ofStr ['n'])]) = some (.file [1]) ∧
      ¬ SavesSafely [] downloads ['n'] [1, 2]
        (saveAttachmentWithoutOverwrite fullDisk [] downloads ['n'] [1, 2]) := by
  have hresult : saveAttachmentWithoutOverwrite fullDisk [] downloads ['n'] [1, 2] =
      (.error (.os 28), [(attemptPath downloads ['n'] 0, .file [1])]) := by
    rw [saveAttachment_eq]
    show saveNumbered _ _ _ _ _ _ = _
    rw [saveNumbered]
    decide +kernel
  rw [hresult]
  refine ⟨rfl, by decide +kernel, fun hsafe => ?_⟩
  have hpartial := hsafe.failed _ rfl (attemptPath downloads ['n'] 0)
  rw [lookup_new, if_pos rfl] at hpartial
  exact absurd hpartial (by simp)

end Notm.Mail
