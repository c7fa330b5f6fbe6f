import Notm.Ui.NamedDraftBudget

/-!
# A migration that fails or stops

Wherever a migration ends, a legacy draft is still where it was or its bytes are in the current
store, and no current draft has changed. The invariant of the second half says this of every state
it goes through: a source goes only when its destination holds its bytes.

The migration takes a legacy draft that the current store has under the same name for its
duplicate. When both directories are the same one, each draft is its own duplicate.

* `Underway` — a state of the second half: a source goes only when its destination holds its bytes.
* `meets_carryOut` — one draft, in all the ways its migration can end.
* `Preserves` — the bytes of every legacy draft are in one of the stores.
* `Consumes` — the one directory whose drafts are all their own duplicates.
* `migration_preserves_iff` — every migration preserves the drafts unless it is of that kind.
-/

namespace Notm.Ui

open Rust Crash LegacyMigrationError

variable {D : Type} [DecidableEq D] {files : FileStore D} {dir legacyDir : D}

/-! ## The second half -/

/-- The sources are drafts, and nothing is written twice or over a source. -/
structure Separate (migrations : List (LegacyMigration D)) : Prop where
  json : ∀ m ∈ migrations, m.source.fileName.isJson = true
  sources : (migrations.map LegacyMigration.source).Nodup
  distinct : (destinations migrations).Nodup
  target : ∀ d ∈ destinations migrations,
    d.fileName.isJson = true ∧ ∀ m ∈ migrations, d ≠ m.source

/-- A state of the second half: a source is gone only when its destination holds its bytes. -/
structure Underway (files : FileStore D) (migrations : List (LegacyMigration D)) (t : FileStore D) :
    Prop where
  frame : ∀ p, p.fileName.isJson = true → p ∉ migrations.map LegacyMigration.source →
    p ∉ destinations migrations → t p = files p
  source : ∀ m ∈ migrations, t m.source = files m.source ∨ t m.source = none ∧
    ∀ d, m.destination = some d → t d = some { bytes := m.bytes }
  destination : ∀ m ∈ migrations, ∀ d, m.destination = some d →
    t d = files d ∨ t d = some { bytes := m.bytes }

variable {migrations : List (LegacyMigration D)} {m : LegacyMigration D} {t : FileStore D}

omit [DecidableEq D] in
theorem underway_refl : Underway files migrations files where
  frame _ _ _ _ := rfl
  source _ _ := Or.inl rfl
  destination _ _ _ _ := Or.inl rfl

omit [DecidableEq D] in
theorem mem_destinations {d : Path D} (hm : m ∈ migrations) (hd : m.destination = some d) :
    d ∈ destinations migrations :=
  List.mem_filterMap.2 ⟨m, hm, hd⟩

omit [DecidableEq D] in
/-- A destination is that of one migration. -/
theorem Separate.eq_of_destination (h : Separate migrations) {m' : LegacyMigration D}
    {d : Path D} (hm : m ∈ migrations) (hm' : m' ∈ migrations) (hd : m.destination = some d)
    (hd' : m'.destination = some d) : m = m' := by
  have hdistinct := h.distinct
  unfold destinations at hdistinct
  clear h
  induction migrations with
  | nil => exact absurd hm List.not_mem_nil
  | cons a rest ih =>
    have hrest : ∀ b ∈ rest, b.destination = some d →
        d ∈ rest.filterMap LegacyMigration.destination :=
      fun b hb hbd => List.mem_filterMap.2 ⟨b, hb, hbd⟩
    rw [List.filterMap_cons] at hdistinct
    rcases List.mem_cons.1 hm with rfl | hlater
    · rcases List.mem_cons.1 hm' with rfl | hlater'
      · rfl
      · rw [hd] at hdistinct
        exact absurd (hrest m' hlater' hd') (List.nodup_cons.1 hdistinct).1
    · rcases List.mem_cons.1 hm' with rfl | hlater'
      · rw [hd'] at hdistinct
        exact absurd (hrest m hlater hd) (List.nodup_cons.1 hdistinct).1
      · apply ih hlater hlater'
        split at hdistinct
        · exact hdistinct
        · exact (List.nodup_cons.1 hdistinct).2

/-- Wherever the write of a destination ends. -/
theorem Underway.write (hsep : Separate migrations) (h : Underway files migrations t)
    (hm : m ∈ migrations) {d temporaryPath : Path D} (hd : m.destination = some d)
    (htemporary : temporaryPath.fileName.isJson = false) {u : FileStore D}
    (hbegun : WriteBegun t u temporaryPath d m.bytes) : Underway files migrations u := by
  have hmem := mem_destinations hm hd
  have hne : ∀ p : Path D, p.fileName.isJson = true → p ≠ temporaryPath := by
    rintro p hp rfl
    rw [hp] at htemporary
    cases htemporary
  refine ⟨?_, ?_, ?_⟩
  · intro p hp hsource hdestination
    have hpd : p ≠ d := fun hsame => hdestination (hsame ▸ hmem)
    rw [hbegun.frame p (hne p hp) hpd]
    exact h.frame p hp hsource hdestination
  · intro m' hm'
    have hsource : u m'.source = t m'.source :=
      hbegun.frame _ (hne _ (hsep.json m' hm')) fun hsame =>
        (hsep.target d hmem).2 m' hm' hsame.symm
    rw [hsource]
    refine (h.source m' hm').imp_right fun hgone => ⟨hgone.1, fun d' hd' => ?_⟩
    by_cases hsame : d' = d
    · -- a written destination is written with the same bytes again
      obtain rfl := hsep.eq_of_destination hm hm' hd (hsame ▸ hd')
      rcases hbegun.target with hkept | hwritten
      · rw [hsame, hkept]
        exact hsame ▸ hgone.2 d' hd'
      · rw [hsame, hwritten]
    · rw [hbegun.frame d' (hne d' (hsep.target d' (mem_destinations hm' hd')).1) hsame]
      exact hgone.2 d' hd'
  · intro m' hm' d' hd'
    by_cases hsame : d' = d
    · obtain rfl := hsep.eq_of_destination hm hm' hd (hsame ▸ hd')
      rw [hsame]
      rcases hbegun.target with hkept | hwritten
      · rw [hkept]
        exact h.destination m hm d hd
      · exact Or.inr hwritten
    · rw [hbegun.frame d' (hne d' (hsep.target d' (mem_destinations hm' hd')).1) hsame]
      exact h.destination m' hm' d' hd'

/-- A source goes once its destination is written. -/
theorem Underway.remove (hsep : Separate migrations) (h : Underway files migrations t)
    (hm : m ∈ migrations)
    (hwritten : ∀ d, m.destination = some d → t d = some { bytes := m.bytes }) :
    Underway files migrations (Function.update t m.source none) := by
  have hdestination : ∀ m' ∈ migrations, ∀ d, m'.destination = some d →
      Function.update t m.source none d = t d := by
    intro m' hm' d hd
    exact Function.update_of_ne ((hsep.target d (mem_destinations hm' hd)).2 m hm) _ _
  refine ⟨?_, ?_, ?_⟩
  · intro p hp hsource hd
    have hne : p ≠ m.source := fun hsame => hsource (hsame ▸ List.mem_map_of_mem hm)
    rw [Function.update_of_ne hne]
    exact h.frame p hp hsource hd
  · intro m' hm'
    by_cases hsame : m'.source = m.source
    · obtain rfl := List.inj_on_of_nodup_map hsep.sources hm' hm hsame
      refine Or.inr ⟨Function.update_self _ _ _, fun d hd => ?_⟩
      rw [hdestination m' hm d hd]
      exact hwritten d hd
    · rw [Function.update_of_ne hsame]
      refine (h.source m' hm').imp_right fun hgone => ⟨hgone.1, fun d hd => ?_⟩
      rw [hdestination m' hm' d hd]
      exact hgone.2 d hd
  · intro m' hm' d hd
    rw [hdestination m' hm' d hd]
    exact h.destination m' hm' d hd

variable {uuids : MigrationUuids} {faults : MigrationOp → Fault}

/-- The errors of the file operations are none of the limits. -/
def IsFileError (e : LegacyMigrationError D) : Prop := ∃ error, e = fatal (.file error)

theorem meets_writeDestination (hsep : Separate migrations) (h : Underway files migrations t)
    (hm : m ∈ migrations) :
    Meets (fun _ u => Underway files migrations u ∧
        (∀ d, m.destination = some d → u d = some { bytes := m.bytes }) ∧
        ∀ m' ∈ migrations, u m'.source = t m'.source)
      (fun e u => IsFileError e ∧ Underway files migrations u) (Underway files migrations)
      (writeDestination uuids m faults t) := by
  unfold writeDestination
  cases hd : m.destination with
  | none => exact ⟨h, fun d hd' => absurd hd' (Option.some_ne_none d).symm, fun _ _ => rfl⟩
  | some d =>
    have htarget := hsep.target d (mem_destinations hm hd)
    have htemporary : (Path.mk d.parent (temporaryName d.fileName
        (uuids.temporary m.source.fileName))).fileName.isJson = false :=
      isJson_temporaryName _ _
    apply Prog.meets_mapError
    apply Prog.meets_relabel
    apply (meets_atomicWriteDurable htarget.1).mono
    · intro _ u hu
      rw [hu]
      refine ⟨h.write hsep hm hd htemporary writeBegun_renamed, ?_, ?_⟩
      · intro d' hd'
        obtain rfl := Option.some.inj hd'
        exact Function.update_self _ _ _
      · intro m' hm'
        exact Function.update_of_ne (htarget.2 m' hm').symm _ _
    · exact fun e u hu => ⟨⟨e, rfl⟩, h.write hsep hm hd htemporary hu⟩
    · exact fun u hu => h.write hsep hm hd htemporary hu

/-- One migration: in all its ends the invariant holds, and when it returns its source is gone. -/
theorem meets_carryOut (hsep : Separate migrations) (h : Underway files migrations t)
    (hm : m ∈ migrations) :
    Meets (fun _ u => Underway files migrations u ∧ u m.source = none ∧
        ∀ m' ∈ migrations, t m'.source = none → u m'.source = none)
      (fun e u => IsFileError e ∧ Underway files migrations u) (Underway files migrations)
      (carryOut uuids m faults t) := by
  unfold carryOut
  apply Prog.meets_andThen (meets_writeDestination hsep h hm)
  rintro - u ⟨hu, hwritten, hsources⟩
  apply Prog.meets_mapError
  apply meets_removeFileIfPresent.mono
  · intro _ v hv
    rw [hv]
    refine ⟨hu.remove hsep hm hwritten, Function.update_self _ _ _, ?_⟩
    intro m' hm' hgone
    by_cases hsame : m'.source = m.source
    · rw [hsame, Function.update_self]
    · rw [Function.update_of_ne hsame, hsources m' hm']
      exact hgone
  · intro e v hv
    rw [hv]
    exact ⟨⟨e, rfl⟩, hu⟩
  · intro v hv
    rw [hv]
    exact hu

/-! ## The whole migration -/

variable {json : Json} {listing legacyListing : List OsString}

/-- The names of a directory, in any order. -/
structure Lists (files : FileStore D) (dir : D) (listing : List OsString) : Prop where
  nodup : listing.Nodup
  complete : ∀ name, name ∈ listing ↔ (files ⟨dir, name⟩).isSome = true

omit [DecidableEq D] in
theorem Lists.mem_jsonPaths (h : Lists files dir listing) {p : Path D} :
    p ∈ jsonPaths dir listing ↔
      p.parent = dir ∧ p.fileName.isJson = true ∧ (files p).isSome = true := by
  rw [Notm.Ui.mem_jsonPaths, h.complete]
  constructor
  · rintro ⟨rfl, hjson, hfile⟩
    exact ⟨rfl, hjson, hfile⟩
  · rintro ⟨rfl, hjson, hfile⟩
    exact ⟨rfl, hjson, hfile⟩

omit [DecidableEq D] in
theorem Planned.mem_sources {entries done : List (Path D)} {preflight : Preflight D}
    (h : Planned json uuids files dir entries done preflight) {p : Path D} :
    p ∈ preflight.migrations.map LegacyMigration.source ↔
      p ∈ done ∧ (validBytes json files p).isSome = true := by
  rw [h.sources, List.mem_filter]

/-- A migrated draft is an entry of the legacy directory, and valid. -/
theorem source_of_mem (hlegacy : Lists files legacyDir legacyListing)
    (hfresh : FreshUuids uuids legacyListing)
    (hm : m ∈ (preflightOf json uuids files dir legacyDir listing legacyListing).migrations) :
    m.source.parent = legacyDir ∧ m.source.fileName.isJson = true ∧
      (files m.source).isSome = true ∧ validBytes json files m.source = some m.bytes := by
  have hplanned := planned_preflightOf files dir json legacyDir listing hlegacy.nodup hfresh
  have hsource := (hplanned.mem_sources.1 (List.mem_map_of_mem hm)).1
  obtain ⟨hparent, hjson, hfile⟩ := hlegacy.mem_jsonPaths.1 hsource
  exact ⟨hparent, hjson, hfile, hplanned.valid m hm⟩

theorem separate_preflightOf (hlisting : Lists files dir listing)
    (hlegacy : Lists files legacyDir legacyListing) (hfresh : FreshUuids uuids legacyListing) :
    Separate (preflightOf json uuids files dir legacyDir listing legacyListing).migrations := by
  have hplanned := planned_preflightOf files dir json legacyDir listing hlegacy.nodup hfresh
  refine ⟨?_, ?_, hplanned.distinct, ?_⟩
  · exact fun m hm => (source_of_mem hlegacy hfresh hm).2.1
  · rw [hplanned.sources]
    exact (nodup_jsonPaths hlegacy.nodup).filter _
  · intro d hd
    obtain ⟨hparent, hjson, hfree⟩ := hplanned.free d hd
    refine ⟨hjson, ?_⟩
    rintro m hm rfl
    obtain ⟨-, -, hfile, -⟩ := source_of_mem hlegacy hfresh hm
    exact hfree (hlisting.mem_jsonPaths.2 ⟨hparent, hjson, hfile⟩)

/-- In one directory each draft is its own duplicate, so nothing is written. -/
theorem destination_eq_none (hlisting : Lists files dir listing)
    (hlegacy : Lists files dir legacyListing) (hfresh : FreshUuids uuids legacyListing)
    (hm : m ∈ (preflightOf json uuids files dir dir listing legacyListing).migrations) :
    m.destination = none := by
  have hplanned := planned_preflightOf files dir json dir listing hlegacy.nodup hfresh
  obtain ⟨hparent, hjson, hfile, hvalid⟩ := source_of_mem hlegacy hfresh hm
  have hsame : (⟨dir, m.source.fileName⟩ : Path D) = m.source := by rw [← hparent]
  rw [hplanned.kept m hm, hsame]
  refine ⟨hlisting.mem_jsonPaths.2 ⟨hparent, hjson, hfile⟩, ?_⟩
  exact (validBytes_eq_some.1 hvalid).2.2.symm

theorem meets_migrateLegacyNamedDrafts (hlisting : Lists files dir listing)
    (hlegacy : Lists files legacyDir legacyListing) (hfresh : FreshUuids uuids legacyListing) :
    let preflight := preflightOf json uuids files dir legacyDir listing legacyListing
    Meets
      (fun n t => Accepts json uuids files dir legacyDir listing legacyListing ∧
        n = migratedCount preflight.migrations ∧ Underway files preflight.migrations t ∧
        ∀ m ∈ preflight.migrations, t m.source = none)
      (fun e t => t = files ∨ IsFileError e ∧
        Accepts json uuids files dir legacyDir listing legacyListing ∧
        Underway files preflight.migrations t)
      (fun t => t = files ∨ Accepts json uuids files dir legacyDir listing legacyListing ∧
        Underway files preflight.migrations t)
      (migrateLegacyNamedDrafts json uuids dir legacyDir listing legacyListing faults files) := by
  intro preflight
  have hsep : Separate preflight.migrations := separate_preflightOf hlisting hlegacy hfresh
  unfold migrateLegacyNamedDrafts
  apply Prog.meets_andThen (Q := fun migrations t => t = files ∧
    Accepts json uuids files dir legacyDir listing legacyListing ∧
      migrations = preflight.migrations)
  · apply Prog.meets_op
    · intro migrations t heffect
      obtain ⟨planned, hplan, hpair⟩ := map_eq_ok.1 heffect
      obtain ⟨rfl, rfl⟩ := Prod.mk.inj hpair
      exact ⟨rfl, planMigration_eq_ok.1 hplan⟩
    · exact fun _ _ => Or.inl rfl
    · exact fun _ => Or.inl rfl
    · exact fun _ => Or.inl rfl
  -- The preflight has only read. From here on the migration is under way at every step.
  rintro migrations t ⟨ht, haccepts, rfl⟩
  rw [ht]
  apply Prog.meets_andThen (Q := fun _ t => t = files)
  · unfold ensureDirectory
    split
    · apply Prog.meets_mapError
      apply meets_untouched.mono
      · exact fun _ t ht => ht
      · exact fun _ t ht => Or.inl ht
      · exact fun t ht => Or.inl ht
    · rfl
  intro _ t ht
  rw [ht]
  apply Prog.meets_andThen (Q := fun _ t => Underway files preflight.migrations t ∧
    ∀ m ∈ preflight.migrations, t m.source = none)
  · apply Prog.meets_forEach_each (I := Underway files preflight.migrations)
      (A := fun (m : LegacyMigration D) t => t m.source = none)
    · intro m hm u hu
      apply (meets_carryOut hsep hu hm).mono
      · exact fun _ v hv => hv
      · exact fun e v hv => Or.inr ⟨hv.1, haccepts, hv.2⟩
      · exact fun v hv => Or.inr ⟨haccepts, hv⟩
    · exact underway_refl
  · rintro - t ⟨hunderway, hgone⟩
    exact ⟨haccepts, rfl, hunderway, hgone⟩

/-! ## What a migration preserves -/

/-- The draft at `path`: a named entry whose bytes are fields. -/
def HoldsDraft (json : Json) (files : FileStore D) (path : Path D) (bytes : Bytes) : Prop :=
  path.fileName.isJson = true ∧ (json.fromSlice bytes).isOk = true ∧
    ∃ file, files path = some file ∧ file.bytes = bytes

/-- The bytes of every legacy draft are in one of the stores, and the current drafts are as they
were. -/
structure Preserves (json : Json) (dir legacyDir : D) (before after : FileStore D) : Prop where
  legacy : ∀ path bytes, path.parent = legacyDir → HoldsDraft json before path bytes →
    ∃ path', (path'.parent = dir ∨ path'.parent = legacyDir) ∧ HoldsDraft json after path' bytes
  current : ∀ path, path.parent = dir → path.fileName.isJson = true →
    (before path).isSome = true → after path = before path

omit [DecidableEq D] in
theorem preserves_refl : Preserves json dir legacyDir files files where
  legacy path _ hparent hdraft := ⟨path, Or.inr hparent, hdraft⟩
  current _ _ _ _ := rfl

/-- Between two directories every state of a migration preserves the drafts. -/
theorem Underway.preserves (hne : dir ≠ legacyDir) (hlisting : Lists files dir listing)
    (hlegacy : Lists files legacyDir legacyListing) (hfresh : FreshUuids uuids legacyListing)
    (h : Underway files (preflightOf json uuids files dir legacyDir listing
      legacyListing).migrations t) : Preserves json dir legacyDir files t := by
  have hplanned := planned_preflightOf files dir json legacyDir listing hlegacy.nodup hfresh
  have hcurrent : ∀ path, path.parent = dir → path.fileName.isJson = true →
      (files path).isSome = true → t path = files path := by
    intro path hparent hjson hfile
    apply h.frame path hjson
    · intro hsource
      obtain ⟨m, hm, rfl⟩ := List.mem_map.1 hsource
      exact hne (hparent.symm.trans (source_of_mem hlegacy hfresh hm).1)
    · intro hdestination
      exact (hplanned.free path hdestination).2.2
        (hlisting.mem_jsonPaths.2 ⟨hparent, hjson, hfile⟩)
  refine ⟨?_, hcurrent⟩
  rintro path bytes hparent ⟨hjson, hparses, file, hfile, rfl⟩
  have hstays : t path = files path → ∃ path', (path'.parent = dir ∨ path'.parent = legacyDir) ∧
      HoldsDraft json t path' file.bytes :=
    fun hsame => ⟨path, Or.inr hparent, hjson, hparses, file, hsame.trans hfile, rfl⟩
  by_cases hsource : path ∈ (preflightOf json uuids files dir legacyDir listing
      legacyListing).migrations.map LegacyMigration.source
  · obtain ⟨m, hm, rfl⟩ := List.mem_map.1 hsource
    obtain ⟨-, -, -, hvalid⟩ := source_of_mem hlegacy hfresh hm
    have hbytes : m.bytes = file.bytes := by
      rw [(validBytes_eq_some.1 hvalid).2.2]
      unfold contentOf
      rw [hfile]
    rcases h.source m hm with hsame | ⟨-, hwritten⟩
    · exact hstays hsame
    · cases hd : m.destination with
      | none =>
        -- the current store has the draft under the same name
        obtain ⟨hentry, hcontent⟩ := (hplanned.kept m hm).1 hd
        obtain ⟨-, hname, hsome⟩ := hlisting.mem_jsonPaths.1 hentry
        obtain ⟨file', hfile'⟩ := Option.isSome_iff_exists.1 hsome
        have hcontent' : file'.bytes = file.bytes := by
          rw [← hbytes, ← hcontent]
          unfold contentOf
          rw [hfile']
        exact ⟨_, Or.inl rfl, hname, hparses, file', (hcurrent _ rfl hname hsome).trans hfile',
          hcontent'⟩
      | some d =>
        obtain ⟨hdir, hname, -⟩ := hplanned.free d (mem_destinations hm hd)
        exact ⟨d, Or.inl hdir, hname, hparses, _, hwritten d hd, hbytes⟩
  · apply hstays
    apply h.frame path hjson hsource
    intro hdestination
    exact hne ((hplanned.free path hdestination).1.symm.trans hparent)

/-- The one directory holds drafts that a migration takes for duplicates of themselves: all its
entries can be read, and they pass the limits with those that are no drafts counted twice. -/
structure Consumes (json : Json) (files : FileStore D) (dir : D) (listing : List OsString) :
    Prop where
  draft : ∃ p ∈ jsonPaths dir listing, (validBytes json files p).isSome = true
  bounds : ∀ p ∈ jsonPaths dir listing, InBounds files p
  count : (jsonPaths dir listing).length +
    (preservedPaths json files (jsonPaths dir listing)).length ≤ maxNamedDrafts
  bytes : readTotal files (jsonPaths dir listing) +
    readTotal files (preservedPaths json files (jsonPaths dir listing)) ≤ maxNamedDraftTotalBytes

omit [DecidableEq D] in
/-- The order of a listing is of no account. -/
theorem Lists.perm (h : Lists files dir listing) {listing' : List OsString}
    (h' : Lists files dir listing') : (jsonPaths dir listing).Perm (jsonPaths dir listing') := by
  apply (List.perm_ext_iff_of_nodup (nodup_jsonPaths h.nodup) (nodup_jsonPaths h'.nodup)).2
  intro p
  rw [h.mem_jsonPaths, h'.mem_jsonPaths]

omit [DecidableEq D] in
theorem readTotal_perm {paths paths' : List (Path D)} (h : paths.Perm paths') :
    readTotal files paths = readTotal files paths' := (h.map _).sum_eq

/-- In one directory the migration's checks are passed, with something to migrate, exactly when
the directory is consumed. -/
theorem consumes_iff (hlisting : Lists files dir listing)
    (hlegacy : Lists files dir legacyListing) (hfresh : FreshUuids uuids legacyListing) :
    Accepts json uuids files dir dir listing legacyListing ∧
        (preflightOf json uuids files dir dir listing legacyListing).migrations ≠ [] ↔
      Consumes json files dir listing := by
  have hplanned := planned_preflightOf files dir json dir listing hlegacy.nodup hfresh
  -- Nothing is written, so what the checks project is the directory as it is.
  have hnone : ∀ m ∈ (preflightOf json uuids files dir dir listing legacyListing).migrations,
      m.destination = none := fun m hm => destination_eq_none hlisting hlegacy hfresh hm
  have hmigrated : migratedCount
      (preflightOf json uuids files dir dir listing legacyListing).migrations = 0 := by
    unfold migratedCount
    rw [List.length_eq_zero_iff, List.filter_eq_nil_iff]
    intro m hm
    rw [hnone m hm]
    simp
  have hbytes : (preflightOf json uuids files dir dir listing legacyListing).migratedBytes = 0 := by
    rw [hplanned.migratedBytes, List.sum_eq_zero_iff]
    intro n hn
    obtain ⟨m, hm, rfl⟩ := List.mem_map.1 hn
    rw [hnone m hm]
    rfl
  have hperm := hlisting.perm hlegacy
  have hpreserved : (preservedPaths json files (jsonPaths dir listing)).Perm
      (preservedPaths json files (jsonPaths dir legacyListing)) := hperm.filter _
  have hsome : (preflightOf json uuids files dir dir listing legacyListing).migrations ≠ [] ↔
      ∃ p ∈ jsonPaths dir listing, (validBytes json files p).isSome = true := by
    constructor
    · intro hne
      obtain ⟨m, hm⟩ := List.exists_mem_of_ne_nil _ hne
      obtain ⟨hmem, hvalid⟩ := hplanned.mem_sources.1 (List.mem_map_of_mem hm)
      exact ⟨m.source, hperm.mem_iff.2 hmem, hvalid⟩
    · rintro ⟨p, hp, hvalid⟩ hnil
      have hsource := hplanned.mem_sources.2 ⟨hperm.mem_iff.1 hp, hvalid⟩
      rw [hnil] at hsource
      exact absurd hsource List.not_mem_nil
  rw [hsome]
  constructor
  · rintro ⟨haccepts, hdraft⟩
    refine ⟨hdraft, haccepts.bounds, ?_, ?_⟩
    · have hcount := haccepts.projectedCount
      rw [hmigrated, hplanned.preservedCount, ← hpreserved.length_eq] at hcount
      exact hcount
    · have htotal := haccepts.projectedBytes
      rw [hbytes, hplanned.preservedBytes, ← readTotal_perm hpreserved] at htotal
      exact htotal
  · intro hconsumes
    have hcount := hconsumes.count
    have htotal := hconsumes.bytes
    refine ⟨⟨?_, hconsumes.bounds, ?_, ?_, ?_, ?_, ?_⟩, hconsumes.draft⟩
    · omega
    · omega
    · rw [← hperm.length_eq]
      omega
    · rw [← readTotal_perm hperm]
      omega
    · rw [hmigrated, hplanned.preservedCount, ← hpreserved.length_eq]
      exact hcount
    · rw [hbytes, hplanned.preservedBytes, ← readTotal_perm hpreserved]
      exact htotal

/-! ## When nothing fails -/

theorem meets_removeFileIfPresent_passes {L : Type} {faults : L → Fault} {label : L}
    {path : Path D} (hfault : faults label = .passes) :
    Meets (fun _ _ => True) (fun _ _ => False) (fun _ => False)
      (removeFileIfPresent label path faults t) := by
  have hremoved : Meets (fun result _ => result = .ok () ∨ result = .error .notFound)
      (fun _ _ => False) (fun _ => False)
      (((FileStore.removeFile label path).attempt : Prog L (FileStore D) (FileError D) _)
        faults t) := by
    apply Prog.meets_attempt
    apply Prog.meets_op_passes hfault
    · exact fun _ _ _ => Or.inl rfl
    · intro e heffect
      split at heffect
      · exact Or.inr (congrArg Except.error (Except.error.inj heffect).symm)
      · cases heffect
  unfold removeFileIfPresent
  apply Prog.meets_andThen hremoved
  rintro result u (rfl | rfl)
  · trivial
  · trivial

/-- With nothing to write and no failure a migration returns. -/
theorem meets_migrate_passes (hfaults : ∀ label, faults label = .passes)
    (hnone : ∀ m ∈ (preflightOf json uuids files dir legacyDir listing legacyListing).migrations,
      m.destination = none)
    (haccepts : Accepts json uuids files dir legacyDir listing legacyListing) :
    Meets (fun _ _ => True) (fun _ _ => False) (fun _ => False)
      (migrateLegacyNamedDrafts json uuids dir legacyDir listing legacyListing faults files) := by
  have hplan := planMigration_eq_ok.2 ⟨haccepts, rfl⟩
  -- Nothing is to be written, so the directory is not asked for either.
  have hmigrated : ¬ migratedCount (preflightOf json uuids files dir legacyDir listing
      legacyListing).migrations > 0 := by
    unfold migratedCount
    rw [gt_iff_lt, List.length_pos_iff, not_not, List.filter_eq_nil_iff]
    intro m hm
    rw [hnone m hm]
    simp
  unfold migrateLegacyNamedDrafts
  apply Prog.meets_andThen (Q := fun migrations _ => migrations =
    (preflightOf json uuids files dir legacyDir listing legacyListing).migrations)
  · apply Prog.meets_op_passes (hfaults _)
    · intro migrations t heffect
      rw [hplan] at heffect
      obtain ⟨rfl, -⟩ := Prod.mk.inj (Except.ok.inj heffect)
      rfl
    · intro e heffect
      rw [hplan] at heffect
      cases heffect
  rintro migrations t rfl
  apply Prog.meets_andThen (Q := fun _ _ => True)
  · unfold ensureDirectory
    rw [if_neg hmigrated]
    trivial
  intro _ t _
  apply Prog.meets_andThen (Q := fun _ _ => True)
  · apply Prog.meets_forEach (I := fun _ => True)
    · intro m hm u _
      apply Prog.meets_andThen (Q := fun _ _ => True)
      · unfold writeDestination
        rw [hnone m hm]
        trivial
      · intro _ v _
        apply Prog.meets_mapError
        exact meets_removeFileIfPresent_passes (hfaults _)
    · trivial
  · exact fun _ _ _ => trivial

/-! ## UUIDs of which none is in use -/

/-- The names are longer than all of the listing. -/
def longUuids (listing : List OsString) : MigrationUuids where
  candidate _ i := List.replicate ((listing.map List.length).sum + i) 'a'
  temporary _ := []
  distinct _ i j hsame := by
    have hlength := congrArg List.length hsame
    simp only [List.length_replicate] at hlength
    omega

theorem freshUuids_longUuids (listing : List OsString) :
    FreshUuids (longUuids listing) listing := by
  intro name i hmem
  have hle : (candidateName ((longUuids listing).candidate name i) name).length ≤
      (listing.map List.length).sum := List.single_le_sum (by simp) _ (List.mem_map_of_mem hmem)
  unfold candidateName OsString.ofStr longUuids at hle
  simp only [List.length_map, List.length_append, List.length_cons, List.length_replicate] at hle
  have hearlier : "legacy-".toList.length = 7 := rfl
  omega

/-! ## The result -/

/-- A consumed directory loses all its drafts when nothing fails. -/
theorem not_preserves_of_consumes (hlisting : Lists files dir listing)
    (hlegacy : Lists files dir legacyListing) (hfresh : FreshUuids uuids legacyListing)
    (hconsumes : Consumes json files dir listing) :
    ¬ Preserves json dir dir files (migrateLegacyNamedDrafts json uuids dir dir listing
      legacyListing (fun _ => .passes) files).2 := by
  obtain ⟨haccepts, -⟩ := (consumes_iff hlisting hlegacy hfresh).2 hconsumes
  have hnone : ∀ m ∈ (preflightOf json uuids files dir dir listing legacyListing).migrations,
      m.destination = none := fun m hm => destination_eq_none hlisting hlegacy hfresh hm
  have hplanned := planned_preflightOf files dir json dir listing hlegacy.nodup hfresh
  have hreturns := meets_and
    (meets_migrate_passes (fun _ => rfl) hnone haccepts :
      Meets _ _ _ (migrateLegacyNamedDrafts json uuids dir dir listing legacyListing
        (fun _ => .passes) files))
    (meets_migrateLegacyNamedDrafts hlisting hlegacy hfresh)
  -- every source is gone, and every other entry is as it was
  have hends : Underway files (preflightOf json uuids files dir dir listing
      legacyListing).migrations (migrateLegacyNamedDrafts json uuids dir dir listing
        legacyListing (fun _ => .passes) files).2 ∧
      ∀ m ∈ (preflightOf json uuids files dir dir listing legacyListing).migrations,
        (migrateLegacyNamedDrafts json uuids dir dir listing legacyListing (fun _ => .passes)
          files).2 m.source = none :=
    (hreturns.mono (fun _ _ h => h.2.2.2) (fun _ _ h => absurd h.1 id)
      fun _ h => absurd h.1 id).state
  intro hpreserves
  obtain ⟨hunderway, hgone⟩ := hends
  obtain ⟨p, hp, hvalid⟩ := hconsumes.draft
  obtain ⟨bytes, hbytes⟩ := Option.isSome_iff_exists.1 hvalid
  obtain ⟨hbounds, hparses, rfl⟩ := validBytes_eq_some.1 hbytes
  obtain ⟨hparent, hjson, hsome⟩ := hlisting.mem_jsonPaths.1 hp
  obtain ⟨file, hfile⟩ := Option.isSome_iff_exists.1 hsome
  have hcontent : file.bytes = contentOf files p := by
    unfold contentOf
    rw [hfile]
  obtain ⟨q, hq, hqjson, hqparses, file', hfile', hqbytes⟩ :=
    hpreserves.legacy p _ hparent ⟨hjson, hparses, file, hfile, hcontent⟩
  rw [or_self] at hq
  have hfilesq : q ∉ (preflightOf json uuids files dir dir listing legacyListing).migrations.map
      LegacyMigration.source := by
    intro hsource
    obtain ⟨m, hm, rfl⟩ := List.mem_map.1 hsource
    rw [hgone m hm] at hfile'
    exact absurd hfile' (Option.some_ne_none file').symm
  have hsame : files q = some file' := by
    rw [← hfile', hunderway.frame q hqjson hfilesq]
    intro hdestination
    obtain ⟨m, hm, hd⟩ := List.mem_filterMap.1 hdestination
    rw [hnone m hm] at hd
    exact absurd hd (Option.some_ne_none q).symm
  have hentry : q ∈ jsonPaths dir legacyListing :=
    hlegacy.mem_jsonPaths.2 ⟨hq, hqjson, by rw [hsame]; rfl⟩
  have hqbounds := hconsumes.bounds q ((hlisting.perm hlegacy).mem_iff.2 hentry)
  have hqcontent : contentOf files q = contentOf files p := by
    rw [← hqbytes]
    unfold contentOf
    rw [hsame]
  have hqvalid := validBytes_eq_some.2 ⟨hqbounds, by rw [hqcontent]; exact hparses, rfl⟩
  exact hfilesq (hplanned.mem_sources.2 ⟨hentry, by rw [hqvalid]; rfl⟩)

/-- For all contents of the two directories, and wherever the migration fails or the process
stops: the bytes of every legacy draft are in one of the stores, no current draft is changed, and
a migration that is rejected for a limit changes nothing; unless both directories are the same one
and it is consumed. -/
theorem migration_preserves_iff (hlisting : Lists files dir listing)
    (hlegacy : Lists files legacyDir legacyListing) :
    (∀ uuids, FreshUuids uuids legacyListing → ∀ faults,
      Preserves json dir legacyDir files (migrateLegacyNamedDrafts json uuids dir legacyDir listing
        legacyListing faults files).2 ∧
      ∀ e, (migrateLegacyNamedDrafts json uuids dir legacyDir listing legacyListing faults
          files).1 = .error e → e.error.IsLimit →
        (migrateLegacyNamedDrafts json uuids dir legacyDir listing legacyListing faults files).2 =
          files) ↔
      ¬ (dir = legacyDir ∧ Consumes json files dir listing) := by
  constructor
  · -- With both directories the same one, a run without any failure already loses a draft.
    rintro h ⟨rfl, hconsumes⟩
    have hfresh := freshUuids_longUuids legacyListing
    exact not_preserves_of_consumes hlisting hlegacy hfresh hconsumes
      (h _ hfresh fun _ => .passes).1
  · intro hconsumes uuids hfresh faults
    -- In the other direction every state of a migration that is under way preserves the drafts, and
    -- every end of the migration is such a state.
    have hpreserves : ∀ t, Accepts json uuids files dir legacyDir listing legacyListing →
        Underway files (preflightOf json uuids files dir legacyDir listing
          legacyListing).migrations t → Preserves json dir legacyDir files t := by
      intro t haccepts hunderway
      by_cases hsame : dir = legacyDir
      · obtain rfl := hsame
        have hnothing : (preflightOf json uuids files dir dir listing
            legacyListing).migrations = [] := by
          by_contra hne
          exact hconsumes ⟨rfl, (consumes_iff hlisting hlegacy hfresh).1 ⟨haccepts, hne⟩⟩
        rw [hnothing] at hunderway
        have hkept : ∀ p, p.fileName.isJson = true → t p = files p :=
          fun p hp => hunderway.frame p hp List.not_mem_nil List.not_mem_nil
        refine ⟨?_, fun path _ hjson _ => hkept path hjson⟩
        rintro path bytes hparent ⟨hjson, hparses, file, hfile, hbytes⟩
        exact ⟨path, Or.inl hparent, hjson, hparses, file, (hkept path hjson).trans hfile, hbytes⟩
      · exact hunderway.preserves hsame hlisting hlegacy hfresh
    have hends : Meets (fun _ t => Preserves json dir legacyDir files t)
        (fun e t => Preserves json dir legacyDir files t ∧ (e.error.IsLimit → t = files))
        (fun t => Preserves json dir legacyDir files t)
        (migrateLegacyNamedDrafts json uuids dir legacyDir listing legacyListing faults files) := by
      apply (meets_migrateLegacyNamedDrafts hlisting hlegacy hfresh).mono
      · exact fun _ t ht => hpreserves t ht.1 ht.2.2.1
      · rintro e t (ht | ⟨⟨error, rfl⟩, haccepts, hunderway⟩)
        · rw [ht]
          exact ⟨preserves_refl, fun _ => rfl⟩
        · exact ⟨hpreserves t haccepts hunderway, fun hlimit => absurd hlimit id⟩
      · rintro t (ht | ⟨haccepts, hunderway⟩)
        · rw [ht]
          exact preserves_refl
        · exact hpreserves t haccepts hunderway
    refine ⟨(hends.mono (fun _ _ h => h) (fun _ _ h => h.1) fun _ h => h).state, ?_⟩
    intro e herror hlimit
    exact (hends.of_error herror).2 hlimit

/-- A draft as it is written to its file. -/
def sampleText : Bytes :=
  Utf8.encode ("\x7b\"from\":\"\",\"to\":\"\",\"cc\":\"\",\"bcc\":\"\"," ++
    "\"subject\":\"a\",\"body\":\"\"\x7d").toList

def sampleFields : ComposeFields := { subject := "a".toList }

/-- `serde_json` on the draft. -/
def sampleJson : Json where
  toVecPretty _ := .ok sampleText
  fromSlice bytes := if bytes = sampleText then .ok sampleFields else .error "expected value"

theorem fromSlice_sampleText : sampleJson.fromSlice sampleText = .ok sampleFields := by
  show (if sampleText = sampleText then Except.ok sampleFields
    else Except.error "expected value") = _
  rw [if_pos rfl]

def sampleName : OsString := OsString.ofStr "a.json".toList

/-- The draft is the only file, in the directory `dir`. -/
def sampleFiles (dir : Bool) : FileStore Bool := fun path =>
  if path = ⟨dir, sampleName⟩ then some { bytes := sampleText } else none

theorem lists_sampleFiles (dir : Bool) : Lists (sampleFiles dir) dir [sampleName] where
  nodup := List.nodup_singleton _
  complete name := by
    unfold sampleFiles
    rw [List.mem_singleton]
    constructor
    · rintro rfl
      rw [if_pos rfl]
      rfl
    · intro hsome
      split at hsome
      · rename_i hpath
        exact congrArg Path.fileName hpath
      · cases hsome

theorem lists_other {dir dir' : Bool} (hne : dir' ≠ dir) : Lists (sampleFiles dir) dir' [] where
  nodup := List.nodup_nil
  complete name := by
    unfold sampleFiles
    rw [if_neg fun hpath => hne (congrArg Path.parent hpath)]
    simp

/-- The draft in a legacy directory of its own is safe when the process stops before it is
removed there. -/
theorem migration_preserves_sample :
    Preserves sampleJson true false (sampleFiles false)
      (migrateLegacyNamedDrafts sampleJson (longUuids [sampleName]) true false [] [sampleName]
        (fun label => if label = .remove sampleName then .stops 0 else .passes)
        (sampleFiles false)).2 := by
  have hlisting : Lists (sampleFiles false) true [] := lists_other (by decide)
  have hsafe : ¬ (true = false ∧ Consumes sampleJson (sampleFiles false) true []) := by
    rintro ⟨hsame, -⟩
    cases hsame
  have hpreserves := (migration_preserves_iff hlisting (lists_sampleFiles false)).2 hsafe
  exact (hpreserves _ (freshUuids_longUuids _) _).1

theorem consumes_sample : Consumes sampleJson (sampleFiles true) true [sampleName] := by
  have hpaths : jsonPaths true [sampleName] = [⟨true, sampleName⟩] := by decide
  have hfile : sampleFiles true ⟨true, sampleName⟩ = some { bytes := sampleText } := if_pos rfl
  have hbounds : InBounds (sampleFiles true) ⟨true, sampleName⟩ :=
    ⟨_, hfile, rfl, by decide +kernel⟩
  have hvalid : validBytes sampleJson (sampleFiles true) ⟨true, sampleName⟩ =
      some sampleText := by
    refine validBytes_eq_some.2 ⟨hbounds, ?_, ?_⟩
    · unfold contentOf
      rw [hfile]
      show (sampleJson.fromSlice sampleText).isOk = true
      rw [fromSlice_sampleText]
      rfl
    · unfold contentOf
      rw [hfile]
  have hpreserved : preservedPaths sampleJson (sampleFiles true) [⟨true, sampleName⟩] = [] := by
    unfold preservedPaths
    rw [List.filter_cons_of_neg (by rw [hvalid]; simp), List.filter_nil]
  have htotal : readTotal (sampleFiles true) [⟨true, sampleName⟩] = sampleText.length := by
    rw [readTotal_cons, hbounds.read.2.2]
    unfold contentOf
    rw [hfile]
    rfl
  refine ⟨⟨_, ?_, by rw [hvalid]; rfl⟩, ?_, ?_, ?_⟩
  · rw [hpaths]
    exact List.mem_singleton_self _
  · intro p hp
    rw [hpaths] at hp
    obtain rfl := List.mem_singleton.1 hp
    exact hbounds
  · rw [hpaths, hpreserved]
    decide
  · rw [hpaths, hpreserved, htotal]
    decide +kernel

/-- The migration of a directory into itself loses its draft, with nothing failing. -/
theorem migration_into_itself :
    ¬ Preserves sampleJson true true (sampleFiles true)
      (migrateLegacyNamedDrafts sampleJson (longUuids [sampleName]) true true [sampleName]
        [sampleName] (fun _ => .passes) (sampleFiles true)).2 :=
  not_preserves_of_consumes (lists_sampleFiles true) (lists_sampleFiles true)
    (freshUuids_longUuids _) consumes_sample

end Notm.Ui
