import Notm.Ui.NamedDraftMigration

/-!
# The limits after a migration and after a save

The migration and the check before a save each compute what the stores will hold. What they allow,
the scan can list: it counts no entry and charges no byte that they did not. Where the current
directory is given as the legacy directory too, the migration counts its entries twice, as the scan
does, but the check before a save leaves the legacy directory out and counts them once.

Main results:

* `scanNamedDrafts_isOk_iff`: the scan succeeds exactly when it lists at most 256 entries and reads
  at most 32 MiB of them.
* `scannable_after_migration`: a migration that returns leaves stores that can be scanned.
* `fits_of_ok`: what the check before a save allows.
* `scannable_after_save`: a save that the check allows, with a legacy directory of its own or none,
  leaves stores that can be scanned, however it ends.
* `scannable_twice_iff`: what one directory, listed twice, may hold.
* `scannable_after_migration_and_save_iff`: all of this together.
* `one_directory_saved_unscannable`: a save into one directory that is listed twice.
-/

namespace Notm.Ui

open Rust Crash LegacyMigrationError

variable {D : Type} [DecidableEq D] {files t : FileStore D} {dir legacyDir : D}
  {paths paths' : List (Path D)}

/-! ## Comparing stores -/

omit [DecidableEq D] in
/-- Distinct entries cost no more than a list that has them all. -/
theorem readTotal_le_of_subset (files : FileStore D) (hnodup : paths.Nodup)
    (hsubset : paths ⊆ paths') :
    readTotal files paths ≤ readTotal files paths' := by
  obtain ⟨between, hperm, hsublist⟩ := hnodup.subperm hsubset
  rw [← readTotal_perm hperm]
  exact (hsublist.map (readLength files)).sum_le_sum fun _ _ => Nat.zero_le _

omit [DecidableEq D] in
theorem readTotal_le_of_forall (h : ∀ p ∈ paths, readLength t p ≤ readLength files p) :
    readTotal t paths ≤ readTotal files paths := List.sum_le_sum h

omit [DecidableEq D] in
/-- A file costs at most its bytes. -/
theorem readLength_le {path : Path D} {bytes : Bytes} (h : files path = some { bytes := bytes }) :
    readLength files path ≤ bytes.length := by
  unfold readLength
  rw [h]
  exact Nat.min_le_left _ _

omit [DecidableEq D] in
theorem readLength_congr {path : Path D} (h : t path = files path) :
    readLength t path = readLength files path := by
  unfold readLength
  rw [h]

/-! ## The scan -/

section Scan

variable {json : Json} {modified : Path D → Option Nat} {listing : List OsString}

omit [DecidableEq D] in
theorem totalBytes_take (scan : NamedDraftScan D) (path : Path D) (bytes : Bytes) :
    (scan.take json modified path bytes).totalBytes = scan.totalBytes := by
  unfold NamedDraftScan.take
  split
  · rfl
  · split
    · rfl
    · split
      · rfl
      · rfl

/-- The bytes that the scan reads of an entry: those of a regular file that it can read. -/
def scannedLength (files : FileStore D) (path : Path D) : Nat :=
  match files path with
  | none => 0
  | some file => if file.regular then readLength files path else 0

/-- What the scan charges for a list of entries. -/
def scannedTotal (files : FileStore D) (paths : List (Path D)) : Nat :=
  (paths.map (scannedLength files)).sum

omit [DecidableEq D] in
theorem scannedTotal_cons (path : Path D) (paths : List (Path D)) :
    scannedTotal files (path :: paths) = scannedLength files path + scannedTotal files paths :=
  List.sum_cons

omit [DecidableEq D] in
theorem scannedTotal_append (paths paths' : List (Path D)) :
    scannedTotal files (paths ++ paths') =
      scannedTotal files paths + scannedTotal files paths' := by
  unfold scannedTotal
  rw [List.map_append, List.sum_append]

omit [DecidableEq D] in
theorem scannedTotal_perm (h : paths.Perm paths') :
    scannedTotal files paths = scannedTotal files paths' :=
  (h.map _).sum_nat

omit [DecidableEq D] in
/-- The scan charges no more than the checks, which do not ask whether a file is regular. -/
theorem scannedTotal_le_readTotal : scannedTotal files paths ≤ readTotal files paths := by
  refine List.sum_le_sum fun path _ => ?_
  unfold scannedLength
  split
  · exact Nat.zero_le _
  · split
    · exact Nat.le_refl _
    · exact Nat.zero_le _

omit [DecidableEq D] in
/-- One turn of the scan: it charges what it reads of the entry, or it fails. -/
theorem scanEntry_cases (json : Json) (modified : Path D → Option Nat) {scan : NamedDraftScan D}
    {path : Path D} (hscan : scan.totalBytes ≤ maxNamedDraftTotalBytes) :
    (scan.totalBytes + scannedLength files path ≤ maxNamedDraftTotalBytes ∧
      ∃ scan', scanEntry json modified files scan path = .ok scan' ∧
        scan'.totalBytes = scan.totalBytes + scannedLength files path) ∨
    maxNamedDraftTotalBytes < scan.totalBytes + scannedLength files path ∧
      ∃ e, scanEntry json modified files scan path = .error e := by
  unfold scanEntry scannedLength
  cases hfile : files path with
  | none => exact Or.inl ⟨hscan, _, rfl, rfl⟩
  | some file =>
    simp only
    cases hregular : file.regular with
    | false => exact Or.inl ⟨hscan, _, rfl, rfl⟩
    | true =>
      cases hread : readNamedDraft files path with
      | error e =>
        have hnone := readLength_of_error hread
        simp only [if_true, hnone]
        exact Or.inl ⟨hscan, _, rfl, rfl⟩
      | ok bytes =>
        simp only [if_true, ← length_of_readNamedDraft hread]
        cases hcharge : (chargeNamedDraftBytes scan.totalBytes bytes.length :
            Except (DraftIoError D) Nat) with
        | ok total =>
          obtain ⟨rfl, hlimit⟩ := chargeNamedDraftBytes_eq_ok.1 hcharge
          exact Or.inl ⟨hlimit, _, rfl, totalBytes_take _ _ _⟩
        | error e =>
          refine Or.inr ⟨Nat.lt_of_not_le fun hlimit => ?_, e, rfl⟩
          rw [chargeNamedDraftBytes_eq_ok.2 ⟨rfl, hlimit⟩] at hcharge
          cases hcharge

omit [DecidableEq D] in
/-- The loop of the scan succeeds exactly when its charges fit. -/
theorem foldlM_scanEntry_isOk_iff (json : Json) (modified : Path D → Option Nat)
    (scan : NamedDraftScan D) (hscan : scan.totalBytes ≤ maxNamedDraftTotalBytes) :
    (∃ scan', paths.foldlM (scanEntry json modified files) scan = .ok scan') ↔
      scan.totalBytes + scannedTotal files paths ≤ maxNamedDraftTotalBytes := by
  induction paths generalizing scan with
  | nil => exact iff_of_true ⟨scan, rfl⟩ hscan
  | cons path rest ih =>
    rw [scannedTotal_cons, List.foldlM_cons]
    rcases scanEntry_cases json modified hscan with
      ⟨hlimit, between, hentry, hbetween⟩ | ⟨hlimit, e, hentry⟩
    · rw [hentry]
      show (∃ scan', rest.foldlM (scanEntry json modified files) between = .ok scan') ↔ _
      rw [ih between (by omega), hbetween, Nat.add_assoc]
    · rw [hentry]
      refine iff_of_false ?_ (by omega)
      rintro ⟨_, hok⟩
      cases hok

/-- The named drafts of the legacy directory, if there is one. -/
def legacyPaths (legacy : Option (D × List OsString)) : List (Path D) :=
  match legacy with
  | none => []
  | some (legacyDir, listing) => jsonPaths legacyDir listing

omit [DecidableEq D] in
theorem legacyEntries_eq_ok {legacy : Option (D × List OsString)} :
    legacyEntries legacy = .ok paths ↔
      paths = legacyPaths legacy ∧ (legacyPaths legacy).length ≤ maxNamedDrafts := by
  cases legacy with
  | none =>
    show Except.ok [] = .ok paths ↔ paths = [] ∧ 0 ≤ maxNamedDrafts
    exact ⟨fun h => ⟨(Except.ok.inj h).symm, Nat.zero_le _⟩, fun h => congrArg Except.ok h.1.symm⟩
  | some l => exact jsonEntries_eq_ok

omit [DecidableEq D] in
/-- **When the scan succeeds**: it lists at most as many entries and reads at most as many bytes as
the limits say, both directories together. -/
theorem scanNamedDrafts_isOk_iff {legacy : Option (D × List OsString)} :
    (∃ result, scanNamedDrafts json modified files dir listing legacy = .ok result) ↔
      (jsonPaths dir listing).length + (legacyPaths legacy).length ≤ maxNamedDrafts ∧
        scannedTotal files (jsonPaths dir listing) + scannedTotal files (legacyPaths legacy) ≤
          maxNamedDraftTotalBytes := by
  have hloop : (∃ scan, (jsonPaths dir listing ++ legacyPaths legacy).foldlM
      (scanEntry json modified files) {} = .ok scan) ↔ _ :=
    foldlM_scanEntry_isOk_iff json modified {} (Nat.zero_le _)
  rw [scannedTotal_append, show ({} : NamedDraftScan D).totalBytes = 0 from rfl,
    Nat.zero_add] at hloop
  unfold scanNamedDrafts
  constructor
  · rintro ⟨result, h⟩
    obtain ⟨paths, hpaths, h⟩ := bind_eq_ok.1 h
    obtain ⟨legacies, hlegacies, h⟩ := bind_eq_ok.1 h
    obtain ⟨_, hcount, h⟩ := bind_eq_ok.1 h
    obtain ⟨scan, hscan, -⟩ := bind_eq_ok.1 h
    obtain ⟨rfl, -⟩ := jsonEntries_eq_ok.1 hpaths
    obtain ⟨rfl, -⟩ := legacyEntries_eq_ok.1 hlegacies
    have hcount := ensure_eq_ok.1 hcount
    rw [List.length_append] at hcount
    exact ⟨hcount, hloop.1 ⟨scan, hscan⟩⟩
  · rintro ⟨hcount, hbytes⟩
    obtain ⟨scan, hscan⟩ := hloop.2 hbytes
    have hwhole : (jsonPaths dir listing ++ legacyPaths legacy).length ≤ maxNamedDrafts := by
      rw [List.length_append]
      exact hcount
    exact ⟨_, bind_eq_ok.2 ⟨_, jsonEntries_eq_ok.2 ⟨rfl, by omega⟩,
      bind_eq_ok.2 ⟨_, legacyEntries_eq_ok.2 ⟨rfl, by omega⟩,
      bind_eq_ok.2 ⟨(), ensure_eq_ok.2 hwhole, bind_eq_ok.2 ⟨scan, hscan, rfl⟩⟩⟩⟩⟩

omit [DecidableEq D] in
/-- Stores within the limits of the checks can be scanned. -/
theorem scanNamedDrafts_ok {legacy : Option (D × List OsString)}
    (hcount : (jsonPaths dir listing).length + (legacyPaths legacy).length ≤ maxNamedDrafts)
    (hbytes : readTotal files (jsonPaths dir listing) + readTotal files (legacyPaths legacy) ≤
      maxNamedDraftTotalBytes) :
    ∃ result, scanNamedDrafts json modified files dir listing legacy = .ok result :=
  scanNamedDrafts_isOk_iff.2 ⟨hcount,
    (Nat.add_le_add scannedTotal_le_readTotal scannedTotal_le_readTotal).trans hbytes⟩

/-- The stores can be scanned, in whatever order they are listed. -/
def Scannable (json : Json) (modified : Path D → Option Nat) (files : FileStore D) (dir : D)
    (legacyDir : Option D) : Prop :=
  ∀ listing legacyListing : List OsString, Lists files dir listing →
    (∀ d, legacyDir = some d → Lists files d legacyListing) →
      ∃ result, scanNamedDrafts json modified files dir listing
        (legacyDir.map fun d => (d, legacyListing)) = .ok result

end Scan

/-! ## After a migration -/

section AfterMigration

variable {json : Json} {uuids : MigrationUuids} {listing legacyListing : List OsString}
  {migrations : List (LegacyMigration D)}

omit [DecidableEq D] in
theorem length_destinations : (destinations migrations).length = migratedCount migrations := by
  unfold destinations migratedCount
  rw [List.length_filterMap_eq_countP, List.countP_eq_length_filter]

omit [DecidableEq D] in
/-- The files that were written cost at most the bytes that were counted for them. -/
theorem readTotal_destinations (h : ∀ m ∈ migrations, ∀ d, m.destination = some d →
    t d = some { bytes := m.bytes }) : readTotal t (destinations migrations) ≤
      (migrations.map fun m => if m.destination.isSome then m.bytes.length else 0).sum := by
  induction migrations with
  | nil => exact Nat.le_refl 0
  | cons m rest ih =>
    have hrest := ih fun m' hm' => h m' (List.mem_cons_of_mem _ hm')
    unfold destinations at hrest ⊢
    rw [List.filterMap_cons, List.map_cons, List.sum_cons]
    cases hd : m.destination with
    | none =>
      show readTotal t (rest.filterMap _) ≤ 0 + _
      omega
    | some d =>
      have hlength := readLength_le (h m List.mem_cons_self d hd)
      show readTotal t (d :: rest.filterMap _) ≤ m.bytes.length + _
      rw [readTotal_cons]
      omega

/-- After a migration that returned, the current directory has its old entries and the written
ones, and the legacy directory what was preserved. -/
theorem scannedPaths_after (hlisting : Lists files dir listing)
    (hlegacy : Lists files legacyDir legacyListing) (hfresh : FreshUuids uuids legacyListing)
    (hunderway : Underway files (preflightOf json uuids files dir legacyDir listing
      legacyListing).migrations t)
    (hgone : ∀ m ∈ (preflightOf json uuids files dir legacyDir listing legacyListing).migrations,
      t m.source = none) {after legacyAfter : List OsString} (hafter : Lists t dir after)
    (hlegacyAfter : Lists t legacyDir legacyAfter) :
    jsonPaths dir after ⊆ jsonPaths dir listing ++ destinations (preflightOf json uuids files dir
      legacyDir listing legacyListing).migrations ∧
    jsonPaths legacyDir legacyAfter ⊆
      preservedPaths json files (jsonPaths legacyDir legacyListing) ∧
    (∀ p ∈ jsonPaths dir listing, readLength t p ≤ readLength files p) ∧
    ∀ p ∈ preservedPaths json files (jsonPaths legacyDir legacyListing),
      readLength t p ≤ readLength files p := by
  have hplanned := planned_preflightOf files dir json legacyDir listing hlegacy.nodup hfresh
  -- Besides the destinations, what is still there is as it was and was no source.
  have hstays : ∀ p, p.fileName.isJson = true → (t p).isSome = true →
      p ∉ destinations (preflightOf json uuids files dir legacyDir listing
        legacyListing).migrations → t p = files p ∧ p ∉ (preflightOf json uuids files dir
          legacyDir listing legacyListing).migrations.map LegacyMigration.source := by
    intro p hjson hsome hdestination
    have hsource : p ∉ (preflightOf json uuids files dir legacyDir listing
        legacyListing).migrations.map LegacyMigration.source := by
      intro hsource
      obtain ⟨m, hm, rfl⟩ := List.mem_map.1 hsource
      rw [hgone m hm] at hsome
      cases hsome
    exact ⟨hunderway.frame p hjson hsource hdestination, hsource⟩
  -- A destination is in the legacy directory only where both are one, and then nothing is written.
  have hapart : ∀ p ∈ destinations (preflightOf json uuids files dir legacyDir listing
      legacyListing).migrations, p.parent ≠ legacyDir := by
    intro p hp hparent
    have hdir := (hplanned.free p hp).1.symm.trans hparent
    obtain rfl := hdir
    obtain ⟨m, hm, hd⟩ := List.mem_filterMap.1 hp
    rw [destination_eq_none hlisting hlegacy hfresh hm] at hd
    exact absurd hd (Option.some_ne_none p).symm
  have hcost : ∀ p, p.fileName.isJson = true →
      p ∉ destinations (preflightOf json uuids files dir legacyDir listing
        legacyListing).migrations → readLength t p ≤ readLength files p := by
    intro p hjson hdestination
    cases hp : t p with
    | none =>
      unfold readLength
      rw [hp]
      exact Nat.zero_le _
    | some file =>
      have hsame := (hstays p hjson (by rw [hp]; rfl) hdestination).1
      exact Nat.le_of_eq (readLength_congr hsame)
  refine ⟨?_, ?_, ?_, ?_⟩
  · intro p hp
    obtain ⟨hparent, hjson, hsome⟩ := hafter.mem_jsonPaths.1 hp
    by_cases hdestination : p ∈ destinations (preflightOf json uuids files dir legacyDir listing
        legacyListing).migrations
    · exact List.mem_append_right _ hdestination
    · have hsame := (hstays p hjson hsome hdestination).1
      rw [hsame] at hsome
      exact List.mem_append_left _ (hlisting.mem_jsonPaths.2 ⟨hparent, hjson, hsome⟩)
  · intro p hp
    obtain ⟨hparent, hjson, hsome⟩ := hlegacyAfter.mem_jsonPaths.1 hp
    obtain ⟨hsame, hsource⟩ := hstays p hjson hsome fun hd => hapart p hd hparent
    rw [hsame] at hsome
    have hentry := hlegacy.mem_jsonPaths.2 ⟨hparent, hjson, hsome⟩
    refine List.mem_filter.2 ⟨hentry, ?_⟩
    rw [Option.isNone_iff_eq_none]
    by_contra hvalid
    exact hsource (hplanned.mem_sources.2 ⟨hentry, Option.isSome_iff_ne_none.2 hvalid⟩)
  · intro p hp
    exact hcost p (hlisting.mem_jsonPaths.1 hp).2.1 fun hd => (hplanned.free p hd).2.2 hp
  · intro p hp
    obtain ⟨hparent, hjson, -⟩ := hlegacy.mem_jsonPaths.1 (List.mem_of_mem_filter hp)
    exact hcost p hjson fun hd => hapart p hd hparent

/-- A migration that returns leaves stores that can be scanned. -/
theorem scannable_after_migration (hlisting : Lists files dir listing)
    (hlegacy : Lists files legacyDir legacyListing) (hfresh : FreshUuids uuids legacyListing)
    {faults : MigrationOp → Fault} {n : Nat}
    (hok : (migrateLegacyNamedDrafts json uuids dir legacyDir listing legacyListing faults
      files).1 = .ok n) (modified : Path D → Option Nat) :
    Scannable json modified (migrateLegacyNamedDrafts json uuids dir legacyDir listing
      legacyListing faults files).2 dir (some legacyDir) := by
  intro after legacyAfter hafter hlegacyAfter
  have hlegacyAfter := hlegacyAfter legacyDir rfl
  obtain ⟨haccepts, -, hunderway, hgone⟩ :=
    (meets_migrateLegacyNamedDrafts hlisting hlegacy hfresh).of_ok hok
  generalize (migrateLegacyNamedDrafts json uuids dir legacyDir listing legacyListing faults
    files).2 = t at hafter hlegacyAfter hunderway hgone ⊢
  have hplanned := planned_preflightOf files dir json legacyDir listing hlegacy.nodup hfresh
  obtain ⟨hcurrent, hrest, hcost, hlegacyCost⟩ :=
    scannedPaths_after hlisting hlegacy hfresh hunderway hgone hafter hlegacyAfter
  -- Every source is gone, so every copy is complete.
  have hwritten : ∀ m ∈ (preflightOf json uuids files dir legacyDir listing
      legacyListing).migrations, ∀ d, m.destination = some d →
        t d = some { bytes := m.bytes } := by
    intro m hm d hd
    rcases hunderway.source m hm with hsame | ⟨-, hdone⟩
    · have hfile := (source_of_mem hlegacy hfresh hm).2.2.1
      rw [← hsame, hgone m hm] at hfile
      cases hfile
    · exact hdone d hd
  have hcount := haccepts.projectedCount
  have hbytes := haccepts.projectedBytes
  rw [hplanned.preservedCount, ← length_destinations] at hcount
  rw [hplanned.preservedBytes, hplanned.migratedBytes] at hbytes
  apply scanNamedDrafts_ok
  · -- The entries of the two stores are among those that the plan has counted.
    have hfirst := ((nodup_jsonPaths hafter.nodup).subperm hcurrent).length_le
    have hsecond := ((nodup_jsonPaths hlegacyAfter.nodup).subperm hrest).length_le
    rw [List.length_append] at hfirst
    show (jsonPaths dir after).length + (jsonPaths legacyDir legacyAfter).length ≤ _
    omega
  · -- Their bytes are those of the plan, for no entry has grown.
    have hfirst := readTotal_le_of_subset t (nodup_jsonPaths hafter.nodup) hcurrent
    have hsecond := readTotal_le_of_subset t (nodup_jsonPaths hlegacyAfter.nodup) hrest
    have hentries := readTotal_le_of_forall hcost
    have hpreserved := readTotal_le_of_forall hlegacyCost
    have hdestinations := readTotal_destinations hwritten
    rw [readTotal_append] at hfirst
    show readTotal t (jsonPaths dir after) + readTotal t (jsonPaths legacyDir legacyAfter) ≤ _
    omega

end AfterMigration

/-! ## The check before a save -/

section Save

variable {json : Json} {listing : List OsString} {legacy : Option (D × List OsString)}
  {replacement : Option (Path D)}

omit [DecidableEq D] in
theorem readBounded_eq_ok {path : Path D} {total : Nat} {read : Bytes × Nat} :
    readBounded files path total = .ok read ↔ InBounds files path ∧
      total + readLength files path ≤ maxNamedDraftTotalBytes ∧
        read = (contentOf files path, total + readLength files path) := by
  unfold readBounded
  rw [bind_eq_ok]
  constructor
  · rintro ⟨bytes, hread, hcharge⟩
    split at hcharge
    · rename_i hlength
      obtain ⟨hbounds, rfl⟩ := content_of_readNamedDraft hread hlength
      obtain ⟨charged, hcharged, rfl⟩ := map_eq_ok.1 hcharge
      rw [hbounds.read.2.2]
      obtain ⟨rfl, hlimit⟩ := chargeNamedDraftBytes_eq_ok.1 hcharged
      exact ⟨hbounds, hlimit, rfl⟩
    · cases hcharge
  · rintro ⟨hbounds, hlimit, rfl⟩
    obtain ⟨hread, hlength, hcost⟩ := hbounds.read
    rw [hcost] at hlimit ⊢
    refine ⟨_, hread, ?_⟩
    rw [if_pos hlength]
    exact map_eq_ok.2 ⟨_, chargeNamedDraftBytes_eq_ok.2 ⟨rfl, hlimit⟩, rfl⟩

/-- What a save replaces of the entries. -/
def replacedBytes (files : FileStore D) (replacement : Option (Path D))
    (paths : List (Path D)) : Nat :=
  match replacement with
  | none => 0
  | some path => if path ∈ paths then readLength files path else 0

/-- The entries are charged as the scan does, and what the save replaces is subtracted once. -/
theorem chargeCurrent_ok {total replaced : Nat} {result : Nat × Nat}
    (h : chargeCurrent files replacement paths total replaced = .ok result) :
    result.1 = total + readTotal files paths ∧
      (total ≤ maxNamedDraftTotalBytes → result.1 ≤ maxNamedDraftTotalBytes) ∧
      result.2 ≤ max replaced (replacedBytes files replacement paths) := by
  induction paths generalizing total replaced with
  | nil =>
    obtain rfl := Except.ok.inj h
    exact ⟨rfl, id, Nat.le_max_left _ _⟩
  | cons path rest ih =>
    unfold chargeCurrent at h
    obtain ⟨read, hread, hrest⟩ := bind_eq_ok.1 h
    obtain ⟨hbounds, hcharged, rfl⟩ := readBounded_eq_ok.1 hread
    obtain ⟨hsum, hlimit, hreplaced⟩ := ih hrest
    have hlength := hbounds.read.2.2
    rw [readTotal_cons]
    refine ⟨by simp only at hsum; omega, fun _ => hlimit hcharged, hreplaced.trans (max_le ?_ ?_)⟩
    · split
      · rename_i hsame
        rw [hsame]
        show _ ≤ max replaced (if path ∈ path :: rest then readLength files path else 0)
        rw [if_pos List.mem_cons_self, hlength]
        exact Nat.le_max_right _ _
      · exact Nat.le_max_left _ _
    · apply le_max_of_le_right
      cases replacement with
      | none => exact Nat.le_refl 0
      | some p =>
        show (if p ∈ rest then _ else 0) ≤ if p ∈ path :: rest then _ else 0
        split
        · rename_i hmem
          rw [if_pos (List.mem_cons_of_mem _ hmem)]
        · exact Nat.zero_le _

omit [DecidableEq D] in
theorem chargeLegacy_ok {total result : Nat}
    (h : paths.foldlM (chargeLegacy files) total = .ok result) :
    result = total + readTotal files paths ∧
      (total ≤ maxNamedDraftTotalBytes → result ≤ maxNamedDraftTotalBytes) := by
  induction paths generalizing total with
  | nil =>
    obtain rfl := Except.ok.inj h
    exact ⟨rfl, id⟩
  | cons path rest ih =>
    rw [List.foldlM_cons, bind_eq_ok] at h
    obtain ⟨between, hpath, hrest⟩ := h
    obtain ⟨hsum, hlimit⟩ := ih hrest
    rw [readTotal_cons]
    unfold chargeLegacy at hpath
    cases hread : readNamedDraft files path with
    | error e =>
      rw [hread] at hpath
      obtain rfl := Except.ok.inj hpath
      have hnone := readLength_of_error hread
      exact ⟨by omega, hlimit⟩
    | ok bytes =>
      rw [hread] at hpath
      obtain ⟨rfl, hcharged⟩ := chargeNamedDraftBytes_eq_ok.1 hpath
      rw [length_of_readNamedDraft hread] at hsum hcharged hlimit
      exact ⟨by omega, fun _ => hlimit hcharged⟩

/-- A save of `n` bytes that the stores have room for. -/
structure MigrationFits (files : FileStore D) (dir : D) (listing : List OsString)
    (legacy : Option (D × List OsString)) (replacement : Option (Path D)) (n : Nat) : Prop where
  count : (jsonPaths dir listing).length + (legacyPaths legacy).length +
    (if replacement.isNone then 1 else 0) ≤ maxNamedDrafts
  before : readTotal files (jsonPaths dir listing) + readTotal files (legacyPaths legacy) ≤
    maxNamedDraftTotalBytes
  bytes : readTotal files (jsonPaths dir listing) + readTotal files (legacyPaths legacy) + n ≤
    maxNamedDraftTotalBytes + replacedBytes files replacement (jsonPaths dir listing)
  replaces : ∀ path, replacement = some path → path ∈ jsonPaths dir listing

theorem mem_of_checkReplacement (h : checkReplacement files dir paths replacement = .ok ()) :
    ∀ path, replacement = some path → path ∈ paths := by
  intro path hsome
  rw [hsome] at h
  unfold checkReplacement at h
  simp only at h
  split at h
  · cases h
  · rename_i hentry
    exact (not_not.1 hentry).2.2

/-- A legacy directory of its own is counted. -/
theorem filter_legacy (hapart : ∀ l, legacy = some l → l.1 ≠ dir) :
    legacy.filter (fun l => l.1 ≠ dir) = legacy := by
  cases legacy with
  | none => rfl
  | some l => exact Option.filter_some_pos (decide_eq_true (hapart l rfl))

/-- **What the check before a save allows.** It does not count the legacy directory where it is the
current one. -/
theorem fits_of_ok {n : Nat}
    (h : ensureNamedDraftSaveFits files dir listing legacy replacement n = .ok ()) :
    MigrationFits files dir listing (legacy.filter fun l => l.1 ≠ dir) replacement n := by
  unfold ensureNamedDraftSaveFits at h
  obtain ⟨_, -, h⟩ := bind_eq_ok.1 h
  obtain ⟨paths, hpaths, h⟩ := bind_eq_ok.1 h
  obtain ⟨legacies, hlegacies, h⟩ := bind_eq_ok.1 h
  obtain ⟨existing, hexisting, h⟩ := bind_eq_ok.1 h
  obtain ⟨_, -, h⟩ := bind_eq_ok.1 h
  obtain ⟨_, hreplacement, h⟩ := bind_eq_ok.1 h
  obtain ⟨count, hcount, h⟩ := bind_eq_ok.1 h
  obtain ⟨_, hcountFits, h⟩ := bind_eq_ok.1 h
  obtain ⟨current, hcurrent, h⟩ := bind_eq_ok.1 h
  obtain ⟨total, htotal, h⟩ := bind_eq_ok.1 h
  obtain ⟨projected, hprojected, h⟩ := bind_eq_ok.1 h
  have hfits := ensure_eq_ok.1 h
  have hcountFits := ensure_eq_ok.1 hcountFits
  obtain ⟨rfl, -⟩ := jsonEntries_eq_ok.1 hpaths
  obtain ⟨rfl, -⟩ := legacyEntries_eq_ok.1 hlegacies
  obtain rfl := checkedAdd_eq_ok hexisting
  obtain rfl := checkedAdd_eq_ok hcount
  obtain ⟨hsum, hwithin, hreplaced⟩ := chargeCurrent_ok hcurrent
  obtain ⟨hall, hallWithin⟩ := chargeLegacy_ok htotal
  have hbefore := hallWithin (hwithin (Nat.zero_le _))
  refine ⟨hcountFits, by omega, ?_, mem_of_checkReplacement hreplacement⟩
  unfold projectedBytes at hprojected
  split at hprojected
  · have hproject := checkedAdd_eq_ok hprojected
    rw [Nat.zero_max] at hreplaced
    omega
  · cases hprojected

omit [DecidableEq D] in
/-- The name of a new draft is that of a draft. -/
theorem isJson_newDraftName (stamp subject uuid : Str) :
    (newDraftName stamp subject uuid).isJson = true := by
  unfold newDraftName
  refine OsString.isJson_iff.2 ⟨_, ?_, rfl⟩
  intro hnil
  exact List.append_ne_nil_of_right_ne_nil _ (List.cons_ne_nil _ _) (List.map_eq_nil_iff.1 hnil)

/-- A save writes a draft of the current directory. -/
theorem savePath_mem (files : FileStore D) (names : SaveNames) (fields : ComposeFields)
    (hreplaces : ∀ path, replacement = some path → path ∈ jsonPaths dir listing) :
    (savePath names dir fields replacement).parent = dir ∧
      (savePath names dir fields replacement).fileName.isJson = true ∧
      (replacement.isSome = true →
        savePath names dir fields replacement ∈ jsonPaths dir listing ∧
        replacedBytes files replacement (jsonPaths dir listing) =
          readLength files (savePath names dir fields replacement)) ∧
      (replacement = none → replacedBytes files replacement (jsonPaths dir listing) = 0) := by
  cases replacement with
  | none =>
    refine ⟨rfl, isJson_newDraftName _ _ _, ?_, fun _ => rfl⟩
    intro hsome
    cases hsome
  | some path =>
    have hmem := hreplaces path rfl
    obtain ⟨hparent, hjson, -⟩ := mem_jsonPaths.1 hmem
    refine ⟨hparent, hjson, fun _ => ⟨hmem, if_pos hmem⟩, ?_⟩
    intro hnone
    cases hnone

/-- `after` differs from `files` in the target of a save at most, where it has the draft. -/
def SavedOrKept (files after : FileStore D) (target : Path D) (bytes : Bytes) : Prop :=
  ∀ p, p.fileName.isJson = true →
    after p = files p ∨ p = target ∧ after p = some { bytes := bytes }

theorem WriteBegun.savedOrKept {after : FileStore D} {temporaryPath target : Path D} {bytes : Bytes}
    (h : WriteBegun files after temporaryPath target bytes)
    (htemporary : temporaryPath.fileName.isJson = false) :
    SavedOrKept files after target bytes := by
  intro p hp
  by_cases htarget : p = target
  · rw [htarget]
    exact h.target.imp_right fun hnew => ⟨rfl, hnew⟩
  · refine Or.inl (h.frame p ?_ htarget)
    intro hsame
    rw [hsame, htemporary] at hp
    cases hp

/-- The temporary file of a save. -/
def saveTemporary (names : SaveNames) (path : Path D) : Path D :=
  { path with fileName := temporaryName path.fileName names.temporary }

/-- What a save writes is the draft. -/
theorem checkSave_eq_ok {fields : ComposeFields} {bytes : Bytes}
    (h : checkSave json files dir listing legacy fields replacement = .ok bytes) :
    json.toVecPretty fields = .ok bytes ∧
      ensureNamedDraftSaveFits files dir listing legacy replacement bytes.length = .ok () := by
  unfold checkSave at h
  obtain ⟨_, -, h⟩ := bind_eq_ok.1 h
  obtain ⟨read, hread, h⟩ := bind_eq_ok.1 h
  obtain ⟨_, hfits, h⟩ := bind_eq_ok.1 h
  obtain rfl := Except.ok.inj h
  exact ⟨mapError_eq_ok.1 hread, hfits⟩

/-- A save that returns has put the draft in its place and changed nothing else; however it ends,
it has written its target and the temporary file at most. -/
theorem meets_saveNamedDraftFields {names : SaveNames} {fields : ComposeFields}
    {bytes : Bytes} {faults : SaveOp → Fault} (hserialized : json.toVecPretty fields = .ok bytes)
    (hjson : (savePath names dir fields replacement).fileName.isJson = true) :
    Meets (fun _ t => t = renamed files (savePath names dir fields replacement) bytes)
      (fun _ t => WriteBegun files t (saveTemporary names (savePath names dir fields replacement))
        (savePath names dir fields replacement) bytes)
      (fun t => WriteBegun files t (saveTemporary names (savePath names dir fields replacement))
        (savePath names dir fields replacement) bytes)
      (saveNamedDraftFields json names dir listing legacy fields replacement faults files) := by
  unfold saveNamedDraftFields
  apply Prog.meets_andThen (Q := fun read t => read = bytes ∧ t = files)
  · apply Prog.meets_op
    · intro read t heffect
      obtain ⟨read', hcheck, hsame⟩ := map_eq_ok.1 heffect
      obtain ⟨rfl, rfl⟩ := Prod.mk.inj hsame
      have hread := (checkSave_eq_ok hcheck).1
      rw [hserialized] at hread
      exact ⟨(Except.ok.inj hread).symm, rfl⟩
    · exact fun _ _ => writeBegun_refl
    · exact fun _ => writeBegun_refl
    · exact fun _ => writeBegun_refl
  rintro read t ⟨rfl, rfl⟩
  apply Prog.meets_andThen (Q := fun _ u => u = t)
  · apply Prog.meets_mapError
    apply meets_untouched.mono
    · exact fun _ _ hsame => hsame
    · intro _ u hsame
      rw [hsame]
      exact writeBegun_refl
    · intro u hsame
      rw [hsame]
      exact writeBegun_refl
  intro _ u hsame
  rw [hsame]
  apply Prog.meets_andThen (Q := fun _ u => u = renamed t (savePath names dir fields replacement)
    read)
  · apply Prog.meets_mapError
    apply Prog.meets_relabel
    exact meets_atomicWriteDurable hjson
  · exact fun _ _ hrenamed => hrenamed

/-- All ends of a save together. -/
theorem writeBegun_saveNamedDraftFields {names : SaveNames} {fields : ComposeFields}
    {bytes : Bytes} {faults : SaveOp → Fault} (hserialized : json.toVecPretty fields = .ok bytes)
    (hjson : (savePath names dir fields replacement).fileName.isJson = true) :
    WriteBegun files (saveNamedDraftFields json names dir listing legacy fields replacement faults
      files).2 (saveTemporary names (savePath names dir fields replacement))
        (savePath names dir fields replacement) bytes := by
  apply Meets.state (I := fun t => WriteBegun files t (saveTemporary names (savePath names dir
    fields replacement)) (savePath names dir fields replacement) bytes)
  apply (meets_saveNamedDraftFields hserialized hjson).mono
  · intro _ t hrenamed
    rw [hrenamed]
    exact writeBegun_renamed
  · exact fun _ _ hbegun => hbegun
  · exact fun _ hbegun => hbegun

/-- What the current directory holds after a save: no more than before, or the draft besides what
it does not replace. -/
theorem current_after_save {names : SaveNames} {fields : ComposeFields} {bytes : Bytes}
    {t : FileStore D} {after : List OsString} (hlisting : Lists files dir listing)
    (hreplaces : ∀ path, replacement = some path → path ∈ jsonPaths dir listing)
    (hsaved : SavedOrKept files t (savePath names dir fields replacement) bytes)
    (hafter : Lists t dir after) :
    (jsonPaths dir after).length ≤
      (jsonPaths dir listing).length + (if replacement.isNone then 1 else 0) ∧
    (readTotal t (jsonPaths dir after) ≤ readTotal files (jsonPaths dir listing) ∨
      readTotal t (jsonPaths dir after) + replacedBytes files replacement (jsonPaths dir listing) ≤
        readTotal files (jsonPaths dir listing) + bytes.length) := by
  obtain ⟨hparent, hjson, hreplace, hnone⟩ :=
    savePath_mem files names fields hreplaces
  generalize savePath names dir fields replacement = target at hsaved hparent hjson hreplace
  have hnodup : (jsonPaths dir listing).Nodup := nodup_jsonPaths hlisting.nodup
  have hnodupAfter : (jsonPaths dir after).Nodup := nodup_jsonPaths hafter.nodup
  -- The entries afterwards are the target and the others; each of the others costs at most what it
  -- did.
  have hsubset : jsonPaths dir after ⊆ target :: (jsonPaths dir listing).erase target := by
    intro p hp
    obtain ⟨hparent, hjson, hsome⟩ := hafter.mem_jsonPaths.1 hp
    rcases hsaved p hjson with hsame | ⟨rfl, -⟩
    · by_cases hpath : p = target
      · rw [hpath]
        exact List.mem_cons_self
      · rw [hsame] at hsome
        have hentry := hlisting.mem_jsonPaths.2 ⟨hparent, hjson, hsome⟩
        exact List.mem_cons_of_mem _ ((List.mem_erase_of_ne hpath).2 hentry)
    · exact List.mem_cons_self
  have hlength := (hnodupAfter.subperm hsubset).length_le
  have htotal := readTotal_le_of_subset t hnodupAfter hsubset
  rw [List.length_cons] at hlength
  rw [readTotal_cons] at htotal
  have hrest : readTotal t ((jsonPaths dir listing).erase target) ≤
      readTotal files ((jsonPaths dir listing).erase target) := by
    apply readTotal_le_of_forall
    intro p hp
    obtain ⟨hpath, hentry⟩ := hnodup.mem_erase_iff.1 hp
    rcases hsaved p (mem_jsonPaths.1 hentry).2.1 with hsame | ⟨hpath', -⟩
    · exact Nat.le_of_eq (readLength_congr hsame)
    · exact absurd hpath' hpath
  have htargetCost : t target = files target ∨ readLength t target ≤ bytes.length :=
    (hsaved target hjson).imp_right fun hnew => readLength_le hnew.2
  by_cases hmem : target ∈ jsonPaths dir listing
  · have hsplit : readTotal files (jsonPaths dir listing) = readLength files target +
        readTotal files ((jsonPaths dir listing).erase target) := by
      rw [← readTotal_cons]
      exact readTotal_perm (List.perm_cons_erase hmem)
    have hcount := List.length_erase_of_mem hmem
    have hpositive := List.length_pos_of_mem hmem
    have hreplaced : replacedBytes files replacement (jsonPaths dir listing) ≤
        readLength files target := by
      cases replacement with
      | none => exact Nat.zero_le _
      | some path => exact Nat.le_of_eq (hreplace rfl).2
    refine ⟨by omega, htargetCost.imp ?_ ?_⟩
    · intro hsame
      rw [readLength_congr hsame] at htotal
      omega
    · intro hcost
      omega
  · -- The target is new, so nothing is replaced by it.
    have hnew : replacement = none := by
      cases replacement with
      | none => rfl
      | some path => exact absurd (hreplace rfl).1 hmem
    have hreplaced := hnone hnew
    rw [List.erase_of_not_mem hmem] at hlength htotal hrest
    refine ⟨by rw [hnew]; exact hlength, htargetCost.imp ?_ ?_⟩
    · intro hsame
      have hfree : files target = none := by
        rw [← Option.not_isSome_iff_eq_none]
        exact fun hsome => hmem (hlisting.mem_jsonPaths.2 ⟨hparent, hjson, hsome⟩)
      have hcost : readLength t target = 0 := by
        unfold readLength
        rw [hsame, hfree]
      omega
    · intro hcost
      omega

/-- A save that the stores have room for leaves stores that can be scanned. -/
theorem scannable_after_save {names : SaveNames} {fields : ComposeFields} {bytes : Bytes}
    {t : FileStore D} {legacyDir : Option D} {legacyListing : List OsString}
    (hlisting : Lists files dir listing)
    (hlegacy : ∀ d, legacyDir = some d → d ≠ dir ∧ Lists files d legacyListing)
    (hfits : MigrationFits files dir listing (legacyDir.map fun d => (d, legacyListing)) replacement
      bytes.length)
    (hsaved : SavedOrKept files t (savePath names dir fields replacement) bytes)
    (modified : Path D → Option Nat) : Scannable json modified t dir legacyDir := by
  intro after legacyAfter hafter hlegacyAfter
  have htarget : (savePath names dir fields replacement).parent = dir :=
    (savePath_mem files names fields hfits.replaces).1
  -- The legacy store keeps its drafts, since the save writes in the other directory.
  have hlegacyKept : ∀ d, legacyDir = some d →
      jsonPaths d legacyAfter ⊆ jsonPaths d legacyListing ∧
      ∀ p ∈ jsonPaths d legacyListing, readLength t p ≤ readLength files p := by
    intro d hd
    have hkept : ∀ p : Path D, p.parent = d → p.fileName.isJson = true → t p = files p := by
      intro p hparent hjson
      rcases hsaved p hjson with hsame | ⟨rfl, -⟩
      · exact hsame
      · exact absurd (hparent.symm.trans htarget) (hlegacy d hd).1
    constructor
    · intro p hp
      obtain ⟨hparent, hjson, hsome⟩ := (hlegacyAfter d hd).mem_jsonPaths.1 hp
      rw [hkept p hparent hjson] at hsome
      exact (hlegacy d hd).2.mem_jsonPaths.2 ⟨hparent, hjson, hsome⟩
    · intro p hp
      obtain ⟨hparent, hjson, -⟩ := (hlegacy d hd).2.mem_jsonPaths.1 hp
      exact Nat.le_of_eq (readLength_congr (hkept p hparent hjson))
  have hlegacyCount : (legacyPaths (legacyDir.map fun d => (d, legacyAfter))).length ≤
      (legacyPaths (legacyDir.map fun d => (d, legacyListing))).length := by
    cases legacyDir with
    | none => exact Nat.le_refl 0
    | some d =>
      have hnodup : (jsonPaths d legacyAfter).Nodup := nodup_jsonPaths (hlegacyAfter d rfl).nodup
      exact (hnodup.subperm (hlegacyKept d rfl).1).length_le
  have hlegacyTotal : readTotal t (legacyPaths (legacyDir.map fun d => (d, legacyAfter))) ≤
      readTotal files (legacyPaths (legacyDir.map fun d => (d, legacyListing))) := by
    cases legacyDir with
    | none => exact Nat.le_refl 0
    | some d =>
      have hnodup : (jsonPaths d legacyAfter).Nodup := nodup_jsonPaths (hlegacyAfter d rfl).nodup
      exact (readTotal_le_of_subset t hnodup (hlegacyKept d rfl).1).trans
        (readTotal_le_of_forall (hlegacyKept d rfl).2)
  obtain ⟨hcurrentCount, hcurrentTotal⟩ := current_after_save hlisting hfits.replaces hsaved hafter
  have hcount := hfits.count
  have hbefore := hfits.before
  have hbytes := hfits.bytes
  apply scanNamedDrafts_ok
  · omega
  · omega

end Save

/-! ## One directory, listed twice -/

section Twice

variable {json : Json} {listing : List OsString} {modified : Path D → Option Nat}

/-- The entries stay within the limits when each is counted and charged twice. -/
structure FitsTwice (files : FileStore D) (paths : List (Path D)) : Prop where
  count : 2 * paths.length ≤ maxNamedDrafts
  bytes : 2 * scannedTotal files paths ≤ maxNamedDraftTotalBytes

omit [DecidableEq D] in
/-- Entries that fit twice can be scanned in every state that agrees on the drafts. -/
theorem FitsTwice.scannable (h : FitsTwice files (jsonPaths dir listing))
    (hlisting : Lists files dir listing)
    (hagrees : ∀ p : Path D, p.fileName.isJson = true → t p = files p) :
    Scannable json modified t dir (some dir) := by
  intro first second hfirst hsecond
  -- whatever the order, both listings have the entries of the store
  have hperm : ∀ {names : List OsString}, Lists t dir names →
      (jsonPaths dir names).Perm (jsonPaths dir listing) := by
    intro names hnames
    refine (List.perm_ext_iff_of_nodup (nodup_jsonPaths hnames.nodup)
      (nodup_jsonPaths hlisting.nodup)).2 fun p => ?_
    rw [hlisting.mem_jsonPaths, hnames.mem_jsonPaths]
    refine and_congr_right fun _ => and_congr_right fun hjson => ?_
    rw [hagrees p hjson]
  have htotal : scannedTotal t (jsonPaths dir listing) =
      scannedTotal files (jsonPaths dir listing) := by
    unfold scannedTotal
    refine congrArg List.sum (List.map_congr_left fun p hp => ?_)
    unfold scannedLength readLength
    rw [hagrees p (mem_jsonPaths.1 hp).2.1]
  have hcount := h.count
  have hbytes := h.bytes
  refine scanNamedDrafts_isOk_iff.2 ⟨?_, ?_⟩
  · show (jsonPaths dir first).length + (jsonPaths dir second).length ≤ _
    rw [(hperm hfirst).length_eq, (hperm (hsecond dir rfl)).length_eq]
    omega
  · show scannedTotal t (jsonPaths dir first) + scannedTotal t (jsonPaths dir second) ≤ _
    rw [scannedTotal_perm (hperm hfirst), scannedTotal_perm (hperm (hsecond dir rfl)), htotal]
    omega

omit [DecidableEq D] in
/-- **One directory as the current and the legacy one** can be scanned exactly when its entries fit
twice. -/
theorem scannable_twice_iff (hlisting : Lists files dir listing) :
    Scannable json modified files dir (some dir) ↔ FitsTwice files (jsonPaths dir listing) := by
  refine ⟨fun hscannable => ?_, fun hfits => hfits.scannable hlisting fun _ _ => rfl⟩
  obtain ⟨hcount, hbytes⟩ := scanNamedDrafts_isOk_iff.1
    (hscannable listing listing hlisting fun d hd => Option.some.inj hd ▸ hlisting)
  have hcount : (jsonPaths dir listing).length + (jsonPaths dir listing).length ≤
      maxNamedDrafts := hcount
  have hbytes : scannedTotal files (jsonPaths dir listing) +
      scannedTotal files (jsonPaths dir listing) ≤ maxNamedDraftTotalBytes := hbytes
  exact ⟨by omega, by omega⟩

/-- The names of a directory once a draft is in its place. -/
theorem Lists.renamed (hlisting : Lists files dir listing) {target : Path D}
    (hparent : target.parent = dir) (bytes : Bytes) :
    Lists (Ui.renamed files target bytes) dir (listing.insert target.fileName) where
  nodup := hlisting.nodup.insert
  complete name := by
    unfold Ui.renamed
    rw [List.mem_insert_iff, hlisting.complete]
    by_cases hname : name = target.fileName
    · have hpath : (⟨dir, name⟩ : Path D) = target := by
        rw [hname, ← hparent]
      rw [hpath, Function.update_self]
      exact iff_of_true (Or.inl hname) rfl
    · have hpath : (⟨dir, name⟩ : Path D) ≠ target := by
        rintro rfl
        exact hname rfl
      rw [Function.update_of_ne hpath]
      exact or_iff_right hname

/-- The entries fit twice once the draft, of these bytes, is in its place at `target`. -/
def FitsTwiceWith (files : FileStore D) (dir : D) (listing : List OsString) (target : Path D)
    (bytes : Bytes) : Prop :=
  FitsTwice (renamed files target bytes) (jsonPaths dir (listing.insert target.fileName))

/-- A save that ends early has the store before it or the one with the draft, as far as drafts
go. -/
theorem WriteBegun.scannable {temporaryPath target : Path D} {bytes : Bytes}
    (h : WriteBegun files t temporaryPath target bytes)
    (htemporary : temporaryPath.fileName.isJson = false) (hparent : target.parent = dir)
    (hlisting : Lists files dir listing) (hbefore : FitsTwice files (jsonPaths dir listing))
    (hafter : FitsTwiceWith files dir listing target bytes) :
    Scannable json modified t dir (some dir) := by
  have hothers : ∀ p : Path D, p.fileName.isJson = true → p ≠ target → t p = files p := by
    intro p hjson hpath
    refine h.frame p ?_ hpath
    rintro rfl
    rw [htemporary] at hjson
    cases hjson
  rcases h.target with hold | hnew
  · refine hbefore.scannable hlisting fun p hjson => ?_
    by_cases hpath : p = target
    · rw [hpath, hold]
    · exact hothers p hjson hpath
  · refine FitsTwice.scannable hafter (hlisting.renamed hparent bytes) fun p hjson => ?_
    unfold renamed
    by_cases hpath : p = target
    · rw [hpath, Function.update_self, hnew]
    · rw [Function.update_of_ne hpath]
      exact hothers p hjson hpath

end Twice

/-! ## Both together -/

/-- **What stays readable.** A migration that returns leaves stores that can be scanned. A save that
the check lets through and that returns does so too, unless the current directory is also given as
the legacy one: then exactly when the entries, with the draft in its place, fit twice. However the
save ends, it is enough that they fit twice before and with the draft. -/
theorem scannable_after_migration_and_save_iff (json : Json) {uuids : MigrationUuids}
    {legacyDir : D} {listing legacyListing : List OsString} (modified : Path D → Option Nat)
    (hlisting : Lists files dir listing) (hlegacy : Lists files legacyDir legacyListing)
    (hfresh : FreshUuids uuids legacyListing) :
    (∀ (faults : MigrationOp → Fault) (n : Nat),
      (migrateLegacyNamedDrafts json uuids dir legacyDir listing legacyListing faults files).1 =
        .ok n →
      Scannable json modified (migrateLegacyNamedDrafts json uuids dir legacyDir listing
        legacyListing faults files).2 dir (some legacyDir)) ∧
    ∀ (legacy : Option D) (names : SaveNames) (fields : ComposeFields)
      (replacement : Option (Path D)) (bytes : Bytes) (faults : SaveOp → Fault),
      (∀ d, legacy = some d → d = legacyDir) →
      json.toVecPretty fields = .ok bytes →
      ensureNamedDraftSaveFits files dir listing (legacy.map fun d => (d, legacyListing))
        replacement bytes.length = .ok () →
      (∀ path, (saveNamedDraftFields json names dir listing
          (legacy.map fun d => (d, legacyListing)) fields replacement faults files).1 = .ok path →
        (Scannable json modified (saveNamedDraftFields json names dir listing
          (legacy.map fun d => (d, legacyListing)) fields replacement faults files).2 dir legacy ↔
          (legacy = some dir → FitsTwiceWith files dir listing
            (savePath names dir fields replacement) bytes))) ∧
      ((legacy = some dir → FitsTwice files (jsonPaths dir listing) ∧
          FitsTwiceWith files dir listing (savePath names dir fields replacement) bytes) →
        Scannable json modified (saveNamedDraftFields json names dir listing
          (legacy.map fun d => (d, legacyListing)) fields replacement faults files).2 dir
          legacy) := by
  constructor
  · intro faults n hok
    exact scannable_after_migration hlisting hlegacy hfresh hok modified
  intro legacy names fields replacement bytes faults hgiven hserialized hfits
  have hfits := fits_of_ok hfits
  obtain ⟨hparent, hjson, -⟩ := savePath_mem files names fields hfits.replaces
  have hmeets : Meets _ _ _ (saveNamedDraftFields json names dir listing
      (legacy.map fun d => (d, legacyListing)) fields replacement faults files) :=
    meets_saveNamedDraftFields hserialized hjson
  have hbegun : WriteBegun files (saveNamedDraftFields json names dir listing
      (legacy.map fun d => (d, legacyListing)) fields replacement faults files).2 _ _ bytes :=
    writeBegun_saveNamedDraftFields hserialized hjson
  have htemporary : (saveTemporary names
      (savePath names dir fields replacement)).fileName.isJson = false := isJson_temporaryName _ _
  by_cases hsame : legacy = some dir
  · -- the current directory again, which the check has counted once
    subst hsame
    constructor
    · intro path hok
      rw [hmeets.of_ok hok, scannable_twice_iff (hlisting.renamed hparent bytes)]
      exact ⟨fun h _ => h, fun h => h rfl⟩
    · intro htwice
      exact hbegun.scannable htemporary hparent hlisting (htwice rfl).1 (htwice rfl).2
  · have hapart : ∀ d, legacy = some d → d ≠ dir := by
      rintro d hd rfl
      exact hsame hd
    have hscannable : Scannable json modified (saveNamedDraftFields json names dir listing
        (legacy.map fun d => (d, legacyListing)) fields replacement faults files).2 dir
        legacy := by
      have hothers : ∀ l, legacy.map (fun d => (d, legacyListing)) = some l → l.1 ≠ dir := by
        intro l hl
        obtain ⟨d, hd, rfl⟩ := Option.map_eq_some_iff.1 hl
        exact hapart d hd
      rw [filter_legacy hothers] at hfits
      refine scannable_after_save hlisting (fun d hd => ⟨hapart d hd, ?_⟩) hfits
        (hbegun.savedOrKept htemporary) modified
      rw [hgiven d hd]
      exact hlegacy
    exact ⟨fun _ _ => iff_of_true hscannable fun h => absurd h hsame, fun _ => hscannable⟩

/-- A draft that is migrated, one that is saved beside it by a process that stops in the write, and
one that is saved in a directory that is listed twice. -/
theorem scannable_sample :
    Scannable sampleJson (fun _ => none) (migrateLegacyNamedDrafts sampleJson
      (longUuids [sampleName]) true false [] [sampleName] (fun _ => .passes) (sampleFiles false)).2
      true (some false) ∧
    Scannable sampleJson (fun _ => none) (saveNamedDraftFields sampleJson
      ⟨"1".toList, "2".toList, "3".toList⟩ true [] (some (false, [sampleName])) sampleFields none
      (fun label => if label = .write .rename then .stops 0 else .passes) (sampleFiles false)).2
      true (some false) ∧
    Scannable sampleJson (fun _ => none) (saveNamedDraftFields sampleJson
      ⟨"1".toList, "2".toList, "3".toList⟩ true [sampleName] (some (true, [sampleName]))
      sampleFields none (fun _ => .passes) (sampleFiles true)).2 true (some true) := by
  have hlisting : Lists (sampleFiles false) true [] := lists_other (by decide)
  have hok : (migrateLegacyNamedDrafts sampleJson (longUuids [sampleName]) true false []
      [sampleName] (fun _ => .passes) (sampleFiles false)).1 = .ok 1 := by decide +kernel
  have hfits : (ensureNamedDraftSaveFits (sampleFiles false) true []
      (some (false, [sampleName])) none sampleText.length).isOk = true := by decide +kernel
  obtain ⟨_, hfits⟩ := exists_eq_ok hfits
  have hboth := scannable_after_migration_and_save_iff sampleJson (fun _ => none) hlisting
    (lists_sampleFiles false) (freshUuids_longUuids [sampleName])
  have hagain : (ensureNamedDraftSaveFits (sampleFiles true) true [sampleName]
      (some (true, [sampleName])) none sampleText.length).isOk = true := by decide +kernel
  obtain ⟨_, hagain⟩ := exists_eq_ok hagain
  have honce := scannable_after_migration_and_save_iff sampleJson (fun _ => none)
    (lists_sampleFiles true) (lists_sampleFiles true) (freshUuids_longUuids [sampleName])
  refine ⟨hboth.1 _ 1 hok, (hboth.2 (some false) _ _ none sampleText _ ?_ rfl hfits).2 ?_,
    ((honce.2 (some true) _ _ none sampleText _ ?_ rfl hagain).1 _ rfl).2 fun _ => ?_⟩
  · exact fun d hd => (Option.some.inj hd).symm
  · exact fun h => absurd (Option.some.inj h) (by decide)
  · exact fun d hd => (Option.some.inj hd).symm
  · exact ⟨by decide +kernel, by decide +kernel⟩

/-! ## A store that a save makes unreadable -/

/-- One of 128 names of drafts. -/
def crowdedName (i : Nat) : OsString :=
  OsUnit.char (Char.ofNat (256 + i)) :: OsString.ofStr ".json".toList

def crowdedListing : List OsString := (List.range 128).map crowdedName

/-- The directory `true`, with a draft of one byte under each of the names. -/
def crowdedFiles : FileStore Bool := fun path =>
  match path.parent, path.fileName with
  | true, OsUnit.char c :: rest =>
    if rest = OsString.ofStr ".json".toList ∧ 256 ≤ c.toNat ∧ c.toNat < 384 then
      some { bytes := [0x30] }
    else none
  | _, _ => none

theorem toNat_crowded {i : Nat} (h : i < 128) : (Char.ofNat (256 + i)).toNat = 256 + i := by
  rw [Char.toNat_ofNat, if_pos (Or.inl (by omega))]

theorem lists_crowdedFiles : Lists crowdedFiles true crowdedListing where
  nodup := by
    refine List.Nodup.map_on (fun i hi j hj hsame => ?_) List.nodup_range
    have hchar : Char.ofNat (256 + i) = Char.ofNat (256 + j) :=
      OsUnit.char.inj (List.cons.inj hsame).1
    have hcode := congrArg Char.toNat hchar
    rw [toNat_crowded (List.mem_range.1 hi), toNat_crowded (List.mem_range.1 hj)] at hcode
    omega
  complete name := by
    constructor
    · intro hmem
      obtain ⟨i, hi, rfl⟩ := List.mem_map.1 hmem
      have hcode := toNat_crowded (List.mem_range.1 hi)
      have hbound := List.mem_range.1 hi
      show (if _ then some _ else none : Option DraftFile).isSome = true
      rw [if_pos ⟨rfl, by omega, by omega⟩]
      rfl
    · intro hsome
      unfold crowdedFiles at hsome
      dsimp only at hsome
      split at hsome
      · rename_i c rest _
        split at hsome
        · rename_i hname
          obtain ⟨rfl, hlow, hhigh⟩ := hname
          refine List.mem_map.2 ⟨c.toNat - 256, List.mem_range.2 (by omega), ?_⟩
          unfold crowdedName
          rw [Nat.add_sub_cancel' hlow, Char.ofNat_toNat]
        · cases hsome
      · cases hsome

/-- **A directory that is listed twice.** It holds 128 drafts of a byte each. The check before a
save counts 129 with the new one and lets it through; the scan after it lists 258 and fails. -/
theorem one_directory_saved_unscannable : ¬ ∀ (files : FileStore Bool) (dir legacyDir : Bool)
    (listing legacyListing : List OsString) (names : SaveNames) (fields : ComposeFields)
    (bytes : Bytes), Lists files dir listing → Lists files legacyDir legacyListing →
    sampleJson.toVecPretty fields = .ok bytes →
    ensureNamedDraftSaveFits files dir listing (some (legacyDir, legacyListing)) none
      bytes.length = .ok () →
    ∀ path, (saveNamedDraftFields sampleJson names dir listing (some (legacyDir, legacyListing))
      fields none (fun _ => .passes) files).1 = .ok path →
    Scannable sampleJson (fun _ => none) (saveNamedDraftFields sampleJson names dir listing
      (some (legacyDir, legacyListing)) fields none (fun _ => .passes) files).2 dir
      (some legacyDir) := by
  intro hall
  have hfits : (ensureNamedDraftSaveFits crowdedFiles true crowdedListing
      (some (true, crowdedListing)) none sampleText.length).isOk = true := by decide +kernel
  obtain ⟨_, hfits⟩ := exists_eq_ok hfits
  have hsaved : (saveNamedDraftFields sampleJson ⟨"1".toList, "2".toList, "3".toList⟩ true
      crowdedListing (some (true, crowdedListing)) sampleFields none (fun _ => .passes)
      crowdedFiles).1 = .ok ⟨true, newDraftName "1".toList "a".toList "2".toList⟩ := by
    decide +kernel
  have hscannable := hall crowdedFiles true true crowdedListing crowdedListing
    ⟨"1".toList, "2".toList, "3".toList⟩ sampleFields sampleText lists_crowdedFiles
    lists_crowdedFiles rfl hfits _ hsaved
  have hjson : (savePath ⟨"1".toList, "2".toList, "3".toList⟩ true sampleFields
      none).fileName.isJson = true := isJson_newDraftName _ _ _
  have hafter : (saveNamedDraftFields sampleJson ⟨"1".toList, "2".toList, "3".toList⟩ true
      crowdedListing (some (true, crowdedListing)) sampleFields none (fun _ => .passes)
      crowdedFiles).2 = renamed crowdedFiles (savePath ⟨"1".toList, "2".toList, "3".toList⟩ true
        sampleFields none) sampleText :=
    (meets_saveNamedDraftFields rfl hjson).of_ok hsaved
  rw [hafter, scannable_twice_iff (lists_crowdedFiles.renamed rfl sampleText)] at hscannable
  have hcount : (jsonPaths true (crowdedListing.insert (savePath ⟨"1".toList, "2".toList,
      "3".toList⟩ true sampleFields none).fileName)).length = 129 := by decide +kernel
  have htwice := hscannable.count
  rw [hcount] at htwice
  exact absurd htwice (by decide)

end Notm.Ui
