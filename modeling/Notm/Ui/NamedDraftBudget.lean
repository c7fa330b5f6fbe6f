import Notm.Ui.NamedDrafts

/-!
# The account of the named drafts

What each of the listing, reading and charging functions returns in terms of the store: an entry
costs the bytes that are read of it. The migration's loop is a pure fold once its total fits.

Main results:

* `readCurrent_eq_ok`: the current drafts are read when each is within its bound and all are within
  the store's.
* `foldlM_preflightSource_eq_ok`: the loop over the legacy drafts, as the pure fold.
* `planMigration_eq_ok`: a migration is planned exactly when the two stores together fit
  (`Accepts`).
* `planned_preflightOf`: what the plan has found: a destination of its own for each draft that is
  copied, and the account of those that stay.
-/

namespace Notm.Ui

open Rust Crash LegacyMigrationError

variable {D : Type} [DecidableEq D] {files : FileStore D} {path : Path D} {dir : D}

/-! ## The quantities of a store -/

/-- The entries of a directory that are named drafts. -/
def jsonPaths (dir : D) (listing : List OsString) : List (Path D) :=
  (listing.filter OsString.isJson).map (Path.mk dir)

/-- The bytes that are read of an entry. -/
def readLength (files : FileStore D) (path : Path D) : Nat :=
  match files path with
  | none => 0
  | some file => if file.readable then min file.bytes.length (maxNamedDraftBytes + 1) else 0

/-- What a list of entries costs. -/
def readTotal (files : FileStore D) (paths : List (Path D)) : Nat :=
  (paths.map (readLength files)).sum

/-- The entry can be read and is within its own limit. -/
def InBounds (files : FileStore D) (path : Path D) : Prop :=
  ∃ file, files path = some file ∧ file.readable = true ∧
    file.bytes.length ≤ maxNamedDraftBytes

/-- The bytes at a path. -/
def contentOf (files : FileStore D) (path : Path D) : Bytes :=
  match files path with
  | none => []
  | some file => file.bytes

/-- The bytes of a draft that the migration can take. -/
def validBytes (json : Json) (files : FileStore D) (path : Path D) : Option Bytes :=
  match files path with
  | none => none
  | some file =>
    if file.readable = true ∧ file.bytes.length ≤ maxNamedDraftBytes ∧
        (json.fromSlice file.bytes).isOk = true then some file.bytes
    else none

/-! ## Listing -/

omit [DecidableEq D] in
theorem jsonEntriesFrom_eq_ok {listing : List OsString} {before paths : List (Path D)} :
    jsonEntriesFrom dir listing before = .ok paths ↔
      paths = before ++ jsonPaths dir listing ∧
        (jsonPaths dir listing = [] ∨ paths.length ≤ maxNamedDrafts) := by
  induction listing generalizing before with
  | nil =>
    show Except.ok before = .ok paths ↔ paths = before ++ [] ∧ ([] = [] ∨ _)
    simp [eq_comm]
  | cons name rest ih =>
    unfold jsonEntriesFrom
    by_cases hjson : name.isJson = true
    · have hpaths : jsonPaths dir (name :: rest) = ⟨dir, name⟩ :: jsonPaths dir rest := by
        unfold jsonPaths
        rw [List.filter_cons_of_pos hjson, List.map_cons]
      rw [if_pos hjson, hpaths]
      split
      · rename_i hlimit
        refine iff_of_false (fun h => nomatch h) ?_
        rintro ⟨rfl, hempty | hlength⟩
        · cases hempty
        · rw [List.length_append, List.length_cons] at hlength
          omega
      · rename_i hlimit
        rw [ih, List.append_assoc]
        refine and_congr_right fun hsame => ?_
        refine ⟨fun h => Or.inr ?_, fun h => Or.inr (h.resolve_left (by simp))⟩
        rcases h with hempty | hlength
        · rw [hsame, hempty, List.length_append]
          simp only [List.singleton_append, List.length_singleton]
          omega
        · exact hlength
    · have hpaths : jsonPaths dir (name :: rest) = jsonPaths dir rest := by
        unfold jsonPaths
        rw [List.filter_cons_of_neg hjson]
      rw [if_neg hjson, hpaths, ih]

omit [DecidableEq D] in
/-- The listing succeeds when the entries are not too many. -/
theorem jsonEntries_eq_ok {listing : List OsString} {paths : List (Path D)} :
    jsonEntries dir listing = .ok paths ↔
      paths = jsonPaths dir listing ∧ (jsonPaths dir listing).length ≤ maxNamedDrafts := by
  unfold jsonEntries
  rw [jsonEntriesFrom_eq_ok, List.nil_append]
  refine and_congr_right ?_
  rintro rfl
  refine ⟨fun h => ?_, Or.inr⟩
  rcases h with hempty | hlength
  · rw [hempty]
    exact Nat.zero_le _
  · exact hlength

omit [DecidableEq D] in
theorem mem_jsonPaths {listing : List OsString} :
    path ∈ jsonPaths dir listing ↔
      path.parent = dir ∧ path.fileName.isJson = true ∧ path.fileName ∈ listing := by
  unfold jsonPaths
  rw [List.mem_map]
  constructor
  · rintro ⟨name, hname, rfl⟩
    obtain ⟨hmem, hjson⟩ := List.mem_filter.1 hname
    exact ⟨rfl, hjson, hmem⟩
  · rintro ⟨rfl, hjson, hmem⟩
    exact ⟨path.fileName, List.mem_filter.2 ⟨hmem, hjson⟩, rfl⟩

omit [DecidableEq D] in
theorem nodup_jsonPaths {listing : List OsString} (h : listing.Nodup) :
    (jsonPaths dir listing).Nodup := by
  apply (h.filter _).map
  intro a b hsame
  exact congrArg Path.fileName hsame

/-! ## Reading and charging -/

omit [DecidableEq D] in
theorem ensure_eq_ok {condition : Prop} [Decidable condition] {e : DraftIoError D} {u : Unit} :
    ensure condition e = .ok u ↔ condition := by
  unfold ensure
  split
  · exact iff_of_true rfl ‹_›
  · exact iff_of_false (fun h => nomatch h) ‹_›

omit [DecidableEq D] in
theorem checkedAdd_of_le {what : String} {a b : Nat} (h : a + b ≤ maxNamedDraftTotalBytes) :
    (checkedAdd what a b : Except (DraftIoError D) Nat) = .ok (a + b) := by
  have hmax : maxNamedDraftTotalBytes ≤ u64Max := by decide
  exact if_pos (h.trans hmax)

omit [DecidableEq D] in
theorem checkedAdd_eq_ok {what : String} {a b c : Nat}
    (h : (checkedAdd what a b : Except (DraftIoError D) Nat) = .ok c) : c = a + b := by
  unfold checkedAdd at h
  split at h
  · exact (Except.ok.inj h).symm
  · cases h

omit [DecidableEq D] in
theorem chargeNamedDraftBytes_eq_ok {total bytes total' : Nat} :
    (chargeNamedDraftBytes total bytes : Except (DraftIoError D) Nat) = .ok total' ↔
      total' = total + bytes ∧ total + bytes ≤ maxNamedDraftTotalBytes := by
  unfold chargeNamedDraftBytes
  rw [bind_eq_ok]
  constructor
  · rintro ⟨sum, hsum, hcharged⟩
    obtain rfl := checkedAdd_eq_ok hsum
    split at hcharged
    · exact ⟨(Except.ok.inj hcharged).symm, ‹_›⟩
    · cases hcharged
  · rintro ⟨rfl, hlimit⟩
    exact ⟨total + bytes, checkedAdd_of_le hlimit, if_pos hlimit⟩

omit [DecidableEq D] in
/-- What is read of a file. -/
theorem readNamedDraft_eq_ok {bytes : Bytes} :
    readNamedDraft files path = .ok bytes ↔ ∃ file, files path = some file ∧
      file.readable = true ∧ bytes = file.bytes.take (maxNamedDraftBytes + 1) := by
  unfold readNamedDraft
  constructor
  · intro h
    cases hfile : files path with
    | none =>
      rw [hfile] at h
      cases h
    | some file =>
      rw [hfile] at h
      simp only at h
      split at h
      · exact ⟨file, rfl, ‹_›, (Except.ok.inj h).symm⟩
      · cases h
  · rintro ⟨file, hfile, hreadable, rfl⟩
    rw [hfile]
    exact if_pos hreadable

omit [DecidableEq D] in
theorem length_of_readNamedDraft {bytes : Bytes} (h : readNamedDraft files path = .ok bytes) :
    bytes.length = readLength files path := by
  obtain ⟨file, hfile, hreadable, rfl⟩ := readNamedDraft_eq_ok.1 h
  unfold readLength
  rw [hfile]
  simp only
  rw [if_pos hreadable, List.length_take, Nat.min_comm]

omit [DecidableEq D] in
theorem readLength_of_error {e : DraftIoError D} (h : readNamedDraft files path = .error e) :
    readLength files path = 0 := by
  unfold readNamedDraft at h
  unfold readLength
  cases hfile : files path with
  | none => rfl
  | some file =>
    rw [hfile] at h
    simp only at h ⊢
    split at h
    · cases h
    · rename_i hreadable
      exact if_neg hreadable

omit [DecidableEq D] in
/-- Within the entry limit the whole file is read. -/
theorem content_of_readNamedDraft {bytes : Bytes} (h : readNamedDraft files path = .ok bytes)
    (hlength : bytes.length ≤ maxNamedDraftBytes) :
    InBounds files path ∧ bytes = contentOf files path := by
  obtain ⟨file, hfile, hreadable, rfl⟩ := readNamedDraft_eq_ok.1 h
  rw [List.length_take] at hlength
  have hbytes : file.bytes.length ≤ maxNamedDraftBytes := by omega
  refine ⟨⟨file, hfile, hreadable, hbytes⟩, ?_⟩
  unfold contentOf
  rw [hfile]
  exact List.take_of_length_le (by omega)

omit [DecidableEq D] in
theorem InBounds.read (h : InBounds files path) :
    readNamedDraft files path = .ok (contentOf files path) ∧
      (contentOf files path).length ≤ maxNamedDraftBytes ∧
      readLength files path = (contentOf files path).length := by
  obtain ⟨file, hfile, hreadable, hlength⟩ := h
  have hcontent : contentOf files path = file.bytes := by
    unfold contentOf
    rw [hfile]
  have hread : readNamedDraft files path = .ok (contentOf files path) := by
    refine readNamedDraft_eq_ok.2 ⟨file, hfile, hreadable, ?_⟩
    rw [hcontent, List.take_of_length_le (by omega)]
  rw [hcontent] at hread ⊢
  exact ⟨hread, hlength, (length_of_readNamedDraft hread).symm⟩

/-! ## The migration's reads -/

omit [DecidableEq D] in
/-- A read that does not fail for the store's limit charges what was read. -/
theorem readBoundedForMigration_total {total total' : Nat}
    {result : Except (LegacyMigrationError D) Bytes}
    (h : readBoundedForMigration files path total = (result, total')) :
    (∃ e, result = .error e ∧ e.recoverableEntry = false ∧
      maxNamedDraftTotalBytes < total + readLength files path) ∨
    (total' = total + readLength files path ∧
      (readLength files path = 0 ∨ total' ≤ maxNamedDraftTotalBytes) ∧
      ((∃ bytes, result = .ok bytes ∧ InBounds files path ∧ bytes = contentOf files path) ∨
        ¬ InBounds files path ∧ ∃ e, result = .error e ∧ e.recoverableEntry = true)) := by
  unfold readBoundedForMigration at h
  -- The three checks in the order of the source: the file, the store's total, the draft's own
  -- bound.
  cases hread : readNamedDraft files path with
  | error e =>
    rw [hread] at h
    obtain ⟨rfl, rfl⟩ := Prod.mk.inj h
    have hnone := readLength_of_error hread
    refine Or.inr ⟨by rw [hnone, Nat.add_zero], Or.inl hnone, Or.inr ⟨?_, _, rfl, rfl⟩⟩
    intro hbounds
    rw [hbounds.read.1] at hread
    cases hread
  | ok bytes =>
    rw [hread] at h
    have hlength := length_of_readNamedDraft hread
    simp only at h
    cases hcharge : (chargeNamedDraftBytes total bytes.length : Except (DraftIoError D) Nat) with
    | error e =>
      rw [hcharge] at h
      obtain ⟨rfl, rfl⟩ := Prod.mk.inj h
      refine Or.inl ⟨_, rfl, rfl, ?_⟩
      rw [← hlength]
      by_contra hfits
      rw [chargeNamedDraftBytes_eq_ok.2 ⟨rfl, not_lt.1 hfits⟩] at hcharge
      cases hcharge
    | ok charged =>
      rw [hcharge] at h
      obtain ⟨rfl, hfits⟩ := chargeNamedDraftBytes_eq_ok.1 hcharge
      rw [hlength] at hfits
      simp only at h
      split at h
      · rename_i hlarge
        obtain ⟨rfl, rfl⟩ := Prod.mk.inj h
        refine Or.inr ⟨by rw [hlength], Or.inr (by rwa [hlength]), Or.inr ⟨?_, _, rfl, rfl⟩⟩
        intro hbounds
        rw [hbounds.read.1] at hread
        obtain rfl := Except.ok.inj hread
        exact absurd hbounds.read.2.1 (not_le.2 hlarge)
      · rename_i hsmall
        obtain ⟨rfl, rfl⟩ := Prod.mk.inj h
        obtain ⟨hbounds, hcontent⟩ := content_of_readNamedDraft hread (not_lt.1 hsmall)
        exact Or.inr ⟨by rw [hlength], Or.inr (by rwa [hlength]),
          Or.inl ⟨bytes, rfl, hbounds, hcontent⟩⟩

omit [DecidableEq D] in
theorem readTotal_cons (path : Path D) (paths : List (Path D)) :
    readTotal files (path :: paths) = readLength files path + readTotal files paths := by
  unfold readTotal
  rw [List.map_cons, List.sum_cons]

omit [DecidableEq D] in
theorem readTotal_append (paths paths' : List (Path D)) :
    readTotal files (paths ++ paths') = readTotal files paths + readTotal files paths' := by
  unfold readTotal
  rw [List.map_append, List.sum_append]

omit [DecidableEq D] in
/-- All current drafts are read, or none is migrated. -/
theorem readCurrent_eq_ok {paths : List (Path D)} {total : Nat}
    {current : List (OsString × Bytes) × Nat} (htotal : total ≤ maxNamedDraftTotalBytes) :
    readCurrent files paths total = .ok current ↔
      (∀ p ∈ paths, InBounds files p) ∧ total + readTotal files paths ≤ maxNamedDraftTotalBytes ∧
        current = (paths.map fun p => (p.fileName, contentOf files p),
          total + readTotal files paths) := by
  -- The total so far is carried along, so the induction is for every total within the limit.
  induction paths generalizing total current with
  | nil =>
    show Except.ok ([], total) = .ok current ↔ _
    constructor
    · intro h
      exact ⟨fun p hp => absurd hp List.not_mem_nil, htotal, (Except.ok.inj h).symm⟩
    · rintro ⟨-, -, rfl⟩
      rfl
  | cons p rest ih =>
    unfold readCurrent
    rw [readTotal_cons]
    cases hread : readBoundedForMigration files p total with
    | mk result total' =>
      rcases readBoundedForMigration_total hread with ⟨e, rfl, -, hover⟩ | ⟨rfl, hlimit,
        ⟨bytes, rfl, hbounds, rfl⟩ | ⟨hbounds, e, rfl, -⟩⟩
      · refine iff_of_false (fun h => nomatch h) ?_
        rintro ⟨-, hfits, -⟩
        omega
      · have hlimit' : total + readLength files p ≤ maxNamedDraftTotalBytes := by
          rcases hlimit with hnone | hlimit
          · omega
          · exact hlimit
        simp only
        rw [map_eq_ok]
        constructor
        · rintro ⟨⟨names, sum⟩, hrest, rfl⟩
          obtain ⟨hall, hfits, hsame⟩ := (ih hlimit').1 hrest
          obtain ⟨rfl, rfl⟩ := Prod.mk.inj hsame
          refine ⟨?_, by omega, ?_⟩
          · intro q hq
            rcases List.mem_cons.1 hq with rfl | hq
            · exact hbounds
            · exact hall q hq
          · rw [List.map_cons, Nat.add_assoc]
        · rintro ⟨hall, hfits, rfl⟩
          refine ⟨_, (ih hlimit').2 ⟨fun q hq => hall q (List.mem_cons_of_mem _ hq), by omega,
            rfl⟩, ?_⟩
          simp only [List.map_cons, Nat.add_assoc]
      · refine iff_of_false (fun h => nomatch h) ?_
        rintro ⟨hall, -⟩
        exact hbounds (hall p List.mem_cons_self)

/-- A name is looked up among the entries of its directory. -/
theorem lookup_entries {paths : List (Path D)} (hparent : ∀ p ∈ paths, p.parent = dir)
    (name : OsString) : (paths.map fun p => (p.fileName, contentOf files p)).lookup name =
      if (⟨dir, name⟩ : Path D) ∈ paths then some (contentOf files ⟨dir, name⟩) else none := by
  induction paths with
  | nil => rfl
  | cons p rest ih =>
    have hrest := ih fun q hq => hparent q (List.mem_cons_of_mem _ hq)
    have hp := hparent p List.mem_cons_self
    rw [List.map_cons, List.lookup_cons]
    by_cases hname : name = p.fileName
    · have hpath : (⟨dir, name⟩ : Path D) = p := by rw [hname, ← hp]
      rw [hpath, if_pos List.mem_cons_self, beq_iff_eq.2 hname]
    · have hpath : (⟨dir, name⟩ : Path D) ≠ p := fun hsame => hname (congrArg Path.fileName hsame)
      rw [beq_eq_false_iff_ne.2 hname]
      simp only
      rw [hrest]
      simp only [List.mem_cons, hpath, false_or]

/-! ## The migration's loop -/

/-- The loop body when nothing overflows. -/
def Preflight.next (json : Json) (uuids : MigrationUuids) (files : FileStore D) (dir : D)
    (currentByName : List (OsString × Bytes)) (preflight : Preflight D) (source : Path D) :
    Preflight D :=
  let legacyTotalBytes := preflight.legacyTotalBytes + readLength files source
  match validBytes json files source with
  | none => { preflight with
      legacyTotalBytes := legacyTotalBytes
      preservedLegacyBytes := preflight.preservedLegacyBytes + readLength files source
      preservedLegacyCount := preflight.preservedLegacyCount + 1 }
  | some bytes =>
    match destinationOf uuids dir currentByName preflight.occupiedDestinations source.fileName
      bytes with
    | none => { preflight with
        legacyTotalBytes := legacyTotalBytes
        migrations := preflight.migrations ++ [⟨source, none, bytes⟩] }
    | some destination => { preflight with
        legacyTotalBytes := legacyTotalBytes
        migratedBytes := preflight.migratedBytes + bytes.length
        occupiedDestinations := destination :: preflight.occupiedDestinations
        migrations := preflight.migrations ++ [⟨source, some destination, bytes⟩] }

omit [DecidableEq D] in
theorem validBytes_eq_some {json : Json} {bytes : Bytes} :
    validBytes json files path = some bytes ↔ InBounds files path ∧
      (json.fromSlice (contentOf files path)).isOk = true ∧ bytes = contentOf files path := by
  unfold validBytes contentOf InBounds
  cases hfile : files path with
  | none => simp
  | some file =>
    simp only
    constructor
    · intro h
      split at h
      · rename_i hvalid
        obtain rfl := Option.some.inj h
        exact ⟨⟨file, rfl, hvalid.1, hvalid.2.1⟩, hvalid.2.2, rfl⟩
      · exact absurd h (Option.some_ne_none bytes).symm
    · rintro ⟨⟨file', hsame, hreadable, hlength⟩, hparses, rfl⟩
      obtain rfl := Option.some.inj hsame
      exact if_pos ⟨hreadable, hlength, hparses⟩

namespace Preflight

/-- The sums of the loop fit the machine integers. -/
structure Fits (preflight : Preflight D) (rest : Nat) : Prop where
  total : preflight.legacyTotalBytes ≤ maxNamedDraftTotalBytes
  migrated : preflight.migratedBytes ≤ preflight.legacyTotalBytes
  preserved : preflight.preservedLegacyBytes ≤ preflight.legacyTotalBytes
  count : preflight.preservedLegacyCount + rest ≤ maxNamedDraftTotalBytes

variable {json : Json} {uuids : MigrationUuids} {currentByName : List (OsString × Bytes)}
  {preflight preflight' : Preflight D} {source : Path D} {rest : Nat}

omit [DecidableEq D] in
theorem preserve_of_le {bytes : Nat}
    (hbytes : preflight.preservedLegacyBytes + bytes ≤ maxNamedDraftTotalBytes)
    (hcount : preflight.preservedLegacyCount + 1 ≤ maxNamedDraftTotalBytes) :
    preflight.preserve bytes = .ok { preflight with
      preservedLegacyBytes := preflight.preservedLegacyBytes + bytes
      preservedLegacyCount := preflight.preservedLegacyCount + 1 } := by
  unfold preserve
  rw [checkedAdd_of_le hbytes, checkedAdd_of_le hcount]
  rfl

/-- The loop body goes on exactly while the legacy total fits. -/
theorem preflightSource_eq_ok (hfits : preflight.Fits (rest + 1)) :
    preflightSource json uuids files dir currentByName preflight source = .ok preflight' ↔
      preflight.legacyTotalBytes + readLength files source ≤ maxNamedDraftTotalBytes ∧
        preflight' = preflight.next json uuids files dir currentByName source := by
  have hmigrated := hfits.migrated
  have hpreserved := hfits.preserved
  have hcount := hfits.count
  have htotal := hfits.total
  unfold preflightSource
  cases hread : readBoundedForMigration files source preflight.legacyTotalBytes with
  | mk result total =>
    -- The read fails for the limit of the store, or it has read the entry, or it leaves the entry
    -- as one that is preserved.
    rcases readBoundedForMigration_total hread with ⟨e, rfl, hfatal, hover⟩ | ⟨rfl, hlimit,
      ⟨bytes, rfl, hbounds, rfl⟩ | ⟨hbounds, e, rfl, hrecoverable⟩⟩
    · simp only
      rw [hfatal]
      refine iff_of_false (fun h => nomatch h) ?_
      rintro ⟨hfits', -⟩
      omega
    · have hlimit' : preflight.legacyTotalBytes + readLength files source ≤
          maxNamedDraftTotalBytes := by
        rcases hlimit with hnone | hlimit
        · omega
        · exact hlimit
      have hlength := hbounds.read.2.2
      simp only
      rw [and_iff_right hlimit']
      unfold next
      -- A draft that does not parse is preserved as well.
      cases hparse : json.fromSlice (contentOf files source) with
      | error e =>
        have hinvalid : validBytes json files source = none := by
          rw [Option.eq_none_iff_forall_ne_some]
          intro bytes hbytes
          have hparses := (validBytes_eq_some.1 hbytes).2.1
          rw [hparse] at hparses
          cases hparses
        simp only
        rw [hinvalid, preserve_of_le (by simp only; omega) (by simp only; omega), ← hlength]
        exact ⟨fun h => (Except.ok.inj h).symm, fun h => congrArg Except.ok h.symm⟩
      | ok fields =>
        have hvalid : validBytes json files source = some (contentOf files source) :=
          validBytes_eq_some.2 ⟨hbounds, by rw [hparse]; rfl, rfl⟩
        simp only
        rw [hvalid]
        simp only
        cases destinationOf uuids dir currentByName preflight.occupiedDestinations
            source.fileName (contentOf files source) with
        | none => exact ⟨fun h => (Except.ok.inj h).symm, fun h => congrArg Except.ok h.symm⟩
        | some destination =>
          unfold migrate
          rw [checkedAdd_of_le (by simp only; omega)]
          exact ⟨fun h => (Except.ok.inj h).symm, fun h => congrArg Except.ok h.symm⟩
    · have hlimit' : preflight.legacyTotalBytes + readLength files source ≤
          maxNamedDraftTotalBytes := by
        rcases hlimit with hnone | hlimit
        · omega
        · exact hlimit
      have hinvalid : validBytes json files source = none := by
        rw [Option.eq_none_iff_forall_ne_some]
        exact fun bytes hbytes => hbounds (validBytes_eq_some.1 hbytes).1
      simp only
      rw [and_iff_right hlimit', hrecoverable, if_pos rfl, Nat.add_sub_cancel_left,
        preserve_of_le (by simp only; omega) (by simp only; omega)]
      unfold next
      rw [hinvalid]
      exact ⟨fun h => (Except.ok.inj h).symm, fun h => congrArg Except.ok h.symm⟩

variable (json uuids dir currentByName) in
theorem Fits.next (hfits : preflight.Fits (rest + 1))
    (hlimit : preflight.legacyTotalBytes + readLength files source ≤ maxNamedDraftTotalBytes) :
    (preflight.next json uuids files dir currentByName source).Fits rest ∧
      (preflight.next json uuids files dir currentByName source).legacyTotalBytes =
        preflight.legacyTotalBytes + readLength files source := by
  have hmigrated := hfits.migrated
  have hpreserved := hfits.preserved
  have hcount := hfits.count
  unfold Preflight.next
  cases hvalid : validBytes json files source with
  | none => exact ⟨⟨hlimit, by simp only; omega, by simp only; omega, by simp only; omega⟩, rfl⟩
  | some bytes =>
    obtain ⟨hbounds, -, rfl⟩ := validBytes_eq_some.1 hvalid
    have hlength := hbounds.read.2.2
    simp only
    split
    · exact ⟨⟨hlimit, by simp only; omega, by simp only; omega, by simp only; omega⟩, rfl⟩
    · exact ⟨⟨hlimit, by simp only; omega, by simp only; omega, by simp only; omega⟩, rfl⟩

/-- The loop is a fold, once the legacy total fits. -/
theorem foldlM_preflightSource_eq_ok {sources : List (Path D)}
    (hfits : preflight.Fits sources.length) :
    sources.foldlM (preflightSource json uuids files dir currentByName) preflight =
        .ok preflight' ↔
      preflight.legacyTotalBytes + readTotal files sources ≤ maxNamedDraftTotalBytes ∧
        preflight' = sources.foldl (Preflight.next json uuids files dir currentByName)
          preflight := by
  induction sources generalizing preflight with
  | nil =>
    show Except.ok preflight = .ok preflight' ↔ preflight.legacyTotalBytes + 0 ≤ _ ∧ _
    rw [Nat.add_zero, and_iff_right hfits.total]
    exact ⟨fun h => (Except.ok.inj h).symm, fun h => congrArg Except.ok h.symm⟩
  | cons source sources ih =>
    rw [List.foldlM_cons, bind_eq_ok, readTotal_cons, List.foldl_cons]
    constructor
    · rintro ⟨between, hbetween, hrest⟩
      obtain ⟨hlimit, rfl⟩ := (preflightSource_eq_ok hfits).1 hbetween
      obtain ⟨hnext, htotal⟩ := hfits.next dir json uuids currentByName hlimit
      obtain ⟨hfits', rfl⟩ := (ih hnext).1 hrest
      rw [htotal] at hfits'
      exact ⟨by omega, rfl⟩
    · rintro ⟨hfits', rfl⟩
      have hlimit : preflight.legacyTotalBytes + readLength files source ≤
          maxNamedDraftTotalBytes := by omega
      obtain ⟨hnext, htotal⟩ := hfits.next dir json uuids currentByName hlimit
      refine ⟨_, (preflightSource_eq_ok hfits).2 ⟨hlimit, rfl⟩, (ih hnext).2 ⟨?_, rfl⟩⟩
      rw [htotal]
      omega

end Preflight

/-! ## The plan -/

omit [DecidableEq D] in
/-- Two checked additions and the limit they are for. -/
theorem checkProjected_eq_ok {what : String} {a b c limit : Nat} {e : Nat → DraftIoError D}
    {u : Unit} (hlimit : limit ≤ maxNamedDraftTotalBytes) :
    (do
      let sum ← (checkedAdd what a b).mapError fatal
      let sum ← (checkedAdd what sum c).mapError fatal
      (ensure (sum ≤ limit) (e sum)).mapError fatal) = .ok u ↔ a + b + c ≤ limit := by
  rw [bind_eq_ok]
  constructor
  · rintro ⟨sum, hsum, hrest⟩
    obtain rfl := checkedAdd_eq_ok (mapError_eq_ok.1 hsum)
    obtain ⟨sum', hsum', hensure⟩ := bind_eq_ok.1 hrest
    obtain rfl := checkedAdd_eq_ok (mapError_eq_ok.1 hsum')
    exact ensure_eq_ok.1 (mapError_eq_ok.1 hensure)
  · intro hfits
    have hfirst : (checkedAdd what a b : Except (DraftIoError D) Nat) = .ok (a + b) :=
      checkedAdd_of_le (by omega)
    have hsecond : (checkedAdd what (a + b) c : Except (DraftIoError D) Nat) =
        .ok (a + b + c) := checkedAdd_of_le (by omega)
    exact ⟨_, mapError_eq_ok.2 hfirst, bind_eq_ok.2 ⟨_, mapError_eq_ok.2 hsecond,
      mapError_eq_ok.2 (ensure_eq_ok.2 hfits)⟩⟩

omit [DecidableEq D] in
theorem checkProjectedCount_eq_ok {current migrated preserved : Nat} {u : Unit} :
    (checkProjectedCount current migrated preserved : Except (LegacyMigrationError D) Unit) =
      .ok u ↔ current + migrated + preserved ≤ maxNamedDrafts :=
  checkProjected_eq_ok (by decide)

omit [DecidableEq D] in
theorem checkProjectedBytes_eq_ok {current migrated preserved : Nat} {u : Unit} :
    (checkProjectedBytes current migrated preserved : Except (LegacyMigrationError D) Unit) =
      .ok u ↔ current + migrated + preserved ≤ maxNamedDraftTotalBytes :=
  checkProjected_eq_ok (Nat.le_refl _)

/-- What the loop of a migration has found when it has gone through all legacy entries. -/
def preflightOf (json : Json) (uuids : MigrationUuids) (files : FileStore D) (dir legacyDir : D)
    (listing legacyListing : List OsString) : Preflight D :=
  (jsonPaths legacyDir legacyListing).foldl
    (Preflight.next json uuids files dir
      ((jsonPaths dir listing).map fun p => (p.fileName, contentOf files p)))
    { occupiedDestinations := jsonPaths dir listing }

/-- The stores pass the checks of a migration: both are within their limits, every current draft
can be read, and so is what the migration will leave. -/
structure Accepts (json : Json) (uuids : MigrationUuids) (files : FileStore D) (dir legacyDir : D)
    (listing legacyListing : List OsString) : Prop where
  count : (jsonPaths dir listing).length ≤ maxNamedDrafts
  bounds : ∀ p ∈ jsonPaths dir listing, InBounds files p
  bytes : readTotal files (jsonPaths dir listing) ≤ maxNamedDraftTotalBytes
  legacyCount : (jsonPaths legacyDir legacyListing).length ≤ maxNamedDrafts
  legacyBytes : readTotal files (jsonPaths legacyDir legacyListing) ≤ maxNamedDraftTotalBytes
  projectedCount : (jsonPaths dir listing).length +
    migratedCount (preflightOf json uuids files dir legacyDir listing legacyListing).migrations +
    (preflightOf json uuids files dir legacyDir listing legacyListing).preservedLegacyCount ≤
      maxNamedDrafts
  projectedBytes : readTotal files (jsonPaths dir listing) +
    (preflightOf json uuids files dir legacyDir listing legacyListing).migratedBytes +
    (preflightOf json uuids files dir legacyDir listing legacyListing).preservedLegacyBytes ≤
      maxNamedDraftTotalBytes

theorem planMigration_eq_ok {json : Json} {uuids : MigrationUuids} {legacyDir : D}
    {listing legacyListing : List OsString} {migrations : List (LegacyMigration D)} :
    planMigration json uuids files dir legacyDir listing legacyListing = .ok migrations ↔
      Accepts json uuids files dir legacyDir listing legacyListing ∧ migrations =
        (preflightOf json uuids files dir legacyDir listing legacyListing).migrations := by
  -- The sums start at zero, so the additions of the loop stay within the machine integers.
  have hfits : ∀ n ≤ maxNamedDrafts,
      ({ occupiedDestinations := jsonPaths dir listing } : Preflight D).Fits n := by
    intro n hn
    have hlimit : maxNamedDrafts ≤ maxNamedDraftTotalBytes := by decide
    exact ⟨Nat.zero_le _, Nat.le_refl _, Nat.le_refl _, by simp only; omega⟩
  unfold planMigration
  constructor
  · intro h
    obtain ⟨entries, hentries, h⟩ := bind_eq_ok.1 h
    obtain ⟨rfl, hcount⟩ := jsonEntries_eq_ok.1 (mapError_eq_ok.1 hentries)
    obtain ⟨_, -, h⟩ := bind_eq_ok.1 h
    obtain ⟨current, hcurrent, h⟩ := bind_eq_ok.1 h
    obtain ⟨hbounds, hbytes, rfl⟩ := (readCurrent_eq_ok (Nat.zero_le _)).1 hcurrent
    obtain ⟨legacy, hlegacy, h⟩ := bind_eq_ok.1 h
    obtain ⟨rfl, hlegacyCount⟩ := jsonEntries_eq_ok.1 (mapError_eq_ok.1 hlegacy)
    obtain ⟨_, -, h⟩ := bind_eq_ok.1 h
    obtain ⟨preflight, hpreflight, h⟩ := bind_eq_ok.1 h
    obtain ⟨hlegacyBytes, rfl⟩ :=
      (Preflight.foldlM_preflightSource_eq_ok (hfits _ hlegacyCount)).1 hpreflight
    obtain ⟨_, hprojectedCount, h⟩ := bind_eq_ok.1 h
    obtain ⟨_, hprojectedBytes, h⟩ := bind_eq_ok.1 h
    have hprojectedCount := checkProjectedCount_eq_ok.1 hprojectedCount
    have hprojectedBytes := checkProjectedBytes_eq_ok.1 hprojectedBytes
    rw [List.length_map] at hprojectedCount
    rw [Nat.zero_add] at hlegacyBytes hbytes hprojectedBytes
    exact ⟨⟨hcount, hbounds, hbytes, hlegacyCount, hlegacyBytes, hprojectedCount,
      hprojectedBytes⟩, (Except.ok.inj h).symm⟩
  · rintro ⟨haccepts, rfl⟩
    have hcurrent := (readCurrent_eq_ok (Nat.zero_le _)).2 ⟨haccepts.bounds,
      by rw [Nat.zero_add]; exact haccepts.bytes, rfl⟩
    have hpreflight : (jsonPaths legacyDir legacyListing).foldlM (preflightSource json uuids files
        dir ((jsonPaths dir listing).map fun p => (p.fileName, contentOf files p)))
        { occupiedDestinations := jsonPaths dir listing } =
          .ok (preflightOf json uuids files dir legacyDir listing legacyListing) := by
      apply (Preflight.foldlM_preflightSource_eq_ok (hfits _ haccepts.legacyCount)).2
      refine ⟨?_, rfl⟩
      rw [Nat.zero_add]
      exact haccepts.legacyBytes
    refine bind_eq_ok.2 ⟨_, mapError_eq_ok.2 (jsonEntries_eq_ok.2 ⟨rfl, haccepts.count⟩),
      bind_eq_ok.2 ⟨(), mapError_eq_ok.2 (ensure_eq_ok.2 haccepts.count),
      bind_eq_ok.2 ⟨_, hcurrent, bind_eq_ok.2 ⟨_, mapError_eq_ok.2 (jsonEntries_eq_ok.2
        ⟨rfl, haccepts.legacyCount⟩), bind_eq_ok.2 ⟨(), mapError_eq_ok.2 (ensure_eq_ok.2
        haccepts.legacyCount), bind_eq_ok.2 ⟨_, hpreflight, ?_⟩⟩⟩⟩⟩⟩
    refine bind_eq_ok.2 ⟨(), checkProjectedCount_eq_ok.2 ?_, bind_eq_ok.2 ⟨(),
      checkProjectedBytes_eq_ok.2 ?_, rfl⟩⟩
    · rw [List.length_map]
      exact haccepts.projectedCount
    · rw [Nat.zero_add]
      exact haccepts.projectedBytes

/-! ## What the loop has found -/

/-- No UUID that is drawn makes the name of a legacy file. -/
def FreshUuids (uuids : MigrationUuids) (legacyListing : List OsString) : Prop :=
  ∀ name i, candidateName (uuids.candidate name i) name ∉ legacyListing

/-- The paths that the migrations write. -/
def destinations (migrations : List (LegacyMigration D)) : List (Path D) :=
  migrations.filterMap LegacyMigration.destination

/-- The entries that the migration leaves where they are. -/
def preservedPaths (json : Json) (files : FileStore D) (paths : List (Path D)) : List (Path D) :=
  paths.filter fun path => (validBytes json files path).isNone

/-- The loop has gone through `done`: the valid drafts among them are migrated, each to a free path
of its own or to none where the current store has it already; the others are preserved. -/
structure Planned (json : Json) (uuids : MigrationUuids) (files : FileStore D) (dir : D)
    (entries done : List (Path D)) (preflight : Preflight D) : Prop where
  sources : preflight.migrations.map LegacyMigration.source =
    done.filter fun source => (validBytes json files source).isSome
  valid : ∀ m ∈ preflight.migrations, validBytes json files m.source = some m.bytes
  kept : ∀ m ∈ preflight.migrations, m.destination = none ↔
    (⟨dir, m.source.fileName⟩ : Path D) ∈ entries ∧
      contentOf files ⟨dir, m.source.fileName⟩ = m.bytes
  free : ∀ d ∈ destinations preflight.migrations,
    d.parent = dir ∧ d.fileName.isJson = true ∧ d ∉ entries
  distinct : (destinations preflight.migrations).Nodup
  occupied : ∀ d, d ∈ preflight.occupiedDestinations ↔
    d ∈ entries ∨ d ∈ destinations preflight.migrations
  names : ∀ d ∈ destinations preflight.migrations, (∃ source ∈ done,
    d.fileName = source.fileName) ∨
      ∃ name i, d.fileName = candidateName (uuids.candidate name i) name
  preservedCount : preflight.preservedLegacyCount = (preservedPaths json files done).length
  preservedBytes : preflight.preservedLegacyBytes =
    readTotal files (preservedPaths json files done)
  migratedBytes : preflight.migratedBytes =
    (preflight.migrations.map fun m => if m.destination.isSome then m.bytes.length else 0).sum

section Loop

variable {json : Json} {uuids : MigrationUuids} {entries done : List (Path D)}
  {preflight : Preflight D} {source : Path D}

omit [DecidableEq D] in
theorem isJson_candidateName {uuid : Str} {name : OsString} (h : name.isJson = true) :
    (candidateName uuid name).isJson = true := by
  have hsplit : candidateName uuid name =
      OsString.ofStr ("legacy-".toList ++ (uuid ++ ['-'])) ++
        OsString.ofStr name.toStringLossy := by
    unfold candidateName OsString.ofStr
    simp [List.map_append]
  rw [hsplit]
  exact OsString.isJson_append (OsString.isJson_toStringLossy h)

omit [DecidableEq D] in
theorem planned_initial : Planned json uuids files dir entries []
    { occupiedDestinations := entries } where
  sources := rfl
  valid m hm := absurd hm List.not_mem_nil
  kept m hm := absurd hm List.not_mem_nil
  free d hd := absurd hd List.not_mem_nil
  distinct := List.nodup_nil
  occupied d := by
    show d ∈ entries ↔ d ∈ entries ∨ d ∈ []
    simp
  names d hd := absurd hd List.not_mem_nil
  preservedCount := rfl
  preservedBytes := rfl
  migratedBytes := rfl

/-- What is chosen as a destination. -/
theorem destinationOf_eq_some {occupied : List (Path D)} {bytes : Bytes} {name : OsString}
    {destination : Path D} (hparent : ∀ p ∈ entries, p.parent = dir)
    (h : destinationOf uuids dir (entries.map fun p => (p.fileName, contentOf files p)) occupied
      name bytes = some destination) :
    destination = ⟨dir, name⟩ ∧ destination ∉ entries ∨
      destination ∉ occupied ∧ destination.parent = dir ∧
        ∃ i, destination.fileName = candidateName (uuids.candidate name i) name := by
  unfold destinationOf at h
  rw [lookup_entries hparent] at h
  split at h
  · split at h
    · exact absurd h (Option.some_ne_none destination).symm
    · obtain rfl := Option.some.inj h
      exact Or.inr ⟨Nat.find_spec (exists_free uuids dir occupied name), rfl, _, rfl⟩
  · rename_i hlookup
    obtain rfl := Option.some.inj h
    refine Or.inl ⟨rfl, fun hmem => ?_⟩
    rw [if_pos hmem] at hlookup
    exact absurd hlookup (Option.some_ne_none _)

theorem destinationOf_eq_none {occupied : List (Path D)} {bytes : Bytes} {name : OsString}
    (hparent : ∀ p ∈ entries, p.parent = dir) :
    destinationOf uuids dir (entries.map fun p => (p.fileName, contentOf files p)) occupied name
      bytes = none ↔
        (⟨dir, name⟩ : Path D) ∈ entries ∧ contentOf files ⟨dir, name⟩ = bytes := by
  unfold destinationOf
  rw [lookup_entries hparent]
  by_cases hmem : (⟨dir, name⟩ : Path D) ∈ entries
  · rw [if_pos hmem, and_iff_right hmem]
    simp only
    split
    · exact iff_of_true rfl ‹_›
    · exact iff_of_false (Option.some_ne_none _) ‹_›
  · rw [if_neg hmem]
    exact iff_of_false (Option.some_ne_none _) fun h => hmem h.1

/-- An entry that stays changes the counts alone. -/
theorem Planned.preserve (h : Planned json uuids files dir entries done preflight)
    (hinvalid : validBytes json files source = none) (currentByName : List (OsString × Bytes)) :
    Planned json uuids files dir entries (done ++ [source])
      (preflight.next json uuids files dir currentByName source) := by
  have hmore : preservedPaths json files (done ++ [source]) =
      preservedPaths json files done ++ [source] := by
    unfold preservedPaths
    rw [List.filter_append, List.filter_cons_of_pos (by rw [hinvalid]; rfl), List.filter_nil]
  unfold Preflight.next
  rw [hinvalid]
  simp only
  refine ⟨?_, h.valid, h.kept, h.free, h.distinct, h.occupied, ?_, ?_, ?_, h.migratedBytes⟩
  · rw [List.filter_append, h.sources, List.filter_cons_of_neg (by rw [hinvalid]; simp),
      List.filter_nil, List.append_nil]
  · intro d hd
    rcases h.names d hd with ⟨s, hs, hname⟩ | hcandidate
    · exact Or.inl ⟨s, List.mem_append_left _ hs, hname⟩
    · exact Or.inr hcandidate
  · rw [hmore, List.length_append, h.preservedCount]
    rfl
  · rw [hmore, readTotal_append, h.preservedBytes]
    rfl

/-- What a destination is like that is chosen for a draft after some migrations: none where the
current store has the draft already, else a free path that no migration has, under the name of the
draft or one made of a UUID. -/
structure Chosen (uuids : MigrationUuids) (files : FileStore D) (dir : D) (entries : List (Path D))
    (migrations : List (LegacyMigration D)) (source : Path D) (bytes : Bytes)
    (destination : Option (Path D)) : Prop where
  kept : destination = none ↔
    (⟨dir, source.fileName⟩ : Path D) ∈ entries ∧ contentOf files ⟨dir, source.fileName⟩ = bytes
  free : ∀ d ∈ destination, d.parent = dir ∧ d.fileName.isJson = true ∧ d ∉ entries
  distinct : ∀ d ∈ destination, d ∉ destinations migrations
  names : ∀ d ∈ destination, d.fileName = source.fileName ∨
    ∃ name i, d.fileName = candidateName (uuids.candidate name i) name

/-- The choice of the code after the drafts that it has gone through. -/
theorem Planned.chosen (h : Planned json uuids files dir entries done preflight) (bytes : Bytes)
    (hparent : ∀ p ∈ entries, p.parent = dir) (hjson : source.fileName.isJson = true)
    (hnew : ∀ s ∈ done, s.fileName ≠ source.fileName)
    (hfresh : ∀ name i, candidateName (uuids.candidate name i) name ≠ source.fileName) :
    Chosen uuids files dir entries preflight.migrations source bytes
      (destinationOf uuids dir (entries.map fun p => (p.fileName, contentOf files p))
        preflight.occupiedDestinations source.fileName bytes) where
  kept := destinationOf_eq_none hparent
  free d hd := by
    rcases destinationOf_eq_some hparent hd with ⟨rfl, hnot⟩ | ⟨hfree, hdir, i, hname⟩
    · exact ⟨rfl, hjson, hnot⟩
    · refine ⟨hdir, ?_, fun hmem => hfree ((h.occupied d).2 (Or.inl hmem))⟩
      rw [hname]
      exact isJson_candidateName hjson
  distinct d hd hmem := by
    rcases destinationOf_eq_some hparent hd with ⟨rfl, -⟩ | ⟨hfree, -⟩
    · -- a name of its own is that of no earlier source and of no UUID
      rcases h.names _ hmem with ⟨s, hs, hname⟩ | ⟨name, i, hname⟩
      · exact hnew s hs hname.symm
      · exact hfresh name i hname.symm
    · exact hfree ((h.occupied d).2 (Or.inr hmem))
  names d hd := by
    rcases destinationOf_eq_some hparent hd with ⟨rfl, -⟩ | ⟨-, -, i, hname⟩
    · exact Or.inl rfl
    · exact Or.inr ⟨_, i, hname⟩

omit [DecidableEq D] in
theorem destinations_concat (migrations : List (LegacyMigration D))
    (migration : LegacyMigration D) :
    destinations (migrations ++ [migration]) =
      destinations migrations ++ migration.destination.toList := by
  unfold destinations
  rw [List.filterMap_append]
  cases hdestination : migration.destination <;> simp [hdestination]

omit [DecidableEq D] in
/-- A valid draft joins the others, with a destination that may be chosen for it. What the plan
counts of the preserved entries stays, and only a draft that is copied adds to the bytes. -/
theorem Planned.concat (h : Planned json uuids files dir entries done preflight)
    {bytes : Bytes} (hvalid : validBytes json files source = some bytes)
    {destination : Option (Path D)} {next : Preflight D}
    (hchosen : Chosen uuids files dir entries preflight.migrations source bytes destination)
    (hmigrations : next.migrations = preflight.migrations ++ [⟨source, destination, bytes⟩])
    (hoccupied : ∀ d, d ∈ next.occupiedDestinations ↔
      d ∈ destination ∨ d ∈ preflight.occupiedDestinations)
    (hmigrated : next.migratedBytes =
      preflight.migratedBytes + if destination.isSome then bytes.length else 0)
    (hcount : next.preservedLegacyCount = preflight.preservedLegacyCount)
    (hbytes : next.preservedLegacyBytes = preflight.preservedLegacyBytes) :
    Planned json uuids files dir entries (done ++ [source]) next := by
  have hdestinations : destinations next.migrations =
      destinations preflight.migrations ++ destination.toList :=
    (congrArg destinations hmigrations).trans (destinations_concat _ _)
  have hmem : ∀ d, d ∈ destinations next.migrations ↔
      d ∈ destinations preflight.migrations ∨ d ∈ destination := by
    intro d
    rw [hdestinations, List.mem_append, Option.mem_toList, Option.mem_def]
  -- A draft that is migrated is none of the preserved entries.
  have hpreserved : preservedPaths json files (done ++ [source]) =
      preservedPaths json files done := by
    unfold preservedPaths
    rw [List.filter_append, List.filter_cons_of_neg (by rw [hvalid]; simp), List.filter_nil,
      List.append_nil]
  -- One goal for each field of the plan, in the order of the structure.
  refine ⟨?_, fun m hm => ?_, fun m hm => ?_, fun d hd => ?_, ?_, fun d => ?_, fun d hd => ?_,
    ?_, ?_, ?_⟩
  · rw [hmigrations, List.map_append, List.filter_append, h.sources,
      List.filter_cons_of_pos (by rw [hvalid]; rfl), List.filter_nil]
    rfl
  · rw [hmigrations] at hm
    rcases List.mem_append.1 hm with hm | hm
    · exact h.valid m hm
    · obtain rfl := List.mem_singleton.1 hm
      exact hvalid
  · rw [hmigrations] at hm
    rcases List.mem_append.1 hm with hm | hm
    · exact h.kept m hm
    · obtain rfl := List.mem_singleton.1 hm
      exact hchosen.kept
  · exact ((hmem d).1 hd).elim (h.free d) (hchosen.free d)
  · rw [hdestinations]
    refine h.distinct.append ?_ fun d hold hnew =>
      hchosen.distinct d (Option.mem_toList.1 hnew) hold
    cases destination <;> simp
  · rw [hoccupied, h.occupied, hmem]
    tauto
  · rcases (hmem d).1 hd with hold | hnew
    · exact (h.names d hold).imp_left fun ⟨s, hs, hname⟩ => ⟨s, List.mem_append_left _ hs, hname⟩
    · exact (hchosen.names d hnew).imp_left fun hname =>
        ⟨source, List.mem_append_right _ (List.mem_singleton_self _), hname⟩
  · rw [hcount, hpreserved, h.preservedCount]
  · rw [hbytes, hpreserved, h.preservedBytes]
  · rw [hmigrated, hmigrations, List.map_append, List.sum_append, h.migratedBytes,
      List.map_singleton, List.sum_singleton]

/-- A draft that is migrated joins the others, with the destination that the code chooses. -/
theorem Planned.migrate (h : Planned json uuids files dir entries done preflight)
    {bytes : Bytes} (hvalid : validBytes json files source = some bytes)
    (hparent : ∀ p ∈ entries, p.parent = dir) (hjson : source.fileName.isJson = true)
    (hnew : ∀ s ∈ done, s.fileName ≠ source.fileName)
    (hfresh : ∀ name i, candidateName (uuids.candidate name i) name ≠ source.fileName) :
    Planned json uuids files dir entries (done ++ [source])
      (preflight.next json uuids files dir
        (entries.map fun p => (p.fileName, contentOf files p)) source) := by
  have hchosen := h.chosen bytes hparent hjson hnew hfresh
  unfold Preflight.next
  rw [hvalid]
  dsimp only
  cases hdestination : destinationOf uuids dir
      (entries.map fun p => (p.fileName, contentOf files p)) preflight.occupiedDestinations
      source.fileName bytes with
  | none =>
    rw [hdestination] at hchosen
    exact h.concat hvalid hchosen rfl (fun d => by simp) rfl rfl rfl
  | some destination =>
    rw [hdestination] at hchosen
    exact h.concat hvalid hchosen rfl (fun d => by simp [eq_comm]) rfl rfl rfl

/-- The loop over all legacy entries. -/
theorem Planned.foldl (hparent : ∀ p ∈ entries, p.parent = dir) {sources : List (Path D)}
    (h : Planned json uuids files dir entries done preflight)
    (hjson : ∀ s ∈ sources, s.fileName.isJson = true)
    (hnodup : ((done ++ sources).map Path.fileName).Nodup)
    (hfresh : ∀ s ∈ sources, ∀ name i,
      candidateName (uuids.candidate name i) name ≠ s.fileName) :
    Planned json uuids files dir entries (done ++ sources)
      (sources.foldl (Preflight.next json uuids files dir
        (entries.map fun p => (p.fileName, contentOf files p))) preflight) := by
  induction sources generalizing done preflight with
  | nil =>
    rw [List.append_nil]
    exact h
  | cons source sources ih =>
    have hstep : Planned json uuids files dir entries (done ++ [source])
        (preflight.next json uuids files dir
          (entries.map fun p => (p.fileName, contentOf files p)) source) := by
      cases hvalid : validBytes json files source with
      | none => exact h.preserve hvalid _
      | some bytes =>
        refine h.migrate hvalid hparent (hjson source List.mem_cons_self) ?_
          (hfresh source List.mem_cons_self)
        intro s hs hsame
        rw [List.map_append, List.nodup_append] at hnodup
        exact hnodup.2.2 _ (List.mem_map_of_mem hs) _
          (List.mem_map_of_mem List.mem_cons_self) hsame
    rw [List.append_cons] at hnodup ⊢
    exact ih hstep (fun s hs => hjson s (List.mem_cons_of_mem _ hs)) hnodup
      fun s hs => hfresh s (List.mem_cons_of_mem _ hs)

end Loop

variable {json : Json} {uuids : MigrationUuids} {legacyDir : D}
  {listing legacyListing : List OsString}

variable (files dir json legacyDir listing) in
theorem planned_preflightOf (hlisting : legacyListing.Nodup)
    (hfresh : FreshUuids uuids legacyListing) :
    Planned json uuids files dir (jsonPaths dir listing) (jsonPaths legacyDir legacyListing)
      (preflightOf json uuids files dir legacyDir listing legacyListing) := by
  have hstart : Planned json uuids files dir (jsonPaths dir listing) []
      { occupiedDestinations := jsonPaths dir listing } := planned_initial
  have hparent : ∀ p ∈ jsonPaths dir listing, p.parent = dir := fun p hp => (mem_jsonPaths.1 hp).1
  refine hstart.foldl hparent ?_ ?_ ?_
  · exact fun s hs => (mem_jsonPaths.1 hs).2.1
  · show ((jsonPaths legacyDir legacyListing).map Path.fileName).Nodup
    unfold jsonPaths
    rw [List.map_map]
    exact (hlisting.filter _).map Function.injective_id
  · intro s hs name i hsame
    exact hfresh name i (hsame ▸ (mem_jsonPaths.1 hs).2.2)

end Notm.Ui
