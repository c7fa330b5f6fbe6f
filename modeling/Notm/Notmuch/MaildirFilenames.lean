import Notm.Lib.BTreeSet
import Notm.Notmuch.Message

/-!
# Reconciling Maildir filenames

After the flags of a message have been written into its filenames the database lists its files
again, and `reconcile_maildir_filenames` compares what was expected with what is there. Each
expectation, an old name with the name it should have now, claims one of its two names that is
not claimed yet, the expected one first, and rather one that the database lists.

A name that is an old name only is left out of the result when its expectation claims another
name, also when it is still a file of the database.

Main results:

* `currentFilename_isCurrent`: the name that an expectation claims, said without the two searches
  of the source. `IsCurrent` is the independent account of it.
* `Reconciles.next`: what one turn of the loop keeps, and `reconciles_take`: what the loop has done
  after any number of expectations.
* `reconciled_iff`: the changes and the failures are right for every input, and the list of the
  files is complete exactly when every old name that is still a file of the database is taken.
* `unflagged_left_out`: two files of one message, one of which the result loses.
-/

namespace Notm.Notmuch

open Rust

/-! ## The expected name -/

/-- `rposition`. -/
def rposition (p : UInt8 → Bool) (bytes : Bytes) : Option Nat :=
  (bytes.reverse.findIdx? p).map fun i => bytes.length - 1 - i

/-- `windows(..).rposition(..)` for one window. -/
def rfindWindow (window bytes : Bytes) : Option Nat :=
  (List.range bytes.length).reverse.find? fun i => window.isPrefixOf (bytes.drop i)

/-- The flags of a filename, by their codes; `none` unless they are ASCII and in order without
repetition. -/
def maildirFlags : List Nat → Option (BTreeSet Nat) :=
  List.foldlM (fun flags flag =>
    if 128 ≤ flag ∨ flags.toList.any (flag ≤ ·) then none else some (flags.insert flag)) .empty

/-- The flags that the tags ask for. -/
def desiredFlags (tags : List Str) : List (Nat × Bool) :=
  [(0x44, tags.contains ['d', 'r', 'a', 'f', 't']),
    (0x46, tags.contains ['f', 'l', 'a', 'g', 'g', 'e', 'd']),
    (0x50, tags.contains ['p', 'a', 's', 's', 'e', 'd']),
    (0x52, tags.contains ['r', 'e', 'p', 'l', 'i', 'e', 'd']),
    (0x53, !tags.contains ['u', 'n', 'r', 'e', 'a', 'd'])]

/-- The directory of the filename ends at `lastSlash`; `cur` or `new` has flags. -/
def expectedMaildirFilenameBytes (filename : Bytes) (tags : List Str) : Bytes :=
  match rposition (· == 0x2F) filename with
  | none => filename
  | some lastSlash =>
    let directoryStart :=
      ((rposition (· == 0x2F) (filename.take lastSlash)).map fun slash => slash + 1).getD 0
    let directory := (filename.take lastSlash).drop directoryStart
    let cur : Bytes := [0x63, 0x75, 0x72]
    let new : Bytes := [0x6E, 0x65, 0x77]
    if directory ≠ cur ∧ directory ≠ new then filename
    else
      let maildirInfo :=
        (rfindWindow [0x3A, 0x32, 0x2C] filename).filter fun info => info > lastSlash
      let flagBytes := (maildirInfo.map fun info => filename.drop (info + 3)).getD []
      match maildirFlags (flagBytes.map UInt8.toNat) with
      | none => filename
      | some flags =>
        let updated := (desiredFlags tags).foldl (fun flags desired =>
          if desired.2 then flags.insert desired.1 else flags.remove desired.1) flags
        if directory = new ∧ maildirInfo = none ∧ updated.toList = flags.toList then filename
        else
          let head := filename.take (maildirInfo.getD filename.length)
          let head :=
            if directory = new then head.take directoryStart ++ cur ++ head.drop lastSlash
            else head
          head ++ [0x3A, 0x32, 0x2C] ++ updated.toList.map UInt8.ofNat

/-- What `std::path` does: the bytes of a path and the text that it is reported as. -/
structure PathText (P : Type*) where
  bytes : P → Bytes
  ofBytes : Bytes → P
  toStringLossy : P → Str

/-- The name that a file should have for the tags of its message. -/
def expectedMaildirFilename {P : Type*} (path : PathText P) (filename : P) (tags : List Str) : P :=
  path.ofBytes (expectedMaildirFilenameBytes (path.bytes filename) tags)

/-! ## The reconciliation -/

/-- The sets and lists that the loop fills. -/
structure Reconciliation (P : Type*) [LinearOrder P] where
  authoritative : BTreeSet P := .empty
  claimed : BTreeSet P := .empty
  pathChanges : List (MaildirPathChange P) := []
  failures : List MaildirFlagSyncFailure := []

section

variable {P : Type*} [LinearOrder P] (pathIsMessageFile : P → Bool) (reportFilename : P → Str)
  (databaseFilenames : BTreeSet P)

/-- The name that an expectation claims. -/
def currentFilename (claimed : BTreeSet P) (previous expected : P) : Option P :=
  ([expected, previous].find? fun candidate =>
    candidate ∉ claimed ∧ candidate ∈ databaseFilenames ∧ pathIsMessageFile candidate).or
  ([expected, previous].find? fun candidate =>
    candidate ∉ claimed ∧ pathIsMessageFile candidate)

/-- The database lists the name and it is a file. -/
def DatabaseAndFileMatch (filename : P) : Prop :=
  filename ∈ databaseFilenames ∧ pathIsMessageFile filename = true

instance (filename : P) :
    Decidable (DatabaseAndFileMatch pathIsMessageFile databaseFilenames filename) :=
  inferInstanceAs (Decidable (_ ∧ _))

/-- The report on an expectation that has claimed `current`. -/
def flagSyncFailure (expectation : P × P) (current : Option P) : MaildirFlagSyncFailure where
  previousFilename := reportFilename expectation.1
  expectedFilename := reportFilename expectation.2
  currentFilename := current.map reportFilename

/-- The loop's body once the name to claim is found. -/
def record (state : Reconciliation P) (expectation : P × P) (current : Option P) :
    Reconciliation P where
  authoritative := current.elim state.authoritative state.authoritative.insert
  claimed := current.elim state.claimed state.claimed.insert
  pathChanges := state.pathChanges ++
    current.toList.map fun current =>
      { previousPath := expectation.1, currentPath := current }
  failures :=
    if current = some expectation.2 ∧
        DatabaseAndFileMatch pathIsMessageFile databaseFilenames expectation.2 then
      state.failures
    else state.failures ++ [flagSyncFailure reportFilename expectation current]

/-- One turn of the loop. -/
def reconcileExpectation (state : Reconciliation P) (expectation : P × P) : Reconciliation P :=
  record pathIsMessageFile reportFilename databaseFilenames state expectation
    (currentFilename pathIsMessageFile databaseFilenames state.claimed expectation.1 expectation.2)

/-- The database filenames that no expectation names. -/
def unknownFilenames (expectations : List (P × P)) : List P :=
  let known := BTreeSet.ofList (expectations.flatMap fun expectation =>
    [expectation.1, expectation.2])
  databaseFilenames.toList.filter fun filename => filename ∉ known ∧ pathIsMessageFile filename

end

variable {P : Type*} [LinearOrder P]

/-- The expectations are gone through in their order, and each may claim one name. The files of the
database that no expectation names are added at the end. -/
def reconcileMaildirFilenames (pathIsMessageFile : P → Bool) (reportFilename : P → Str)
    (expectations : List (P × P)) (databaseFilenames : List P) :
    List P × List (MaildirPathChange P) × List MaildirFlagSyncFailure :=
  let databaseFilenames := BTreeSet.ofList databaseFilenames
  let state := expectations.foldl
    (reconcileExpectation pathIsMessageFile reportFilename databaseFilenames) {}
  let authoritative :=
    state.authoritative.extend (unknownFilenames pathIsMessageFile databaseFilenames expectations)
  (authoritative.toList, state.pathChanges, state.failures)

/-! ## What an expectation claims -/

variable {pathIsMessageFile : P → Bool} {reportFilename : P → Str}
  {databaseFilenames : BTreeSet P} {claimed : BTreeSet P} {previous expected filename : P}
  {expectations : List (P × P)}

theorem currentFilename_spec {current : P} (h : currentFilename pathIsMessageFile databaseFilenames
    claimed previous expected = some current) :
    current ∉ claimed ∧ pathIsMessageFile current = true ∧
      (current = expected ∨ current = previous) := by
  unfold currentFilename at h
  rcases Option.or_eq_some_iff.1 h with hfirst | ⟨-, hsecond⟩
  · have hmem := List.mem_of_find?_eq_some hfirst
    have hsome := List.find?_some hfirst
    simp only [Bool.decide_and, Bool.and_eq_true, decide_eq_true_eq] at hsome
    simp only [List.mem_cons, List.not_mem_nil, or_false] at hmem
    exact ⟨hsome.1, hsome.2.2, hmem⟩
  · have hmem := List.mem_of_find?_eq_some hsecond
    have hsome := List.find?_some hsecond
    simp only [Bool.decide_and, Bool.and_eq_true, decide_eq_true_eq] at hsome
    simp only [List.mem_cons, List.not_mem_nil, or_false] at hmem
    exact ⟨hsome.1, hsome.2, hmem⟩

/-- A free file of the database is claimed as the expected name, or as the old name when the
expected name is no free file of the database. -/
theorem currentFilename_eq_some_iff
    (hlive : DatabaseAndFileMatch pathIsMessageFile databaseFilenames filename)
    (hfree : filename ∉ claimed) :
    currentFilename pathIsMessageFile databaseFilenames claimed previous expected =
      some filename ↔
    expected = filename ∨ previous = filename ∧
      (¬ DatabaseAndFileMatch pathIsMessageFile databaseFilenames expected ∨
        expected ∈ claimed) := by
  obtain ⟨hdatabase, hfile⟩ := hlive
  have hcandidate : filename ∉ claimed ∧ filename ∈ databaseFilenames ∧
      pathIsMessageFile filename = true := ⟨hfree, hdatabase, hfile⟩
  unfold currentFilename
  rw [List.find?_cons, List.find?_cons]
  by_cases hexpected : expected ∉ claimed ∧ expected ∈ databaseFilenames ∧
      pathIsMessageFile expected = true
  · -- the expected name is claimed
    rw [decide_eq_true hexpected]
    simp only [Option.some_or, Option.some.injEq]
    refine ⟨Or.inl, fun h => h.elim id ?_⟩
    rintro ⟨-, hnot | hclaimed⟩
    · exact absurd ⟨hexpected.2.1, hexpected.2.2⟩ hnot
    · exact absurd hclaimed hexpected.1
  · rw [decide_eq_false hexpected]
    have hnot : ¬ DatabaseAndFileMatch pathIsMessageFile databaseFilenames expected ∨
        expected ∈ claimed := by
      unfold DatabaseAndFileMatch
      tauto
    have hne : expected ≠ filename := by
      rintro rfl
      exact hexpected hcandidate
    simp only [hne, false_or, hnot, and_true]
    by_cases hprevious : previous ∉ claimed ∧ previous ∈ databaseFilenames ∧
        pathIsMessageFile previous = true
    · rw [decide_eq_true hprevious]
      simp only [Option.some_or, Option.some.injEq]
    · have hother : previous ≠ filename := by
        rintro rfl
        exact hprevious hcandidate
      rw [decide_eq_false hprevious]
      simp only [List.find?_nil, Option.none_or, hother, iff_false]
      intro hsecond
      have hmem := List.mem_of_find?_eq_some hsecond
      simp only [List.mem_cons, List.not_mem_nil, or_false] at hmem
      exact hmem.elim (fun h => hne h.symm) fun h => hother h.symm

/-! ## The current name, without the searches

`currentFilename` looks through the two names twice. What it finds is told by three facts about
each name: whether it is a regular file, whether an earlier expectation has claimed it, and
whether the database lists it. -/

/-- A regular file that none of the expectations before, whose current names are `before`, has
claimed. -/
def Free (pathIsMessageFile : P → Bool) (before : List (Option P)) (filename : P) : Prop :=
  pathIsMessageFile filename = true ∧ some filename ∉ before

/-- **The current name of an expectation**, where `before` are the current names of the
expectations before it. It is a free file: the expected name, unless the old name is a free file
that the database lists and the expected one is not listed; or the old name, when the expected one
is not free or is the one of the two that the database does not list. It is missing when neither
of the two names is a free file. -/
def IsCurrent (pathIsMessageFile : P → Bool) (databaseFilenames : BTreeSet P)
    (before : List (Option P)) (expectation : P × P) : Option P → Prop
  | none => ¬ Free pathIsMessageFile before expectation.2 ∧
      ¬ Free pathIsMessageFile before expectation.1
  | some current => Free pathIsMessageFile before current ∧
      (current = expectation.2 ∧ (expectation.2 ∈ databaseFilenames ∨
          ¬ (expectation.1 ∈ databaseFilenames ∧
            Free pathIsMessageFile before expectation.1)) ∨
        current = expectation.1 ∧ (¬ Free pathIsMessageFile before expectation.2 ∨
          expectation.2 ∉ databaseFilenames ∧ expectation.1 ∈ databaseFilenames))

/-- The two searches of the source find the current name. -/
theorem currentFilename_isCurrent {before : List (Option P)}
    (hclaimed : ∀ filename, filename ∈ claimed ↔ some filename ∈ before) :
    IsCurrent pathIsMessageFile databaseFilenames before (previous, expected)
      (currentFilename pathIsMessageFile databaseFilenames claimed previous expected) := by
  have hfree : ∀ filename, Free pathIsMessageFile before filename ↔
      filename ∉ claimed ∧ pathIsMessageFile filename = true := by
    intro filename
    rw [Free, ← hclaimed, and_comm]
  unfold currentFilename
  simp only [List.find?_cons, List.find?_nil]
  -- the first search takes free files that the database lists, the expected name before the old one
  by_cases hexpected : expected ∉ claimed ∧ expected ∈ databaseFilenames ∧
      pathIsMessageFile expected = true
  · rw [decide_eq_true hexpected]
    exact ⟨(hfree _).2 ⟨hexpected.1, hexpected.2.2⟩, Or.inl ⟨rfl, Or.inl hexpected.2.1⟩⟩
  rw [decide_eq_false hexpected]
  by_cases hprevious : previous ∉ claimed ∧ previous ∈ databaseFilenames ∧
      pathIsMessageFile previous = true
  · rw [decide_eq_true hprevious]
    refine ⟨(hfree _).2 ⟨hprevious.1, hprevious.2.2⟩, Or.inr ⟨rfl, ?_⟩⟩
    by_cases hother : Free pathIsMessageFile before expected
    · have hother' := (hfree _).1 hother
      exact Or.inr ⟨fun h => hexpected ⟨hother'.1, h, hother'.2⟩, hprevious.2.1⟩
    · exact Or.inl hother
  rw [decide_eq_false hprevious]
  -- the second search takes any free file; the old name is none that the database lists
  have hnot : ¬ (previous ∈ databaseFilenames ∧ Free pathIsMessageFile before previous) := by
    rintro ⟨hlisted, hfile⟩
    have hfile' := (hfree _).1 hfile
    exact hprevious ⟨hfile'.1, hlisted, hfile'.2⟩
  by_cases hanyExpected : expected ∉ claimed ∧ pathIsMessageFile expected = true
  · rw [decide_eq_true hanyExpected]
    exact ⟨(hfree _).2 hanyExpected, Or.inl ⟨rfl, Or.inr hnot⟩⟩
  rw [decide_eq_false hanyExpected]
  by_cases hanyPrevious : previous ∉ claimed ∧ pathIsMessageFile previous = true
  · rw [decide_eq_true hanyPrevious]
    exact ⟨(hfree _).2 hanyPrevious, Or.inr ⟨rfl, Or.inl fun h => hanyExpected ((hfree _).1 h)⟩⟩
  rw [decide_eq_false hanyPrevious]
  exact ⟨fun h => hanyExpected ((hfree _).1 h), fun h => hanyPrevious ((hfree _).1 h)⟩

/-! ## Which names are taken -/

variable (pathIsMessageFile databaseFilenames expectations) in
/-- One of the first `n` expectations takes the name: it expects it; or it has the name as its old
one, and the name that it expects is no file of the database or is taken by an expectation before
it. -/
inductive TakenBy : Nat → P → Prop where
  | expected {n i previous filename} (hlt : i < n)
      (expectation : expectations[i]? = some (previous, filename)) : TakenBy n filename
  | missing {n i filename expected} (hlt : i < n)
      (expectation : expectations[i]? = some (filename, expected))
      (hmissing : ¬ DatabaseAndFileMatch pathIsMessageFile databaseFilenames expected) :
      TakenBy n filename
  | taken {n i filename expected} (hlt : i < n)
      (expectation : expectations[i]? = some (filename, expected)) (hbefore : TakenBy i expected) :
      TakenBy n filename

theorem takenBy_mono {n m : Nat} (hle : n ≤ m)
    (h : TakenBy pathIsMessageFile databaseFilenames expectations n filename) :
    TakenBy pathIsMessageFile databaseFilenames expectations m filename := by
  cases h with
  | expected hlt expectation => exact .expected (by omega) expectation
  | missing hlt expectation hmissing => exact .missing (by omega) expectation hmissing
  | taken hlt expectation hbefore => exact .taken (by omega) expectation hbefore

/-- What the next expectation adds to the names taken. -/
theorem takenBy_succ_iff {n : Nat} (h : expectations[n]? = some (previous, expected)) :
    TakenBy pathIsMessageFile databaseFilenames expectations (n + 1) filename ↔
      TakenBy pathIsMessageFile databaseFilenames expectations n filename ∨
        (expected = filename ∨ previous = filename ∧
          (¬ DatabaseAndFileMatch pathIsMessageFile databaseFilenames expected ∨
            TakenBy pathIsMessageFile databaseFilenames expectations n expected)) := by
  constructor
  · intro htaken
    cases htaken with
    | expected hlt expectation =>
      rcases Nat.lt_succ_iff_lt_or_eq.1 hlt with hlt | rfl
      · exact Or.inl (.expected hlt expectation)
      · rw [h] at expectation
        obtain ⟨rfl, rfl⟩ := Prod.mk.inj (Option.some.inj expectation)
        exact Or.inr (Or.inl rfl)
    | missing hlt expectation hmissing =>
      rcases Nat.lt_succ_iff_lt_or_eq.1 hlt with hlt | rfl
      · exact Or.inl (.missing hlt expectation hmissing)
      · rw [h] at expectation
        obtain ⟨rfl, rfl⟩ := Prod.mk.inj (Option.some.inj expectation)
        exact Or.inr (Or.inr ⟨rfl, Or.inl hmissing⟩)
    | taken hlt expectation hbefore =>
      rcases Nat.lt_succ_iff_lt_or_eq.1 hlt with hlt | rfl
      · exact Or.inl (.taken hlt expectation hbefore)
      · rw [h] at expectation
        obtain ⟨rfl, rfl⟩ := Prod.mk.inj (Option.some.inj expectation)
        exact Or.inr (Or.inr ⟨rfl, Or.inr hbefore⟩)
  · rintro (htaken | rfl | ⟨rfl, hmissing | hbefore⟩)
    · exact takenBy_mono (Nat.le_succ n) htaken
    · exact .expected (Nat.lt_succ_self n) h
    · exact .missing (Nat.lt_succ_self n) h hmissing
    · exact .taken (Nat.lt_succ_self n) h hbefore

/-! ## The loop -/

/-- What the loop has done after `n` expectations, whose current names are `currents`: what is
claimed is told twice, by the current names and, for the files of the database, by `TakenBy`; the
changes and the failures are those of the expectations with their current names. -/
structure Reconciles (pathIsMessageFile : P → Bool) (reportFilename : P → Str)
    (databaseFilenames : BTreeSet P) (expectations : List (P × P)) (n : Nat)
    (state : Reconciliation P) (currents : List (Option P)) : Prop where
  length : currents.length = n
  current : ∀ i expectation, expectations[i]? = some expectation → ∀ current,
    currents[i]? = some current →
    IsCurrent pathIsMessageFile databaseFilenames (currents.take i) expectation current
  named : ∀ filename, filename ∈ state.claimed ↔ some filename ∈ currents
  authoritative : ∀ filename, filename ∈ state.authoritative ↔ filename ∈ state.claimed
  claimed : ∀ filename, DatabaseAndFileMatch pathIsMessageFile databaseFilenames filename →
    (filename ∈ state.claimed ↔
      TakenBy pathIsMessageFile databaseFilenames expectations n filename)
  changes : ∀ change ∈ state.pathChanges, change.currentPath ∈ state.claimed ∧
    (∃ expectation ∈ expectations, expectation.1 = change.previousPath) ∧
    pathIsMessageFile change.currentPath = true
  distinct : (state.pathChanges.map MaildirPathChange.currentPath).Nodup
  pathChanges : state.pathChanges = ((expectations.take n).zip currents).flatMap fun p =>
    p.2.toList.map fun current => { previousPath := p.1.1, currentPath := current }
  failures : state.failures = (((expectations.take n).zip currents).filter fun p =>
    ¬ (p.2 = some p.1.2 ∧ DatabaseAndFileMatch pathIsMessageFile databaseFilenames p.1.2)).map
      fun p => flagSyncFailure reportFilename p.1 p.2

variable {n : Nat} {state : Reconciliation P} {currents : List (Option P)} {current : Option P}

/-- A current name joins the names that are claimed. -/
theorem mem_claim :
    filename ∈ current.elim claimed claimed.insert ↔
      filename ∈ claimed ∨ current = some filename := by
  cases current with
  | none => simp
  | some current =>
    simp only [Option.elim_some, BTreeSet.mem_insert, Option.some.injEq]
    exact ⟨fun h => h.elim (fun h => Or.inr h.symm) Or.inl,
      fun h => h.elim Or.inr fun h => Or.inl h.symm⟩

/-- Of the files of the database, the next expectation claims the one that it takes. -/
theorem mem_claim_iff_takenBy (hnext : expectations[n]? = some (previous, expected))
    (hclaimed : ∀ filename, DatabaseAndFileMatch pathIsMessageFile databaseFilenames filename →
      (filename ∈ claimed ↔
        TakenBy pathIsMessageFile databaseFilenames expectations n filename))
    (hlive : DatabaseAndFileMatch pathIsMessageFile databaseFilenames filename) :
    filename ∈ (currentFilename pathIsMessageFile databaseFilenames claimed previous
        expected).elim claimed claimed.insert ↔
      TakenBy pathIsMessageFile databaseFilenames expectations (n + 1) filename := by
  rw [mem_claim, takenBy_succ_iff hnext, ← hclaimed filename hlive]
  by_cases hfree : filename ∈ claimed
  · simp [hfree]
  · rw [currentFilename_eq_some_iff hlive hfree]
    -- whether the expected name is taken matters where it is a file of the database only
    by_cases hexpected : DatabaseAndFileMatch pathIsMessageFile databaseFilenames expected
    · rw [← hclaimed expected hexpected]
    · simp [hexpected]

/-- The current names of the expectations so far, with the one of the next expectation. -/
theorem isCurrent_concat (hlength : currents.length = n)
    (hnext : expectations[n]? = some (previous, expected))
    (hcurrents : ∀ i expectation, expectations[i]? = some expectation → ∀ found,
      currents[i]? = some found →
      IsCurrent pathIsMessageFile databaseFilenames (currents.take i) expectation found)
    (hcurrent : IsCurrent pathIsMessageFile databaseFilenames currents (previous, expected)
      current) :
    ∀ i expectation, expectations[i]? = some expectation → ∀ found,
      (currents ++ [current])[i]? = some found →
      IsCurrent pathIsMessageFile databaseFilenames ((currents ++ [current]).take i) expectation
        found := by
  intro i expectation hexpectation found hfound
  rcases Nat.lt_or_ge i n with hi | hi
  · -- an earlier expectation, whose name and the names before it are as they were
    have hbefore : i < currents.length := hlength ▸ hi
    rw [List.getElem?_append_left hbefore] at hfound
    rw [List.take_append_of_le_length (Nat.le_of_lt hbefore)]
    exact hcurrents i expectation hexpectation found hfound
  · have hlast : i = currents.length := by
      have := (List.getElem?_eq_some_iff.1 hfound).1
      rw [List.length_append, List.length_singleton] at this
      omega
    subst hlast
    rw [List.getElem?_concat_length, Option.some.injEq] at hfound
    rw [hlength, hnext, Option.some.injEq] at hexpectation
    rw [← hfound, ← hexpectation, List.take_left]
    exact hcurrent

/-- One turn of the loop: the next expectation gets its current name, and everything that is told
of the expectations so far holds with it. -/
theorem Reconciles.next
    (h : Reconciles pathIsMessageFile reportFilename databaseFilenames expectations n state
      currents) (hnext : expectations[n]? = some (previous, expected)) :
    Reconciles pathIsMessageFile reportFilename databaseFilenames expectations (n + 1)
      (reconcileExpectation pathIsMessageFile reportFilename databaseFilenames state
        (previous, expected))
      (currents ++ [currentFilename pathIsMessageFile databaseFilenames state.claimed previous
        expected]) := by
  obtain ⟨hlt, -⟩ := List.getElem?_eq_some_iff.1 hnext
  have htake : expectations.take (n + 1) = expectations.take n ++ [(previous, expected)] := by
    rw [List.take_add_one, hnext]
    rfl
  have hzip : ∀ current : Option P, (expectations.take (n + 1)).zip (currents ++ [current]) =
      (expectations.take n).zip currents ++ [((previous, expected), current)] := by
    intro current
    rw [htake, List.zip_append (by rw [List.length_take, h.length]; omega)]
    rfl
  have hspec : ∀ current, currentFilename pathIsMessageFile databaseFilenames state.claimed
      previous expected = some current → current ∉ state.claimed ∧
        pathIsMessageFile current = true ∧ (current = expected ∨ current = previous) :=
    fun current hcurrent => currentFilename_spec hcurrent
  have htaken : ∀ filename, DatabaseAndFileMatch pathIsMessageFile databaseFilenames filename →
      (filename ∈ (currentFilename pathIsMessageFile databaseFilenames state.claimed previous
        expected).elim state.claimed state.claimed.insert ↔
      TakenBy pathIsMessageFile databaseFilenames expectations (n + 1) filename) :=
    fun filename hlive => mem_claim_iff_takenBy hnext h.claimed hlive
  have hcurrent : IsCurrent pathIsMessageFile databaseFilenames currents (previous, expected)
      (currentFilename pathIsMessageFile databaseFilenames state.claimed previous expected) :=
    currentFilename_isCurrent h.named
  -- these three facts are all that the rest needs of the next current name
  unfold reconcileExpectation
  generalize currentFilename pathIsMessageFile databaseFilenames state.claimed previous expected =
    current at hspec htaken hcurrent ⊢
  refine ⟨by rw [List.length_append, h.length]; rfl, ?_, ?_, ?_, ?_, ?_, ?_, ?_, ?_⟩
  · exact isCurrent_concat h.length hnext h.current hcurrent
  · intro filename
    refine mem_claim.trans ?_
    rw [List.mem_append, h.named, List.mem_singleton, @eq_comm _ (some filename)]
  · intro filename
    cases current with
    | none => exact h.authoritative filename
    | some current =>
      show filename ∈ state.authoritative.insert current ↔ filename ∈ state.claimed.insert current
      rw [BTreeSet.mem_insert, BTreeSet.mem_insert, h.authoritative]
  · exact htaken
  · intro change hchange
    rcases List.mem_append.1 hchange with hold | hnew
    · obtain ⟨hmem, hrest⟩ := h.changes change hold
      exact ⟨mem_claim.2 (Or.inl hmem), hrest⟩
    · obtain ⟨found, hfound, rfl⟩ := List.mem_map.1 hnew
      have hcurrent : current = some found := by
        cases current with
        | none => simp at hfound
        | some current => rw [List.mem_singleton.1 hfound]
      obtain ⟨-, hfile, -⟩ := hspec found hcurrent
      exact ⟨mem_claim.2 (Or.inr hcurrent),
        ⟨_, List.mem_of_getElem? hnext, rfl⟩, hfile⟩
  · show ((state.pathChanges ++ _).map _).Nodup
    cases current with
    | none => simpa using h.distinct
    | some current =>
      obtain ⟨hfree, -, -⟩ := hspec current rfl
      rw [List.map_append, List.nodup_append]
      refine ⟨h.distinct, List.nodup_singleton _, ?_⟩
      intro other hother found hfound heq
      obtain ⟨change, hchange, rfl⟩ := List.mem_map.1 hother
      have hsame : found = current := by simpa using hfound
      rw [hsame] at heq
      exact hfree (heq ▸ (h.changes change hchange).1)
  · rw [hzip, List.flatMap_append, ← h.pathChanges]
    show state.pathChanges ++ _ = _
    rw [List.flatMap_singleton]
  · rw [hzip, List.filter_append, List.map_append, ← h.failures]
    show (if _ then _ else _) = _
    split
    · rename_i hmatch
      rw [List.filter_cons_of_neg (by simpa using hmatch)]
      simp
    · rename_i hmatch
      simp only [List.filter_cons, hmatch, not_false_eq_true, decide_true, if_true,
        List.filter_nil, List.map_cons, List.map_nil]

theorem reconciles_take (n : Nat) (hle : n ≤ expectations.length) :
    ∃ currents, Reconciles pathIsMessageFile reportFilename databaseFilenames expectations n
      ((expectations.take n).foldl
        (reconcileExpectation pathIsMessageFile reportFilename databaseFilenames) {}) currents := by
  induction n with
  | zero =>
    refine ⟨[], rfl, fun _ _ _ _ hnone => absurd hnone (by simp),
      fun _ => iff_of_false BTreeSet.not_mem_empty List.not_mem_nil, fun _ => Iff.rfl,
      fun filename _ => ?_, ?_, List.nodup_nil, rfl, rfl⟩
    · refine iff_of_false BTreeSet.not_mem_empty fun htaken => ?_
      cases htaken with
      | expected hlt => exact Nat.not_lt_zero _ hlt
      | missing hlt => exact Nat.not_lt_zero _ hlt
      | taken hlt => exact Nat.not_lt_zero _ hlt
    · exact fun _ hchange => absurd hchange List.not_mem_nil
  | succ n ih =>
    obtain ⟨currents, h⟩ := ih (Nat.le_of_succ_le hle)
    have hnext : expectations[n]? = some (expectations[n].1, expectations[n].2) :=
      List.getElem?_eq_getElem hle
    have hfold : ∀ f : Reconciliation P → P × P → Reconciliation P,
        (expectations.take (n + 1)).foldl f {} =
          f ((expectations.take n).foldl f {}) expectations[n] := by
      intro f
      rw [List.take_add_one, hnext, List.foldl_append]
      rfl
    rw [hfold]
    exact ⟨_, h.next hnext⟩

/-! ## The result -/

/-- **What holds of the result for every input.** The list has regular files, none twice; each
change goes from the old name of an expectation to a regular file of the list, and no two changes
go to the same one; and the changes and the failures are those of the expectations' current names:
each expectation that has a current name makes a change, each one whose expected name is not the
current one in both the database and the file system makes a failure. -/
structure Accounts (pathIsMessageFile : P → Bool) (reportFilename : P → Str)
    (expectations : List (P × P)) (databaseFilenames : List P)
    (result : List P × List (MaildirPathChange P) × List MaildirFlagSyncFailure) : Prop where
  files : ∀ filename ∈ result.1, pathIsMessageFile filename = true
  nodup : result.1.Nodup
  changes : ∀ change ∈ result.2.1,
    (∃ expectation ∈ expectations, expectation.1 = change.previousPath) ∧
      pathIsMessageFile change.currentPath = true ∧ change.currentPath ∈ result.1
  distinct : (result.2.1.map MaildirPathChange.currentPath).Nodup
  /-- `IsCurrent` leaves no choice for `currents`: the current name of each expectation is settled
  by the names that exist and by the current names of the expectations before it. -/
  failures : ∃ currents : List (Option P), currents.length = expectations.length ∧
    (∀ i expectation, expectations[i]? = some expectation → ∀ current,
      currents[i]? = some current → IsCurrent pathIsMessageFile (.ofList databaseFilenames)
        (currents.take i) expectation current) ∧
    result.2.1 = (expectations.zip currents).flatMap (fun p =>
      p.2.toList.map fun current => { previousPath := p.1.1, currentPath := current }) ∧
    result.2.2 = ((expectations.zip currents).filter fun p =>
      ¬ (p.2 = some p.1.2 ∧ p.1.2 ∈ databaseFilenames ∧ pathIsMessageFile p.1.2 = true)).map
        fun p => flagSyncFailure reportFilename p.1 p.2

/-- The result accounts for the files of the database too: it lists each one that is a regular
file. -/
structure Reconciled (pathIsMessageFile : P → Bool) (reportFilename : P → Str)
    (expectations : List (P × P)) (databaseFilenames : List P)
    (result : List P × List (MaildirPathChange P) × List MaildirFlagSyncFailure) : Prop
    extends Accounts pathIsMessageFile reportFilename expectations databaseFilenames result where
  complete : ∀ filename ∈ databaseFilenames, pathIsMessageFile filename = true →
    filename ∈ result.1

/-- Every old name that is a file of the database is taken by an expectation. -/
def OldNamesTaken (pathIsMessageFile : P → Bool) (expectations : List (P × P))
    (databaseFilenames : List P) : Prop :=
  ∀ expectation ∈ expectations, expectation.1 ∈ databaseFilenames →
    pathIsMessageFile expectation.1 = true →
    TakenBy pathIsMessageFile (.ofList databaseFilenames) expectations expectations.length
      expectation.1

theorem mem_unknownFilenames {databaseFilenames : List P} :
    filename ∈ unknownFilenames pathIsMessageFile (.ofList databaseFilenames) expectations ↔
      filename ∈ databaseFilenames ∧ pathIsMessageFile filename = true ∧
        ∀ expectation ∈ expectations, expectation.1 ≠ filename ∧ expectation.2 ≠ filename := by
  unfold unknownFilenames
  simp only [List.mem_filter, BTreeSet.mem_toList, BTreeSet.mem_ofList, List.mem_flatMap,
    decide_eq_true_eq, List.mem_cons, List.not_mem_nil, or_false, not_exists, not_and, not_or,
    Bool.decide_and, Bool.and_eq_true]
  constructor
  · rintro ⟨hdatabase, hnot, hfile⟩
    exact ⟨hdatabase, hfile, fun e he =>
      ⟨fun h => (hnot e he).1 h.symm, fun h => (hnot e he).2 h.symm⟩⟩
  · rintro ⟨hdatabase, hfile, hnot⟩
    exact ⟨hdatabase, fun e he =>
      ⟨fun h => (hnot e he).1 h.symm, fun h => (hnot e he).2 h.symm⟩, hfile⟩

/-- The state after the whole loop, with the current names of all expectations. -/
theorem reconciles_all (pathIsMessageFile : P → Bool) (reportFilename : P → Str)
    (databaseFilenames : BTreeSet P) (expectations : List (P × P)) :
    ∃ currents, Reconciles pathIsMessageFile reportFilename databaseFilenames expectations
      expectations.length (expectations.foldl
        (reconcileExpectation pathIsMessageFile reportFilename databaseFilenames) {}) currents := by
  obtain ⟨currents, h⟩ : ∃ currents, Reconciles pathIsMessageFile reportFilename
      databaseFilenames expectations expectations.length
      ((expectations.take expectations.length).foldl
        (reconcileExpectation pathIsMessageFile reportFilename databaseFilenames) {}) currents :=
    reconciles_take expectations.length (Nat.le_refl _)
  rw [List.take_length] at h
  exact ⟨currents, h⟩

/-- The result lists the claimed names and the unknown files of the database. -/
theorem Reconciles.mem_result {databaseFilenames : List P}
    (h : Reconciles pathIsMessageFile reportFilename (.ofList databaseFilenames) expectations
      expectations.length (expectations.foldl (reconcileExpectation pathIsMessageFile
        reportFilename (.ofList databaseFilenames)) {}) currents) :
    filename ∈ (reconcileMaildirFilenames pathIsMessageFile reportFilename expectations
      databaseFilenames).1 ↔
    some filename ∈ currents ∨
      filename ∈ unknownFilenames pathIsMessageFile (.ofList databaseFilenames) expectations := by
  rw [← h.named, ← h.authoritative]
  exact BTreeSet.mem_extend

/-- A name that has been claimed is a regular file. -/
theorem Reconciles.file_of_claimed
    (h : Reconciles pathIsMessageFile reportFilename databaseFilenames expectations
      expectations.length state currents) (hclaimed : some filename ∈ currents) :
    pathIsMessageFile filename = true := by
  obtain ⟨i, hi⟩ := List.getElem?_of_mem hclaimed
  have hlt : i < expectations.length := h.length ▸ (List.getElem?_eq_some_iff.1 hi).1
  exact (h.current i _ (List.getElem?_eq_getElem hlt) _ hi).1.1

/-- The files, the changes and the failures of the result, for every input. -/
theorem reconcileMaildirFilenames_accounts (pathIsMessageFile : P → Bool)
    (reportFilename : P → Str) (expectations : List (P × P)) (databaseFilenames : List P) :
    Accounts pathIsMessageFile reportFilename expectations databaseFilenames
      (reconcileMaildirFilenames pathIsMessageFile reportFilename expectations
        databaseFilenames) := by
  obtain ⟨currents, h⟩ := reconciles_all pathIsMessageFile reportFilename
    (.ofList databaseFilenames) expectations
  refine ⟨fun filename hmem => ?_, BTreeSet.nodup _, fun change hchange => ?_, h.distinct,
    currents, h.length, h.current, ?_, ?_⟩
  · rcases h.mem_result.1 hmem with hclaimed | hunknown
    · exact h.file_of_claimed hclaimed
    · exact (mem_unknownFilenames.1 hunknown).2.1
  · obtain ⟨hclaimed, hexpectation, hfile⟩ := h.changes change hchange
    exact ⟨hexpectation, hfile, h.mem_result.2 (Or.inl ((h.named _).1 hclaimed))⟩
  · have hchanges := h.pathChanges
    rw [List.take_length] at hchanges
    exact hchanges
  · have hfailures := h.failures
    rw [List.take_length] at hfailures
    simp only [DatabaseAndFileMatch, BTreeSet.mem_ofList] at hfailures
    exact hfailures

/-- **The law of the reconciliation.** The changes and the failures are right for every input; the
result accounts for everything exactly when every old name that is still a file of the database is
taken, by its own expectation or by another one. -/
theorem reconciled_iff (pathIsMessageFile : P → Bool) (reportFilename : P → Str)
    (expectations : List (P × P)) (databaseFilenames : List P) :
    Accounts pathIsMessageFile reportFilename expectations databaseFilenames
      (reconcileMaildirFilenames pathIsMessageFile reportFilename expectations
        databaseFilenames) ∧
    (Reconciled pathIsMessageFile reportFilename expectations databaseFilenames
      (reconcileMaildirFilenames pathIsMessageFile reportFilename expectations
        databaseFilenames) ↔
      OldNamesTaken pathIsMessageFile expectations databaseFilenames) := by
  have haccounts := reconcileMaildirFilenames_accounts pathIsMessageFile reportFilename
    expectations databaseFilenames
  refine ⟨haccounts, ?_⟩
  obtain ⟨currents, h⟩ := reconciles_all pathIsMessageFile reportFilename
    (.ofList databaseFilenames) expectations
  -- for a file of the database, to be claimed is to be taken
  have hclaimed : ∀ filename ∈ databaseFilenames, pathIsMessageFile filename = true →
      (some filename ∈ currents ↔ TakenBy pathIsMessageFile (.ofList databaseFilenames)
        expectations expectations.length filename) := by
    intro filename hdatabase hfile
    rw [← h.named]
    exact h.claimed filename ⟨BTreeSet.mem_ofList.2 hdatabase, hfile⟩
  constructor
  · intro hreconciled expectation hmem hdatabase hfile
    rcases h.mem_result.1 (hreconciled.complete _ hdatabase hfile) with hcurrent | hunknown
    · exact (hclaimed _ hdatabase hfile).1 hcurrent
    · exact absurd rfl ((mem_unknownFilenames.1 hunknown).2.2 expectation hmem).1
  · intro htaken
    refine ⟨haccounts, fun filename hdatabase hfile => h.mem_result.2 ?_⟩
    by_cases hknown : ∀ expectation ∈ expectations,
        expectation.1 ≠ filename ∧ expectation.2 ≠ filename
    · exact Or.inr (mem_unknownFilenames.2 ⟨hdatabase, hfile, hknown⟩)
    · left
      rw [hclaimed filename hdatabase hfile]
      push Not at hknown
      obtain ⟨⟨previous, expected⟩, hmem, hnamed⟩ := hknown
      by_cases hprevious : previous = filename
      · subst hprevious
        exact htaken _ hmem hdatabase hfile
      · -- a name that is expected is always taken
        obtain ⟨i, hi⟩ := List.getElem?_of_mem hmem
        obtain ⟨hlt, -⟩ := List.getElem?_eq_some_iff.1 hi
        obtain rfl : expected = filename := hnamed hprevious
        exact .expected hlt hi

/-! ## A file left out -/

/-- A message in two files, one of which has the name that the other is expected to get. -/
def unflagged : Str := ['c', 'u', 'r', '/', 'm', ':', '2', ',']

def flaggedSeen : Str := unflagged ++ ['S']

/-- Both files are still there and in the database; the first has claimed the name of the second,
and is left out itself. -/
theorem unflagged_left_out : ¬ Reconciled (fun _ => true) id
    [(unflagged, flaggedSeen), (flaggedSeen, flaggedSeen)] [unflagged, flaggedSeen]
    (reconcileMaildirFilenames (fun _ => true) id
      [(unflagged, flaggedSeen), (flaggedSeen, flaggedSeen)] [unflagged, flaggedSeen]) := by
  intro h
  have hmem := h.complete unflagged List.mem_cons_self rfl
  have hresult : (reconcileMaildirFilenames (fun _ => true) id
      [(unflagged, flaggedSeen), (flaggedSeen, flaggedSeen)] [unflagged, flaggedSeen]).1 =
      [flaggedSeen] := by decide
  rw [hresult] at hmem
  exact absurd hmem (by decide)

end Notm.Notmuch
