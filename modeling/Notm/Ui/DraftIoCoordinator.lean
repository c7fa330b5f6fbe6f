import Notm.Lib.Counter
import Notm.Lib.Transition

/-!
# The coordinator of the draft workers

One generation of draft file work is active at a time. A refresh replaces the one before it. A
migration of legacy drafts is not to be replaced for its full lifetime, since it changes the
store: `begin` refuses while one is active.

`cancel` drops the active generation without looking whether it is a migration.

* `Exclusive` — the migration is in progress, and nothing else is begun.
* `Exclusive.step_iff` — of the calls before its completion, just a cancel ends it.
* `migration_exclusive_iff` — its whole lifetime.
-/

namespace Notm.Ui

open Rust

/-- `DraftIoCoordinator`. `activeMigration` says of the active generation whether it migrates; both
are set and cleared together. -/
structure DraftIoCoordinator where
  nextGeneration : Nat := 0
  activeGeneration : Option Nat := none
  activeMigration : Bool := false
  completedGeneration : Option Nat := none
deriving DecidableEq

/-- The calls of the window. -/
inductive DraftIoEvent where
  | begin (migrateLegacy : Bool)
  | finish (generation : Nat)
  | cancel
deriving DecidableEq

namespace DraftIoCoordinator

/-- While a migration is active nothing begins. Anything else that is active is superseded. -/
def begin (c : DraftIoCoordinator) (migrateLegacy : Bool) : Option Nat × DraftIoCoordinator :=
  if c.activeMigration then (none, c)
  else
    let generation := saturatingSucc c.nextGeneration
    (some generation, { c with
      nextGeneration := generation
      activeGeneration := some generation
      activeMigration := migrateLegacy })

/-- The generation is the active one. -/
def accepts (c : DraftIoCoordinator) (generation : Nat) : Bool :=
  c.activeGeneration == some generation

/-- The answer says whether the generation was still the active one; a superseded one ends nothing.
-/
def finish (c : DraftIoCoordinator) (generation : Nat) : Bool × DraftIoCoordinator :=
  if !c.accepts generation then (false, c)
  else
    (true, { c with
      activeGeneration := none
      activeMigration := false
      completedGeneration := some generation })

/-- The active operation is forgotten, a migration too, although its worker goes on. -/
def cancel (c : DraftIoCoordinator) : DraftIoCoordinator :=
  { c with activeGeneration := none, activeMigration := false }

/-- What the operations that a migration blocks ask for. -/
def migrationInProgress (c : DraftIoCoordinator) : Bool :=
  c.activeGeneration.isSome && c.activeMigration

/-- The calls that change the coordinator; the queries of its state are functions of it. -/
def step (c : DraftIoCoordinator) : DraftIoEvent → Option DraftIoCoordinator
  | .begin migrateLegacy => some (c.begin migrateLegacy).2
  | .finish generation => some (c.finish generation).2
  | .cancel => some c.cancel

/-- The migration `generation` is in progress and nothing else is begun, neither a load nor another
migration: a refusal leaves the coordinator as it is. -/
structure Exclusive (generation : Nat) (c : DraftIoCoordinator) : Prop where
  inProgress : c.migrationInProgress = true
  active : c.activeGeneration = some generation
  refuses : ∀ migrateLegacy, c.begin migrateLegacy = (none, c)

variable {c c' : DraftIoCoordinator} {generation : Nat}

theorem exclusive_iff : Exclusive generation c ↔
    c.activeGeneration = some generation ∧ c.activeMigration = true := by
  constructor
  · intro h
    have hflags := h.inProgress
    unfold migrationInProgress at hflags
    rw [Bool.and_eq_true] at hflags
    exact ⟨h.active, hflags.2⟩
  · rintro ⟨hactive, hmigration⟩
    refine ⟨?_, hactive, ?_⟩
    · show (c.activeGeneration.isSome && c.activeMigration) = true
      rw [hactive, hmigration]
      rfl
    · intro migrateLegacy
      unfold begin
      rw [if_pos hmigration]

theorem begin_exclusive (h : c.begin true = (some generation, c')) : Exclusive generation c' := by
  apply exclusive_iff.2
  unfold begin at h
  split at h
  · cases h
  · cases h
    exact ⟨rfl, rfl⟩

/-- The completion of another generation is refused. -/
theorem Exclusive.finish_other (h : Exclusive generation c) {other : Nat}
    (hother : other ≠ generation) : c.finish other = (false, c) := by
  have hrefused : (!c.accepts other) = true := by
    show (!(c.activeGeneration == some other)) = true
    rw [h.active]
    simpa using Ne.symm hother
  unfold finish
  rw [if_pos hrefused]

theorem not_exclusive_cancel : ¬ Exclusive generation c.cancel := by
  intro h
  exact absurd h.active (Option.some_ne_none generation).symm

/-- Of the steps other than its own completion, just a cancel ends a migration. -/
theorem Exclusive.step_iff (h : Exclusive generation c) {event : DraftIoEvent}
    (hfinish : event ≠ .finish generation) (hstep : c.step event = some c') :
    Exclusive generation c' ↔ event ≠ .cancel := by
  cases event with
  | begin migrateLegacy =>
    have hsame : (c.begin migrateLegacy).2 = c' := Option.some.inj hstep
    rw [h.refuses migrateLegacy] at hsame
    rw [← hsame]
    exact iff_of_true h (by simp)
  | finish other =>
    have hother : other ≠ generation := fun hsame => hfinish (by rw [hsame])
    have hsame : (c.finish other).2 = c' := Option.some.inj hstep
    rw [h.finish_other hother] at hsame
    rw [← hsame]
    exact iff_of_true h (by simp)
  | cancel =>
    obtain rfl := Option.some.inj hstep
    exact iff_of_false not_exclusive_cancel (by simp)

/-- **A migration is exclusive unless it is cancelled.** From the begin of a migration on, in any
order of calls up to its completion, the migration is in progress and nothing else is begun, if and
only if none of the calls is a cancel. -/
theorem migration_exclusive_iff (hbegin : c.begin true = (some generation, c'))
    {trace : List (DraftIoCoordinator × DraftIoEvent)} {last : DraftIoCoordinator}
    (hrun : Transition.Run (Transition.Steps step) c' trace last)
    (hfinish : ∀ p ∈ trace, p.2 ≠ .finish generation) :
    (Exclusive generation last ∧ ∀ p ∈ trace, Exclusive generation p.1) ↔
      ∀ p ∈ trace, p.2 ≠ .cancel := by
  have hrest := hrun.restrict (G := fun _ event => event ≠ .finish generation) hfinish
  apply hrest.forall_states_iff (G := fun _ event => event ≠ .cancel) (begin_exclusive hbegin)
  intro t event u _ ht hstep
  exact ht.step_iff hstep.1 hstep.2

/-- A migration begins, another load is asked for, and the completion of an older one comes. -/
theorem migration_exclusive_refusals : ∃ last,
    Transition.exec step ((({} : DraftIoCoordinator).begin true).2) [.begin false, .finish 0] =
      some last ∧ Exclusive 1 last := by
  have hexec : Transition.exec step ((({} : DraftIoCoordinator).begin true).2)
      [.begin false, .finish 0] = some (({} : DraftIoCoordinator).begin true).2 := by decide
  have hbegin : ({} : DraftIoCoordinator).begin true =
      (some 1, (({} : DraftIoCoordinator).begin true).2) := rfl
  have hrun := Transition.run_of_exec _ hexec
  refine ⟨_, hexec, ((migration_exclusive_iff hbegin hrun ?_).2 ?_).1⟩
  · decide
  · decide

/-- A cancel ends the migration, and the next load begins while its worker still runs. -/
theorem migration_cancelled : ∃ migrating cancelled,
    ({} : DraftIoCoordinator).begin true = (some 1, migrating) ∧
      Transition.Run (Transition.Steps step) migrating [(migrating, .cancel)] cancelled ∧
      cancelled.migrationInProgress = false ∧ (cancelled.begin false).1 = some 2 :=
  ⟨_, _, rfl, Transition.Run.nil.snoc rfl, rfl, rfl⟩

end DraftIoCoordinator

end Notm.Ui
