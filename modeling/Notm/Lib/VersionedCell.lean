import Notm.Lib.Counter

/-!
# A cell with a version

A value that several parties read and replace. Each change of the value advances the version, and
who wants to replace what it has read names the version that it saw: the replacement is refused
when another change came first. The versions are counters of 64 bits that stand still at their
end, where equal versions no longer mean that nothing has changed.

* `write_version_of_ne` — a change below the end of the versions moves the version.
* `replaceIf_eq_some` — a replacement succeeds only at the version that it names.
* `Follows` — equal versions mean an equal cell, kept by every write (`Follows.write`).
-/

open Rust

structure VersionedCell (α : Type*) where
  value : α
  version : Nat
  bounded : version ≤ u64Max

namespace VersionedCell

variable {α : Type*}

/-- The cell before any change. -/
def new (value : α) : VersionedCell α := ⟨value, 0, Nat.zero_le _⟩

variable [DecidableEq α]

/-- Writing the value that is there already is no change. -/
def write (cell : VersionedCell α) (value : α) : VersionedCell α :=
  if cell.value = value then cell else ⟨value, saturatingSucc cell.version, saturatingSucc_le⟩

/-- Write the value unless the version has moved on. -/
def replaceIf (cell : VersionedCell α) (expected : Nat) (value : α) : Option (VersionedCell α) :=
  if cell.version = expected then some (cell.write value) else none

variable {cell earlier : VersionedCell α} {value : α} {expected : Nat}

@[simp] theorem write_value : (cell.write value).value = value := by
  unfold write
  split <;> simp_all

theorem write_of_eq (h : cell.value = value) : cell.write value = cell := if_pos h

/-- A change below the end moves the version. -/
theorem write_version_of_ne (h : cell.value ≠ value) (hlt : cell.version < u64Max) :
    (cell.write value).version = cell.version + 1 := by
  unfold write
  rw [if_neg h]
  exact saturatingSucc_of_lt hlt

theorem version_le_write : cell.version ≤ (cell.write value).version := by
  unfold write
  split
  · exact Nat.le_refl _
  · exact le_saturatingSucc cell.bounded

theorem replaceIf_eq_some {cell' : VersionedCell α}
    (h : cell.replaceIf expected value = some cell') :
    cell.version = expected ∧ cell' = cell.write value := by
  unfold replaceIf at h
  split at h
  · exact ⟨‹_›, (Option.some.inj h).symm⟩
  · exact absurd h (Option.some_ne_none _).symm

/-- What the cell can have become since it was `earlier`: below the end of the versions, the same
version means the same cell. -/
structure Follows (cell earlier : VersionedCell α) : Prop where
  version_le : earlier.version ≤ cell.version
  unchanged : cell.version < u64Max → cell.version = earlier.version → cell = earlier

omit [DecidableEq α] in
theorem Follows.refl (cell : VersionedCell α) : Follows cell cell :=
  ⟨Nat.le_refl _, fun _ _ => rfl⟩

theorem Follows.write (h : Follows cell earlier) (value : α) :
    Follows (cell.write value) earlier := by
  refine ⟨Nat.le_trans h.version_le version_le_write, fun hlt hversion => ?_⟩
  by_cases hvalue : cell.value = value
  · rw [write_of_eq hvalue] at hlt hversion ⊢
    exact h.unchanged hlt hversion
  · -- the version has moved past that of `earlier`
    have hmoved := write_version_of_ne hvalue (Nat.lt_of_le_of_lt version_le_write hlt)
    have := h.version_le
    omega

end VersionedCell
