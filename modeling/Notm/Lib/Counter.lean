import Mathlib

/-!
# Counters

`u64` as a natural number up to `u64Max`: the additions of Rust that neither wrap nor trap. The
checked operations of `usize` take its greatest value as a parameter.

Each operation has a lemma for the range in which it is the plain sum, and one for its end. Proofs
about a counter use these and never the definitions.
-/

namespace Rust

/-- `u64::MAX`. -/
def u64Max : Nat := 2 ^ 64 - 1

/-- `n.checked_add(1)`. -/
def checkedSucc (n : Nat) : Option Nat := if n < u64Max then some (n + 1) else none

/-- `n.saturating_add(1)`. -/
def saturatingSucc (n : Nat) : Nat := min (n + 1) u64Max

/-- `n.saturating_add(m)`. -/
def saturatingAdd (n m : Nat) : Nat := min (n + m) u64Max

/-- `n.saturating_mul(m)`. -/
def saturatingMul (n m : Nat) : Nat := min (n * m) u64Max

/-- `n.wrapping_add(1)`. -/
def wrappingSucc (n : Nat) : Nat := (n + 1) % (u64Max + 1)

/-- `n.checked_add(m)`. -/
def checkedAdd (max n m : Nat) : Option Nat := if n + m ≤ max then some (n + m) else none

/-- `n.checked_mul(m)`. -/
def checkedMul (max n m : Nat) : Option Nat := if n * m ≤ max then some (n * m) else none

/-- `n.checked_sub(m)`. -/
def checkedSub (n m : Nat) : Option Nat := if m ≤ n then some (n - m) else none

/-- `n.checked_div(m)`. -/
def checkedDiv (n m : Nat) : Option Nat := if m = 0 then none else some (n / m)

variable {n m : Nat}

theorem checkedSucc_of_lt (h : n < u64Max) : checkedSucc n = some (n + 1) := if_pos h

theorem checkedSucc_eq_some (h : checkedSucc n = some m) : n < u64Max ∧ m = n + 1 := by
  unfold checkedSucc at h
  split at h
  · exact ⟨‹_›, (Option.some.inj h).symm⟩
  · exact absurd h (Option.some_ne_none _).symm

/-- Below its end the counter grows. -/
theorem saturatingSucc_of_lt (h : n < u64Max) : saturatingSucc n = n + 1 := by
  unfold saturatingSucc
  omega

/-- At its end the counter stands still. -/
theorem saturatingSucc_max : saturatingSucc u64Max = u64Max := by
  unfold saturatingSucc
  omega

theorem saturatingSucc_le : saturatingSucc n ≤ u64Max := Nat.min_le_right _ _

theorem le_saturatingSucc (h : n ≤ u64Max) : n ≤ saturatingSucc n := by
  unfold saturatingSucc
  omega

theorem saturatingAdd_of_le (h : n + m ≤ u64Max) : saturatingAdd n m = n + m := Nat.min_eq_left h

end Rust
