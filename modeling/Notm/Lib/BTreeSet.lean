import Mathlib

/-!
# Ordered sets

`BTreeSet` as the increasing list of its members, which is the order that iterating it has. The
keys of a `BTreeMap` are such a set.

* `insertSorted_pairwise` — inserting keeps the members increasing, the invariant a set carries.
* `mem_insert`, `mem_remove`, `mem_difference`, `mem_ofList` — membership after each operation.
* `eq_of_mem_iff` — a set is determined by its members.
-/

namespace Rust

variable {α : Type*} [LinearOrder α]

/-- Put `x` at its place unless it is there already. -/
def insertSorted (x : α) : List α → List α
  | [] => [x]
  | y :: ys => if x < y then x :: y :: ys else if x = y then y :: ys else y :: insertSorted x ys

theorem mem_insertSorted {x y : α} {xs : List α} : y ∈ insertSorted x xs ↔ y = x ∨ y ∈ xs := by
  induction xs with
  | nil => simp [insertSorted]
  | cons z zs ih =>
    unfold insertSorted
    split
    · exact List.mem_cons
    · split
      · rename_i heq
        rw [heq, List.mem_cons]
        exact ⟨Or.inr, fun h => h.elim Or.inl id⟩
      · rw [List.mem_cons, ih, List.mem_cons]
        exact or_left_comm

/-- Inserting at the place of a member keeps the list increasing. -/
theorem insertSorted_pairwise {x : α} {xs : List α} (h : xs.Pairwise (· < ·)) :
    (insertSorted x xs).Pairwise (· < ·) := by
  induction xs with
  | nil => exact List.pairwise_singleton _ _
  | cons y ys ih =>
    obtain ⟨hy, hys⟩ := List.pairwise_cons.1 h
    unfold insertSorted
    split
    · rename_i hlt
      refine List.pairwise_cons.2 ⟨fun z hz => ?_, h⟩
      rcases List.mem_cons.1 hz with rfl | hz
      · exact hlt
      · exact hlt.trans (hy z hz)
    · rename_i hnot
      split
      · exact h
      · rename_i hne
        refine List.pairwise_cons.2 ⟨fun z hz => ?_, ih hys⟩
        rcases mem_insertSorted.1 hz with rfl | hz
        · exact lt_of_le_of_ne (not_lt.1 hnot) (Ne.symm hne)
        · exact hy z hz

/-- `std::collections::BTreeSet`: the members in increasing order, which is a field of the set, so
that none occurs twice. -/
structure BTreeSet (α : Type*) [LinearOrder α] where
  toList : List α
  increasing : toList.Pairwise (· < ·)

namespace BTreeSet

instance : Membership α (BTreeSet α) := ⟨fun set x => x ∈ set.toList⟩

instance (x : α) (set : BTreeSet α) : Decidable (x ∈ set) :=
  inferInstanceAs (Decidable (x ∈ set.toList))

def contains (set : BTreeSet α) (x : α) : Bool := decide (x ∈ set)

def empty : BTreeSet α := ⟨[], .nil⟩

def insert (set : BTreeSet α) (x : α) : BTreeSet α :=
  ⟨insertSorted x set.toList, insertSorted_pairwise set.increasing⟩

def remove (set : BTreeSet α) (x : α) : BTreeSet α :=
  ⟨set.toList.filter fun y => y ≠ x, set.increasing.filter _⟩

/-- `difference`, collected into a vector. -/
def difference (set other : BTreeSet α) : List α := set.toList.filter fun x => x ∉ other

/-- `extend`. -/
def extend (set : BTreeSet α) (xs : List α) : BTreeSet α := xs.foldl insert set

/-- `collect`. -/
def ofList (xs : List α) : BTreeSet α := empty.extend xs

variable {set : BTreeSet α} {x y : α} {xs : List α}

@[simp] theorem mem_toList : x ∈ set.toList ↔ x ∈ set := Iff.rfl

@[simp] theorem contains_eq_true : set.contains x = true ↔ x ∈ set := decide_eq_true_iff

@[simp] theorem contains_eq_false : set.contains x = false ↔ x ∉ set := decide_eq_false_iff_not

theorem contains_eq {other : BTreeSet α} (h : x ∈ set ↔ x ∈ other) :
    set.contains x = other.contains x := by
  unfold contains
  simp only [h]

@[simp] theorem not_mem_empty : x ∉ (empty : BTreeSet α) := List.not_mem_nil

@[simp] theorem mem_insert : y ∈ set.insert x ↔ y = x ∨ y ∈ set := mem_insertSorted

@[simp] theorem mem_remove : y ∈ set.remove x ↔ y ∈ set ∧ y ≠ x := by
  show y ∈ set.toList.filter _ ↔ _
  simp

@[simp] theorem mem_difference {other : BTreeSet α} :
    y ∈ set.difference other ↔ y ∈ set ∧ y ∉ other := by
  unfold difference
  simp

theorem mem_extend : y ∈ set.extend xs ↔ y ∈ set ∨ y ∈ xs := by
  unfold extend
  induction xs generalizing set with
  | nil => simp
  | cons x xs ih =>
    rw [List.foldl_cons, ih, mem_insert, List.mem_cons]
    tauto

@[simp] theorem mem_ofList : y ∈ ofList xs ↔ y ∈ xs := by
  unfold ofList
  rw [mem_extend]
  simp

/-- Sets with the same members are equal. -/
theorem eq_of_mem_iff {other : BTreeSet α} (h : ∀ x, x ∈ set ↔ x ∈ other) : set = other := by
  obtain ⟨xs, hxs⟩ := set
  obtain ⟨ys, hys⟩ := other
  obtain rfl : xs = ys := hxs.eq_of_mem_iff hys fun x => h x
  rfl

theorem nodup (set : BTreeSet α) : set.toList.Nodup := set.increasing.imp ne_of_lt

end BTreeSet

end Rust
