import Mathlib

/-!
# Overwriting and undoing

A state gives each key a value, and an overwriting sets some of the keys to given values. An
operation is undone by an overwriting that leads back to the state before it. Undoing may stop
part way, with some of its keys set and others not yet; doing it again then leads to the same
state, so that a stack of such overwritings leads back to where it began however often each of
them is tried.

* `PartWay.apply_eq` — finishing an overwriting that was done in part is doing it at once.
* `PartWay.trans` — several attempts in part are one.
* `undoAll_concat` — the newest operation is undone first.
-/

variable {K V : Type*}

/-- The keys to set, with their values. -/
abbrev Overwrite (K V : Type*) := K → Option V

namespace Overwrite

def apply (o : Overwrite K V) (x : K → V) : K → V := fun k => (o k).getD (x k)

/-- Undo the operations of a history, the last one first. -/
def undoAll (history : List (Overwrite K V)) (x : K → V) : K → V := history.foldr apply x

/-- Part of the overwriting has been done. -/
def PartWay (o : Overwrite K V) (x y : K → V) : Prop := ∀ k, y k = x k ∨ o k = some (y k)

variable {o : Overwrite K V} {x y z : K → V} {history : List (Overwrite K V)}

theorem PartWay.refl (o : Overwrite K V) (x : K → V) : PartWay o x x := fun _ => Or.inl rfl

theorem PartWay.trans (h : PartWay o x y) (h' : PartWay o y z) : PartWay o x z := by
  intro k
  rcases h' k with hz | hz
  · rcases h k with hy | hy
    · exact Or.inl (hz.trans hy)
    · exact Or.inr (hz ▸ hy)
  · exact Or.inr hz

/-- Doing the overwriting after part of it is doing it at once. -/
theorem PartWay.apply_eq (h : PartWay o x y) : o.apply y = o.apply x := by
  funext k
  unfold apply
  cases hk : o k with
  | some v => rfl
  | none =>
    rcases h k with hy | hy
    · exact hy
    · rw [hk] at hy
      exact absurd hy (Option.some_ne_none _).symm

theorem undoAll_concat : undoAll (history ++ [o]) x = undoAll history (o.apply x) := by
  unfold undoAll
  rw [List.foldr_append]
  rfl

end Overwrite
