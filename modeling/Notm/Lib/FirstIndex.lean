import Mathlib

/-!
# The first index with a property

What a search loop computes, without the loop: the least index from a start on at which a
predicate holds. Such an answer is unique, so two loops that search for the same predicate
agree; and a loop that skips candidates which fail a second test searches for the conjunction.

* `unique` — there is one answer, so two searches for the same thing agree.
* `keep`, `skip` — a search for a conjunction, candidate by candidate.
* `shift` — a search in the rest of the text is one in the text.
* `of_find?_range'` — what `find?` over a range computes.
-/

/-- `o` is the least index from `start` on at which `p` holds, `none` when there is none. -/
def FirstIndex (p : Nat → Prop) (start : Nat) : Option Nat → Prop
  | some i => start ≤ i ∧ p i ∧ ∀ j, start ≤ j → j < i → ¬ p j
  | none => ∀ j, start ≤ j → ¬ p j

namespace FirstIndex

variable {p q : Nat → Prop} {start : Nat} {o o' : Option Nat}

theorem unique (h : FirstIndex p start o) (h' : FirstIndex p start o') : o = o' := by
  cases o with
  | none =>
    cases o' with
    | none => rfl
    | some j => exact absurd h'.2.1 (h j h'.1)
  | some i =>
    cases o' with
    | none => exact absurd h.2.1 (h' i h.1)
    | some j =>
      have hij : ¬ i < j := fun hlt => h'.2.2 i h.1 hlt h.2.1
      have hji : ¬ j < i := fun hlt => h.2.2 j h'.1 hlt h'.2.1
      rw [show i = j by omega]

/-- The candidate passes the second test. -/
theorem keep {i : Nat} (h : FirstIndex p start (some i)) (hq : q i) :
    FirstIndex (fun j => p j ∧ q j) start (some i) :=
  ⟨h.1, ⟨h.2.1, hq⟩, fun j hj hlt hpq => h.2.2 j hj hlt hpq.1⟩

/-- The candidate fails the second test: the search goes on behind it. -/
theorem skip {i : Nat} (h : FirstIndex p start (some i)) (hq : ¬ q i)
    (hrest : FirstIndex (fun j => p j ∧ q j) (i + 1) o) :
    FirstIndex (fun j => p j ∧ q j) start o := by
  -- up to the candidate itself nothing passes both tests
  have hbefore : ∀ j, start ≤ j → j < i + 1 → ¬ (p j ∧ q j) := by
    intro j hj hlt hpq
    rcases Nat.lt_succ_iff_lt_or_eq.mp hlt with hlt | rfl
    · exact h.2.2 j hj hlt hpq.1
    · exact hq hpq.2
  cases o with
  | none =>
    intro j hj
    by_cases hlt : j < i + 1
    · exact hbefore j hj hlt
    · exact hrest j (by omega)
  | some k =>
    refine ⟨by have := hrest.1; have := h.1; omega, hrest.2.1, fun j hj hlt => ?_⟩
    by_cases hi : j < i + 1
    · exact hbefore j hj hi
    · exact hrest.2.2 j (by omega) hlt

theorem none_and (h : FirstIndex p start none) :
    FirstIndex (fun j => p j ∧ q j) start none :=
  fun j hj hpq => h j hj hpq.1

/-- A search from `0` in what is left behind `start` is a search from `start`. -/
theorem shift (h : FirstIndex (fun k => p (start + k)) 0 o) :
    FirstIndex p start (o.map (start + ·)) := by
  cases o with
  | none =>
    intro j hj
    have : ¬ p (start + (j - start)) := h (j - start) (Nat.zero_le _)
    rwa [Nat.add_sub_cancel' hj] at this
  | some i =>
    refine ⟨Nat.le_add_right _ _, h.2.1, fun j hj hlt => ?_⟩
    have hlt' : j - start < i := by
      change j < start + i at hlt
      omega
    have : ¬ p (start + (j - start)) := h.2.2 (j - start) (Nat.zero_le _) hlt'
    rwa [Nat.add_sub_cancel' hj] at this

/-- `find?` over a range finds the first index, when the property stops holding at its end. The
induction is on the length of the range, and each step either finds its first index or goes on
behind it. -/
theorem of_find?_range' {r : Nat → Bool} {count : Nat}
    (hend : ∀ j, start + count ≤ j → r j = false) :
    FirstIndex (fun j => r j = true) start ((List.range' start count).find? r) := by
  induction count generalizing start with
  | zero =>
    intro j hj
    simp [hend j (by omega)]
  | succ count ih =>
    rw [List.range'_succ, List.find?_cons]
    cases hr : r start with
    | true => exact ⟨Nat.le_refl _, hr, fun j hj hlt => by omega⟩
    | false =>
      have hrest := @ih (start + 1) fun j hj => hend j (by omega)
      have hstart : ∀ j, start ≤ j → ¬ start + 1 ≤ j → ¬ r j = true := by
        intro j hj hnot
        rw [show j = start by omega, hr]
        exact Bool.false_ne_true
      cases hfind : (List.range' (start + 1) count).find? r with
      | none =>
        rw [hfind] at hrest
        intro j hj
        by_cases hlt : start + 1 ≤ j
        · exact hrest j hlt
        · exact hstart j hj hlt
      | some i =>
        rw [hfind] at hrest
        refine ⟨by have := hrest.1; omega, hrest.2.1, fun j hj hlt => ?_⟩
        by_cases h1 : start + 1 ≤ j
        · exact hrest.2.2 j h1 hlt
        · exact hstart j hj h1

end FirstIndex
