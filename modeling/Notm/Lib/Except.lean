import Mathlib

/-!
# Results

`Result` is `Except`, and `?` is its bind: how a sequence of fallible steps succeeds or fails.

* `bind_eq_ok`, `bind_eq_error` — the inversion of one step of a sequence.
* `mapM_eq_ok` — a list of fallible steps succeeds element by element.
* `foldlM_preserves` — an invariant of the step is one of the loop.
* `Ensures` — a postcondition with the errors that are allowed, and its rules `bind`, `map`, `mono`
  and `foldlM`.
-/

namespace Rust

/-- A computation in sequence returns a value exactly when both of its halves do. -/
theorem bind_eq_ok {ε α β : Type} {x : Except ε α} {f : α → Except ε β} {b : β} :
    (x >>= f) = .ok b ↔ ∃ a, x = .ok a ∧ f a = .ok b := by
  cases x <;> simp [bind, Except.bind]

/-- It fails when one of them does. -/
theorem bind_eq_error {ε α β : Type} {x : Except ε α} {f : α → Except ε β} {e : ε} :
    (x >>= f) = .error e ↔ x = .error e ∨ ∃ a, x = .ok a ∧ f a = .error e := by
  cases x <;> simp [bind, Except.bind]

theorem pure_eq_ok {ε α : Type} {a b : α} : (pure a : Except ε α) = .ok b ↔ a = b := by
  simp [pure, Except.pure]

theorem map_eq_ok {ε α β : Type} {x : Except ε α} {f : α → β} {b : β} :
    x.map f = .ok b ↔ ∃ a, x = .ok a ∧ f a = b := by
  cases x <;> simp [Except.map]

theorem mapError_eq_ok {ε ε' α : Type} {x : Except ε α} {f : ε → ε'} {a : α} :
    x.mapError f = .ok a ↔ x = .ok a := by
  cases x <;> simp [Except.mapError]

theorem exists_eq_ok {ε α : Type} {x : Except ε α} (h : x.isOk = true) : ∃ a, x = .ok a := by
  cases x with
  | error e => exact absurd h (by simp [Except.isOk, Except.toBool])
  | ok a => exact ⟨a, rfl⟩

/-- Each member of the list is mapped to its member of the result. -/
theorem mapM_eq_ok {ε α β : Type} {f : α → Except ε β} {xs : List α} {ys : List β} :
    xs.mapM f = .ok ys ↔ List.Forall₂ (fun x y => f x = .ok y) xs ys := by
  induction xs generalizing ys with
  | nil =>
    rw [List.mapM_nil, pure_eq_ok, List.forall₂_nil_left_iff]
    exact eq_comm
  | cons x xs ih =>
    rw [List.mapM_cons, bind_eq_ok, List.forall₂_cons_left_iff]
    refine exists_congr fun y => ?_
    rw [bind_eq_ok]
    constructor
    · rintro ⟨hy, zs, hzs, hys⟩
      exact ⟨zs, hy, ih.1 hzs, (pure_eq_ok.1 hys).symm⟩
    · rintro ⟨zs, hy, hzs, hys⟩
      exact ⟨hy, zs, ih.2 hzs, pure_eq_ok.2 hys.symm⟩

/-- What every step keeps, the whole run keeps. -/
theorem foldlM_preserves {ε α σ : Type} {f : σ → α → Except ε σ} {P : σ → Prop}
    (hstep : ∀ s a s', P s → f s a = .ok s' → P s') {xs : List α} {s last : σ} (hs : P s)
    (h : xs.foldlM f s = .ok last) : P last := by
  induction xs generalizing s with
  | nil => exact pure_eq_ok.1 h ▸ hs
  | cons a xs ih =>
    rw [List.foldlM_cons] at h
    obtain ⟨next, hnext, h⟩ := bind_eq_ok.1 h
    exact ih (hstep s a next hs hnext) h

/-! ## What a computation ensures -/

/-- It fails only in a way that is `allowed`, and what it returns satisfies `post`. -/
def Ensures {ε α : Type} (allowed : ε → Prop) (post : α → Prop) : Except ε α → Prop
  | .error e => allowed e
  | .ok a => post a

namespace Ensures

variable {ε α β σ : Type} {allowed : ε → Prop}

theorem elim {post : α → Prop} {x : Except ε α} (h : Ensures allowed post x) :
    (∃ e, x = .error e ∧ allowed e) ∨ ∃ a, x = .ok a ∧ post a := by
  cases x with
  | error e => exact .inl ⟨e, rfl, h⟩
  | ok a => exact .inr ⟨a, rfl, h⟩

theorem mono {post post' : α → Prop} {x : Except ε α} (h : Ensures allowed post x)
    (himp : ∀ a, post a → post' a) : Ensures allowed post' x := by
  cases x with
  | error e => exact h
  | ok a => exact himp a h

/-- What is known of the value when there is one may be added. -/
theorem of_ok {post post' : α → Prop} {x : Except ε α} (h : Ensures allowed post x)
    (hok : ∀ a, x = .ok a → post' a) : Ensures allowed post' x := by
  cases x with
  | error e => exact h
  | ok a => exact hok a rfl

theorem bind {post : α → Prop} {post' : β → Prop} {x : Except ε α} {f : α → Except ε β}
    (h : Ensures allowed post x) (hf : ∀ a, post a → Ensures allowed post' (f a)) :
    Ensures allowed post' (x >>= f) := by
  cases x with
  | error e => exact h
  | ok a => exact hf a h

theorem map {post : β → Prop} {x : Except ε α} {f : α → β}
    (h : Ensures allowed (fun a => post (f a)) x) : Ensures allowed post (x.map f) := by
  cases x with
  | error e => exact h
  | ok a => exact h

/-- An invariant of every step holds of the run. -/
theorem foldlM {inv : σ → Prop} {f : σ → α → Except ε σ} {xs : List α} {s : σ}
    (hf : ∀ s a, inv s → Ensures allowed inv (f s a)) (hs : inv s) :
    Ensures allowed inv (xs.foldlM f s) := by
  induction xs generalizing s with
  | nil => exact hs
  | cons a xs ih =>
    rw [List.foldlM_cons]
    exact (hf s a hs).bind fun s' hs' => ih hs'

end Ensures

end Rust
