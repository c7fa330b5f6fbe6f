import Mathlib

/-!
# Runs of a transition system

A step relation `step s e t` (in state `s` the event `e` leads to `t`), its runs and the rules
by which a property of a whole run follows from a property of one step. A run grows at its end
and remembers the state before each of its events, so that a condition on the steps of a run is
a condition on the members of its trace.

A machine that answers each input (`f s i = some (s', o)`) is a step relation too; two machines
whose states stay related give the same answers.

* `Run.invariant`, `Run.invariant_of_steps` and `Run.history` are the induction rules of a run;
* `Run.forall_states_iff` is the rule for a property that the steps either keep or break;
* `Forces` is what can be brought about by steps whose outcome is not ours to choose;
* `run_of_exec` makes a run out of a partial step function, and `answers_eq_of_simulation` compares
  two machines.
-/

namespace Transition

variable {σ τ ε ω : Type*} {step : σ → ε → σ → Prop}

/-- A run from `s`: the trace holds each event with the state it found. -/
inductive Run (step : σ → ε → σ → Prop) (s : σ) : List (σ × ε) → σ → Prop where
  | nil : Run step s [] s
  | snoc {trace t e u} : Run step s trace t → step t e u → Run step s (trace ++ [(t, e)]) u

/-- Some run from `s` ends in `t`. -/
def Reachable (step : σ → ε → σ → Prop) (s t : σ) : Prop :=
  ∃ trace, Run step s trace t

namespace Run

variable {s t u : σ} {trace : List (σ × ε)}

/-- What holds at the start and survives each step holds at the end. -/
theorem invariant {I : σ → Prop} (hstep : ∀ t e u, I t → step t e u → I u) (hs : I s)
    (h : Run step s trace t) : I t := by
  induction h with
  | nil => exact hs
  | snoc _ hlast ih => exact hstep _ _ _ ih hlast

/-- The rule for runs whose steps all meet a condition. -/
theorem invariant_of_steps {I : σ → Prop} {G : σ → ε → Prop}
    (hstep : ∀ t e u, I t → G t e → step t e u → I u) (hs : I s) (h : Run step s trace t)
    (hG : ∀ p ∈ trace, G p.1 p.2) : I t := by
  induction h with
  | nil => exact hs
  | snoc _ hlast ih =>
    have hearlier := ih fun p hp => hG p (List.mem_append_left _ hp)
    exact hstep _ _ _ hearlier (hG _ (List.mem_append_right _ (List.mem_singleton_self _))) hlast

/-- The rule for what the trace of a run explains of its end. -/
theorem history {I : List (σ × ε) → σ → Prop}
    (hstep : ∀ trace t e u, Run step s trace t → I trace t → step t e u → I (trace ++ [(t, e)]) u)
    (hs : I [] s) (h : Run step s trace t) : I trace t := by
  induction h with
  | nil => exact hs
  | snoc hrun hlast ih => exact hstep _ _ _ _ hrun ih hlast

/-- A run is cut before any of its steps. -/
theorem split {before after : List (σ × ε)} {p : σ × ε}
    (h : Run step s (before ++ p :: after) t) :
    ∃ u, Run step s before p.1 ∧ step p.1 p.2 u ∧ Run step u after t := by
  generalize htrace : before ++ p :: after = trace at h
  induction h generalizing after with
  | nil => exact absurd htrace (by simp)
  | @snoc trace t e u hrun hlast ih =>
    rcases List.eq_nil_or_concat after with rfl | ⟨after, last, rfl⟩
    · obtain ⟨rfl, hp⟩ := List.append_inj' htrace rfl
      obtain rfl := (List.cons.inj hp).1
      exact ⟨u, hrun, hlast, .nil⟩
    · -- the last step lies behind the cut
      have hends : (before ++ p :: after) ++ [last] = trace ++ [(t, e)] := by
        rw [← htrace, List.append_assoc, List.cons_append, List.concat_eq_append]
      obtain ⟨hinit, hlast'⟩ := List.append_inj' hends rfl
      obtain rfl := (List.cons.inj hlast').1
      obtain ⟨v, hbefore, hp, hafter⟩ := ih hinit
      refine ⟨v, hbefore, hp, ?_⟩
      rw [List.concat_eq_append]
      exact hafter.snoc hlast

/-- A run without events is at its start. -/
theorem eq_of_nil (h : Run step s trace t) (htrace : trace = []) : t = s := by
  cases h with
  | nil => rfl
  | snoc _ _ => exact absurd htrace (List.concat_ne_nil _ _)

/-- Every state that a run found on its way is the end of a shorter run. -/
theorem prefix_of_mem (h : Run step s trace t) {p : σ × ε} (hp : p ∈ trace) :
    ∃ before after, trace = before ++ p :: after ∧ Run step s before p.1 := by
  induction h with
  | nil => exact absurd hp List.not_mem_nil
  | @snoc trace t e u hrun hlast ih =>
    rcases List.mem_append.1 hp with hp | hp
    · obtain ⟨before, after, htrace, hbefore⟩ := ih hp
      exact ⟨before, after ++ [(t, e)], by rw [htrace]; simp, hbefore⟩
    · obtain rfl := List.mem_singleton.1 hp
      exact ⟨_, [], rfl, hrun⟩

/-- A property of the states that the good steps keep and every other step breaks holds all along
a run exactly when its steps are good. -/
theorem forall_states_iff {P : σ → Prop} {G : σ → ε → Prop} (hs : P s)
    (hstep : ∀ t e u, Reachable step s t → P t → step t e u → (P u ↔ G t e))
    (h : Run step s trace t) :
    (P t ∧ ∀ p ∈ trace, P p.1) ↔ ∀ p ∈ trace, G p.1 p.2 := by
  induction h with
  | nil =>
    refine iff_of_true ⟨hs, ?_⟩ ?_
    · exact fun p hp => absurd hp List.not_mem_nil
    · exact fun p hp => absurd hp List.not_mem_nil
  | @snoc trace t e u hrun hlast ih =>
    have hlast' : P t → (P u ↔ G t e) := fun ht => hstep t e u ⟨trace, hrun⟩ ht hlast
    simp only [List.mem_append, List.mem_singleton]
    constructor
    · rintro ⟨hu, hstates⟩ p (hp | rfl)
      · exact ih.1 ⟨hstates (t, e) (Or.inr rfl), fun p hp => hstates p (Or.inl hp)⟩ p hp
      · exact (hlast' (hstates (t, e) (Or.inr rfl))).1 hu
    · intro hsteps
      obtain ⟨ht, hstates⟩ := ih.2 fun p hp => hsteps p (Or.inl hp)
      refine ⟨(hlast' ht).2 (hsteps (t, e) (Or.inr rfl)), ?_⟩
      rintro p (hp | rfl)
      · exact hstates p hp
      · exact ht

/-- A run whose steps all meet a condition is a run of the steps that meet it. -/
theorem restrict {G : σ → ε → Prop} (h : Run step s trace t) (hG : ∀ p ∈ trace, G p.1 p.2) :
    Run (fun s e t => G s e ∧ step s e t) s trace t := by
  induction h with
  | nil => exact .nil
  | @snoc trace t e u _ hlast ih =>
    have hearlier := ih fun p hp => hG p (List.mem_append_left _ hp)
    have hcondition : G t e := hG (t, e) (List.mem_append_right _ (List.mem_singleton_self _))
    exact hearlier.snoc ⟨hcondition, hlast⟩

theorem trans {trace' : List (σ × ε)} (h : Run step s trace t) (h' : Run step t trace' u) :
    Run step s (trace ++ trace') u := by
  induction h' with
  | nil => simpa using h
  | snoc _ hlast ih =>
    rw [← List.append_assoc]
    exact ih.snoc hlast

end Run

theorem Reachable.trans {s t u : σ} (h : Reachable step s t) (h' : Reachable step t u) :
    Reachable step s u := by
  obtain ⟨_, hrun⟩ := h
  obtain ⟨_, hrun'⟩ := h'
  exact ⟨_, hrun.trans hrun'⟩

/-! ## Moves with several outcomes

A move is the set of the states that may come of it: which move is next is ours to choose, and which
of its outcomes comes is not. -/

/-- **What can be brought about.** From `s` some order of moves reaches `goal`, whatever comes of
each of them. -/
inductive Forces (move : σ → Set σ → Prop) (goal : σ → Prop) : σ → Prop where
  | reached {s : σ} (h : goal s) : Forces move goal s
  | next {s : σ} {outcomes : Set σ} (hmove : move s outcomes)
      (h : ∀ t ∈ outcomes, Forces move goal t) : Forces move goal s

namespace Forces

variable {move : σ → Set σ → Prop} {goal goal' : σ → Prop} {s t : σ}

/-- A move that can end in one way only. -/
theorem one (hmove : move s {t}) (h : Forces move goal t) : Forces move goal s := by
  refine .next hmove fun u hu => ?_
  rw [Set.mem_singleton_iff.1 hu]
  exact h

theorem trans (h : Forces move goal s) (hgoal : ∀ t, goal t → Forces move goal' t) :
    Forces move goal' s := by
  induction h with
  | reached hs => exact hgoal _ hs
  | next hmove _ ih => exact .next hmove ih

/-- Where the moves are made of steps and always end, what can be brought about happens in a run. -/
theorem exists_reachable (hsteps : ∀ s outcomes, move s outcomes →
      ∀ t ∈ outcomes, Reachable step s t)
    (hends : ∀ s outcomes, move s outcomes → outcomes.Nonempty) (h : Forces move goal s) :
    ∃ t, Reachable step s t ∧ goal t := by
  induction h with
  | reached hs => exact ⟨_, ⟨[], .nil⟩, hs⟩
  | next hmove _ ih =>
    obtain ⟨u, hu⟩ := hends _ _ hmove
    obtain ⟨t, hreaches, ht⟩ := ih u hu
    exact ⟨t, (hsteps _ _ hmove u hu).trans hreaches, ht⟩

end Forces

/-! ## Executable steps -/

/-- The trace of a total step function on a list of events. -/
def foldTrace (f : σ → ε → σ) (s : σ) : List ε → List (σ × ε)
  | [] => []
  | e :: es => (s, e) :: foldTrace f (f s e) es

theorem run_foldl (f : σ → ε → σ) (s : σ) (es : List ε) :
    Run (fun s e t => f s e = t) s (foldTrace f s es) (es.foldl f s) := by
  induction es generalizing s with
  | nil => exact .nil
  | cons e es ih =>
    have hfirst : Run (fun s e t => f s e = t) s ([] ++ [(s, e)]) (f s e) := Run.nil.snoc rfl
    exact hfirst.trans (ih (f s e))

/-- The step relation of a partial step function. -/
def Steps (f : σ → ε → Option σ) (s : σ) (e : ε) (t : σ) : Prop := f s e = some t

/-- Run a partial step function through a list of events. -/
def exec (f : σ → ε → Option σ) (s : σ) : List ε → Option σ
  | [] => some s
  | e :: es => (f s e).bind fun t => exec f t es

/-- The trace of `exec`. -/
def execTrace (f : σ → ε → Option σ) (s : σ) : List ε → List (σ × ε)
  | [] => []
  | e :: es =>
    (s, e) :: match f s e with
      | none => []
      | some t => execTrace f t es

theorem run_of_exec {f : σ → ε → Option σ} {s t : σ} (es : List ε) (h : exec f s es = some t) :
    Run (Steps f) s (execTrace f s es) t := by
  induction es generalizing s with
  | nil =>
    obtain rfl := Option.some.inj h
    exact .nil
  | cons e es ih =>
    obtain ⟨u, hu, hrest⟩ := Option.bind_eq_some_iff.1 h
    have hfirst : Run (Steps f) s ([] ++ [(s, e)]) u := Run.nil.snoc hu
    have hwhole := hfirst.trans (ih hrest)
    show Run (Steps f) s ((s, e) :: match f s e with
      | none => []
      | some t => execTrace f t es) t
    rw [hu]
    exact hwhole

/-! ## Machines that answer -/

/-- The answers of a machine to a list of inputs, and its state after them; `none` when a step
fails. -/
def answers (f : σ → ε → Option (ω × σ)) (s : σ) : List ε → Option (List ω × σ)
  | [] => some ([], s)
  | e :: es =>
    (f s e).bind fun a => (answers f a.2 es).map fun b => (a.1 :: b.1, b.2)

/-- Two machines whose states stay related by `R` while they answer alike give the same answers
to every list of inputs, and end related. -/
theorem answers_eq_of_simulation {f : σ → ε → Option (ω × σ)} {g : τ → ε → Option (ω × τ)}
    {R : σ → τ → Prop}
    (hstep : ∀ s t e, R s t → ∃ o s' t', f s e = some (o, s') ∧ g t e = some (o, t') ∧ R s' t')
    {s : σ} {t : τ} (h : R s t) (es : List ε) :
    ∃ os s' t', answers f s es = some (os, s') ∧ answers g t es = some (os, t') ∧ R s' t' := by
  induction es generalizing s t with
  | nil => exact ⟨[], s, t, rfl, rfl, h⟩
  | cons e es ih =>
    obtain ⟨o, s₁, t₁, hf, hg, hnext⟩ := hstep s t e h
    obtain ⟨os, s', t', hfs, hgs, hend⟩ := ih hnext
    refine ⟨o :: os, s', t', ?_, ?_, hend⟩
    · show (f s e).bind (fun a => (answers f a.2 es).map _) = _
      rw [hf, Option.bind_some, hfs, Option.map_some]
    · show (g t e).bind (fun a => (answers g a.2 es).map _) = _
      rw [hg, Option.bind_some, hgs, Option.map_some]

end Transition
