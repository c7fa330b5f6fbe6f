import Notm.Lib.Counter
import Notm.Lib.Transition

/-!
# The life cycle of the HTML view

`LifecycleState` follows the document that the web view shows: loads, the JavaScript evaluations
that WebKit has not answered yet, and the scroll position that is to be restored. `Lifecycle` is
the state with the unanswered evaluations; its steps are the calls of the view in any order.

A restore that completes clears the queued fraction without looking which fraction it carried.

* `LifecycleState`, `Lifecycle` and `step` — the view with its unanswered evaluations.
* `KeepsRestore` — a step loses no fraction that is queued.
* `CarriesQueued` — the unanswered restores carry what is queued.
* `restore_lost` — without it the first restore that completes loses the newer fraction.
* `keepsRestore_run` — every run in which each fraction is queued alone.
-/

namespace Notm.Ui

open Rust

/-- The operations of `f64` that the metrics are computed with. -/
structure F64 (F : Type*) where
  zero : F
  one : F
  max : F → F → F
  clamp : F → F → F → F
  sub : F → F → F
  div : F → F → F
  gt : F → F → Bool

structure HtmlScrollMetrics (F : Type*) where
  y : F
  h : F
  c : F
  canScroll : Bool
  fraction : F

structure HtmlImageMetrics where
  total : Nat
  loaded : Nat
  failed : Nat
  pending : Nat

structure HtmlAppearanceSnapshot where
  darkBackground : Bool
  background : String
  foreground : String
  link : Option String
  tableBackground : Option String
  tableForeground : Option String
  imageFilter : Option String

structure ScrollReport (F : Type*) where
  generation : Nat
  ready : Bool
  y : F
  h : F
  c : F
  images : HtmlImageMetrics
  appearance : Option HtmlAppearanceSnapshot

inductive EvaluationKind where
  | probe
  | scroll
  | restore
deriving DecidableEq

structure Evaluation where
  id : Nat
  generation : Nat
  kind : EvaluationKind
deriving DecidableEq

structure PendingRestore (F : Type*) where
  generation : Nat
  fraction : F

/-- `LifecycleState`. The slot `pendingRestore` holds the fraction that is queued, and
`restoreInFlight` the identity of the restore that was sent last; `evaluations` are those that the
state still waits for. -/
structure LifecycleState (F : Type*) where
  generation : Nat := 0
  completedGeneration : Nat := 0
  readyGeneration : Option Nat := none
  metrics : Option (HtmlScrollMetrics F) := none
  imageMetrics : Option HtmlImageMetrics := none
  appearance : Option HtmlAppearanceSnapshot := none
  pendingRestore : Option (PendingRestore F) := none
  restoreInFlight : Option Nat := none
  nextEvaluationId : Nat := 0
  evaluations : List Evaluation := []
  lastError : Option String := none

variable {F : Type*}

def HtmlScrollMetrics.fromReport (f64 : F64 F) (report : ScrollReport F) : HtmlScrollMetrics F :=
  let h := f64.max report.h f64.zero
  let c := f64.max report.c f64.zero
  let max := f64.max (f64.sub h c) f64.zero
  let y := f64.clamp report.y f64.zero max
  { y := y
    h := h
    c := c
    canScroll := f64.gt max f64.zero
    fraction :=
      if f64.gt max f64.zero then f64.clamp (f64.div y max) f64.zero f64.one else f64.zero }

namespace LifecycleState

def beginLoad (state : LifecycleState F) : LifecycleState F :=
  { state with
    generation := (checkedSucc state.generation).getD 1
    readyGeneration := none
    metrics := none
    imageMetrics := none
    appearance := none
    pendingRestore := none
    restoreInFlight := none
    evaluations := []
    lastError := none }

def beginEvaluation (state : LifecycleState F) (kind : EvaluationKind) :
    Evaluation × LifecycleState F :=
  let id := (checkedSucc state.nextEvaluationId).getD 1
  let evaluation := { id := id, generation := state.generation, kind := kind }
  (evaluation, { state with
    nextEvaluationId := id
    evaluations := evaluation :: state.evaluations.filter fun e => e.id ≠ id })

def queueRestore (f64 : F64 F) (state : LifecycleState F) (fraction : F) : LifecycleState F :=
  { state with
    pendingRestore := some
      { generation := state.generation, fraction := f64.clamp fraction f64.zero f64.one } }

/-- The evaluation that starts, with the fraction that its script scrolls to. -/
def beginReadyRestore (state : LifecycleState F) :
    Option ((Evaluation × F) × LifecycleState F) :=
  state.pendingRestore.bind fun pending =>
    if pending.generation ≠ state.generation ∨ state.readyGeneration ≠ some state.generation ∨
        state.restoreInFlight.isSome then none
    else
      let (evaluation, state) := state.beginEvaluation .restore
      some ((evaluation, pending.fraction),
        { state with restoreInFlight := some evaluation.id })

/-- What an accepted report of the document changes. -/
def applyReport (f64 : F64 F) (state : LifecycleState F) (report : ScrollReport F) :
    LifecycleState F :=
  { state with
    readyGeneration := if report.ready then some report.generation else none
    completedGeneration := if report.ready then report.generation else state.completedGeneration
    metrics := some (.fromReport f64 report)
    imageMetrics := some report.images
    appearance := report.appearance <|> state.appearance
    lastError := none }

def recordReport (f64 : F64 F) (state : LifecycleState F) (report : ScrollReport F) :
    Bool × LifecycleState F :=
  if report.generation ≠ state.generation then (false, state)
  else (true, state.applyReport f64 report)

/-- What a completion does before it looks at its result. -/
def settle (state : LifecycleState F) (evaluation : Evaluation) : LifecycleState F :=
  { state with
    evaluations := state.evaluations.filter fun e => e.id ≠ evaluation.id
    restoreInFlight :=
      if evaluation.generation = state.generation ∧
          state.restoreInFlight = some evaluation.id then none
      else state.restoreInFlight }

def completeEvaluation (f64 : F64 F) (state : LifecycleState F) (evaluation : Evaluation)
    (result : Except String (ScrollReport F)) : Bool × LifecycleState F :=
  let state := state.settle evaluation
  if evaluation.generation ≠ state.generation then (false, state)
  else
    match result with
    | .error error => (true, { state with lastError := some error })
    | .ok report =>
      if report.generation ≠ state.generation then (false, state)
      else
        let state := state.applyReport f64 report
        if evaluation.kind = .restore ∧ report.ready then
          (true, { state with pendingRestore := none })
        else (true, state)

end LifecycleState

/-! ## The view and the evaluations that WebKit has not answered -/

/-- An evaluation whose callback has not run; a restore carries the fraction it scrolls to. -/
structure Unanswered (F : Type*) where
  evaluation : Evaluation
  fraction : Option F

/-- The state with the evaluations that WebKit has not answered, in the order of their start. The
state may have given some of them up. -/
structure Lifecycle (F : Type*) where
  state : LifecycleState F := {}
  unanswered : List (Unanswered F) := []

/-- A call of the view: a load, a probe or scroll that starts, a fraction that is queued, the
attempt to start its restore, a report of the page, the answer to an evaluation. -/
inductive LifecycleEvent (F : Type*) where
  | beginLoad
  | evaluate (kind : EvaluationKind)
  | queueRestore (fraction : F)
  | dispatchReadyRestore
  | recordReport (report : ScrollReport F)
  | completeEvaluation (index : Nat) (result : Except String (ScrollReport F))

namespace Lifecycle

/-- `none` for what cannot happen: `evaluate` starts no restore, and an answer has its
evaluation. -/
def step (f64 : F64 F) (view : Lifecycle F) : LifecycleEvent F → Option (Lifecycle F)
  | .beginLoad => some { view with state := view.state.beginLoad }
  | .evaluate kind =>
    if kind = .restore then none
    else
      let (evaluation, state) := view.state.beginEvaluation kind
      some { state := state, unanswered := view.unanswered ++ [⟨evaluation, none⟩] }
  | .queueRestore fraction => some { view with state := view.state.queueRestore f64 fraction }
  | .dispatchReadyRestore =>
    match view.state.beginReadyRestore with
    | none => some view
    | some ((evaluation, fraction), state) =>
      some { state := state, unanswered := view.unanswered ++ [⟨evaluation, some fraction⟩] }
  | .recordReport report => some { view with state := (view.state.recordReport f64 report).2 }
  | .completeEvaluation index result =>
    view.unanswered[index]?.map fun answered =>
      { state := (view.state.completeEvaluation f64 answered.evaluation result).2
        unanswered := view.unanswered.eraseIdx index }

/-! ## What becomes of a queued fraction -/

/-- The event is the successful completion of a restore of the current document that carried
`fraction`. -/
def CompletesRestore (view : Lifecycle F) (event : LifecycleEvent F) (fraction : F) : Prop :=
  ∃ index report answered, event = .completeEvaluation index (.ok report) ∧
    view.unanswered[index]? = some answered ∧ answered.evaluation.kind = .restore ∧
    answered.fraction = some fraction ∧ answered.evaluation.generation = view.state.generation ∧
    report.generation = view.state.generation ∧ report.ready = true

/-- A queued fraction stays, gives way to a newer one, or is cleared by a load or by the
completion of a restore that carried it. -/
def KeepsRestore (f64 : F64 F) (view : Lifecycle F) (event : LifecycleEvent F)
    (view' : Lifecycle F) : Prop :=
  ∀ pending, view.state.pendingRestore = some pending →
    view'.state.pendingRestore = some pending ∨ event = .beginLoad ∨
      (∃ fraction, event = .queueRestore fraction ∧ view'.state.pendingRestore =
        some ⟨view.state.generation, f64.clamp fraction f64.zero f64.one⟩) ∨
      CompletesRestore view event pending.fraction

/-- No other fraction is queued while a restore of the current document is unanswered. -/
def QueuesAlone (f64 : F64 F) (view : Lifecycle F) (event : LifecycleEvent F) : Prop :=
  ∀ fraction, event = .queueRestore fraction →
    ∀ u ∈ view.unanswered, u.evaluation.generation = view.state.generation →
      ∀ carried, u.fraction = some carried → carried = f64.clamp fraction f64.zero f64.one

/-- Of the unanswered evaluations just the restores carry a fraction. -/
def Tagged (view : Lifecycle F) : Prop :=
  ∀ u ∈ view.unanswered, u.evaluation.kind = .restore ↔ u.fraction.isSome = true

/-- The unanswered restores of the current document carry the queued fraction. -/
def CarriesQueued (view : Lifecycle F) : Prop :=
  ∀ pending, view.state.pendingRestore = some pending →
    ∀ u ∈ view.unanswered, u.evaluation.generation = view.state.generation →
      ∀ carried, u.fraction = some carried → carried = pending.fraction

end Lifecycle

/-! ## What the calls do to the slot -/

namespace LifecycleState

variable {f64 : F64 F} {state state' : LifecycleState F} {evaluation : Evaluation} {fraction : F}

theorem beginReadyRestore_eq_some
    (h : state.beginReadyRestore = some ((evaluation, fraction), state')) :
    ∃ pending, state.pendingRestore = some pending ∧ fraction = pending.fraction ∧
      evaluation.kind = .restore ∧ evaluation.generation = state.generation ∧
      state'.pendingRestore = state.pendingRestore ∧ state'.generation = state.generation := by
  unfold beginReadyRestore at h
  obtain ⟨pending, hpending, hstart⟩ := Option.bind_eq_some_iff.1 h
  split at hstart
  · exact absurd hstart (Option.some_ne_none _).symm
  · obtain ⟨⟨rfl, rfl⟩, rfl⟩ := Prod.mk.inj (Option.some.inj hstart) |>.imp Prod.mk.inj id
    exact ⟨pending, hpending, rfl, rfl, rfl, rfl, rfl⟩

variable (f64 state) in
theorem recordReport_slot (report : ScrollReport F) :
    (state.recordReport f64 report).2.pendingRestore = state.pendingRestore ∧
      (state.recordReport f64 report).2.generation = state.generation := by
  unfold recordReport
  split <;> exact ⟨rfl, rfl⟩

variable (f64 state evaluation) in
theorem completeEvaluation_generation (result : Except String (ScrollReport F)) :
    (state.completeEvaluation f64 evaluation result).2.generation = state.generation := by
  unfold completeEvaluation
  simp only
  split
  · rfl
  · cases result with
    | error error => rfl
    | ok report =>
      simp only
      split
      · rfl
      · split <;> rfl

variable (f64 state evaluation) in
/-- A completion leaves the slot alone, unless it is that of a restore and all goes well. -/
theorem completeEvaluation_slot (result : Except String (ScrollReport F)) :
    (state.completeEvaluation f64 evaluation result).2.pendingRestore = state.pendingRestore ∨
      (state.completeEvaluation f64 evaluation result).2.pendingRestore = none ∧
      ∃ report, result = .ok report ∧ evaluation.kind = .restore ∧
        evaluation.generation = state.generation ∧ report.generation = state.generation ∧
        report.ready = true := by
  unfold completeEvaluation
  simp only
  split
  · exact Or.inl rfl
  · rename_i hgeneration
    cases result with
    | error error => exact Or.inl rfl
    | ok report =>
      simp only
      split
      · exact Or.inl rfl
      · rename_i hreport
        split
        · rename_i hrestore
          exact Or.inr ⟨rfl, report, rfl, hrestore.1, not_not.1 hgeneration,
            not_not.1 hreport, hrestore.2⟩
        · exact Or.inl rfl

variable (f64) in
/-- A restore that completes well clears the slot, whatever it holds. -/
theorem completeEvaluation_clears (hkind : evaluation.kind = .restore)
    (hgeneration : evaluation.generation = state.generation) {report : ScrollReport F}
    (hreport : report.generation = state.generation) (hready : report.ready = true) :
    (state.completeEvaluation f64 evaluation (.ok report)).2.pendingRestore = none := by
  have hsettled : ¬ evaluation.generation ≠ (state.settle evaluation).generation :=
    not_not.2 hgeneration
  have hsame : ¬ report.generation ≠ (state.settle evaluation).generation := not_not.2 hreport
  unfold completeEvaluation
  simp only
  rw [if_neg hsettled, if_neg hsame, if_pos ⟨hkind, hready⟩]

end LifecycleState

namespace Lifecycle

variable {f64 : F64 F} {view view' : Lifecycle F} {event : LifecycleEvent F}

/-- What a step does to the unanswered evaluations and the slot, by event. -/
theorem step_cases (h : step f64 view event = some view') :
    (event = .beginLoad ∧ view'.unanswered = view.unanswered ∧
      view'.state.pendingRestore = none) ∨
    (∃ fraction, event = .queueRestore fraction ∧ view'.unanswered = view.unanswered ∧
      view'.state.generation = view.state.generation ∧ view'.state.pendingRestore =
        some ⟨view.state.generation, f64.clamp fraction f64.zero f64.one⟩) ∨
    (event = .dispatchReadyRestore ∧ view'.state.generation = view.state.generation ∧
      view'.state.pendingRestore = view.state.pendingRestore ∧
      ∃ pending evaluation, view.state.pendingRestore = some pending ∧
        evaluation.kind = .restore ∧
        view'.unanswered = view.unanswered ++ [⟨evaluation, some pending.fraction⟩]) ∨
    ((∀ fraction, event ≠ .queueRestore fraction) ∧
      view'.state.generation = view.state.generation ∧
      view'.state.pendingRestore = view.state.pendingRestore ∧
      ∀ u ∈ view'.unanswered, u ∈ view.unanswered ∨
        u.evaluation.kind ≠ .restore ∧ u.fraction = none) ∨
    (view'.state.generation = view.state.generation ∧ view'.state.pendingRestore = none ∧
      (∀ u ∈ view'.unanswered, u ∈ view.unanswered) ∧
      ∃ index report answered, event = .completeEvaluation index (.ok report) ∧
        view.unanswered[index]? = some answered ∧ answered.evaluation.kind = .restore ∧
        answered.evaluation.generation = view.state.generation ∧
        report.generation = view.state.generation ∧ report.ready = true) := by
  cases event with
  | beginLoad =>
    obtain rfl := Option.some.inj h
    exact Or.inl ⟨rfl, rfl, rfl⟩
  | evaluate kind =>
    simp only [step] at h
    split at h
    · exact absurd h (Option.some_ne_none _).symm
    · rename_i hkind
      obtain rfl := Option.some.inj h
      refine Or.inr (Or.inr (Or.inr (Or.inl ⟨fun _ => by simp, rfl, rfl, ?_⟩)))
      intro u hu
      rcases List.mem_append.1 hu with hu | hu
      · exact Or.inl hu
      · obtain rfl := List.mem_singleton.1 hu
        exact Or.inr ⟨hkind, rfl⟩
  | queueRestore fraction =>
    obtain rfl := Option.some.inj h
    exact Or.inr (Or.inl ⟨fraction, rfl, rfl, rfl, rfl⟩)
  -- The restore is sent with the queued fraction, or the view is not ready and nothing happens.
  | dispatchReadyRestore =>
    simp only [step] at h
    cases hstart : view.state.beginReadyRestore with
    | none =>
      rw [hstart] at h
      obtain rfl := Option.some.inj h
      exact Or.inr (Or.inr (Or.inr (Or.inl ⟨fun _ => by simp, rfl, rfl, fun u hu => Or.inl hu⟩)))
    | some started =>
      obtain ⟨⟨evaluation, fraction⟩, state⟩ := started
      rw [hstart] at h
      obtain rfl := Option.some.inj h
      obtain ⟨pending, hpending, rfl, hkind, -, hslot, hgeneration⟩ :=
        LifecycleState.beginReadyRestore_eq_some hstart
      exact Or.inr (Or.inr (Or.inl
        ⟨rfl, hgeneration, hslot, pending, evaluation, hpending, hkind, rfl⟩))
  | recordReport report =>
    obtain rfl := Option.some.inj h
    obtain ⟨hslot, hgeneration⟩ := LifecycleState.recordReport_slot f64 view.state report
    exact Or.inr (Or.inr (Or.inr (Or.inl
      ⟨fun _ => by simp, hgeneration, hslot, fun u hu => Or.inl hu⟩)))
  | completeEvaluation index result =>
    obtain ⟨answered, hanswered, rfl⟩ := Option.map_eq_some_iff.1 h
    have hgeneration := LifecycleState.completeEvaluation_generation f64 view.state
      answered.evaluation result
    have hunanswered : ∀ u ∈ view.unanswered.eraseIdx index, u ∈ view.unanswered :=
      fun u hu => List.mem_of_mem_eraseIdx hu
    -- Only the completion of a restore, with a report of the current document, clears the slot.
    rcases LifecycleState.completeEvaluation_slot f64 view.state answered.evaluation result with
      hslot | ⟨hslot, report, rfl, hrest⟩
    · exact Or.inr (Or.inr (Or.inr (Or.inl
        ⟨fun _ => by simp, hgeneration, hslot, fun u hu => Or.inl (hunanswered u hu)⟩)))
    · exact Or.inr (Or.inr (Or.inr (Or.inr
        ⟨hgeneration, hslot, hunanswered, index, report, answered, rfl, hanswered, hrest⟩)))

theorem tagged_step (hview : Tagged view) (h : step f64 view event = some view') :
    Tagged view' := by
  intro u hu
  rcases step_cases h with ⟨-, hun, -⟩ | ⟨-, -, hun, -⟩ | ⟨-, -, -, pending, evaluation, -, hkind,
    hun⟩ | ⟨-, -, -, hun⟩ | ⟨-, -, hun, -⟩
  · rw [hun] at hu
    exact hview u hu
  · rw [hun] at hu
    exact hview u hu
  · rw [hun] at hu
    rcases List.mem_append.1 hu with hu | hu
    · exact hview u hu
    · obtain rfl := List.mem_singleton.1 hu
      exact iff_of_true hkind rfl
  · rcases hun u hu with hu | ⟨hkind, hnone⟩
    · exact hview u hu
    · rw [hnone]
      exact iff_of_false hkind (by simp)
  · exact hview u (hun u hu)

/-- Queueing alone keeps the unanswered restores in step with the slot. -/
theorem carriesQueued_step (hview : CarriesQueued view) (halone : QueuesAlone f64 view event)
    (h : step f64 view event = some view') : CarriesQueued view' := by
  intro pending hpending u hu hgeneration carried hcarried
  rcases step_cases h with ⟨-, -, hslot⟩ | ⟨fraction, rfl, hun, hgen, hslot⟩ |
    ⟨-, hgen, hslot, pending', evaluation, hpending', -, hun⟩ | ⟨-, hgen, hslot, hun⟩ |
    ⟨-, hslot, -⟩
  · rw [hslot] at hpending
    exact absurd hpending (Option.some_ne_none _).symm
  · rw [hslot] at hpending
    obtain rfl := Option.some.inj hpending
    rw [hun] at hu
    rw [hgen] at hgeneration
    exact halone fraction rfl u hu hgeneration carried hcarried
  · rw [hslot] at hpending
    rw [hun] at hu
    rw [hgen] at hgeneration
    rcases List.mem_append.1 hu with hu | hu
    · exact hview pending hpending u hu hgeneration carried hcarried
    · -- the restore that has just started carries what the slot holds
      obtain rfl := List.mem_singleton.1 hu
      rw [hpending'] at hpending
      obtain rfl := Option.some.inj hpending
      exact (Option.some.inj hcarried).symm
  · rw [hslot] at hpending
    rw [hgen] at hgeneration
    rcases hun u hu with hu | ⟨-, hnone⟩
    · exact hview pending hpending u hu hgeneration carried hcarried
    · rw [hnone] at hcarried
      exact absurd hcarried (Option.some_ne_none _).symm
  · rw [hslot] at hpending
    exact absurd hpending (Option.some_ne_none _).symm

/-- While the unanswered restores carry what is queued, no step loses it. -/
theorem keepsRestore_step (htagged : Tagged view) (hview : CarriesQueued view)
    (h : step f64 view event = some view') : KeepsRestore f64 view event view' := by
  intro pending hpending
  rcases step_cases h with ⟨hload, -⟩ | ⟨fraction, hqueue, -, -, hslot⟩ | ⟨-, -, hslot, -⟩ |
    ⟨-, -, hslot, -⟩ | ⟨-, -, -, index, report, answered, hevent, hanswered, hkind, hgeneration,
    hreport, hready⟩
  · exact Or.inr (Or.inl hload)
  · exact Or.inr (Or.inr (Or.inl ⟨fraction, hqueue, hslot⟩))
  · exact Or.inl (hslot.trans hpending)
  · exact Or.inl (hslot.trans hpending)
  · have hmem := List.mem_of_getElem? hanswered
    obtain ⟨carried, hcarried⟩ := Option.isSome_iff_exists.1 ((htagged answered hmem).1 hkind)
    have hsame := hview pending hpending answered hmem hgeneration carried hcarried
    rw [hsame] at hcarried
    exact Or.inr (Or.inr (Or.inr
      ⟨index, report, answered, hevent, hanswered, hkind, hcarried, hgeneration, hreport, hready⟩))

/-- The successful answer of the current document. -/
def readyReport (f64 : F64 F) (view : Lifecycle F) : ScrollReport F :=
  { generation := view.state.generation, ready := true, y := f64.zero, h := f64.zero,
    c := f64.zero, images := ⟨0, 0, 0, 0⟩, appearance := none }

/-- Another fraction queued beside an unanswered restore is lost when that one completes. -/
theorem restore_lost (htagged : Tagged view) (halone : ¬ QueuesAlone f64 view event) :
    ∃ queued index lost, step f64 view event = some queued ∧
      step f64 queued (.completeEvaluation index (.ok (readyReport f64 view))) = some lost ∧
      ¬ KeepsRestore f64 queued (.completeEvaluation index (.ok (readyReport f64 view))) lost := by
  unfold QueuesAlone at halone
  push Not at halone
  obtain ⟨fraction, rfl, u, hu, hgeneration, carried, hcarried, hne⟩ := halone
  obtain ⟨index, hindex⟩ := List.getElem?_of_mem hu
  have hkind := (htagged u hu).2 (by rw [hcarried]; rfl)
  refine ⟨{ view with state := view.state.queueRestore f64 fraction }, index,
    { state := ((view.state.queueRestore f64 fraction).completeEvaluation f64 u.evaluation
        (.ok (readyReport f64 view))).2
      unanswered := view.unanswered.eraseIdx index }, rfl, ?_, ?_⟩
  · show (view.unanswered[index]?).map _ = _
    rw [hindex, Option.map_some]
  · intro hkeeps
    have hcleared : ((view.state.queueRestore f64 fraction).completeEvaluation f64 u.evaluation
        (.ok (readyReport f64 view))).2.pendingRestore = none := by
      apply LifecycleState.completeEvaluation_clears f64 hkind
      · exact hgeneration
      · rfl
      · rfl
    rcases hkeeps _ rfl with hkept | hload | ⟨_, hqueue, -⟩ | ⟨i, report, answered, hevent,
      hanswered, -, hfraction, -⟩
    · rw [hcleared] at hkept
      exact absurd hkept (Option.some_ne_none _).symm
    · cases hload
    · cases hqueue
    · -- the answered restore carried its own fraction, not the queued one
      obtain ⟨rfl, -⟩ := LifecycleEvent.completeEvaluation.inj hevent
      have hsame : u = answered := Option.some.inj (hindex.symm.trans hanswered)
      rw [← hsame, hcarried] at hfraction
      exact hne (Option.some.inj hfraction)

/-! ## Runs -/

/-- **When a queued fraction is kept.** It is kept in every run in which no other fraction is queued
while a restore of the current document is unanswered; and the first such fraction is lost when the
restore completes. A restore that completes clears the slot without a look at what is in it, so the
condition is about what was queued in between. -/
theorem keepsRestore_run {trace : List (Lifecycle F × LifecycleEvent F)}
    (hrun : Transition.Run (Transition.Steps (step f64)) {} trace view)
    (halone : ∀ p ∈ trace, QueuesAlone f64 p.1 p.2) (event : LifecycleEvent F) :
    (∀ p ∈ trace, ∀ next, step f64 p.1 p.2 = some next → KeepsRestore f64 p.1 p.2 next) ∧
    (∀ next, step f64 view event = some next → KeepsRestore f64 view event next) ∧
    (¬ QueuesAlone f64 view event → ∃ queued index lost, step f64 view event = some queued ∧
      step f64 queued (.completeEvaluation index (.ok (readyReport f64 view))) = some lost ∧
      ¬ KeepsRestore f64 queued (.completeEvaluation index (.ok (readyReport f64 view))) lost) := by
  have hstart : Tagged ({} : Lifecycle F) ∧ CarriesQueued ({} : Lifecycle F) :=
    ⟨fun u hu => absurd hu List.not_mem_nil, fun pending _ u hu => absurd hu List.not_mem_nil⟩
  -- While each fraction is queued alone, the unanswered restores carry what is queued.
  have hinvariant : ∀ {trace : List (Lifecycle F × LifecycleEvent F)} {view : Lifecycle F},
      Transition.Run (Transition.Steps (step f64)) {} trace view →
      (∀ p ∈ trace, QueuesAlone f64 p.1 p.2) → Tagged view ∧ CarriesQueued view := by
    intro trace view hrun halone
    apply hrun.invariant_of_steps (G := QueuesAlone f64) _ hstart halone
    intro t e u ht hG hstep
    exact ⟨tagged_step ht.1 hstep, carriesQueued_step ht.2 hG hstep⟩
  obtain ⟨htagged, hcarries⟩ := hinvariant hrun halone
  refine ⟨?_, fun next hnext => keepsRestore_step htagged hcarries hnext, restore_lost htagged⟩
  intro p hp next hnext
  obtain ⟨before, after, htrace, hbefore⟩ := hrun.prefix_of_mem hp
  have hearlier : ∀ q ∈ before, QueuesAlone f64 q.1 q.2 := fun q hq =>
    halone q (by rw [htrace]; exact List.mem_append_left _ hq)
  obtain ⟨htagged, hcarries⟩ := hinvariant hbefore hearlier
  exact keepsRestore_step htagged hcarries hnext

/-- `f64` on the rationals: it agrees where the arithmetic is exact. -/
def rationalF64 : F64 ℚ where
  zero := 0
  one := 1
  max a b := if a < b then b else a
  clamp x low high := if x < low then low else if high < x then high else x
  sub a b := a - b
  div a b := a / b
  gt a b := decide (b < a)

/-- A document loads, and its restore to three quarters is on its way. -/
def restoringEvents : List (LifecycleEvent ℚ) :=
  [.beginLoad,
    .recordReport { generation := 1, ready := true, y := 0, h := 1000, c := 200,
                    images := ⟨0, 0, 0, 0⟩, appearance := none },
    .queueRestore (3 / 4),
    .dispatchReadyRestore]

theorem restoring_view : ∃ view,
    Transition.exec (step rationalF64) {} restoringEvents = some view ∧
      view.unanswered = [⟨⟨1, 1, .restore⟩, some (3 / 4)⟩] ∧ view.state.generation = 1 := by
  refine ⟨_, rfl, ?_, rfl⟩
  show [(⟨⟨1, 1, .restore⟩, some (rationalF64.clamp (3 / 4) 0 1)⟩ : Unanswered ℚ)] = _
  have hclamp : rationalF64.clamp (3 / 4) 0 1 = 3 / 4 := by
    show (if (3 / 4 : ℚ) < 0 then 0 else if 1 < (3 / 4 : ℚ) then 1 else 3 / 4) = 3 / 4
    norm_num
  rw [hclamp]

/-- The restore to one quarter, queued while that to three quarters is on its way, is lost when
the latter completes. -/
theorem restore_lost_quarter : ∃ trace view queued event lost,
    Transition.Run (Transition.Steps (step rationalF64)) {} trace view ∧
      step rationalF64 view (.queueRestore (1 / 4)) = some queued ∧
      step rationalF64 queued event = some lost ∧
      ¬ KeepsRestore rationalF64 queued event lost := by
  obtain ⟨view, hexec, hunanswered, hgeneration⟩ := restoring_view
  have htagged : Tagged view := by
    intro u hu
    rw [hunanswered] at hu
    obtain rfl := List.mem_singleton.1 hu
    exact iff_of_true rfl rfl
  have halone : ¬ QueuesAlone rationalF64 view (.queueRestore (1 / 4)) := by
    intro halone
    have hmem : (⟨⟨1, 1, .restore⟩, some (3 / 4)⟩ : Unanswered ℚ) ∈ view.unanswered := by
      rw [hunanswered]
      exact List.mem_singleton_self _
    have hsame : (3 / 4 : ℚ) = rationalF64.clamp (1 / 4) 0 1 :=
      halone (1 / 4) rfl _ hmem hgeneration.symm (3 / 4) rfl
    have hclamp : rationalF64.clamp (1 / 4) 0 1 = 1 / 4 := by
      show (if (1 / 4 : ℚ) < 0 then 0 else if 1 < (1 / 4 : ℚ) then 1 else 1 / 4) = 1 / 4
      norm_num
    rw [hclamp] at hsame
    norm_num at hsame
  obtain ⟨queued, index, lost, hqueue, hcomplete, hlost⟩ := restore_lost htagged halone
  exact ⟨_, view, queued, _, lost, Transition.run_of_exec _ hexec, hqueue, hcomplete, hlost⟩

/-- A document loads and a restore is queued: it is kept, whatever comes next. -/
theorem keepsRestore_run_queued :
    ∃ trace view, Transition.Run (Transition.Steps (step rationalF64)) {} trace view ∧
      ∀ next, step rationalF64 view .dispatchReadyRestore = some next →
        KeepsRestore rationalF64 view .dispatchReadyRestore next := by
  have hrun : Transition.Run (Transition.Steps (step rationalF64)) {}
      (([] ++ [(({} : Lifecycle ℚ), .beginLoad)]) ++
        [(({ state := ({} : LifecycleState ℚ).beginLoad } : Lifecycle ℚ), .queueRestore (3 / 4))])
      { state := (({} : LifecycleState ℚ).beginLoad).queueRestore rationalF64 (3 / 4) } :=
    (Transition.Run.nil.snoc rfl).snoc rfl
  refine ⟨_, _, hrun, (keepsRestore_run hrun ?_ .dispatchReadyRestore).2.1⟩
  intro p hp fraction hevent u hu
  simp only [List.nil_append, List.singleton_append, List.mem_cons, List.not_mem_nil, or_false]
    at hp
  rcases hp with rfl | rfl
  · exact absurd hu List.not_mem_nil
  · exact absurd hu List.not_mem_nil

end Lifecycle

end Notm.Ui
