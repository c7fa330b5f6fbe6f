import Notm.Ui.HtmlViewLifecycle

/-!
# Superseded loads and evaluations

Callbacks of the web process come in any order, after any number of loads. A callback carries the
generation of the load and the identity of the evaluation it belongs to, and one that belongs to a
superseded load leaves the state as it is.

Both counters start again at one after `u64::MAX`. From there on an old callback can carry the
numbers of a new one, so the results are about the runs in which no counter wraps.

* `Current` — the state holds just the unanswered evaluations of its own load.
* `completeEvaluation_fields` — an answer settles its evaluation, and little else.
* `superseded_run` — what superseded answers and reports change, in every run.
* `superseded_changes` — what they can change where a counter wraps.
-/

namespace Notm.Ui

open Rust

variable {F : Type*}

structure HtmlViewLifecycleSnapshot (F : Type*) where
  generation : Nat
  completedGeneration : Nat
  ready : Bool
  evaluationPending : Bool
  pendingRestore : Option F
  scroll : Option (HtmlScrollMetrics F)
  images : Option HtmlImageMetrics
  appearance : Option HtmlAppearanceSnapshot
  lastError : Option String

/-- What can be observed of the state. -/
def LifecycleState.snapshot (state : LifecycleState F) : HtmlViewLifecycleSnapshot F :=
  { generation := state.generation
    completedGeneration := state.completedGeneration
    ready := decide (state.readyGeneration = some state.generation)
    evaluationPending := state.evaluations.any fun e => e.generation == state.generation
    pendingRestore :=
      (state.pendingRestore.filter fun pending => pending.generation == state.generation).map
        fun pending => pending.fraction
    scroll := state.metrics
    images := state.imageMetrics
    appearance := state.appearance
    lastError := state.lastError }

namespace Lifecycle

variable {f64 : F64 F} {view view' : Lifecycle F} {event : LifecycleEvent F}

/-- The evaluation belongs to an earlier load, or the state no longer holds it, because it was
answered or replaced. -/
def Superseded (view : Lifecycle F) (evaluation : Evaluation) : Prop :=
  evaluation.generation ≠ view.state.generation ∨ evaluation ∉ view.state.evaluations

/-- The event starts no counter again at one. -/
def Unwrapped (view : Lifecycle F) : LifecycleEvent F → Prop
  | .beginLoad => view.state.generation < u64Max
  | .evaluate _ => view.state.nextEvaluationId < u64Max
  | .dispatchReadyRestore =>
    view.state.beginReadyRestore.isSome = true → view.state.nextEvaluationId < u64Max
  | _ => True

/-- The state holds just the unanswered evaluations of the current load, whose identities differ,
and the restore in flight is one of them. -/
structure Current (view : Lifecycle F) : Prop where
  generations : ∀ u ∈ view.unanswered, u.evaluation.generation ≤ view.state.generation
  ids : ∀ u ∈ view.unanswered, u.evaluation.id ≤ view.state.nextEvaluationId
  distinct : (view.unanswered.map fun u => u.evaluation.id).Nodup
  held : ∀ e, e ∈ view.state.evaluations ↔
    e.generation = view.state.generation ∧ ∃ u ∈ view.unanswered, u.evaluation = e
  completed : view.state.completedGeneration ≤ view.state.generation
  restore : ∀ id, view.state.restoreInFlight = some id →
    ∃ e ∈ view.state.evaluations, e.id = id ∧ e.kind = .restore

/-! ## The calls keep the invariant -/

theorem current_initial : Current ({} : Lifecycle F) where
  generations u hu := absurd hu List.not_mem_nil
  ids u hu := absurd hu List.not_mem_nil
  distinct := List.nodup_nil
  held e := by
    constructor
    · intro he
      exact absurd he List.not_mem_nil
    · rintro ⟨-, u, hu, -⟩
      exact absurd hu List.not_mem_nil
  completed := Nat.le_refl 0
  restore id hid := absurd hid (Option.some_ne_none id).symm

/-- A load leaves every unanswered evaluation to an earlier generation. -/
theorem Current.beginLoad (h : Current view) (hwrap : view.state.generation < u64Max) :
    Current { view with state := view.state.beginLoad } := by
  have hgeneration : view.state.beginLoad.generation = view.state.generation + 1 := by
    show (checkedSucc view.state.generation).getD 1 = _
    rw [checkedSucc_of_lt hwrap, Option.getD_some]
  refine ⟨?_, h.ids, h.distinct, ?_, ?_, ?_⟩
  · intro u hu
    have hle := h.generations u hu
    show _ ≤ view.state.beginLoad.generation
    omega
  · intro e
    show e ∈ [] ↔ e.generation = view.state.beginLoad.generation ∧ _
    constructor
    · intro he
      exact absurd he List.not_mem_nil
    · rintro ⟨he, u, hu, rfl⟩
      have hle := h.generations u hu
      omega
  · show view.state.completedGeneration ≤ view.state.beginLoad.generation
    have hle := h.completed
    omega
  · intro id hid
    exact absurd hid (Option.some_ne_none id).symm

/-- An evaluation that starts gets an identity of its own. -/
theorem Current.beginEvaluation (h : Current view) (hwrap : view.state.nextEvaluationId < u64Max)
    (kind : EvaluationKind) (fraction : Option F) :
    Current { state := (view.state.beginEvaluation kind).2
              unanswered := view.unanswered ++
                [⟨(view.state.beginEvaluation kind).1, fraction⟩] } ∧
      ∀ u ∈ view.unanswered, u.evaluation.id ≠ (view.state.beginEvaluation kind).1.id := by
  have hid : (view.state.beginEvaluation kind).1.id = view.state.nextEvaluationId + 1 := by
    show (checkedSucc view.state.nextEvaluationId).getD 1 = _
    rw [checkedSucc_of_lt hwrap, Option.getD_some]
  have hnext : (view.state.beginEvaluation kind).2.nextEvaluationId =
      view.state.nextEvaluationId + 1 := hid
  have hfresh : ∀ u ∈ view.unanswered,
      u.evaluation.id ≠ (view.state.beginEvaluation kind).1.id := by
    intro u hu
    have hle := h.ids u hu
    omega
  -- No held evaluation has the new identity, so the filter drops none.
  have hevaluations : ∀ e, e ∈ (view.state.beginEvaluation kind).2.evaluations ↔
      e = (view.state.beginEvaluation kind).1 ∨ e ∈ view.state.evaluations := by
    intro e
    show e ∈ (view.state.beginEvaluation kind).1 :: view.state.evaluations.filter _ ↔ _
    rw [List.mem_cons, List.mem_filter]
    constructor
    · rintro (rfl | ⟨he, -⟩)
      · exact Or.inl rfl
      · exact Or.inr he
    · rintro (rfl | he)
      · exact Or.inl rfl
      · obtain ⟨-, u, hu, rfl⟩ := (h.held e).1 he
        exact Or.inr ⟨he, decide_eq_true (hfresh u hu)⟩
  refine ⟨⟨?_, ?_, ?_, ?_, h.completed, ?_⟩, hfresh⟩
  · intro u hu
    rcases List.mem_append.1 hu with hu | hu
    · exact h.generations u hu
    · obtain rfl := List.mem_singleton.1 hu
      exact Nat.le_refl _
  · intro u hu
    show _ ≤ (view.state.beginEvaluation kind).2.nextEvaluationId
    rcases List.mem_append.1 hu with hu | hu
    · have hle := h.ids u hu
      omega
    · obtain rfl := List.mem_singleton.1 hu
      exact Nat.le_refl _
  · show ((view.unanswered ++ [_]).map _).Nodup
    rw [List.map_append, List.nodup_append]
    refine ⟨h.distinct, List.nodup_singleton _, ?_⟩
    intro a ha b hb
    obtain ⟨u, hu, rfl⟩ := List.mem_map.1 ha
    obtain rfl := List.mem_singleton.1 hb
    exact hfresh u hu
  · intro e
    show e ∈ (view.state.beginEvaluation kind).2.evaluations ↔
      e.generation = view.state.generation ∧ _
    rw [hevaluations e]
    constructor
    · rintro (rfl | he)
      · exact ⟨rfl, _, List.mem_append_right _ (List.mem_singleton_self _), rfl⟩
      · obtain ⟨hgeneration, u, hu, hsame⟩ := (h.held e).1 he
        exact ⟨hgeneration, u, List.mem_append_left _ hu, hsame⟩
    · rintro ⟨hgeneration, u, hu, rfl⟩
      rcases List.mem_append.1 hu with hu | hu
      · exact Or.inr ((h.held _).2 ⟨hgeneration, u, hu, rfl⟩)
      · obtain rfl := List.mem_singleton.1 hu
        exact Or.inl rfl
  · intro id hflight
    obtain ⟨e, he, hrest⟩ := h.restore id hflight
    exact ⟨e, (hevaluations e).2 (Or.inr he), hrest⟩

/-- The fields that the invariant speaks of decide it. -/
theorem Current.of_fields (h : Current view) (state : LifecycleState F)
    (hgeneration : state.generation = view.state.generation)
    (hnext : state.nextEvaluationId = view.state.nextEvaluationId)
    (hevaluations : state.evaluations = view.state.evaluations)
    (hrestore : state.restoreInFlight = view.state.restoreInFlight)
    (hcompleted : state.completedGeneration ≤ state.generation) :
    Current { view with state := state } := by
  refine ⟨?_, ?_, h.distinct, ?_, hcompleted, ?_⟩
  · intro u hu
    show _ ≤ state.generation
    rw [hgeneration]
    exact h.generations u hu
  · intro u hu
    show _ ≤ state.nextEvaluationId
    rw [hnext]
    exact h.ids u hu
  · intro e
    show e ∈ state.evaluations ↔ e.generation = state.generation ∧ _
    rw [hevaluations, hgeneration]
    exact h.held e
  · intro id hid
    show ∃ e ∈ state.evaluations, _
    rw [hevaluations]
    exact h.restore id (hrestore.symm.trans hid)

theorem Current.recordReport (h : Current view) (report : ScrollReport F) :
    Current { view with state := (view.state.recordReport f64 report).2 } := by
  unfold LifecycleState.recordReport
  split
  · exact h
  · rename_i hreport
    apply h.of_fields (view.state.applyReport f64 report) rfl rfl rfl rfl
    show (if report.ready then report.generation else view.state.completedGeneration) ≤
      view.state.generation
    split
    · exact Nat.le_of_eq (not_not.1 hreport)
    · exact h.completed

/-- The answer settles the evaluation, and of the fields that the invariant speaks of it then
changes the completed generation at most. -/
theorem completeEvaluation_fields (f64 : F64 F) (state : LifecycleState F)
    (evaluation : Evaluation) (result : Except String (ScrollReport F)) :
    let state' := (state.completeEvaluation f64 evaluation result).2
    state'.generation = state.generation ∧ state'.nextEvaluationId = state.nextEvaluationId ∧
      state'.evaluations = (state.settle evaluation).evaluations ∧
      state'.restoreInFlight = (state.settle evaluation).restoreInFlight ∧
      (state'.completedGeneration = state.completedGeneration ∨
        state'.completedGeneration = state.generation) := by
  unfold LifecycleState.completeEvaluation
  simp only
  split
  · exact ⟨rfl, rfl, rfl, rfl, Or.inl rfl⟩
  · cases result with
    | error error => exact ⟨rfl, rfl, rfl, rfl, Or.inl rfl⟩
    | ok report =>
      simp only
      split
      · exact ⟨rfl, rfl, rfl, rfl, Or.inl rfl⟩
      · rename_i hreport
        have hcompleted : ∀ ready : Bool,
            (if ready then report.generation else state.completedGeneration) =
                state.completedGeneration ∨
              (if ready then report.generation else state.completedGeneration) =
                state.generation := by
          intro ready
          cases ready with
          | false => exact Or.inl rfl
          | true => exact Or.inr (not_not.1 hreport)
        split
        · exact ⟨rfl, rfl, rfl, rfl, hcompleted report.ready⟩
        · exact ⟨rfl, rfl, rfl, rfl, hcompleted report.ready⟩

/-- Two unanswered evaluations of one identity are the same. -/
theorem Current.eq_of_id (h : Current view) {u v : Unanswered F} (hu : u ∈ view.unanswered)
    (hv : v ∈ view.unanswered) (hid : u.evaluation.id = v.evaluation.id) : u = v :=
  List.inj_on_of_nodup_map h.distinct hu hv hid

theorem Current.completeEvaluation (h : Current view) {index : Nat} {answered : Unanswered F}
    (hanswered : view.unanswered[index]? = some answered)
    (result : Except String (ScrollReport F)) :
    Current { state := (view.state.completeEvaluation f64 answered.evaluation result).2
              unanswered := view.unanswered.eraseIdx index } := by
  have hmem := List.mem_of_getElem? hanswered
  obtain ⟨hgeneration, hnext, hevaluations, hrestore, hcompleted⟩ :=
    completeEvaluation_fields f64 view.state answered.evaluation result
  -- the others stay, and they have other identities
  have hothers : ∀ u, u ∈ view.unanswered.eraseIdx index ↔
      u ∈ view.unanswered ∧ u.evaluation.id ≠ answered.evaluation.id := by
    intro u
    have hperm : view.unanswered.Perm (answered :: view.unanswered.eraseIdx index) := by
      obtain ⟨hlt, hget⟩ := List.getElem?_eq_some_iff.1 hanswered
      rw [← hget]
      exact (List.getElem_cons_eraseIdx_perm hlt).symm
    have hnodup := (hperm.map fun u => u.evaluation.id).nodup_iff.1 h.distinct
    rw [List.map_cons, List.nodup_cons] at hnodup
    constructor
    · intro hu
      refine ⟨List.mem_of_mem_eraseIdx hu, fun hid => hnodup.1 ?_⟩
      exact List.mem_map.2 ⟨u, hu, hid⟩
    · rintro ⟨hu, hid⟩
      rcases List.mem_cons.1 (hperm.mem_iff.1 hu) with rfl | hu
      · exact absurd rfl hid
      · exact hu
  have hheld : ∀ e, e ∈ (view.state.settle answered.evaluation).evaluations ↔
      e ∈ view.state.evaluations ∧ e.id ≠ answered.evaluation.id := by
    intro e
    show e ∈ view.state.evaluations.filter _ ↔ _
    rw [List.mem_filter, decide_eq_true_iff]
  refine ⟨?_, ?_, ?_, ?_, ?_, ?_⟩
  · intro u hu
    show _ ≤ (view.state.completeEvaluation f64 answered.evaluation result).2.generation
    rw [hgeneration]
    exact h.generations u ((hothers u).1 hu).1
  · intro u hu
    show _ ≤ (view.state.completeEvaluation f64 answered.evaluation result).2.nextEvaluationId
    rw [hnext]
    exact h.ids u ((hothers u).1 hu).1
  · exact h.distinct.sublist ((List.eraseIdx_sublist view.unanswered index).map _)
  · intro e
    show e ∈ (view.state.completeEvaluation f64 answered.evaluation result).2.evaluations ↔
      e.generation = (view.state.completeEvaluation f64 answered.evaluation result).2.generation ∧
        _
    rw [hevaluations, hgeneration, hheld e, h.held e]
    constructor
    · rintro ⟨⟨hsame, u, hu, rfl⟩, hid⟩
      exact ⟨hsame, u, (hothers u).2 ⟨hu, hid⟩, rfl⟩
    · rintro ⟨hsame, u, hu, rfl⟩
      obtain ⟨hu, hid⟩ := (hothers u).1 hu
      exact ⟨⟨hsame, u, hu, rfl⟩, hid⟩
  · show (view.state.completeEvaluation f64 answered.evaluation result).2.completedGeneration ≤
      (view.state.completeEvaluation f64 answered.evaluation result).2.generation
    rw [hgeneration]
    rcases hcompleted with hcompleted | hcompleted
    · rw [hcompleted]
      exact h.completed
    · exact Nat.le_of_eq hcompleted
  · intro id hid
    show ∃ e ∈ (view.state.completeEvaluation f64 answered.evaluation result).2.evaluations, _
    rw [hevaluations]
    have hflight : (view.state.settle answered.evaluation).restoreInFlight = some id :=
      hrestore.symm.trans hid
    unfold LifecycleState.settle at hflight
    simp only at hflight
    split at hflight
    · exact absurd hflight (Option.some_ne_none id).symm
    · rename_i hother
      obtain ⟨e, he, rfl, hkind⟩ := h.restore id hflight
      refine ⟨e, (hheld e).2 ⟨he, fun hsame => hother ?_⟩, rfl, hkind⟩
      -- the restore in flight is of the current load, so its answer would have cleared it
      obtain ⟨hcurrent, u, hu, rfl⟩ := (h.held e).1 he
      obtain rfl := h.eq_of_id hu hmem hsame
      exact ⟨hcurrent, hflight⟩

theorem current_step (h : Current view) (hwrap : Unwrapped view event)
    (hstep : step f64 view event = some view') : Current view' := by
  -- One lemma for each operation of the view; only the evaluations need room in their counter.
  cases event with
  | beginLoad =>
    obtain rfl := Option.some.inj hstep
    exact h.beginLoad hwrap
  | evaluate kind =>
    simp only [step] at hstep
    split at hstep
    · exact absurd hstep (Option.some_ne_none _).symm
    · obtain rfl := Option.some.inj hstep
      exact (h.beginEvaluation hwrap kind none).1
  | queueRestore fraction =>
    obtain rfl := Option.some.inj hstep
    exact h.of_fields _ rfl rfl rfl rfl h.completed
  | dispatchReadyRestore =>
    simp only [step] at hstep
    cases hstart : view.state.beginReadyRestore with
    | none =>
      rw [hstart] at hstep
      obtain rfl := Option.some.inj hstep
      exact h
    | some started =>
      have hnext : view.state.nextEvaluationId < u64Max := hwrap (by rw [hstart]; rfl)
      obtain ⟨pending, -, hstarted⟩ := Option.bind_eq_some_iff.1 hstart
      split at hstarted
      · exact absurd hstarted (Option.some_ne_none _).symm
      · obtain rfl := Option.some.inj hstarted
        rw [hstart] at hstep
        obtain rfl := Option.some.inj hstep
        have hbegun := (h.beginEvaluation hnext .restore (some pending.fraction)).1
        refine ⟨hbegun.generations, hbegun.ids, hbegun.distinct, hbegun.held,
          hbegun.completed, ?_⟩
        intro id hid
        obtain rfl := Option.some.inj hid
        exact ⟨_, List.mem_cons_self, rfl, rfl⟩
  | recordReport report =>
    obtain rfl := Option.some.inj hstep
    exact h.recordReport report
  | completeEvaluation index result =>
    obtain ⟨answered, hanswered, rfl⟩ := Option.map_eq_some_iff.1 hstep
    exact h.completeEvaluation hanswered result

theorem current_run {trace : List (Lifecycle F × LifecycleEvent F)}
    (hrun : Transition.Run (Transition.Steps (step f64)) {} trace view)
    (hwrap : ∀ p ∈ trace, Unwrapped p.1 p.2) : Current view := by
  apply hrun.invariant_of_steps (G := Unwrapped) _ current_initial hwrap
  intro t e u ht hG hstep
  exact current_step ht hG hstep

/-! ## A superseded callback changes nothing -/

/-- An evaluation that the state no longer holds belongs to an earlier load. -/
theorem Current.superseded_iff (h : Current view) {u : Unanswered F} (hu : u ∈ view.unanswered) :
    Superseded view u.evaluation ↔ u.evaluation.generation ≠ view.state.generation := by
  constructor
  · rintro (hgeneration | hheld)
    · exact hgeneration
    · intro hgeneration
      exact hheld ((h.held _).2 ⟨hgeneration, u, hu, rfl⟩)
  · exact Or.inl

theorem Current.completeEvaluation_superseded (h : Current view) {u : Unanswered F}
    (hu : u ∈ view.unanswered) (hsuperseded : Superseded view u.evaluation)
    (result : Except String (ScrollReport F)) :
    (view.state.completeEvaluation f64 u.evaluation result).2 = view.state := by
  have hgeneration := (h.superseded_iff hu).1 hsuperseded
  have hkept : view.state.evaluations.filter (fun e => e.id ≠ u.evaluation.id) =
      view.state.evaluations := by
    apply List.filter_eq_self.2
    intro e he
    obtain ⟨hcurrent, v, hv, rfl⟩ := (h.held e).1 he
    refine decide_eq_true fun hid => hgeneration ?_
    rw [← h.eq_of_id hv hu hid]
    exact hcurrent
  have hsettled : view.state.settle u.evaluation = view.state := by
    unfold LifecycleState.settle
    rw [hkept, if_neg fun hboth => hgeneration hboth.1]
  unfold LifecycleState.completeEvaluation
  simp only
  rw [hsettled, if_pos hgeneration]

theorem recordReport_superseded {report : ScrollReport F}
    (hreport : report.generation ≠ view.state.generation) :
    (view.state.recordReport f64 report).2 = view.state := by
  unfold LifecycleState.recordReport
  rw [if_pos hreport]

/-- An answer that brings the report of an earlier load ends its evaluation and no more. -/
theorem completeEvaluation_snapshot (f64 : F64 F) (state : LifecycleState F)
    (evaluation : Evaluation) {report : ScrollReport F}
    (hreport : report.generation ≠ state.generation) :
    (state.completeEvaluation f64 evaluation (.ok report)).2.snapshot =
      { state.snapshot with
        evaluationPending := (state.settle evaluation).snapshot.evaluationPending } := by
  have hsettled : (state.completeEvaluation f64 evaluation (.ok report)).2 =
      state.settle evaluation := by
    unfold LifecycleState.completeEvaluation
    simp only
    split
    · rfl
    · split
      · rfl
      · rename_i hsame
        exact absurd (not_not.1 hsame) hreport
  rw [hsettled]
  rfl

/-- **Superseded callbacks.** In every run in which no counter wraps: a completion or failure of a
superseded evaluation and a report of an earlier load change nothing; the report of an earlier load
that a current evaluation brings changes nothing but whether an evaluation is pending; the completed
generation does not pass the current one; and the restore in flight is an evaluation of the current
load. -/
theorem superseded_run {trace : List (Lifecycle F × LifecycleEvent F)}
    (hrun : Transition.Run (Transition.Steps (step f64)) {} trace view)
    (hwrap : ∀ p ∈ trace, Unwrapped p.1 p.2) :
    (∀ index answered result next, view.unanswered[index]? = some answered →
      Superseded view answered.evaluation →
      step f64 view (.completeEvaluation index result) = some next → next.state = view.state) ∧
    (∀ report next, report.generation ≠ view.state.generation →
      step f64 view (.recordReport report) = some next → next.state = view.state) ∧
    (∀ index report next, report.generation ≠ view.state.generation →
      step f64 view (.completeEvaluation index (.ok report)) = some next →
      next.state.snapshot = { view.state.snapshot with
        evaluationPending := next.state.snapshot.evaluationPending }) ∧
    view.state.completedGeneration ≤ view.state.generation ∧
    ∀ id, view.state.restoreInFlight = some id → ∃ e ∈ view.state.evaluations,
      e.id = id ∧ e.kind = .restore ∧ e.generation = view.state.generation := by
  have hcurrent := current_run hrun hwrap
  refine ⟨?_, ?_, ?_, hcurrent.completed, ?_⟩
  · intro index answered result next hanswered hsuperseded hstep
    obtain ⟨answered', hanswered', rfl⟩ := Option.map_eq_some_iff.1 hstep
    obtain rfl := Option.some.inj (hanswered.symm.trans hanswered')
    exact hcurrent.completeEvaluation_superseded (List.mem_of_getElem? hanswered) hsuperseded
      result
  · intro report next hreport hstep
    obtain rfl := Option.some.inj hstep
    exact recordReport_superseded hreport
  · -- A current evaluation with an old report: the evaluation is settled, the report is not taken.
    intro index report next hreport hstep
    obtain ⟨answered, -, rfl⟩ := Option.map_eq_some_iff.1 hstep
    show LifecycleState.snapshot _ = _
    rw [completeEvaluation_snapshot f64 view.state answered.evaluation hreport]
  · intro id hid
    obtain ⟨e, he, hsame, hkind⟩ := hcurrent.restore id hid
    exact ⟨e, he, hsame, hkind, ((hcurrent.held e).1 he).1⟩

/-! ## After the end of a counter -/

theorem step_beginLoad (f64 : F64 F) (view : Lifecycle F) :
    step f64 view .beginLoad = some { view with state := view.state.beginLoad } := rfl

theorem loads_run (f64 : F64 F) (n : Nat) (hn : n ≤ u64Max) : ∃ trace view,
    Transition.Run (Transition.Steps (step f64)) {} trace view ∧ view.state.generation = n := by
  induction n with
  | zero => exact ⟨[], {}, .nil, rfl⟩
  | succ n ih =>
    obtain ⟨trace, view, hrun, hgeneration⟩ := ih (by omega)
    refine ⟨_, _, hrun.snoc (step_beginLoad f64 view), ?_⟩
    show (checkedSucc view.state.generation).getD 1 = n + 1
    rw [hgeneration, checkedSucc_of_lt (by omega), Option.getD_some]

/-- The probe that started before the first load is unanswered, and each later probe, up to the
identity `n`, has failed. -/
def failedProbes (F : Type*) (n : Nat) : Lifecycle F :=
  { state := { generation := 1, nextEvaluationId := n, lastError := some "" }
    unanswered := [⟨⟨1, 0, .probe⟩, none⟩] }

/-- A probe of the identity `n` has started after those. -/
def probing (F : Type*) (n : Nat) : Lifecycle F :=
  { state := { generation := 1, nextEvaluationId := n, evaluations := [⟨n, 1, .probe⟩],
               lastError := some "" }
    unanswered := [⟨⟨1, 0, .probe⟩, none⟩, ⟨⟨n, 1, .probe⟩, none⟩] }

theorem step_failedProbes (f64 : F64 F) (n : Nat) :
    step f64 (failedProbes F n) (.evaluate .probe) =
      some (probing F ((checkedSucc n).getD 1)) := rfl

theorem step_probing (f64 : F64 F) (n : Nat) :
    step f64 (probing F n) (.completeEvaluation 1 (.error "")) = some (failedProbes F n) := by
  have hsettled : (probing F n).state.settle ⟨n, 1, .probe⟩ =
      { (probing F n).state with evaluations := [] } := by
    simp [LifecycleState.settle, probing]
  show some ({ state := ((probing F n).state.completeEvaluation f64 ⟨n, 1, .probe⟩ _).2
               unanswered := _ } : Lifecycle F) = _
  unfold LifecycleState.completeEvaluation
  rw [hsettled]
  rfl

theorem failedProbes_run (f64 : F64 F) (n : Nat) (hn : n + 2 ≤ u64Max) : ∃ trace,
    Transition.Run (Transition.Steps (step f64)) {} trace (failedProbes F (n + 2)) := by
  induction n with
  | zero =>
    have hexec : Transition.exec (step f64) {} [.evaluate .probe, .beginLoad, .evaluate .probe,
        .completeEvaluation 1 (.error "")] = some (failedProbes F 2) := rfl
    exact ⟨_, Transition.run_of_exec _ hexec⟩
  | succ n ih =>
    obtain ⟨trace, hrun⟩ := ih (by omega)
    have hevaluate := step_failedProbes f64 (n + 2)
    rw [checkedSucc_of_lt (by omega), Option.getD_some] at hevaluate
    exact ⟨_, (hrun.snoc hevaluate).snoc (step_probing f64 (n + 3))⟩

/-- The report of a page that is ready. -/
def readyPage (generation : Nat) : ScrollReport ℚ :=
  { generation := generation, ready := true, y := 0, h := 0, c := 0, images := ⟨0, 0, 0, 0⟩,
    appearance := none }

/-- The last load before the counter starts again is completed, and the next load begins: the
completed generation exceeds the current one. Of two probes of one identity the superseded one
fails, and the current one is forgotten. And a current probe that runs in the page of the load
before ends. -/
theorem superseded_changes :
    (∃ trace view, Transition.Run (Transition.Steps (step rationalF64)) {} trace view ∧
      view.state.generation < view.state.completedGeneration) ∧
    (∃ trace view answered next,
      Transition.Run (Transition.Steps (step rationalF64)) {} trace view ∧
      view.unanswered[0]? = some answered ∧ Superseded view answered.evaluation ∧
      step rationalF64 view (.completeEvaluation 0 (.error "")) = some next ∧
      next.state.snapshot ≠ view.state.snapshot) ∧
    ∃ trace view report next,
      Transition.Run (Transition.Steps (step rationalF64)) {} trace view ∧
      report.generation < view.state.generation ∧
      step rationalF64 view (.completeEvaluation 0 (.ok report)) = some next ∧
      next.state.snapshot ≠ view.state.snapshot := by
  refine ⟨?_, ?_, ?_⟩
  · obtain ⟨trace, view, hrun, hgeneration⟩ := loads_run rationalF64 u64Max (Nat.le_refl _)
    have hreport : step rationalF64 view (.recordReport (readyPage u64Max)) =
        some { view with state := view.state.applyReport rationalF64 (readyPage u64Max) } := by
      show some ({ view with
        state := (view.state.recordReport rationalF64 (readyPage u64Max)).2 } : Lifecycle ℚ) = _
      have hsame : ¬ (readyPage u64Max).generation ≠ view.state.generation :=
        not_not.2 hgeneration.symm
      unfold LifecycleState.recordReport
      rw [if_neg hsame]
    refine ⟨_, _, (hrun.snoc hreport).snoc (step_beginLoad rationalF64 _), ?_⟩
    show (checkedSucc view.state.generation).getD 1 < u64Max
    rw [hgeneration]
    decide
  · obtain ⟨trace, hrun⟩ := failedProbes_run rationalF64 (u64Max - 2) (by decide)
    have hevaluate := step_failedProbes rationalF64 (u64Max - 2 + 2)
    refine ⟨_, probing ℚ 1, _, _, hrun.snoc hevaluate, rfl, Or.inl (by decide), rfl, ?_⟩
    intro hsame
    have hpending := congrArg HtmlViewLifecycleSnapshot.evaluationPending hsame
    exact absurd hpending (by decide)
  · have hexec : Transition.exec (step rationalF64) {} [.beginLoad, .evaluate .probe] =
        some { state := { generation := 1, nextEvaluationId := 1,
                          evaluations := [⟨1, 1, .probe⟩] }
               unanswered := [⟨⟨1, 1, .probe⟩, none⟩] } := rfl
    refine ⟨_, _, readyPage 0, _, Transition.run_of_exec _ hexec, Nat.zero_lt_one, rfl, ?_⟩
    intro hsame
    have hpending := congrArg HtmlViewLifecycleSnapshot.evaluationPending hsame
    exact absurd hpending (by decide)

/-- A probe starts before anything is loaded. -/
def firstProbe : Lifecycle ℚ :=
  { state := { nextEvaluationId := 1, evaluations := [⟨1, 0, .probe⟩] }
    unanswered := [⟨⟨1, 0, .probe⟩, none⟩] }

/-- A probe starts, the document is replaced, and the probe fails: nothing changes. -/
theorem superseded_run_reload : ∃ view next : Lifecycle ℚ,
    step rationalF64 view (.completeEvaluation 0 (.error "gone")) = some next ∧
      next.state = view.state ∧ view.state.completedGeneration ≤ view.state.generation := by
  have hrun : Transition.Run (Transition.Steps (step rationalF64)) {}
      (([] ++ [(({} : Lifecycle ℚ), .evaluate .probe)]) ++
        [(firstProbe, .beginLoad)]) { firstProbe with state := firstProbe.state.beginLoad } :=
    (Transition.Run.nil.snoc rfl).snoc rfl
  have hwrap : ∀ p ∈ (([] ++ [(({} : Lifecycle ℚ), .evaluate .probe)]) ++
      [(firstProbe, .beginLoad)]), Unwrapped p.1 p.2 := by
    intro p hp
    simp only [List.nil_append, List.singleton_append, List.mem_cons, List.not_mem_nil, or_false]
      at hp
    rcases hp with rfl | rfl
    · show 0 < u64Max
      decide
    · show 0 < u64Max
      decide
  obtain ⟨hanswer, -, -, hcompleted, -⟩ := superseded_run hrun hwrap
  exact ⟨_, _, rfl, hanswer 0 _ _ _ rfl (Or.inl (by decide)) rfl, hcompleted⟩

end Lifecycle

end Notm.Ui
