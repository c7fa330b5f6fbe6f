import Notm.Lib.Transition

/-!
# Programs that share a state

A program performs operations on a state that it shares with other programs, and each of them may
run between any two operations of another. What an operation answers is decided by the state and by
a choice of the environment.

The rules of pre- and postconditions are those of a program among others: `I` holds of the shared
state whenever no operation is under way, and the order of the states says what may become of one.
An assertion about a program is about every state that the others may have made of the one that it
left.

* `Ensures.bind`, `Ensures.call`, `Ensures.loop` — the rules for a sequence, an operation and a
  loop.
* `Ensures.later` — an assertion survives what the other programs do, the frame rule of this logic.
* `Processes.Sound.step`, `Processes.Sound.run` — programs that each ensure their postcondition keep
  doing so in any interleaving.
* `Processes.Sound.result` — what is known of a process that has returned.
-/

/-- A result, a failure, or an operation and what follows each of its answers. -/
inductive Program (O : Type) (A : O → Type) (E α : Type) where
  | done (value : α)
  | fail (error : E)
  | perform (op : O) (next : A op → Program O A E α)

namespace Program

variable {O : Type} {A : O → Type} {E α β γ : Type}

def bind : Program O A E α → (α → Program O A E β) → Program O A E β
  | done value, rest => rest value
  | fail error, _ => fail error
  | perform op next, rest => perform op fun answer => (next answer).bind rest

instance : Monad (Program O A E) where
  pure := done
  bind := bind

/-- The program of one operation. -/
def call (op : O) : Program O A E (A op) := perform op done

/-- `?` on what has been answered. -/
def ofExcept : Except E α → Program O A E α
  | .ok value => done value
  | .error error => fail error

/-- `anyhow::ensure!`. -/
def ensure (condition : Bool) (error : E) : Program O A E Unit :=
  bif condition then done () else fail error

/-! ## Pre- and postconditions -/

section Rules

variable {ι σ C : Type} [Preorder σ] (act : ι → σ → (op : O) → C → Option (A op × σ))
  (I : σ → Prop)

/-- From `s` on `P` holds, whatever the programs do. -/
def Always (s : σ) (P : σ → Prop) : Prop := ∀ t, s ≤ t → I t → P t

/-- From `s` on, each operation of the program keeps `I` and moves the state upwards, whatever the
other programs do meanwhile, and `Q` always holds of the result. -/
def Ensures (i : ι) (Q : σ → α → Prop) : Program O A E α → σ → Prop
  | done value, s => Always I s fun t => Q t value
  | fail _, _ => True
  | perform op next, s => Always I s fun t => ∀ c answer u, act i t op c = some (answer, u) →
      I u ∧ t ≤ u ∧ Ensures i Q (next answer) u

variable {act I} {i : ι} {Q : σ → α → Prop} {Q' : σ → β → Prop} {s t : σ}
  {program : Program O A E α}

theorem Always.later {P : σ → Prop} (h : Always I s P) (hle : s ≤ t) : Always I t P :=
  fun u htu => h u (hle.trans htu)

/-- An assertion survives what the others do. -/
theorem Ensures.later (h : Ensures act I i Q program s) (hle : s ≤ t) :
    Ensures act I i Q program t := by
  cases program with
  | done value => exact Always.later h hle
  | fail error => trivial
  | perform op next => exact Always.later h hle

/-- What follows a program starts in a later state, with the postcondition of the program. -/
theorem Ensures.bind {rest : α → Program O A E β} (hs : I s) (h : Ensures act I i Q program s)
    (hrest : ∀ t value, s ≤ t → I t → Always I t (Q · value) →
      Ensures act I i Q' (rest value) t) :
    Ensures act I i Q' (program >>= rest) s := by
  induction program generalizing s with
  | done value => exact hrest s value le_rfl hs h
  | fail error => trivial
  | perform op next ih =>
    intro t hst ht c answer u hact
    obtain ⟨hu, htu, hnext⟩ := h t hst ht c answer u hact
    refine ⟨hu, htu, ih answer hu hnext ?_⟩
    exact fun v value huv => hrest v value ((hst.trans htu).trans huv)

theorem Ensures.pure {value : α} (h : Always I s (Q · value)) :
    Ensures act I i Q (pure value : Program O A E α) s := h

/-- One operation. -/
theorem Ensures.call {op : O} {Q : σ → A op → Prop}
    (h : ∀ t, s ≤ t → I t → ∀ c answer u, act i t op c = some (answer, u) →
      I u ∧ t ≤ u ∧ Always I u (Q · answer)) :
    Ensures act I i Q (call op : Program O A E (A op)) s := h

theorem Ensures.ofExcept {result : Except E α}
    (h : ∀ value, result = .ok value → Always I s (Q · value)) :
    Ensures act I i Q (ofExcept result : Program O A E α) s := by
  cases result with
  | error error => trivial
  | ok value => exact h value rfl

theorem Ensures.ensure {condition : Bool} {error : E} :
    Ensures act I i (fun _ _ => condition = true) (ensure condition error : Program O A E Unit)
      s := by
  cases condition with
  | false => trivial
  | true => exact fun t _ _ => rfl

/-- A weaker postcondition. -/
theorem Ensures.weaken {Q' : σ → α → Prop} (h : Ensures act I i Q program s)
    (hQ : ∀ t value, s ≤ t → I t → Q t value → Q' t value) : Ensures act I i Q' program s := by
  induction program generalizing s with
  | done value => exact fun t hst ht => hQ t value hst ht (h t hst ht)
  | fail error => trivial
  | perform op next ih =>
    intro t hst ht c answer u hact
    obtain ⟨hu, htu, hnext⟩ := h t hst ht c answer u hact
    exact ⟨hu, htu, ih answer hnext fun v value huv => hQ v value ((hst.trans htu).trans huv)⟩

/-- A loop over a list that is under way: `J` says what has come of the elements behind it. -/
theorem Ensures.loop_from {body : β → γ → Program O A E β} (J : List γ → σ → β → Prop)
    {all : List γ} (hbody : ∀ before x acc t, x ∈ all → s ≤ t → I t → Always I t (J before · acc) →
      Ensures act I i (J (before ++ [x])) (body acc x) t)
    {before xs : List γ} {acc : β} (hxs : xs ⊆ all) (hst : s ≤ t) (ht : I t)
    (hacc : Always I t (J before · acc)) :
    Ensures act I i (J (before ++ xs)) (xs.foldlM body acc) t := by
  induction xs generalizing before acc t with
  | nil =>
    rw [List.append_nil]
    exact Ensures.pure hacc
  | cons x xs ih =>
    obtain ⟨hx, hxs⟩ := List.cons_subset.1 hxs
    rw [List.foldlM_cons, List.append_cons]
    refine Ensures.bind ht (hbody before x acc t hx hst ht hacc) ?_
    exact fun u acc htu hu hacc => ih hxs (hst.trans htu) hu hacc

/-- A loop over a list, from its start. -/
theorem Ensures.loop {body : β → γ → Program O A E β} {xs : List γ} {init : β}
    (J : List γ → σ → β → Prop) (hs : I s) (hinit : Always I s (J [] · init))
    (hbody : ∀ before x acc t, x ∈ xs → s ≤ t → I t → Always I t (J before · acc) →
      Ensures act I i (J (before ++ [x])) (body acc x) t) :
    Ensures act I i (J xs) (xs.foldlM body init) s :=
  Ensures.loop_from J hbody (List.Subset.refl xs) le_rfl hs hinit

end Rules

/-! ## Many programs -/

/-- A program that was started: for what, in which state of what is shared, and what is left. -/
structure Process (σ R : Type) (O : Type) (A : O → Type) (E α : Type) where
  request : R
  began : σ
  program : Program O A E α

/-- The result of a program that has one. -/
def result : Program O A E α → Option α
  | done value => some value
  | fail _ | perform _ _ => none

theorem result_eq_some {program : Program O A E α} {value : α}
    (h : program.result = some value) : program = done value := by
  cases program with
  | done value' => exact congrArg done (Option.some.inj h)
  | fail error => exact absurd h (Option.some_ne_none _).symm
  | perform op next => exact absurd h (Option.some_ne_none _).symm

/-- What is shared, and the programs in the order of their start. -/
structure Processes (σ R : Type) (O : Type) (A : O → Type) (E α : Type) where
  shared : σ
  started : List (Process σ R O A E α)

/-- What may happen: a program is started, a program performs its next operation, or something
outside changes what is shared. -/
inductive ProcessEvent (R C D : Type) where
  | start (request : R)
  | perform (i : Nat) (choice : C)
  | outside (change : D)

section Processes

variable {σ R C D : Type} (body : R → Program O A E α)
  (act : Nat → σ → (op : O) → C → Option (A op × σ)) (change : σ → D → Option σ)

/-- The next operation of a process. -/
def Process.perform (i : Nat) (process : Process σ R O A E α) (shared : σ) (choice : C) :
    Option (Process σ R O A E α × σ) :=
  match process.program with
  | .perform op next =>
    (act i shared op choice).map fun answer => ({ process with program := next answer.1 }, answer.2)
  | .done _ | .fail _ => none

def Processes.step (p : Processes σ R O A E α) :
    ProcessEvent R C D → Option (Processes σ R O A E α)
  | .start request =>
    some { p with started := p.started ++ [⟨request, p.shared, body request⟩] }
  | .perform i choice =>
    p.started[i]?.bind fun process =>
      (process.perform act i p.shared choice).map fun answer =>
        { shared := answer.2, started := p.started.set i answer.1 }
  | .outside d => (change p.shared d).map fun shared => { p with shared := shared }

variable {body act change}

/-- A step starts one process at most, in the state that it finds, and leaves the start of the
others as it is. -/
theorem Processes.began_of_step {p p' : Processes σ R O A E α} {event : ProcessEvent R C D}
    (hstep : p.step body act change event = some p') {i : Nat} {process' : Process σ R O A E α}
    (hprocess' : p'.started[i]? = some process') :
    (∃ process, p.started[i]? = some process ∧ process'.began = process.began) ∨
      (p.started.length ≤ i ∧ process'.began = p.shared) := by
  cases event with
  | start request =>
    obtain rfl := Option.some.inj hstep
    rcases Nat.lt_or_ge i p.started.length with hlt | hge
    · rw [List.getElem?_append_left hlt] at hprocess'
      exact Or.inl ⟨process', hprocess', rfl⟩
    · rw [List.getElem?_append_right hge] at hprocess'
      obtain rfl := List.mem_singleton.1 (List.mem_of_getElem? hprocess')
      exact Or.inr ⟨hge, rfl⟩
  | perform j choice =>
    obtain ⟨process, hprocess, hstep⟩ := Option.bind_eq_some_iff.1 hstep
    obtain ⟨answer, hanswer, rfl⟩ := Option.map_eq_some_iff.1 hstep
    by_cases hij : j = i
    · subst hij
      -- The process that moves keeps its start, for only what is left of its program changes.
      have hlt : j < p.started.length := (List.getElem?_eq_some_iff.1 hprocess).1
      rw [List.getElem?_set_self hlt] at hprocess'
      obtain rfl := Option.some.inj hprocess'
      refine Or.inl ⟨process, hprocess, ?_⟩
      unfold Process.perform at hanswer
      split at hanswer
      · obtain ⟨_, _, rfl⟩ := Option.map_eq_some_iff.1 hanswer
        rfl
      · exact absurd hanswer (Option.some_ne_none _).symm
      · exact absurd hanswer (Option.some_ne_none _).symm
    · rw [List.getElem?_set_ne hij] at hprocess'
      exact Or.inl ⟨process', hprocess', rfl⟩
  | outside d =>
    obtain ⟨shared, -, rfl⟩ := Option.map_eq_some_iff.1 hstep
    exact Or.inl ⟨process', hprocess', rfl⟩

variable [Preorder σ] {I : σ → Prop} {Q : Nat → R → σ → σ → α → Prop}

/-- What holds of processes whose programs do what they are to ensure. -/
structure Processes.Sound (act : Nat → σ → (op : O) → C → Option (A op × σ)) (I : σ → Prop)
    (Q : Nat → R → σ → σ → α → Prop) (p : Processes σ R O A E α) : Prop where
  shared : I p.shared
  began : ∀ (i : Nat) process, p.started[i]? = some process →
    I process.began ∧ process.began ≤ p.shared
  ensures : ∀ (i : Nat) process, p.started[i]? = some process →
    Ensures act I i (Q i process.request process.began) process.program p.shared

/-- The start of a process is below what is shared after a step that moves that upwards. -/
theorem Processes.Sound.began_le {p p' : Processes σ R O A E α} (h : p.Sound act I Q)
    {event : ProcessEvent R C D} (hstep : p.step body act change event = some p')
    (hle : p.shared ≤ p'.shared) (i : Nat) (process' : Process σ R O A E α)
    (hprocess' : p'.started[i]? = some process') : I process'.began ∧
      process'.began ≤ p'.shared := by
  rcases began_of_step hstep hprocess' with ⟨process, hprocess, heq⟩ | ⟨-, heq⟩
  · rw [heq]
    exact ⟨(h.began i process hprocess).1, (h.began i process hprocess).2.trans hle⟩
  · rw [heq]
    exact ⟨h.shared, hle⟩

/-- One step, of any of them. -/
theorem Processes.Sound.step {p p' : Processes σ R O A E α} (h : p.Sound act I Q)
    (hbody : ∀ i request s, I s → Ensures act I i (Q i request s) (body request) s)
    (hchange : ∀ s d t, I s → change s d = some t → I t ∧ s ≤ t)
    {event : ProcessEvent R C D} (hstep : p.step body act change event = some p') :
    p'.Sound act I Q ∧ p.shared ≤ p'.shared := by
  have hbegan := h.began_le hstep
  cases event with
  | start request =>
    obtain rfl := Option.some.inj hstep
    refine ⟨⟨h.shared, hbegan le_rfl, ?_⟩, le_rfl⟩
    intro i process hprocess
    rcases Nat.lt_or_ge i p.started.length with hlt | hge
    · rw [List.getElem?_append_left hlt] at hprocess
      exact h.ensures i process hprocess
    · rw [List.getElem?_append_right hge] at hprocess
      obtain rfl := List.mem_singleton.1 (List.mem_of_getElem? hprocess)
      -- a new program starts from the shared state of now
      exact hbody i request p.shared h.shared
  | perform i choice =>
    obtain ⟨process, hprocess, hstep⟩ := Option.bind_eq_some_iff.1 hstep
    obtain ⟨answer, hanswer, rfl⟩ := Option.map_eq_some_iff.1 hstep
    obtain ⟨request, began, program⟩ := process
    cases program with
    | done value => exact absurd hanswer (by simp [Process.perform])
    | fail error => exact absurd hanswer (by simp [Process.perform])
    | perform op next =>
      obtain ⟨⟨value, u⟩, hact, rfl⟩ := Option.map_eq_some_iff.1 hanswer
      obtain ⟨hu, hle, hnext⟩ :=
        h.ensures i _ hprocess p.shared le_rfl h.shared choice value u hact
      refine ⟨⟨hu, hbegan hle, ?_⟩, hle⟩
      intro j other hother
      by_cases hij : i = j
      · subst hij
        have hlt : i < p.started.length := (List.getElem?_eq_some_iff.1 hprocess).1
        rw [List.getElem?_set_self hlt] at hother
        obtain rfl := Option.some.inj hother
        exact hnext
      · rw [List.getElem?_set_ne hij] at hother
        -- what the moving program has done is one more thing that the others have to allow for
        exact (h.ensures j other hother).later hle
  | outside d =>
    obtain ⟨shared, hshared, rfl⟩ := Option.map_eq_some_iff.1 hstep
    obtain ⟨hI, hle⟩ := hchange p.shared d shared h.shared hshared
    exact ⟨⟨hI, hbegan hle, fun i process hprocess => (h.ensures i process hprocess).later hle⟩,
      hle⟩

/-- Every run, whatever the order of the operations; a process that is started in its course begins
above the state at its start. It is by induction on the run from `Sound.step`. -/
theorem Processes.Sound.run {p p' : Processes σ R O A E α}
    {trace : List (Processes σ R O A E α × ProcessEvent R C D)} (h : p.Sound act I Q)
    (hbody : ∀ i request s, I s → Ensures act I i (Q i request s) (body request) s)
    (hchange : ∀ s d t, I s → change s d = some t → I t ∧ s ≤ t)
    (hrun : Transition.Run (Transition.Steps fun p e => p.step body act change e) p trace p') :
    p'.Sound act I Q ∧ p.shared ≤ p'.shared ∧ ∀ (i : Nat) process,
      p.started.length ≤ i → p'.started[i]? = some process → p.shared ≤ process.began := by
  refine hrun.invariant (I := fun q => q.Sound act I Q ∧ p.shared ≤ q.shared ∧ ∀ (i : Nat) process,
    p.started.length ≤ i → q.started[i]? = some process → p.shared ≤ process.began) ?_
    ⟨h, le_rfl, ?_⟩
  · rintro q event q' ⟨hq, hle, hbegan⟩ hstep
    obtain ⟨hsound, hstep_le⟩ := hq.step hbody hchange hstep
    refine ⟨hsound, hle.trans hstep_le, fun i process' hi hprocess' => ?_⟩
    rcases began_of_step hstep hprocess' with ⟨process, hprocess, heq⟩ | ⟨-, heq⟩
    · rw [heq]
      exact hbegan i process hi hprocess
    · rw [heq]
      exact hle
  · intro i process hi hprocess
    exact absurd (List.getElem?_eq_some_iff.1 hprocess).1 (Nat.not_lt.2 hi)

/-- A process that has a result has what it was to ensure. -/
theorem Processes.Sound.result {p : Processes σ R O A E α} (h : p.Sound act I Q) {i : Nat}
    {process : Process σ R O A E α} {value : α} (hprocess : p.started[i]? = some process)
    (hresult : process.program.result = some value) :
    Q i process.request process.began p.shared value := by
  have hensures := h.ensures i process hprocess
  rw [result_eq_some hresult] at hensures
  exact hensures p.shared le_rfl h.shared

end Processes

end Program
