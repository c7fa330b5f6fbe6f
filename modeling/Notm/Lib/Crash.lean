import Mathlib

/-!
# Programs whose operations fail, and processes that stop

A program works on a state by operations that can fail or be the last thing the process does. What
each of them meets is a function of its label, so a statement about all such functions is one
about every point of failure. An operation that does not come to its end can leave some of its
work behind.

`Meets` is what a run of a program guarantees for its three ends: a result, an error, and a
process that stopped. The rules below follow the program's text.

Main definitions and rules:

* `Prog.op` is one operation with its effect and what it leaves half done; `Prog.session` is work
  that lasts only once it is committed;
* `Prog.meets_andThen`, `Prog.meets_attempt`, `Prog.meets_forEach` are the rules of `Meets`;
* `EndsBy` is a run whose end one fault decides, and `EndsBy.session` the rule for a session;
* `Follows` is a run through a list of operations, and `Commits` one that leaves something else
  behind after a certain point than before it.
-/

namespace Crash

/-- What an operation meets; the number says how far it came before. -/
inductive Fault where
  | passes
  | fails (progress : Nat)
  | stops (progress : Nat)
deriving DecidableEq

/-- How a program ends: with a value, with an error, or because the process stops. -/
inductive Outcome (ε α : Type*) where
  | ok (a : α)
  | error (e : ε)
  | stopped
deriving DecidableEq

/-- A program with operations labelled by `L` on states `σ`. -/
def Prog (L σ ε α : Type*) := (L → Fault) → σ → Outcome ε α × σ

variable {L L' σ τ ε ε' α β : Type*}

namespace Prog

def ret (a : α) : Prog L σ ε α := fun _ s => (.ok a, s)

/-- A program that fails. -/
def raise (e : ε) : Prog L σ ε α := fun _ s => (.error e, s)

def andThen (p : Prog L σ ε α) (f : α → Prog L σ ε β) : Prog L σ ε β := fun faults s =>
  match p faults s with
  | (.ok a, t) => f a faults t
  | (.error e, t) => (.error e, t)
  | (.stopped, t) => (.stopped, t)

instance : Monad (Prog L σ ε) where
  pure := ret
  bind := andThen

/-- One operation: its effect when it passes, the error when it fails, and what it leaves behind
when it does not come to its end. -/
def op (label : L) (failure : ε) (effect : σ → Except ε (α × σ)) (progress : σ → Nat → σ) :
    Prog L σ ε α := fun faults s =>
  match faults label with
  | .passes =>
    match effect s with
    | .ok (a, t) => (.ok a, t)
    | .error e => (.error e, s)
  | .fails n => (.error failure, progress s n)
  | .stops n => (.stopped, progress s n)

def mapError (f : ε → ε') (p : Prog L σ ε α) : Prog L σ ε' α := fun faults s =>
  match p faults s with
  | (.ok a, t) => (.ok a, t)
  | (.error e, t) => (.error (f e), t)
  | (.stopped, t) => (.stopped, t)

/-- The error of a program as a value. -/
def attempt (p : Prog L σ ε α) : Prog L σ ε' (Except ε α) := fun faults s =>
  match p faults s with
  | (.ok a, t) => (.ok (.ok a), t)
  | (.error e, t) => (.ok (.error e), t)
  | (.stopped, t) => (.stopped, t)

/-- The program with other labels for its operations. -/
def relabel (f : L → L') (p : Prog L σ ε α) : Prog L' σ ε α := fun faults => p (faults ∘ f)

/-- A pure step. -/
def ofExcept (x : Except ε α) : Prog L σ ε α :=
  match x with
  | .ok a => ret a
  | .error e => raise e

/-- The program on a part of the state. -/
def zoom (get : τ → σ) (set : τ → σ → τ) (p : Prog L σ ε α) : Prog L τ ε α := fun faults s =>
  ((p faults (get s)).1, set s (p faults (get s)).2)

/-- **Work that lasts once it is committed.** The commit comes however the work ends, with a result
or with an error, and nobody is told whether it has failed. Where it fails, and where the process
stops before it has passed, `lose` says what is left, from the states before and after the work. -/
def session (commit : L) (lose : σ → σ → σ) (p : Prog L σ ε α) : Prog L σ ε α := fun faults s =>
  match p faults s with
  | (.stopped, t) => (.stopped, lose s t)
  | (outcome, t) =>
    match faults commit with
    | .passes => (outcome, t)
    | .fails _ => (outcome, lose s t)
    | .stops _ => (.stopped, lose s t)

/-- A loop over a list. -/
def forEach (body : α → Prog L σ ε Unit) : List α → Prog L σ ε Unit
  | [] => ret ()
  | a :: rest => andThen (body a) fun _ => forEach body rest

end Prog

/-! ## What a run guarantees -/

/-- `Q` of a result, `E` of an error, `C` of the state in which the process stopped. -/
def Meets (Q : α → σ → Prop) (E : ε → σ → Prop) (C : σ → Prop) : Outcome ε α × σ → Prop
  | (.ok a, t) => Q a t
  | (.error e, t) => E e t
  | (.stopped, t) => C t

variable {faults : L → Fault} {Q Q' : α → σ → Prop} {E E' : ε → σ → Prop} {C C' : σ → Prop}
  {R : β → σ → Prop} {s : σ}

theorem Meets.mono {end_ : Outcome ε α × σ} (h : Meets Q E C end_) (hQ : ∀ a t, Q a t → Q' a t)
    (hE : ∀ e t, E e t → E' e t) (hC : ∀ t, C t → C' t) : Meets Q' E' C' end_ := by
  obtain ⟨outcome, t⟩ := end_
  cases outcome with
  | ok a => exact hQ a t h
  | error e => exact hE e t h
  | stopped => exact hC t h

theorem meets_and {end_ : Outcome ε α × σ} (h : Meets Q E C end_) (h' : Meets Q' E' C' end_) :
    Meets (fun a t => Q a t ∧ Q' a t) (fun e t => E e t ∧ E' e t) (fun t => C t ∧ C' t) end_ := by
  obtain ⟨outcome, t⟩ := end_
  cases outcome with
  | ok a => exact ⟨h, h'⟩
  | error e => exact ⟨h, h'⟩
  | stopped => exact ⟨h, h'⟩

/-- Where each end decides its guarantee by the same condition, so does the run. -/
theorem Meets.iff {end_ : Outcome ε α × σ} {K : Prop}
    (h : Meets (fun a t => Q a t ↔ K) (fun e t => E e t ↔ K) (fun t => C t ↔ K) end_) :
    Meets Q E C end_ ↔ K := by
  obtain ⟨outcome, t⟩ := end_
  cases outcome with
  | ok a => exact h
  | error e => exact h
  | stopped => exact h

/-- What all three ends have in common. -/
theorem Meets.state {end_ : Outcome ε α × σ} {I : σ → Prop}
    (h : Meets (fun _ t => I t) (fun _ t => I t) I end_) : I end_.2 := by
  obtain ⟨outcome, t⟩ := end_
  cases outcome with
  | ok a => exact h
  | error e => exact h
  | stopped => exact h

theorem meets_of_state {end_ : Outcome ε α × σ} {I : σ → Prop} (h : I end_.2) :
    Meets (fun _ t => I t) (fun _ t => I t) I end_ := by
  obtain ⟨outcome, t⟩ := end_
  cases outcome with
  | ok a => exact h
  | error e => exact h
  | stopped => exact h

theorem Meets.of_ok {end_ : Outcome ε α × σ} (h : Meets Q E C end_) {a : α}
    (hend : end_.1 = .ok a) : Q a end_.2 := by
  obtain ⟨outcome, t⟩ := end_
  obtain rfl : outcome = .ok a := hend
  exact h

theorem Meets.of_error {end_ : Outcome ε α × σ} (h : Meets Q E C end_) {e : ε}
    (hend : end_.1 = .error e) : E e end_.2 := by
  obtain ⟨outcome, t⟩ := end_
  obtain rfl : outcome = .error e := hend
  exact h

namespace Prog

theorem meets_andThen {p : Prog L σ ε α} {f : α → Prog L σ ε β} (h : Meets Q E C (p faults s))
    (hf : ∀ a t, Q a t → Meets R E C (f a faults t)) :
    Meets R E C (andThen p f faults s) := by
  unfold andThen
  cases hp : p faults s with
  | mk outcome t =>
    rw [hp] at h
    cases outcome with
    | ok a => exact hf a t h
    | error e => exact h
    | stopped => exact h

theorem meets_op_faults {label : L} {failure : ε} {effect : σ → Except ε (α × σ)}
    {progress : σ → Nat → σ}
    (hok : faults label = .passes → ∀ a t, effect s = .ok (a, t) → Q a t)
    (herror : faults label = .passes → ∀ e, effect s = .error e → E e s)
    (hfails : ∀ n, faults label = .fails n → E failure (progress s n))
    (hstops : ∀ n, faults label = .stops n → C (progress s n)) :
    Meets Q E C (op label failure effect progress faults s) := by
  unfold op
  cases hfault : faults label with
  | passes =>
    simp only
    cases heffect : effect s with
    | ok end_ => exact hok hfault end_.1 end_.2 heffect
    | error e => exact herror hfault e heffect
  | fails n => exact hfails n hfault
  | stops n => exact hstops n hfault

theorem meets_op {label : L} {failure : ε} {effect : σ → Except ε (α × σ)}
    {progress : σ → Nat → σ} (hok : ∀ a t, effect s = .ok (a, t) → Q a t)
    (herror : ∀ e, effect s = .error e → E e s) (hfails : ∀ n, E failure (progress s n))
    (hstops : ∀ n, C (progress s n)) : Meets Q E C (op label failure effect progress faults s) :=
  meets_op_faults (fun _ => hok) (fun _ => herror) (fun n _ => hfails n) fun n _ => hstops n

theorem meets_op_passes {label : L} {failure : ε} {effect : σ → Except ε (α × σ)}
    {progress : σ → Nat → σ} (hfault : faults label = .passes)
    (hok : ∀ a t, effect s = .ok (a, t) → Q a t) (herror : ∀ e, effect s = .error e → E e s) :
    Meets Q E C (op label failure effect progress faults s) := by
  apply meets_op_faults (fun _ => hok) (fun _ => herror)
  · intro n hn
    rw [hfault] at hn
    cases hn
  · intro n hn
    rw [hfault] at hn
    cases hn

theorem meets_mapError {f : ε → ε'} {p : Prog L σ ε α} {E : ε' → σ → Prop}
    (h : Meets Q (fun e t => E (f e) t) C (p faults s)) : Meets Q E C (mapError f p faults s) := by
  unfold mapError
  cases hp : p faults s with
  | mk outcome t =>
    rw [hp] at h
    cases outcome with
    | ok a => exact h
    | error e => exact h
    | stopped => exact h

theorem meets_attempt {p : Prog L σ ε α} {Q : Except ε α → σ → Prop} {E : ε' → σ → Prop}
    (h : Meets (fun a t => Q (.ok a) t) (fun e t => Q (.error e) t) C (p faults s)) :
    Meets Q E C ((attempt p : Prog L σ ε' (Except ε α)) faults s) := by
  unfold attempt
  cases hp : p faults s with
  | mk outcome t =>
    rw [hp] at h
    cases outcome with
    | ok a => exact h
    | error e => exact h
    | stopped => exact h

theorem meets_zoom {get : τ → σ} {set : τ → σ → τ} {p : Prog L σ ε α} {s : τ}
    {Q : α → τ → Prop} {E : ε → τ → Prop} {C : τ → Prop}
    (h : Meets (fun a t => Q a (set s t)) (fun e t => E e (set s t)) (fun t => C (set s t))
      (p faults (get s))) : Meets Q E C (zoom get set p faults s) := by
  unfold zoom
  cases hp : p faults (get s) with
  | mk outcome t =>
    rw [hp] at h
    cases outcome with
    | ok a => exact h
    | error e => exact h
    | stopped => exact h

theorem meets_relabel {f : L → L'} {p : Prog L σ ε α} {faults : L' → Fault}
    (h : Meets Q E C (p (faults ∘ f) s)) : Meets Q E C (relabel f p faults s) := h

/-- The loop rule: each body keeps `I`, and all its ends do. -/
theorem meets_forEach {I : σ → Prop} {body : α → Prog L σ ε Unit} {list : List α}
    (hbody : ∀ a ∈ list, ∀ t, I t → Meets (fun _ => I) E C (body a faults t)) (hs : I s) :
    Meets (fun _ => I) E C (forEach body list faults s) := by
  induction list generalizing s with
  | nil => exact hs
  | cons a rest ih =>
    apply meets_andThen (hbody a List.mem_cons_self s hs)
    intro _ t ht
    exact ih (fun b hb => hbody b (List.mem_cons_of_mem _ hb)) ht

/-- The loop rule for what each body achieves and no other undoes. -/
theorem meets_forEach_each {I : σ → Prop} {A : α → σ → Prop} {body : α → Prog L σ ε Unit}
    {list : List α} (hbody : ∀ a ∈ list, ∀ t, I t →
      Meets (fun _ u => I u ∧ A a u ∧ ∀ b ∈ list, A b t → A b u) E C (body a faults t))
    (hs : I s) : Meets (fun _ t => I t ∧ ∀ a ∈ list, A a t) E C (forEach body list faults s) := by
  have hrest : ∀ rest done : List α, done ++ rest = list → ∀ t, I t → (∀ a ∈ done, A a t) →
      Meets (fun _ u => I u ∧ ∀ a ∈ list, A a u) E C (forEach body rest faults t) := by
    intro rest
    induction rest with
    | nil =>
      intro done hlist t ht hdone
      rw [← hlist, List.append_nil]
      exact ⟨ht, hdone⟩
    | cons a rest ih =>
      intro done hlist t ht hdone
      have hmem : ∀ b ∈ done ++ [a], b ∈ list := by
        intro b hb
        rw [← hlist, List.append_cons]
        exact List.mem_append_left _ hb
      have ha := hmem a (List.mem_append_right _ (List.mem_singleton_self _))
      apply meets_andThen (hbody a ha t ht)
      rintro - u ⟨hu, hachieved, hkept⟩
      rw [List.append_cons] at hlist
      apply ih (done ++ [a]) hlist u hu
      intro b hb
      rcases List.mem_append.1 hb with hdone' | hlast
      · exact hkept b (hmem b hb) (hdone b hdone')
      · obtain rfl := List.mem_singleton.1 hlast
        exact hachieved
  exact hrest list [] rfl s hs fun a ha => absurd ha List.not_mem_nil

end Prog

/-! ## Programs whose end one fault decides -/

/-- How two parts end, one after the other. -/
def Fault.andThen (first second : Fault) : Fault :=
  match first with
  | .passes => second
  | .fails n => .fails n
  | .stops n => .stops n

/-- How a session ends, by its work and its commit: the commit decides only where the process stops
in it. -/
def Fault.session (work commit : Fault) : Fault :=
  match work, commit with
  | .stops n, _ => .stops n
  | .passes, .stops n => .stops n
  | .fails _, .stops n => .stops n
  | work, _ => work

/-- The run ends as `fault` says: with `Q` when it passes, and with `E` otherwise. -/
def EndsBy (fault : Fault) (Q : α → σ → Prop) (E : σ → Prop) : Outcome ε α × σ → Prop :=
  Meets (fun a t => fault = .passes ∧ Q a t) (fun _ t => (∃ n, fault = .fails n) ∧ E t)
    fun t => (∃ n, fault = .stops n) ∧ E t

namespace EndsBy

variable {E E' : σ → Prop} {work : Fault}

theorem mono {end_ : Outcome ε α × σ} (h : EndsBy work Q E end_) (hQ : ∀ a t, Q a t → Q' a t)
    (hE : ∀ t, E t → E' t) : EndsBy work Q' E' end_ :=
  Meets.mono h (fun a t ht => ⟨ht.1, hQ a t ht.2⟩) (fun _ t ht => ⟨ht.1, hE t ht.2⟩)
    fun t ht => ⟨ht.1, hE t ht.2⟩

/-- One operation, which has nothing to fail at but its fault. -/
theorem op {label : L} {failure : ε} {effect : σ → Except ε (α × σ)} {progress : σ → Nat → σ}
    {a : α} {t : σ} (heffect : effect s = .ok (a, t)) (hQ : Q a t)
    (hE : ∀ n, E (progress s n)) :
    EndsBy (faults label) Q E (Prog.op label failure effect progress faults s) := by
  unfold Prog.op
  cases faults label with
  | passes =>
    rw [heffect]
    exact ⟨rfl, hQ⟩
  | fails n => exact ⟨⟨n, rfl⟩, hE n⟩
  | stops n => exact ⟨⟨n, rfl⟩, hE n⟩

theorem andThen {first second : Fault} {p : Prog L σ ε α} {f : α → Prog L σ ε β}
    (h : EndsBy first Q E (p faults s)) (hf : ∀ a t, Q a t → EndsBy second R E (f a faults t)) :
    EndsBy (first.andThen second) R E (Prog.andThen p f faults s) := by
  apply Prog.meets_andThen (Q := fun a t => first = .passes ∧ Q a t)
  · apply Meets.mono h
    · exact fun _ _ ht => ht
    · rintro _ t ⟨⟨n, rfl⟩, ht⟩
      exact ⟨⟨n, rfl⟩, ht⟩
    · rintro t ⟨⟨n, rfl⟩, ht⟩
      exact ⟨⟨n, rfl⟩, ht⟩
  · rintro a t ⟨rfl, ha⟩
    exact hf a t ha

/-- **The session rule.** When its work passes, a session leaves what the work has done if the
commit passes, and what is left of it if the commit fails: the result does not tell the two apart.
`E` has to outlast the loss of the changes. -/
theorem session {commit : L} {lose : σ → σ → σ} {p : Prog L σ ε α}
    (h : EndsBy work Q E (p faults s)) (herror : ∀ t, E t → E (lose s t))
    (hlost : ∀ a t, Q a t → E (lose s t)) :
    EndsBy (work.session (faults commit))
      (fun a t => faults commit = .passes ∧ Q a t ∨
        (∃ n, faults commit = .fails n) ∧ ∃ u, Q a u ∧ t = lose s u)
      E (Prog.session commit lose p faults s) := by
  unfold Prog.session
  cases hp : p faults s with
  | mk outcome t =>
    rw [hp] at h
    cases outcome with
    | ok a =>
      obtain ⟨rfl, ht⟩ := h
      cases hcommit : faults commit with
      | passes => exact ⟨rfl, Or.inl ⟨rfl, ht⟩⟩
      | fails n => exact ⟨rfl, Or.inr ⟨⟨n, rfl⟩, t, ht, rfl⟩⟩
      | stops n => exact ⟨⟨n, rfl⟩, hlost a t ht⟩
    | error e =>
      obtain ⟨⟨m, rfl⟩, ht⟩ := h
      cases hcommit : faults commit with
      | passes => exact ⟨⟨m, rfl⟩, ht⟩
      | fails n => exact ⟨⟨m, rfl⟩, herror t ht⟩
      | stops n => exact ⟨⟨n, rfl⟩, herror t ht⟩
    | stopped =>
      obtain ⟨⟨m, rfl⟩, ht⟩ := h
      exact ⟨⟨m, rfl⟩, herror t ht⟩

end EndsBy

/-! ## Programs that run through their operations -/

/-- The first of the operations that does not pass, as it does. -/
def firstFault (faults : L → Fault) : List L → Fault
  | [] => .passes
  | label :: rest => (faults label).andThen (firstFault faults rest)

theorem firstFault_singleton (faults : L → Fault) (label : L) :
    firstFault faults [label] = faults label := by
  show (faults label).andThen .passes = faults label
  cases faults label with
  | passes => rfl
  | fails n => rfl
  | stops n => rfl

theorem firstFault_append {labels rest : List L} :
    firstFault faults (labels ++ rest) =
      (firstFault faults labels).andThen (firstFault faults rest) := by
  induction labels with
  | nil => rfl
  | cons label labels ih =>
    show (faults label).andThen (firstFault faults (labels ++ rest)) =
      ((faults label).andThen (firstFault faults labels)).andThen (firstFault faults rest)
    cases faults label with
    | passes => exact ih
    | fails n => rfl
    | stops n => rfl

theorem firstFault_cons_of_passes {label : L} {rest : List L} (h : faults label = .passes) :
    firstFault faults (label :: rest) = firstFault faults rest := by
  show (faults label).andThen (firstFault faults rest) = _
  rw [h]
  rfl

theorem firstFault_pair_of_passes {first second : L} (h : faults first = .passes) :
    firstFault faults [first, second] = faults second := by
  rw [firstFault_cons_of_passes h, firstFault_singleton]

theorem firstFault_cons_of_fails {label : L} {rest : List L} {n : Nat}
    (h : faults label = .fails n) : firstFault faults (label :: rest) = .fails n := by
  show (faults label).andThen (firstFault faults rest) = _
  rw [h]
  rfl

theorem firstFault_cons_of_stops {label : L} {rest : List L} {n : Nat}
    (h : faults label = .stops n) : firstFault faults (label :: rest) = .stops n := by
  show (faults label).andThen (firstFault faults rest) = _
  rw [h]
  rfl

theorem firstFault_append_of_passes {labels rest : List L}
    (h : firstFault faults labels = .passes) :
    firstFault faults (labels ++ rest) = firstFault faults rest := by
  rw [firstFault_append, h]
  rfl

theorem firstFault_append_of_fails {labels rest : List L} {n : Nat}
    (h : firstFault faults labels = .fails n) : firstFault faults (labels ++ rest) = .fails n := by
  rw [firstFault_append, h]
  rfl

theorem firstFault_append_of_stops {labels rest : List L} {n : Nat}
    (h : firstFault faults labels = .stops n) : firstFault faults (labels ++ rest) = .stops n := by
  rw [firstFault_append, h]
  rfl

/-- The run ends as the first fault of the operations says. -/
def Follows (faults : L → Fault) (labels : List L) (Q : α → σ → Prop) (E : σ → Prop) :
    Outcome ε α × σ → Prop :=
  EndsBy (firstFault faults labels) Q E

namespace Follows

variable {labels labels' : List L} {E E' : σ → Prop}

theorem mono {end_ : Outcome ε α × σ} (h : Follows faults labels Q E end_)
    (hQ : ∀ a t, Q a t → Q' a t) (hE : ∀ t, E t → E' t) :
    Follows faults labels Q' E' end_ := EndsBy.mono h hQ hE

/-- One operation decides the end by its own fault. -/
theorem endsBy {end_ : Outcome ε α × σ} {label : L} (h : Follows faults [label] Q E end_) :
    EndsBy (faults label) Q E end_ := by
  rw [← firstFault_singleton faults label]
  exact h

theorem weaken {end_ : Outcome ε α × σ} (h : Follows faults labels Q E end_) :
    Meets Q (fun _ => E) E end_ :=
  Meets.mono h (fun _ _ ht => ht.2) (fun _ _ ht => ht.2) fun _ ht => ht.2

theorem ret {a : α} (h : Q a s) : Follows faults [] Q E ((Prog.ret a : Prog L σ ε α) faults s) :=
  ⟨rfl, h⟩

theorem op {label : L} {failure : ε} {effect : σ → Except ε (α × σ)} {progress : σ → Nat → σ}
    {a : α} {t : σ} (heffect : effect s = .ok (a, t)) (hQ : Q a t)
    (hE : ∀ n, E (progress s n)) :
    Follows faults [label] Q E (Prog.op label failure effect progress faults s) := by
  unfold Follows
  rw [firstFault_singleton]
  exact EndsBy.op heffect hQ hE

theorem andThen {p : Prog L σ ε α} {f : α → Prog L σ ε β} (h : Follows faults labels Q E
    (p faults s)) (hf : ∀ a t, Q a t → Follows faults labels' R E (f a faults t)) :
    Follows faults (labels ++ labels') R E (Prog.andThen p f faults s) := by
  unfold Follows
  rw [firstFault_append]
  exact EndsBy.andThen h hf

/-- The first operation, then the rest. -/
theorem cons {label : L} {p : Prog L σ ε α} {f : α → Prog L σ ε β}
    (h : Follows faults [label] Q E (p faults s))
    (hf : ∀ a t, Q a t → Follows faults labels' R E (f a faults t)) :
    Follows faults (label :: labels') R E (Prog.andThen p f faults s) := andThen h hf

theorem mapError {f : ε → ε'} {p : Prog L σ ε α} (h : Follows faults labels Q E (p faults s)) :
    Follows faults labels Q E (Prog.mapError f p faults s) := Prog.meets_mapError h

/-- A loop over a list runs through the operations of its bodies. -/
theorem forEach {body : β → Prog L σ ε Unit} {label : β → L} {list : List β}
    {I : σ → Prop} (hbody : ∀ b ∈ list, ∀ t, I t →
      Follows faults [label b] (fun _ => I) E (body b faults t)) (hs : I s) :
    Follows faults (list.map label) (fun _ => I) E (Prog.forEach body list faults s) := by
  induction list generalizing s with
  | nil => exact ⟨rfl, hs⟩
  | cons b rest ih =>
    rw [List.map_cons, ← List.singleton_append]
    apply Follows.andThen (hbody b List.mem_cons_self s hs)
    intro _ t ht
    exact ih (fun b' hb' => hbody b' (List.mem_cons_of_mem _ hb')) ht

end Follows

/-- The run goes through `before` and then `after`: what it leaves when it ends in the one or in the
other is not the same. -/
def Commits (faults : L → Fault) (before after : List L) (Q : α → σ → Prop) (E E' : σ → Prop) :
    Outcome ε α × σ → Prop :=
  Meets (fun a t => firstFault faults before = .passes ∧ firstFault faults after = .passes ∧ Q a t)
    (fun _ t => (∃ n, firstFault faults before = .fails n) ∧ E t ∨
      firstFault faults before = .passes ∧ (∃ n, firstFault faults after = .fails n) ∧ E' t)
    (fun t => (∃ n, firstFault faults before = .stops n) ∧ E t ∨
      firstFault faults before = .passes ∧ (∃ n, firstFault faults after = .stops n) ∧ E' t)

namespace Commits

variable {before before' after after' : List L} {E E' : σ → Prop}

theorem begin {p : Prog L σ ε α} {f : α → Prog L σ ε β}
    (h : Follows faults before Q E (p faults s))
    (hf : ∀ a t, Q a t → Follows faults after R E' (f a faults t)) :
    Commits faults before after R E E' (Prog.andThen p f faults s) := by
  have hfirst : Meets (fun a t => firstFault faults before = .passes ∧ Q a t)
      (fun _ t => (∃ n, firstFault faults before = .fails n) ∧ E t ∨
        firstFault faults before = .passes ∧ (∃ n, firstFault faults after = .fails n) ∧ E' t)
      (fun t => (∃ n, firstFault faults before = .stops n) ∧ E t ∨
        firstFault faults before = .passes ∧ (∃ n, firstFault faults after = .stops n) ∧ E' t)
      (p faults s) :=
    Meets.mono h (fun _ _ ht => ht) (fun _ _ ht => Or.inl ht) fun _ ht => Or.inl ht
  apply Prog.meets_andThen hfirst
  rintro a t ⟨hpasses, ha⟩
  apply Meets.mono (hf a t ha)
  · exact fun _ _ ht => ⟨hpasses, ht⟩
  · exact fun _ _ ht => Or.inr ⟨hpasses, ht⟩
  · exact fun _ ht => Or.inr ⟨hpasses, ht⟩

theorem andThen {p : Prog L σ ε α} {f : α → Prog L σ ε β}
    (h : Commits faults before after Q E E' (p faults s))
    (hf : ∀ a t, Q a t → Follows faults after' R E' (f a faults t)) :
    Commits faults before (after ++ after') R E E' (Prog.andThen p f faults s) := by
  have hfirst : Meets (fun a t => firstFault faults before = .passes ∧
        firstFault faults after = .passes ∧ Q a t)
      (fun _ t => (∃ n, firstFault faults before = .fails n) ∧ E t ∨
        firstFault faults before = .passes ∧
          (∃ n, firstFault faults (after ++ after') = .fails n) ∧ E' t)
      (fun t => (∃ n, firstFault faults before = .stops n) ∧ E t ∨
        firstFault faults before = .passes ∧
          (∃ n, firstFault faults (after ++ after') = .stops n) ∧ E' t) (p faults s) := by
    apply Meets.mono h
    · exact fun _ _ ht => ht
    · rintro _ t (ht | ⟨hbefore, ⟨n, hn⟩, ht⟩)
      · exact Or.inl ht
      · exact Or.inr ⟨hbefore, ⟨n, firstFault_append_of_fails hn⟩, ht⟩
    · rintro t (ht | ⟨hbefore, ⟨n, hn⟩, ht⟩)
      · exact Or.inl ht
      · exact Or.inr ⟨hbefore, ⟨n, firstFault_append_of_stops hn⟩, ht⟩
  apply Prog.meets_andThen hfirst
  rintro a t ⟨hbefore, hafter, ha⟩
  have hsecond := hf a t ha
  unfold Follows at hsecond
  rw [← firstFault_append_of_passes hafter] at hsecond
  apply Meets.mono hsecond
  · exact fun _ _ ht => ⟨hbefore, ht⟩
  · exact fun _ _ ht => Or.inr ⟨hbefore, ht⟩
  · exact fun _ ht => Or.inr ⟨hbefore, ht⟩

/-- Operations that come first. -/
theorem prepend {p : Prog L σ ε α} {f : α → Prog L σ ε β}
    (h : Follows faults before Q E (p faults s))
    (hf : ∀ a t, Q a t → Commits faults before' after R E E' (f a faults t)) :
    Commits faults (before ++ before') after R E E' (Prog.andThen p f faults s) := by
  have hfirst : Meets (fun a t => firstFault faults before = .passes ∧ Q a t)
      (fun _ t => (∃ n, firstFault faults (before ++ before') = .fails n) ∧ E t ∨
        firstFault faults (before ++ before') = .passes ∧
          (∃ n, firstFault faults after = .fails n) ∧ E' t)
      (fun t => (∃ n, firstFault faults (before ++ before') = .stops n) ∧ E t ∨
        firstFault faults (before ++ before') = .passes ∧
          (∃ n, firstFault faults after = .stops n) ∧ E' t) (p faults s) := by
    apply Meets.mono h
    · exact fun _ _ ht => ht
    · rintro _ t ⟨⟨n, hn⟩, ht⟩
      exact Or.inl ⟨⟨n, firstFault_append_of_fails hn⟩, ht⟩
    · rintro t ⟨⟨n, hn⟩, ht⟩
      exact Or.inl ⟨⟨n, firstFault_append_of_stops hn⟩, ht⟩
  apply Prog.meets_andThen hfirst
  rintro a t ⟨hpasses, ha⟩
  have hsecond := hf a t ha
  unfold Commits at hsecond
  rw [← firstFault_append_of_passes hpasses] at hsecond
  exact hsecond

theorem cons {label : L} {p : Prog L σ ε α} {f : α → Prog L σ ε β}
    (h : Follows faults [label] Q E (p faults s))
    (hf : ∀ a t, Q a t → Commits faults before' after R E E' (f a faults t)) :
    Commits faults (label :: before') after R E E' (Prog.andThen p f faults s) := prepend h hf

theorem mapError {f : ε → ε'} {p : Prog L σ ε α}
    (h : Commits faults before after Q E E' (p faults s)) :
    Commits faults before after Q E E' (Prog.mapError f p faults s) := Prog.meets_mapError h

theorem mono {end_ : Outcome ε α × σ} {F F' : σ → Prop}
    (h : Commits faults before after Q E E' end_) (hQ : ∀ a t, Q a t → Q' a t)
    (hE : ∀ t, E t → F t) (hE' : ∀ t, E' t → F' t) :
    Commits faults before after Q' F F' end_ := by
  apply Meets.mono h
  · exact fun a t ht => ⟨ht.1, ht.2.1, hQ a t ht.2.2⟩
  · exact fun _ t ht => ht.imp (And.imp_right (hE t)) (And.imp_right (And.imp_right (hE' t)))
  · exact fun t ht => ht.imp (And.imp_right (hE t)) (And.imp_right (And.imp_right (hE' t)))

end Commits

end Crash
