import Notm.Lib.Counter
import Notm.Lib.Transition

/-!
# The thread loader

`ThreadLoadCoordinator` with its service and its worker. The calls of the UI thread and the worker
interleave: a call is a script of small steps, each of which takes a lock, sends into the channel
or works on what the UI thread alone owns, and so are the turns of the worker's loop. The worker
drains the channel before it prepares anything and keeps the last request that no cancel follows.

* `UiStep`, `ThreadLoaderWorker` — the small steps of a call, and where the worker stands.
* `Alone` — one preparation is active at most.
* `CountsTurns` — the turns of the generation, each with its number.
* `Kept` — the request that is neither cancelled nor superseded is somewhere.
* `threadLoader_run` — every interleaving.
-/

namespace Notm.Ui

open Rust

/-- The number of the request stands for its cancellation flag and its response channel. -/
structure ThreadLoadJob where
  id : Nat
  generation : Nat
deriving DecidableEq

/-- What the window sends to the worker. -/
inductive ThreadLoaderCommand where
  | load (job : ThreadLoadJob)
  | cancel
deriving DecidableEq

/-- What is latest after the command. -/
def ThreadLoaderCommand.latest : ThreadLoaderCommand → Option ThreadLoadJob
  | .load job => some job
  | .cancel => none

/-- The counters of the loader. -/
structure ThreadLoaderMetrics where
  submitted : Nat := 0
  cancelled : Nat := 0
  coalesced : Nat := 0
  activePreparations : Nat := 0
  peakActivePreparations : Nat := 0

namespace ThreadLoaderMetrics

/-- The peak is taken together with the count. -/
def beginPreparation (metrics : ThreadLoaderMetrics) : ThreadLoaderMetrics :=
  { metrics with
    activePreparations := metrics.activePreparations + 1
    peakActivePreparations :=
      max metrics.peakActivePreparations (metrics.activePreparations + 1) }

def finishPreparation (metrics : ThreadLoaderMetrics) : ThreadLoaderMetrics :=
  { metrics with activePreparations := metrics.activePreparations - 1 }

end ThreadLoaderMetrics

/-- Where the worker stands; `T` are prepared threads. -/
inductive ThreadLoaderWorker (T : Type*) where
  /-- Blocked in `recv`. -/
  | idle
  /-- In `latest_thread_load_job`. -/
  | draining (latest : Option ThreadLoadJob)
  | preparing (job : ThreadLoadJob)
  /-- The loader has returned. -/
  | prepared (job : ThreadLoadJob) (result : Except String T)
  /-- The slot of the active request is cleared. -/
  | responding (job : ThreadLoadJob) (result : Except String T)

/-- The small steps of the UI thread. -/
inductive UiStep where
  | cancelActive
  | setActiveCancel (id : Nat)
  | sendCancel
  | sendLoad (job : ThreadLoadJob)
  /-- Answer a request that could not be sent. -/
  | refuse (job : ThreadLoadJob)
  | beginGeneration
  | cancelGeneration
deriving DecidableEq

/-- What the calls have made of the generation, in order. -/
inductive GenerationTurn where
  | begun (generation : Nat)
  | cancelled (generation : Nat)
deriving DecidableEq

/-- The generation that a turn has made current. -/
def GenerationTurn.generation : GenerationTurn → Nat
  | .begun generation => generation
  | .cancelled generation => generation

/-- The coordinator, the service and the worker. The turns of the generation and the request that
no later call has cancelled or superseded are kept for the statements. -/
structure ThreadLoader (T : Type*) where
  generation : Nat := 0
  active : Option Nat := none
  startError : Option String := none
  activeCancel : Option Nat := none
  cancelled : List Nat := []
  channel : List ThreadLoaderCommand := []
  metrics : ThreadLoaderMetrics := {}
  worker : ThreadLoaderWorker T := .idle
  answered : List (ThreadLoadJob × Except String T) := []
  script : List UiStep := []
  nextJob : Nat := 0
  turns : List GenerationTurn := []
  current : Option ThreadLoadJob := none

/-- The calls of the window and the small steps of both sides. A call is carried out step by step,
and the steps of the worker may come between them. -/
inductive ThreadLoaderEvent (T : Type*) where
  /-- `begin`, called between two other calls. -/
  | begin
  | cancel
  | spawn (generation : Nat)
  | finish (generation : Nat)
  /-- The next small step of the call underway. -/
  | ui
  /-- The next step of the worker; the loader returns `result` if it is about to return. -/
  | worker (result : Except String T)

namespace ThreadLoader

variable {T : Type*}

/-- The answer of a generation counts while this is the active one. -/
def accepts (loader : ThreadLoader T) (generation : Nat) : Prop :=
  loader.active = some generation

instance (loader : ThreadLoader T) (generation : Nat) : Decidable (loader.accepts generation) :=
  inferInstanceAs (Decidable (_ = _))

/-- Only the active generation ends the load. -/
def finish (loader : ThreadLoader T) (generation : Nat) : ThreadLoader T :=
  if loader.accepts generation then { loader with active := none } else loader

/-- Take the flag of the active request and set it. -/
def cancelActive (loader : ThreadLoader T) : ThreadLoader T :=
  match loader.activeCancel with
  | none => loader
  | some id =>
    let loader := { loader with activeCancel := none }
    if loader.cancelled.contains id then loader
    else
      { loader with
        cancelled := id :: loader.cancelled
        metrics := { loader.metrics with cancelled := loader.metrics.cancelled + 1 } }

/-- A service without its worker thread has no sender. -/
def send (loader : ThreadLoader T) (command : ThreadLoaderCommand) : ThreadLoader T :=
  match loader.startError with
  | none => { loader with channel := loader.channel ++ [command] }
  | some _ => loader

/-- One step of the call that is under way. -/
def runUi (loader : ThreadLoader T) : UiStep → ThreadLoader T
  | .cancelActive => loader.cancelActive
  | .setActiveCancel id => { loader with activeCancel := some id }
  | .sendCancel => loader.send .cancel
  | .sendLoad job =>
    match loader.startError with
    | none => loader.send (.load job)
    | some _ => { loader with script := [.cancelActive, .refuse job] }
  | .refuse job =>
    { loader with answered := loader.answered ++
        [(job, .error (loader.startError.getD "thread loader worker disconnected"))] }
  | .beginGeneration =>
    let generation := saturatingSucc loader.generation
    { loader with
      generation := generation
      active := some generation
      turns := loader.turns ++ [.begun generation] }
  | .cancelGeneration =>
    let generation := saturatingSucc loader.generation
    { loader with
      generation := generation
      active := none
      turns := loader.turns ++ [.cancelled generation] }

/-- One command in `latest_thread_load_job`: it takes the place of the latest request. -/
def drain (loader : ThreadLoader T) (latest : Option ThreadLoadJob)
    (command : ThreadLoaderCommand) : ThreadLoader T :=
  { loader with
    worker := .draining command.latest
    metrics :=
      if latest.isSome then { loader.metrics with coalesced := loader.metrics.coalesced + 1 }
      else loader.metrics }

/-- The next step of the worker; `none` while it is blocked. -/
def runWorker (loader : ThreadLoader T) (result : Except String T) : Option (ThreadLoader T) :=
  match loader.worker, loader.channel with
  | .idle, [] => none
  | .idle, command :: channel => some ({ loader with channel := channel }.drain none command)
  | .draining latest, command :: channel =>
    some ({ loader with channel := channel }.drain latest command)
  | .draining none, [] => some { loader with worker := .idle }
  | .draining (some job), [] =>
    some { loader with worker := .preparing job, metrics := loader.metrics.beginPreparation }
  | .preparing job, _ =>
    some { loader with worker := .prepared job result, metrics := loader.metrics.finishPreparation }
  | .prepared job result, _ =>
    some { loader with
      worker := .responding job result
      activeCancel :=
        if loader.activeCancel = some job.id then none else loader.activeCancel }
  | .responding job result, _ =>
    some { loader with worker := .idle, answered := loader.answered ++ [(job, result)] }

/-- A call of the UI thread, which is in no other call. -/
def call (loader : ThreadLoader T) (next : ThreadLoader T) : Option (ThreadLoader T) :=
  match loader.script with
  | [] => some next
  | _ :: _ => none

/-- The interleavings of the window and the worker. A call begins only when none is under way. -/
def step (loader : ThreadLoader T) : ThreadLoaderEvent T → Option (ThreadLoader T)
  | .begin =>
    loader.call { loader with
      script := [.cancelActive, .sendCancel, .beginGeneration], current := none }
  | .cancel =>
    loader.call { loader with
      script := [.cancelActive, .sendCancel, .cancelGeneration], current := none }
  | .spawn generation =>
    let job := { id := loader.nextJob, generation := generation }
    loader.call { loader with
      metrics := { loader.metrics with submitted := loader.metrics.submitted + 1 }
      script := [.cancelActive, .setActiveCancel job.id, .sendLoad job]
      nextJob := loader.nextJob + 1
      current := some job }
  | .finish generation => loader.call (loader.finish generation)
  | .ui =>
    match loader.script with
    | [] => none
    | op :: script => some ({ loader with script := script }.runUi op)
  | .worker result => loader.runWorker result

/-! ## What each step can do -/

variable {loader loader' : ThreadLoader T} {event : ThreadLoaderEvent T}
  {result : Except String T} {op : UiStep}

theorem call_eq_some {next : ThreadLoader T} (h : loader.call next = some loader') :
    loader.script = [] ∧ loader' = next := by
  unfold call at h
  split at h
  · exact ⟨‹_›, (Option.some.inj h).symm⟩
  · exact absurd h (Option.some_ne_none _).symm

/-- The ways `cancel_active` goes. -/
theorem cancelActive_cases (loader : ThreadLoader T) :
    (loader.activeCancel = none ∧ loader.cancelActive = loader) ∨
    ∃ id cancelled metrics, loader.activeCancel = some id ∧
      (∀ i ∈ cancelled, i = id ∨ i ∈ loader.cancelled) ∧
      metrics.activePreparations = loader.metrics.activePreparations ∧
      metrics.peakActivePreparations = loader.metrics.peakActivePreparations ∧
      loader.cancelActive =
        { loader with activeCancel := none, cancelled := cancelled, metrics := metrics } := by
  cases hactive : loader.activeCancel with
  | none =>
    refine Or.inl ⟨rfl, ?_⟩
    unfold cancelActive
    rw [hactive]
  | some id =>
    right
    by_cases hset : loader.cancelled.contains id = true
    · refine ⟨id, loader.cancelled, loader.metrics, rfl, fun i hi => Or.inr hi, rfl, rfl, ?_⟩
      unfold cancelActive
      rw [hactive]
      exact if_pos hset
    · refine ⟨id, id :: loader.cancelled,
        { loader.metrics with cancelled := loader.metrics.cancelled + 1 }, rfl,
        fun i hi => List.mem_cons.1 hi, rfl, rfl, ?_⟩
      unfold cancelActive
      rw [hactive]
      exact if_neg hset

/-- The ways a turn of the worker's loop goes. -/
theorem runWorker_cases (h : loader.runWorker result = some loader') :
    (∃ command channel metrics, loader.channel = command :: channel ∧
      (loader.worker = .idle ∨ ∃ latest, loader.worker = .draining latest) ∧
      metrics.activePreparations = loader.metrics.activePreparations ∧
      metrics.peakActivePreparations = loader.metrics.peakActivePreparations ∧
      loader' = { loader with
        channel := channel, worker := .draining command.latest, metrics := metrics }) ∨
    (loader.worker = .draining none ∧ loader.channel = [] ∧
      loader' = { loader with worker := .idle }) ∨
    (∃ job, loader.worker = .draining (some job) ∧ loader.channel = [] ∧
      loader' = { loader with
        worker := .preparing job, metrics := loader.metrics.beginPreparation }) ∨
    (∃ job, loader.worker = .preparing job ∧ loader' = { loader with
      worker := .prepared job result, metrics := loader.metrics.finishPreparation }) ∨
    (∃ job result, loader.worker = .prepared job result ∧ loader' = { loader with
      worker := .responding job result
      activeCancel :=
        if loader.activeCancel = some job.id then none else loader.activeCancel }) ∨
    (∃ job result, loader.worker = .responding job result ∧ loader' = { loader with
      worker := .idle, answered := loader.answered ++ [(job, result)] }) := by
  have hdrain : ∀ command channel latest, loader.channel = command :: channel →
      (loader.worker = .idle ∨ ∃ latest, loader.worker = .draining latest) →
      loader' = ({ loader with channel := channel }.drain latest command) →
      ∃ command channel metrics, loader.channel = command :: channel ∧
        (loader.worker = .idle ∨ ∃ latest, loader.worker = .draining latest) ∧
        metrics.activePreparations = loader.metrics.activePreparations ∧
        metrics.peakActivePreparations = loader.metrics.peakActivePreparations ∧
        loader' = { loader with
          channel := channel, worker := .draining command.latest, metrics := metrics } := by
    intro command channel latest hchannel hworker hloader'
    refine ⟨command, channel, _, hchannel, hworker, ?_, ?_, hloader'⟩
    · cases latest <;> rfl
    · cases latest <;> rfl
  unfold runWorker at h
  split at h
  · exact absurd h (Option.some_ne_none _).symm
  · exact Or.inl (hdrain _ _ none ‹_› (Or.inl ‹_›) (Option.some.inj h).symm)
  · exact Or.inl (hdrain _ _ _ ‹_› (Or.inr ⟨_, ‹_›⟩) (Option.some.inj h).symm)
  · exact Or.inr (Or.inl ⟨‹_›, ‹_›, (Option.some.inj h).symm⟩)
  · exact Or.inr (Or.inr (Or.inl ⟨_, ‹_›, ‹_›, (Option.some.inj h).symm⟩))
  · exact Or.inr (Or.inr (Or.inr (Or.inl ⟨_, ‹_›, (Option.some.inj h).symm⟩)))
  · exact Or.inr (Or.inr (Or.inr (Or.inr (Or.inl ⟨_, _, ‹_›, (Option.some.inj h).symm⟩))))
  · exact Or.inr (Or.inr (Or.inr (Or.inr (Or.inr ⟨_, _, ‹_›, (Option.some.inj h).symm⟩))))

theorem ui_eq_some (h : loader.step .ui = some loader') :
    ∃ op script, loader.script = op :: script ∧
      loader' = { loader with script := script }.runUi op := by
  simp only [step] at h
  split at h
  · exact absurd h (Option.some_ne_none _).symm
  · exact ⟨_, _, ‹_›, (Option.some.inj h).symm⟩

theorem finish_cases (loader : ThreadLoader T) (generation : Nat) :
    ∃ active, (active = none ∨ active = loader.active) ∧
      loader.finish generation = { loader with active := active } := by
  by_cases h : loader.accepts generation
  · exact ⟨none, Or.inl rfl, if_pos h⟩
  · exact ⟨loader.active, Or.inr rfl, if_neg h⟩

/-! ## One preparation at a time -/

/-- The preparations that the worker is in. -/
def preparations : ThreadLoaderWorker T → Nat
  | .preparing _ => 1
  | _ => 0

/-- The count of the active preparations is that of the worker. -/
structure Alone (loader : ThreadLoader T) : Prop where
  active : loader.metrics.activePreparations = preparations loader.worker
  peak : loader.metrics.peakActivePreparations ≤ 1

theorem runUi_alone (op : UiStep) (h : Alone loader) : Alone (loader.runUi op) := by
  cases op with
  | cancelActive =>
    show Alone loader.cancelActive
    rcases cancelActive_cases loader with ⟨-, hloader⟩ | ⟨_, _, metrics, -, -, hactive, hpeak,
      hloader⟩
    · rw [hloader]
      exact h
    · rw [hloader]
      exact ⟨hactive.trans h.active, hpeak ▸ h.peak⟩
  | setActiveCancel id => exact ⟨h.active, h.peak⟩
  | sendCancel =>
    show Alone (loader.send .cancel)
    unfold send
    split
    · exact ⟨h.active, h.peak⟩
    · exact h
  | sendLoad job =>
    simp only [runUi]
    split
    · unfold send
      split
      · exact ⟨h.active, h.peak⟩
      · exact h
    · exact ⟨h.active, h.peak⟩
  | refuse job => exact ⟨h.active, h.peak⟩
  | beginGeneration => exact ⟨h.active, h.peak⟩
  | cancelGeneration => exact ⟨h.active, h.peak⟩

theorem alone_step (hloader : Alone loader) (h : step loader event = some loader') :
    Alone loader' := by
  cases event with
  | begin =>
    obtain ⟨-, rfl⟩ := call_eq_some h
    exact ⟨hloader.active, hloader.peak⟩
  | cancel =>
    obtain ⟨-, rfl⟩ := call_eq_some h
    exact ⟨hloader.active, hloader.peak⟩
  | spawn generation =>
    obtain ⟨-, rfl⟩ := call_eq_some h
    exact ⟨hloader.active, hloader.peak⟩
  | finish generation =>
    obtain ⟨-, rfl⟩ := call_eq_some h
    obtain ⟨active, -, hfinish⟩ := finish_cases loader generation
    rw [hfinish]
    exact ⟨hloader.active, hloader.peak⟩
  | ui =>
    obtain ⟨op, script, -, rfl⟩ := ui_eq_some h
    exact runUi_alone op ⟨hloader.active, hloader.peak⟩
  -- The count is raised where a preparation begins and lowered where it ends, both by the worker.
  | worker result =>
    have hactive := hloader.active
    rcases runWorker_cases h with ⟨command, channel, metrics, -, hworker, hcount, hpeak, rfl⟩ |
      ⟨hworker, -, rfl⟩ | ⟨job, hworker, -, rfl⟩ | ⟨job, hworker, rfl⟩ |
      ⟨job, result, hworker, rfl⟩ | ⟨job, result, hworker, rfl⟩
    · refine ⟨?_, hpeak ▸ hloader.peak⟩
      show metrics.activePreparations = 0
      rw [hcount, hactive]
      rcases hworker with hworker | ⟨latest, hworker⟩
      · rw [hworker]
        rfl
      · rw [hworker]
        rfl
    · rw [hworker] at hactive
      exact ⟨hactive, hloader.peak⟩
    · rw [hworker] at hactive
      have hnone : loader.metrics.activePreparations = 0 := hactive
      have hpeak := hloader.peak
      refine ⟨?_, ?_⟩
      · show loader.metrics.activePreparations + 1 = 1
        rw [hnone]
      · show max _ (loader.metrics.activePreparations + 1) ≤ 1
        rw [hnone]
        omega
    · rw [hworker] at hactive
      have hone : loader.metrics.activePreparations = 1 := hactive
      refine ⟨?_, hloader.peak⟩
      show loader.metrics.activePreparations - 1 = 0
      rw [hone]
    · rw [hworker] at hactive
      exact ⟨hactive, hloader.peak⟩
    · rw [hworker] at hactive
      exact ⟨hactive, hloader.peak⟩

/-! ## The generation -/

/-- Each turn of the generation has the next number, and the active generation is that of the last
turn, which has begun it. -/
structure CountsTurns (loader : ThreadLoader T) : Prop where
  generation : loader.generation = min loader.turns.length u64Max
  turns : ∀ k turn, loader.turns[k]? = some turn → turn.generation = min (k + 1) u64Max
  active : ∀ generation, loader.active = some generation →
    ∃ older, loader.turns = older ++ [.begun generation]

/-- A further turn, which has the next number. -/
theorem CountsTurns.snoc (h : CountsTurns loader) (turn : GenerationTurn)
    (hturn : turn.generation = saturatingSucc loader.generation)
    (hgeneration : loader'.generation = saturatingSucc loader.generation)
    (hturns : loader'.turns = loader.turns ++ [turn])
    (hactive : ∀ generation, loader'.active = some generation → turn = .begun generation) :
    CountsTurns loader' := by
  have hnext : saturatingSucc loader.generation = min (loader.turns.length + 1) u64Max := by
    rw [h.generation]
    unfold saturatingSucc
    omega
  refine ⟨?_, fun k other hother => ?_, fun generation hsome => ⟨loader.turns, ?_⟩⟩
  · rw [hgeneration, hturns, List.length_append]
    exact hnext
  · rw [hturns] at hother
    rcases Nat.lt_or_ge k loader.turns.length with hold | hnew
    · rw [List.getElem?_append_left hold] at hother
      exact h.turns k other hother
    · rw [List.getElem?_append_right hnew] at hother
      obtain rfl := List.mem_singleton.1 (List.mem_of_getElem? hother)
      obtain ⟨hk, -⟩ := List.getElem?_eq_some_iff.1 hother
      have hlast : k = loader.turns.length := by
        have hlen : k - loader.turns.length < 1 := hk
        omega
      rw [hturn, hnext, hlast]
  · rw [hturns, hactive generation hsome]

/-- A step that leaves the generation alone; at most it takes back the active one. -/
theorem CountsTurns.of_eq (h : CountsTurns loader)
    (hgeneration : loader'.generation = loader.generation) (hturns : loader'.turns = loader.turns)
    (hactive : loader'.active = none ∨ loader'.active = loader.active) : CountsTurns loader' := by
  refine ⟨?_, ?_, ?_⟩
  · rw [hgeneration, hturns]
    exact h.generation
  · rw [hturns]
    exact h.turns
  · rcases hactive with hactive | hactive
    · rw [hactive]
      exact fun _ hsome => absurd hsome (Option.some_ne_none _).symm
    · rw [hactive, hturns]
      exact h.active

theorem runUi_countsTurns (op : UiStep) (h : CountsTurns loader) :
    CountsTurns (loader.runUi op) := by
  cases op with
  | cancelActive =>
    show CountsTurns loader.cancelActive
    rcases cancelActive_cases loader with ⟨-, hloader⟩ | ⟨_, _, _, -, -, -, -, hloader⟩
    · rw [hloader]
      exact h
    · rw [hloader]
      exact h.of_eq rfl rfl (Or.inr rfl)
  | setActiveCancel id => exact h.of_eq rfl rfl (Or.inr rfl)
  | sendCancel =>
    show CountsTurns (loader.send .cancel)
    unfold send
    split
    · exact h.of_eq rfl rfl (Or.inr rfl)
    · exact h
  | sendLoad job =>
    simp only [runUi]
    split
    · unfold send
      split
      · exact h.of_eq rfl rfl (Or.inr rfl)
      · exact h
    · exact h.of_eq rfl rfl (Or.inr rfl)
  | refuse job => exact h.of_eq rfl rfl (Or.inr rfl)
  | beginGeneration =>
    apply h.snoc (.begun (saturatingSucc loader.generation)) rfl rfl rfl
    intro generation hactive
    rw [Option.some.inj hactive]
  | cancelGeneration =>
    apply h.snoc (.cancelled (saturatingSucc loader.generation)) rfl rfl rfl
    exact fun _ hactive => absurd hactive (Option.some_ne_none _).symm

theorem countsTurns_step (hloader : CountsTurns loader) (h : step loader event = some loader') :
    CountsTurns loader' := by
  cases event with
  | begin =>
    obtain ⟨-, rfl⟩ := call_eq_some h
    exact hloader.of_eq rfl rfl (Or.inr rfl)
  | cancel =>
    obtain ⟨-, rfl⟩ := call_eq_some h
    exact hloader.of_eq rfl rfl (Or.inr rfl)
  | spawn generation =>
    obtain ⟨-, rfl⟩ := call_eq_some h
    exact hloader.of_eq rfl rfl (Or.inr rfl)
  | finish generation =>
    obtain ⟨-, rfl⟩ := call_eq_some h
    obtain ⟨active, hactive, hfinish⟩ := finish_cases loader generation
    rw [hfinish]
    exact hloader.of_eq rfl rfl hactive
  | ui =>
    obtain ⟨op, script, -, rfl⟩ := ui_eq_some h
    exact runUi_countsTurns op (hloader.of_eq rfl rfl (Or.inr rfl))
  | worker result =>
    rcases runWorker_cases h with ⟨_, _, _, -, -, -, -, rfl⟩ | ⟨-, -, rfl⟩ | ⟨_, -, -, rfl⟩ |
      ⟨_, -, rfl⟩ | ⟨_, _, -, rfl⟩ | ⟨_, _, -, rfl⟩
    all_goals exact hloader.of_eq rfl rfl (Or.inr rfl)

/-- What is accepted was begun last; and as long as the numbers last, no earlier turn has it. -/
theorem CountsTurns.accepts (h : CountsTurns loader) {generation : Nat}
    (haccepts : loader.accepts generation) :
    ∃ older, loader.turns = older ++ [.begun generation] ∧
      (loader.turns.length ≤ u64Max → ∀ turn ∈ older, turn.generation ≠ generation) := by
  obtain ⟨older, hturns⟩ := h.active generation haccepts
  refine ⟨older, hturns, fun hlen turn hturn heq => ?_⟩
  obtain ⟨k, hk⟩ := List.getElem?_of_mem hturn
  obtain ⟨hlt, -⟩ := List.getElem?_eq_some_iff.1 hk
  rw [hturns, List.length_append] at hlen
  have hone : [GenerationTurn.begun generation].length = 1 := rfl
  have holder := h.turns k turn (by rw [hturns, List.getElem?_append_left hlt]; exact hk)
  have hlast := h.turns older.length (.begun generation) (by rw [hturns]; simp)
  have hgeneration : generation = min (older.length + 1) u64Max := hlast
  omega

/-! ## No request is lost -/

/-- The numbers handed out so far are below the next one. -/
structure Numbered (loader : ThreadLoader T) : Prop where
  cancelled : ∀ id ∈ loader.cancelled, id < loader.nextJob
  activeCancel : ∀ id, loader.activeCancel = some id → id < loader.nextJob
  script : ∀ id, .setActiveCancel id ∈ loader.script → id < loader.nextJob

theorem runUi_numbered (h : Numbered loader)
    (hop : ∀ id, op = .setActiveCancel id → id < loader.nextJob) : Numbered (loader.runUi op) := by
  have hsend : ∀ command, Numbered (loader.send command) := by
    intro command
    unfold send
    split
    · exact ⟨h.cancelled, h.activeCancel, h.script⟩
    · exact h
  cases op with
  | cancelActive =>
    show Numbered loader.cancelActive
    rcases cancelActive_cases loader with ⟨-, hloader⟩ | ⟨id, cancelled, _, hactive, hcancelled, -,
      -, hloader⟩
    · rw [hloader]
      exact h
    · rw [hloader]
      refine ⟨fun i hi => ?_, fun _ hsome => absurd hsome (Option.some_ne_none _).symm, h.script⟩
      rcases hcancelled i hi with rfl | hold
      · exact h.activeCancel i hactive
      · exact h.cancelled i hold
  | setActiveCancel id =>
    refine ⟨h.cancelled, fun i hi => ?_, h.script⟩
    rw [← Option.some.inj hi]
    exact hop id rfl
  | sendCancel => exact hsend .cancel
  | sendLoad job =>
    simp only [runUi]
    split
    · exact hsend (.load job)
    · refine ⟨h.cancelled, h.activeCancel, fun id hid => ?_⟩
      have hmem : UiStep.setActiveCancel id ∈ [.cancelActive, .refuse job] := hid
      simp at hmem
  | refuse job => exact ⟨h.cancelled, h.activeCancel, h.script⟩
  | beginGeneration => exact ⟨h.cancelled, h.activeCancel, h.script⟩
  | cancelGeneration => exact ⟨h.cancelled, h.activeCancel, h.script⟩

theorem numbered_step (hloader : Numbered loader) (h : step loader event = some loader') :
    Numbered loader' := by
  cases event with
  | begin =>
    obtain ⟨-, rfl⟩ := call_eq_some h
    exact ⟨hloader.cancelled, hloader.activeCancel, fun id hid => by simp at hid⟩
  | cancel =>
    obtain ⟨-, rfl⟩ := call_eq_some h
    exact ⟨hloader.cancelled, hloader.activeCancel, fun id hid => by simp at hid⟩
  | spawn generation =>
    obtain ⟨-, rfl⟩ := call_eq_some h
    refine ⟨fun id hid => ?_, fun id hid => ?_, fun id hid => ?_⟩
    · exact Nat.lt_succ_of_lt (hloader.cancelled id hid)
    · exact Nat.lt_succ_of_lt (hloader.activeCancel id hid)
    · have hid : id = loader.nextJob := by simpa using hid
      rw [hid]
      exact Nat.lt_succ_self _
  | finish generation =>
    obtain ⟨-, rfl⟩ := call_eq_some h
    obtain ⟨active, -, hfinish⟩ := finish_cases loader generation
    rw [hfinish]
    exact ⟨hloader.cancelled, hloader.activeCancel, hloader.script⟩
  | ui =>
    obtain ⟨op, script, hscript, rfl⟩ := ui_eq_some h
    have hscript' := hloader.script
    rw [hscript] at hscript'
    apply runUi_numbered
    · exact ⟨hloader.cancelled, hloader.activeCancel,
        fun id hid => hscript' id (List.mem_cons_of_mem _ hid)⟩
    · rintro id rfl
      exact hscript' id List.mem_cons_self
  | worker result =>
    rcases runWorker_cases h with ⟨_, _, _, -, -, -, -, rfl⟩ | ⟨-, -, rfl⟩ | ⟨_, -, -, rfl⟩ |
      ⟨_, -, rfl⟩ | ⟨job, _, -, rfl⟩ | ⟨_, _, -, rfl⟩
    case inr.inr.inr.inr.inl =>
      refine ⟨hloader.cancelled, fun id hid => ?_, hloader.script⟩
      change (if loader.activeCancel = some job.id then none else loader.activeCancel) = some id
        at hid
      split at hid
      · exact absurd hid (Option.some_ne_none _).symm
      · exact hloader.activeCancel id hid
    all_goals exact ⟨hloader.cancelled, hloader.activeCancel, hloader.script⟩

/-- The request is in the hands of the call that brings it. -/
inductive Submitting (loader : ThreadLoader T) (job : ThreadLoadJob) : Prop where
  | first (script : loader.script = [.cancelActive, .setActiveCancel job.id, .sendLoad job])
      (other : loader.activeCancel ≠ some job.id)
  | second (script : loader.script = [.setActiveCancel job.id, .sendLoad job])
  | third (script : loader.script = [.sendLoad job])
  | refusing (noWorker : loader.startError ≠ none)
      (script : loader.script = [.cancelActive, .refuse job])
  | refused (noWorker : loader.startError ≠ none) (script : loader.script = [.refuse job])

/-- The request waits: nothing follows it in the channel, or the worker has taken it last. -/
inductive Pending (loader : ThreadLoader T) (job : ThreadLoadJob) : Prop where
  | queued (older : List ThreadLoaderCommand) (channel : loader.channel = older ++ [.load job])
  | taken (worker : loader.worker = .draining (some job)) (channel : loader.channel = [])

/-- The worker prepares the request or is about to answer it. -/
inductive Prepared (loader : ThreadLoader T) (job : ThreadLoadJob) : Prop where
  | preparing (worker : loader.worker = .preparing job)
  | prepared (result : Except String T) (worker : loader.worker = .prepared job result)
  | responding (result : Except String T) (worker : loader.worker = .responding job result)

/-- The job has its response. -/
def Answered (loader : ThreadLoader T) (job : ThreadLoadJob) : Prop :=
  ∃ result, (job, result) ∈ loader.answered

/-- Where a request can be that no call has cancelled or superseded. -/
def Present (loader : ThreadLoader T) (job : ThreadLoadJob) : Prop :=
  Submitting loader job ∨
    loader.script = [] ∧ (Pending loader job ∨ Prepared loader job ∨ Answered loader job)

/-- The request that is neither cancelled nor superseded is present, and its flag is not set. -/
structure Kept (loader : ThreadLoader T) (job : ThreadLoadJob) : Prop where
  present : Present loader job
  flag : loader.startError = none → job.id ∉ loader.cancelled

variable {job : ThreadLoadJob}

/-- A step of the UI thread that touches neither the channel nor the worker and forgets no
answer. -/
theorem Present.of_script (hscript : loader'.script = [])
    (h : Pending loader job ∨ Prepared loader job ∨ Answered loader job)
    (hchannel : loader'.channel = loader.channel) (hworker : loader'.worker = loader.worker)
    (hanswered : loader'.answered = loader.answered) : Present loader' job := by
  refine Or.inr ⟨hscript, ?_⟩
  rcases h with hpending | hprepared | ⟨result, hresult⟩
  · left
    cases hpending with
    | queued older channel => exact .queued older (hchannel.trans channel)
    | taken worker channel => exact .taken (hworker.trans worker) (hchannel.trans channel)
  · right; left
    cases hprepared with
    | preparing worker => exact .preparing (hworker.trans worker)
    | prepared result worker => exact .prepared result (hworker.trans worker)
    | responding result worker => exact .responding result (hworker.trans worker)
  · right; right
    refine ⟨result, ?_⟩
    rw [hanswered]
    exact hresult

/-- No step of the worker takes the last request out of the channel but to hold it. -/
theorem runWorker_queued {older : List ThreadLoaderCommand}
    (hqueued : loader.channel = older ++ [.load job])
    (h : loader.runWorker result = some loader') : Pending loader' job := by
  have hfull : loader.channel ≠ [] := by
    rw [hqueued]
    exact List.append_ne_nil_of_right_ne_nil _ (List.cons_ne_nil _ _)
  rcases runWorker_cases h with ⟨command, channel, metrics, hchannel, -, -, -, rfl⟩ |
    ⟨-, hempty, -⟩ | ⟨_, -, hempty, -⟩ | ⟨_, -, rfl⟩ | ⟨_, _, -, rfl⟩ | ⟨_, _, -, rfl⟩
  · rw [hchannel] at hqueued
    cases older with
    | nil =>
      obtain ⟨rfl, rfl⟩ := List.cons_eq_cons.1 hqueued
      exact .taken rfl rfl
    | cons first older =>
      obtain ⟨-, hrest⟩ := List.cons_eq_cons.1 hqueued
      exact .queued older hrest
  · exact absurd hempty hfull
  · exact absurd hempty hfull
  · exact .queued older hqueued
  · exact .queued older hqueued
  · exact .queued older hqueued

theorem runWorker_taken (hworker : loader.worker = .draining (some job))
    (hchannel : loader.channel = []) (h : loader.runWorker result = some loader') :
    loader'.worker = .preparing job := by
  unfold runWorker at h
  rw [hworker, hchannel] at h
  obtain rfl := Option.some.inj h
  rfl

/-- The worker carries the request that it prepares to its answer. -/
theorem runWorker_prepared (hprepared : Prepared loader job)
    (h : loader.runWorker result = some loader') : Prepared loader' job ∨ Answered loader' job := by
  cases hprepared with
  | preparing hworker =>
    unfold runWorker at h
    rw [hworker] at h
    obtain rfl := Option.some.inj h
    exact Or.inl (.prepared result rfl)
  | prepared found hworker =>
    unfold runWorker at h
    rw [hworker] at h
    obtain rfl := Option.some.inj h
    exact Or.inl (.responding found rfl)
  | responding found hworker =>
    unfold runWorker at h
    rw [hworker] at h
    obtain rfl := Option.some.inj h
    exact Or.inr ⟨found, List.mem_append_right _ (List.mem_singleton_self _)⟩

/-- What no step of the worker touches; answers are never taken back. -/
theorem runWorker_keeps (h : loader.runWorker result = some loader') :
    loader'.script = loader.script ∧ loader'.current = loader.current ∧
      loader'.startError = loader.startError ∧ loader'.cancelled = loader.cancelled ∧
      (loader'.activeCancel = none ∨ loader'.activeCancel = loader.activeCancel) ∧
      ∀ answer ∈ loader.answered, answer ∈ loader'.answered := by
  rcases runWorker_cases h with ⟨_, _, _, -, -, -, -, rfl⟩ | ⟨-, -, rfl⟩ | ⟨_, -, -, rfl⟩ |
    ⟨_, -, rfl⟩ | ⟨prepared, _, -, rfl⟩ | ⟨_, _, -, rfl⟩
  case inr.inr.inr.inr.inl =>
    refine ⟨rfl, rfl, rfl, rfl, ?_, fun _ hanswer => hanswer⟩
    by_cases hsame : loader.activeCancel = some prepared.id
    · exact Or.inl (if_pos hsame)
    · exact Or.inr (if_neg hsame)
  case inr.inr.inr.inr.inr =>
    exact ⟨rfl, rfl, rfl, rfl, Or.inr rfl, fun _ hanswer => List.mem_append_left _ hanswer⟩
  all_goals exact ⟨rfl, rfl, rfl, rfl, Or.inr rfl, fun _ hanswer => hanswer⟩

theorem runWorker_kept (hjob : Kept loader job) (h : loader.runWorker result = some loader') :
    Kept loader' job := by
  obtain ⟨hscript, -, herror, hcancelled, hactive, hanswered⟩ := runWorker_keeps h
  refine ⟨?_, by rw [herror, hcancelled]; exact hjob.flag⟩
  rcases hjob.present with hsubmitting | ⟨hidle, hpending | hprepared | ⟨found, hfound⟩⟩
  · left
    cases hsubmitting with
    | first script other =>
      refine .first (hscript.trans script) ?_
      rcases hactive with hactive | hactive
      · rw [hactive]
        exact (Option.some_ne_none _).symm
      · rw [hactive]
        exact other
    | second script => exact .second (hscript.trans script)
    | third script => exact .third (hscript.trans script)
    | refusing noWorker script => exact .refusing (herror ▸ noWorker) (hscript.trans script)
    | refused noWorker script => exact .refused (herror ▸ noWorker) (hscript.trans script)
  · refine Or.inr ⟨hscript.trans hidle, ?_⟩
    cases hpending with
    | queued older hqueued => exact Or.inl (runWorker_queued hqueued h)
    | taken hworker hchannel =>
      exact Or.inr (Or.inl (.preparing (runWorker_taken hworker hchannel h)))
  · exact Or.inr ⟨hscript.trans hidle, Or.inr (runWorker_prepared hprepared h)⟩
  · exact Or.inr ⟨hscript.trans hidle, Or.inr (Or.inr ⟨found, hanswered _ hfound⟩)⟩

/-- What no step of the UI thread touches. -/
theorem runUi_keeps (op : UiStep) :
    (loader.runUi op).current = loader.current ∧
      (loader.runUi op).startError = loader.startError := by
  cases op with
  | cancelActive =>
    show loader.cancelActive.current = _ ∧ loader.cancelActive.startError = _
    rcases cancelActive_cases loader with ⟨-, hloader⟩ | ⟨_, _, _, -, -, -, -, hloader⟩
    · rw [hloader]
      exact ⟨rfl, rfl⟩
    · rw [hloader]
      exact ⟨rfl, rfl⟩
  | sendCancel =>
    show (loader.send .cancel).current = _ ∧ (loader.send .cancel).startError = _
    unfold send
    split <;> exact ⟨rfl, rfl⟩
  | sendLoad job =>
    simp only [runUi]
    split
    · unfold send
      split <;> exact ⟨rfl, rfl⟩
    · exact ⟨rfl, rfl⟩
  | setActiveCancel id => exact ⟨rfl, rfl⟩
  | refuse job => exact ⟨rfl, rfl⟩
  | beginGeneration => exact ⟨rfl, rfl⟩
  | cancelGeneration => exact ⟨rfl, rfl⟩

/-- `cancel_active` sets no flag but that of the active request. -/
theorem not_mem_cancelActive {id : Nat} (hid : id ∉ loader.cancelled)
    (hactive : loader.activeCancel ≠ some id) : id ∉ loader.cancelActive.cancelled := by
  rcases cancelActive_cases loader with ⟨-, hloader⟩ | ⟨other, _, _, hother, hcancelled, -, -,
    hloader⟩
  · rw [hloader]
    exact hid
  · rw [hloader]
    intro hmem
    rcases hcancelled id hmem with rfl | hold
    · exact hactive hother
    · exact hid hold

theorem cancelActive_script (loader : ThreadLoader T) :
    loader.cancelActive.script = loader.script := by
  rcases cancelActive_cases loader with ⟨-, hloader⟩ | ⟨_, _, _, -, -, -, -, hloader⟩ <;>
    rw [hloader]

/-- The call that brings the request hands it on. -/
theorem ui_kept (hjob : Kept loader job) (h : step loader .ui = some loader') :
    Kept loader' job := by
  obtain ⟨op, script, hscript, rfl⟩ := ui_eq_some h
  have hflag := hjob.flag
  rcases hjob.present with hsubmitting | ⟨hidle, -⟩
  · cases hsubmitting with
    | first first other =>
      rw [hscript] at first
      obtain ⟨rfl, rfl⟩ := List.cons_eq_cons.1 first
      refine ⟨Or.inl (.second (cancelActive_script _)), fun herror => ?_⟩
      rw [(runUi_keeps _).2] at herror
      exact not_mem_cancelActive (hflag herror) other
    | second second =>
      rw [hscript] at second
      obtain ⟨rfl, rfl⟩ := List.cons_eq_cons.1 second
      exact ⟨Or.inl (.third rfl), hflag⟩
    | third third =>
      rw [hscript] at third
      obtain ⟨rfl, rfl⟩ := List.cons_eq_cons.1 third
      by_cases herror : loader.startError = none
      · have hsent : ({ loader with script := [] } : ThreadLoader T).runUi (.sendLoad job) =
            { loader with script := [], channel := loader.channel ++ [.load job] } := by
          simp only [runUi, send, herror]
        rw [hsent]
        exact ⟨Or.inr ⟨rfl, Or.inl (.queued loader.channel rfl)⟩, hflag⟩
      · obtain ⟨error, hsome⟩ := Option.ne_none_iff_exists'.1 herror
        have hrefused : ({ loader with script := [] } : ThreadLoader T).runUi (.sendLoad job) =
            { loader with script := [.cancelActive, .refuse job] } := by
          simp only [runUi, hsome]
        rw [hrefused]
        exact ⟨Or.inl (.refusing herror rfl), hflag⟩
    | refusing noWorker refusing =>
      rw [hscript] at refusing
      obtain ⟨rfl, rfl⟩ := List.cons_eq_cons.1 refusing
      refine ⟨Or.inl (.refused ?_ (cancelActive_script _)), fun hnone => ?_⟩
      · rw [(runUi_keeps _).2]
        exact noWorker
      · rw [(runUi_keeps _).2] at hnone
        exact absurd hnone noWorker
    | refused noWorker refused =>
      rw [hscript] at refused
      obtain ⟨rfl, rfl⟩ := List.cons_eq_cons.1 refused
      refine ⟨Or.inr ⟨rfl, Or.inr (Or.inr ⟨.error (loader.startError.getD
        "thread loader worker disconnected"), ?_⟩)⟩, hflag⟩
      exact List.mem_append_right _ (List.mem_singleton_self _)
  · rw [hscript] at hidle
    exact absurd hidle (List.cons_ne_nil _ _)

theorem kept_step (hnumbered : Numbered loader)
    (hloader : ∀ job, loader.current = some job → Kept loader job)
    (h : step loader event = some loader') :
    ∀ job, loader'.current = some job → Kept loader' job := by
  cases event with
  | begin =>
    obtain ⟨-, rfl⟩ := call_eq_some h
    exact fun job hjob => absurd hjob (Option.some_ne_none _).symm
  | cancel =>
    obtain ⟨-, rfl⟩ := call_eq_some h
    exact fun job hjob => absurd hjob (Option.some_ne_none _).symm
  | spawn generation =>
    -- the number of the request is new: no flag has it, and no active request
    obtain ⟨-, rfl⟩ := call_eq_some h
    intro job hjob
    obtain rfl := Option.some.inj hjob
    refine ⟨Or.inl (.first rfl fun hactive => ?_), fun _ hmem => ?_⟩
    · exact Nat.lt_irrefl _ (hnumbered.activeCancel _ hactive)
    · exact Nat.lt_irrefl _ (hnumbered.cancelled _ hmem)
  | finish generation =>
    obtain ⟨hidle, rfl⟩ := call_eq_some h
    obtain ⟨active, -, hfinish⟩ := finish_cases loader generation
    rw [hfinish]
    intro job hjob
    have hkept := hloader job hjob
    refine ⟨?_, hkept.flag⟩
    rcases hkept.present with hsubmitting | ⟨-, hpresent⟩
    · cases hsubmitting with
      | first script _ => rw [hidle] at script; cases script
      | second script => rw [hidle] at script; cases script
      | third script => rw [hidle] at script; cases script
      | refusing _ script => rw [hidle] at script; cases script
      | refused _ script => rw [hidle] at script; cases script
    · exact .of_script hidle hpresent rfl rfl rfl
  | ui =>
    intro job hjob
    apply ui_kept _ h
    apply hloader job
    obtain ⟨op, script, -, rfl⟩ := ui_eq_some h
    rw [(runUi_keeps op).1] at hjob
    exact hjob
  | worker result =>
    intro job hjob
    obtain ⟨-, hcurrent, -⟩ := runWorker_keeps h
    rw [hcurrent] at hjob
    exact runWorker_kept (hloader job hjob) h

/-! ## Runs -/

/-- **Loads of threads.** Of every interleaving of the calls with the worker: what is accepted is
the generation that was begun last, with no cancel or other begin after it, and no earlier turn has
its number while the numbers last; at most one preparation is active, now and at the peak; and the
request that is neither cancelled nor superseded is underway to the channel, pending, being prepared
or answered, its flag not set. -/
theorem threadLoader_run {startError : Option String}
    {trace : List (ThreadLoader T × ThreadLoaderEvent T)}
    (hrun : Transition.Run (Transition.Steps step) { startError := startError } trace loader) :
    (∀ generation, loader.accepts generation →
      ∃ older, loader.turns = older ++ [.begun generation] ∧
        (loader.turns.length ≤ u64Max → ∀ turn ∈ older, turn.generation ≠ generation)) ∧
    loader.metrics.activePreparations ≤ 1 ∧ loader.metrics.peakActivePreparations ≤ 1 ∧
    ∀ job, loader.current = some job →
      (Submitting loader job ∨
        loader.script = [] ∧ (Pending loader job ∨ Prepared loader job ∨ Answered loader job)) ∧
      (loader.startError = none → job.id ∉ loader.cancelled) := by
  -- The invariants hold of the new loader, and every small step keeps them.
  have halone : Alone loader := by
    apply Transition.Run.invariant (I := Alone) _ _ hrun
    · exact fun _ _ _ hloader hstep => alone_step hloader hstep
    · exact ⟨rfl, Nat.zero_le 1⟩
  have hturns : CountsTurns loader := by
    apply Transition.Run.invariant (I := CountsTurns) _ _ hrun
    · exact fun _ _ _ hloader hstep => countsTurns_step hloader hstep
    · refine ⟨rfl, fun k turn hturn => absurd hturn (by simp), ?_⟩
      exact fun _ hactive => absurd hactive (Option.some_ne_none _).symm
  have hkept : Numbered loader ∧ ∀ job, loader.current = some job → Kept loader job := by
    apply Transition.Run.invariant (I := fun loader => Numbered loader ∧
      ∀ job, loader.current = some job → Kept loader job) _ _ hrun
    · exact fun _ _ _ hloader hstep =>
        ⟨numbered_step hloader.1 hstep, kept_step hloader.1 hloader.2 hstep⟩
    · refine ⟨⟨?_, ?_, ?_⟩, fun _ hjob => absurd hjob (Option.some_ne_none _).symm⟩
      · exact fun _ hid => absurd hid List.not_mem_nil
      · exact fun _ hid => absurd hid (Option.some_ne_none _).symm
      · exact fun _ hid => absurd hid List.not_mem_nil
  refine ⟨fun generation haccepts => hturns.accepts haccepts, ?_, halone.peak, ?_⟩
  · rw [halone.active]
    cases loader.worker with
    | preparing job => exact Nat.le_refl 1
    | idle => exact Nat.zero_le 1
    | draining latest => exact Nat.zero_le 1
    | prepared job result => exact Nat.zero_le 1
    | responding job result => exact Nat.zero_le 1
  · exact fun job hjob => ⟨(hkept.2 job hjob).present, (hkept.2 job hjob).flag⟩

/-- Two requests one after the other: the first is answered too, but its generation is not
accepted any more. -/
theorem threadLoader_run_twoRequests : ∃ loader : ThreadLoader Nat,
    ((∀ generation, loader.accepts generation →
      ∃ older, loader.turns = older ++ [.begun generation] ∧
        (loader.turns.length ≤ u64Max → ∀ turn ∈ older, turn.generation ≠ generation)) ∧
    loader.metrics.activePreparations ≤ 1 ∧ loader.metrics.peakActivePreparations ≤ 1 ∧
    ∀ job, loader.current = some job →
      (Submitting loader job ∨
        loader.script = [] ∧ (Pending loader job ∨ Prepared loader job ∨ Answered loader job)) ∧
      (loader.startError = none → job.id ∉ loader.cancelled)) ∧
    loader.answered = [(⟨0, 1⟩, .ok 10)] ∧ loader.current = some ⟨1, 2⟩ ∧ loader.accepts 2 := by
  have hrun := Transition.run_of_exec (f := step)
    [.begin, .ui, .ui, .ui, .spawn 1, .ui, .ui, .ui, .worker (.ok 10), .worker (.ok 10),
      .worker (.ok 10), .begin, .ui, .ui, .ui, .worker (.ok 10), .worker (.ok 10), .spawn 2, .ui,
      .ui, .worker (.ok 10), .ui]
    (show Transition.exec step ({} : ThreadLoader Nat) _ = some _ from rfl)
  exact ⟨_, threadLoader_run hrun, rfl, rfl, rfl⟩

/-! ## Behind the end of the generations -/

/-- After as many cancels as there are generations the counter stands at its end. -/
theorem generations_exhausted (n : Nat) : ∃ trace turns,
    Transition.Run (Transition.Steps step) ({} : ThreadLoader Unit) trace
      { generation := min n u64Max, turns := turns } := by
  induction n with
  | zero => exact ⟨[], [], .nil⟩
  | succ n ih =>
    obtain ⟨trace, turns, hrun⟩ := ih
    have hnext : saturatingSucc (min n u64Max) = min (n + 1) u64Max := by
      unfold saturatingSucc
      omega
    have hcancel : Transition.exec step
        ({ generation := min n u64Max, turns := turns } : ThreadLoader Unit)
        [.cancel, .ui, .ui, .ui, .worker (.ok ()), .worker (.ok ())] =
        some { generation := saturatingSucc (min n u64Max)
               turns := turns ++ [.cancelled (saturatingSucc (min n u64Max))] } := rfl
    rw [hnext] at hcancel
    exact ⟨_, _, hrun.trans (Transition.run_of_exec _ hcancel)⟩

/-- A request that a later begin has cancelled is answered, and its generation is accepted: that
begin has the same number. -/
theorem cancelled_response_accepted : ∃ trace, ∃ loader : ThreadLoader Unit,
    Transition.Run (Transition.Steps step) {} trace loader ∧
      ∃ job result, (job, result) ∈ loader.answered ∧ job.id ∈ loader.cancelled ∧
        loader.current ≠ some job ∧ loader.accepts job.generation := by
  obtain ⟨trace, turns, hrun⟩ := generations_exhausted u64Max
  rw [Nat.min_self] at hrun
  have hrest := Transition.run_of_exec (f := step)
    [.begin, .ui, .ui, .ui, .spawn u64Max, .ui, .ui, .ui, .worker (.ok ()), .worker (.ok ()),
      .worker (.ok ()), .begin, .ui, .ui, .ui, .worker (.ok ()), .worker (.ok ()),
      .worker (.ok ())]
    (show Transition.exec step
      ({ generation := u64Max, turns := turns } : ThreadLoader Unit) _ = some _ from rfl)
  refine ⟨_, _, hrun.trans hrest, ⟨0, u64Max⟩, .ok (), List.mem_singleton_self _,
    List.mem_singleton_self _, (Option.some_ne_none _).symm, ?_⟩
  show some (saturatingSucc (saturatingSucc u64Max)) = some u64Max
  rw [saturatingSucc_max, saturatingSucc_max]

end ThreadLoader

end Notm.Ui
