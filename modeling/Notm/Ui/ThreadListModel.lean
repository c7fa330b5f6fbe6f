import Notm.Lib.Counter
import Mathlib

/-!
# The list model of the thread list

`ThreadListController`: the string list behind the thread rows and the idle callbacks that change
it a few rows at a time. Each change of the whole model takes a new generation, and a callback of
another generation stops; a refresh that finds a change under way waits in an idle callback of its
own.

A string list holds objects: putting a row in again makes another object, and the row is bound
anew. `ModelItem.identity` counts the objects in the order they are made.

* `ThreadListController` — the string list, its generations and its callbacks.
* `ModelWork` — what a callback has still to do, for at most a number of rows at a time.
* `step` — the calls, and the runs of the callbacks.
-/

namespace Notm.Ui

open Rust

/-- `THREAD_MODEL_ROWS_PER_UPDATE`. -/
def threadModelRowsPerUpdate : Nat := 48

/-- `ThreadListDisplay`. -/
structure ThreadListDisplay where
  numbers : Bool
  dates : Bool
  tags : Bool
  preview : Bool
  previewLines : Nat
  deriving DecidableEq, Repr

/-- The strings of the model, made by `thread_row_token` and `thread_status_token`. -/
inductive ThreadToken where
  | thread (index : Nat) (display : ThreadListDisplay)
  | status (message : List Char) (spinning : Bool)
  deriving DecidableEq, Repr

namespace ThreadToken

/-- `thread_index_from_model_token`. -/
def index? : ThreadToken → Option Nat
  | thread index _ => some index
  | status _ _ => none

@[simp] theorem index?_thread (index : Nat) (display : ThreadListDisplay) :
    (thread index display).index? = some index := rfl

@[simp] theorem index?_status (message : List Char) (spinning : Bool) :
    (status message spinning).index? = none := rfl

end ThreadToken

/-- One object of the string list. -/
structure ModelItem where
  identity : Nat
  token : ThreadToken
  deriving DecidableEq, Repr

/-- `ThreadModelSnapshot`. -/
structure ThreadModelSnapshot where
  len : Nat
  display : ThreadListDisplay
  deriving DecidableEq, Repr

/-- `ThreadModelUpdate`. -/
inductive ThreadModelUpdate where
  | replace
  | append (start count : Nat)
  deriving DecidableEq, Repr

/-- What a callback that changes the model has left to do. `κ` is what the completions carry. -/
inductive ModelWork (κ : Type) where
  /-- of `set_status_row` -/
  | status (token : ThreadToken)
  /-- of `refresh_rows_bounded`: the indices from `next` on -/
  | refresh (snapshot : ThreadModelSnapshot) (rest : List Nat) (force : Bool)
  /-- of `apply_model_update_then` -/
  | update (snapshot : ThreadModelSnapshot) (removing : Bool)
      (nextAdd endAdd nextRefresh refreshEnd : Nat) (complete : Option κ)
  deriving DecidableEq, Repr

/-- An idle callback, with the generations it compares. -/
inductive IdleCallback (κ : Type) where
  | model (generation : Nat) (work : ModelWork κ)
  /-- of `refresh_rows` while the model is busy -/
  | parked (refreshGeneration modelGeneration : Nat) (snapshot : ThreadModelSnapshot)
      (indices : List Nat) (force : Bool)
  deriving DecidableEq, Repr

/-- The completion of a callback. -/
def ModelWork.complete {κ : Type} : ModelWork κ → Option κ
  | status _ => none
  | refresh _ _ _ => none
  | update _ _ _ _ _ _ complete => complete

/-- `ThreadListController`, as far as the model goes. -/
structure ThreadListController (κ : Type) where
  model : List ModelItem
  nextIdentity : Nat
  busy : Bool
  modelUpdateGeneration : Nat
  refreshRequestGeneration : Nat
  idle : List (IdleCallback κ)
  deriving DecidableEq, Repr

namespace ThreadListController

variable {κ : Type}

/-- `ThreadListController::new`. -/
def new : ThreadListController κ where
  model := []
  nextIdentity := 0
  busy := false
  modelUpdateGeneration := 0
  refreshRequestGeneration := 0
  idle := []

/-! ## The string list -/

/-- `model.string(position)`. -/
def string (c : ThreadListController κ) (position : Nat) : Option ThreadToken :=
  c.model[position]?.map ModelItem.token

/-- `model.splice(position, 1, &[token])`. -/
def splice (c : ThreadListController κ) (position : Nat) (token : ThreadToken) :
    ThreadListController κ :=
  { c with
    model := c.model.set position ⟨c.nextIdentity, token⟩
    nextIdentity := c.nextIdentity + 1 }

/-- `model.splice(0, count, &[])`. -/
def removeFront (c : ThreadListController κ) (count : Nat) : ThreadListController κ :=
  { c with model := c.model.drop count }

/-- Objects for the tokens, numbered from `first` on. -/
def newItems (first : Nat) : List ThreadToken → List ModelItem
  | [] => []
  | token :: tokens => ⟨first, token⟩ :: newItems (first + 1) tokens

/-- `model.splice(model.n_items(), 0, &tokens)`. -/
def append (c : ThreadListController κ) (tokens : List ThreadToken) : ThreadListController κ :=
  { c with
    model := c.model ++ newItems c.nextIdentity tokens
    nextIdentity := c.nextIdentity + tokens.length }

/-- One row of a refresh: a forced refresh puts in a new object, another one only where the token
differs. -/
def refreshRow (snapshot : ThreadModelSnapshot) (force : Bool) (c : ThreadListController κ)
    (index : Nat) : ThreadListController κ :=
  if index < c.model.length then
    if force || c.string index != some (.thread index snapshot.display) then
      c.splice index (.thread index snapshot.display)
    else c
  else c

/-! ## The operations -/

/-- `cancel_model_update`. -/
def cancelModelUpdate (c : ThreadListController κ) : ThreadListController κ :=
  { c with
    modelUpdateGeneration := saturatingSucc c.modelUpdateGeneration
    busy := false }

/-- The common beginning of the changes of the model: the one under way is cancelled, and an idle
callback of a new generation is added. -/
def startWork (c : ThreadListController κ) (work : ModelWork κ) : ThreadListController κ :=
  let c := c.cancelModelUpdate
  let generation := saturatingSucc c.modelUpdateGeneration
  { c with
    modelUpdateGeneration := generation
    busy := true
    idle := c.idle ++ [.model generation work] }

/-- `set_status_row`. -/
def setStatusRow (c : ThreadListController κ) (message : List Char) (spinning : Bool) :
    ThreadListController κ :=
  c.startWork (.status (.status message spinning))

/-- `refresh_rows_now`. -/
def refreshRowsNow (c : ThreadListController κ) (snapshot : ThreadModelSnapshot)
    (indices : List Nat) (force : Bool) : ThreadListController κ :=
  (indices.filter (· < snapshot.len)).foldl (refreshRow snapshot force) c

/-- `refresh_rows_bounded`. -/
def refreshRowsBounded (c : ThreadListController κ) (snapshot : ThreadModelSnapshot)
    (indices : List Nat) (force : Bool) : ThreadListController κ :=
  c.startWork (.refresh snapshot (indices.filter (· < snapshot.len)) force)

/-- `refresh_rows_ready`. -/
def refreshRowsReady (c : ThreadListController κ) (snapshot : ThreadModelSnapshot)
    (indices : List Nat) (force : Bool) : ThreadListController κ :=
  if indices.length > threadModelRowsPerUpdate then
    c.refreshRowsBounded snapshot indices force
  else
    c.refreshRowsNow snapshot indices force

/-- `refresh_rows`. -/
def refreshRows (c : ThreadListController κ) (snapshot : ThreadModelSnapshot)
    (indices : List Nat) (force : Bool) : ThreadListController κ :=
  let refreshGeneration := saturatingSucc c.refreshRequestGeneration
  let c := { c with refreshRequestGeneration := refreshGeneration }
  if c.busy then
    { c with
      idle := c.idle ++
        [.parked refreshGeneration c.modelUpdateGeneration snapshot indices force] }
  else
    c.refreshRowsReady snapshot indices force

/-- The work of `apply_model_update_then`. -/
def updateWork (snapshot : ThreadModelSnapshot) (update : ThreadModelUpdate)
    (complete : Option κ) : ModelWork κ :=
  match update with
  | .replace => .update snapshot true 0 snapshot.len 0 0 complete
  | .append start count =>
    .update snapshot false start (min (start + count) snapshot.len) 0 (min start snapshot.len)
      complete

/-- `apply_model_update_then`; `apply_model_update` has no completion. -/
def applyModelUpdateThen (c : ThreadListController κ) (snapshot : ThreadModelSnapshot)
    (update : ThreadModelUpdate) (complete : Option κ) : ThreadListController κ :=
  c.startWork (updateWork snapshot update complete)

/-! ## The idle callbacks -/

/-- One run of the callback of `set_status_row`: the rows go first, then the status row comes. -/
def runStatus (c : ThreadListController κ) (token : ThreadToken) :
    ThreadListController κ × Option (ModelWork κ) :=
  let count := min c.model.length threadModelRowsPerUpdate
  if count > 0 then (c.removeFront count, some (.status token))
  else (c.append [token], none)

/-- One run of the callback of `refresh_rows_bounded`. -/
def runRefresh (c : ThreadListController κ) (snapshot : ThreadModelSnapshot) (rest : List Nat)
    (force : Bool) : ThreadListController κ × Option (ModelWork κ) :=
  let left := rest.drop threadModelRowsPerUpdate
  ((rest.take threadModelRowsPerUpdate).foldl (refreshRow snapshot force) c,
    if left.isEmpty then none else some (.refresh snapshot left force))

/-- The tokens of `count` rows from `start` on. -/
def rowTokens (snapshot : ThreadModelSnapshot) (start count : Nat) : List ThreadToken :=
  (List.range' start count).map (.thread · snapshot.display)

/-- An update once nothing is left to remove: the additions that the budget allows, and after the
last of them the rows to refresh. -/
def runAdditions (c : ThreadListController κ) (snapshot : ThreadModelSnapshot)
    (budget nextAdd endAdd nextRefresh refreshEnd : Nat) (complete : Option κ) :
    ThreadListController κ × Option (ModelWork κ) :=
  let added := min budget (endAdd - nextAdd)
  let c := c.append (rowTokens snapshot nextAdd added)
  if nextAdd + added < endAdd then
    (c, some (.update snapshot false (nextAdd + added) endAdd nextRefresh refreshEnd complete))
  else
    let refreshed := min (budget - added) (refreshEnd - nextRefresh)
    ((List.range' nextRefresh refreshed).foldl (refreshRow snapshot false) c,
      if nextRefresh + refreshed < refreshEnd then
        some (.update snapshot false (nextAdd + added) endAdd (nextRefresh + refreshed) refreshEnd
          complete)
      else none)

/-- One run of the callback of `apply_model_update_then`. -/
def runUpdate (c : ThreadListController κ) (snapshot : ThreadModelSnapshot) (removing : Bool)
    (nextAdd endAdd nextRefresh refreshEnd : Nat) (complete : Option κ) :
    ThreadListController κ × Option (ModelWork κ) :=
  if removing then
    let removed := min c.model.length threadModelRowsPerUpdate
    let c := c.removeFront removed
    if c.model.isEmpty then
      c.runAdditions snapshot (threadModelRowsPerUpdate - removed) nextAdd endAdd nextRefresh
        refreshEnd complete
    else (c, some (.update snapshot true nextAdd endAdd nextRefresh refreshEnd complete))
  else
    c.runAdditions snapshot threadModelRowsPerUpdate nextAdd endAdd nextRefresh refreshEnd complete

/-- One run of a callback that is still the newest: the model after it, and the work left. -/
def runWork (c : ThreadListController κ) : ModelWork κ →
    ThreadListController κ × Option (ModelWork κ)
  | .status token => c.runStatus token
  | .refresh snapshot rest force => c.runRefresh snapshot rest force
  | .update snapshot removing nextAdd endAdd nextRefresh refreshEnd complete =>
    c.runUpdate snapshot removing nextAdd endAdd nextRefresh refreshEnd complete

/-- The idle callback at place `k` runs. With the state comes the completion it calls, told
whether the update was applied. -/
def runIdle (c : ThreadListController κ) (k : Nat) :
    Option (ThreadListController κ × Option (κ × Bool)) :=
  match c.idle[k]? with
  | none => none
  | some (.model generation work) =>
    if c.modelUpdateGeneration ≠ generation then
      some ({ c with idle := c.idle.eraseIdx k }, work.complete.map fun f => (f, false))
    else
      match c.runWork work with
      | (c, some rest) => some ({ c with idle := c.idle.set k (.model generation rest) }, none)
      | (c, none) =>
        some ({ c with busy := false, idle := c.idle.eraseIdx k },
          work.complete.map fun f => (f, true))
  | some (.parked refreshGeneration modelGeneration snapshot indices force) =>
    if c.refreshRequestGeneration ≠ refreshGeneration ∨
        c.modelUpdateGeneration ≠ modelGeneration then
      some ({ c with idle := c.idle.eraseIdx k }, none)
    else if c.busy then some (c, none)
    else
      let c := { c with idle := c.idle.eraseIdx k }
      some (c.refreshRowsReady snapshot indices force, none)

end ThreadListController

/-- The calls of the thread list, and the runs of its idle callbacks. -/
inductive ThreadListEvent (κ : Type) where
  | refreshRows (snapshot : ThreadModelSnapshot) (indices : List Nat) (force : Bool)
  | applyModelUpdate (snapshot : ThreadModelSnapshot) (update : ThreadModelUpdate)
      (complete : Option κ)
  | setStatusRow (message : List Char) (spinning : Bool)
  | cancelModelUpdate
  | idle (k : Nat)
  deriving DecidableEq, Repr

namespace ThreadListController

variable {κ : Type}

/-- One call, or one run of an idle callback. -/
def step (c : ThreadListController κ) : ThreadListEvent κ → Option (ThreadListController κ)
  | .refreshRows snapshot indices force => some (c.refreshRows snapshot indices force)
  | .applyModelUpdate snapshot update complete =>
    some (c.applyModelUpdateThen snapshot update complete)
  | .setStatusRow message spinning => some (c.setStatusRow message spinning)
  | .cancelModelUpdate => some c.cancelModelUpdate
  | .idle k => (c.runIdle k).map Prod.fst

/-! ## What the parts do -/

section

variable {c : ThreadListController κ}

@[simp] theorem splice_model (position : Nat) (token : ThreadToken) :
    (c.splice position token).model = c.model.set position ⟨c.nextIdentity, token⟩ := rfl

@[simp] theorem append_model (tokens : List ThreadToken) :
    (c.append tokens).model = c.model ++ newItems c.nextIdentity tokens := rfl

theorem newItems_token (first : Nat) (tokens : List ThreadToken) :
    (newItems first tokens).map ModelItem.token = tokens := by
  induction tokens generalizing first with
  | nil => rfl
  | cons token tokens ih => simp [newItems, ih]

theorem newItems_identities (first : Nat) (tokens : List ThreadToken) :
    (newItems first tokens).map ModelItem.identity = List.range' first tokens.length := by
  induction tokens generalizing first with
  | nil => rfl
  | cons token tokens ih => simp [newItems, ih, List.range'_succ]

theorem newItems_nodup (first : Nat) (tokens : List ThreadToken) :
    ((newItems first tokens).map ModelItem.identity).Nodup := by
  rw [newItems_identities]
  exact List.nodup_range'

theorem newItems_identity {first : Nat} {tokens : List ThreadToken} {item : ModelItem}
    (h : item ∈ newItems first tokens) :
    first ≤ item.identity ∧ item.identity < first + tokens.length := by
  have hmem : item.identity ∈ (newItems first tokens).map ModelItem.identity :=
    List.mem_map_of_mem h
  rw [newItems_identities, List.mem_range'_1] at hmem
  exact hmem

end

end ThreadListController

end Notm.Ui
