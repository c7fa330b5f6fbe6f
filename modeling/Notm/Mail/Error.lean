import Notm.Lib.Except
import Notm.Lib.Rust

/-!
# Errors of the mail crate

`anyhow::Error` as the chain of its messages, and `MimeLimitError`. A `Fault` is what a call
can end with instead of a value: an error, or a panic of an index, a slice or an `expect`.

* `MimeLimitError.display`, `Error.displayChain` — the texts of the errors.
* `Res` — the results of calls that can also panic, with a simp lemma for each way to make one.
-/

namespace Notm.Mail

open Rust

/-- `MimeLimitError`. -/
inductive MimeLimitError where
  | depth (actual limit : Nat)
  | parts (limit : Nat)
  | decodedPart (part : Text) (limit : Nat)
  | totalDecoded (limit : Nat)
  deriving DecidableEq, Repr

/-- The `#[error]` texts of `MimeLimitError`. -/
def MimeLimitError.display : MimeLimitError → Text
  | depth actual limit =>
    lit "message has MIME nesting depth " ++ [.lit (natText actual)] ++
      lit ", exceeding the limit of " ++ [.lit (natText limit)]
  | parts limit =>
    lit "message has more than the allowed " ++ [.lit (natText limit)] ++ lit " MIME parts"
  | decodedPart part limit =>
    part ++ lit " may decode to more than the " ++ [.lit (natText limit)] ++
      lit "-byte per-part limit"
  | totalDecoded limit =>
    lit "decoded MIME content exceeds the " ++ [.lit (natText limit)] ++
      lit "-byte aggregate limit"

/-- `anyhow::Error`. -/
inductive Error where
  /-- `anyhow!` and `bail!`. -/
  | msg (text : Text)
  /-- An error with a `context` around it. -/
  | context (text : Text) (source : Error)
  | mimeLimit (error : MimeLimitError)
  /-- An error of another crate, by its `Display` text. -/
  | crate (text : Str)
  deriving DecidableEq, Repr

/-- `format!("{error:#}")`: the messages of the chain, outermost first. -/
def Error.displayChain : Error → Text
  | msg text => text
  | context text source => text ++ lit ": " ++ source.displayChain
  | mimeLimit error => error.display
  | crate text => [.lit text]

/-- What a call ends with when it does not return a value. -/
inductive Fault where
  | error (error : Error)
  | panic
  deriving DecidableEq, Repr

/-- The result of a call that may return an error or panic. -/
abbrev Res (α : Type) := Except Fault α

namespace Res

/-- `bail!`. -/
def bail {α : Type} (text : Text) : Res α := .error (.error (.msg text))

/-- `ensure!`. -/
def ensure (condition : Bool) (text : Text) : Res Unit :=
  if condition then .ok () else bail text

/-- A value that the code takes for granted: a slice in range, an `expect`. -/
def orPanic {α : Type} : Option α → Res α
  | some a => .ok a
  | none => .error .panic

/-- `with_context`. -/
def withContext {α : Type} (text : Text) : Res α → Res α
  | .ok a => .ok a
  | .error (.error e) => .error (.error (.context text e))
  | .error .panic => .error .panic

@[simp] theorem ensure_eq_ok {c : Bool} {t : Text} {u : Unit} :
    ensure c t = .ok u ↔ c = true := by
  cases c <;> simp [ensure, bail]

@[simp] theorem bail_ne_ok {α : Type} {t : Text} {a : α} : (bail t : Res α) ≠ .ok a := by
  simp [bail]

@[simp] theorem orPanic_eq_ok {α : Type} {o : Option α} {a : α} :
    orPanic o = .ok a ↔ o = some a := by
  cases o <;> simp [orPanic]

@[simp] theorem withContext_eq_ok {α : Type} {t : Text} {r : Res α} {a : α} :
    withContext t r = .ok a ↔ r = .ok a := by
  rcases r with (e | _) | a <;> simp [withContext]

end Res

end Notm.Mail
