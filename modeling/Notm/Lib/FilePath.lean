import Notm.Lib.OsString

/-!
# Paths

`Path` on Unix as its components, which is what paths are compared by. A component is what stands
between two slashes; empty ones and dots are none, but for a dot at the beginning of a relative
path.

* `join_of_isFileName` — joining a file name appends it as one component.
* `fileName_concat`, `parent_concat`, `withFileName_concat` — such a path taken apart again.
-/

namespace Rust

inductive PathComponent where
  | rootDir
  | curDir
  | parentDir
  | normal (name : OsString)
deriving DecidableEq

abbrev FilePath := List PathComponent

namespace FilePath

def slash : OsUnit := .char '/'

def component (piece : OsString) : Option PathComponent :=
  if piece = [] ∨ piece = [OsString.dot] then none
  else if piece = [OsString.dot, OsString.dot] then some .parentDir
  else some (.normal piece)

/-- `Path::join`. An absolute path takes the place of the whole. -/
def join (path : FilePath) (name : OsString) : FilePath :=
  let components := (name.splitOn slash).filterMap component
  if name.head? = some slash then .rootDir :: components
  else if path = [] ∧ (name.splitOn slash).head? = some [OsString.dot] then .curDir :: components
  else path ++ components

/-- `Path::file_name`. -/
def fileName (path : FilePath) : Option OsString :=
  match path.getLast? with
  | some (.normal name) => some name
  | _ => none

/-- `Path::parent`. -/
def parent (path : FilePath) : Option FilePath :=
  match path.getLast? with
  | none | some .rootDir => none
  | some _ => some path.dropLast

/-- `Path::with_file_name`. -/
def withFileName (path : FilePath) (name : OsString) : FilePath :=
  join (if (fileName path).isSome then path.dropLast else path) name

/-- The names that files may have. -/
structure IsFileName (name : OsString) : Prop where
  nonempty : name ≠ []
  noSlash : slash ∉ name
  notDot : name ≠ [OsString.dot]
  notDots : name ≠ [OsString.dot, OsString.dot]

variable {path : FilePath} {name : OsString}

/-- A name that a file may have is one component: it holds no slash and is none of the names that
`Path::join` reads in a special way. -/
theorem join_of_isFileName (h : IsFileName name) : join path name = path ++ [.normal name] := by
  have hpieces : name.splitOn slash = [name] := by
    refine List.splitOnP_eq_singleton fun unit hunit => ?_
    exact beq_false_of_ne fun heq => h.noSlash (heq ▸ hunit)
  have hcomponent : component name = some (.normal name) := by
    unfold component
    rw [if_neg (not_or.2 ⟨h.nonempty, h.notDot⟩), if_neg h.notDots]
  have hhead : name.head? ≠ some slash := fun hslash =>
    h.noSlash (List.mem_of_mem_head? hslash)
  have hdot : ¬ (path = [] ∧ [name].head? = some [OsString.dot]) := fun hboth =>
    h.notDot (Option.some.inj hboth.2)
  unfold join
  dsimp only
  rw [if_neg hhead, hpieces, if_neg hdot, List.filterMap_cons_some hcomponent]
  rfl

@[simp] theorem fileName_concat (path : FilePath) (name : OsString) :
    fileName (path ++ [.normal name]) = some name := by
  unfold fileName
  rw [List.getLast?_concat]

@[simp] theorem parent_concat (path : FilePath) (name : OsString) :
    parent (path ++ [.normal name]) = some path := by
  unfold parent
  rw [List.getLast?_concat, List.dropLast_concat]

theorem withFileName_concat {other : OsString} (h : IsFileName other) :
    withFileName (path ++ [.normal name]) other = path ++ [.normal other] := by
  unfold withFileName
  rw [fileName_concat, Option.isSome_some, if_pos rfl, List.dropLast_concat, join_of_isFileName h]

end FilePath

end Rust
