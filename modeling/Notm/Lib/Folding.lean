import Notm.Lib.Rust

/-!
# Folded header fields

A header field is written on physical lines, each ended by CRLF, and every line after the first
starts with white space. Unfolding removes each CRLF that white space follows. Where no line holds
a carriage return, the lines can be told from the text again, and unfolding it puts them one after
the other.

* `wireLines_joinLines` — the lines of a text of lines are these lines.
* `unfold_joinLines_cons` — a field whose further lines start with white space unfolds to its lines,
  one after the other.
-/

namespace Folding

open Rust

def crlf : Bytes := [0x0D, 0x0A]

/-- The lines of a text, with the bytes of the current line in `current`. -/
def wireLinesFrom (current : Bytes) : Bytes → List Bytes
  | [] => if current = [] then [] else [current]
  | 0x0D :: 0x0A :: rest => current :: wireLinesFrom [] rest
  | byte :: rest => wireLinesFrom (current ++ [byte]) rest

/-- The lines of a text without their endings. -/
def wireLines (text : Bytes) : List Bytes := wireLinesFrom [] text

def unfold : Bytes → Bytes
  | [] => []
  | 0x0D :: 0x0A :: 0x20 :: rest => 0x20 :: unfold rest
  | 0x0D :: 0x0A :: 0x09 :: rest => 0x09 :: unfold rest
  | byte :: rest => byte :: unfold rest

/-- A text of lines. -/
def joinLines (lines : List Bytes) : Bytes := lines.flatMap (· ++ crlf)

@[simp] theorem joinLines_nil : joinLines [] = [] := rfl

@[simp] theorem joinLines_cons (line : Bytes) (lines : List Bytes) :
    joinLines (line :: lines) = line ++ (crlf ++ joinLines lines) := by
  unfold joinLines
  rw [List.flatMap_cons, List.append_assoc]

@[simp] theorem joinLines_append (first second : List Bytes) :
    joinLines (first ++ second) = joinLines first ++ joinLines second :=
  List.flatMap_append

/-! ## Lines -/

variable {line rest : Bytes}

theorem wireLinesFrom_cons {byte : UInt8} (h : byte ≠ 0x0D) (current rest : Bytes) :
    wireLinesFrom current (byte :: rest) = wireLinesFrom (current ++ [byte]) rest := by
  rw [wireLinesFrom.eq_def]
  split
  · next heq => exact absurd heq (List.cons_ne_nil _ _)
  · next heq => exact absurd (List.cons.inj heq).1 h
  · next heq =>
    obtain ⟨rfl, rfl⟩ := List.cons.inj heq
    rfl

theorem wireLinesFrom_append (h : 0x0D ∉ line) (current rest : Bytes) :
    wireLinesFrom current (line ++ rest) = wireLinesFrom (current ++ line) rest := by
  induction line generalizing current with
  | nil => rw [List.append_nil, List.nil_append]
  | cons byte line ih =>
    obtain ⟨hbyte, hline⟩ := not_or.1 (List.mem_cons.not.1 h)
    rw [List.cons_append, wireLinesFrom_cons (Ne.symm hbyte), ih hline, List.append_assoc]
    rfl

theorem wireLines_joinLines {lines : List Bytes} (h : ∀ line ∈ lines, 0x0D ∉ line) :
    wireLines (joinLines lines) = lines := by
  induction lines with
  | nil => rfl
  | cons line lines ih =>
    have hrest := ih fun line hline => h line (List.mem_cons_of_mem _ hline)
    show wireLinesFrom [] (joinLines (line :: lines)) = line :: lines
    rw [joinLines_cons, wireLinesFrom_append (h line List.mem_cons_self), List.nil_append]
    show line :: wireLinesFrom [] (joinLines lines) = line :: lines
    exact congrArg (line :: ·) hrest

/-! ## Unfolding -/

theorem unfold_cons {byte : UInt8} (h : byte ≠ 0x0D) (rest : Bytes) :
    unfold (byte :: rest) = byte :: unfold rest := by
  rw [unfold.eq_def]
  split
  · next heq => exact absurd heq (List.cons_ne_nil _ _)
  · next heq => exact absurd (List.cons.inj heq).1 h
  · next heq => exact absurd (List.cons.inj heq).1 h
  · next heq =>
    obtain ⟨rfl, rfl⟩ := List.cons.inj heq
    rfl

theorem unfold_append (h : 0x0D ∉ line) (rest : Bytes) :
    unfold (line ++ rest) = line ++ unfold rest := by
  induction line with
  | nil => rfl
  | cons byte line ih =>
    obtain ⟨hbyte, hline⟩ := not_or.1 (List.mem_cons.not.1 h)
    rw [List.cons_append, unfold_cons (Ne.symm hbyte), ih hline, List.cons_append]

/-- White space at the start of a line takes its CRLF away. -/
theorem unfold_crlf (h : line.head? = some 0x20 ∨ line.head? = some 0x09) (rest : Bytes) :
    unfold (crlf ++ (line ++ rest)) = unfold (line ++ rest) := by
  cases line with
  | nil => exact absurd h (by simp)
  | cons byte line =>
    rcases h with hbyte | hbyte
    · obtain rfl := Option.some.inj hbyte
      exact (unfold_cons (by decide) _).symm
    · obtain rfl := Option.some.inj hbyte
      exact (unfold_cons (by decide) _).symm

/-- A folded field is unfolded to its lines put one after the other: every CRLF but the last is
followed by white space, and so it goes. -/
theorem unfold_joinLines_cons {lines : List Bytes} (hline : 0x0D ∉ line)
    (hcr : ∀ line ∈ lines, 0x0D ∉ line)
    (hstart : ∀ line ∈ lines, line.head? = some 0x20 ∨ line.head? = some 0x09) :
    unfold (joinLines (line :: lines)) = line ++ (lines.flatten ++ crlf) := by
  induction lines generalizing line with
  | nil =>
    rw [joinLines_cons, unfold_append hline]
    rfl
  | cons next lines ih =>
    have hrest := ih (hcr next List.mem_cons_self)
      (fun line hline => hcr line (List.mem_cons_of_mem _ hline))
      (fun line hline => hstart line (List.mem_cons_of_mem _ hline))
    -- The CRLF between the first line and the next one goes, for the next line starts with white
    -- space.
    have hnext := unfold_crlf (hstart next List.mem_cons_self) (crlf ++ joinLines lines)
    rw [joinLines_cons, unfold_append hline, joinLines_cons, hnext, ← joinLines_cons, hrest,
      List.flatten_cons, List.append_assoc]

end Folding
