import Notm.Lib.Folding

/-!
# Header sections

The header section of a message is made of the lines before the first empty one. A line that starts
with white space goes on with the field before it, and the name of a field is what stands before
its first colon. Fields that are written one after the other are read back as they are, whatever
follows the empty line.

* `headerLines_eq` — the lines before the first empty one are those of the fields.
* `fields_flatten` — the lines of several fields are divided into these fields again.
* `read_fields` — fields that are written are read back with their names, whatever follows.
-/

namespace HeaderSection

open Rust Folding

/-- The lines before the first empty one. -/
def headerLines (text : Bytes) : List Bytes := (wireLines text).takeWhile fun line => line ≠ []

/-- A line that goes on with the field before it. -/
def isFolded (line : Bytes) : Bool := line.head? = some 0x20 || line.head? = some 0x09

/-- The fields from some lines on, with the lines of the current field in `current`. -/
def fieldsFrom (current : List Bytes) : List Bytes → List (List Bytes)
  | [] => [current]
  | line :: rest =>
    if isFolded line then fieldsFrom (current ++ [line]) rest else current :: fieldsFrom [line] rest

/-- The fields of a header section, each by its lines. -/
def fields : List Bytes → List (List Bytes)
  | [] => []
  | line :: rest => fieldsFrom [line] rest

def fieldName (field : List Bytes) : Bytes := (field.headD []).takeWhile fun byte => byte ≠ 0x3A

/-- White space only. -/
def IsBlank (line : Bytes) : Prop := ∀ byte ∈ line, byte = 0x20 ∨ byte = 0x09

/-- The name of a field: printing characters without a colon. -/
structure IsName (name : Bytes) : Prop where
  nonempty : name ≠ []
  printing : ∀ byte ∈ name, 0x20 < byte ∧ byte ≠ 0x3A

/-- What goes on with a field. -/
structure IsContinuation (line : Bytes) : Prop where
  folded : isFolded line = true
  notBlank : ¬ IsBlank line

/-- The lines of a field. -/
structure IsField (name : Bytes) (field : List Bytes) : Prop where
  opens : ∃ value rest, field = (name ++ 0x3A :: value) :: rest ∧ ∀ line ∈ rest, IsContinuation line
  clean : ∀ line ∈ field, 0x0D ∉ line ∧ 0x0A ∉ line

variable {name : Bytes} {names : List Bytes} {field : List Bytes} {groups : List (List Bytes)}

/-! ## One field -/

theorem wireLines_joinLines_append {lines : List Bytes} (h : ∀ line ∈ lines, 0x0D ∉ line)
    (rest : Bytes) : wireLines (joinLines lines ++ rest) = lines ++ wireLines rest := by
  induction lines with
  | nil => rfl
  | cons line lines ih =>
    have hrest := ih fun line hline => h line (List.mem_cons_of_mem _ hline)
    show wireLinesFrom [] (joinLines (line :: lines) ++ rest) = line :: (lines ++ wireLines rest)
    rw [joinLines_cons, List.append_assoc, wireLinesFrom_append (h line List.mem_cons_self),
      List.nil_append]
    show line :: wireLinesFrom [] (joinLines lines ++ rest) = _
    exact congrArg (line :: ·) hrest

theorem IsName.not_folded (h : IsName name) (rest : Bytes) : isFolded (name ++ rest) = false := by
  cases name with
  | nil => exact absurd rfl h.nonempty
  | cons byte name =>
    have hbyte := (h.printing byte List.mem_cons_self).1
    have hspace : byte ≠ 0x20 := fun heq => absurd hbyte (by rw [heq]; decide)
    have htab : byte ≠ 0x09 := fun heq => absurd hbyte (by rw [heq]; decide)
    simp [isFolded, hspace, htab]

theorem IsName.takeWhile (h : IsName name) (value : Bytes) :
    (name ++ 0x3A :: value).takeWhile (fun byte => byte ≠ 0x3A) = name := by
  rw [List.takeWhile_append_of_pos]
  · simp
  · exact fun byte hbyte => decide_eq_true (h.printing byte hbyte).2

namespace IsField

theorem fieldName_eq (h : IsField name field) (hname : IsName name) : fieldName field = name := by
  obtain ⟨value, rest, rfl, -⟩ := h.opens
  exact hname.takeWhile value

/-- No line of a field is white space only. -/
theorem not_blank (h : IsField name field) : ∀ line ∈ field, ¬ IsBlank line := by
  obtain ⟨value, rest, rfl, hrest⟩ := h.opens
  intro line hline
  rcases List.mem_cons.1 hline with rfl | hline
  · intro hblank
    have hcolon := hblank 0x3A (by simp)
    exact absurd hcolon (by decide)
  · exact (hrest line hline).notBlank

end IsField

/-! ## All fields -/

theorem fieldsFrom_continuations {rest : List Bytes} (h : ∀ line ∈ rest, IsContinuation line)
    (current more : List Bytes) :
    fieldsFrom current (rest ++ more) = fieldsFrom (current ++ rest) more := by
  induction rest generalizing current with
  | nil => rw [List.nil_append, List.append_nil]
  | cons line rest ih =>
    obtain ⟨hline, hrest⟩ := List.forall_mem_cons.1 h
    rw [List.cons_append, fieldsFrom, if_pos hline.folded, ih hrest, List.append_assoc]
    rfl

theorem fieldsFrom_flatten (hnames : ∀ name ∈ names, IsName name)
    (h : List.Forall₂ IsField names groups) (current : List Bytes) :
    fieldsFrom current groups.flatten = current :: groups := by
  induction h generalizing current with
  | nil => rfl
  | @cons name field names groups hfield _ ih =>
    obtain ⟨hname, hnames⟩ := List.forall_mem_cons.1 hnames
    obtain ⟨value, rest, rfl, hrest⟩ := hfield.opens
    have hopens : isFolded (name ++ 0x3A :: value) = false := hname.not_folded _
    rw [List.flatten_cons, List.cons_append, fieldsFrom, hopens]
    simp only [Bool.false_eq_true, if_false]
    rw [fieldsFrom_continuations hrest, ih hnames]
    rfl

theorem fields_flatten (hnames : ∀ name ∈ names, IsName name)
    (h : List.Forall₂ IsField names groups) : fields groups.flatten = groups := by
  cases h with
  | nil => rfl
  | @cons name field names groups hfield hrest =>
    obtain ⟨value, rest, rfl, hlines⟩ := hfield.opens
    obtain ⟨-, hnames⟩ := List.forall_mem_cons.1 hnames
    rw [List.flatten_cons, List.cons_append, fields, fieldsFrom_continuations hlines,
      fieldsFrom_flatten hnames hrest]
    rfl

theorem mem_flatten_iff_field (h : List.Forall₂ IsField names groups) {line : Bytes}
    (hline : line ∈ groups.flatten) : ∃ name field, IsField name field ∧ line ∈ field := by
  obtain ⟨field, hfield, hmem⟩ := List.mem_flatten.1 hline
  obtain ⟨i, hi, rfl⟩ := List.mem_iff_getElem.1 hfield
  have hnames : i < names.length := h.length_eq ▸ hi
  exact ⟨names[i], groups[i], h.get hnames hi, hmem⟩

/-- Fields that are written before an empty line are read back. -/
theorem headerLines_eq (h : List.Forall₂ IsField names groups) (body : Bytes) :
    headerLines (joinLines groups.flatten ++ (crlf ++ body)) = groups.flatten := by
  have hclean : ∀ line ∈ groups.flatten, 0x0D ∉ line ∧ ¬ IsBlank line := by
    intro line hline
    obtain ⟨name, field, hfield, hmem⟩ := mem_flatten_iff_field h hline
    exact ⟨(hfield.clean line hmem).1, hfield.not_blank line hmem⟩
  unfold headerLines
  rw [wireLines_joinLines_append fun line hline => (hclean line hline).1,
    List.takeWhile_append_of_pos]
  · show groups.flatten ++ (([] : Bytes) :: wireLinesFrom [] body).takeWhile _ = _
    simp
  · intro line hline
    refine decide_eq_true fun hnil => (hclean line hline).2 ?_
    rw [hnil]
    exact fun byte hbyte => absurd hbyte List.not_mem_nil

/-- The names are those of the fields, in their order, and no line is blank or holds a CR or LF. The
names have to be names and the fields fields (`IsName`, `IsField`); of the body nothing is asked. -/
theorem read_fields (hnames : ∀ name ∈ names, IsName name)
    (h : List.Forall₂ IsField names groups) (body : Bytes) :
    (fields (headerLines (joinLines groups.flatten ++ (crlf ++ body)))).map fieldName = names ∧
      ∀ line ∈ headerLines (joinLines groups.flatten ++ (crlf ++ body)),
        ¬ IsBlank line ∧ 0x0D ∉ line ∧ 0x0A ∉ line := by
  rw [headerLines_eq h]
  refine ⟨?_, ?_⟩
  · rw [fields_flatten hnames h]
    induction h with
    | nil => rfl
    | cons hfield _ ih =>
      obtain ⟨hname, hnames⟩ := List.forall_mem_cons.1 hnames
      rw [List.map_cons, hfield.fieldName_eq hname, ih hnames]
  · intro line hline
    obtain ⟨name, field, hfield, hmem⟩ := mem_flatten_iff_field h hline
    exact ⟨hfield.not_blank line hmem, hfield.clean line hmem⟩

end HeaderSection
