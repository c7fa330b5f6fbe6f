import Notm.Lib.LineEndings
import Notm.Mail.TokenHeader

/-!
# Line endings on the wire

`normalize_line_endings` is applied to every body before it is written, `validate_wire` to the
message in the end. What the first returns passes the checks of the second for a CR and an LF that
stand alone.

* `Paired` — a CR and an LF stand side by side only.
* `normalizeLineEndings_eq` — the loop of `normalize_line_endings` as a function on lists.
* `paired_normalize`, `normalize_normalize`, `breakLines_normalize` — what normalizing does.
* `validateWire_paired` — a text in pairs passes the checks for a CR and an LF that stand alone.
-/

namespace Notm.Mail

open Rust Folding LineEndings

/-! ## The functions -/

/-- The loop of `normalize_line_endings`. -/
def normalizeLineEndingsFrom (input : Bytes) (index : Nat) (normalized : Bytes) : Bytes :=
  if h : index < input.length then
    if input[index] = 0x0D then
      let last := if input[index + 1]? = some 0x0A then index + 1 else index
      normalizeLineEndingsFrom input (last + 1) (normalized ++ crlf)
    else if input[index] = 0x0A then
      normalizeLineEndingsFrom input (index + 1) (normalized ++ crlf)
    else normalizeLineEndingsFrom input (index + 1) (normalized ++ [input[index]])
  else normalized
termination_by input.length - index
decreasing_by
  all_goals grind

def normalizeLineEndings (input : Bytes) : Bytes := normalizeLineEndingsFrom input 0 []

/-- `String::from_utf8` and its `expect` are a decoding that may panic. -/
def normalizeBody (body : Str) : Res Str :=
  Res.orPanic (Utf8.decode (normalizeLineEndings (Utf8.encode body)))

/-- Nothing is added where the text ends with CRLF already. -/
def ensureCrlfTerminated (out : Bytes) : Bytes := if crlf <:+ out then out else out ++ crlf

def bareCarriageReturn : Text := lit "rendered message contains a bare carriage return"

def bareLineFeed : Text := lit "rendered message contains a bare line feed"

/-- The loop of `validate_wire`, which ends with the start of the last line. -/
def validateWireFrom (bytes : Bytes) (lineStart index : Nat) : Res Nat :=
  if h : index < bytes.length then
    if bytes[index] = 0x0D then do
      Res.ensure (bytes[index + 1]? = some 0x0A) bareCarriageReturn
      Res.ensure (index - lineStart ≤ maxWireLineLength)
        (lit "rendered message contains a line longer than " ++
        [.lit (natText maxWireLineLength)] ++
          lit " bytes")
      validateWireFrom bytes (index + 2) (index + 2)
    else if bytes[index] = 0x0A then Res.bail bareLineFeed
    else validateWireFrom bytes lineStart (index + 1)
  else .ok lineStart
termination_by bytes.length - index

/-- Every line ends with CRLF and keeps to the limit, the last one included. -/
def validateWire (bytes : Bytes) : Res Unit := do
  let lineStart ← validateWireFrom bytes 0 0
  Res.ensure (lineStart = bytes.length) (lit "rendered message does not end with CRLF")

variable {bytes : Bytes} {body : Str}

/-! ## Normalizing -/

theorem drop_of_getElem?_eq_some {index : Nat} {byte : UInt8} (h : bytes[index]? = some byte) :
    bytes.drop index = byte :: bytes.drop (index + 1) := by
  obtain ⟨hindex, rfl⟩ := List.getElem?_eq_some_iff.1 h
  exact List.drop_eq_getElem_cons hindex

theorem of_drop_eq_cons {index : Nat} {byte : UInt8} {rest : Bytes}
    (h : bytes.drop index = byte :: rest) :
    ∃ hlt : index < bytes.length, bytes[index] = byte ∧ bytes.drop (index + 1) = rest := by
  have hlt : index < bytes.length := by
    by_contra hge
    rw [List.drop_eq_nil_of_le (Nat.le_of_not_lt hge)] at h
    exact absurd h (by simp)
  rw [List.drop_eq_getElem_cons hlt] at h
  exact ⟨hlt, (List.cons.inj h).1, (List.cons.inj h).2⟩

/-- From any byte on, the loop appends what normalizing the rest gives. -/
theorem normalizeLineEndingsFrom_eq (input : Bytes) (index : Nat) (normalized : Bytes) :
    normalizeLineEndingsFrom input index normalized =
      normalized ++ normalize (input.drop index) := by
  fun_induction normalizeLineEndingsFrom input index normalized with
  | case1 index normalized h hcr last ih =>
    rw [List.drop_eq_getElem_cons h, hcr]
    by_cases hlf : input[index + 1]? = some 0x0A
    · have hlast : last = index + 1 := if_pos hlf
      rw [ih, hlast, drop_of_getElem?_eq_some hlf]
      show _ = normalized ++ (0x0D :: 0x0A :: normalize (input.drop (index + 1 + 1)))
      rw [List.append_assoc]
      rfl
    · have hlast : last = index := if_neg hlf
      -- The byte behind the CR, where there is one, is not its LF.
      have hnext : ∀ tail, input.drop (index + 1) = 0x0A :: tail → False := by
        intro tail htail
        have hhead := congrArg List.head? htail
        rw [List.head?_drop] at hhead
        exact hlf hhead
      rw [ih, hlast, normalize_cr hnext, List.append_assoc]
      rfl
  | case2 index normalized h hcr hlf ih =>
    rw [ih, List.drop_eq_getElem_cons h, hlf, List.append_assoc]
    rfl
  | case3 index normalized h hcr hlf ih =>
    rw [ih, List.drop_eq_getElem_cons h, normalize_byte hcr hlf, List.append_assoc]
    rfl
  | case4 index normalized h =>
    rw [List.drop_eq_nil_of_le (Nat.le_of_not_lt h)]
    exact (List.append_nil _).symm

theorem normalizeLineEndings_eq (input : Bytes) : normalizeLineEndings input = normalize input :=
  normalizeLineEndingsFrom_eq input 0 []

/-- The bytes of a string are those of a string again, so that nothing is expected in vain. -/
theorem normalizeBody_eq (body : Str) : normalizeBody body = .ok (normalizeText body) := by
  unfold normalizeBody
  rw [normalizeLineEndings_eq, normalize_encode, Utf8.decode_encode]
  rfl

theorem paired_ensureCrlfTerminated (h : Paired bytes) : Paired (ensureCrlfTerminated bytes) := by
  unfold ensureCrlfTerminated
  split
  · exact h
  · exact h.append paired_crlf

/-! ## Validation -/

/-- The two checks for a character that stands alone: a CR without an LF behind it, an LF without a
CR before it. -/
def RefusesBareBreak {α : Type} (result : Res α) : Prop :=
  result = Res.bail bareCarriageReturn ∨ result = Res.bail bareLineFeed

/-- In a text in pairs, from the start of a pair or of another byte on, the loop gets to the end or
meets a line that is too long. -/
theorem validateWireFrom_paired {rest : Bytes} (h : Paired rest) :
    ∀ {lineStart index : Nat}, bytes.drop index = rest →
      (∃ last, validateWireFrom bytes lineStart index = .ok last) ∨
        validateWireFrom bytes lineStart index =
          Res.bail (lit "rendered message contains a line longer than " ++
            [.lit (natText maxWireLineLength)] ++ lit " bytes") := by
  induction h with
  | nil =>
    intro lineStart index hdrop
    have hend : ¬ index < bytes.length := Nat.not_lt.2 (List.drop_eq_nil_iff.1 hdrop)
    rw [validateWireFrom, dif_neg hend]
    exact Or.inl ⟨lineStart, rfl⟩
  | crlf h ih =>
    intro lineStart index hdrop
    obtain ⟨hlt, hcr, hdrop⟩ := of_drop_eq_cons hdrop
    obtain ⟨hnext, hlf, hdrop⟩ := of_drop_eq_cons hdrop
    have hpair : bytes[index + 1]? = some 0x0A := hlf ▸ List.getElem?_eq_getElem hnext
    rw [validateWireFrom, dif_pos hlt, if_pos hcr, hpair]
    by_cases hshort : index - lineStart ≤ maxWireLineLength
    · rw [decide_eq_true hshort]
      exact ih hdrop
    · rw [decide_eq_false hshort]
      exact Or.inr rfl
  | byte hcr hlf h ih =>
    intro lineStart index hdrop
    obtain ⟨hlt, heq, hrest⟩ := of_drop_eq_cons hdrop
    rw [validateWireFrom, dif_pos hlt, if_neg (heq ▸ hcr), if_neg (heq ▸ hlf)]
    exact ih hrest

/-- A text in pairs passes both checks. -/
theorem validateWire_paired (h : Paired bytes) : ¬ RefusesBareBreak (validateWire bytes) := by
  unfold validateWire RefusesBareBreak
  rcases @validateWireFrom_paired bytes _ h 0 0 List.drop_zero with ⟨last, hlast⟩ | hlong
  · rw [hlast]
    show ¬ (Res.ensure (last = bytes.length) _ = _ ∨ Res.ensure (last = bytes.length) _ = _)
    by_cases hend : last = bytes.length
    · rw [decide_eq_true hend]
      decide
    · rw [decide_eq_false hend]
      decide
  · rw [hlong]
    show ¬ ((Res.bail _ : Res Unit) = Res.bail _ ∨ (Res.bail _ : Res Unit) = Res.bail _)
    decide

end Notm.Mail
