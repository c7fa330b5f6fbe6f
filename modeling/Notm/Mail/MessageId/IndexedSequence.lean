import Notm.Mail.MessageId.IndexedScanners

/-!
# The values of a field with their indexes

The functions of `rfc5322.rs` from one identifier up to `message_id_tokens`, with every index and
slice of the source. They are the functions of the model for every input.
-/

namespace Notm.Mail

open Rust
open Utf8 (At leadByte)

namespace Indexed

/-! ## Phrases -/

-- The parse results are used in `decreasing_by` only, which the linter does not see.
set_option linter.unusedVariables false in
/-- The loop of `parse_obsolete_threading_phrase`, behind its first word. -/
def phraseFrom (field : String) (value : Str) (index : Nat) : Res Nat :=
  match hskip : skipMessageIdCfws field value index with
  | .error fault => .error fault
  | .ok start =>
    match h : byteAt value start with
    | none => .ok start
    | some byte =>
      if byte = 0x3C then .ok start
      else if byte = 0x2E then phraseFrom field value (start + 1)
      else
        match hword : parseObsoleteThreadingWord field value start with
        | .error fault => .error fault
        | .ok next => phraseFrom field value next
termination_by (Utf8.encode value).length - index
decreasing_by
  all_goals have := lt_of_byteAt h
  all_goals have := skipMessageIdCfws_ge hskip
  · omega
  · rw [parseObsoleteThreadingWord_eq] at hword
    have := parseObsoleteThreadingWord_gt hword
    omega

def parseObsoleteThreadingPhrase (field : String) (value : Str) (index : Nat) : Res Nat :=
  match parseObsoleteThreadingWord field value index with
  | .error fault => .error fault
  | .ok next => phraseFrom field value next

theorem phraseFrom_eq (field : String) (value : Str) (index : Nat) :
    phraseFrom field value index = Mail.phraseFrom field value index := by
  fun_induction phraseFrom field value index with
  | case1 index fault hskip => rw [Mail.phraseFrom_eq, hskip]
  | case2 index start hskip hbyte =>
    rw [Mail.phraseFrom_eq, hskip]
    simp only [phraseAt, hbyte]
  | case3 index start hskip hbyte =>
    rw [Mail.phraseFrom_eq, hskip]
    simp only [phraseAt, hbyte, if_true]
  | case4 index start hskip hbyte hdot ih =>
    rw [ih, Mail.phraseFrom_eq field value index, hskip]
    simp only [phraseAt, hbyte, if_true]
    rfl
  | case5 index start hskip byte hbyte hid hdot fault hword =>
    rw [parseObsoleteThreadingWord_eq] at hword
    rw [Mail.phraseFrom_eq, hskip]
    simp only [phraseAt, hbyte, hid, hdot, if_false, hword]
  | case6 index start hskip byte hbyte hid hdot next hword ih =>
    rw [parseObsoleteThreadingWord_eq] at hword
    rw [ih, Mail.phraseFrom_eq field value index, hskip]
    simp only [phraseAt, hbyte, hid, hdot, if_false, hword]

theorem parseObsoleteThreadingPhrase_eq (field : String) (value : Str) (index : Nat) :
    parseObsoleteThreadingPhrase field value index =
      Mail.parseObsoleteThreadingPhrase field value index := by
  unfold parseObsoleteThreadingPhrase Mail.parseObsoleteThreadingPhrase
  rw [parseObsoleteThreadingWord_eq]
  cases Mail.parseObsoleteThreadingWord field value index with
  | error fault => rfl
  | ok next => exact phraseFrom_eq field value next

/-! ## One identifier -/

/-- `inner` of `canonical_message_id_core`. -/
def canonicalInner (field : String) (value inner left right : Str)
    (allowObsoleteInternalCfws : Bool) : Res Bytes :=
  if allowObsoleteInternalCfws then do
    ensureValue (← validObsIdLeftWithCfws field left) field
      " contains an invalid obsolete id-left in " value
    ensureValue (← validObsIdRightWithCfws field right) field
      " contains an invalid obsolete id-right in " value
    stripObsoleteMessageIdCfws field inner
  else do
    ensureValue (← validDotAtom (Utf8.encode left)) field " contains an invalid id-left in " value
    ensureValue (← validIdRight (Utf8.encode right)) field " contains an invalid id-right in " value
    return Utf8.encode inner

def canonicalMessageIdCore (field : String) (value : Str) (allowObsoleteInternalCfws : Bool) :
    Res Str := do
  ensureValue
    (value.head? == some '<' && value.getLast? == some '>' &&
      (allowObsoleteInternalCfws || isAscii value)) field
    " contains a non-ASCII or unbracketed message identifier: " value
  let last ← Res.orPanic (checkedSub (Utf8.len value) 1)
  let sourceInner ← strRange value 1 last
  let sourceSeparator ← separatorOf field value (Utf8.encode sourceInner)
  let (sourceLeft, sourceRightWithAt) ← strSplitAt sourceInner sourceSeparator
  let sourceRight ← sliceFrom sourceRightWithAt 1
  let inner ← canonicalInner field value sourceInner sourceLeft sourceRight
    allowObsoleteInternalCfws
  let separator ← separatorOf field value inner
  let (left, rightWithAt) ← bytesSplitAt inner separator
  let right ← bytesFrom rightWithAt 1
  ensureValue (← validObsIdLeft left) field " contains an invalid id-left in " value
  ensureValue (← validIdRight right) field " contains an invalid id-right in " value
  let text ← Res.orPanic (Utf8.decode inner)
  return ['<'] ++ text ++ ['>']

section
variable {field : String} {value : Str} {allow : Bool}

theorem canonicalInner_eq (inner left right : Str) :
    canonicalInner field value inner left right allow =
      Mail.canonicalInner field value inner left right allow := by
  cases allow with
  | true => rfl
  | false =>
    unfold canonicalInner Mail.canonicalInner
    rw [validDotAtom_eq, validIdRight_eq]
    rfl

theorem ensureValue_bind_congr {condition : Bool} {message : String} {f g : Unit → Res Str}
    (h : condition = true → f () = g ()) :
    (ensureValue condition field message value >>= f) =
      (ensureValue condition field message value >>= g) := by
  cases condition with
  | false => rfl
  | true => exact h rfl

theorem separatorOf_bind_congr {bytes : Bytes} {f g : Nat → Res Str}
    (h : ∀ separator, messageIdSeparator bytes = some separator → f separator = g separator) :
    (separatorOf field value bytes >>= f) = (separatorOf field value bytes >>= g) := by
  unfold separatorOf
  cases hseparator : messageIdSeparator bytes with
  | none => rfl
  | some separator => exact h separator hseparator

/-- The slice between the angle brackets. -/
theorem strRange_bracketed (x : Str) :
    strRange ('<' :: (x ++ ['>'])) 1 (Utf8.len x + 1) = .ok x := by
  have hat : At ('<' :: (x ++ ['>'])) 1 (x ++ ['>']) :=
    (At.start _).step_ascii (by decide)
  unfold strRange
  rw [if_pos (Nat.le_add_left 1 _), sliceFrom_at hat, ok_bind, Nat.add_sub_cancel,
    Utf8.takeBytes_append]
  rfl

/-- A separator is the offset of an `@`, between characters. -/
theorem exists_split {x : Str} {separator : Nat}
    (h : messageIdSeparator (Utf8.encode x) = some separator) :
    ∃ left right, x = left ++ '@' :: right ∧ separator = Utf8.len left := by
  obtain ⟨c, right, ⟨left, hx, hlen⟩, hlead⟩ :=
    Utf8.exists_at (messageIdSeparator_eq_some h) (by decide)
  obtain rfl : c = '@' := (leadByte_eq_iff (by decide) rfl).1 hlead
  exact ⟨left, right, hx, hlen⟩

theorem strRange_through {index stop : Nat} (h : index ≤ stop) :
    strRange value index (stop + 1) = sliceThrough value index stop :=
  if_pos (Nat.le_succ_of_le h)

theorem strSplitAt_append (left right : Str) :
    strSplitAt (left ++ right) (Utf8.len left) = .ok (left, right) := by
  have hat : At (left ++ right) (Utf8.len left) right := ⟨left, rfl, rfl⟩
  unfold strSplitAt
  rw [Utf8.takeBytes_append, sliceFrom_at hat]
  rfl

/-- Every slice of an identifier is in range, and is the part that the model takes. -/
theorem canonicalMessageIdCore_eq (field : String) (value : Str) (allow : Bool) :
    canonicalMessageIdCore field value allow = Mail.canonicalMessageIdCore field value allow := by
  unfold canonicalMessageIdCore Mail.canonicalMessageIdCore
  refine ensureValue_bind_congr fun hshape => ?_
  simp only [Bool.and_eq_true, beq_iff_eq] at hshape
  obtain ⟨x, rfl⟩ := bracketed_of_shape hshape.1
  have hlast : checkedSub (Utf8.len ('<' :: (x ++ ['>']))) 1 = some (Utf8.len x + 1) := by
    have hlen : Utf8.len ('<' :: (x ++ ['>'])) = 1 + (Utf8.len x + 1) := by
      rw [Utf8.len_cons, Utf8.len_append, Utf8.len_cons, Utf8.len_nil,
        Utf8.utf8Size_ascii (c := '<') (by decide), Utf8.utf8Size_ascii (c := '>') (by decide)]
    unfold checkedSub
    rw [hlen, if_pos (Nat.le_add_right 1 _), Nat.add_sub_cancel_left]
  have hinner : ('<' :: (x ++ ['>'])).tail.dropLast = x := by
    rw [List.tail_cons, List.dropLast_concat]
  dsimp only
  rw [hlast, hinner, Res.orPanic, ok_bind, strRange_bracketed, ok_bind]
  refine separatorOf_bind_congr fun sourceSeparator hsource => ?_
  obtain ⟨left, right, rfl, rfl⟩ := exists_split hsource
  have hright : sliceFrom ('@' :: right) 1 = .ok right :=
    sliceFrom_at ((At.start ('@' :: right)).step_ascii (by decide))
  rw [strSplitAt_append, splitSource_of, ok_bind, ok_bind]
  dsimp only
  rw [hright, ok_bind, canonicalInner_eq]
  refine bind_congr fun inner => separatorOf_bind_congr fun separator hseparator => ?_
  have hlt := (List.getElem?_eq_some_iff.1 (messageIdSeparator_eq_some hseparator)).1
  have hsplit : bytesSplitAt inner separator = .ok (inner.take separator, inner.drop separator) :=
    if_pos (Nat.le_of_lt hlt)
  have hbehind : bytesFrom (inner.drop separator) 1 = .ok (inner.drop (separator + 1)) := by
    unfold bytesFrom
    rw [if_pos (by rw [List.length_drop]; omega), List.drop_drop]
  rw [hsplit, ok_bind]
  dsimp only
  rw [hbehind, ok_bind, validObsIdLeft_eq, ok_bind]
  refine bind_congr fun _ => ?_
  rw [validIdRight_eq, ok_bind]

end

/-! ## The values of a field -/

-- The parse results are used in `decreasing_by` only, which the linter does not see.
set_option linter.unusedVariables false in
/-- The loop of `parse_message_id_sequence`. -/
def messageIdsFrom (field : String) (value : Str) (allowObsoleteThreadingSyntax : Bool)
    (index : Nat) (ids : List Str) : Res (List Str) :=
  if index < (Utf8.encode value).length then
    match hskip : skipMessageIdCfws field value index with
    | .error fault => .error fault
    | .ok start =>
      if start = (Utf8.encode value).length then .ok ids
      else
        match h : byteAt value start with
        | none => .error .panic
        | some byte =>
          if byte ≠ 0x3C then
            if !allowObsoleteThreadingSyntax then
              bailNear field value start " contains text outside a message identifier"
            else
              match hphrase : parseObsoleteThreadingPhrase field value start with
              | .error fault => .error fault
              | .ok next => messageIdsFrom field value allowObsoleteThreadingSyntax next ids
          else
            match hstop : findMessageIdEnd field value (start + 1) with
            | .error fault => .error fault
            | .ok stop =>
              -- `&value[index..=end]` is `&value[index..end + 1]`.
              match strRange value start (stop + 1) >>= fun id =>
                canonicalMessageIdCore field id allowObsoleteThreadingSyntax with
              | .error fault => .error fault
              | .ok id =>
                messageIdsFrom field value allowObsoleteThreadingSyntax (stop + 1) (ids ++ [id])
  else .ok ids
termination_by (Utf8.encode value).length - index
decreasing_by
  all_goals have := skipMessageIdCfws_ge hskip
  all_goals have := lt_of_byteAt h
  · rw [parseObsoleteThreadingPhrase_eq] at hphrase
    have := parseObsoleteThreadingPhrase_gt hphrase
    omega
  · have := findMessageIdEnd_ge hstop
    omega

/-- `parse_message_id_sequence`. -/
def parseMessageIdSequence (field : String) (value : Str) (allowObsoleteThreadingSyntax : Bool) :
    Res (List Str) :=
  messageIdsFrom field value allowObsoleteThreadingSyntax 0 []

def messageIdTokens (field : String) (values : List Str) : Res (List Str) :=
  values.foldlM (fun tokens value => do
    validateHeaderText (lit field) value
    return tokens ++ (← parseMessageIdSequence field value (allowsObsoleteSyntax field))) []

end Indexed

end Notm.Mail
