import Notm.Lib.Counter
import Notm.Mail.MessageId.MessageIdTokens

/-!
# The scanners with their indexes

Where `rfc5322.rs` takes a byte by its index or slices a string, the scanners of the model may say
the same of lists. Here these functions stand with every index and slice of the source, each of
which panics out of range or inside of a character, and are compared with the model.
-/

namespace Notm.Mail

open Rust

namespace Indexed

/-! ## Indexes and slices -/

/-- `bytes[index]`. -/
def byteIndex (bytes : Bytes) (index : Nat) : Res UInt8 := Res.orPanic bytes[index]?

/-- `&bytes[index..]`. -/
def bytesFrom (bytes : Bytes) (index : Nat) : Res Bytes :=
  if index ≤ bytes.length then .ok (bytes.drop index) else .error .panic

/-- `&bytes[start..stop]`. -/
def bytesRange (bytes : Bytes) (start stop : Nat) : Res Bytes :=
  if start ≤ stop ∧ stop ≤ bytes.length then .ok ((bytes.drop start).take (stop - start))
  else .error .panic

/-- `bytes.split_at(middle)`. -/
def bytesSplitAt (bytes : Bytes) (middle : Nat) : Res (Bytes × Bytes) :=
  if middle ≤ bytes.length then .ok (bytes.take middle, bytes.drop middle) else .error .panic

/-- `&value[start..stop]`. -/
def strRange (value : Str) (start stop : Nat) : Res Str :=
  if start ≤ stop then
    sliceFrom value start >>= fun rest => Res.orPanic (Utf8.takeBytes rest (stop - start))
  else .error .panic

/-- `value.split_at(middle)`. -/
def strSplitAt (value : Str) (middle : Nat) : Res (Str × Str) := do
  let left ← Res.orPanic (Utf8.takeBytes value middle)
  let right ← sliceFrom value middle
  .ok (left, right)

/-! ## Encoded words and phrases -/

/-- `iter().position(|byte| *byte == b'?')`. -/
def questionIn (bytes : Bytes) : Option Nat := bytes.findIdx? (· == 0x3F)

/-- The offset of the next question mark in `rest`, which starts at `start`. -/
def questionFrom (field : String) (value : Str) (index : Nat) (message : String) (rest : Bytes)
    (start : Nat) : Res Nat :=
  okOrNear field value index message ((questionIn rest).map (start + ·))

/-- `index == 0 || bytes[..index].last()…`. -/
def precededByBlank (bytes : Bytes) (index : Nat) : Res Bool :=
  if index = 0 then .ok true
  else (bytesRange bytes 0 index).map fun before =>
    before.getLast?.any fun byte => isBlank byte.toNat

def parseObsoleteThreadingEncodedWord (field : String) (value : Str) (index : Nat) :
    Res Nat := do
  let bytes := Utf8.encode value
  let preceded ← precededByBlank bytes index
  ensureNear preceded field value index " contains text adjacent to an RFC 2047 encoded-word"
  let encoded ← bytesFrom bytes index
  let afterOpening ← bytesFrom encoded 2
  let charsetEnd ← questionFrom field value index
    " contains an unterminated RFC 2047 encoded-word" afterOpening (index + 2)
  let charset ← bytesRange bytes (index + 2) charsetEnd
  ensureNear (validRfc2047CharsetToken charset) field value index
    " contains an invalid RFC 2047 charset"
  let encodingStart := charsetEnd + 1
  let afterCharset ← bytesFrom bytes encodingStart
  let encodingEnd ← questionFrom field value index
    " contains an incomplete RFC 2047 encoded-word" afterCharset encodingStart
  let encoding ← bytesRange bytes encodingStart encodingEnd
  ensureNear (validRfc2047EncodingToken encoding) field value index
    " contains an invalid RFC 2047 encoding"
  let textStart := encodingEnd + 1
  let afterEncoding ← bytesFrom bytes textStart
  let textEnd ← questionFrom field value index
    " contains an unterminated RFC 2047 encoded-word" afterEncoding textStart
  ensureNear (bytes[textEnd + 1]? == some 0x3D && textEnd ≠ textStart) field value index
    " contains an invalid RFC 2047 encoded-text"
  let text ← bytesRange bytes textStart textEnd
  ensureNear (text.all fun byte => isAsciiGraphic byte.toNat && byte != 0x3F) field value index
    " contains an invalid RFC 2047 encoded-text"
  let stop := textEnd + 2
  Res.ensure (stop - index ≤ 75)
    (lit field ++ lit " contains an RFC 2047 encoded-word longer than 75 characters")
  ensureNear ((byteAt value stop).all fun next => isBlank next.toNat) field value index
    " contains text adjacent to an RFC 2047 encoded-word"
  return stop

def parseObsoleteThreadingWord (field : String) (value : Str) (index : Nat) : Res Nat :=
  if byteAt value index = some 0x3D ∧ byteAt value (index + 1) = some 0x3F then
    parseObsoleteThreadingEncodedWord field value index
  else if byteAt value index = some 0x22 then
    parseObsoleteThreadingQuotedWord value index >>=
      okOrNear field value index " contains an invalid or unterminated quoted phrase"
  else
    parseObsoleteThreadingAtom value index >>=
      okOrNear field value index " contains an invalid obsolete phrase token"

/-! ## The comparison of encoded words -/

variable {field : String} {value : Str} {bytes : Bytes} {index : Nat}

theorem splitQuestion_eq (bytes : Bytes) :
    splitQuestion bytes =
      (questionIn bytes).map fun offset => (bytes.take offset, bytes.drop (offset + 1)) := by
  induction bytes with
  | nil => rfl
  | cons byte bytes ih =>
    unfold splitQuestion questionIn at ih ⊢
    rw [List.findIdx?_cons]
    by_cases hbyte : byte = 0x3F
    · subst hbyte
      rw [if_pos List.mem_cons_self]
      simp
    · have hne : (byte == 0x3F) = false := beq_eq_false_iff_ne.2 hbyte
      have htake : decide (byte ≠ 0x3F) = true := decide_eq_true hbyte
      simp only [hne, Bool.false_eq_true, if_false]
      rw [Option.map_map,
        List.takeWhile_cons_of_pos (p := fun byte : UInt8 => decide (byte ≠ 0x3F)) htake,
        List.dropWhile_cons_of_pos (p := fun byte : UInt8 => decide (byte ≠ 0x3F)) htake]
      by_cases hmem : 0x3F ∈ bytes
      · rw [if_pos hmem] at ih
        obtain ⟨offset, hoffset, heq⟩ := Option.map_eq_some_iff.1 ih.symm
        rw [if_pos (List.mem_cons_of_mem _ hmem), hoffset]
        obtain ⟨hfirst, hsecond⟩ := Prod.mk.inj heq
        show some _ = some (byte :: bytes.take offset, bytes.drop (offset + 1))
        rw [hfirst, hsecond]
      · rw [if_neg hmem] at ih
        have hnot : 0x3F ∉ byte :: bytes := fun h => (List.mem_cons.1 h).elim
          (fun h => hbyte h.symm) hmem
        rw [if_neg hnot, Option.map_eq_none_iff.1 ih.symm]
        rfl

theorem splitQuestion_drop (bytes : Bytes) (start : Nat) :
    splitQuestion (bytes.drop start) = (questionIn (bytes.drop start)).map fun offset =>
      ((bytes.drop start).take offset, bytes.drop (start + offset + 1)) := by
  rw [splitQuestion_eq]
  refine congrArg (fun split => (questionIn (bytes.drop start)).map split) (funext fun offset => ?_)
  rw [List.drop_drop, Nat.add_assoc]

/-- A search that succeeds stays in range, and so do the slices around what it finds. -/
theorem question_in_range {start offset : Nat}
    (h : questionIn (bytes.drop start) = some offset) :
    start + offset + 1 ≤ bytes.length ∧ ((bytes.drop start).take offset).length = offset ∧
      bytesRange bytes start (start + offset) = .ok ((bytes.drop start).take offset) ∧
      bytesFrom bytes (start + offset + 1) = .ok (bytes.drop (start + offset + 1)) := by
  obtain ⟨hlt, -⟩ := List.findIdx?_eq_some_iff_getElem.1 h
  have hle : start + offset + 1 ≤ bytes.length := by
    rw [List.length_drop] at hlt
    omega
  refine ⟨hle, ?_, ?_, if_pos hle⟩
  · rw [List.length_take]
    omega
  · unfold bytesRange
    rw [if_pos ⟨by omega, by omega⟩, Nat.add_sub_cancel_left]

theorem bailNear_bind {α β : Type} {message : String} (f : α → Res β) :
    (bailNear field value index message >>= f) = bailNear field value index message := by
  unfold bailNear
  cases sliceFrom value index <;> rfl

theorem ok_bind {α β : Type} (a : α) (f : α → Res β) : ((.ok a : Res α) >>= f) = f a := rfl

/-- Behind its `=?` the scan of an encoded word is the one of the model. -/
theorem parseObsoleteThreadingEncodedWord_eq (h : index + 2 ≤ (Utf8.encode value).length) :
    parseObsoleteThreadingEncodedWord field value index =
      Mail.parseObsoleteThreadingEncodedWord field value index := by
  have hpreceded : precededByBlank (Utf8.encode value) index =
      .ok (index == 0 || (byteAt value (index - 1)).any fun b => isBlank b.toNat) := by
    unfold precededByBlank
    split
    · next hzero =>
      subst hzero
      rfl
    · next hne =>
      have hlast : ((Utf8.encode value).take index).getLast? = byteAt value (index - 1) := by
        have hget : (Utf8.encode value)[index - 1]? = some (Utf8.encode value)[index - 1] :=
          List.getElem?_eq_getElem (by omega)
        rw [List.getLast?_take, if_neg hne, byteAt, hget]
        rfl
      have hindex : (index == 0) = false := beq_eq_false_iff_ne.2 hne
      unfold bytesRange
      rw [if_pos ⟨Nat.zero_le _, by omega⟩, hindex, Bool.false_or, ← hlast]
      rfl
  have hencoded : bytesFrom (Utf8.encode value) index = .ok ((Utf8.encode value).drop index) :=
    if_pos (by omega)
  have hopening : bytesFrom ((Utf8.encode value).drop index) 2 =
      .ok ((Utf8.encode value).drop (index + 2)) := by
    unfold bytesFrom
    rw [if_pos (by rw [List.length_drop]; omega), List.drop_drop]
  -- Both look for the three question marks. A search that finds one stays in range, so that the
  -- slices before and after it are those of the lists.
  unfold parseObsoleteThreadingEncodedWord Mail.parseObsoleteThreadingEncodedWord
  dsimp only
  rw [hpreceded, ok_bind]
  refine bind_congr fun _ => ?_
  rw [hencoded, ok_bind, hopening, ok_bind]
  unfold questionFrom questionOr
  simp only [splitQuestion_drop]
  cases hcharset : questionIn ((Utf8.encode value).drop (index + 2)) with
  | none => exact (bailNear_bind _).trans (bailNear_bind _).symm
  | some charsetLength =>
    obtain ⟨-, hcharsetLength, hcharsetBytes, hafterCharset⟩ := question_in_range hcharset
    simp only [Option.map_some, okOrNear, ok_bind, hcharsetBytes, hafterCharset,
      splitQuestion_drop]
    refine bind_congr fun _ => ?_
    cases hencoding : questionIn ((Utf8.encode value).drop (index + 2 + charsetLength + 1)) with
    | none => exact (bailNear_bind _).trans (bailNear_bind _).symm
    | some encodingLength =>
      obtain ⟨-, hencodingLength, hencodingBytes, hafterEncoding⟩ := question_in_range hencoding
      simp only [Option.map_some, ok_bind, hencodingBytes, hafterEncoding, splitQuestion_drop]
      refine bind_congr fun _ => ?_
      cases htext : questionIn ((Utf8.encode value).drop
          (index + 2 + charsetLength + 1 + encodingLength + 1)) with
      | none => exact (bailNear_bind _).trans (bailNear_bind _).symm
      | some textLength =>
        obtain ⟨-, htextLength, htextBytes, -⟩ := question_in_range htext
        have hstop : index + 2 + charsetLength + 1 + encodingLength + 1 + textLength + 2 =
            index + (2 + charsetLength + 1 + encodingLength + 1 + textLength + 2) := by omega
        simp only [Option.map_some, ok_bind, htextBytes, hcharsetLength, hencodingLength,
          htextLength, List.head?_drop, hstop, Nat.add_sub_cancel_left]
        have hempty : index + 2 + charsetLength + 1 + encodingLength + 1 + textLength =
              index + 2 + charsetLength + 1 + encodingLength + 1 ↔
            ((Utf8.encode value).drop
              (index + 2 + charsetLength + 1 + encodingLength + 1)).take textLength = [] := by
          rw [← List.length_eq_zero_iff, htextLength]
          omega
        simp only [ne_eq, hempty]

/-- The guard of an encoded word keeps its slices in range. -/
theorem parseObsoleteThreadingWord_eq (field : String) (value : Str) (index : Nat) :
    parseObsoleteThreadingWord field value index =
      Mail.parseObsoleteThreadingWord field value index := by
  unfold parseObsoleteThreadingWord Mail.parseObsoleteThreadingWord
  split
  · next hopen =>
    have hlt := lt_of_byteAt hopen.2
    exact parseObsoleteThreadingEncodedWord_eq (by omega)
  · rfl

/-! ## The strict forms -/

-- The word read is used in `decreasing_by` only, which the linter does not see.
set_option linter.unusedVariables false in
/-- The loop of `valid_obs_id_left`. -/
def validObsIdLeftFrom (value : Bytes) (index : Nat) : Res Bool :=
  match h : parseIdLeftWord value index with
  | none => .ok false
  | some next =>
    if next = value.length then .ok true
    else
      match hbyte : value[next]? with
      | none => .error .panic
      | some byte =>
        if byte ≠ 0x2E then .ok false
        else if next + 1 = value.length then .ok false
        else validObsIdLeftFrom value (next + 1)
termination_by value.length - index
decreasing_by
  have hgt := parseIdLeftWord_gt h
  have hlt := (List.getElem?_eq_some_iff.1 hbyte).1
  omega

def validObsIdLeft (value : Bytes) : Res Bool :=
  if value = [] then .ok false else validObsIdLeftFrom value 0

def validDotAtom (value : Bytes) : Res Bool :=
  if value = [] then .ok false
  else do
    let first ← byteIndex value 0
    if first = 0x2E then .ok false
    else do
      let last ← byteIndex value (value.length - 1)
      .ok (last != 0x2E && !(decide ([0x2E, 0x2E] <:+: value)) &&
        value.all fun byte => byte == 0x2E || isAtext byte)

/-- The loop of `valid_no_fold_literal`. -/
def validLiteralContentFrom (content : Bytes) (index : Nat) : Res Bool :=
  if index < content.length then do
    let byte ← byteIndex content index
    if byte = 0x5C then
      if (content[index + 1]?).any isEscapable then validLiteralContentFrom content (index + 2)
      else .ok false
    else if isLiteralText byte then validLiteralContentFrom content (index + 1)
    else .ok false
  else .ok true
termination_by content.length - index

def validNoFoldLiteral (value : Bytes) : Res Bool :=
  if value.length < 3 || value.head? != some 0x5B || value.getLast? != some 0x5D then .ok false
  else bytesRange value 1 (value.length - 1) >>= fun content => validLiteralContentFrom content 0

def validIdRight (value : Bytes) : Res Bool :=
  if value.head? = some 0x5B then validNoFoldLiteral value else validDotAtom value

/-! ## The comparison of the strict forms -/

theorem quotedIdWordEnd_le {start next : Nat} {escaped : Bool} {rest : Bytes}
    (h : quotedIdWordEnd start escaped rest = some next) : next ≤ start + rest.length := by
  induction rest generalizing start escaped with
  | nil => exact absurd h (by simp [quotedIdWordEnd])
  | cons byte rest ih =>
    rw [List.length_cons]
    rw [quotedIdWordEnd] at h
    split at h
    · split at h
      · have hle := ih h
        omega
      · exact absurd h (by simp)
    · split at h
      · have hle := ih h
        omega
      · split at h
        · obtain rfl := Option.some.inj h
          omega
        · split at h
          · have hle := ih h
            omega
          · exact absurd h (by simp)

/-- A word ends in range. -/
theorem parseIdLeftWord_le {next : Nat} (h : parseIdLeftWord bytes index = some next) :
    next ≤ bytes.length := by
  unfold parseIdLeftWord at h
  split at h
  · next hquote =>
    have hlt := (List.getElem?_eq_some_iff.1 hquote).1
    have hle := quotedIdWordEnd_le h
    rw [List.length_drop] at hle
    omega
  · unfold parseIdLeftAtom at h
    dsimp only at h
    split at h
    · exact absurd h (by simp)
    · obtain rfl := Option.some.inj h
      have hle := (List.takeWhile_prefix (p := isAtext) (l := bytes.drop index)).length_le
      rw [List.length_drop] at hle
      omega

theorem validObsIdLeftFrom_eq (bytes : Bytes) (index : Nat) :
    validObsIdLeftFrom bytes index = .ok (Mail.validObsIdLeftFrom bytes index) := by
  fun_induction validObsIdLeftFrom bytes index with
  | case1 index hnone =>
    rw [Mail.validObsIdLeftFrom]
    split
    · rfl
    · next hsome => exact absurd (hnone.symm.trans hsome) (by simp)
  | case2 index hword =>
    rw [Mail.validObsIdLeftFrom]
    split
    · next hnone => exact absurd (hnone.symm.trans hword) (by simp)
    · next hsome =>
      obtain rfl := Option.some.inj (hword.symm.trans hsome)
      rw [if_pos rfl]
  | case3 index next hword hne hnone =>
    -- A word ends in range, and its end is not that of the value.
    have hle := parseIdLeftWord_le hword
    have hge := List.getElem?_eq_none_iff.1 hnone
    omega
  | case4 index next hword hne byte hbyte hdot =>
    rw [Mail.validObsIdLeftFrom]
    split
    · rfl
    · next hsome =>
      obtain rfl := Option.some.inj (hword.symm.trans hsome)
      rw [if_neg hne, dif_neg fun h => hdot (Option.some.inj (hbyte.symm.trans h))]
  | case5 index next hword hne byte hbyte hdot hend =>
    rw [Mail.validObsIdLeftFrom]
    split
    · rfl
    · next hsome =>
      obtain rfl := Option.some.inj (hword.symm.trans hsome)
      rw [if_neg hne, if_pos hend]
      split <;> rfl
  | case6 index next hword hne byte hbyte hdot hend ih =>
    rw [ih, Mail.validObsIdLeftFrom.eq_def bytes index]
    split
    · next hnone => exact absurd (hnone.symm.trans hword) (by simp)
    · next hsome =>
      obtain rfl := Option.some.inj (hword.symm.trans hsome)
      rw [if_neg hne, dif_pos (hbyte.trans (congrArg some (not_not.1 hdot))), if_neg hend]

theorem validObsIdLeft_eq (bytes : Bytes) :
    validObsIdLeft bytes = .ok (Mail.validObsIdLeft bytes) := by
  unfold validObsIdLeft Mail.validObsIdLeft
  split
  · next hnil =>
    subst hnil
    rfl
  · next hne =>
    rw [validObsIdLeftFrom_eq, decide_eq_true hne, Bool.true_and]

theorem validDotAtom_eq (bytes : Bytes) :
    validDotAtom bytes = .ok (Mail.validDotAtom bytes) := by
  unfold validDotAtom Mail.validDotAtom
  cases bytes with
  | nil => rfl
  | cons first rest =>
    have hfirst : byteIndex (first :: rest) 0 = .ok first := rfl
    have hlast : ∃ last, byteIndex (first :: rest) ((first :: rest).length - 1) = .ok last ∧
        (first :: rest).getLast? = some last := by
      have hlt : (first :: rest).length - 1 < (first :: rest).length := by
        rw [List.length_cons]
        omega
      refine ⟨(first :: rest)[(first :: rest).length - 1], ?_, ?_⟩
      · unfold byteIndex
        rw [List.getElem?_eq_getElem hlt]
        rfl
      · rw [List.getLast?_eq_getElem?, List.getElem?_eq_getElem hlt]
    obtain ⟨last, hindex, hlast⟩ := hlast
    rw [if_neg (List.cons_ne_nil _ _), hfirst, ok_bind, hindex, hlast,
      decide_eq_true (List.cons_ne_nil first rest), List.head?_cons]
    by_cases hdot : first = 0x2E
    · rw [if_pos hdot, hdot]
      rfl
    · have hne : (some first != some 0x2E) = true := by simpa using hdot
      have hlastNe : (some last != some 0x2E) = (last != 0x2E) := by
        rw [Bool.eq_iff_iff]
        simp
      rw [if_neg hdot, ok_bind, hne, hlastNe]
      simp

theorem validLiteralContentFrom_eq (content : Bytes) (index : Nat) :
    validLiteralContentFrom content index = .ok (validLiteralContent (content.drop index)) := by
  induction hlen : content.length - index using Nat.strongRecOn generalizing index with
  | ind n ih =>
  subst hlen
  rw [validLiteralContentFrom]
  split
  · next hlt =>
    have hbyte : byteIndex content index = .ok content[index] := by
      unfold byteIndex
      rw [List.getElem?_eq_getElem hlt]
      rfl
    rw [hbyte, ok_bind, List.drop_eq_getElem_cons hlt, validLiteralContent.eq_def]
    dsimp only
    split
    · by_cases hnext : index + 1 < content.length
      · rw [List.drop_eq_getElem_cons hnext, List.getElem?_eq_getElem hnext, Option.any_some]
        dsimp only
        cases isEscapable content[index + 1] with
        | false => rfl
        | true => exact ih _ (by omega) (index + 2) rfl
      · rw [List.drop_eq_nil_of_le (Nat.le_of_not_lt hnext),
          List.getElem?_eq_none (Nat.le_of_not_lt hnext)]
        rfl
    · cases isLiteralText content[index] with
      | false => rfl
      | true => exact ih _ (by omega) (index + 1) rfl
  · next hge =>
    rw [List.drop_eq_nil_of_le (Nat.le_of_not_lt hge)]
    rfl

theorem validNoFoldLiteral_eq (bytes : Bytes) :
    validNoFoldLiteral bytes = .ok (Mail.validNoFoldLiteral bytes) := by
  unfold validNoFoldLiteral Mail.validNoFoldLiteral
  split
  · rfl
  · next hshape =>
    have hlen : 3 ≤ bytes.length := by
      by_contra hshort
      exact hshape (by simp [Nat.lt_of_not_le hshort])
    have hrange : bytesRange bytes 1 (bytes.length - 1) = .ok bytes.tail.dropLast := by
      unfold bytesRange
      rw [if_pos ⟨by omega, by omega⟩, List.drop_one, List.dropLast_eq_take, List.length_tail]
    rw [hrange, ok_bind, validLiteralContentFrom_eq, List.drop_zero]

theorem validIdRight_eq (bytes : Bytes) :
    validIdRight bytes = .ok (Mail.validIdRight bytes) := by
  unfold validIdRight Mail.validIdRight
  split
  · exact validNoFoldLiteral_eq bytes
  · exact validDotAtom_eq bytes

end Indexed

end Notm.Mail
