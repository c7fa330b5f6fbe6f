import Notm.Mail.MessageId.Identifier

/-!
# The values of the threading fields

`message_id_tokens` reads a field value as a sequence of message identifiers. In-Reply-To and
References may hold obsolete phrases between them, whose words are scanned and dropped.
-/

namespace Notm.Mail

open Rust

/-! ## Obsolete phrases -/

/-- The loop of `parse_obsolete_threading_atom`: how many bytes of the characters at hand the
atom takes, or a control character. -/
def threadingAtomLen : Str → Option Nat
  | [] => some 0
  | c :: rest =>
    if c.toNat < 128 then
      if isAtext (UInt8.ofNat c.toNat) then (threadingAtomLen rest).map (c.utf8Size + ·)
      else some 0
    else if isControl c then none
    else (threadingAtomLen rest).map (c.utf8Size + ·)

/-- `parse_obsolete_threading_atom`. -/
def parseObsoleteThreadingAtom (value : Str) (index : Nat) : Res (Option Nat) := do
  let rest ← sliceFrom value index
  return (threadingAtomLen rest).bind fun length =>
    if length = 0 then none else some (index + length)

-- The byte read is used in `decreasing_by` only, which the linter does not see.
set_option linter.unusedVariables false in
/-- The loop of `parse_obsolete_threading_quoted_word`. -/
def threadingQuotedWordFrom (value : Str) (index : Nat) : Res (Option Nat) :=
  match h : byteAt value index with
  | none => .ok none
  | some byte =>
    if byte = 0x5C then
      match byteAt value (index + 1) with
      | none => .ok none
      | some escaped =>
        if isEscapable escaped then threadingQuotedWordFrom value (index + 2) else .ok none
    else if byte = 0x22 then .ok (some (index + 1))
    else if isQuotedText byte then threadingQuotedWordFrom value (index + 1)
    else if byte < 0x80 then .ok none
    else
      match charFrom value index with
      | .error fault => .error fault
      | .ok character =>
        if isControl character then .ok none
        else threadingQuotedWordFrom value (index + character.utf8Size)
termination_by (Utf8.encode value).length - index
decreasing_by
  · have := lt_of_byteAt h; omega
  · have := lt_of_byteAt h; omega
  · have := lt_of_byteAt h
    have := character.utf8Size_pos
    omega

/-- `parse_obsolete_threading_quoted_word`. -/
def parseObsoleteThreadingQuotedWord (value : Str) (index : Nat) : Res (Option Nat) :=
  threadingQuotedWordFrom value (index + 1)

/-- `valid_rfc2047_charset_token`. -/
def validRfc2047CharsetToken (value : Bytes) : Bool :=
  value ≠ [] && value.all fun byte => isAsciiGraphic byte.toNat &&
    !(byte ∈ Utf8.encode "()<>@,;:\\\"/[]?=".toList)

/-- `valid_rfc2047_encoding_token`. -/
def validRfc2047EncodingToken (value : Bytes) : Bool :=
  value ≠ [] && value.all fun byte => isAsciiGraphic byte.toNat &&
    !(byte ∈ Utf8.encode "()<>@,;:\\\"/[]?.=".toList)

/-- The bytes up to the next question mark, and those behind it. -/
def splitQuestion (bytes : Bytes) : Option (Bytes × Bytes) :=
  if 0x3F ∈ bytes then some (bytes.takeWhile (· ≠ 0x3F), (bytes.dropWhile (· ≠ 0x3F)).tail)
  else none

/-- The `ok_or_else` of the three searches for a question mark. -/
def questionOr (field : String) (value : Str) (index : Nat) (message : String) (bytes : Bytes) :
    Res (Bytes × Bytes) :=
  match splitQuestion bytes with
  | some split => .ok split
  | none => bailNear field value index message

/-- `ensure!` with the message of `bailNear`. -/
def ensureNear (condition : Bool) (field : String) (value : Str) (index : Nat)
    (message : String) : Res Unit :=
  if condition then .ok () else bailNear field value index message

/-- `parse_obsolete_threading_encoded_word`, at `=?`. -/
def parseObsoleteThreadingEncodedWord (field : String) (value : Str) (index : Nat) :
    Res Nat := do
  ensureNear (index == 0 || (byteAt value (index - 1)).any fun b => isBlank b.toNat) field value
    index " contains text adjacent to an RFC 2047 encoded-word"
  let encoded := (Utf8.encode value).drop (index + 2)
  let (charset, rest) ← questionOr field value index
    " contains an unterminated RFC 2047 encoded-word" encoded
  ensureNear (validRfc2047CharsetToken charset) field value index
    " contains an invalid RFC 2047 charset"
  let (encoding, rest) ← questionOr field value index
    " contains an incomplete RFC 2047 encoded-word" rest
  ensureNear (validRfc2047EncodingToken encoding) field value index
    " contains an invalid RFC 2047 encoding"
  let (text, rest) ← questionOr field value index
    " contains an unterminated RFC 2047 encoded-word" rest
  ensureNear (rest.head? == some 0x3D && text ≠ []) field value index
    " contains an invalid RFC 2047 encoded-text"
  ensureNear (text.all fun byte => isAsciiGraphic byte.toNat && byte != 0x3F) field value index
    " contains an invalid RFC 2047 encoded-text"
  let length := 2 + charset.length + 1 + encoding.length + 1 + text.length + 2
  Res.ensure (length ≤ 75)
    (lit field ++ lit " contains an RFC 2047 encoded-word longer than 75 characters")
  let stop := index + length
  ensureNear ((byteAt value stop).all fun next => isBlank next.toNat) field value index
    " contains text adjacent to an RFC 2047 encoded-word"
  return stop

/-- An `Option` that is an error when there is no value: `ok_or_else`. -/
def okOrNear (field : String) (value : Str) (index : Nat) (message : String)
    (found : Option Nat) : Res Nat :=
  match found with
  | some next => .ok next
  | none => bailNear field value index message

theorem threadingQuotedWordFrom_gt {value : Str} {index next : Nat}
    (h : threadingQuotedWordFrom value index = .ok (some next)) : index < next := by
  fun_induction threadingQuotedWordFrom value index with
  | case1 => exact absurd h (by simp)
  | case2 => exact absurd h (by simp)
  | case3 _ _ _ _ _ ih => have := ih h; omega
  | case4 => exact absurd h (by simp)
  | case5 => cases h; omega
  | case6 _ _ _ _ _ _ ih => have := ih h; omega
  | case7 => exact absurd h (by simp)
  | case8 => exact absurd h (by simp)
  | case9 => exact absurd h (by simp)
  | case10 _ _ _ _ _ _ _ _ _ _ ih => have := ih h; omega

/-- `parse_obsolete_threading_word`. -/
def parseObsoleteThreadingWord (field : String) (value : Str) (index : Nat) : Res Nat :=
  if byteAt value index = some 0x3D ∧ byteAt value (index + 1) = some 0x3F then
    parseObsoleteThreadingEncodedWord field value index
  else if byteAt value index = some 0x22 then
    parseObsoleteThreadingQuotedWord value index >>=
      okOrNear field value index " contains an invalid or unterminated quoted phrase"
  else
    parseObsoleteThreadingAtom value index >>=
      okOrNear field value index " contains an invalid obsolete phrase token"

@[simp] theorem bailNear_ne_ok {α : Type} {field : String} {value : Str} {index : Nat}
    {message : String} {a : α} : (bailNear field value index message : Res α) ≠ .ok a := by
  unfold bailNear
  intro h
  obtain ⟨rest, _, h⟩ := bind_eq_ok.mp h
  exact absurd h (by simp)

@[simp] theorem okOrNear_eq_ok {field : String} {value : Str} {index next : Nat}
    {message : String} {found : Option Nat} :
    okOrNear field value index message found = .ok next ↔ found = some next := by
  cases found <;> simp [okOrNear]

theorem parseObsoleteThreadingEncodedWord_gt {field : String} {value : Str} {index next : Nat}
    (h : parseObsoleteThreadingEncodedWord field value index = .ok next) : index < next := by
  unfold parseObsoleteThreadingEncodedWord at h
  simp only at h
  obtain ⟨_, _, h⟩ := bind_eq_ok.mp h
  obtain ⟨_, _, h⟩ := bind_eq_ok.mp h
  obtain ⟨_, _, h⟩ := bind_eq_ok.mp h
  obtain ⟨_, _, h⟩ := bind_eq_ok.mp h
  obtain ⟨_, _, h⟩ := bind_eq_ok.mp h
  obtain ⟨_, _, h⟩ := bind_eq_ok.mp h
  obtain ⟨_, _, h⟩ := bind_eq_ok.mp h
  obtain ⟨_, _, h⟩ := bind_eq_ok.mp h
  obtain ⟨_, _, h⟩ := bind_eq_ok.mp h
  obtain ⟨_, _, h⟩ := bind_eq_ok.mp h
  cases pure_eq_ok.mp h
  omega

theorem parseObsoleteThreadingWord_gt {field : String} {value : Str} {index next : Nat}
    (h : parseObsoleteThreadingWord field value index = .ok next) : index < next := by
  unfold parseObsoleteThreadingWord at h
  split at h
  · exact parseObsoleteThreadingEncodedWord_gt h
  · split at h
    · obtain ⟨found, hfound, h⟩ := bind_eq_ok.mp h
      rw [okOrNear_eq_ok] at h
      subst h
      have := threadingQuotedWordFrom_gt hfound
      omega
    · obtain ⟨found, hfound, h⟩ := bind_eq_ok.mp h
      rw [okOrNear_eq_ok] at h
      subst h
      obtain ⟨rest, _, hfound⟩ := bind_eq_ok.mp hfound
      obtain ⟨length, _, hlength⟩ := Option.bind_eq_some_iff.mp (pure_eq_ok.mp hfound)
      split at hlength
      · exact absurd hlength (by simp)
      · cases hlength
        omega

theorem findIdEnd_ge {scan : IdScan} {index stop : Nat} {bytes : Bytes}
    (h : findIdEnd scan index bytes = some stop) : index ≤ stop := by
  induction bytes generalizing scan index with
  | nil => exact absurd h (by simp [findIdEnd])
  | cons byte rest ih =>
    rw [findIdEnd] at h
    split at h
    · cases h
      exact Nat.le_refl _
    · have := ih h
      omega

theorem findMessageIdEnd_ge {field : String} {value : Str} {index stop : Nat}
    (h : findMessageIdEnd field value index = .ok stop) : index ≤ stop := by
  unfold findMessageIdEnd at h
  split at h
  · next stop' hstop =>
    cases h
    exact findIdEnd_ge hstop
  · exact absurd h (by simp)

/-! ## The values of a field -/

-- The parse results are used in `decreasing_by` only, which the linter does not see.
set_option linter.unusedVariables false in
/-- The loop of `parse_obsolete_threading_phrase`, behind its first word. -/
def phraseFrom (field : String) (value : Str) (index : Nat) : Res Nat :=
  match hskip : skipMessageIdCfws field value index with
  | .error fault => .error fault
  | .ok start =>
    match h : byteAt value start with
    | none => .ok start
    | some byte =>
      if byte = 0x3C then .ok start
      else if byte = 0x2E then phraseFrom field value (start + 1)
      else
        match hword : parseObsoleteThreadingWord field value start with
        | .error fault => .error fault
        | .ok next => phraseFrom field value next
termination_by (Utf8.encode value).length - index
decreasing_by
  all_goals have := lt_of_byteAt h
  all_goals have := skipMessageIdCfws_ge hskip
  · omega
  · have := parseObsoleteThreadingWord_gt hword
    omega

/-- `parse_obsolete_threading_phrase`. -/
def parseObsoleteThreadingPhrase (field : String) (value : Str) (index : Nat) : Res Nat :=
  match parseObsoleteThreadingWord field value index with
  | .error fault => .error fault
  | .ok next => phraseFrom field value next

theorem phraseFrom_ge {field : String} {value : Str} {index next : Nat}
    (h : phraseFrom field value index = .ok next) : index ≤ next := by
  fun_induction phraseFrom field value index with
  | case1 => exact absurd h (by simp)
  | case2 _ _ hskip =>
    cases h
    exact skipMessageIdCfws_ge hskip
  | case3 _ _ hskip =>
    cases h
    exact skipMessageIdCfws_ge hskip
  | case4 _ _ hskip _ _ ih =>
    have := skipMessageIdCfws_ge hskip
    have := ih h
    omega
  | case5 => exact absurd h (by simp)
  | case6 _ _ hskip _ _ _ _ _ hword ih =>
    have := skipMessageIdCfws_ge hskip
    have := parseObsoleteThreadingWord_gt hword
    have := ih h
    omega

theorem parseObsoleteThreadingPhrase_gt {field : String} {value : Str} {index next : Nat}
    (h : parseObsoleteThreadingPhrase field value index = .ok next) : index < next := by
  unfold parseObsoleteThreadingPhrase at h
  split at h
  · exact absurd h (by simp)
  · next word hword =>
    have := parseObsoleteThreadingWord_gt hword
    have := phraseFrom_ge h
    omega

/-- `&value[index..=end]`. -/
def sliceThrough (value : Str) (index stop : Nat) : Res Str := do
  let rest ← sliceFrom value index
  Res.orPanic (Utf8.takeBytes rest (stop + 1 - index))

-- The parse results are used in `decreasing_by` only, which the linter does not see.
set_option linter.unusedVariables false in
/-- The loop of `parse_message_id_sequence`. -/
def messageIdsFrom (field : String) (value : Str) (allowObsoleteThreadingSyntax : Bool)
    (index : Nat) (ids : List Str) : Res (List Str) :=
  if index < (Utf8.encode value).length then
    match hskip : skipMessageIdCfws field value index with
    | .error fault => .error fault
    | .ok start =>
      match h : byteAt value start with
      | none => .ok ids
      | some byte =>
        if byte ≠ 0x3C then
          if !allowObsoleteThreadingSyntax then
            bailNear field value start " contains text outside a message identifier"
          else
            match hphrase : parseObsoleteThreadingPhrase field value start with
            | .error fault => .error fault
            | .ok next => messageIdsFrom field value allowObsoleteThreadingSyntax next ids
        else
          match hstop : findMessageIdEnd field value (start + 1) with
          | .error fault => .error fault
          | .ok stop =>
            match sliceThrough value start stop >>= fun id =>
              canonicalMessageIdCore field id allowObsoleteThreadingSyntax with
            | .error fault => .error fault
            | .ok id =>
              messageIdsFrom field value allowObsoleteThreadingSyntax (stop + 1) (ids ++ [id])
  else .ok ids
termination_by (Utf8.encode value).length - index
decreasing_by
  all_goals have := skipMessageIdCfws_ge hskip
  all_goals have := lt_of_byteAt h
  · have := parseObsoleteThreadingPhrase_gt hphrase
    omega
  · have := findMessageIdEnd_ge hstop
    omega

/-- `parse_message_id_sequence`. -/
def parseMessageIdSequence (field : String) (value : Str) (allowObsoleteThreadingSyntax : Bool) :
    Res (List Str) :=
  messageIdsFrom field value allowObsoleteThreadingSyntax 0 []

/-- The fields whose values may use the obsolete syntax. -/
def allowsObsoleteSyntax (field : String) : Bool := field == "In-Reply-To" || field == "References"

/-- `message_id_tokens`. -/
def messageIdTokens (field : String) (values : List Str) : Res (List Str) :=
  values.foldlM (fun tokens value => do
    validateHeaderText (lit field) value
    return tokens ++ (← parseMessageIdSequence field value (allowsObsoleteSyntax field))) []

end Notm.Mail
