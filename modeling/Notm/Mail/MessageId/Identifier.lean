import Notm.Mail.Error

/-!
# Message identifiers

The scanner of `rfc5322.rs` for the values of Message-ID, In-Reply-To and References. It walks
over the bytes of a UTF-8 string by index and decodes a character where it meets a byte that is
not ASCII; the slices `&value[index..]` and the `expect`s of the source are panics of the model
when they do not hold.
-/

namespace Notm.Mail

open Rust

/-! ## Reading a value by byte offset -/

/-- `bytes.get(index)`. -/
def byteAt (value : Str) (index : Nat) : Option UInt8 := (Utf8.encode value)[index]?

/-- `&value[index..]`. -/
def sliceFrom (value : Str) (index : Nat) : Res Str := Res.orPanic (Utf8.dropBytes value index)

/-- `value[index..].chars().next().expect(…)`. -/
def charFrom (value : Str) (index : Nat) : Res Char :=
  sliceFrom value index >>= fun rest => Res.orPanic rest.head?

/-- A failure that quotes the rest of the value: `bail!("{field} … near {:?}", &value[index..])`. -/
def bailNear {α : Type} (field : String) (value : Str) (index : Nat) (message : String) :
    Res α := do
  let rest ← sliceFrom value index
  Res.bail (lit field ++ lit message ++ lit " near " ++ [.debug rest])

/-- `validate_header_text`. The `{:04X}` of the character stands for itself. -/
def validateHeaderText (field : Text) (value : Str) : Res Unit :=
  match value.find? fun c => c ≠ '\t' && isControl c with
  | some character =>
    Res.bail (field ++ lit " contains a forbidden control character U+" ++ [.debug [character]])
  | none => .ok ()

/-- `is_atext`. -/
def isAtext (byte : UInt8) : Bool :=
  isAsciiAlphanumeric byte.toNat || byte ∈ Utf8.encode "!#$%&'*+-/=?^_`\x7b|\x7d~".toList

/-- A byte that may follow the backslash of a quoted pair. -/
def isEscapable (byte : UInt8) : Bool := isBlank byte.toNat || isAsciiGraphic byte.toNat

/-- `b' ' | b'\t' | b'!' | b'#'..=b'[' | b']'..=b'~'`: what a quoted string holds unescaped. -/
def isQuotedText (byte : UInt8) : Bool :=
  isEscapable byte && byte != 0x22 && byte != 0x5C

/-- `b'!'..=b'Z' | b'^'..=b'~'`: what a domain literal holds unescaped. -/
def isLiteralText (byte : UInt8) : Bool :=
  isAsciiGraphic byte.toNat && byte != 0x5B && byte != 0x5C && byte != 0x5D

/-! ## Comments and folding white space -/

/-- The offset behind the blanks at `index`. -/
def skipBlanks (value : Str) (index : Nat) : Nat :=
  index + (((Utf8.encode value).drop index).takeWhile fun b => isBlank b.toNat).length

/-- How many bytes the quoted pair at the backslash at `index` takes. -/
def commentPairLen (field : String) (value : Str) (index : Nat) : Res Nat :=
  match byteAt value (index + 1) with
  | none => Res.bail (lit field ++ lit " contains an incomplete quoted pair in a comment")
  | some escaped =>
    if escaped < 0x80 then
      if isEscapable escaped then .ok 2
      else Res.bail (lit field ++ lit " contains an invalid quoted pair in a comment")
    else do
      let character ← charFrom value (index + 1)
      if isControl character then
        Res.bail (lit field ++ lit " contains an invalid quoted pair in a comment")
      else return 1 + character.utf8Size

theorem commentPairLen_pos {field : String} {value : Str} {index len : Nat}
    (h : commentPairLen field value index = .ok len) : 0 < len := by
  unfold commentPairLen at h
  split at h
  · exact absurd h (by simp)
  · split at h
    · split at h
      · cases h
        omega
      · exact absurd h (by simp)
    · obtain ⟨character, _, h⟩ := bind_eq_ok.mp h
      split at h
      · exact absurd h (by simp)
      · cases pure_eq_ok.mp h
        omega

theorem lt_of_byteAt {value : Str} {index : Nat} {byte : UInt8}
    (h : byteAt value index = some byte) : index < (Utf8.encode value).length :=
  (List.getElem?_eq_some_iff.mp h).1

-- The scan results are used in `decreasing_by` only, which the linter does not see.
set_option linter.unusedVariables false in
/-- The comment loop that `skip_message_id_cfws` and `skip_obsolete_message_id_comment` share:
the offset behind the parenthesis that closes the outermost of `depth` open comments. -/
def skipComment (field : String) (value : Str) (index depth : Nat) : Res Nat :=
  match depth with
  | 0 => .ok index
  | depth + 1 =>
    match h : byteAt value index with
    | none => Res.bail (lit field ++ lit " contains an unterminated comment")
    | some byte =>
      if 0x80 ≤ byte then
        match charFrom value index with
        | .error fault => .error fault
        | .ok character =>
          if isControl character then
            Res.bail (lit field ++ lit " contains an invalid character in a comment")
          else skipComment field value (index + character.utf8Size) (depth + 1)
      else if !isEscapable byte then
        Res.bail (lit field ++ lit " contains an invalid character in a comment")
      else if byte = 0x5C then
        match hpair : commentPairLen field value index with
        | .error fault => .error fault
        | .ok len => skipComment field value (index + len) (depth + 1)
      else if byte = 0x28 then skipComment field value (index + 1) (depth + 2)
      else if byte = 0x29 then skipComment field value (index + 1) depth
      else skipComment field value (index + 1) (depth + 1)
termination_by (Utf8.encode value).length - index
decreasing_by
  · have := lt_of_byteAt h
    have := character.utf8Size_pos
    omega
  · have := lt_of_byteAt h
    have := commentPairLen_pos hpair
    omega
  all_goals have := lt_of_byteAt h; omega

theorem skipComment_ge {field : String} {value : Str} {index depth next : Nat}
    (h : skipComment field value index depth = .ok next) : index ≤ next := by
  fun_induction skipComment field value index depth with
  | case1 => cases h; exact Nat.le_refl _
  | case2 => exact absurd h (by simp)
  | case3 => exact absurd h (by simp)
  | case4 => exact absurd h (by simp)
  | case5 _ _ _ _ _ _ _ _ ih => have := ih h; omega
  | case6 => exact absurd h (by simp)
  | case7 => exact absurd h (by simp)
  | case8 _ _ _ _ _ _ _ ih => have := ih h; omega
  | case9 _ _ _ _ _ _ ih => have := ih h; omega
  | case10 _ _ _ _ _ _ _ ih => have := ih h; omega
  | case11 _ _ _ _ _ _ _ _ _ ih => have := ih h; omega

theorem skipBlanks_ge (value : Str) (index : Nat) : index ≤ skipBlanks value index :=
  Nat.le_add_right _ _

-- The scan results are used in `decreasing_by` only, which the linter does not see.
set_option linter.unusedVariables false in
/-- `skip_message_id_cfws`, and `skip_obsolete_message_id_cfws`, which is the same loop. -/
def skipMessageIdCfws (field : String) (value : Str) (index : Nat) : Res Nat :=
  let start := skipBlanks value index
  if hopen : byteAt value start = some 0x28 then
    match hnext : skipComment field value (start + 1) 1 with
    | .error fault => .error fault
    | .ok next => skipMessageIdCfws field value next
  else .ok start
termination_by (Utf8.encode value).length - index
decreasing_by
  have := lt_of_byteAt hopen
  have := skipBlanks_ge value index
  have := skipComment_ge hnext
  omega

/-- `skip_obsolete_message_id_comment`. -/
def skipObsoleteMessageIdComment (field : String) (value : Str) (index : Nat) : Res Nat :=
  skipComment field value (index + 1) 1

/-- `skip_obsolete_message_id_cfws`. -/
def skipObsoleteMessageIdCfws (field : String) (value : Str) (index : Nat) : Res Nat :=
  skipMessageIdCfws field value index

/-! ## The end of an identifier and its separator -/

/-- The state of the loops of `find_message_id_end` and `message_id_separator`. -/
structure IdScan where
  quoted : Bool
  literal : Bool
  escaped : Bool
  commentDepth : Nat
  deriving DecidableEq, Repr

/-- Outside of quotes, literals and comments. -/
def IdScan.neutral : IdScan := ⟨false, false, false, 0⟩

/-- What both loops do with a byte that they do not look for. -/
def IdScan.step (scan : IdScan) (byte : UInt8) : IdScan :=
  if scan.commentDepth ≠ 0 then
    if scan.escaped then { scan with escaped := false }
    else if byte = 0x5C then { scan with escaped := true }
    else if byte = 0x28 then { scan with commentDepth := scan.commentDepth + 1 }
    else if byte = 0x29 then { scan with commentDepth := scan.commentDepth - 1 }
    else scan
  else if scan.escaped then { scan with escaped := false }
  else if (scan.quoted || scan.literal) && byte = 0x5C then { scan with escaped := true }
  else if !scan.literal && byte = 0x22 then { scan with quoted := !scan.quoted }
  else if !scan.quoted && byte = 0x5B then { scan with literal := true }
  else if scan.literal && byte = 0x5D then { scan with literal := false }
  else if !scan.quoted && !scan.literal && byte = 0x28 then { scan with commentDepth := 1 }
  else scan

/-- The loop of `find_message_id_end`: the offset of the first `>` outside of everything. -/
def findIdEnd (scan : IdScan) (index : Nat) : Bytes → Option Nat
  | [] => none
  | byte :: rest =>
    if scan = .neutral ∧ byte = 0x3E then some index
    else findIdEnd (scan.step byte) (index + 1) rest

/-- `find_message_id_end`. -/
def findMessageIdEnd (field : String) (value : Str) (index : Nat) : Res Nat :=
  match findIdEnd .neutral index ((Utf8.encode value).drop index) with
  | some stop => .ok stop
  | none => Res.bail (lit field ++ lit " contains an unterminated message identifier")

/-- The loop of `message_id_separator`: a second `@` outside of everything ends it. -/
def findSeparator (scan : IdScan) (separator : Option Nat) (index : Nat) :
    Bytes → Option (Option Nat × IdScan)
  | [] => some (separator, scan)
  | byte :: rest =>
    if scan = .neutral ∧ byte = 0x40 then
      match separator with
      | some _ => none
      | none => findSeparator scan (some index) (index + 1) rest
    else findSeparator (scan.step byte) separator (index + 1) rest

/-- `message_id_separator`. -/
def messageIdSeparator (inner : Bytes) : Option Nat :=
  match findSeparator .neutral none 0 inner with
  | none => none
  | some (separator, scan) => if scan = .neutral then separator else none

/-! ## Words -/

/-- `parse_id_left_atom`. -/
def parseIdLeftAtom (value : Bytes) (index : Nat) : Option Nat :=
  let length := ((value.drop index).takeWhile isAtext).length
  if length = 0 then none else some (index + length)

/-- The loop of `parse_quoted_id_word` in what is left of the value. -/
def quotedIdWordEnd (index : Nat) (escaped : Bool) : Bytes → Option Nat
  | [] => none
  | byte :: rest =>
    if escaped then
      if isEscapable byte then quotedIdWordEnd (index + 1) false rest else none
    else if byte = 0x5C then quotedIdWordEnd (index + 1) true rest
    else if byte = 0x22 then some (index + 1)
    else if isQuotedText byte then quotedIdWordEnd (index + 1) false rest
    else none

/-- `parse_quoted_id_word`. -/
def parseQuotedIdWord (value : Bytes) (index : Nat) : Option Nat :=
  quotedIdWordEnd (index + 1) false (value.drop (index + 1))

/-- `parse_id_left_word`. -/
def parseIdLeftWord (value : Bytes) (index : Nat) : Option Nat :=
  if value[index]? = some 0x22 then parseQuotedIdWord value index
  else parseIdLeftAtom value index

theorem quotedIdWordEnd_gt {index next : Nat} {escaped : Bool} {rest : Bytes}
    (h : quotedIdWordEnd index escaped rest = some next) : index < next := by
  induction rest generalizing index escaped with
  | nil => exact absurd h (by simp [quotedIdWordEnd])
  | cons byte rest ih =>
    rw [quotedIdWordEnd] at h
    split at h
    · split at h
      · have := ih h; omega
      · exact absurd h (by simp)
    · split at h
      · have := ih h; omega
      · split at h
        · cases h; omega
        · split at h
          · have := ih h; omega
          · exact absurd h (by simp)

theorem parseIdLeftAtom_gt {value : Bytes} {index next : Nat}
    (h : parseIdLeftAtom value index = some next) : index < next := by
  unfold parseIdLeftAtom at h
  simp only at h
  split at h
  · exact absurd h (by simp)
  · cases h
    omega

theorem parseIdLeftWord_gt {value : Bytes} {index next : Nat}
    (h : parseIdLeftWord value index = some next) : index < next := by
  unfold parseIdLeftWord at h
  split at h
  · have := quotedIdWordEnd_gt h
    omega
  · exact parseIdLeftAtom_gt h

/-! ## The canonical forms -/

/-- The loop of `valid_obs_id_left`. -/
def validObsIdLeftFrom (value : Bytes) (index : Nat) : Bool :=
  match h : parseIdLeftWord value index with
  | none => false
  | some next =>
    if next = value.length then true
    else if hdot : value[next]? = some 0x2E then
      if next + 1 = value.length then false else validObsIdLeftFrom value (next + 1)
    else false
termination_by value.length - index
decreasing_by
  have := parseIdLeftWord_gt h
  have := (List.getElem?_eq_some_iff.mp hdot).1
  omega

/-- `valid_obs_id_left`. -/
def validObsIdLeft (value : Bytes) : Bool := value ≠ [] && validObsIdLeftFrom value 0

/-- The loop of `valid_no_fold_literal`. -/
def validLiteralContent : Bytes → Bool
  | [] => true
  | byte :: rest =>
    if byte = 0x5C then
      match rest with
      | [] => false
      | escaped :: rest => isEscapable escaped && validLiteralContent rest
    else isLiteralText byte && validLiteralContent rest

/-- `valid_no_fold_literal`. -/
def validNoFoldLiteral (value : Bytes) : Bool :=
  if value.length < 3 || value.head? != some 0x5B || value.getLast? != some 0x5D then false
  else validLiteralContent value.tail.dropLast

/-- `valid_dot_atom`. -/
def validDotAtom (value : Bytes) : Bool :=
  value ≠ [] && value.head? != some 0x2E && value.getLast? != some 0x2E &&
    !(decide ([0x2E, 0x2E] <:+: value)) && value.all fun byte => byte == 0x2E || isAtext byte

/-- `valid_id_right`. -/
def validIdRight (value : Bytes) : Bool :=
  if value.head? = some 0x5B then validNoFoldLiteral value else validDotAtom value

/-! ## The obsolete forms -/

theorem skipMessageIdCfws_ge {field : String} {value : Str} {index next : Nat}
    (h : skipMessageIdCfws field value index = .ok next) : index ≤ next := by
  fun_induction skipMessageIdCfws field value index with
  | case1 => exact absurd h (by simp)
  | case2 index start _ next' hnext ih =>
    have := skipBlanks_ge value index
    have := skipComment_ge hnext
    have := ih h
    omega
  | case3 index start _ =>
    rw [← Except.ok.inj h]
    exact skipBlanks_ge value index

/-- The word at `index`: `parse_quoted_id_word` or `parse_id_left_atom`, by the first byte. -/
def wordAt (value : Bytes) (index : Nat) (first : UInt8) : Option Nat :=
  if first = 0x22 then parseQuotedIdWord value index else parseIdLeftAtom value index

theorem wordAt_gt {value : Bytes} {index next : Nat} {first : UInt8}
    (h : wordAt value index first = some next) : index < next := by
  unfold wordAt at h
  split at h
  · have := quotedIdWordEnd_gt h
    omega
  · exact parseIdLeftAtom_gt h

/-- `parse_obs_id_left_word`. -/
def parseObsIdLeftWord (field : String) (value : Str) (index : Nat) : Res (Option Nat) :=
  match skipObsoleteMessageIdCfws field value index with
  | .error fault => .error fault
  | .ok start =>
    match byteAt value start with
    | none => .ok none
    | some first =>
      match wordAt (Utf8.encode value) start first with
      | none => .ok none
      | some next => (skipObsoleteMessageIdCfws field value next).map some

/-- `parse_obs_domain_atom`. -/
def parseObsDomainAtom (field : String) (value : Str) (index : Nat) : Res (Option Nat) :=
  match skipObsoleteMessageIdCfws field value index with
  | .error fault => .error fault
  | .ok start =>
    match parseIdLeftAtom (Utf8.encode value) start with
    | none => .ok none
    | some next => (skipObsoleteMessageIdCfws field value next).map some

theorem parseObsIdLeftWord_gt {field : String} {value : Str} {index next : Nat}
    (h : parseObsIdLeftWord field value index = .ok (some next)) : index < next := by
  unfold parseObsIdLeftWord at h
  split at h
  · exact absurd h (by simp)
  · next start hstart =>
    split at h
    · exact absurd h (by simp)
    · split at h
      · exact absurd h (by simp)
      · next word hword =>
        obtain ⟨stop, hstop, heq⟩ := map_eq_ok.mp h
        have := skipMessageIdCfws_ge hstart
        have := wordAt_gt hword
        have := skipMessageIdCfws_ge hstop
        cases heq
        omega

theorem parseObsDomainAtom_gt {field : String} {value : Str} {index next : Nat}
    (h : parseObsDomainAtom field value index = .ok (some next)) : index < next := by
  unfold parseObsDomainAtom at h
  split at h
  · exact absurd h (by simp)
  · next start hstart =>
    split at h
    · exact absurd h (by simp)
    · next atom hatom =>
      obtain ⟨stop, hstop, heq⟩ := map_eq_ok.mp h
      have := skipMessageIdCfws_ge hstart
      have := parseIdLeftAtom_gt hatom
      have := skipMessageIdCfws_ge hstop
      cases heq
      omega

-- The parse result is used in `decreasing_by` only, which the linter does not see.
set_option linter.unusedVariables false in
/-- The loop that `valid_obs_id_left_with_cfws` and `valid_obs_id_right_with_cfws` share: words,
as `parse` reads them, with dots between them. A `bytes[index]` out of range is a panic. -/
def validDotSeparatedFrom (parse : Nat → Res (Option Nat))
    (hparse : ∀ {index next}, parse index = .ok (some next) → index < next) (value : Str)
    (index : Nat) : Res Bool :=
  match h : parse index with
  | .error fault => .error fault
  | .ok none => .ok false
  | .ok (some next) =>
    if next = (Utf8.encode value).length then .ok true
    else
      match hbyte : byteAt value next with
      | none => .error .panic
      | some byte =>
        if byte ≠ 0x2E then .ok false
        else if next + 1 = (Utf8.encode value).length then .ok false
        else validDotSeparatedFrom parse hparse value (next + 1)
termination_by (Utf8.encode value).length - index
decreasing_by
  have := hparse h
  have := lt_of_byteAt hbyte
  omega

/-- `valid_obs_id_left_with_cfws`. -/
def validObsIdLeftWithCfws (field : String) (value : Str) : Res Bool :=
  if value = [] then .ok false
  else validDotSeparatedFrom (parseObsIdLeftWord field value) parseObsIdLeftWord_gt value 0

/-- The loop of `valid_obs_domain_literal` in what is left of the value: the offset behind the
closing bracket of a literal with content. -/
def domainLiteralEnd (index : Nat) (hasContent : Bool) : Bytes → Option Nat
  | [] => none
  | byte :: rest =>
    if byte = 0x5D then if hasContent then some (index + 1) else none
    else if isBlank byte.toNat then domainLiteralEnd (index + 1) hasContent rest
    else if byte = 0x5C then
      match rest with
      | [] => none
      | escaped :: rest =>
        if isEscapable escaped then domainLiteralEnd (index + 2) true rest else none
    else if isLiteralText byte then domainLiteralEnd (index + 1) true rest
    else none

/-- `valid_obs_domain_literal`. -/
def validObsDomainLiteral (field : String) (value : Str) (index : Nat) : Res Bool :=
  match domainLiteralEnd (index + 1) false ((Utf8.encode value).drop (index + 1)) with
  | none => .ok false
  | some next =>
    (skipObsoleteMessageIdCfws field value next).map fun stop =>
      stop == (Utf8.encode value).length

/-- `valid_obs_id_right_with_cfws`. -/
def validObsIdRightWithCfws (field : String) (value : Str) : Res Bool :=
  if value = [] then .ok false
  else
    match skipObsoleteMessageIdCfws field value 0 with
    | .error fault => .error fault
    | .ok start =>
      if byteAt value start = some 0x5B then validObsDomainLiteral field value start
      else validDotSeparatedFrom (parseObsDomainAtom field value) parseObsDomainAtom_gt value 0

/-- The flags of the loop of `strip_obsolete_message_id_cfws`. -/
structure StripScan where
  quoted : Bool
  literal : Bool
  escaped : Bool
  deriving DecidableEq, Repr

-- The scan results are used in `decreasing_by` only, which the linter does not see.
set_option linter.unusedVariables false in
/-- The loop of `strip_obsolete_message_id_cfws`. -/
def stripFrom (field : String) (value : Str) (index : Nat) (scan : StripScan)
    (canonical : Bytes) : Res Bytes :=
  match h : byteAt value index with
  | none =>
    if scan.quoted || scan.literal || scan.escaped then
      Res.bail (lit field ++ lit " contains an unterminated quoted component")
    else .ok canonical
  | some byte =>
    if scan.escaped then
      stripFrom field value (index + 1) { scan with escaped := false } (canonical ++ [byte])
    else if (scan.quoted || scan.literal) && byte = 0x5C then
      stripFrom field value (index + 1) { scan with escaped := true } (canonical ++ [byte])
    else if !scan.literal && byte = 0x22 then
      stripFrom field value (index + 1) { scan with quoted := !scan.quoted } (canonical ++ [byte])
    else if !scan.quoted && byte = 0x5B then
      stripFrom field value (index + 1) { scan with literal := true } (canonical ++ [byte])
    else if scan.literal && byte = 0x5D then
      stripFrom field value (index + 1) { scan with literal := false } (canonical ++ [byte])
    else if !scan.quoted && isBlank byte.toNat then
      stripFrom field value (index + 1) scan canonical
    else if !scan.quoted && !scan.literal && byte = 0x28 then
      match hnext : skipObsoleteMessageIdComment field value index with
      | .error fault => .error fault
      | .ok next => stripFrom field value next scan canonical
    else stripFrom field value (index + 1) scan (canonical ++ [byte])
termination_by (Utf8.encode value).length - index
decreasing_by
  all_goals have hlt := lt_of_byteAt h
  all_goals try omega
  have hge := skipComment_ge hnext
  omega

/-- `strip_obsolete_message_id_cfws`. -/
def stripObsoleteMessageIdCfws (field : String) (value : Str) : Res Bytes :=
  stripFrom field value 0 ⟨false, false, false⟩ []

/-! ## One identifier -/

/-- `bail!("{field} contains {message}: {value:?}")` and its like. -/
def bailValue {α : Type} (field : String) (message : String) (value : Str) : Res α :=
  Res.bail (lit field ++ lit message ++ [.debug value])

/-- `ensure!` with the message of `bailValue`. -/
def ensureValue (condition : Bool) (field : String) (message : String) (value : Str) : Res Unit :=
  if condition then .ok () else bailValue field message value

/-- The separator of an identifier, or the failure without one. -/
def separatorOf (field : String) (value : Str) (inner : Bytes) : Res Nat :=
  match messageIdSeparator inner with
  | some separator => .ok separator
  | none =>
    bailValue field " contains a message identifier without one valid @ separator: " value

/-- `source_inner.split_at(separator)`, without the `@`. -/
def splitSource (inner : Str) (separator : Nat) : Res (Str × Str) :=
  match Utf8.takeBytes inner separator, Utf8.dropBytes inner (separator + 1) with
  | some left, some right => .ok (left, right)
  | _, _ => .error .panic

/-- `inner` of `canonical_message_id_core`: the identifier without its semantically empty
white space and comments. -/
def canonicalInner (field : String) (value inner left right : Str)
    (allowObsoleteInternalCfws : Bool) : Res Bytes :=
  if allowObsoleteInternalCfws then do
    ensureValue (← validObsIdLeftWithCfws field left) field
      " contains an invalid obsolete id-left in " value
    ensureValue (← validObsIdRightWithCfws field right) field
      " contains an invalid obsolete id-right in " value
    stripObsoleteMessageIdCfws field inner
  else do
    ensureValue (validDotAtom (Utf8.encode left)) field " contains an invalid id-left in " value
    ensureValue (validIdRight (Utf8.encode right)) field " contains an invalid id-right in " value
    return Utf8.encode inner

/-- `canonical_message_id_core`. -/
def canonicalMessageIdCore (field : String) (value : Str) (allowObsoleteInternalCfws : Bool) :
    Res Str := do
  ensureValue
    (value.head? == some '<' && value.getLast? == some '>' &&
      (allowObsoleteInternalCfws || isAscii value)) field
    " contains a non-ASCII or unbracketed message identifier: " value
  let sourceInner := value.tail.dropLast
  let sourceSeparator ← separatorOf field value (Utf8.encode sourceInner)
  let (sourceLeft, sourceRight) ← splitSource sourceInner sourceSeparator
  let inner ← canonicalInner field value sourceInner sourceLeft sourceRight
    allowObsoleteInternalCfws
  let separator ← separatorOf field value inner
  ensureValue (validObsIdLeft (inner.take separator)) field " contains an invalid id-left in " value
  ensureValue (validIdRight (inner.drop (separator + 1))) field
    " contains an invalid id-right in " value
  let text ← Res.orPanic (Utf8.decode inner)
  return ['<'] ++ text ++ ['>']

end Notm.Mail
