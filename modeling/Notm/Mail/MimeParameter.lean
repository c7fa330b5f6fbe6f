import Notm.Lib.Rfc2231
import Notm.Mail.TokenHeader

/-!
# The file name of an attachment

`render_attachment` writes the file name into two headers. A short name of plain ASCII becomes a
quoted string; any other name is percent-encoded character by character and divided over numbered
segments.

* `encoded_percentEncode`, `decode_percentEncode` — the percent encoding of a name, and back.
* `foldl_segmented` — the loop over the atoms divides a name at character boundaries into short
  segments.
* `renderMimeParameter_forms` — a parameter is one quoted string or a list of numbered segments.
* `writeParameterizedHeader_carries` — the header with it is read back as the name.
* `attachment_headers_carry_filename` — so are both headers of an attachment.
-/

namespace Notm.Mail

open Rust Folding

def mimeParameterSegmentLength : Nat := 42

/-! ## The functions -/

/-- A digit of `HEX`. -/
def hexDigit (value : UInt8) : Char := "0123456789ABCDEF".toList.getD value.toNat '0'

def isUnreservedByte (byte : UInt8) : Bool :=
  isAsciiAlphanumeric byte.toNat || byte ∈ Utf8.encode "-._~".toList

/-- An unreserved byte stands for itself. -/
def percentEncodeByte (byte : UInt8) : Str :=
  if isUnreservedByte byte = true then [Char.ofNat byte.toNat]
  else ['%', hexDigit (byte >>> 4), hexDigit (byte &&& 0x0F)]

def percentEncodeMimeParameter (value : Str) : Str := (Utf8.encode value).flatMap percentEncodeByte

/-- One atom for each character, so that no segment ends inside one. -/
def percentEncodedCharacterAtoms (value : Str) : List Str :=
  value.map fun character => percentEncodeMimeParameter [character]

/-- The check of a quoted string on one byte. -/
def isQuotable (byte : UInt8) : Bool :=
  !(byte < 0x20 || byte = 0x7F || byte = 0x22 || byte = 0x5C || byte = 0x3B)

/-- One round of the loop over the atoms, over `segments` and `current`. -/
def pushAtom (state : List Str × Str) (atom : Str) : List Str × Str :=
  if state.2 ≠ [] ∧ Utf8.len state.2 + Utf8.len atom > mimeParameterSegmentLength then
    (state.1 ++ [state.2], atom)
  else (state.1, state.2 ++ atom)

/-- A short value that can be quoted is written in quotes. Any other is cut into numbered segments,
of which the first names the charset. -/
def renderMimeParameter (name value : Str) : List Str :=
  if isAscii value = true ∧ Utf8.len value ≤ mimeParameterSegmentLength ∧
      (Utf8.encode value).all isQuotable = true then
    [name ++ "=\"".toList ++ value ++ "\"".toList]
  else
    let state := (percentEncodedCharacterAtoms value).foldl pushAtom ([], [])
    (state.1 ++ [state.2]).mapIdx fun index segment =>
      if index = 0 then name ++ "*".toList ++ natText index ++ "*=utf-8\x27\x27".toList ++ segment
      else name ++ "*".toList ++ natText index ++ "*=".toList ++ segment

/-- A header that is not folded, and has to fit the line limit as it is. -/
def writeLiteralHeader (out : Bytes) (name value : Str) : Res Bytes := do
  validateHeaderText [.lit name] value
  Res.ensure (Utf8.len name + 2 + Utf8.len value ≤ maxWireLineLength)
    ([.lit name] ++ lit " exceeds the RFC 5322 line limit")
  .ok (out ++ (Utf8.encode name ++ Utf8.encode ": ".toList ++ Utf8.encode value ++ crlf))

/-- The loop over the parameters, from `index` on. -/
def writeParameters (name : Str) (count : Nat) (out : Bytes) (index : Nat) :
    List Str → Res Bytes
  | [] => .ok out
  | parameter :: rest => do
    let last := index + 1 = count
    Res.ensure
      (1 + Utf8.len parameter + (if last then 0 else 1) ≤ recommendedHeaderLineLength)
      ([.lit name] ++ lit " MIME parameter segment exceeds the recommended line length")
    writeParameters name count
      (out ++ (0x20 :: Utf8.encode parameter ++ (if last then [] else [0x3B]) ++ crlf))
      (index + 1) rest

/-- The parameters are on lines of their own behind the value. -/
def writeParameterizedHeader (out : Bytes) (name value parameterName parameterValue : Str) :
    Res Bytes := do
  let out ← writeLiteralHeader out name (value ++ ";".toList)
  let parameters := renderMimeParameter parameterName parameterValue
  writeParameters name parameters.length out 0 parameters

/-- RFC 2045: visible ASCII without the special characters. -/
def isMimeToken (value : Str) : Bool :=
  value ≠ [] && (Utf8.encode value).all fun byte =>
    isAsciiGraphic byte.toNat && byte ∉ Utf8.encode "()<>@,;:\\\"/[]?=".toList

def fallbackContentType : Str := "application/octet-stream".toList

/-- A content type that is not a pair of tokens, or would make the part a multipart, is replaced. -/
def safeAttachmentContentType (contentType : Str) : Str :=
  match splitOnce contentType '/' with
  | none => fallbackContentType
  | some (topLevel, subtype) =>
    if eqIgnoreAsciiCase topLevel "multipart".toList || decide ('/' ∈ subtype) ||
        !isMimeToken topLevel || !isMimeToken subtype then
      fallbackContentType
    else contentType

/-- The content type that an attachment is given. -/
def attachmentContentType (contentType : Str) : Str :=
  let safe := safeAttachmentContentType contentType
  let isMessage := ((splitOnce safe '/').map fun parts =>
    eqIgnoreAsciiCase parts.1 "message".toList).getD false
  if isMessage && !eqIgnoreAsciiCase safe "message/rfc822".toList then fallbackContentType else safe

/-- `render_attachment` up to the empty line after the headers. -/
def writeAttachmentHeaders (out : Bytes) (filename contentType : Str) : Res Bytes := do
  validateHeaderText (lit "attachment filename") filename
  validateHeaderText (lit "attachment content type") contentType
  let contentType := attachmentContentType contentType
  Res.ensure (Utf8.len contentType ≤ 200) (lit "attachment content type is unreasonably long")
  let out ← writeParameterizedHeader out "Content-Type".toList contentType "name".toList filename
  let isMessage := eqIgnoreAsciiCase contentType "message/rfc822".toList
  let out ← writeLiteralHeader out "Content-Transfer-Encoding".toList
    (if isMessage then "8bit".toList else "base64".toList)
  let out ← writeParameterizedHeader out "Content-Disposition".toList "attachment".toList
    "filename".toList filename
  .ok (out ++ crlf)

/-! ## Percent encoding -/

def IsUnreserved (c : Char) : Prop := isAsciiAlphanumeric c.toNat = true ∨ c ∈ "-._~".toList

theorem isUnreservedByte_lt {byte : UInt8} (h : isUnreservedByte byte = true) :
    byte.toNat < 128 := by
  have hall : ∀ n < 256, isUnreservedByte (UInt8.ofNat n) = true → n < 128 := by decide +kernel
  refine hall byte.toNat byte.toNat_lt ?_
  rwa [UInt8.ofNat_toNat]

theorem isUnreserved_of_byte {byte : UInt8} (h : isUnreservedByte byte = true) :
    IsUnreserved (Char.ofNat byte.toNat) := by
  have hall : ∀ n < 256, isUnreservedByte (UInt8.ofNat n) = true →
      isAsciiAlphanumeric (Char.ofNat n).toNat = true ∨ Char.ofNat n ∈ ['-', '.', '_', '~'] := by
    decide +kernel
  refine hall byte.toNat byte.toNat_lt ?_
  rwa [UInt8.ofNat_toNat]

theorem encodesByte_percent (byte : UInt8) :
    Percent.EncodesByte byte ['%', hexDigit (byte >>> 4), hexDigit (byte &&& 0x0F)] := by
  have hdigit : ∀ n < 16, Percent.hexValue (UInt8.ofNat (hexDigit (UInt8.ofNat n)).toNat) =
      some (UInt8.ofNat n) ∧
      Char.ofNat (UInt8.ofNat (hexDigit (UInt8.ofNat n)).toNat).toNat =
        hexDigit (UInt8.ofNat n) := by
    decide +kernel
  have hhalves : ∀ n < 256, (UInt8.ofNat n >>> 4).toNat < 16 ∧
      (UInt8.ofNat n &&& 0x0F).toNat < 16 := by
    decide +kernel
  obtain ⟨hhigh, hlow⟩ := hhalves byte.toNat byte.toNat_lt
  rw [UInt8.ofNat_toNat] at hhigh hlow
  obtain ⟨hhighValue, hhighChar⟩ := hdigit _ hhigh
  obtain ⟨hlowValue, hlowChar⟩ := hdigit _ hlow
  rw [UInt8.ofNat_toNat] at hhighValue hhighChar hlowValue hlowChar
  exact ⟨_, _, hhighValue, hlowValue, by rw [hhighChar, hlowChar]⟩

variable {name value filename : Str}

theorem percentEncode_append (first second : Str) :
    percentEncodeMimeParameter (first ++ second) =
      percentEncodeMimeParameter first ++ percentEncodeMimeParameter second := by
  unfold percentEncodeMimeParameter
  rw [Utf8.encode_append, List.flatMap_append]

/-- A character is left as it is or all its bytes are encoded. -/
theorem encoded_character (c : Char) :
    Percent.Encoded IsUnreserved [c] (percentEncodeMimeParameter [c]) := by
  have hencode : Utf8.encode [c] = String.utf8EncodeChar c := List.append_nil _
  unfold percentEncodeMimeParameter
  rw [hencode]
  by_cases hkeep : ∃ byte ∈ String.utf8EncodeChar c, isUnreservedByte byte = true
  · obtain ⟨byte, hbyte, hunreserved⟩ := hkeep
    have hlt := isUnreservedByte_lt hunreserved
    have hascii : c.toNat < 128 := by
      by_contra hge
      have := Utf8.encodeChar_not_ascii (Nat.le_of_not_lt hge) byte hbyte
      omega
    rw [Utf8.encodeChar_ascii hascii] at hbyte ⊢
    obtain rfl := List.mem_singleton.1 hbyte
    have hcode : (UInt8.ofNat c.toNat).toNat = c.toNat := by
      rw [UInt8.toNat_ofNat', Nat.mod_eq_of_lt (by omega)]
    have hunreservedChar := isUnreserved_of_byte hunreserved
    rw [hcode, Char.ofNat_toNat] at hunreservedChar
    rw [List.flatMap_singleton, percentEncodeByte, if_pos hunreserved, hcode, Char.ofNat_toNat]
    exact Percent.Encoded.keep hunreservedChar Percent.Encoded.nil
  · have hencoded : (String.utf8EncodeChar c).flatMap percentEncodeByte =
        ((String.utf8EncodeChar c).map fun byte : UInt8 =>
          ['%', hexDigit (byte >>> 4), hexDigit (byte &&& 0x0F)]).flatten ++ [] := by
      rw [List.append_nil, ← List.flatMap_def]
      exact List.flatMap_congr fun byte hbyte => if_neg fun h => hkeep ⟨byte, hbyte, h⟩
    rw [hencoded]
    refine Percent.Encoded.percent ?_ Percent.Encoded.nil
    rw [List.forall₂_map_right_iff]
    exact List.forall₂_same.2 fun byte _ => encodesByte_percent byte

theorem encoded_percentEncode (value : Str) :
    Percent.Encoded IsUnreserved value (percentEncodeMimeParameter value) := by
  induction value with
  | nil => exact Percent.Encoded.nil
  | cons c value ih =>
    rw [← List.singleton_append, percentEncode_append]
    exact (encoded_character c).append ih

theorem decode_percentEncode (value : Str) :
    Percent.decode (Utf8.encode (percentEncodeMimeParameter value)) = some (Utf8.encode value) := by
  refine Percent.decode_encoded (fun c hc => ?_) (encoded_percentEncode value)
  rintro rfl
  exact absurd hc (by unfold IsUnreserved; decide)

/-- The characters of a segment. -/
theorem mem_percentEncode {c : Char} (h : c ∈ percentEncodeMimeParameter value) :
    c.toNat < 128 ∧ c ≠ '"' ∧ c ≠ ';' ∧ isControl c = false := by
  have halnum : ∀ n < 128, isAsciiAlphanumeric n = true → n ≠ 0x22 ∧ n ≠ 0x3B ∧ 0x20 ≤ n ∧
      n < 0x7F := by
    decide +kernel
  have hcode : ∀ {c : Char}, isAsciiAlphanumeric c.toNat = true →
      c.toNat < 128 ∧ c ≠ '"' ∧ c ≠ ';' ∧ isControl c = false := by
    intro c hc
    have hlt := Percent.lt_of_isAsciiAlphanumeric hc
    obtain ⟨hquote, hsemicolon, hlow, hhigh⟩ := halnum _ hlt hc
    refine ⟨hlt, fun heq => hquote (heq ▸ rfl), fun heq => hsemicolon (heq ▸ rfl), ?_⟩
    unfold isControl
    simp only [Bool.or_eq_false_iff, Bool.and_eq_false_iff, decide_eq_false_iff_not]
    omega
  rcases Percent.mem_encoded (encoded_percentEncode value) h with (hraw | hraw) | rfl | hraw
  · exact hcode hraw
  · have hfour : c = '-' ∨ c = '.' ∨ c = '_' ∨ c = '~' := by simpa using hraw
    rcases hfour with rfl | rfl | rfl | rfl <;> decide
  · decide
  · exact hcode hraw

theorem len_of_ascii {text : Str} (h : ∀ c ∈ text, c.toNat < 128) :
    Utf8.len text = text.length := by
  induction text with
  | nil => rfl
  | cons d text ih =>
    rw [Utf8.len_cons, Utf8.utf8Size_ascii (h d List.mem_cons_self),
      ih fun e he => h e (List.mem_cons_of_mem d he), List.length_cons]
    omega

theorem len_percentEncode_character (c : Char) :
    Utf8.len (percentEncodeMimeParameter [c]) ≤ 12 := by
  have hbyte : ∀ byte, (percentEncodeByte byte).length ≤ 3 := by
    intro byte
    unfold percentEncodeByte
    split
    · exact Nat.le_of_ble_eq_true rfl
    · exact le_refl 3
  have hbytes : ∀ bytes : Bytes, (bytes.flatMap percentEncodeByte).length ≤ 3 * bytes.length := by
    intro bytes
    induction bytes with
    | nil => exact Nat.zero_le _
    | cons byte bytes ih =>
      have := hbyte byte
      rw [List.flatMap_cons, List.length_append, List.length_cons]
      omega
  have hsize : (Utf8.encode [c]).length ≤ 4 := by
    rw [Utf8.length_encode, Utf8.len_cons, Utf8.len_nil]
    exact Char.utf8Size_le_four c
  rw [len_of_ascii fun d hd => (mem_percentEncode hd).1]
  have := hbytes (Utf8.encode [c])
  unfold percentEncodeMimeParameter
  omega

/-! ## Segments -/

/-- What the loop has made of the characters read so far: finished segments and the current one,
each the encoding of a piece of the text. -/
structure Segmented (read : Str) (pieces : List Str) (piece : Str) (state : List Str × Str) :
    Prop where
  finished : state.1 = pieces.map percentEncodeMimeParameter
  current : state.2 = percentEncodeMimeParameter piece
  joined : pieces.flatten ++ piece = read
  nonempty : [] ∉ pieces
  short : ∀ piece' ∈ pieces ++ [piece],
    Utf8.len (percentEncodeMimeParameter piece') ≤ mimeParameterSegmentLength

/-- One character more: it goes to the current segment, or where that would get too long it starts
the next one. No segment is cut within a character, because the atoms are whole characters. -/
theorem pushAtom_segmented {read piece : Str} {pieces : List Str} {state : List Str × Str}
    (h : Segmented read pieces piece state) (c : Char) :
    ∃ pieces' piece', Segmented (read ++ [c]) pieces' piece'
      (pushAtom state (percentEncodeMimeParameter [c])) := by
  have hatom := len_percentEncode_character c
  unfold pushAtom
  split
  · next hfull =>
    have hpiece : piece ≠ [] := by
      intro hnil
      refine hfull.1 ?_
      rw [h.current, hnil]
      rfl
    refine ⟨pieces ++ [piece], [c], ?_, rfl, ?_, ?_, ?_⟩
    · rw [List.map_append, List.map_singleton, ← h.finished, ← h.current]
    · rw [List.flatten_append, List.flatten_singleton, h.joined]
    · rw [List.mem_append, List.mem_singleton]
      exact not_or.2 ⟨h.nonempty, Ne.symm hpiece⟩
    · refine List.forall_mem_append.2 ⟨h.short, fun piece' hmem => ?_⟩
      rw [List.mem_singleton.1 hmem]
      exact hatom.trans (by decide)
  · next hfits =>
    refine ⟨pieces, piece ++ [c], h.finished, ?_, ?_, h.nonempty, ?_⟩
    · rw [percentEncode_append, ← h.current]
    · rw [← List.append_assoc, h.joined]
    · refine List.forall_mem_append.2
        ⟨fun piece' hmem => h.short piece' (List.mem_append_left _ hmem), fun piece' hmem => ?_⟩
      rw [List.mem_singleton.1 hmem, percentEncode_append, Utf8.len_append, ← h.current]
      by_cases hempty : state.2 = []
      · rw [hempty, Utf8.len_nil, Nat.zero_add]
        exact hatom.trans (by decide)
      · exact Nat.le_of_not_lt fun hlong => hfits ⟨hempty, hlong⟩

theorem foldl_segmented {read piece : Str} {pieces : List Str} {state : List Str × Str}
    (h : Segmented read pieces piece state) (value : Str) :
    ∃ pieces' piece', Segmented (read ++ value) pieces' piece'
      ((percentEncodedCharacterAtoms value).foldl pushAtom state) := by
  induction value generalizing read pieces piece state with
  | nil =>
    rw [List.append_nil]
    exact ⟨pieces, piece, h⟩
  | cons c value ih =>
    obtain ⟨pieces', piece', hnext⟩ := pushAtom_segmented h c
    have hrest := ih hnext
    rwa [List.append_assoc, List.singleton_append] at hrest

theorem segmented_nil : Segmented [] [] [] ([], []) where
  finished := rfl
  current := rfl
  joined := rfl
  nonempty := List.not_mem_nil
  short := by
    intro piece hmem
    obtain rfl := List.mem_singleton.1 hmem
    decide

/-- A name in segments, each the encoding of a piece. -/
structure InSegments (name value : Str) (pieces : List Str) (parameters : List Str) : Prop where
  joined : pieces.flatten = value
  parameters : parameters =
    (pieces.map percentEncodeMimeParameter).mapIdx (Rfc2231.segmentParameter name)
  nonempty : pieces ≠ []
  short : ∀ piece ∈ pieces,
    Utf8.len (percentEncodeMimeParameter piece) ≤ mimeParameterSegmentLength
  count : pieces.length ≤ value.length + 1

/-- A short name of plain characters is quoted. -/
structure InQuotes (name value : Str) (parameters : List Str) : Prop where
  parameters : parameters = [Rfc2231.quotedParameter name value]
  short : Utf8.len value ≤ mimeParameterSegmentLength
  plain : ∀ c ∈ value, c ≠ '"' ∧ c ≠ '\\'

theorem length_le_flatten {pieces : List Str} (h : [] ∉ pieces) :
    pieces.length ≤ pieces.flatten.length := by
  induction pieces with
  | nil => exact Nat.zero_le _
  | cons piece pieces ih =>
    obtain ⟨hpiece, hpieces⟩ := not_or.1 (List.mem_cons.not.1 h)
    have hpos := List.length_pos_of_ne_nil (Ne.symm hpiece)
    have hrest := ih hpieces
    rw [List.flatten_cons, List.length_append, List.length_cons]
    omega

theorem segmentText_eq (name : Str) (index : Nat) (segment : Str) :
    (if index = 0 then
      name ++ "*".toList ++ natText index ++ "*=utf-8\x27\x27".toList ++ segment
    else name ++ "*".toList ++ natText index ++ "*=".toList ++ segment) =
      Rfc2231.segmentParameter name index segment := by
  unfold Rfc2231.segmentParameter Rfc2231.sectionName Rfc2231.segmentValue
  split
  · simp
  · simp

theorem renderMimeParameter_forms (name value : Str) :
    InQuotes name value (renderMimeParameter name value) ∨
      ∃ pieces, InSegments name value pieces (renderMimeParameter name value) := by
  unfold renderMimeParameter
  split
  · next hplain =>
    refine Or.inl ⟨by simp [Rfc2231.quotedParameter], hplain.2.1, fun c hc => ?_⟩
    have hascii : c.toNat < 128 := of_decide_eq_true (List.all_eq_true.1 hplain.1 c hc)
    have hbyte := List.all_eq_true.1 hplain.2.2 _ (Utf8.mem_encode_of_ascii hc hascii)
    constructor
    · rintro rfl
      exact absurd hbyte (by decide)
    · rintro rfl
      exact absurd hbyte (by decide)
  · obtain ⟨pieces, piece, hsegmented⟩ := foldl_segmented segmented_nil value
    rw [List.nil_append] at hsegmented
    refine Or.inr ⟨pieces ++ [piece], ?_, ?_, by simp, hsegmented.short, ?_⟩
    · rw [List.flatten_append, List.flatten_singleton, hsegmented.joined]
    · simp only [segmentText_eq]
      rw [hsegmented.finished, hsegmented.current, List.map_append, List.map_singleton]
    · have hcount := length_le_flatten hsegmented.nonempty
      have hlength := congrArg List.length hsegmented.joined
      rw [List.length_append] at hlength
      rw [List.length_append, List.length_singleton]
      omega

/-! ## Lines -/

variable {pieces parameters : List Str} {headerName headerValue : Str}

/-- The lines after the first: one parameter each, with a semicolon where another follows. -/
def parameterLines : List Str → List Str
  | [] => []
  | [parameter] => [' ' :: parameter]
  | parameter :: next :: rest => (' ' :: (parameter ++ [';'])) :: parameterLines (next :: rest)

theorem mem_parameterLines {line : Str} (h : line ∈ parameterLines parameters) :
    ∃ parameter ∈ parameters, line = ' ' :: parameter ∨ line = ' ' :: (parameter ++ [';']) := by
  fun_induction parameterLines parameters with
  | case1 => exact absurd h List.not_mem_nil
  | case2 parameter => exact ⟨parameter, List.mem_cons_self, Or.inl (List.mem_singleton.1 h)⟩
  | case3 parameter next rest ih =>
    rcases List.mem_cons.1 h with heq | h
    · exact ⟨parameter, List.mem_cons_self, Or.inr heq⟩
    · obtain ⟨later, hlater, heq⟩ := ih h
      exact ⟨later, List.mem_cons_of_mem _ hlater, heq⟩

theorem flatten_parameterLines (h : parameters ≠ []) :
    ';' :: (parameterLines parameters).flatten =
      parameters.flatMap fun parameter => ';' :: ' ' :: parameter := by
  fun_induction parameterLines parameters with
  | case1 => exact absurd rfl h
  | case2 parameter => simp
  | case3 parameter next rest ih =>
    rw [List.flatten_cons, List.flatMap_cons, ← ih (List.cons_ne_nil _ _)]
    simp

/-- The writer refuses no line whose parameter is short enough, and writes one line for each. -/
theorem writeParameters_ok {count index : Nat}
    (h : ∀ parameter ∈ parameters, Utf8.len parameter + 2 ≤ recommendedHeaderLineLength)
    (hcount : index + parameters.length = count) (out : Bytes) :
    writeParameters name count out index parameters =
      .ok (out ++ joinLines ((parameterLines parameters).map Utf8.encode)) := by
  induction parameters generalizing index out with
  | nil =>
    show Except.ok out = .ok (out ++ [])
    rw [List.append_nil]
  | cons parameter rest ih =>
    have hfits := h parameter List.mem_cons_self
    have hnext : index + 1 + rest.length = count := by
      rw [List.length_cons] at hcount
      omega
    have hrest := ih (fun p hp => h p (List.mem_cons_of_mem _ hp)) hnext
    unfold writeParameters
    cases rest with
    | nil =>
      -- the last parameter has no semicolon behind it
      have hlast : index + 1 = count := by simpa using hcount
      simp only [hlast, if_true]
      refine bind_eq_ok.2 ⟨(), Res.ensure_eq_ok.2 (decide_eq_true (by omega)), ?_⟩
      show Except.ok _ = .ok (out ++ joinLines [Utf8.encode (' ' :: parameter)])
      rw [joinLines_cons, joinLines_nil, Utf8.encode_cons_ascii (by decide), List.append_nil,
        List.append_nil]
      rfl
    | cons next rest =>
      have hmore : index + 1 ≠ count := by
        rw [List.length_cons, List.length_cons] at hcount
        omega
      simp only [hmore, if_false]
      refine bind_eq_ok.2 ⟨(), Res.ensure_eq_ok.2 (decide_eq_true (by omega)), ?_⟩
      rw [hrest]
      show _ = Except.ok (out ++ joinLines (Utf8.encode (' ' :: (parameter ++ [';'])) ::
        (parameterLines (next :: rest)).map Utf8.encode))
      rw [joinLines_cons, Utf8.encode_cons_ascii (by decide), Utf8.encode_append]
      show Except.ok (out ++ (0x20 :: Utf8.encode parameter ++ [0x3B] ++ crlf) ++ _) =
        Except.ok (out ++ (0x20 :: (Utf8.encode parameter ++ [0x3B]) ++ _))
      simp only [List.append_assoc, List.cons_append]

theorem len_segmentParameter_le {index : Nat} {text : Str} (hname : Utf8.len name ≤ 8)
    (hindex : index < 10 ^ 20) (htext : Utf8.len text ≤ mimeParameterSegmentLength) :
    Utf8.len (Rfc2231.segmentParameter name index text) + 2 ≤ recommendedHeaderLineLength := by
  have hdigits : Utf8.len (natText index) = (natText index).length := by
    have hascii : ∀ c ∈ natText index, c.toNat < 128 := by
      intro c hc
      have := toNat_of_isDigit (isDigit_of_mem_natText hc)
      omega
    exact len_of_ascii hascii
  have hcount := length_natText_le (k := 20) (by omega) hindex
  have hlimit : mimeParameterSegmentLength = 42 := rfl
  have hline : recommendedHeaderLineLength = 78 := rfl
  unfold Rfc2231.segmentParameter Rfc2231.sectionName Rfc2231.segmentValue
  by_cases hfirst : index = 0
  · subst hfirst
    have hzero : (natText 0).length ≤ 1 := length_natText_le (k := 1) (by omega) (by omega)
    have hcharset : Utf8.len "utf-8\x27\x27".toList = 7 := by decide
    rw [if_pos rfl]
    simp only [Utf8.len_append, Utf8.len_cons, Utf8.len_nil, hcharset, hdigits]
    have hstar : '*'.utf8Size = 1 := by decide
    have hequals : '='.utf8Size = 1 := by decide
    omega
  · rw [if_neg hfirst]
    simp only [Utf8.len_append, Utf8.len_cons, Utf8.len_nil, hdigits]
    have hstar : '*'.utf8Size = 1 := by decide
    have hequals : '='.utf8Size = 1 := by decide
    omega

theorem InQuotes.len_le (h : InQuotes name value parameters) (hname : Utf8.len name ≤ 8) :
    ∀ parameter ∈ parameters, Utf8.len parameter + 2 ≤ recommendedHeaderLineLength := by
  intro parameter hmem
  have hshort := h.short
  have hlimit : mimeParameterSegmentLength = 42 := rfl
  have hline : recommendedHeaderLineLength = 78 := rfl
  have hquote : '"'.utf8Size = 1 := by decide
  have hequals : '='.utf8Size = 1 := by decide
  rw [h.parameters] at hmem
  obtain rfl := List.mem_singleton.1 hmem
  unfold Rfc2231.quotedParameter
  simp only [Utf8.len_append, Utf8.len_cons, Utf8.len_nil]
  omega

theorem InSegments.len_le (h : InSegments name value pieces parameters)
    (hname : Utf8.len name ≤ 8) (hsize : value.length < 2 ^ 64) :
    ∀ parameter ∈ parameters, Utf8.len parameter + 2 ≤ recommendedHeaderLineLength := by
  intro parameter hmem
  rw [h.parameters] at hmem
  obtain ⟨index, hindex, rfl⟩ := List.mem_mapIdx.1 hmem
  rw [List.length_map] at hindex
  have hcount := h.count
  refine len_segmentParameter_le hname ?_ ?_
  · calc index ≤ value.length := by omega
      _ < 2 ^ 64 := hsize
      _ < 10 ^ 20 := by norm_num
  · rw [List.getElem_map]
    exact h.short _ (List.getElem_mem hindex)

/-! ## The header -/

/-- The first line of a header with parameters. -/
def firstLine (headerName headerValue : Str) : Str :=
  headerName ++ ": ".toList ++ headerValue ++ ";".toList

/-- A header whose parameter is read back as the value: its lines unfold to a text that a reader of
continued and encoded parameters decodes to it. The lines behind the first one are short, and the
parameter is in one of the two forms. -/
structure HeaderCarries (headerName headerValue name value : Str) (header : Bytes)
    (parameters : List Str) : Prop where
  reads : ∃ text, Folding.unfold header = Utf8.encode text ++ crlf ∧
    Rfc2231.decodeHeader name text = some value
  lines : wireLines header = Utf8.encode (firstLine headerName headerValue) ::
    (parameterLines parameters).map Utf8.encode
  short : ∀ line ∈ parameterLines parameters, Utf8.len line ≤ recommendedHeaderLineLength
  form : InQuotes name value parameters ∨ ∃ pieces, InSegments name value pieces parameters

/-- The name and the value of a header and the name of its parameter, as the program has them. -/
structure HeaderParts (headerName headerValue name : Str) : Prop where
  plain : ∀ c ∈ headerName ++ headerValue, c ≠ '"' ∧ c ≠ ';' ∧ c ≠ '\r'
  text : IsHeaderText headerValue
  limit : Utf8.len headerName + 2 + (Utf8.len headerValue + 1) ≤ maxWireLineLength
  parameter : Rfc2231.IsAttribute name
  short : Utf8.len name ≤ 8
  printed : '\r' ∉ name

theorem ne_of_isControl {c d : Char} (hc : isControl c = true) (hd : isControl d = false) : c ≠ d :=
  fun heq => Bool.false_ne_true (hd ▸ heq ▸ hc)

/-- A control character of a parameter is one of its name or of its value. -/
theorem InQuotes.not_mem {c : Char} (h : InQuotes name value parameters)
    (hc : isControl c = true) (hname : c ∉ name) (hvalue : c ∉ value) :
    ∀ parameter ∈ parameters, c ∉ parameter := by
  intro parameter hmem
  rw [h.parameters] at hmem
  obtain rfl := List.mem_singleton.1 hmem
  have hequals : c ≠ '=' := ne_of_isControl hc (by decide)
  have hquote : c ≠ '"' := ne_of_isControl hc (by decide)
  unfold Rfc2231.quotedParameter
  simp only [List.mem_append, List.mem_cons, List.not_mem_nil, or_false]
  exact not_or.2 ⟨hname, not_or.2 ⟨hequals, not_or.2 ⟨hquote, not_or.2 ⟨hvalue, hquote⟩⟩⟩⟩

theorem InSegments.not_mem {c : Char} (h : InSegments name value pieces parameters)
    (hc : isControl c = true) (hname : c ∉ name) :
    ∀ parameter ∈ parameters, c ∉ parameter := by
  intro parameter hmem
  rw [h.parameters] at hmem
  obtain ⟨index, hindex, rfl⟩ := List.mem_mapIdx.1 hmem
  have hplain : ∀ {d : Char}, isControl d = false → c ≠ d := fun hd => ne_of_isControl hc hd
  -- The attribute of a segment is the name, stars and a number.
  have hdigits : c ∉ natText index := by
    intro hmem
    obtain ⟨hlow, hhigh⟩ := toNat_of_isDigit (isDigit_of_mem_natText hmem)
    unfold isControl at hc
    simp only [Bool.or_eq_true, Bool.and_eq_true, decide_eq_true_eq] at hc
    omega
  have htext : ∀ piece, c ∉ percentEncodeMimeParameter piece :=
    fun piece hmem => ne_of_isControl hc (mem_percentEncode hmem).2.2.2 rfl
  unfold Rfc2231.segmentParameter Rfc2231.sectionName Rfc2231.segmentValue
  rw [List.getElem_map]
  have hstar : c ≠ '*' := hplain (by decide)
  have hequals : c ≠ '=' := hplain (by decide)
  split
  · have hcharset : c ∉ "utf-8\x27\x27".toList := by
      intro hmem
      have hall : ("utf-8\x27\x27".toList.all fun d => !isControl d) = true := by decide
      have hfalse := List.all_eq_true.1 hall c hmem
      rw [hc] at hfalse
      exact absurd hfalse (by decide)
    simp only [List.mem_append, List.mem_cons, List.not_mem_nil, or_false]
    exact not_or.2 ⟨not_or.2 ⟨not_or.2 ⟨hname, not_or.2 ⟨hstar, hdigits⟩⟩, hstar⟩,
      not_or.2 ⟨hequals, not_or.2 ⟨hcharset, htext _⟩⟩⟩
  · simp only [List.mem_append, List.mem_cons, List.not_mem_nil, or_false]
    exact not_or.2 ⟨not_or.2 ⟨not_or.2 ⟨hname, not_or.2 ⟨hstar, hdigits⟩⟩, hstar⟩,
      not_or.2 ⟨hequals, htext _⟩⟩

/-- What a reader finds in the text of the header. -/
theorem decodeHeader_forms {first : Str} (hfirst : Rfc2231.IsPart first)
    (hname : Rfc2231.IsAttribute name)
    (hform : InQuotes name value parameters ∨ ∃ pieces, InSegments name value pieces parameters) :
    Rfc2231.decodeHeader name (Rfc2231.headerText first parameters) = some value := by
  rcases hform with hquotes | ⟨pieces, hsegments⟩
  · rw [hquotes.parameters]
    exact Rfc2231.decodeHeader_quoted hfirst hname hquotes.plain
  · rw [hsegments.parameters, ← hsegments.joined]
    refine Rfc2231.decodeHeader_segments hfirst hname ?_ ?_ ?_
    · exact fun hnil => hsegments.nonempty (List.map_eq_nil_iff.1 hnil)
    · intro text htext c hc
      obtain ⟨piece, _, rfl⟩ := List.mem_map.1 htext
      obtain ⟨_, hquote, hsemicolon, _⟩ := mem_percentEncode hc
      exact ⟨hquote, hsemicolon⟩
    · rw [List.forall₂_map_left_iff]
      exact List.forall₂_same.2 fun piece _ => decode_percentEncode piece

/-- A header with a parameter is written, whatever the value, and carries it: unfolded it is read
back as the value, in lines of which only the first can be long. -/
theorem writeParameterizedHeader_carries (out : Bytes)
    (hparts : HeaderParts headerName headerValue name)
    (hvalue : IsHeaderText value) (hsize : value.length < 2 ^ 64) :
    ∃ header parameters, writeParameterizedHeader out headerName headerValue name value =
        .ok (out ++ header) ∧
      HeaderCarries headerName headerValue name value header parameters := by
  have hform := renderMimeParameter_forms name value
  set parameters := renderMimeParameter name value with hparameters
  have hcr := not_mem_of_isHeaderText hvalue
  -- Each parameter fits on a line, and none holds a CR, in either of its two forms.
  have hlen : ∀ parameter ∈ parameters, Utf8.len parameter + 2 ≤ recommendedHeaderLineLength := by
    rcases hform with h | ⟨pieces, h⟩
    · exact h.len_le hparts.short
    · exact h.len_le hparts.short hsize
  have hplain : ∀ parameter ∈ parameters, '\r' ∉ parameter := by
    rcases hform with h | ⟨pieces, h⟩
    · exact h.not_mem (by decide) hparts.printed hcr
    · exact h.not_mem (by decide) hparts.printed
  have hne : parameters ≠ [] := by
    rcases hform with h | ⟨pieces, h⟩
    · rw [h.parameters]
      exact List.cons_ne_nil _ _
    · rw [h.parameters]
      exact fun hnil => h.nonempty (List.map_eq_nil_iff.1 (List.mapIdx_eq_nil_iff.1 hnil))
  -- The first line ends with the semicolon that the parameters follow.
  have hliteral : writeLiteralHeader out headerName (headerValue ++ ";".toList) =
      .ok (out ++ joinLines [Utf8.encode (firstLine headerName headerValue)]) := by
    have htext : IsHeaderText (headerValue ++ ";".toList) :=
      hparts.text.append fun c hc => Or.inr (List.mem_singleton.1 hc ▸ by decide)
    have hlength : Utf8.len (headerValue ++ ";".toList) = Utf8.len headerValue + 1 := by
      rw [Utf8.len_append]
      rfl
    refine bind_eq_ok.2 ⟨(), validateHeaderText_eq_ok.2 htext, ?_⟩
    refine bind_eq_ok.2
      ⟨(), Res.ensure_eq_ok.2 (decide_eq_true (by rw [hlength]; exact hparts.limit)), ?_⟩
    unfold firstLine
    rw [joinLines_cons, joinLines_nil, List.append_nil]
    simp only [Utf8.encode_append, List.append_assoc]
  have hline : ∀ line ∈ parameterLines parameters,
      '\r' ∉ line ∧ Utf8.len line ≤ recommendedHeaderLineLength ∧ line.head? = some ' ' := by
    intro line hline
    obtain ⟨parameter, hmem, hcases⟩ := mem_parameterLines hline
    have hspace : ' '.utf8Size = 1 := by decide
    have hsemicolon : ';'.utf8Size = 1 := by decide
    have hbound := hlen parameter hmem
    have hno := hplain parameter hmem
    rcases hcases with rfl | rfl
    · refine ⟨by simpa using hno, ?_, rfl⟩
      rw [Utf8.len_cons]
      omega
    · refine ⟨by simpa using hno, ?_, rfl⟩
      rw [Utf8.len_cons, Utf8.len_append, Utf8.len_cons, Utf8.len_nil]
      omega
  have hfirst : '\r' ∉ firstLine headerName headerValue := by
    have hno : '\r' ∉ headerName ++ headerValue := fun hc => (hparts.plain '\r' hc).2.2 rfl
    unfold firstLine
    simp only [List.mem_append] at hno ⊢
    exact not_or.2 ⟨not_or.2 ⟨not_or.2 ⟨(not_or.1 hno).1, by decide⟩, (not_or.1 hno).2⟩, by decide⟩
  -- The further lines start with a space, so that unfolding joins them to the first one.
  have hlines : ∀ line ∈ (parameterLines parameters).map Utf8.encode,
      0x0D ∉ line ∧ (line.head? = some 0x20 ∨ line.head? = some 0x09) := by
    intro line hmem
    obtain ⟨text, htext, rfl⟩ := List.mem_map.1 hmem
    obtain ⟨hno, _, hhead⟩ := hline text htext
    refine ⟨not_mem_encode hno, Or.inl ?_⟩
    cases text with
    | nil => exact absurd hhead (by simp)
    | cons c text =>
      obtain rfl := Option.some.inj hhead
      rfl
  refine ⟨joinLines (Utf8.encode (firstLine headerName headerValue) ::
    (parameterLines parameters).map Utf8.encode), parameters, ?_, ?_, ?_,
    fun line hmem => (hline line hmem).2.1, hform⟩
  · unfold writeParameterizedHeader
    refine bind_eq_ok.2 ⟨_, hliteral, ?_⟩
    rw [← hparameters, writeParameters_ok hlen (Nat.zero_add _), List.append_assoc,
      ← joinLines_append, List.singleton_append]
  · refine ⟨Rfc2231.headerText (headerName ++ ": ".toList ++ headerValue) parameters, ?_, ?_⟩
    · rw [unfold_joinLines_cons (not_mem_encode hfirst) (fun line hmem => (hlines line hmem).1)
        (fun line hmem => (hlines line hmem).2), ← Rfc2231.encode_flatten, ← List.append_assoc,
        ← Utf8.encode_append]
      unfold firstLine Rfc2231.headerText
      rw [List.append_assoc (headerName ++ ": ".toList ++ headerValue),
        ← flatten_parameterLines hne]
      rfl
    · refine decodeHeader_forms ?_ hparts.parameter hform
      refine Rfc2231.isPart_of_plain fun c hc => ?_
      have hcases : c ∈ headerName ++ headerValue ∨ c ∈ ": ".toList := by
        simp only [List.mem_append] at hc ⊢
        tauto
      rcases hcases with hc | hc
      · exact ⟨(hparts.plain c hc).1, (hparts.plain c hc).2.1⟩
      · have htwo : c = ':' ∨ c = ' ' := by simpa using hc
        rcases htwo with rfl | rfl <;> decide
  · refine wireLines_joinLines (List.forall_mem_cons.2 ⟨not_mem_encode hfirst, ?_⟩)
    exact fun line hmem => (hlines line hmem).1

/-! ## Attachments -/

theorem isMimeToken_plain (h : isMimeToken value = true) :
    ∀ c ∈ value, c ≠ '"' ∧ c ≠ ';' ∧ isControl c = false := by
  unfold isMimeToken at h
  rw [Bool.and_eq_true, List.all_eq_true] at h
  intro c hc
  have hascii : c.toNat < 128 := by
    by_contra hge
    obtain ⟨rest, hrest⟩ := Utf8.encodeChar_eq_cons c
    have hlead : Utf8.leadByte c ∈ Utf8.encode value :=
      List.mem_flatMap.2 ⟨c, hc, by rw [hrest]; exact List.mem_cons_self⟩
    have hgraphic := (Bool.and_eq_true_iff.1 (h.2 _ hlead)).1
    have hhigh := Utf8.leadByte_not_ascii (Nat.le_of_not_lt hge)
    rw [isAsciiGraphic_of_ge hhigh] at hgraphic
    exact Bool.false_ne_true hgraphic
  have hbyte := h.2 _ (Utf8.mem_encode_of_ascii hc hascii)
  have hall : ∀ n < 128, (isAsciiGraphic (UInt8.ofNat n).toNat &&
      UInt8.ofNat n ∉ Utf8.encode "()<>@,;:\\\"/[]?=".toList) = true →
      n ≠ 0x22 ∧ n ≠ 0x3B ∧ 0x20 ≤ n ∧ n < 0x7F := by
    decide +kernel
  obtain ⟨hquote, hsemicolon, hlow, hhigh⟩ := hall _ hascii hbyte
  refine ⟨fun heq => hquote (heq ▸ rfl), fun heq => hsemicolon (heq ▸ rfl), ?_⟩
  unfold isControl
  simp only [Bool.or_eq_false_iff, Bool.and_eq_false_iff, decide_eq_false_iff_not]
  omega

theorem fallbackContentType_plain :
    ∀ c ∈ fallbackContentType, c ≠ '"' ∧ c ≠ ';' ∧ isControl c = false := by
  have hall : (fallbackContentType.all fun c => c ≠ '"' && c ≠ ';' && !isControl c) = true := by
    rfl
  intro c hc
  have hchar := List.all_eq_true.1 hall c hc
  simp only [Bool.and_eq_true, decide_eq_true_eq, Bool.not_eq_true'] at hchar
  exact ⟨hchar.1.1, hchar.1.2, hchar.2⟩

/-- The content type of an attachment does not disturb its parameters. -/
theorem attachmentContentType_plain (contentType : Str) :
    ∀ c ∈ attachmentContentType contentType, c ≠ '"' ∧ c ≠ ';' ∧ isControl c = false := by
  have hsafe : ∀ c ∈ safeAttachmentContentType contentType,
      c ≠ '"' ∧ c ≠ ';' ∧ isControl c = false := by
    unfold safeAttachmentContentType
    split
    · exact fallbackContentType_plain
    · next topLevel subtype hsplit =>
      split
      · exact fallbackContentType_plain
      · next htokens =>
        simp only [Bool.or_eq_true, not_or, Bool.not_eq_true, Bool.not_eq_false'] at htokens
        obtain ⟨⟨_, htop⟩, hsub⟩ := htokens
        obtain ⟨heq, _⟩ := splitOnce_eq_some hsplit
        intro c hc
        rw [heq] at hc
        rcases List.mem_append.1 hc with hc | hc
        · exact isMimeToken_plain htop c hc
        · rcases List.mem_cons.1 hc with rfl | hc
          · decide
          · exact isMimeToken_plain hsub c hc
  unfold attachmentContentType
  simp only
  split
  · exact fallbackContentType_plain
  · exact hsafe

theorem HeaderCarries.line_length {header : Bytes}
    (h : HeaderCarries headerName headerValue name value header parameters) :
    ∀ line ∈ wireLines header, line = Utf8.encode (firstLine headerName headerValue) ∨
      line.length ≤ recommendedHeaderLineLength := by
  intro line hline
  rw [h.lines] at hline
  rcases List.mem_cons.1 hline with heq | hline
  · exact Or.inl heq
  · obtain ⟨text, htext, rfl⟩ := List.mem_map.1 hline
    exact Or.inr (h.short text htext)

/-- **Both headers carry the file name.** The file name of an attachment is read back from its
`Content-Type` and from its `Content-Disposition`, the writer refuses none of their lines, and only
the line of the content type can have more than 78 characters. -/
theorem attachment_headers_carry_filename (out : Bytes) (filename contentType : Str)
    (hfilename : IsHeaderText filename) (hsize : Utf8.len filename < 2 ^ 64)
    (htype : IsHeaderText contentType)
    (hlength : Utf8.len (attachmentContentType contentType) ≤ 200) :
    ∃ typeHeader transferHeader dispositionHeader typeParameters dispositionParameters,
      writeAttachmentHeaders out filename contentType =
          .ok (out ++ typeHeader ++ transferHeader ++ dispositionHeader ++ crlf) ∧
        HeaderCarries "Content-Type".toList (attachmentContentType contentType) "name".toList
          filename typeHeader typeParameters ∧
        HeaderCarries "Content-Disposition".toList "attachment".toList "filename".toList
          filename dispositionHeader dispositionParameters ∧
        (∀ line ∈ wireLines typeHeader,
          line = Utf8.encode (firstLine "Content-Type".toList (attachmentContentType contentType)) ∨
            line.length ≤ recommendedHeaderLineLength) ∧
        ∀ line ∈ wireLines dispositionHeader, line.length ≤ recommendedHeaderLineLength := by
  have hchars : filename.length < 2 ^ 64 := lt_of_le_of_lt (Utf8.length_le_len filename) hsize
  have hplain := attachmentContentType_plain contentType
  have htypeParts : HeaderParts "Content-Type".toList (attachmentContentType contentType)
      "name".toList := by
    have hname : ∀ c ∈ "Content-Type".toList, c ≠ '"' ∧ c ≠ ';' ∧ c ≠ '\r' := by simp
    have hlen : Utf8.len "Content-Type".toList = 12 := by decide
    have hlimit : maxWireLineLength = 998 := rfl
    refine ⟨List.forall_mem_append.2 ⟨hname, fun c hc => ?_⟩, fun c hc => Or.inr (hplain c hc).2.2,
      by omega, ⟨by decide, ⟨'n', "ame".toList, by decide, by decide⟩, by simp⟩, by decide,
      by decide⟩
    obtain ⟨hquote, hsemicolon, hcontrol⟩ := hplain c hc
    refine ⟨hquote, hsemicolon, ?_⟩
    rintro rfl
    exact absurd hcontrol (by decide)
  -- The content type can be chosen by the user, the disposition cannot.
  have hdispositionParts : HeaderParts "Content-Disposition".toList "attachment".toList
      "filename".toList := by
    refine ⟨by simp, fun c hc => Or.inr ?_, by decide,
      ⟨by decide, ⟨'f', "ilename".toList, by decide, by decide⟩, by simp⟩, by decide, by decide⟩
    revert c
    simp [isControl]
  obtain ⟨typeHeader, typeParameters, hwriteType, htypeCarries⟩ :=
    writeParameterizedHeader_carries out htypeParts hfilename hchars
  have htransfer : ∃ transferHeader, writeLiteralHeader (out ++ typeHeader)
      "Content-Transfer-Encoding".toList
      (if eqIgnoreAsciiCase (attachmentContentType contentType) "message/rfc822".toList then
        "8bit".toList else "base64".toList) = .ok (out ++ typeHeader ++ transferHeader) := by
    split
    · exact ⟨_, rfl⟩
    · exact ⟨_, rfl⟩
  obtain ⟨transferHeader, hwriteTransfer⟩ := htransfer
  obtain ⟨dispositionHeader, dispositionParameters, hwriteDisposition, hdispositionCarries⟩ :=
    writeParameterizedHeader_carries (out ++ typeHeader ++ transferHeader) hdispositionParts
      hfilename hchars
  refine ⟨typeHeader, transferHeader, dispositionHeader, typeParameters, dispositionParameters,
    ?_, htypeCarries, hdispositionCarries, htypeCarries.line_length, fun line hline => ?_⟩
  · refine bind_eq_ok.2 ⟨(), validateHeaderText_eq_ok.2 hfilename, ?_⟩
    refine bind_eq_ok.2 ⟨(), validateHeaderText_eq_ok.2 htype, ?_⟩
    refine bind_eq_ok.2 ⟨(), Res.ensure_eq_ok.2 (decide_eq_true hlength), ?_⟩
    refine bind_eq_ok.2 ⟨_, hwriteType, ?_⟩
    refine bind_eq_ok.2 ⟨_, hwriteTransfer, ?_⟩
    exact bind_eq_ok.2 ⟨_, hwriteDisposition, rfl⟩
  · rcases hdispositionCarries.line_length line hline with rfl | hshort
    · decide
    · exact hshort

theorem attachment_headers_carry_notes :
    ∃ typeHeader transferHeader dispositionHeader typeParameters dispositionParameters,
      writeAttachmentHeaders [] "no;tes".toList "text/plain".toList =
          .ok ([] ++ typeHeader ++ transferHeader ++ dispositionHeader ++ crlf) ∧
        HeaderCarries "Content-Type".toList (attachmentContentType "text/plain".toList)
          "name".toList "no;tes".toList typeHeader typeParameters ∧
        HeaderCarries "Content-Disposition".toList "attachment".toList "filename".toList
          "no;tes".toList dispositionHeader dispositionParameters ∧
        (∀ line ∈ wireLines typeHeader,
          line = Utf8.encode (firstLine "Content-Type".toList
              (attachmentContentType "text/plain".toList)) ∨
            line.length ≤ recommendedHeaderLineLength) ∧
        ∀ line ∈ wireLines dispositionHeader, line.length ≤ recommendedHeaderLineLength :=
  attachment_headers_carry_filename [] "no;tes".toList "text/plain".toList
    (by simp [IsHeaderText, isControl]) (by decide) (by simp [IsHeaderText, isControl]) (by decide)

/-- The content type of a text document, which is longer than a line should be. -/
def longContentType : Str :=
  "application/vnd.openxmlformats-officedocument.wordprocessingml.document".toList

/-- The line of a long content type is not folded. -/
theorem long_content_type_line :
    ¬ ∀ (filename contentType : Str) (written : Bytes), IsHeaderText filename →
      writeAttachmentHeaders [] filename contentType = .ok written →
      ∀ line ∈ wireLines written, line.length ≤ recommendedHeaderLineLength := by
  intro h
  have hlong : ((writeAttachmentHeaders [] ['a'] longContentType).toOption.any fun written =>
      (wireLines written).any fun line => recommendedHeaderLineLength < line.length) = true := by
    decide +kernel
  obtain ⟨written, hwritten, hlines⟩ := (Option.any_eq_true _ _).1 hlong
  obtain ⟨line, hline, hlength⟩ := List.any_eq_true.1 hlines
  have hok : writeAttachmentHeaders [] ['a'] longContentType = .ok written := by
    cases hresult : writeAttachmentHeaders [] ['a'] longContentType with
    | error fault =>
      rw [hresult] at hwritten
      exact absurd hwritten (by simp [Except.toOption])
    | ok bytes =>
      rw [hresult] at hwritten
      exact congrArg Except.ok (Option.some.inj hwritten)
  have hshort := h ['a'] longContentType written (by simp [IsHeaderText, isControl]) hok line hline
  exact absurd hshort (Nat.not_le.2 (of_decide_eq_true hlength))

end Notm.Mail
