import Notm.Mail.Crates
import Notm.Mail.Error

/-!
# Decoding a MIME part

The transfer encoding of a part, the size its content may decode to, and the decoders that
`mime.rs` puts in front of `mailparse`'s own.

* `transferEncoding` — which encoding a part names, and the error for one that is not supported.
* `quotedPrintableDecodedLen`, `base64DecodedLen` — how many bytes a body decodes to, told
  beforehand.
* `ensureDecodeMayFit` — the check against the limit of a part that stands in front of the decoder.
* `validateQuotedPrintable`, `decodePartBytes` — the decoders with their warnings and error texts.
-/

namespace Notm.Mail

open Rust

/-- `format!("0x{byte:02X}")`. -/
def hexByte (byte : UInt8) : Str :=
  let digit (n : Nat) : Char := if n < 10 then Char.ofNat (0x30 + n) else Char.ofNat (0x37 + n)
  ['0', 'x', digit (byte.toNat / 16), digit (byte.toNat % 16)]

/-! ## Headers and names of a part -/

/-- `TransferEncoding`. -/
inductive TransferEncoding where
  | identity
  | base64
  | quotedPrintable
  deriving DecidableEq, Repr

/-- `transfer_encoding`. -/
def transferEncoding (part : PartData) : Except Error TransferEncoding :=
  match getFirstValue part.headers "Content-Transfer-Encoding" with
  | none => .ok .identity
  | some raw =>
    let encoding := toAsciiLowercase (trim raw)
    if encoding ∈ ["7bit".toList, "8bit".toList, "binary".toList] then .ok .identity
    else if encoding = "base64".toList then .ok .base64
    else if encoding = "quoted-printable".toList then .ok .quotedPrintable
    else .error (.msg (lit "unsupported Content-Transfer-Encoding " ++ [.debug raw]))

/-- `encoded_body_bytes`. -/
def encodedBodyBytes (part : PartData) : Bytes :=
  match part.bodyEncoded with
  | .base64 raw | .quotedPrintable raw => raw
  | .sevenBit raw | .eightBit raw => raw
  | .binary raw => raw

/-- `part_description`. -/
def partDescription (mimetype : Str) (filename : Option Str) (isAttachment : Bool) : Text :=
  match filename with
  | some filename =>
    lit "attachment " ++ [.debug filename] ++ lit " (" ++ [.lit mimetype] ++ lit ")"
  | none =>
    if isAttachment then lit "attachment (" ++ [.lit mimetype] ++ lit ")"
    else [.lit mimetype] ++ lit " MIME part"

/-! ## Decoded lengths -/

/-- A byte that quoted-printable text may hold within a line. -/
def isQuotedPrintableByte (byte : UInt8) : Bool :=
  byte == 0x09 || byte == 0x0D || (0x20 ≤ byte && byte ≤ 0x7E)

/-- The inner loop of `quoted_printable_decoded_len`, over one line up to `contentEnd`. -/
def quotedPrintableLineLen (rawLine : Bytes) (contentEnd index decodedLen : Nat) : Option Nat :=
  if index < contentEnd then
    match rawLine[index]? with
    | none => none
    | some byte =>
      if !isQuotedPrintableByte byte then none
      else if byte = 0x3D then
        match rawLine[index + 1]?, rawLine[index + 2]? with
        | some upper, some lower =>
          if !isAsciiHexdigit upper.toNat || !isAsciiHexdigit lower.toNat then none
          else quotedPrintableLineLen rawLine contentEnd (index + 3) (decodedLen + 1)
        | _, _ => none
      else quotedPrintableLineLen rawLine contentEnd (index + 1) (decodedLen + 1)
  else some decodedLen
termination_by contentEnd - index

/-- A line of quoted-printable text without the white space that ends it. -/
def trimLineEnd (line : Bytes) : Bytes :=
  line.rdropWhile fun b => isBlank b.toNat || b == 0x0D

/-- The outer loop of `quoted_printable_decoded_len`, from the line that starts `rest` on. -/
def quotedPrintableDecodedLenFrom (rest : Bytes) (previousLineWasHard : Bool)
    (decodedLen : Nat) : Option Nat :=
  let line := trimLineEnd (rest.takeWhile (· ≠ 0x0A))
  let decodedLen := if previousLineWasHard then decodedLen + 2 else decodedLen
  let softBreak := line.getLast? == some 0x3D
  let contentEnd := line.length - softBreak.toNat
  match quotedPrintableLineLen line contentEnd 0 decodedLen with
  | none => none
  | some decodedLen =>
    match h : rest.dropWhile (· ≠ 0x0A) with
    | [] => some decodedLen
    | _ :: next =>
      if next = [] then some (if softBreak then decodedLen else decodedLen + 2)
      else quotedPrintableDecodedLenFrom next (!softBreak) decodedLen
termination_by rest.length
decreasing_by
  have hlen := (List.dropWhile_suffix (l := rest) (· ≠ 0x0A)).length_le
  rw [h, List.length_cons] at hlen
  omega

/-- `quoted_printable_decoded_len`. -/
def quotedPrintableDecodedLen (raw : Bytes) : Option Nat :=
  quotedPrintableDecodedLenFrom raw false 0

/-- The state of the loop of `base64_decoded_len`. -/
structure Base64Scan where
  encodedLen : Nat
  padding : Nat
  sawPadding : Bool
  deriving DecidableEq, Repr

/-- `b'A'..=b'Z' | b'a'..=b'z' | b'0'..=b'9' | b'+' | b'/'`. -/
def isBase64Byte (byte : UInt8) : Bool :=
  isAsciiAlphanumeric byte.toNat || byte == 0x2B || byte == 0x2F

/-- One turn of the loop of `base64_decoded_len`. -/
def base64ScanByte (scan : Base64Scan) (byte : UInt8) : Option Base64Scan :=
  let scan := { scan with encodedLen := scan.encodedLen + 1 }
  if isBase64Byte byte && !scan.sawPadding then some scan
  else if byte = 0x3D then some { scan with sawPadding := true, padding := scan.padding + 1 }
  else none

/-- `base64_decoded_len`. -/
def base64DecodedLen (raw : Bytes) : Option Nat :=
  match (raw.filter fun b => !isAsciiWhitespace b.toNat).foldlM base64ScanByte ⟨0, 0, false⟩ with
  | none => none
  | some scan =>
    if scan.encodedLen % 4 ≠ 0 ∨ scan.padding > 2 then none
    else
      let dataLen := scan.encodedLen - scan.padding
      if (scan.padding = 1 ∧ dataLen % 4 ≠ 3) ∨ (scan.padding = 2 ∧ dataLen % 4 ≠ 2) then none
      else some (scan.encodedLen / 4 * 3 - scan.padding)

/-- `upper_bound` of `ensure_decode_may_fit`. -/
def decodedUpperBound (encoding : TransferEncoding) (raw : Bytes) : Nat :=
  match encoding with
  | .identity => raw.length
  | .quotedPrintable => (quotedPrintableDecodedLen raw).getD raw.length
  | .base64 =>
    (base64DecodedLen raw).getD
      (((raw.filter fun b => !isAsciiWhitespace b.toNat).length + 3) / 4 * 3)

/-- `ensure_decode_may_fit`. -/
def ensureDecodeMayFit (part : PartData) (description : Text) (limit : Nat) :
    Except Error Unit :=
  match transferEncoding part with
  -- An unknown encoding is left to the decoder, which reports it as an error of the part.
  | .error _ => .ok ()
  | .ok encoding =>
    if decodedUpperBound encoding (encodedBodyBytes part) > limit then
      .error (.mimeLimit (.decodedPart description limit))
    else .ok ()

/-! ## Decoders -/

/-- The first byte that quoted-printable text may not hold, with its offset. -/
def invalidQuotedPrintableByte (raw : Bytes) : Option (UInt8 × Nat) :=
  raw.zipIdx.find? fun (byte, _) => !(isQuotedPrintableByte byte || byte == 0x0A)

/-- `non_crlf_line_endings` of `validate_quoted_printable`. -/
def nonCrlfLineEndings (raw : Bytes) : Bool :=
  raw.zipIdx.any fun (byte, index) =>
    (byte == 0x0A && (index == 0 || raw[index - 1]? != some 0x0D)) ||
      (byte == 0x0D && raw[index + 1]? != some 0x0A)

/-- `overlong_line` of `validate_quoted_printable`: a line of more than 76 bytes, with
`lineLength` bytes of the current line behind. -/
def overlongLine (lineLength : Nat) : Bytes → Bool
  | [] => 76 < lineLength
  | byte :: rest =>
    if byte = 0x0D ∨ byte = 0x0A then decide (76 < lineLength) || overlongLine 0 rest
    else overlongLine (lineLength + 1) rest

/-- A lower-case hexadecimal digit. -/
def isLowercaseHex (byte : UInt8) : Bool := 0x61 ≤ byte && byte ≤ 0x66

-- The search result is used in `decreasing_by` only, which the linter does not see.
set_option linter.unusedVariables false in
/-- The last loop of `validate_quoted_printable`: whether an escape has lower-case digits, or
the error at the first malformed escape. -/
def lowercaseHex (raw : Bytes) (index : Nat) (found : Bool) : Except Error Bool :=
  match h : raw[index]? with
  | none => .ok found
  | some byte =>
    if byte ≠ 0x3D then lowercaseHex raw (index + 1) found
    else
      match raw[index + 1]?, raw[index + 2]? with
      | some upper, some lower =>
        if upper = 0x0D ∧ lower = 0x0A then lowercaseHex raw (index + 3) found
        else if upper = 0x0A then lowercaseHex raw (index + 2) found
        else if isAsciiHexdigit upper.toNat && isAsciiHexdigit lower.toNat then
          lowercaseHex raw (index + 3) (found || isLowercaseHex upper || isLowercaseHex lower)
        else
          .error (.msg (lit "malformed quoted-printable transfer encoding: " ++
            lit "invalid escape at offset " ++ [.lit (natText index)]))
      | some upper, none =>
        if upper = 0x0A then lowercaseHex raw (index + 2) found
        else
          .error (.msg (lit "malformed quoted-printable transfer encoding: " ++
            lit "incomplete escape at offset " ++ [.lit (natText index)]))
      | none, _ =>
        .error (.msg (lit "malformed quoted-printable transfer encoding: " ++
          lit "incomplete escape at offset " ++ [.lit (natText index)]))
termination_by raw.length - index
decreasing_by all_goals have hlt := (List.getElem?_eq_some_iff.mp h).1; omega

/-- `validate_quoted_printable`: the warnings on text that can be decoded. -/
def validateQuotedPrintable (raw : Bytes) : Except Error (List Text) :=
  match invalidQuotedPrintableByte raw with
  | some (byte, offset) =>
    .error (.msg (lit "malformed quoted-printable transfer encoding: invalid byte " ++
      [.lit (hexByte byte)] ++ lit " at offset " ++ [.lit (natText offset)]))
  | none => do
    let lowercase ← lowercaseHex raw 0 false
    return (if lowercase then [lit "quoted-printable hex escape uses lowercase digits"] else []) ++
      (if nonCrlfLineEndings raw then
        [lit "quoted-printable body uses non-CRLF line endings"] else []) ++
      (if overlongLine 0 raw then [lit "quoted-printable line exceeds 76 bytes"] else [])

/-- The raw bytes of a body that `mailparse` recognized as quoted-printable. -/
def quotedPrintableBody (part : PartData) : Except Error Bytes :=
  match part.bodyEncoded with
  | .quotedPrintable raw => .ok raw
  | _ => .error (.msg (lit "quoted-printable body was not recognized by the MIME parser"))

/-- `validate_text_transfer_encoding`. -/
def validateTextTransferEncoding (part : PartData) : Except Error (List Text) := do
  match ← transferEncoding part with
  | .quotedPrintable => validateQuotedPrintable (← quotedPrintableBody part)
  | .identity | .base64 => return []

/-- `DecodedPart`. -/
structure DecodedPart where
  bytes : Bytes
  warnings : List Text
  deriving DecidableEq, Repr

/-- `decode_part_bytes`. -/
def decodePartBytes (crates : Crates) (part : PartData) : Except Error DecodedPart := do
  match ← transferEncoding part with
  | .quotedPrintable =>
    let body ← quotedPrintableBody part
    let warnings ← validateQuotedPrintable body
    match crates.quotedPrintableDecode body with
    | .ok bytes => return ⟨bytes, warnings⟩
    | .error e =>
      .error (.context (lit "decoding quoted-printable transfer encoding") (.crate e))
  | .identity | .base64 =>
    match part.bodyRaw with
    | .ok bytes => return ⟨bytes, []⟩
    | .error e => .error (.crate e)

end Notm.Mail
