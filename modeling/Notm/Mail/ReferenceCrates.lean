import Notm.Lib.Base64
import Notm.Mail.Preflight

/-!
# A concrete instance of the other crates

Plain versions of the functions that `Crates` takes as parameters, which return what the real
ones return on simple messages: header lines with a name and a colon, parameters without
comments, unencoded text. They let the model run on a given message.
-/

namespace Notm.Mail.Reference

open Rust

/-- The text of header bytes: UTF-8, or Latin-1 where they are not UTF-8. -/
def textOf (bytes : Bytes) : Str :=
  (Utf8.decode bytes).getD (bytes.map fun b => Char.ofNat b.toNat)

/-- The length of a header line with its continuation lines. -/
def logicalLineLen : Nat → Bytes → Nat
  | 0, _ => 0
  | fuel + 1, raw =>
    let lineLen := min ((raw.takeWhile (· ≠ 0x0A)).length + 1) raw.length
    if (raw[lineLen]?).any fun b => isBlank b.toNat then
      lineLen + logicalLineLen fuel (raw.drop lineLen)
    else lineLen

/-- One header from its line. -/
def headerOf (line : Bytes) : Except Str MailHeader :=
  if 0x3A ∈ line then
    let value := (line.dropWhile (· ≠ 0x3A)).tail
    let rawValue := (value.dropWhile fun b => isBlank b.toNat).rdropWhile fun b =>
      b == 0x0D || b == 0x0A
    .ok ⟨textOf (line.takeWhile (· ≠ 0x3A)),
      textOf (rawValue.filter fun b => b != 0x0D && b != 0x0A), rawValue⟩
  else .error "header line without a colon".toList

/-- The headers of a message from `offset` on, up to the empty line. -/
def headersFrom : Nat → Bytes → Nat → Except Str (List MailHeader × Nat)
  | 0, _, offset => .ok ([], offset)
  | _, [], offset => .ok ([], offset)
  | fuel + 1, raw, offset =>
    if raw.take 1 = [0x0A] then .ok ([], offset + 1)
    else if raw.take 2 = [0x0D, 0x0A] then .ok ([], offset + 2)
    else
      let lineLen := logicalLineLen raw.length raw
      match headerOf (raw.take lineLen), headersFrom fuel (raw.drop lineLen) (offset + lineLen) with
      | .ok header, .ok (headers, bodyStart) => .ok (header :: headers, bodyStart)
      | .error e, _ => .error e
      | _, .error e => .error e

/-- `mailparse::parse_headers`. -/
def parseHeaders (bytes : Bytes) : Except Str (List MailHeader × Nat) :=
  headersFrom bytes.length bytes 0

/-- The first field of a header value, in lower case. -/
def firstField (value : Str) : Str := toAsciiLowercase (trim (value.takeWhile (· ≠ ';')))

/-- The parameters of a header value. -/
def paramsOf (value : Str) : List (Str × Str) :=
  (value.splitOn ';').tail.filterMap fun field =>
    (splitOnce field '=').map fun (name, value) =>
      (toAsciiLowercase (trim name), (trim value).filter (· ≠ '"'))

/-- `mailparse::parse_content_type`. -/
def parseContentType (value : Str) : ParsedContentType :=
  let params := paramsOf value
  ⟨firstField value, (param params "charset").getD "us-ascii".toList, params⟩

/-- `mailparse::parse_content_disposition`. -/
def parseContentDisposition (value : Str) : ParsedContentDisposition :=
  let name := firstField value
  ⟨if name = "attachment".toList then .attachment
    else if name = "inline".toList then .inline
    else if name = "form-data".toList then .formData
    else .extension name, paramsOf value⟩

/-- The bytes of a base64 body. -/
def base64Body (body : Bytes) : Except Str Bytes :=
  match Base64.decode (textOf (body.filter fun b => !isAsciiWhitespace b.toNat)) with
  | some bytes => .ok bytes
  | none => .error "invalid base64".toList

/-- What the accessors of a part return. -/
def partOf (crates : Crates) (inMultipartDigest : Bool) (headers : List MailHeader)
    (body : Bytes) : PartData :=
  let encoding := (getFirstValue headers "Content-Transfer-Encoding").map fun value =>
    toAsciiLowercase (trim value)
  let isBase64 := encoding = some "base64".toList
  { headers
    ctype :=
      match getFirstValue headers "Content-Type" with
      | some value => crates.parseContentType value
      | none =>
        crates.parseContentType
          (if inMultipartDigest then "message/rfc822".toList else "text/plain".toList)
    contentDisposition := ((getFirstValue headers "Content-Disposition").map
      crates.parseContentDisposition).getD .default
    bodyEncoded :=
      if isBase64 then .base64 body
      else if encoding = some "quoted-printable".toList then .quotedPrintable body
      else .sevenBit body
    bodyRaw := if isBase64 then base64Body body else .ok body
    body := if isBase64 then (base64Body body).map textOf else .ok (textOf body) }

/-- The values of a list of results, or the first error. -/
def allOk {α : Type} : List (Except Str α) → Except Str (List α)
  | [] => .ok []
  | .ok a :: rest => (allOk rest).map (a :: ·)
  | .error e :: _ => .error e

/-- `mailparse::parse_mail`: the parts are cut as the preflight of `notm-mail` cuts them. -/
def treeOf (crates : Crates) (fuel : Nat) (inMultipartDigest : Bool) (raw : Bytes) :
    Except Str ParsedMail :=
  match fuel with
  | 0 => .error "nested too deep".toList
  | fuel + 1 =>
    match crates.parseHeaders raw with
    | .error e => .error e
    | .ok (headers, bodyStart) =>
      let data := partOf crates inMultipartDigest headers (raw.drop bodyStart)
      let digest := data.ctype.mimetype = "multipart/digest".toList
      (allOk ((childSlices crates raw headers bodyStart).map (treeOf crates fuel digest))).map
        (.node data)

/-- The functions that do not rest on another. -/
def base : Crates where
  parseHeaders := parseHeaders
  parseContentType := parseContentType
  parseContentDisposition := parseContentDisposition
  parseMail _ := .error []
  addrparse value := .ok [.single ⟨none, trim value⟩]
  emailAddressIsValid address := '@' ∈ address
  quotedPrintableEncode bytes := bytes
  quotedPrintableDecode bytes := .ok bytes
  base64Encode := Base64.encode
  htmlToSafeText html := html
  toLowercase := toAsciiLowercase

/-- The functions together. -/
def crates : Crates :=
  { base with parseMail := fun bytes => treeOf base (bytes.length + 1) false bytes }

end Notm.Mail.Reference
