import Notm.Lib.Rust

/-!
# What the mail crate takes from other crates

`notm-mail` rests on `mailparse`, `email_address`, `quoted_printable`, `base64`, `ammonia` and
`html2text`, whose code is not part of the repository, and on one table-driven function of the
standard library. `Crates` holds these functions as parameters. A result that needs something
of them says so in a hypothesis of its own.
-/

namespace Notm.Mail

open Rust

/-! ## The data types of `mailparse` -/

/-- `mailparse::MailHeader`, through its three accessors: `get_key`, `get_value` (unfolded, with
encoded words decoded) and `get_value_raw`. -/
structure MailHeader where
  key : Str
  value : Str
  rawValue : Bytes
  deriving DecidableEq, Repr

/-- `mailparse::ParsedContentType`. -/
structure ParsedContentType where
  mimetype : Str
  charset : Str
  params : List (Str × Str)
  deriving DecidableEq, Repr

/-- `mailparse::DispositionType`. -/
inductive DispositionType where
  | inline
  | attachment
  | formData
  | extension (name : Str)
  deriving DecidableEq, Repr

/-- `mailparse::ParsedContentDisposition`. -/
structure ParsedContentDisposition where
  disposition : DispositionType
  params : List (Str × Str)
  deriving DecidableEq, Repr

/-- `ParsedContentDisposition::default`. -/
def ParsedContentDisposition.default : ParsedContentDisposition := ⟨.inline, []⟩

/-- `mailparse::body::Body`, each variant with its raw bytes. -/
inductive Body where
  | base64 (raw : Bytes)
  | quotedPrintable (raw : Bytes)
  | sevenBit (raw : Bytes)
  | eightBit (raw : Bytes)
  | binary (raw : Bytes)
  deriving DecidableEq, Repr

/-- What the accessors of a `mailparse::ParsedMail` return for one part, its children apart. -/
structure PartData where
  headers : List MailHeader
  ctype : ParsedContentType
  /-- `get_content_disposition`. -/
  contentDisposition : ParsedContentDisposition
  /-- `get_body_encoded`. -/
  bodyEncoded : Body
  /-- `get_body_raw`. -/
  bodyRaw : Except Str Bytes
  /-- `get_body`. -/
  body : Except Str Str

/-- `mailparse::ParsedMail`. -/
inductive ParsedMail where
  | node (data : PartData) (subparts : List ParsedMail)

/-- `mailparse::SingleInfo`. -/
structure SingleInfo where
  displayName : Option Str
  addr : Str
  deriving DecidableEq, Repr

/-- `mailparse::MailAddr`. -/
inductive MailAddr where
  | group (groupName : Str) (addrs : List SingleInfo)
  | single (info : SingleInfo)
  deriving DecidableEq, Repr

namespace ParsedMail

def data : ParsedMail → PartData
  | node data _ => data

def subparts : ParsedMail → List ParsedMail
  | node _ subparts => subparts

@[simp] theorem data_node (d : PartData) (ps : List ParsedMail) : (node d ps).data = d := rfl

@[simp] theorem subparts_node (d : PartData) (ps : List ParsedMail) :
    (node d ps).subparts = ps := rfl

end ParsedMail

/-- `MailHeaderMap::get_first_header`: header names compare without regard to ASCII case. -/
def getFirstHeader (headers : List MailHeader) (name : String) : Option MailHeader :=
  headers.find? fun h => eqIgnoreAsciiCase h.key name.toList

/-- `MailHeaderMap::get_first_value`. -/
def getFirstValue (headers : List MailHeader) (name : String) : Option Str :=
  (getFirstHeader headers name).map (·.value)

/-- `params.get(name)` on a parameter map. -/
def param (params : List (Str × Str)) (name : String) : Option Str := params.lookup name.toList

/-! ## The functions -/

/-- The functions of other crates, and of the Unicode tables, that `notm-mail` calls. -/
structure Crates where
  /-- `mailparse::parse_headers`: the headers and the offset at which the body starts. -/
  parseHeaders : Bytes → Except Str (List MailHeader × Nat)
  /-- `mailparse::parse_content_type`. -/
  parseContentType : Str → ParsedContentType
  /-- `mailparse::parse_content_disposition`. -/
  parseContentDisposition : Str → ParsedContentDisposition
  /-- `mailparse::parse_mail`. -/
  parseMail : Bytes → Except Str ParsedMail
  /-- `mailparse::addrparse`. -/
  addrparse : Str → Except Str (List MailAddr)
  /-- `email_address::EmailAddress::is_valid`. -/
  emailAddressIsValid : Str → Bool
  /-- `quoted_printable::encode`. -/
  quotedPrintableEncode : Bytes → Bytes
  /-- `quoted_printable::decode` with `ParseMode::Robust`. -/
  quotedPrintableDecode : Bytes → Except Str Bytes
  /-- `base64::engine::general_purpose::STANDARD.encode`. -/
  base64Encode : Bytes → Str
  /-- `html2text::from_read` on the output of `ammonia`, that is `html_to_safe_text`. -/
  htmlToSafeText : Str → Str
  /-- `str::to_lowercase`, which reads the Unicode case tables. -/
  toLowercase : Str → Str

end Notm.Mail
