import Notm.Mail.Decode
import Notm.Mail.Preflight

/-!
# The MIME walks of `notm-mail`

`walk_part` reads a parsed MIME tree for a message: its text, its HTML with the scopes in which
`cid:` references are looked up, and the metadata of its attachments. `collect_attachment_data`
walks the same tree a second time for the bytes of the attachments. Both carry their `&mut`
arguments as a state that the recursion passes on.

* `walkPart` — the metadata walk, with `MimeLimits` charged as it goes.
* `collectAttachmentData` — the data walk, over all attachments or over selected ones.
* `BodySelection` — what a subtree offers as text and HTML, and how the multipart types combine it.
* `HtmlCidPartScope` — a range of the HTML with the parts that its references mean.
-/

namespace Notm.Mail

open Rust

/-! ## Classification of a part -/

/-- `CryptoPartKind`. -/
inductive CryptoPartKind where
  | encryptedContainer
  | signedContainer
  | openPgpEncrypted
  | openPgpSignature
  | openPgpKey
  | smimeEncrypted
  | smimeSigned
  | smimeSignature
  | smimeOther
  deriving DecidableEq, Repr

/-- `CryptoPart`. -/
structure CryptoPart where
  path : List Nat
  kind : CryptoPartKind
  contentType : Str
  protocol : Option Str
  smimeType : Option Str
  deriving DecidableEq, Repr

/-- `CalendarPart`. -/
structure CalendarPart where
  path : List Nat
  contentType : Str
  method : Option Str
  filename : Option Str
  deriving DecidableEq, Repr

/-- `MimeClassification`. -/
structure MimeClassification where
  calendarParts : List CalendarPart
  cryptoParts : List CryptoPart
  deriving DecidableEq, Repr

/-- `part_filename`. -/
def partFilename (part : PartData) : Option Str :=
  (param part.contentDisposition.params "filename").or (param part.ctype.params "name")

/-- `part_is_explicit_attachment`. -/
def partIsExplicitAttachment (part : PartData) (filename : Option Str)
    (namedBodyAllowed : Bool) : Bool :=
  part.contentDisposition.disposition == .attachment || (filename.isSome && !namedBodyAllowed)

/-- `part_is_attachment_like`. -/
def partIsAttachmentLike (mimetype : Str) (explicitlyAttached cryptoRelated : Bool) : Bool :=
  explicitlyAttached || decide (mimetype = "text/calendar".toList) ||
    (!cryptoRelated && !"text/".toList.isPrefixOf mimetype)

/-- `calendar_method`. -/
def calendarMethod (part : PartData) : Option Str :=
  ((param part.ctype.params "method").map fun method => toAsciiUppercase (trim method)).filter
    fun method => decide (method ≠ [])

/-- The methods with which a calendar part is an invitation. -/
def invitationMethods : List Str := ["PUBLISH".toList, "REQUEST".toList, "ADD".toList]

/-- `fallback_attachment_filename`. -/
def fallbackAttachmentFilename (part : PartData) : Str :=
  let mimetype := toAsciiLowercase part.ctype.mimetype
  if mimetype = "text/calendar".toList then
    if (calendarMethod part).any fun method => invitationMethods.contains method then
      "invitation.ics".toList
    else "calendar.ics".toList
  else if mimetype = "message/rfc822".toList then "attached-message.eml".toList
  else "attachment.bin".toList

/-- The kind of an S/MIME part, by its `smime-type`. -/
def smimeKind (part : PartData) : CryptoPartKind :=
  let smimeType := (param part.ctype.params "smime-type").map fun value =>
    toAsciiLowercase (trim value)
  if smimeType = some "enveloped-data".toList ∨ smimeType = some "authenveloped-data".toList then
    .smimeEncrypted
  else if smimeType = some "signed-data".toList then .smimeSigned
  else .smimeOther

/-- `crypto_part_kind`. -/
def cryptoPartKind (part : PartData) : Option CryptoPartKind :=
  let mimetype := toAsciiLowercase part.ctype.mimetype
  if mimetype = "multipart/encrypted".toList then some .encryptedContainer
  else if mimetype = "multipart/signed".toList then some .signedContainer
  else if mimetype = "application/pgp-encrypted".toList then some .openPgpEncrypted
  else if mimetype = "application/pgp-signature".toList then some .openPgpSignature
  else if mimetype = "application/pgp-keys".toList then some .openPgpKey
  else if mimetype = "application/pkcs7-signature".toList ∨
      mimetype = "application/x-pkcs7-signature".toList then some .smimeSignature
  else if mimetype = "application/pkcs7-mime".toList ∨
      mimetype = "application/x-pkcs7-mime".toList then some (smimeKind part)
  else none

/-- `classify_part`. -/
def classifyPart (crates : Crates) (part : PartData) (path : List Nat) (filename : Option Str)
    (classification : MimeClassification) : MimeClassification :=
  let contentType := crates.toLowercase part.ctype.mimetype
  { calendarParts := classification.calendarParts ++
      if contentType = "text/calendar".toList then
        [⟨path, contentType, calendarMethod part, filename⟩]
      else []
    cryptoParts := classification.cryptoParts ++
      match cryptoPartKind part with
      | some kind =>
        [⟨path, kind, contentType, param part.ctype.params "protocol",
          param part.ctype.params "smime-type"⟩]
      | none => [] }

/-! ## The place of a child -/

/-- `normalize_content_id`. -/
def normalizeContentId (value : Str) : Str :=
  ((trim value).dropWhile (· = '<')).rdropWhile (· = '>')

/-- `related_root_index`. -/
def relatedRootIndex (part : PartData) (subparts : List ParsedMail) : Nat :=
  ((param part.ctype.params "start").bind fun start =>
    subparts.findIdx? fun subpart =>
      (getFirstValue subpart.data.headers "Content-ID").any fun contentId =>
        normalizeContentId contentId = normalizeContentId start).getD 0

/-- `named_body_allowed_for_child`. -/
def namedBodyAllowedForChild (part : PartData) (subparts : List ParsedMail) (mimetype : Str)
    (namedBodyAllowed : Bool) (childIndex : Nat) : Bool :=
  if mimetype = "multipart/alternative".toList then true
  else if !namedBodyAllowed || decide (mimetype = "multipart/encrypted".toList) then false
  else
    let rootIndex :=
      if mimetype = "multipart/related".toList then relatedRootIndex part subparts else 0
    childIndex == rootIndex

/-! ## Body selection -/

/-- `HtmlCidPartScope`: a byte range of the HTML body. -/
structure HtmlCidPartScope where
  start : Nat
  stop : Nat
  partIndexes : Option (List Nat)
  deriving DecidableEq, Repr

/-- `BodySelection`. -/
structure BodySelection where
  text : Option Str
  html : Option Str
  htmlCidPartScopes : List HtmlCidPartScope
  textFallback : Option Str
  deriving DecidableEq, Repr

/-- `BodySelection::default`. -/
def BodySelection.default : BodySelection := ⟨none, none, [], none⟩

/-- A body that is worth appending: `source.filter(|body| !body.trim().is_empty())`. -/
def nonBlank (body : Option Str) : Option Str := body.filter fun body => decide (trim body ≠ [])

/-- `append_body`. -/
def appendBody (destination source : Option Str) : Option Str :=
  match nonBlank source with
  | none => destination
  | some source =>
    match nonBlank destination with
    | some destination => some (destination ++ "\n\n".toList ++ source)
    | none => some source

/-- The scope of a whole fragment without provenance. -/
def wholeScope (length : Nat) : HtmlCidPartScope := ⟨0, length, none⟩

/-- The scope `offset` bytes further on. -/
def HtmlCidPartScope.shift (offset : Nat) (scope : HtmlCidPartScope) : HtmlCidPartScope :=
  { scope with start := scope.start + offset, stop := scope.stop + offset }

/-- The destination's scopes once its text has grown to `length` by the separator: the last one
covers it. -/
def coverSeparator (scopes : List HtmlCidPartScope) (length : Nat) : List HtmlCidPartScope :=
  match scopes.getLast? with
  | some last => scopes.dropLast ++ [{ last with stop := length }]
  | none => [wholeScope length]

/-- `append_html_body`. -/
def appendHtmlBody (destination : Option Str) (destinationScopes : List HtmlCidPartScope)
    (source : Option Str) (sourceScopes : List HtmlCidPartScope) :
    Option Str × List HtmlCidPartScope :=
  match nonBlank source with
  | none => (destination, destinationScopes)
  | some source =>
    let sourceScopes :=
      if sourceScopes = [] then [wholeScope (Utf8.len source)] else sourceScopes
    match nonBlank destination with
    | some destination =>
      let joined := destination ++ "\n\n".toList
      (some (joined ++ source),
        coverSeparator destinationScopes (Utf8.len joined) ++
          sourceScopes.map (·.shift (Utf8.len joined)))
    | none => (some source, sourceScopes)

/-- `BodySelection::append`. -/
def BodySelection.append (selected other : BodySelection) : BodySelection :=
  let html := appendHtmlBody selected.html selected.htmlCidPartScopes other.html
    other.htmlCidPartScopes
  { selected with
    text := appendBody selected.text (other.text.or other.textFallback)
    html := html.1
    htmlCidPartScopes := html.2 }

/-- `BodySelection::replace_supported`. -/
def BodySelection.replaceSupported (selected other : BodySelection) : BodySelection where
  text := other.text.or selected.text
  html := other.html.or selected.html
  htmlCidPartScopes :=
    if other.html.isSome then other.htmlCidPartScopes else selected.htmlCidPartScopes
  textFallback := other.textFallback.or selected.textFallback

/-- The attachment indexes of one child: those that its walk has given out. -/
structure AttachmentRange where
  start : Nat
  stop : Nat
  deriving DecidableEq, Repr

/-- The members of a range, in order. -/
def AttachmentRange.indexes (range : AttachmentRange) : List Nat :=
  List.range' range.start (range.stop - range.start)

/-- `if seen.insert(part_index) { indexes.push(part_index) }`. -/
def pushUnseen (indexes : List Nat) (partIndex : Nat) : List Nat :=
  if partIndex ∈ indexes then indexes else indexes ++ [partIndex]

/-- The attachment indexes below every child but the root, in MIME order. -/
def nonRootIndexes (rootIndex : Nat) (attachmentRanges : List AttachmentRange) : List Nat :=
  attachmentRanges.zipIdx.flatMap fun (range, index) =>
    if index = rootIndex then [] else range.indexes

/-- What `multipart/related` adds to a scope of its root. -/
def HtmlCidPartScope.relate (related : List Nat) (scope : HtmlCidPartScope) : HtmlCidPartScope :=
  { scope with partIndexes := some (related.foldl pushUnseen (scope.partIndexes.getD [])) }

/-- The `multipart/related` arm of `select_multipart_body`. -/
def selectRelatedBody (rootIndex : Nat) (selections : List BodySelection)
    (attachmentRanges : List AttachmentRange) : BodySelection :=
  let selected := selections[rootIndex]?.getD .default
  match selected.html with
  | none => selected
  | some html =>
    let scopes :=
      if selected.htmlCidPartScopes = [] then [wholeScope (Utf8.len html)]
      else selected.htmlCidPartScopes
    { selected with
      htmlCidPartScopes := scopes.map (·.relate (nonRootIndexes rootIndex attachmentRanges)) }

/-- `select_multipart_body`. -/
def selectMultipartBody (part : PartData) (subparts : List ParsedMail) (mimetype : Str)
    (selections : List BodySelection) (attachmentRanges : List AttachmentRange) :
    BodySelection :=
  if mimetype = "multipart/alternative".toList then
    selections.foldl BodySelection.replaceSupported .default
  else if mimetype = "multipart/related".toList then
    selectRelatedBody (relatedRootIndex part subparts) selections attachmentRanges
  else if mimetype = "multipart/signed".toList then selections.head?.getD .default
  else if mimetype = "multipart/encrypted".toList then .default
  else selections.foldl BodySelection.append .default

/-! ## The metadata walk -/

/-- `Attachment`. -/
structure Attachment where
  partIndex : Nat
  filename : Option Str
  contentType : Str
  size : Nat
  contentId : Option Str
  decodeWarnings : List Text
  decodeError : Option Text
  deriving DecidableEq, Repr

/-- `ParseState`. -/
structure ParseState where
  limits : MimeLimits
  totalDecodedBytes : Nat
  nextAttachmentIndex : Nat
  attachments : List Attachment
  tree : List Str
  decodeWarnings : List Text
  classification : MimeClassification
  deriving DecidableEq, Repr

/-- `ParseState::new`. -/
def ParseState.new (limits : MimeLimits) : ParseState :=
  ⟨limits, 0, 0, [], [], [], ⟨[], []⟩⟩

/-- What `reserve_decoded` and its copy in `collect_attachment_data` do: the new total of
decoded bytes, unless a limit is passed. -/
def reserveTotal (limits : MimeLimits) (part : Text) (total bytes : Nat) : Except Error Nat :=
  if bytes > limits.maxDecodedPartBytes then
    .error (.mimeLimit (.decodedPart part limits.maxDecodedPartBytes))
  else if total + bytes > limits.maxTotalDecodedBytes then
    .error (.mimeLimit (.totalDecoded limits.maxTotalDecodedBytes))
  else .ok (total + bytes)

/-- `ParseState::reserve_decoded`. -/
def ParseState.reserveDecoded (state : ParseState) (part : Text) (bytes : Nat) :
    Except Error ParseState :=
  (reserveTotal state.limits part state.totalDecodedBytes bytes).map fun total =>
    { state with totalDecodedBytes := total }

/-- `format!("Decoded non-conformant {description}: {warning}")`, for every warning. -/
def nonConformant (description : Text) (warnings : List Text) : List Text :=
  warnings.map fun warning =>
    lit "Decoded non-conformant " ++ description ++ lit ": " ++ warning

/-- The attachment arm of `walk_part`. -/
def walkAttachment (crates : Crates) (part : PartData) (mimetype : Str) (filename : Option Str)
    (state : ParseState) : Except Error ParseState := do
  let filename := filename.or (some (fallbackAttachmentFilename part))
  let description := partDescription mimetype filename true
  ensureDecodeMayFit part description state.limits.maxDecodedPartBytes
  let partIndex := state.nextAttachmentIndex
  let contentId := getFirstValue part.headers "Content-ID"
  let state := { state with nextAttachmentIndex := state.nextAttachmentIndex + 1 }
  match decodePartBytes crates part with
  | .ok decoded =>
    let state ← state.reserveDecoded description decoded.bytes.length
    return { state with
      decodeWarnings := state.decodeWarnings ++ nonConformant description decoded.warnings
      attachments := state.attachments ++ [⟨partIndex, filename, mimetype, decoded.bytes.length,
        contentId, decoded.warnings, none⟩] }
  | .error err =>
    return { state with
      decodeWarnings := state.decodeWarnings ++
        [lit "Could not decode " ++ description ++ lit ": " ++ err.displayChain]
      attachments := state.attachments ++ [⟨partIndex, filename, mimetype, 0, contentId, [],
        some err.displayChain⟩] }

/-- The selection of a decoded text part. -/
def bodySelectionOf (mimetype body : Str) : BodySelection :=
  if mimetype = "text/plain".toList then ⟨some body, none, [], none⟩
  else if mimetype = "text/html".toList then
    ⟨none, some body, [wholeScope (Utf8.len body)], none⟩
  else if "text/".toList.isPrefixOf mimetype then ⟨none, none, [], some body⟩
  else .default

/-- The text arm of `walk_part`. -/
def walkBody (part : PartData) (mimetype : Str) (filename : Option Str) (state : ParseState) :
    Except Error (BodySelection × ParseState) :=
  let description := partDescription mimetype filename false
  let couldNotDecode (err : Text) : BodySelection × ParseState :=
    (.default, { state with
      decodeWarnings := state.decodeWarnings ++
        [lit "Could not decode " ++ description ++ lit ": " ++ err] })
  match validateTextTransferEncoding part with
  | .error err => .ok (couldNotDecode err.displayChain)
  | .ok warnings => do
    ensureDecodeMayFit part description state.limits.maxDecodedPartBytes
    let warned := nonConformant description warnings
    match part.body with
    | .ok body =>
      let state ← state.reserveDecoded description (Utf8.len body)
      return (bodySelectionOf mimetype body,
        { state with decodeWarnings := state.decodeWarnings ++ warned })
    | .error err =>
      return (.default, { state with
        decodeWarnings := state.decodeWarnings ++ warned ++
          [lit "Could not decode " ++ description ++ lit ": " ++ [.lit err]] })

/-- What `walk_part` does at a part without subparts. -/
def walkLeaf (crates : Crates) (part : PartData) (mimetype : Str) (filename : Option Str)
    (explicitlyAttached : Bool) (state : ParseState) :
    Except Error (BodySelection × ParseState) :=
  let cryptoKind := cryptoPartKind part
  if partIsAttachmentLike mimetype explicitlyAttached cryptoKind.isSome then
    (walkAttachment crates part mimetype filename state).map fun state => (.default, state)
  else if cryptoKind.isSome then .ok (.default, state)
  else walkBody part mimetype filename state

/-- What `walk_part` records of every part. -/
def ParseState.enter (crates : Crates) (part : PartData) (depth : Nat) (path : List Nat)
    (state : ParseState) : ParseState :=
  { state with
    tree := state.tree ++
      [(List.replicate depth "  ".toList).flatten ++ crates.toLowercase part.ctype.mimetype]
    classification := classifyPart crates part path (partFilename part) state.classification }

mutual

/-- `walk_part`. -/
def walkPart (crates : Crates) (part : ParsedMail) (depth : Nat) (path : List Nat)
    (namedBodyAllowed : Bool) (state : ParseState) :
    Except Error (BodySelection × ParseState) :=
  match part with
  | .node data subparts =>
    let mimetype := crates.toLowercase data.ctype.mimetype
    let filename := partFilename data
    let explicitlyAttached := partIsExplicitAttachment data filename namedBodyAllowed
    let state := state.enter crates data depth path
    if subparts = [] then walkLeaf crates data mimetype filename explicitlyAttached state
    else
      match walkSubparts crates data subparts mimetype namedBodyAllowed (depth + 1) path subparts 0
        state with
      | .error err => .error err
      | .ok (selections, attachmentRanges, state) =>
        .ok (if explicitlyAttached then .default
          else selectMultipartBody data subparts mimetype selections attachmentRanges, state)

/-- The loop of `walk_part` over the subparts from `index` on, below `parent` with all of its
`siblings`. -/
def walkSubparts (crates : Crates) (parent : PartData) (siblings : List ParsedMail)
    (mimetype : Str) (namedBodyAllowed : Bool) (depth : Nat) (path : List Nat)
    (subparts : List ParsedMail) (index : Nat) (state : ParseState) :
    Except Error (List BodySelection × List AttachmentRange × ParseState) :=
  match subparts with
  | [] => .ok ([], [], state)
  | subpart :: rest =>
    let childNamedBodyAllowed :=
      namedBodyAllowedForChild parent siblings mimetype namedBodyAllowed index
    match walkPart crates subpart depth (path ++ [index]) childNamedBodyAllowed state with
    | .error err => .error err
    | .ok (selection, after) =>
      match walkSubparts crates parent siblings mimetype namedBodyAllowed depth path rest
        (index + 1) after with
      | .error err => .error err
      | .ok (selections, attachmentRanges, final) =>
        .ok (selection :: selections,
          ⟨state.nextAttachmentIndex, after.nextAttachmentIndex⟩ :: attachmentRanges, final)

end

/-! ## The data walk -/

/-- `ExtractedAttachment`. -/
structure ExtractedAttachment where
  partIndex : Nat
  filename : Str
  contentType : Str
  contentId : Option Str
  bytes : Bytes
  decodeWarnings : List Text
  deriving DecidableEq, Repr

/-- `AttachmentDecodeFailure`. -/
structure AttachmentDecodeFailure where
  partIndex : Nat
  filename : Str
  contentType : Str
  error : Text
  deriving DecidableEq, Repr

/-- `AttachmentExtractionReport`. -/
structure AttachmentExtractionReport where
  attachments : List ExtractedAttachment
  failures : List AttachmentDecodeFailure
  deriving DecidableEq, Repr

/-- The `&mut` arguments of `collect_attachment_data`. -/
structure CollectState where
  totalDecodedBytes : Nat
  nextPartIndex : Nat
  report : AttachmentExtractionReport
  deriving DecidableEq, Repr

/-- What the extraction starts from. -/
def CollectState.new : CollectState := ⟨0, 0, ⟨[], []⟩⟩

/-- What `collect_attachment_data` does with a selected attachment. -/
def collectAttachment (crates : Crates) (part : PartData) (limits : MimeLimits) (mimetype : Str)
    (filename : Option Str) (partIndex : Nat) (state : CollectState) :
    Except Error CollectState := do
  let filename := filename.getD (fallbackAttachmentFilename part)
  let description := partDescription mimetype (some filename) true
  ensureDecodeMayFit part description limits.maxDecodedPartBytes
  match decodePartBytes crates part with
  | .ok decoded =>
    let total ← reserveTotal limits description state.totalDecodedBytes decoded.bytes.length
    return { state with
      totalDecodedBytes := total
      report := { state.report with
        attachments := state.report.attachments ++ [⟨partIndex, filename, mimetype,
          getFirstValue part.headers "Content-ID", decoded.bytes, decoded.warnings⟩] } }
  | .error err =>
    return { state with
      report := { state.report with
        failures := state.report.failures ++ [⟨partIndex, filename, mimetype,
          (Error.context (lit "decoding " ++ description) err).displayChain⟩] } }

/-- What `collect_attachment_data` does at a part without subparts. -/
def collectLeaf (crates : Crates) (part : PartData) (limits : MimeLimits)
    (namedBodyAllowed : Bool) (selected : Option (List Nat)) (state : CollectState) :
    Except Error CollectState :=
  let mimetype := toAsciiLowercase part.ctype.mimetype
  let filename := partFilename part
  let explicitlyAttached := partIsExplicitAttachment part filename namedBodyAllowed
  if partIsAttachmentLike mimetype explicitlyAttached (cryptoPartKind part).isSome then
    let partIndex := state.nextPartIndex
    let state := { state with nextPartIndex := state.nextPartIndex + 1 }
    if selected.any fun selected => decide (partIndex ∉ selected) then .ok state
    else collectAttachment crates part limits mimetype filename partIndex state
  else .ok state

mutual

/-- `collect_attachment_data`. -/
def collectAttachmentData (crates : Crates) (part : ParsedMail) (limits : MimeLimits)
    (namedBodyAllowed : Bool) (selected : Option (List Nat)) (state : CollectState) :
    Except Error CollectState :=
  match part with
  | .node data subparts =>
    if subparts = [] then collectLeaf crates data limits namedBodyAllowed selected state
    else
      collectSubparts crates data subparts limits namedBodyAllowed selected subparts 0 state

/-- The loop of `collect_attachment_data` over the subparts from `index` on. -/
def collectSubparts (crates : Crates) (parent : PartData) (siblings : List ParsedMail)
    (limits : MimeLimits) (namedBodyAllowed : Bool) (selected : Option (List Nat))
    (subparts : List ParsedMail) (index : Nat) (state : CollectState) :
    Except Error CollectState :=
  match subparts with
  | [] => .ok state
  | subpart :: rest =>
    let childNamedBodyAllowed := namedBodyAllowedForChild parent siblings
      (toAsciiLowercase parent.ctype.mimetype) namedBodyAllowed index
    match collectAttachmentData crates subpart limits childNamedBodyAllowed selected state with
    | .error err => .error err
    | .ok after =>
      collectSubparts crates parent siblings limits namedBodyAllowed selected rest (index + 1)
        after

end

end Notm.Mail
