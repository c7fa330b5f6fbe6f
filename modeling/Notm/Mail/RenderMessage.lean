import Notm.Lib.Counter
import Notm.Mail.MimeParameter
import Notm.Mail.Reply
import Notm.Mail.WireText

/-!
# Rendering a message

`render_message` writes the headers and the parts of a composed message one after the other and
validates the text in the end. Header values are checked for control characters, bodies and
embedded messages have their line endings normalized, and everything else is plain text or base64:
so a CR and an LF are written as a pair only.

* `renderMessage` — the writers of the headers and the parts, and `validateWire` at the end.
* `writeMessage_paired` — every writer keeps what is written in lines that end in CR LF.
* `renderMessage_paired` — so the validation never finds a CR or an LF that stands alone.
* `line_endings_normalized` — what normalizing does to any text, and what that is worth for a
  message.
-/

namespace Notm.Mail

open Rust Folding LineEndings

/-! ## Headers -/

def encodedWordInputBytes : Nat := 39

/-- One round of the loop of `utf8_chunks`, over the chunks and the characters from `start` on. -/
def utf8Chunk (maxBytes : Nat) (state : List Str × Str) (character : Char) : List Str × Str :=
  if Utf8.len state.2 ≠ 0 ∧ Utf8.len state.2 + character.utf8Size > maxBytes then
    (state.1 ++ [state.2], [character])
  else (state.1, state.2 ++ [character])

/-- Chunks of at most so many bytes, cut between characters. -/
def utf8Chunks (value : Str) (maxBytes : Nat) : List Str :=
  let state := value.foldl (utf8Chunk maxBytes) ([], [])
  state.1 ++ [state.2]

/-- The encoded words of a value. An empty value has one empty word, so that the header gets a
token. -/
def encodeWords (crates : Crates) (value : Str) : List Str :=
  if value = [] then [[]]
  else
    (utf8Chunks value encodedWordInputBytes).map fun chunk =>
      "=?UTF-8?B?".toList ++ crates.base64Encode (Utf8.encode chunk) ++ "?=".toList

/-- A subject that is ASCII and fits the recommended line is written as it is, in one token; any
other is written as encoded words. -/
def writeSubjectHeader (crates : Crates) (out : Bytes) (subject : Str) : Res Bytes := do
  validateHeaderText (lit "Subject") subject
  let tokens :=
    if isAscii subject = false ∨
        saturatingAdd (Utf8.len "Subject: ".toList) (Utf8.len subject) >
          recommendedHeaderLineLength then
      encodeWords crates subject
    else [subject]
  writeTokenHeader out "Subject".toList tokens

/-- The field has to hold exactly one mailbox. The name and the address are checked again after they
have been parsed. -/
def renderMailboxTokens (crates : Crates) (field : String) (input : Str) : Res (List Str) := do
  validateHeaderText (lit field) input
  let address ← parseOneChecked crates input
  validateHeaderText (lit field) address.email
  match address.name.filter (· ≠ []) with
  | some name => do
    validateHeaderText (lit field) name
    let tokens :=
      if isAscii name = false ∨ Utf8.len name > encodedWordInputBytes then encodeWords crates name
      else [quoteName name]
    .ok (tokens ++ ['<' :: (address.email ++ ['>'])])
  | none => .ok [address.email]

/-- The comma behind the last token of a mailbox. -/
def pushComma (mailbox : List Str) : Res (List Str) := do
  let last ← Res.orPanic mailbox.getLast?
  .ok (mailbox.dropLast ++ [last ++ [',']])

/-- The loop of `write_address_header`, from the mailbox with the number `index` on. -/
def mailboxTokensFrom (crates : Crates) (field : String) (count : Nat) (tokens : List Str)
    (index : Nat) : List Str → Res (List Str)
  | [] => .ok tokens
  | value :: values => do
    let mailbox ← Res.withContext
      (lit "invalid " ++ lit field ++ lit " mailbox " ++ [.lit (natText (index + 1))])
      (renderMailboxTokens crates field value)
    let mailbox ← if index + 1 ≠ count then pushComma mailbox else .ok mailbox
    mailboxTokensFrom crates field count (tokens ++ mailbox) (index + 1) values

/-- A field that may not be empty has exactly one mailbox. -/
def writeAddressHeader (crates : Crates) (out : Bytes) (field : String) (values : List Str)
    (allowEmpty : Bool) : Res Bytes := do
  Res.ensure (allowEmpty || values.length = 1) (lit field ++ lit " requires one mailbox")
  let tokens ← mailboxTokensFrom crates field values.length [] 0 values
  writeTokenHeader out field.toList tokens

/-- A header of message identifiers, which needs at least one. -/
def writeThreadingHeader (out : Bytes) (field : String) (values : List Str) : Res Bytes := do
  let ids ← messageIdTokens field values
  Res.ensure (!ids.isEmpty) (lit field ++ lit " must contain a message identifier")
  writeTokenHeader out field.toList ids

/-- The identifier goes through the strict reader, which also takes out what is semantically empty.
-/
def writeMessageIdHeader (out : Bytes) (messageId : Str) : Res Bytes := do
  let messageIds ← messageIdTokens "Message-ID" [messageId]
  Res.ensure (messageIds.length = 1)
    (lit "Message-ID must contain exactly one message identifier")
  writeTokenHeader out "Message-ID".toList messageIds

/-- A header of recipients, where there are any. -/
def writeRecipientHeader (crates : Crates) (out : Bytes) (field : String) (values : List Str) :
    Res Bytes :=
  if values ≠ [] then writeAddressHeader crates out field values true else .ok out

/-- A message that answers none has no such header. -/
def writeInReplyTo (out : Bytes) (inReplyTo : Option Str) : Res Bytes :=
  match inReplyTo with
  | some id => writeThreadingHeader out "In-Reply-To" [id]
  | none => .ok out

/-- Likewise. -/
def writeReferences (out : Bytes) (references : List Str) : Res Bytes :=
  if references ≠ [] then writeThreadingHeader out "References" references else .ok out

/-- The headers of a message, in their order. -/
def writeMessageHeaders (crates : Crates) (message : ComposedMessage) : Res Bytes := do
  let out ← writeTokenHeader [] "Date".toList [message.renderDate]
  let out ← writeMessageIdHeader out message.messageId
  let out ← writeAddressHeader crates out "From" [message.from] false
  let out ← writeRecipientHeader crates out "To" message.to
  let out ← writeRecipientHeader crates out "Cc" message.cc
  -- Bcc is written for the helper, which strips it.
  let out ← writeRecipientHeader crates out "Bcc" message.bcc
  let out ← writeSubjectHeader crates out message.subject
  let out ← writeInReplyTo out message.inReplyTo
  let out ← writeReferences out message.references
  writeLiteralHeader out "MIME-Version".toList "1.0".toList

/-! ## Parts -/

def mixedBoundary (message : ComposedMessage) : Str :=
  "notm-mixed-".toList ++ message.mimeBoundaryId

def alternativeBoundary (message : ComposedMessage) : Str :=
  "notm-alt-".toList ++ message.mimeBoundaryId

/-- The body that the user has typed, with the quoted original behind it. -/
def renderedTextBody (message : ComposedMessage) : Str :=
  match message.textReplyQuote with
  | some quote => message.body ++ quote
  | none => message.body

/-- The lines of a plain body as HTML. -/
def plainTextToHtmlFragment (body : Str) : Str :=
  "<div>".toList ++ List.intercalate "<br>".toList ((lines body).map escapeHtml) ++ "</div>".toList

/-- There is an HTML body if the message has one, or if the original that is quoted had one. -/
def renderedHtmlBody (message : ComposedMessage) : Option Str :=
  match message.htmlBody with
  | some html => some html
  | none => message.htmlReplyQuote.map fun quote => plainTextToHtmlFragment message.body ++ quote

/-- A delimiter line, or the closing one. -/
def writeBoundary (out : Bytes) (boundary : Str) (closing : Bool) : Bytes :=
  out ++ (Utf8.encode "--".toList ++ Utf8.encode boundary ++
    (if closing then Utf8.encode "--".toList else []) ++ crlf)

/-- Texts are always sent as UTF-8 in quoted-printable. -/
def writeTextPartHeaders (out : Bytes) (contentType : Str) : Res Bytes := do
  let out ← writeLiteralHeader out "Content-Type".toList (contentType ++ "; charset=utf-8".toList)
  writeLiteralHeader out "Content-Transfer-Encoding".toList "quoted-printable".toList

/-- The boundary is on a line of its own, which continues the header. -/
def writeMultipartHeader (out : Bytes) (contentType boundary : Str) : Res Bytes := do
  let out ← writeLiteralHeader out "Content-Type".toList (contentType ++ ";".toList)
  .ok (out ++ (Utf8.encode " boundary=\"".toList ++ Utf8.encode boundary ++
    Utf8.encode "\"".toList ++ crlf))

/-- A body that the encoding leaves without a line end is given one. -/
def writeQuotedPrintableBody (crates : Crates) (out : Bytes) (body : Str) : Res Bytes := do
  let normalized ← normalizeBody body
  .ok (ensureCrlfTerminated (out ++ crates.quotedPrintableEncode (Utf8.encode normalized)))

/-- The headers of a text part, the empty line and its body. -/
def writeTextPart (crates : Crates) (out : Bytes) (contentType body : Str) : Res Bytes := do
  let out ← writeTextPartHeaders out contentType
  writeQuotedPrintableBody crates (out ++ crlf) body

/-- The plain text comes first and the HTML last, which is the order in which readers prefer them.
-/
def renderAlternativeParts (crates : Crates) (out : Bytes) (boundary textBody : Str)
    (htmlBody : Option Str) : Res Bytes := do
  let out ← writeTextPart crates (writeBoundary out boundary false) "text/plain".toList textBody
  match htmlBody with
  | some html => do
    let out ← writeTextPart crates (writeBoundary out boundary false) "text/html".toList html
    .ok (writeBoundary out boundary true)
  | none => .ok (writeBoundary out boundary true)

/-- What is asked of an embedded message as such. -/
def ensureEmbeddedMessage (crates : Crates) (normalized : Bytes) (contentType : Str) : Res Unit :=
  if eqIgnoreAsciiCase contentType "message/rfc822".toList then do
    Res.ensure (decide (crlf ++ crlf <:+: normalized))
      (lit "message/rfc822 attachment does not contain a header/body separator")
    let parsed ← Res.withContext
      (lit "message/rfc822 attachment is not a parseable RFC 5322 message")
      ((parseRfc5322WithLimits crates normalized .default).mapError .error)
    Res.ensure (!parsed.headers.isEmpty)
      (lit "message/rfc822 attachment does not contain any message headers")
  else .ok ()

/-- A message that is attached is sent as it is, with its line ends made CRLF. It has to hold no NUL
and to keep to the line limits. -/
def normalizeEmbeddedMessage (crates : Crates) (bytes : Bytes) (contentType : Str) :
    Res Bytes := do
  Res.ensure (0 ∉ bytes)
    ([.lit contentType] ++
      lit " attachment contains a NUL byte that cannot be sent with 8bit encoding")
  let normalized := ensureCrlfTerminated (normalizeLineEndings bytes)
  ensureEmbeddedMessage crates normalized contentType
  Res.withContext (lit "message attachment does not satisfy RFC 5322 wire line limits")
    (validateWire normalized)
  .ok normalized

/-- Messages are attached in 8bit, everything else in base64. -/
def renderAttachment (crates : Crates) (out : Bytes) (attachment : AttachmentInput) :
    Res Bytes := do
  let out ← writeAttachmentHeaders out attachment.filename attachment.contentType
  let contentType := attachmentContentType attachment.contentType
  if eqIgnoreAsciiCase contentType "message/rfc822".toList then do
    let embedded ← normalizeEmbeddedMessage crates attachment.bytes contentType
    .ok (ensureCrlfTerminated (out ++ embedded))
  else
    let encoded := Utf8.encode (crates.base64Encode attachment.bytes)
    .ok (out ++ (chunks 76 encoded).flatMap (· ++ crlf) ++ (if encoded = [] then crlf else []))

/-- The text part of a message with attachments, alone or with its HTML. -/
def renderFirstPart (crates : Crates) (out : Bytes) (message : ComposedMessage) : Res Bytes :=
  match renderedHtmlBody message with
  | some html => do
    let alternative := alternativeBoundary message
    let out ← writeMultipartHeader out "multipart/alternative".toList alternative
    renderAlternativeParts crates (out ++ crlf) alternative (renderedTextBody message) (some html)
  | none => writeTextPart crates out "text/plain".toList (renderedTextBody message)

/-- The message before its validation. -/
def writeMessage (crates : Crates) (message : ComposedMessage) : Res Bytes := do
  let out ← writeMessageHeaders crates message
  let textBody := renderedTextBody message
  let htmlBody := renderedHtmlBody message
  if message.attachments = [] then
    if htmlBody = none then writeTextPart crates out "text/plain".toList textBody
    else do
      let boundary := alternativeBoundary message
      let out ← writeMultipartHeader out "multipart/alternative".toList boundary
      renderAlternativeParts crates (out ++ crlf) boundary textBody htmlBody
  else do
    let boundary := mixedBoundary message
    let out ← writeMultipartHeader out "multipart/mixed".toList boundary
    let out ← renderFirstPart crates (writeBoundary (out ++ crlf) boundary false) message
    let out ← message.attachments.foldlM (fun out attachment =>
      renderAttachment crates (writeBoundary out boundary false) attachment) out
    .ok (writeBoundary out boundary true)

/-- What has been written is checked as a whole before it is returned. -/
def renderMessage (crates : Crates) (message : ComposedMessage) : Res Bytes := do
  let out ← writeMessage crates message
  validateWire out
  .ok out

variable {crates : Crates} {out written text : Bytes} {value : Str}

/-! ## Header text -/

theorem not_mem_encode_newline (h : '\n' ∉ value) : 0x0A ∉ Utf8.encode value := by
  intro hmem
  obtain ⟨c, hc, hcode⟩ := Utf8.mem_encode_ascii hmem (by decide)
  obtain rfl : c = '\n' := Char.toNat_inj.1 hcode
  exact h hc

theorem paired_encode_of_not_mem (hcr : '\r' ∉ value) (hlf : '\n' ∉ value) :
    Paired (Utf8.encode value) :=
  paired_of_not_mem (not_mem_encode hcr) (not_mem_encode_newline hlf)

/-- Header text has no line breaks. -/
theorem IsHeaderText.not_mem {c : Char} (h : IsHeaderText value) (hcontrol : isControl c = true)
    (htab : c ≠ '\t') : c ∉ value := by
  intro hmem
  rcases h c hmem with heq | hplain
  · exact htab heq
  · exact ne_of_isControl hcontrol hplain rfl

theorem paired_encode (h : IsHeaderText value) : Paired (Utf8.encode value) :=
  paired_encode_of_not_mem (h.not_mem (by decide) (by decide)) (h.not_mem (by decide) (by decide))

/-- A text of the program that is compared with all control characters at once. -/
theorem isHeaderText_of_all (h : value.all (fun c => !isControl c) = true) : IsHeaderText value :=
  fun c hc => Or.inr (by simpa using List.all_eq_true.1 h c hc)

/-! ## Writers of headers -/

theorem writeToken_paired {name token : Str} {state next : Bytes × Nat} (hstate : Paired state.1)
    (h : writeToken name state token = .ok next) : Paired next.1 := by
  obtain ⟨_, htext, h⟩ := bind_eq_ok.1 h
  obtain ⟨_, _, h⟩ := bind_eq_ok.1 h
  have htoken : Paired (0x20 :: Utf8.encode token) :=
    .byte (by decide) (by decide) (paired_encode (validateHeaderText_eq_ok.1 htext))
  split at h
  · obtain rfl := Except.ok.inj h
    exact hstate.append htoken
  · obtain rfl := Except.ok.inj h
    exact hstate.append (paired_crlf.append htoken)

theorem writeTokenHeader_paired {name : Str} {tokens : List Str} (hname : IsHeaderText name)
    (hout : Paired out) (h : writeTokenHeader out name tokens = .ok written) : Paired written := by
  have hstart : Paired (out ++ (Utf8.encode name ++ [0x3A])) :=
    hout.append ((paired_encode hname).append (.byte (by decide) (by decide) .nil))
  unfold writeTokenHeader at h
  split at h
  · obtain rfl := Except.ok.inj h
    exact hstart.append paired_crlf
  · obtain ⟨state, hrun, h⟩ := bind_eq_ok.1 h
    obtain rfl := Except.ok.inj h
    refine Paired.append ?_ paired_crlf
    exact foldlM_preserves (fun _ _ _ hstate => writeToken_paired hstate) hstart hrun

theorem writeLiteralHeader_paired {name : Str} (hname : IsHeaderText name) (hout : Paired out)
    (h : writeLiteralHeader out name value = .ok written) : Paired written := by
  obtain ⟨_, htext, h⟩ := bind_eq_ok.1 h
  obtain ⟨_, _, h⟩ := bind_eq_ok.1 h
  obtain rfl := Except.ok.inj h
  have hcolon : Paired (Utf8.encode ": ".toList) :=
    paired_encode (isHeaderText_of_all (by decide))
  have hvalue := paired_encode (validateHeaderText_eq_ok.1 htext)
  exact hout.append ((((paired_encode hname).append hcolon).append hvalue).append paired_crlf)

theorem renderMimeParameter_paired {name : Str} (hname : IsHeaderText name)
    (hvalue : IsHeaderText value) :
    ∀ parameter ∈ renderMimeParameter name value, Paired (Utf8.encode parameter) := by
  have hbreak : ∀ c : Char, isControl c = true → c ≠ '\t' →
      ∀ parameter ∈ renderMimeParameter name value, c ∉ parameter := by
    intro c hcontrol htab
    have hfirst := hname.not_mem hcontrol htab
    rcases renderMimeParameter_forms name value with hquotes | ⟨pieces, hsegments⟩
    · exact hquotes.not_mem hcontrol hfirst (hvalue.not_mem hcontrol htab)
    · exact hsegments.not_mem hcontrol hfirst
  intro parameter hmem
  exact paired_encode_of_not_mem (hbreak '\r' (by decide) (by decide) parameter hmem)
    (hbreak '\n' (by decide) (by decide) parameter hmem)

theorem writeParameters_paired {name : Str} {count index : Nat} {parameters : List Str}
    (hparameters : ∀ parameter ∈ parameters, Paired (Utf8.encode parameter)) (hout : Paired out)
    (h : writeParameters name count out index parameters = .ok written) : Paired written := by
  induction parameters generalizing out index with
  | nil =>
    obtain rfl := Except.ok.inj h
    exact hout
  | cons parameter rest ih =>
    obtain ⟨_, _, h⟩ := bind_eq_ok.1 h
    refine ih (fun other hother => hparameters other (List.mem_cons_of_mem _ hother)) ?_ h
    have hparameter := hparameters parameter List.mem_cons_self
    refine hout.append (Paired.append (Paired.append (.byte (by decide) (by decide) hparameter) ?_)
      paired_crlf)
    split
    · exact .nil
    · exact .byte (by decide) (by decide) .nil

theorem writeParameterizedHeader_paired {name parameterName parameterValue : Str}
    (hname : IsHeaderText name) (hparameter : IsHeaderText parameterName)
    (hvalue : IsHeaderText parameterValue) (hout : Paired out)
    (h : writeParameterizedHeader out name value parameterName parameterValue = .ok written) :
    Paired written := by
  obtain ⟨first, hfirst, h⟩ := bind_eq_ok.1 h
  exact writeParameters_paired (renderMimeParameter_paired hparameter hvalue)
    (writeLiteralHeader_paired hname hout hfirst) h

theorem writeAttachmentHeaders_paired {filename contentType : Str} (hout : Paired out)
    (h : writeAttachmentHeaders out filename contentType = .ok written) : Paired written := by
  obtain ⟨_, hfilename, h⟩ := bind_eq_ok.1 h
  obtain ⟨_, _, h⟩ := bind_eq_ok.1 h
  obtain ⟨_, _, h⟩ := bind_eq_ok.1 h
  obtain ⟨typed, htyped, h⟩ := bind_eq_ok.1 h
  obtain ⟨transferred, htransferred, h⟩ := bind_eq_ok.1 h
  obtain ⟨disposed, hdisposed, h⟩ := bind_eq_ok.1 h
  obtain rfl := Except.ok.inj h
  have hfilename := validateHeaderText_eq_ok.1 hfilename
  have htyped := writeParameterizedHeader_paired (isHeaderText_of_all (by decide))
    (isHeaderText_of_all (by decide)) hfilename hout htyped
  have htransferred := writeLiteralHeader_paired (isHeaderText_of_all (by decide)) htyped
    htransferred
  have hdisposed := writeParameterizedHeader_paired (isHeaderText_of_all (by decide))
    (isHeaderText_of_all (by decide)) hfilename htransferred hdisposed
  exact hdisposed.append paired_crlf

/-! ## Writers of the message headers -/

theorem writeSubjectHeader_paired {subject : Str} (hout : Paired out)
    (h : writeSubjectHeader crates out subject = .ok written) : Paired written := by
  obtain ⟨_, _, h⟩ := bind_eq_ok.1 h
  exact writeTokenHeader_paired (isHeaderText_of_all (by decide)) hout h

theorem writeAddressHeader_paired {field : String} {values : List Str} {allowEmpty : Bool}
    (hfield : IsHeaderText field.toList) (hout : Paired out)
    (h : writeAddressHeader crates out field values allowEmpty = .ok written) :
    Paired written := by
  obtain ⟨_, _, h⟩ := bind_eq_ok.1 h
  obtain ⟨tokens, _, h⟩ := bind_eq_ok.1 h
  exact writeTokenHeader_paired hfield hout h

theorem writeThreadingHeader_paired {field : String} {values : List Str}
    (hfield : IsHeaderText field.toList) (hout : Paired out)
    (h : writeThreadingHeader out field values = .ok written) : Paired written := by
  obtain ⟨ids, _, h⟩ := bind_eq_ok.1 h
  obtain ⟨_, _, h⟩ := bind_eq_ok.1 h
  exact writeTokenHeader_paired hfield hout h

theorem writeMessageIdHeader_paired {messageId : Str} (hout : Paired out)
    (h : writeMessageIdHeader out messageId = .ok written) : Paired written := by
  obtain ⟨ids, _, h⟩ := bind_eq_ok.1 h
  obtain ⟨_, _, h⟩ := bind_eq_ok.1 h
  exact writeTokenHeader_paired (isHeaderText_of_all (by decide)) hout h

theorem writeRecipientHeader_paired {field : String} {values : List Str}
    (hfield : IsHeaderText field.toList) (hout : Paired out)
    (h : writeRecipientHeader crates out field values = .ok written) : Paired written := by
  unfold writeRecipientHeader at h
  split at h
  · exact writeAddressHeader_paired hfield hout h
  · obtain rfl := Except.ok.inj h
    exact hout

theorem writeInReplyTo_paired {inReplyTo : Option Str} (hout : Paired out)
    (h : writeInReplyTo out inReplyTo = .ok written) : Paired written := by
  cases inReplyTo with
  | some id => exact writeThreadingHeader_paired (isHeaderText_of_all (by decide)) hout h
  | none =>
    obtain rfl := Except.ok.inj h
    exact hout

theorem writeReferences_paired {references : List Str} (hout : Paired out)
    (h : writeReferences out references = .ok written) : Paired written := by
  unfold writeReferences at h
  split at h
  · exact writeThreadingHeader_paired (isHeaderText_of_all (by decide)) hout h
  · obtain rfl := Except.ok.inj h
    exact hout

theorem writeMessageHeaders_paired {message : ComposedMessage}
    (h : writeMessageHeaders crates message = .ok written) : Paired written := by
  have htext : ∀ {name : Str}, name.all (fun c => !isControl c) = true → IsHeaderText name :=
    isHeaderText_of_all
  obtain ⟨dated, hdated, h⟩ := bind_eq_ok.1 h
  obtain ⟨identified, hidentified, h⟩ := bind_eq_ok.1 h
  obtain ⟨sent, hsent, h⟩ := bind_eq_ok.1 h
  obtain ⟨withTo, hto, h⟩ := bind_eq_ok.1 h
  obtain ⟨withCc, hcc, h⟩ := bind_eq_ok.1 h
  obtain ⟨withBcc, hbcc, h⟩ := bind_eq_ok.1 h
  obtain ⟨withSubject, hsubject, h⟩ := bind_eq_ok.1 h
  obtain ⟨answered, hanswered, h⟩ := bind_eq_ok.1 h
  obtain ⟨referred, hreferred, h⟩ := bind_eq_ok.1 h
  have hdated := writeTokenHeader_paired (htext (by decide)) .nil hdated
  have hidentified := writeMessageIdHeader_paired hdated hidentified
  have hsent := writeAddressHeader_paired (htext (by decide)) hidentified hsent
  have hto := writeRecipientHeader_paired (htext (by decide)) hsent hto
  have hcc := writeRecipientHeader_paired (htext (by decide)) hto hcc
  have hbcc := writeRecipientHeader_paired (htext (by decide)) hcc hbcc
  have hsubject := writeSubjectHeader_paired hbcc hsubject
  have hanswered := writeInReplyTo_paired hsubject hanswered
  have hreferred := writeReferences_paired hanswered hreferred
  exact writeLiteralHeader_paired (htext (by decide)) hreferred h

/-! ## Writers of the parts -/

/-- What the crates promise of the text that they encode: quoted-printable text has the line breaks
of its input and its own as CRLF, and base64 text keeps to its alphabet. -/
structure EncodesText (crates : Crates) : Prop where
  quotedPrintable : ∀ bytes, Paired bytes → Paired (crates.quotedPrintableEncode bytes)
  base64 : ∀ bytes, ∀ c ∈ crates.base64Encode bytes, Base64.isBase64Char c = true

/-- The text of a `Uuid`. -/
def IsUuidText (text : Str) : Prop := ∀ c ∈ text, c = '-' ∨ isAsciiHexdigit c.toNat = true

theorem writeBoundary_paired {boundary : Str} (hboundary : IsHeaderText boundary) (closing : Bool)
    (hout : Paired out) : Paired (writeBoundary out boundary closing) := by
  have hdashes : Paired (Utf8.encode "--".toList) := paired_encode (isHeaderText_of_all (by decide))
  refine hout.append (((hdashes.append (paired_encode hboundary)).append ?_).append paired_crlf)
  split
  · exact hdashes
  · exact .nil

theorem writeMultipartHeader_paired {contentType boundary : Str} (hboundary : IsHeaderText boundary)
    (hout : Paired out) (h : writeMultipartHeader out contentType boundary = .ok written) :
    Paired written := by
  obtain ⟨typed, htyped, h⟩ := bind_eq_ok.1 h
  obtain rfl := Except.ok.inj h
  have htyped := writeLiteralHeader_paired (isHeaderText_of_all (by decide)) hout htyped
  have hopening : Paired (Utf8.encode " boundary=\"".toList) :=
    paired_encode (isHeaderText_of_all (by decide))
  have hclosing : Paired (Utf8.encode "\"".toList) :=
    paired_encode (isHeaderText_of_all (by decide))
  exact htyped.append (((hopening.append (paired_encode hboundary)).append hclosing).append
    paired_crlf)

theorem writeQuotedPrintableBody_paired {body : Str} (hcrates : EncodesText crates)
    (hout : Paired out) (h : writeQuotedPrintableBody crates out body = .ok written) :
    Paired written := by
  obtain ⟨normalized, hnormalized, h⟩ := bind_eq_ok.1 h
  obtain rfl := Except.ok.inj h
  have hbody : Paired (Utf8.encode normalized) := by
    rw [normalizeBody_eq] at hnormalized
    rw [← Except.ok.inj hnormalized, ← normalize_encode]
    exact paired_normalize _
  exact paired_ensureCrlfTerminated (hout.append (hcrates.quotedPrintable _ hbody))

theorem writeTextPart_paired {contentType body : Str} (hcrates : EncodesText crates)
    (hout : Paired out) (h : writeTextPart crates out contentType body = .ok written) :
    Paired written := by
  obtain ⟨headers, hheaders, h⟩ := bind_eq_ok.1 h
  obtain ⟨typed, htyped, hheaders⟩ := bind_eq_ok.1 hheaders
  have htyped := writeLiteralHeader_paired (isHeaderText_of_all (by decide)) hout htyped
  have hheaders := writeLiteralHeader_paired (isHeaderText_of_all (by decide)) htyped hheaders
  exact writeQuotedPrintableBody_paired hcrates (hheaders.append paired_crlf) h

theorem renderAlternativeParts_paired {boundary textBody : Str} {htmlBody : Option Str}
    (hcrates : EncodesText crates) (hboundary : IsHeaderText boundary) (hout : Paired out)
    (h : renderAlternativeParts crates out boundary textBody htmlBody = .ok written) :
    Paired written := by
  obtain ⟨texted, htexted, h⟩ := bind_eq_ok.1 h
  have htexted := writeTextPart_paired hcrates (writeBoundary_paired hboundary false hout) htexted
  cases htmlBody with
  | none =>
    obtain rfl := Except.ok.inj h
    exact writeBoundary_paired hboundary true htexted
  | some html =>
    obtain ⟨htmled, hhtmled, h⟩ := bind_eq_ok.1 h
    obtain rfl := Except.ok.inj h
    have hhtmled := writeTextPart_paired hcrates (writeBoundary_paired hboundary false htexted)
      hhtmled
    exact writeBoundary_paired hboundary true hhtmled

/-- An embedded message is sent with its line endings normalized. -/
theorem normalizeEmbeddedMessage_paired {bytes : Bytes} {contentType : Str}
    (h : normalizeEmbeddedMessage crates bytes contentType = .ok written) : Paired written := by
  obtain ⟨_, _, h⟩ := bind_eq_ok.1 h
  obtain ⟨_, _, h⟩ := bind_eq_ok.1 h
  obtain ⟨_, _, h⟩ := bind_eq_ok.1 h
  obtain rfl := Except.ok.inj h
  rw [normalizeLineEndings_eq]
  exact paired_ensureCrlfTerminated (paired_normalize bytes)

/-- Base64 text in lines of 76 characters. -/
theorem base64Lines_paired (hcrates : EncodesText crates) (bytes : Bytes) :
    Paired ((chunks 76 (Utf8.encode (crates.base64Encode bytes))).flatMap (· ++ crlf)) := by
  have hplain : ∀ c, Base64.isBase64Char c = true → c ≠ '\r' ∧ c ≠ '\n' := by
    intro c hc
    constructor
    · intro heq
      exact absurd (heq ▸ hc) (by decide)
    · intro heq
      exact absurd (heq ▸ hc) (by decide)
  have hcr : 0x0D ∉ Utf8.encode (crates.base64Encode bytes) :=
    not_mem_encode fun hmem => (hplain _ (hcrates.base64 bytes _ hmem)).1 rfl
  have hlf : 0x0A ∉ Utf8.encode (crates.base64Encode bytes) :=
    not_mem_encode_newline fun hmem => (hplain _ (hcrates.base64 bytes _ hmem)).2 rfl
  rw [List.flatMap_def]
  refine Paired.flatten fun line hline => ?_
  obtain ⟨chunk, hchunk, rfl⟩ := List.mem_map.1 hline
  have hmem : ∀ byte ∈ chunk, byte ∈ Utf8.encode (crates.base64Encode bytes) := by
    intro byte hbyte
    rw [← flatten_chunks 76 (Utf8.encode (crates.base64Encode bytes))]
    exact List.mem_flatten.2 ⟨chunk, hchunk, hbyte⟩
  exact (paired_of_not_mem (fun h => hcr (hmem _ h)) fun h => hlf (hmem _ h)).append paired_crlf

theorem renderAttachment_paired {attachment : AttachmentInput} (hcrates : EncodesText crates)
    (hout : Paired out) (h : renderAttachment crates out attachment = .ok written) :
    Paired written := by
  obtain ⟨headers, hheaders, h⟩ := bind_eq_ok.1 h
  have hheaders := writeAttachmentHeaders_paired hout hheaders
  dsimp only at h
  split at h
  · obtain ⟨embedded, hembedded, h⟩ := bind_eq_ok.1 h
    obtain rfl := Except.ok.inj h
    exact paired_ensureCrlfTerminated (hheaders.append (normalizeEmbeddedMessage_paired hembedded))
  · obtain rfl := Except.ok.inj h
    refine (hheaders.append (base64Lines_paired hcrates _)).append ?_
    split
    · exact paired_crlf
    · exact .nil

theorem renderFirstPart_paired {message : ComposedMessage} (hcrates : EncodesText crates)
    (hboundary : IsHeaderText (alternativeBoundary message)) (hout : Paired out)
    (h : renderFirstPart crates out message = .ok written) : Paired written := by
  unfold renderFirstPart at h
  split at h
  · obtain ⟨headers, hheaders, h⟩ := bind_eq_ok.1 h
    have hheaders := writeMultipartHeader_paired hboundary hout hheaders
    exact renderAlternativeParts_paired hcrates hboundary (hheaders.append paired_crlf) h
  · exact writeTextPart_paired hcrates hout h

/-! ## The message -/

/-- The boundaries of a message are plain text. -/
theorem isHeaderText_of_isUuidText {text : Str} (h : IsUuidText text) : IsHeaderText text := by
  intro c hc
  rcases h c hc with rfl | hdigit
  · exact Or.inr (by decide)
  · refine Or.inr ?_
    unfold isAsciiHexdigit isAsciiDigit at hdigit
    unfold isControl
    simp only [Bool.or_eq_true, Bool.and_eq_true, decide_eq_true_eq] at hdigit
    simp only [Bool.or_eq_false_iff, Bool.and_eq_false_iff, decide_eq_false_iff_not]
    omega

/-- Whatever is written before the validation has its line breaks in pairs. -/
theorem writeMessage_paired {message : ComposedMessage} (hcrates : EncodesText crates)
    (huuid : IsUuidText message.mimeBoundaryId)
    (h : writeMessage crates message = .ok written) : Paired written := by
  have hid := isHeaderText_of_isUuidText huuid
  have hmixed : IsHeaderText (mixedBoundary message) :=
    (isHeaderText_of_all (by decide)).append hid
  have halternative : IsHeaderText (alternativeBoundary message) :=
    (isHeaderText_of_all (by decide)).append hid
  obtain ⟨headers, hheaders, h⟩ := bind_eq_ok.1 h
  have hheaders := writeMessageHeaders_paired hheaders
  dsimp only at h
  split at h
  · split at h
    · exact writeTextPart_paired hcrates hheaders h
    · obtain ⟨typed, htyped, h⟩ := bind_eq_ok.1 h
      have htyped := writeMultipartHeader_paired halternative hheaders htyped
      exact renderAlternativeParts_paired hcrates halternative (htyped.append paired_crlf) h
  · obtain ⟨typed, htyped, h⟩ := bind_eq_ok.1 h
    obtain ⟨first, hfirst, h⟩ := bind_eq_ok.1 h
    obtain ⟨attached, hattached, h⟩ := bind_eq_ok.1 h
    obtain rfl := Except.ok.inj h
    have htyped := writeMultipartHeader_paired hmixed hheaders htyped
    have hfirst := renderFirstPart_paired hcrates halternative
      (writeBoundary_paired hmixed false (htyped.append paired_crlf)) hfirst
    refine writeBoundary_paired hmixed true (foldlM_preserves ?_ hfirst hattached)
    -- Each attachment is written behind a boundary of its own.
    intro before attachment after hbefore hrender
    exact renderAttachment_paired hcrates (writeBoundary_paired hmixed false hbefore) hrender

/-- A message that is written is not refused for a CR or an LF that stands alone. -/
theorem renderMessage_paired {message : ComposedMessage} (hcrates : EncodesText crates)
    (huuid : IsUuidText message.mimeBoundaryId)
    (h : writeMessage crates message = .ok written) :
    ¬ RefusesBareBreak (renderMessage crates message) := by
  have hvalid := validateWire_paired (writeMessage_paired hcrates huuid h)
  unfold renderMessage
  rw [h]
  show ¬ RefusesBareBreak (validateWire written >>= fun _ => .ok written)
  cases hresult : validateWire written with
  | ok _ =>
    exact not_or.2 ⟨fun heq => Res.bail_ne_ok heq.symm, fun heq => Res.bail_ne_ok heq.symm⟩
  | error fault =>
    rw [hresult] at hvalid
    intro hrefused
    -- The refusal of the rendering is the one of the validation.
    refine hvalid (hrefused.imp (fun heq => ?_) fun heq => ?_)
    · exact congrArg Except.error (Except.error.inj heq)
    · exact congrArg Except.error (Except.error.inj heq)

/-- **Line endings.** Normalizing is idempotent, leaves CR and LF in pairs only and keeps the lines;
and neither an embedded message nor the whole one is refused for a CR or an LF that stands alone.
The last part is about every message that gets as far as the validation: the hypotheses are on what
the program generates itself, the boundary ids, and on the text encodings of the crates. -/
theorem line_endings_normalized :
    (∀ input, normalizeLineEndings (normalizeLineEndings input) = normalizeLineEndings input) ∧
      (∀ input, Paired (normalizeLineEndings input)) ∧
      (∀ input, breakLines (normalizeLineEndings input) = breakLines input) ∧
      (∀ input, ¬ RefusesBareBreak
        (validateWire (ensureCrlfTerminated (normalizeLineEndings input)))) ∧
      ∀ crates message out, EncodesText crates → IsUuidText message.mimeBoundaryId →
        writeMessage crates message = .ok out →
          ¬ RefusesBareBreak (renderMessage crates message) := by
  refine ⟨fun input => ?_, fun input => ?_, fun input => ?_, fun input => ?_, ?_⟩
  · rw [normalizeLineEndings_eq, normalizeLineEndings_eq, normalize_normalize]
  · rw [normalizeLineEndings_eq]
    exact paired_normalize input
  · rw [normalizeLineEndings_eq]
    exact breakLines_normalize input
  · rw [normalizeLineEndings_eq]
    exact validateWire_paired (paired_ensureCrlfTerminated (paired_normalize input))
  · -- The writers are followed one by one there, from the first field to the closing boundary.
    intro crates message out hcrates huuid hwrite
    exact renderMessage_paired hcrates huuid hwrite

/-- A note of two lines to one reader. -/
def twoLineNote : ComposedMessage :=
  { ComposedMessage.new Reference.crates ⟨['7'], ['n', 'o', 'w'], ['4', '-', 'a']⟩
      "a@b.c".toList ["d@e.f".toList] "note".toList ['x', '\n', 'y'] with
    attachments := [⟨['n'], "text/plain".toList, [0x0D], none⟩] }

theorem line_endings_normalized_note :
    ∃ out, writeMessage Reference.crates twoLineNote = .ok out ∧
      ¬ RefusesBareBreak (renderMessage Reference.crates twoLineNote) := by
  obtain ⟨-, -, -, -, hrender⟩ := line_endings_normalized
  obtain ⟨out, hout⟩ := exists_eq_ok (x := writeMessage Reference.crates twoLineNote)
    (by decide +kernel)
  have hcrates : EncodesText Reference.crates :=
    ⟨fun _ h => h, fun _ _ h => Base64.isBase64Char_of_mem_encode h⟩
  have huuid : IsUuidText twoLineNote.mimeBoundaryId := by
    intro c hc
    have hmem : c ∈ ['4', '-', 'a'] := hc
    simp only [List.mem_cons, List.not_mem_nil, or_false] at hmem
    rcases hmem with rfl | rfl | rfl
    · exact Or.inr (by decide)
    · exact Or.inl rfl
    · exact Or.inr (by decide)
  exact ⟨out, hout, hrender Reference.crates twoLineNote out hcrates huuid hout⟩

end Notm.Mail
