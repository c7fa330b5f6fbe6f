import Notm.Mail.Mime

/-!
# Parsing a message and extracting its attachments

`parse_rfc5322_with_limits` and the extraction of attachments: the two entries to the MIME walks,
each behind the preflight of the structure. The header fields of a parsed message are what the
replies are built from.

* `parseRfc5322WithLimits` — the parse of a message: size, structure, tree, walk, raw threading
  fields.
* `extractSelectedAttachmentsDetailedWithLimits` — the bytes of all attachments or of selected ones.
* `parseStructure_eq_ok`, `parseRfc5322WithLimits_eq_ok` — what a parse that succeeds has gone
  through.
-/

namespace Notm.Mail

open Rust

/-! ## Structured header fields -/

/-- What may follow a line break within a header value: a space or a tab. -/
def ensureFolding (field : String) (rest : Bytes) : Except Error Unit :=
  if (rest.head?).any fun b => isBlank b.toNat then .ok ()
  else .error (.msg (lit field ++ lit " contains a non-folding line break"))

/-- The loop of `unfold_raw_structured_header`. -/
def unfoldBytes (field : String) : Bytes → Except Error Bytes
  | [] => .ok []
  | byte :: rest =>
    if byte = 0x0D then
      match rest with
      | 0x0A :: rest => do
        ensureFolding field rest
        unfoldBytes field rest
      | _ => .error (.msg (lit field ++ lit " contains a bare carriage return"))
    else if byte = 0x0A then do
      ensureFolding field rest
      unfoldBytes field rest
    else if byte = 0x09 ∨ (0x20 ≤ byte ∧ byte ≠ 0x7F) then
      return byte :: (← unfoldBytes field rest)
    else .error (.msg (lit field ++ lit " contains an invalid control character"))

/-- `unfold_raw_structured_header`: UTF-8 first, Latin-1 otherwise. -/
def unfoldRawStructuredHeader (field : String) (raw : Bytes) : Except Error Str :=
  (unfoldBytes field raw).map fun unfolded =>
    (Utf8.decode unfolded).getD (unfolded.map fun b => Char.ofNat b.toNat)

/-- `first_raw_structured_header`. -/
def firstRawStructuredHeader (headers : List MailHeader) (field : String) : Except Error Str :=
  match getFirstHeader headers field with
  | none => .ok []
  | some header => unfoldRawStructuredHeader field header.rawValue

/-! ## The parsed message -/

/-- `ParsedMessage`. -/
structure ParsedMessage where
  /-- The `BTreeMap` of all headers, by key. -/
  headers : List (Str × Str)
  subject : Str
  «from» : Str
  «to» : Str
  cc : Str
  replyTo : Str
  messageId : Str
  references : Str
  inReplyTo : Str
  textBody : Str
  htmlBody : Option Str
  htmlCidPartScopes : List HtmlCidPartScope
  safeBody : Str
  decodeWarnings : List Text
  attachments : List Attachment
  mimeTree : List Str
  classification : MimeClassification
  deriving DecidableEq, Repr

/-- `BTreeMap::insert`. -/
def mapInsert (map : List (Str × Str)) (key value : Str) : List (Str × Str) :=
  match map with
  | [] => [(key, value)]
  | entry :: rest =>
    match compare key entry.1 with
    | .lt => (key, value) :: entry :: rest
    | .eq => (key, value) :: rest
    | .gt => entry :: mapInsert rest key value

/-- `ensure!(bytes.len() <= limits.max_message_bytes, …)`. -/
def ensureMessageSize (bytes : Bytes) (limits : MimeLimits) : Except Error Unit :=
  if bytes.length ≤ limits.maxMessageBytes then .ok ()
  else
    .error (.msg (lit "message exceeds the " ++ [.lit (natText limits.maxMessageBytes)] ++
      lit "-byte safety limit"))

/-- What `parse_rfc5322_with_limits` and the extraction do first: check the size and the
structure, and have `mailparse` build the tree. -/
def parseStructure (crates : Crates) (bytes : Bytes) (limits : MimeLimits) :
    Except Error ParsedMail := do
  ensureMessageSize bytes limits
  preflightMimeStructure crates bytes limits
  match crates.parseMail bytes with
  | .ok parsed => return parsed
  | .error e => .error (.crate e)

/-- `safe_body`. -/
def safeBodyOf (crates : Crates) (textBody : Str) (htmlBody : Option Str) : Str :=
  if trim textBody ≠ [] then textBody
  else (htmlBody.map crates.htmlToSafeText).getD []

/-- `parse_rfc5322_with_limits`. -/
def parseRfc5322WithLimits (crates : Crates) (bytes : Bytes) (limits : MimeLimits) :
    Except Error ParsedMessage := do
  let parsed ← parseStructure crates bytes limits
  let headers := parsed.data.headers
  let (selection, state) ← walkPart crates parsed 0 [] false (.new limits)
  let textBody := (selection.text.or selection.textFallback).getD []
  let firstValue (name : String) : Str := (getFirstValue headers name).getD []
  -- The threading fields stay raw: encoded words in them are not decoded.
  let messageId ← firstRawStructuredHeader headers "Message-ID"
  let references ← firstRawStructuredHeader headers "References"
  let inReplyTo ← firstRawStructuredHeader headers "In-Reply-To"
  return {
    headers := headers.foldl (fun map h => mapInsert map h.key h.value) []
    subject := firstValue "Subject"
    «from» := firstValue "From"
    «to» := firstValue "To"
    cc := firstValue "Cc"
    replyTo := firstValue "Reply-To"
    messageId, references, inReplyTo, textBody
    htmlBody := selection.html
    htmlCidPartScopes := selection.htmlCidPartScopes
    safeBody := safeBodyOf crates textBody selection.html
    decodeWarnings := state.decodeWarnings
    attachments := state.attachments
    mimeTree := state.tree
    classification := state.classification }

/-- `parse_rfc5322`. -/
def parseRfc5322 (crates : Crates) (bytes : Bytes) : Except Error ParsedMessage :=
  parseRfc5322WithLimits crates bytes .default

/-! ## Extraction -/

/-- `extract_selected_attachments_detailed_with_limits`. -/
def extractSelectedAttachmentsDetailedWithLimits (crates : Crates) (bytes : Bytes)
    (selected : Option (List Nat)) (limits : MimeLimits) :
    Except Error AttachmentExtractionReport := do
  let parsed ← parseStructure crates bytes limits
  let collected ← collectAttachmentData crates parsed limits false selected .new
  return collected.report

/-- `extract_attachments_detailed_with_limits`. -/
def extractAttachmentsDetailedWithLimits (crates : Crates) (bytes : Bytes) (limits : MimeLimits) :
    Except Error AttachmentExtractionReport :=
  extractSelectedAttachmentsDetailedWithLimits crates bytes none limits

/-- `extract_attachment_parts_detailed_with_limits`. -/
def extractAttachmentPartsDetailedWithLimits (crates : Crates) (bytes : Bytes)
    (partIndexes : List Nat) (limits : MimeLimits) : Except Error AttachmentExtractionReport :=
  extractSelectedAttachmentsDetailedWithLimits crates bytes (some partIndexes) limits

/-- `extract_attachments_with_limits`: any part that does not decode is an error. -/
def extractAttachmentsWithLimits (crates : Crates) (bytes : Bytes) (limits : MimeLimits) :
    Except Error (List ExtractedAttachment) := do
  let report ← extractAttachmentsDetailedWithLimits crates bytes limits
  match report.failures with
  | [] => return report.attachments
  | failure :: _ => .error (.msg failure.error)

/-! ## What a parse has gone through -/

/-- A tree is built only of a message within the size limit that has passed the check of its
structure. -/
theorem parseStructure_eq_ok {crates : Crates} {bytes : Bytes} {limits : MimeLimits}
    {parsed : ParsedMail} (h : parseStructure crates bytes limits = .ok parsed) :
    bytes.length ≤ limits.maxMessageBytes ∧
      preflightMimeStructure crates bytes limits = .ok () ∧
      crates.parseMail bytes = .ok parsed := by
  unfold parseStructure at h
  obtain ⟨⟨⟩, hsize, h⟩ := bind_eq_ok.mp h
  obtain ⟨⟨⟩, hstructure, h⟩ := bind_eq_ok.mp h
  refine ⟨?_, hstructure, ?_⟩
  · unfold ensureMessageSize at hsize
    split at hsize
    · assumption
    · exact absurd hsize (by simp)
  · cases hmail : crates.parseMail bytes with
    | error e => rw [hmail] at h; exact absurd h (by simp)
    | ok mail =>
      rw [hmail] at h
      rw [pure_eq_ok.mp h]

/-- A message that parses has had its tree walked. -/
theorem parseRfc5322WithLimits_eq_ok {crates : Crates} {bytes : Bytes} {limits : MimeLimits}
    {message : ParsedMessage} (h : parseRfc5322WithLimits crates bytes limits = .ok message) :
    ∃ parsed selection state, parseStructure crates bytes limits = .ok parsed ∧
      walkPart crates parsed 0 [] false (.new limits) = .ok (selection, state) ∧
      message.htmlBody = selection.html ∧
      message.htmlCidPartScopes = selection.htmlCidPartScopes ∧
      message.attachments = state.attachments := by
  unfold parseRfc5322WithLimits at h
  obtain ⟨parsed, hparsed, h⟩ := bind_eq_ok.mp h
  obtain ⟨⟨selection, state⟩, hwalk, h⟩ := bind_eq_ok.mp h
  obtain ⟨messageId, _, h⟩ := bind_eq_ok.mp h
  obtain ⟨references, _, h⟩ := bind_eq_ok.mp h
  obtain ⟨inReplyTo, _, h⟩ := bind_eq_ok.mp h
  cases pure_eq_ok.mp h
  exact ⟨parsed, selection, state, hparsed, hwalk, rfl, rfl, rfl⟩

end Notm.Mail
