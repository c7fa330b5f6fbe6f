import Notm.Mail.Address
import Notm.Mail.Message
import Notm.Mail.ReferenceCrates

/-!
# Replies

`build_reply`: the draft that answers a parsed message.

* `replyRecipients` — To and Cc of a reply, each deduplicated by itself.
* `RepliesToAll` — what a reply to all owes: each recipient once, none left out, no own address.
* `nodup_replyRecipients_iff` — a mailbox is there twice exactly when it is in both lists.
* `buildReply_repliesToAll_iff` — the recipients of the draft, and when they are as they should be.
-/

namespace Notm.Mail

open Rust

structure Identity where
  name : Option Str
  email : Str
deriving DecidableEq, Repr

def Identity.formatted (identity : Identity) : Str :=
  formatAddress { name := identity.name, email := identity.email }

/-- An attachment of a message that is being written. -/
structure AttachmentInput where
  filename : Str
  contentType : Str
  bytes : Bytes
  sourcePath : Option Str
deriving DecidableEq, Repr

/-- `ComposedMessage`, what a reply fills and rendering writes. The date and the boundary id are
generated with the message. -/
structure ComposedMessage where
  «from» : Str
  «to» : List Str
  cc : List Str
  bcc : List Str
  subject : Str
  body : Str
  htmlBody : Option Str
  textReplyQuote : Option Str
  htmlReplyQuote : Option Str
  attachments : List AttachmentInput
  inReplyTo : Option Str
  references : List Str
  messageId : Str
  renderDate : Str
  mimeBoundaryId : Str
deriving DecidableEq, Repr

/-- What is generated with a message: two `Uuid::new_v4` and `Utc::now`, as texts. -/
structure Generated where
  messageUuid : Str
  renderDate : Str
  mimeBoundaryId : Str
deriving DecidableEq, Repr

/-- The domain is that of the sender, if it has one. -/
def generateMessageId (generated : Generated) (domain : Option Str) : Str :=
  ['<'] ++ generated.messageUuid ++ ['@'] ++ domain.getD "notm.local".toList ++ ['>']

/-- What stands behind the last at sign. -/
def messageIdDomain (crates : Crates) (sender : Str) : Option Str :=
  (parseOne crates sender).bind fun address => (rsplitOnce address.email '@').map Prod.snd

/-- A message with new identifiers and nothing but the given fields. -/
def ComposedMessage.new (crates : Crates) (generated : Generated) («from» : Str) («to» : List Str)
    (subject body : Str) : ComposedMessage where
  «from» := «from»
  «to» := «to»
  cc := []
  bcc := []
  subject := subject
  body := body
  htmlBody := none
  textReplyQuote := none
  htmlReplyQuote := none
  attachments := []
  inReplyTo := none
  references := []
  messageId := generateMessageId generated (messageIdDomain crates «from»)
  renderDate := generated.renderDate
  mimeBoundaryId := generated.mimeBoundaryId

/-- A subject that begins with the prefix is given no second one. -/
def normalizeSubjectForReply (crates : Crates) (subject : Str) : Str :=
  let trimmed := trim subject
  if "re:".toList <+: crates.toLowercase trimmed then trimmed else "Re: ".toList ++ trimmed

/-! ## Quoting -/

/-- Every line is quoted, behind an empty line for the answer. -/
def quoteBody (body : Str) : Str :=
  ['\n', '\n'] ++ (lines body).flatMap fun line => ['>', ' '] ++ line ++ ['\n']

/-- The ampersand is first, so that the others are not escaped twice. -/
def escapeHtml (value : Str) : Str :=
  replace (replace (replace (replace (replace value '&' "&amp;".toList) '<' "&lt;".toList)
    '>' "&gt;".toList) '"' "&quot;".toList) '\x27' "&#39;".toList

/-- `sanitizeHtml` is `sanitize_html`, which rests on `ammonia`. -/
def htmlQuoteBody (sanitizeHtml : Str → Str) (original : ParsedMessage) (html : Str) : Str :=
  let date := trim ((original.headers.lookup "Date".toList).getD [])
  let sender := trim original.from
  let attribution :=
    if date ≠ [] ∨ sender ≠ [] then
      "<div class=\"notm-reply-attribution\">".toList ++ "On ".toList ++
        (if date ≠ [] then escapeHtml date else []) ++
        (if sender ≠ [] then (if date ≠ [] then ", ".toList else []) ++
          escapeHtml sender else []) ++
        " wrote:</div>".toList
    else []
  "<br><br>".toList ++ attribution ++
    ("<blockquote type=\"cite\" style=\"margin:0 0 0 .8em; border-left:2px solid #729fcf; " ++
      "padding-left:.8em;\">").toList ++
    sanitizeHtml html ++ "</blockquote>".toList

/-! ## The draft -/

inductive ReplyKind where
  | sender
  | all
deriving DecidableEq, Repr

/-- Whom the original asks to reply to. -/
def repliedTo (crates : Crates) (original : ParsedMessage) : List MailAddress :=
  if trim original.replyTo ≠ [] then parseAddressList crates original.replyTo
  else parseAddressList crates original.from

/-- The mailboxes for To and those for Cc. -/
def replyRecipients (crates : Crates) (original : ParsedMessage) (myEmails : List Str) :
    ReplyKind → List MailAddress × List MailAddress
  | .sender => (repliedTo crates original, [])
  | .all =>
    (excludeIdentities crates
        (dedupeAddresses crates
          (repliedTo crates original ++ parseAddressList crates original.to)) myEmails,
      excludeIdentities crates (dedupeAddresses crates (parseAddressList crates original.cc))
        myEmails)

/-- The body that the user sees has the quoted original only if it goes without HTML; otherwise both
quotes are kept apart from the body and are put behind it when the message is rendered. Without an
identifier the original is not referred to at all. -/
def buildReply (crates : Crates) (sanitizeHtml : Str → Str) (generated : Generated)
    (original : ParsedMessage) (identity : Identity) (myEmails : List Str) (kind : ReplyKind) :
    ComposedMessage :=
  let recipients := replyRecipients crates original myEmails kind
  let htmlReplyQuote := original.htmlBody.map (htmlQuoteBody sanitizeHtml original)
  let visibleBody := if htmlReplyQuote.isSome then [] else quoteBody original.safeBody
  let message := ComposedMessage.new crates generated identity.formatted
    (recipients.1.map formatAddress) (normalizeSubjectForReply crates original.subject) visibleBody
  let references := trim original.references
  { message with
    cc := recipients.2.map formatAddress
    textReplyQuote := htmlReplyQuote.map fun _ => quoteBody original.safeBody
    htmlReplyQuote := htmlReplyQuote
    inReplyTo := if original.messageId ≠ [] then some original.messageId else none
    references :=
      if original.messageId ≠ [] then
        (if references ≠ [] then [references] else []) ++ [original.messageId]
      else [] }

/-! ## The recipients of a reply to all -/

/-- **What a reply to all owes its recipients.** Two mailboxes are the same when their addresses
are, whatever the case of their letters and whatever the names beside them. -/
structure RepliesToAll (crates : Crates) (original : ParsedMessage) (myEmails : List Str)
    (recipients : List MailAddress × List MailAddress) : Prop where
  /-- No mailbox occurs twice. -/
  once : ((recipients.1 ++ recipients.2).map (MailAddress.key crates)).Nodup
  /-- An own address is in Cc, or in To, only where To has no other. -/
  ownLeftOut : ∀ own ∈ myEmails,
    crates.toLowercase own ∈ (recipients.1 ++ recipients.2).map (MailAddress.key crates) →
      excludeIdentities crates recipients.1 myEmails = []
  /-- Every other mailbox of the original is addressed. -/
  kept : ∀ address ∈
      repliedTo crates original ++ parseAddressList crates original.to ++
        parseAddressList crates original.cc,
    address.key crates ∉ myEmails.map crates.toLowercase →
      address.key crates ∈ (recipients.1 ++ recipients.2).map (MailAddress.key crates)

variable {crates : Crates} {sanitizeHtml : Str → Str} {generated : Generated}
  {original : ParsedMessage} {identity : Identity} {myEmails : List Str}

/-- To and Cc have the mailboxes that they are made from, the own ones apart. -/
theorem mem_keys_replyRecipients {key : Str} :
    (key ∈ (replyRecipients crates original myEmails .all).1.map (MailAddress.key crates) ↔
      key ∈ (repliedTo crates original ++ parseAddressList crates original.to).map
          (MailAddress.key crates) ∧
        key ∉ myEmails.map crates.toLowercase) ∧
    (key ∈ (replyRecipients crates original myEmails .all).2.map (MailAddress.key crates) ↔
      key ∈ (parseAddressList crates original.cc).map (MailAddress.key crates) ∧
        key ∉ myEmails.map crates.toLowercase) := by
  constructor
  · show key ∈ (excludeIdentities ..).map _ ↔ _
    rw [mem_keys_excludeIdentities, mem_keys_dedupeAddresses]
  · show key ∈ (excludeIdentities ..).map _ ↔ _
    rw [mem_keys_excludeIdentities, mem_keys_dedupeAddresses]

/-- To and Cc are each without repetition; a mailbox is there twice when it is in both. -/
theorem nodup_replyRecipients_iff :
    (((replyRecipients crates original myEmails .all).1 ++
        (replyRecipients crates original myEmails .all).2).map (MailAddress.key crates)).Nodup ↔
      ∀ key, key ∈ (repliedTo crates original ++ parseAddressList crates original.to).map
          (MailAddress.key crates) →
        key ∈ (parseAddressList crates original.cc).map (MailAddress.key crates) →
          key ∈ myEmails.map crates.toLowercase := by
  have hto : ((replyRecipients crates original myEmails .all).1.map
      (MailAddress.key crates)).Nodup := nodup_keys_excludeIdentities (nodup_keys_dedupeFrom _)
  have hcc : ((replyRecipients crates original myEmails .all).2.map
      (MailAddress.key crates)).Nodup := nodup_keys_excludeIdentities (nodup_keys_dedupeFrom _)
  rw [List.map_append, List.nodup_append']
  constructor
  · intro h key hinTo hinCc
    by_contra hown
    exact h.2.2 (mem_keys_replyRecipients.1.2 ⟨hinTo, hown⟩)
      (mem_keys_replyRecipients.2.2 ⟨hinCc, hown⟩)
  · intro h
    refine ⟨hto, hcc, fun key hinTo hinCc => ?_⟩
    obtain ⟨hsource, hown⟩ := mem_keys_replyRecipients.1.1 hinTo
    exact hown (h key hsource (mem_keys_replyRecipients.2.1 hinCc).1)

/-- **Replying to all.** The draft addresses each recipient once, exactly when no mailbox of another
is both among those replied to or in To, and in Cc: the two lists are deduplicated one by one. No
mailbox is lost, and no own one is kept, in any case; the condition is about the repetition alone.
-/
theorem buildReply_repliesToAll_iff :
    (buildReply crates sanitizeHtml generated original identity myEmails .all).to =
        (replyRecipients crates original myEmails .all).1.map formatAddress ∧
    (buildReply crates sanitizeHtml generated original identity myEmails .all).cc =
        (replyRecipients crates original myEmails .all).2.map formatAddress ∧
    (RepliesToAll crates original myEmails (replyRecipients crates original myEmails .all) ↔
      ∀ key, key ∈ (repliedTo crates original ++ parseAddressList crates original.to).map
          (MailAddress.key crates) →
        key ∈ (parseAddressList crates original.cc).map (MailAddress.key crates) →
          key ∈ myEmails.map crates.toLowercase) := by
  refine ⟨rfl, rfl, fun h => nodup_replyRecipients_iff.1 h.once, fun h => ?_⟩
  constructor
  case once => exact nodup_replyRecipients_iff.2 h
  case ownLeftOut =>
    intro own hown hmem
    rw [List.map_append, List.mem_append] at hmem
    have hmine : crates.toLowercase own ∈ myEmails.map crates.toLowercase :=
      List.mem_map_of_mem hown
    -- The own addresses are always left out, also where nobody is left then.
    rcases hmem with hinTo | hinCc
    · exact absurd hmine (mem_keys_replyRecipients.1.1 hinTo).2
    · exact absurd hmine (mem_keys_replyRecipients.2.1 hinCc).2
  case kept =>
    intro address hmem hown
    rw [List.map_append, List.mem_append]
    -- Nobody is lost: a mailbox of the original is in the list that it was put into.
    rcases List.mem_append.1 hmem with hsource | hcc
    · exact Or.inl (mem_keys_replyRecipients.1.2 ⟨List.mem_map_of_mem hsource, hown⟩)
    · exact Or.inr (mem_keys_replyRecipients.2.2 ⟨List.mem_map_of_mem hcc, hown⟩)

/-- Bob is in To and in Cc of a message of Alice. -/
def copiedTwice : Bytes :=
  Utf8.encode ("From: alice@example.test\r\nTo: bob@example.test\r\n"
    ++ "Cc: Bob@example.test\r\n\r\nx").toList

theorem reply_to_copiedTwice :
    ∃ original, parseRfc5322 Reference.crates copiedTwice = .ok original ∧
      (buildReply Reference.crates id ⟨[], [], []⟩ original ⟨none, "me@example.test".toList⟩
        ["me@example.test".toList] .all).to =
          ["alice@example.test".toList, "bob@example.test".toList] ∧
      (buildReply Reference.crates id ⟨[], [], []⟩ original ⟨none, "me@example.test".toList⟩
        ["me@example.test".toList] .all).cc = ["Bob@example.test".toList] ∧
      ¬ RepliesToAll Reference.crates original ["me@example.test".toList]
        (replyRecipients Reference.crates original ["me@example.test".toList] .all) := by
  obtain ⟨original, horiginal⟩ := exists_eq_ok (x := parseRfc5322 Reference.crates copiedTwice)
    (by decide +kernel)
  have hdraft : (parseRfc5322 Reference.crates copiedTwice).toOption.map (fun original =>
      replyRecipients Reference.crates original ["me@example.test".toList] .all) =
      some ([⟨none, "alice@example.test".toList⟩, ⟨none, "bob@example.test".toList⟩],
        [⟨none, "Bob@example.test".toList⟩]) := by
    decide +kernel
  rw [horiginal] at hdraft
  have hrecipients : replyRecipients Reference.crates original ["me@example.test".toList] .all =
      ([⟨none, "alice@example.test".toList⟩, ⟨none, "bob@example.test".toList⟩],
        [⟨none, "Bob@example.test".toList⟩]) := Option.some.inj hdraft
  refine ⟨original, horiginal, ?_, ?_, fun h => ?_⟩
  · show (replyRecipients Reference.crates original ["me@example.test".toList] .all).1.map
      formatAddress = _
    rw [hrecipients]
    decide +kernel
  · show (replyRecipients Reference.crates original ["me@example.test".toList] .all).2.map
      formatAddress = _
    rw [hrecipients]
    decide +kernel
  · have honce := h.once
    rw [hrecipients] at honce
    exact absurd honce (by decide +kernel)

end Notm.Mail
