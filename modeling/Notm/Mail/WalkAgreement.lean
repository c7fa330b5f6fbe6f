import Notm.Mail.ReferenceCrates
import Notm.Mail.WalkLeaf

/-!
# The metadata walk and the data walk agree

`walk_part` lower-cases a media type by the Unicode tables and `collect_attachment_data` by
ASCII. On the types that `mailparse` stores, which are lower case already, the two name the same
type at every part, classify it the same way and give it the same index.

* `Enumerates` — the two results list the same attachments under the same indexes.
* `WalksAgree` — the states of the two walks after the same parts.
* `collectLeaf_agrees` — the step at a leaf.
* `walkPart_agrees`, `walkSubparts_agrees` — the mutual induction over the tree.
* `collectAttachmentData_enumerates` — the two walks over a whole message.
-/

namespace Notm.Mail

open Rust

/-! ## The trees of `mailparse` -/

mutual

/-- A property of the data of every part of a tree. -/
def ParsedMail.Forall (p : PartData → Prop) : ParsedMail → Prop
  | .node data subparts => p data ∧ ParsedMail.ForallSubparts p subparts

/-- A property of the data of every part of several trees. -/
def ParsedMail.ForallSubparts (p : PartData → Prop) : List ParsedMail → Prop
  | [] => True
  | subpart :: rest => subpart.Forall p ∧ ParsedMail.ForallSubparts p rest

end

/-- `mailparse` stores media types in lower case: neither conversion changes one. -/
structure MimetypeLowered (crates : Crates) (part : PartData) : Prop where
  unicode : crates.toLowercase part.ctype.mimetype = part.ctype.mimetype
  ascii : toAsciiLowercase part.ctype.mimetype = part.ctype.mimetype

theorem MimetypeLowered.eq {crates : Crates} {part : PartData}
    (h : MimetypeLowered crates part) :
    toAsciiLowercase part.ctype.mimetype = crates.toLowercase part.ctype.mimetype :=
  h.ascii.trans h.unicode.symm

/-! ## Agreement -/

/-- The metadata of an attachment and its extracted data are of the same part. -/
structure SameAttachment (attachment : Attachment) (extracted : ExtractedAttachment) : Prop where
  partIndex : attachment.partIndex = extracted.partIndex
  filename : attachment.filename = some extracted.filename
  contentType : attachment.contentType = extracted.contentType
  contentId : attachment.contentId = extracted.contentId
  size : attachment.size = extracted.bytes.length
  decodeWarnings : attachment.decodeWarnings = extracted.decodeWarnings

/-- The metadata of an attachment that does not decode and its failure are of the same part. -/
structure SameFailure (attachment : Attachment) (failure : AttachmentDecodeFailure) : Prop where
  partIndex : attachment.partIndex = failure.partIndex
  filename : attachment.filename = some failure.filename
  contentType : attachment.contentType = failure.contentType
  error : ∃ err, attachment.decodeError = some err ∧
    failure.error = lit "decoding " ++
      partDescription attachment.contentType attachment.filename true ++ lit ": " ++ err

/-- The attachments of the metadata walk are those of the report: the ones without a decode
error are the extracted ones, the others its failures, each in order, and their indexes count
from 0. -/
structure Enumerates (attachments : List Attachment) (report : AttachmentExtractionReport) :
    Prop where
  partIndexes : attachments.map (·.partIndex) = List.range attachments.length
  extracted : List.Forall₂ SameAttachment (attachments.filter (·.decodeError.isNone))
    report.attachments
  failed : List.Forall₂ SameFailure (attachments.filter (·.decodeError.isSome)) report.failures

/-- The states of the two walks after the same parts. -/
structure WalksAgree (state : ParseState) (collected : CollectState) : Prop where
  enumerates : Enumerates state.attachments collected.report
  nextAttachmentIndex : state.nextAttachmentIndex = state.attachments.length
  nextPartIndex : collected.nextPartIndex = state.nextAttachmentIndex
  totalDecodedBytes : collected.totalDecodedBytes ≤ state.totalDecodedBytes

theorem walksAgree_new (limits : MimeLimits) : WalksAgree (.new limits) .new :=
  ⟨⟨rfl, .nil, .nil⟩, rfl, rfl, Nat.le_refl _⟩

variable {crates : Crates} {part : PartData}

/-- Appending one more part that decodes. -/
theorem Enumerates.push_extracted {attachments : List Attachment}
    {report : AttachmentExtractionReport} {attachment : Attachment}
    {extracted : ExtractedAttachment} (h : Enumerates attachments report)
    (hindex : attachment.partIndex = attachments.length) (hnone : attachment.decodeError = none)
    (hsame : SameAttachment attachment extracted) :
    Enumerates (attachments ++ [attachment])
      { report with attachments := report.attachments ++ [extracted] } where
  partIndexes := by
    rw [List.map_append, h.partIndexes, List.length_append, List.length_singleton,
      List.range_succ, List.map_singleton, hindex]
  extracted := by
    rw [List.filter_append, List.filter_singleton, hnone]
    exact List.rel_append h.extracted (.cons hsame .nil)
  failed := by
    rw [List.filter_append, List.filter_singleton, hnone]
    simpa using h.failed

/-- Appending one more part that does not decode. -/
theorem Enumerates.push_failed {attachments : List Attachment}
    {report : AttachmentExtractionReport} {attachment : Attachment}
    {failure : AttachmentDecodeFailure} (h : Enumerates attachments report)
    (hindex : attachment.partIndex = attachments.length)
    (hsame : SameFailure attachment failure) :
    Enumerates (attachments ++ [attachment])
      { report with failures := report.failures ++ [failure] } where
  partIndexes := by
    rw [List.map_append, h.partIndexes, List.length_append, List.length_singleton,
      List.range_succ, List.map_singleton, hindex]
  extracted := by
    obtain ⟨err, herr, _⟩ := hsame.error
    rw [List.filter_append, List.filter_singleton, herr]
    simpa using h.extracted
  failed := by
    obtain ⟨err, herr, _⟩ := hsame.error
    rw [List.filter_append, List.filter_singleton, herr]
    exact List.rel_append h.failed (.cons hsame .nil)

theorem some_getD_or {α : Type} (o : Option α) (a : α) : o.or (some a) = some (o.getD a) := by
  cases o <;> rfl

/-- Both walks make an entry for the same attachment. -/
theorem collectAttachment_agrees {limits : MimeLimits} {mimetype : Str} {filename : Option Str}
    {state state' : ParseState} {collected : CollectState} (hlimits : state.limits = limits)
    (hagree : WalksAgree state collected)
    (h : walkAttachment crates part mimetype filename state = .ok state') :
    ∃ collected', collectAttachment crates part limits mimetype filename collected.nextPartIndex
        { collected with nextPartIndex := collected.nextPartIndex + 1 } = .ok collected' ∧
      WalksAgree state' collected' ∧ state'.limits = limits := by
  obtain ⟨hattachments, hnext, hlimits', htotal, hfit, hdecoded⟩ := walkAttachment_eq_ok h
  rw [ensureDecodeMayFit_eq_ok, hlimits] at hfit
  rw [hlimits] at hdecoded
  have hsum := hagree.totalDecodedBytes
  have hindex : collected.nextPartIndex = state.attachments.length :=
    hagree.nextPartIndex.trans hagree.nextAttachmentIndex
  unfold attachmentEntry at hattachments
  unfold decodedSize at htotal
  simp only [some_getD_or, hagree.nextAttachmentIndex] at hattachments
  -- Decoding is the same call in both walks, with the same bytes or the same error.
  cases hdecode : decodePartBytes crates part with
  | ok decoded =>
    obtain ⟨hpart, hbound⟩ := hdecoded decoded hdecode
    rw [hdecode] at hattachments htotal
    simp only at hattachments htotal
    refine ⟨_, collectAttachment_of_decoded hdecode hfit hpart
      (show collected.totalDecodedBytes + _ ≤ _ by omega), ⟨?_, ?_, ?_, ?_⟩,
      hlimits'.trans hlimits⟩
    · rw [hattachments]
      exact hagree.enumerates.push_extracted rfl rfl ⟨hindex.symm, rfl, rfl, rfl, rfl, rfl⟩
    · rw [hnext, hattachments, List.length_append, hagree.nextAttachmentIndex]
      rfl
    · rw [hnext, hagree.nextPartIndex]
    · show collected.totalDecodedBytes + _ ≤ _
      omega
  | error err =>
    rw [hdecode] at hattachments htotal
    simp only at hattachments htotal
    refine ⟨_, collectAttachment_of_failed hdecode hfit, ⟨?_, ?_, ?_, ?_⟩,
      hlimits'.trans hlimits⟩
    · rw [hattachments]
      exact hagree.enumerates.push_failed rfl ⟨hindex.symm, rfl, rfl, _, rfl, rfl⟩
    · rw [hnext, hattachments, List.length_append, hagree.nextAttachmentIndex]
      rfl
    · rw [hnext, hagree.nextPartIndex]
    · show collected.totalDecodedBytes ≤ _
      omega

/-- The step at a leaf: the two walks classify it alike. -/
theorem collectLeaf_agrees {limits : MimeLimits} {namedBodyAllowed : Bool}
    {state state' : ParseState} {collected : CollectState} {selection : BodySelection}
    (hlowered : MimetypeLowered crates part) (hlimits : state.limits = limits)
    (hagree : WalksAgree state collected)
    (h : walkLeaf crates part (crates.toLowercase part.ctype.mimetype) (partFilename part)
      (partIsExplicitAttachment part (partFilename part) namedBodyAllowed) state =
        .ok (selection, state')) :
    ∃ collected', collectLeaf crates part limits namedBodyAllowed none collected =
        .ok collected' ∧
      WalksAgree state' collected' ∧ state'.limits = limits := by
  unfold collectLeaf
  simp only [hlowered.eq, Option.any_none, Bool.false_eq_true, if_false]
  rcases walkLeaf_cases h with ⟨hlike, _, hwalk⟩ |
    ⟨hlike, _, hattachments, hnext, hlimits', htotal⟩
  · rw [if_pos hlike]
    exact collectAttachment_agrees hlimits hagree hwalk
  · rw [if_neg (by rw [hlike]; exact Bool.false_ne_true)]
    refine ⟨collected, rfl, ⟨?_, ?_, ?_, ?_⟩, hlimits'.trans hlimits⟩
    · rw [hattachments]
      exact hagree.enumerates
    · rw [hnext, hattachments, hagree.nextAttachmentIndex]
    · rw [hnext, hagree.nextPartIndex]
    · exact Nat.le_trans hagree.totalDecodedBytes htotal

mutual

/-- The run over a part: a metadata walk that returns is followed by the data walk. -/
theorem walkPart_agrees {limits : MimeLimits} (part : ParsedMail)
    (hlowered : part.Forall (MimetypeLowered crates)) {depth : Nat} {path : List Nat}
    {namedBodyAllowed : Bool} {state state' : ParseState} {collected : CollectState}
    {selection : BodySelection} (hlimits : state.limits = limits)
    (hagree : WalksAgree state collected)
    (h : walkPart crates part depth path namedBodyAllowed state = .ok (selection, state')) :
    ∃ collected', collectAttachmentData crates part limits namedBodyAllowed none collected =
        .ok collected' ∧
      WalksAgree state' collected' ∧ state'.limits = limits := by
  match part, hlowered with
  | .node data subparts, ⟨hdata, hsubparts⟩ =>
    rw [walkPart] at h
    rw [collectAttachmentData]
    have hentered : WalksAgree (state.enter crates data depth path) collected :=
      ⟨hagree.enumerates, hagree.nextAttachmentIndex, hagree.nextPartIndex,
        hagree.totalDecodedBytes⟩
    have hlimits' : (state.enter crates data depth path).limits = limits := hlimits
    split at h
    · next hnil =>
      rw [if_pos hnil]
      exact collectLeaf_agrees hdata hlimits' hentered h
    · next hcons =>
      rw [if_neg hcons]
      split at h
      · exact absurd h (by simp)
      · next selections ranges final hwalk =>
        cases h
        exact walkSubparts_agrees subparts hsubparts hdata hlimits' hentered hwalk

/-- The run over the subparts of one part. -/
theorem walkSubparts_agrees {limits : MimeLimits} {parent : PartData}
    {siblings : List ParsedMail} (subparts : List ParsedMail)
    (hlowered : ParsedMail.ForallSubparts (MimetypeLowered crates) subparts)
    (hparent : MimetypeLowered crates parent) {depth index : Nat} {path : List Nat}
    {namedBodyAllowed : Bool} {state state' : ParseState} {collected : CollectState}
    {selections : List BodySelection} {ranges : List AttachmentRange}
    (hlimits : state.limits = limits) (hagree : WalksAgree state collected)
    (h : walkSubparts crates parent siblings (crates.toLowercase parent.ctype.mimetype)
      namedBodyAllowed depth path subparts index state = .ok (selections, ranges, state')) :
    ∃ collected', collectSubparts crates parent siblings limits namedBodyAllowed none subparts
        index collected = .ok collected' ∧
      WalksAgree state' collected' ∧ state'.limits = limits := by
  match subparts, hlowered with
  | [], _ =>
    rw [walkSubparts] at h
    cases h
    exact ⟨collected, by rw [collectSubparts], hagree, hlimits⟩
  | subpart :: rest, ⟨hsubpart, hrest⟩ =>
    rw [walkSubparts] at h
    rw [collectSubparts]
    simp only [hparent.eq] at h ⊢
    split at h
    · exact absurd h (by simp)
    · next first after hfirst =>
      split at h
      · exact absurd h (by simp)
      · next others otherRanges final hothers =>
        cases h
        obtain ⟨mid, hmid, hmidAgree, hmidLimits⟩ :=
          walkPart_agrees subpart hsubpart hlimits hagree hfirst
        rw [hmid]
        exact walkSubparts_agrees rest hrest hparent hmidLimits hmidAgree hothers

end

/-- **The two walks enumerate the same attachments.** When the metadata walk of a message returns,
the data walk returns too, and the two enumerate the same attachments: under the indexes 0 to n - 1
in depth-first order, with the same filename, content type and content id, the metadata size being
that of the collected bytes, and a decode error in one exactly where decoding fails in the other. -/
theorem collectAttachmentData_enumerates {part : ParsedMail}
    (hlowered : part.Forall (MimetypeLowered crates)) {limits : MimeLimits} {depth : Nat}
    {path : List Nat} {namedBodyAllowed : Bool} {selection : BodySelection} {state : ParseState}
    (h : walkPart crates part depth path namedBodyAllowed (.new limits) =
      .ok (selection, state)) :
    ∃ collected, collectAttachmentData crates part limits namedBodyAllowed none .new =
        .ok collected ∧
      Enumerates state.attachments collected.report ∧
      collected.nextPartIndex = state.attachments.length ∧
      state.attachments.length =
        collected.report.attachments.length + collected.report.failures.length := by
  obtain ⟨collected, hcollect, hagree, _⟩ :=
    walkPart_agrees part hlowered rfl (walksAgree_new limits) h
  refine ⟨collected, hcollect, hagree.enumerates,
    hagree.nextPartIndex.trans hagree.nextAttachmentIndex, ?_⟩
  rw [← hagree.enumerates.extracted.length_eq, ← hagree.enumerates.failed.length_eq]
  -- Every index is that of an attachment that decodes or of one that does not.
  have hsplit := List.length_eq_length_filter_add (l := state.attachments)
    (fun attachment => attachment.decodeError.isNone)
  simpa using hsplit

/-- An attached part of one byte. -/
def attachedPart (filename : String) (headers : List MailHeader) : ParsedMail :=
  .node
    { headers
      ctype := ⟨"application/pdf".toList, "us-ascii".toList, []⟩
      contentDisposition := ⟨.attachment, [("filename".toList, filename.toList)]⟩
      bodyEncoded := .sevenBit [0x41]
      bodyRaw := .ok [0x41]
      body := .ok ['A'] } []

/-- A message with an attachment that decodes and one in an unknown transfer encoding. -/
def twoAttachments : ParsedMail :=
  .node
    { headers := []
      ctype := ⟨"multipart/mixed".toList, "us-ascii".toList, []⟩
      contentDisposition := .default
      bodyEncoded := .sevenBit []
      bodyRaw := .ok []
      body := .ok [] }
    [attachedPart "a.pdf" [],
      attachedPart "b.pdf" [⟨"Content-Transfer-Encoding".toList, "x".toList, [0x78]⟩]]

theorem collectAttachmentData_enumerates_twoAttachments :
    ∃ selection state collected,
      walkPart Reference.crates twoAttachments 0 [] false (.new .default) =
        .ok (selection, state) ∧
      collectAttachmentData Reference.crates twoAttachments .default false none .new =
        .ok collected ∧
      Enumerates state.attachments collected.report := by
  have hlowered : twoAttachments.Forall (MimetypeLowered Reference.crates) :=
    ⟨⟨by decide +kernel, by decide +kernel⟩,
      ⟨⟨by decide +kernel, by decide +kernel⟩, trivial⟩,
      ⟨⟨by decide +kernel, by decide +kernel⟩, trivial⟩, trivial⟩
  obtain ⟨⟨selection, state⟩, hwalk⟩ := exists_eq_ok
    (x := walkPart Reference.crates twoAttachments 0 [] false (.new .default)) (by decide +kernel)
  obtain ⟨collected, hcollect, henumerates, _⟩ := collectAttachmentData_enumerates hlowered hwalk
  exact ⟨selection, state, collected, hwalk, hcollect, henumerates⟩

end Notm.Mail
