import Notm.Mail.Message
import Notm.Mail.ReferenceCrates
import Notm.Mail.WalkLeaf

/-!
# Extracting some of the attachments

`extract_attachment_parts_detailed` walks the same tree as the full extraction and passes over the
attachments that were not asked for. It counts them all the same, so that an attachment has one
index in both.

* `Selects` — two extractions after the same parts, one of all attachments and one of some.
* `collectAttachment_selects` — the selected one makes the same entry, or none.
* `collectAttachmentData_selects` — so it goes through the whole tree, by mutual induction.
* `extractAttachmentParts_eq_select` — the selection of the full report.
-/

namespace Notm.Mail

open Rust

variable {crates : Crates} {part : PartData} {limits : MimeLimits} {selected : List Nat}

/-- The entries of the selected parts. -/
def AttachmentExtractionReport.select (report : AttachmentExtractionReport)
    (selected : List Nat) : AttachmentExtractionReport where
  attachments := report.attachments.filter fun attachment => selected.contains attachment.partIndex
  failures := report.failures.filter fun failure => selected.contains failure.partIndex

/-- The two extractions after the same parts: the selected one has decoded no more. -/
structure Selects (selected : List Nat) (full some : CollectState) : Prop where
  nextPartIndex : some.nextPartIndex = full.nextPartIndex
  totalDecodedBytes : some.totalDecodedBytes ≤ full.totalDecodedBytes
  report : some.report = full.report.select selected

theorem selects_new (selected : List Nat) : Selects selected .new .new :=
  ⟨rfl, Nat.le_refl _, rfl⟩

/-- An attachment that decodes is appended to both, or to the full report alone. -/
theorem select_push_extracted (report : AttachmentExtractionReport) (entry : ExtractedAttachment)
    (selected : List Nat) :
    AttachmentExtractionReport.select
        { report with attachments := report.attachments ++ [entry] } selected =
      if selected.contains entry.partIndex then
        { report.select selected with
          attachments := (report.select selected).attachments ++ [entry] }
      else report.select selected := by
  unfold AttachmentExtractionReport.select
  rw [List.filter_append, List.filter_singleton]
  cases selected.contains entry.partIndex with
  | true => rfl
  | false => simp

theorem select_push_failed (report : AttachmentExtractionReport)
    (entry : AttachmentDecodeFailure) (selected : List Nat) :
    AttachmentExtractionReport.select
        { report with failures := report.failures ++ [entry] } selected =
      if selected.contains entry.partIndex then
        { report.select selected with
          failures := (report.select selected).failures ++ [entry] }
      else report.select selected := by
  unfold AttachmentExtractionReport.select
  rw [List.filter_append, List.filter_singleton]
  cases selected.contains entry.partIndex with
  | true => rfl
  | false => simp

/-- What the full extraction does with an attachment, without the limits that it passes. -/
theorem collectAttachment_cases {mimetype : Str} {filename : Option Str} {partIndex : Nat}
    {state state' : CollectState}
    (h : collectAttachment crates part limits mimetype filename partIndex state = .ok state') :
    (∀ encoding, transferEncoding part = .ok encoding →
      decodedUpperBound encoding (encodedBodyBytes part) ≤ limits.maxDecodedPartBytes) ∧
    ((∃ decoded, decodePartBytes crates part = .ok decoded ∧
        decoded.bytes.length ≤ limits.maxDecodedPartBytes ∧
        state.totalDecodedBytes + decoded.bytes.length ≤ limits.maxTotalDecodedBytes ∧
        state' =
          { state with
            totalDecodedBytes := state.totalDecodedBytes + decoded.bytes.length
            report := { state.report with
              attachments := state.report.attachments ++
                [extractedEntry part mimetype filename partIndex decoded] } }) ∨
      ∃ err, decodePartBytes crates part = .error err ∧
        state' =
          { state with
            report := { state.report with
              failures := state.report.failures ++
                [failureEntry part mimetype filename partIndex err] } }) := by
  unfold collectAttachment at h
  simp only at h
  obtain ⟨⟨⟩, hfit, h⟩ := bind_eq_ok.mp h
  refine ⟨ensureDecodeMayFit_eq_ok.mp hfit, ?_⟩
  split at h
  · next decoded hdecoded =>
    obtain ⟨total, htotal, h⟩ := bind_eq_ok.mp h
    obtain ⟨hpart, hsum, rfl⟩ := reserveTotal_eq_ok.mp htotal
    cases pure_eq_ok.mp h
    exact .inl ⟨decoded, hdecoded, hpart, hsum, rfl⟩
  · next err herr =>
    cases pure_eq_ok.mp h
    exact .inr ⟨err, herr, rfl⟩

/-- The step at an attachment: the selected extraction makes the same entry, or none. -/
theorem collectAttachment_selects {mimetype : Str} {filename : Option Str}
    {full full' some : CollectState} (hselects : Selects selected full some)
    (h : collectAttachment crates part limits mimetype filename full.nextPartIndex
      { full with nextPartIndex := full.nextPartIndex + 1 } = .ok full') :
    ∃ some', (if selected.contains full.nextPartIndex then
        collectAttachment crates part limits mimetype filename some.nextPartIndex
          { some with nextPartIndex := some.nextPartIndex + 1 }
      else .ok { some with nextPartIndex := some.nextPartIndex + 1 }) = .ok some' ∧
      Selects selected full' some' := by
  obtain ⟨hnext, htotal, hreport⟩ := hselects
  obtain ⟨hfit, ⟨decoded, hdecoded, hpart, hsum, rfl⟩ | ⟨err, herr, rfl⟩⟩ :=
    collectAttachment_cases h
  · -- The attachment decodes. The selected extraction has decoded less so far, so that it fits
    -- there too.
    have hless : some.totalDecodedBytes + decoded.bytes.length ≤ limits.maxTotalDecodedBytes :=
      Nat.le_trans (Nat.add_le_add_right htotal _) hsum
    by_cases hmem : selected.contains full.nextPartIndex = true
    · rw [if_pos hmem]
      refine ⟨_, collectAttachment_of_decoded hdecoded hfit hpart hless, ?_, ?_, ?_⟩
      · show some.nextPartIndex + 1 = full.nextPartIndex + 1
        rw [hnext]
      · show some.totalDecodedBytes + _ ≤ full.totalDecodedBytes + _
        exact Nat.add_le_add_right htotal _
      · rw [select_push_extracted]
        show _ = if selected.contains full.nextPartIndex then _ else _
        rw [if_pos hmem, hnext, hreport]
    · rw [if_neg hmem]
      refine ⟨_, rfl, ?_, ?_, ?_⟩
      · show some.nextPartIndex + 1 = full.nextPartIndex + 1
        rw [hnext]
      · exact Nat.le_trans htotal (Nat.le_add_right _ _)
      · rw [select_push_extracted]
        show _ = if selected.contains full.nextPartIndex then _ else _
        rw [if_neg hmem, hreport]
  · -- It does not decode, which is no error of either extraction but an entry of the failures.
    by_cases hmem : selected.contains full.nextPartIndex = true
    · rw [if_pos hmem]
      refine ⟨_, collectAttachment_of_failed herr hfit, ?_, htotal, ?_⟩
      · show some.nextPartIndex + 1 = full.nextPartIndex + 1
        rw [hnext]
      · rw [select_push_failed]
        show _ = if selected.contains full.nextPartIndex then _ else _
        rw [if_pos hmem, hnext, hreport]
    · rw [if_neg hmem]
      refine ⟨_, rfl, ?_, htotal, ?_⟩
      · show some.nextPartIndex + 1 = full.nextPartIndex + 1
        rw [hnext]
      · rw [select_push_failed]
        show _ = if selected.contains full.nextPartIndex then _ else _
        rw [if_neg hmem, hreport]

/-- The step at a leaf: both extractions count it, or neither does. -/
theorem collectLeaf_selects {namedBodyAllowed : Bool} {full full' some : CollectState}
    (hselects : Selects selected full some)
    (h : collectLeaf crates part limits namedBodyAllowed none full = .ok full') :
    ∃ some', collectLeaf crates part limits namedBodyAllowed (.some selected) some =
        .ok some' ∧ Selects selected full' some' := by
  unfold collectLeaf at h ⊢
  dsimp only at h ⊢
  split at h
  · next hlike =>
    rw [if_pos hlike]
    simp only [Option.any_none, Bool.false_eq_true, if_false] at h
    obtain ⟨some', hsome, hselects'⟩ := collectAttachment_selects hselects h
    refine ⟨some', ?_, hselects'⟩
    rw [← hsome]
    by_cases hmem : full.nextPartIndex ∈ selected
    · simp [hselects.nextPartIndex, hmem]
    · simp [hselects.nextPartIndex, hmem]
  · next hlike =>
    rw [if_neg hlike]
    cases h
    exact ⟨some, rfl, hselects⟩

mutual

/-- The run over a part. -/
theorem collectAttachmentData_selects (part : ParsedMail) {namedBodyAllowed : Bool}
    {full full' some : CollectState} (hselects : Selects selected full some)
    (h : collectAttachmentData crates part limits namedBodyAllowed none full = .ok full') :
    ∃ some', collectAttachmentData crates part limits namedBodyAllowed (.some selected) some =
        .ok some' ∧ Selects selected full' some' := by
  match part with
  | .node data subparts =>
    rw [collectAttachmentData] at h ⊢
    split at h
    · next hnil =>
      rw [if_pos hnil]
      exact collectLeaf_selects hselects h
    · next hcons =>
      rw [if_neg hcons]
      exact collectSubparts_selects subparts hselects h

/-- The run over the subparts of one part. -/
theorem collectSubparts_selects {parent : PartData} {siblings : List ParsedMail}
    (subparts : List ParsedMail) {namedBodyAllowed : Bool} {index : Nat}
    {full full' some : CollectState} (hselects : Selects selected full some)
    (h : collectSubparts crates parent siblings limits namedBodyAllowed none subparts index
      full = .ok full') :
    ∃ some', collectSubparts crates parent siblings limits namedBodyAllowed (.some selected)
        subparts index some = .ok some' ∧ Selects selected full' some' := by
  match subparts with
  | [] =>
    rw [collectSubparts] at h ⊢
    cases h
    exact ⟨some, rfl, hselects⟩
  | subpart :: rest =>
    rw [collectSubparts] at h ⊢
    split at h
    · exact absurd h (by simp)
    · next after hafter =>
      obtain ⟨mid, hmid, hmidSelects⟩ := collectAttachmentData_selects subpart hselects hafter
      rw [hmid]
      exact collectSubparts_selects rest hmidSelects h

end

/-- **A selection is a selection of the full report.** When all attachments of a message can be
extracted, those of any selection can, and they are the entries of the full report that the
selection names, in order, failures included. The limits on the decoded bytes are met all the more
by fewer parts. -/
theorem extractAttachmentParts_eq_select {bytes : Bytes} {report : AttachmentExtractionReport}
    (h : extractAttachmentsDetailedWithLimits crates bytes limits = .ok report)
    (partIndexes : List Nat) :
    extractAttachmentPartsDetailedWithLimits crates bytes partIndexes limits =
      .ok (report.select partIndexes) := by
  unfold extractAttachmentsDetailedWithLimits extractSelectedAttachmentsDetailedWithLimits at h
  obtain ⟨parsed, hparsed, h⟩ := bind_eq_ok.mp h
  obtain ⟨collected, hcollected, h⟩ := bind_eq_ok.mp h
  cases pure_eq_ok.mp h
  obtain ⟨some, hsome, hselects⟩ :=
    collectAttachmentData_selects parsed (selects_new partIndexes) hcollected
  unfold extractAttachmentPartsDetailedWithLimits extractSelectedAttachmentsDetailedWithLimits
  refine bind_eq_ok.mpr ⟨parsed, hparsed, bind_eq_ok.mpr ⟨some, hsome, ?_⟩⟩
  rw [pure_eq_ok, hselects.report]

/-- A message with three attachments, the second in an attached multipart. -/
def nestedMessage : Bytes :=
  Utf8.encode ("Content-Type: multipart/mixed; boundary=x\r\n\r\n" ++
    "--x\r\nContent-Type: image/png\r\n\r\nA\r\n" ++
    "--x\r\nContent-Type: multipart/mixed; boundary=y\r\n\r\n" ++
    "--y\r\nContent-Type: image/gif\r\n\r\nB\r\n--y--\r\n" ++
    "--x\r\nContent-Type: application/pdf\r\n\r\nC\r\n--x--\r\n").toList

theorem extractAttachmentParts_nestedMessage :
    ∃ report, extractAttachmentsDetailedWithLimits Reference.crates nestedMessage .default =
        .ok report ∧
      report.attachments.map (fun attachment => (attachment.partIndex, attachment.bytes)) =
        [(0, [0x41]), (1, [0x42]), (2, [0x43])] ∧
      extractAttachmentPartsDetailedWithLimits Reference.crates nestedMessage [2, 1] .default =
        .ok (report.select [2, 1]) := by
  obtain ⟨report, hreport⟩ := exists_eq_ok
    (x := extractAttachmentsDetailedWithLimits Reference.crates nestedMessage .default)
    (by decide +kernel)
  have hbytes : (extractAttachmentsDetailedWithLimits Reference.crates nestedMessage
      .default).toOption.map
        (·.attachments.map fun attachment => (attachment.partIndex, attachment.bytes)) =
      some [(0, [0x41]), (1, [0x42]), (2, [0x43])] := by
    decide +kernel
  rw [hreport] at hbytes
  exact ⟨report, hreport, Option.some.inj hbytes, extractAttachmentParts_eq_select hreport _⟩

end Notm.Mail
