import Notm.Mail.Mime

/-!
# What the walks do at a leaf

The inversion lemmas of `walk_part` and `collect_attachment_data` at a part without subparts, and
the relation between the two entries that an attachment leaves in the two results.

* `walkLeaf_cases` — `walk_part` enters one attachment, or it selects at most one body.
* `collectLeaf_cases` — `collect_attachment_data` makes at most one entry, for an attachment.
* `collectAttachment_of_decoded`, `collectAttachment_of_failed` — which of the two entries it is.
-/

namespace Notm.Mail

open Rust

variable {crates : Crates} {part : PartData}

/-! ## Limits -/

theorem reserveTotal_eq_ok {limits : MimeLimits} {description : Text} {total bytes sum : Nat} :
    reserveTotal limits description total bytes = .ok sum ↔
      bytes ≤ limits.maxDecodedPartBytes ∧ total + bytes ≤ limits.maxTotalDecodedBytes ∧
        sum = total + bytes := by
  unfold reserveTotal
  split
  · next h => simp only [reduceCtorEq, false_iff]; omega
  · split
    · next h => simp only [reduceCtorEq, false_iff]; omega
    · next hpart htotal =>
      rw [Except.ok.injEq]
      exact ⟨fun h => ⟨by omega, by omega, h.symm⟩, fun h => h.2.2.symm⟩

theorem reserveDecoded_eq_ok {state state' : ParseState} {description : Text} {bytes : Nat} :
    state.reserveDecoded description bytes = .ok state' ↔
      ∃ sum, reserveTotal state.limits description state.totalDecodedBytes bytes = .ok sum ∧
        state' = { state with totalDecodedBytes := sum } := by
  unfold ParseState.reserveDecoded
  cases reserveTotal state.limits description state.totalDecodedBytes bytes with
  | error e => simp [Except.map]
  | ok sum => simp [Except.map, eq_comm]

/-! ## The metadata walk -/

/-- The entry that `walk_part` makes for an attachment. -/
def attachmentEntry (crates : Crates) (part : PartData) (mimetype : Str) (filename : Option Str)
    (partIndex : Nat) : Attachment :=
  let filename := filename.or (some (fallbackAttachmentFilename part))
  let contentId := getFirstValue part.headers "Content-ID"
  match decodePartBytes crates part with
  | .ok decoded =>
    ⟨partIndex, filename, mimetype, decoded.bytes.length, contentId, decoded.warnings, none⟩
  | .error err => ⟨partIndex, filename, mimetype, 0, contentId, [], some err.displayChain⟩

@[simp] theorem attachmentEntry_partIndex (mimetype : Str) (filename : Option Str) (index : Nat) :
    (attachmentEntry crates part mimetype filename index).partIndex = index := by
  unfold attachmentEntry
  cases decodePartBytes crates part <;> rfl

/-- How many bytes an attachment adds to the decoded total. -/
def decodedSize (crates : Crates) (part : PartData) : Nat :=
  match decodePartBytes crates part with
  | .ok decoded => decoded.bytes.length
  | .error _ => 0

/-- The attachment arm gives out the next index, and enters one attachment under it. -/
theorem walkAttachment_eq_ok {mimetype : Str} {filename : Option Str} {state state' : ParseState}
    (h : walkAttachment crates part mimetype filename state = .ok state') :
    state'.attachments = state.attachments ++
        [attachmentEntry crates part mimetype filename state.nextAttachmentIndex] ∧
      state'.nextAttachmentIndex = state.nextAttachmentIndex + 1 ∧
      state'.limits = state.limits ∧
      state'.totalDecodedBytes = state.totalDecodedBytes + decodedSize crates part ∧
      ensureDecodeMayFit part
        (partDescription mimetype (filename.or (some (fallbackAttachmentFilename part))) true)
        state.limits.maxDecodedPartBytes = .ok () ∧
      ∀ decoded, decodePartBytes crates part = .ok decoded →
        decoded.bytes.length ≤ state.limits.maxDecodedPartBytes ∧
          state'.totalDecodedBytes ≤ state.limits.maxTotalDecodedBytes := by
  unfold walkAttachment at h
  simp only at h
  obtain ⟨⟨⟩, hfit, h⟩ := bind_eq_ok.mp h
  unfold attachmentEntry decodedSize
  cases hdecode : decodePartBytes crates part with
  | ok decoded =>
    rw [hdecode] at h
    obtain ⟨reserved, hreserve, h⟩ := bind_eq_ok.mp h
    obtain ⟨sum, hsum, rfl⟩ := reserveDecoded_eq_ok.mp hreserve
    obtain ⟨hpart, htotal, rfl⟩ := reserveTotal_eq_ok.mp hsum
    cases pure_eq_ok.mp h
    refine ⟨rfl, rfl, rfl, rfl, hfit, fun decoded' heq => ?_⟩
    cases heq
    exact ⟨hpart, htotal⟩
  | error err =>
    rw [hdecode] at h
    cases pure_eq_ok.mp h
    exact ⟨rfl, rfl, rfl, rfl, hfit, fun _ heq => absurd heq (by simp)⟩

/-- The text arm selects at most one body, and leaves the attachments as they are. -/
theorem walkBody_eq_ok {mimetype : Str} {filename : Option Str} {state state' : ParseState}
    {selection : BodySelection}
    (h : walkBody part mimetype filename state = .ok (selection, state')) :
    (selection = .default ∨ ∃ body, part.body = .ok body ∧ selection =
      bodySelectionOf mimetype body) ∧
      state'.attachments = state.attachments ∧
      state'.nextAttachmentIndex = state.nextAttachmentIndex ∧
      state'.limits = state.limits ∧
      state.totalDecodedBytes ≤ state'.totalDecodedBytes := by
  unfold walkBody at h
  simp only at h
  split at h
  · cases h
    exact ⟨.inl rfl, rfl, rfl, rfl, Nat.le_refl _⟩
  · obtain ⟨⟨⟩, _, h⟩ := bind_eq_ok.mp h
    split at h
    · next body hbody =>
      obtain ⟨reserved, hreserve, h⟩ := bind_eq_ok.mp h
      obtain ⟨sum, hsum, rfl⟩ := reserveDecoded_eq_ok.mp hreserve
      obtain ⟨_, _, rfl⟩ := reserveTotal_eq_ok.mp hsum
      cases pure_eq_ok.mp h
      exact ⟨.inr ⟨body, hbody, rfl⟩, rfl, rfl, rfl, Nat.le_add_right _ _⟩
    · cases pure_eq_ok.mp h
      exact ⟨.inl rfl, rfl, rfl, rfl, Nat.le_refl _⟩

/-- What `walk_part` does at a leaf: it enters one attachment, or it selects at most one body. -/
theorem walkLeaf_cases {mimetype : Str} {filename : Option Str} {explicitlyAttached : Bool}
    {state state' : ParseState} {selection : BodySelection}
    (h : walkLeaf crates part mimetype filename explicitlyAttached state =
      .ok (selection, state')) :
    (partIsAttachmentLike mimetype explicitlyAttached (cryptoPartKind part).isSome = true ∧
      selection = .default ∧ walkAttachment crates part mimetype filename state = .ok state') ∨
    (partIsAttachmentLike mimetype explicitlyAttached (cryptoPartKind part).isSome = false ∧
      (selection = .default ∨ ∃ body, part.body = .ok body ∧ selection =
        bodySelectionOf mimetype body) ∧
      state'.attachments = state.attachments ∧
      state'.nextAttachmentIndex = state.nextAttachmentIndex ∧
      state'.limits = state.limits ∧
      state.totalDecodedBytes ≤ state'.totalDecodedBytes) := by
  unfold walkLeaf at h
  simp only at h
  split at h
  · next hlike =>
    cases hwalk : walkAttachment crates part mimetype filename state with
    | error e => rw [hwalk] at h; exact absurd h (by simp [Except.map])
    | ok walked =>
      rw [hwalk] at h
      cases h
      exact .inl ⟨hlike, rfl, rfl⟩
  · next hlike =>
    have hlike := Bool.not_eq_true _ |>.mp hlike
    split at h
    · cases h
      exact .inr ⟨hlike, .inl rfl, rfl, rfl, rfl, Nat.le_refl _⟩
    · exact .inr ⟨hlike, walkBody_eq_ok h⟩

/-! ## The data walk -/

/-- The limits that a description is checked with do not depend on its text. -/
theorem ensureDecodeMayFit_eq_ok {description : Text} {limit : Nat} {u : Unit} :
    ensureDecodeMayFit part description limit = .ok u ↔
      ∀ encoding, transferEncoding part = .ok encoding →
        decodedUpperBound encoding (encodedBodyBytes part) ≤ limit := by
  unfold ensureDecodeMayFit
  cases transferEncoding part with
  | error e => simp
  | ok encoding =>
    simp only [Except.ok.injEq, forall_eq']
    split
    · next h => simp only [reduceCtorEq, false_iff]; omega
    · next h => exact iff_of_true rfl (by omega)

/-- The entry that `collect_attachment_data` makes for an attachment that decodes. -/
def extractedEntry (part : PartData) (mimetype : Str) (filename : Option Str) (partIndex : Nat)
    (decoded : DecodedPart) : ExtractedAttachment :=
  ⟨partIndex, filename.getD (fallbackAttachmentFilename part), mimetype,
    getFirstValue part.headers "Content-ID", decoded.bytes, decoded.warnings⟩

/-- The entry that `collect_attachment_data` makes for an attachment that does not decode. -/
def failureEntry (part : PartData) (mimetype : Str) (filename : Option Str) (partIndex : Nat)
    (err : Error) : AttachmentDecodeFailure :=
  ⟨partIndex, filename.getD (fallbackAttachmentFilename part), mimetype,
    (Error.context (lit "decoding " ++ partDescription mimetype
      (some (filename.getD (fallbackAttachmentFilename part))) true) err).displayChain⟩

/-- `collect_attachment_data` keeps an attachment that decodes within the limits. -/
theorem collectAttachment_of_decoded {limits : MimeLimits} {mimetype : Str}
    {filename : Option Str} {partIndex : Nat} {state : CollectState} {decoded : DecodedPart}
    (hdecode : decodePartBytes crates part = .ok decoded)
    (hfit : ∀ encoding, transferEncoding part = .ok encoding →
      decodedUpperBound encoding (encodedBodyBytes part) ≤ limits.maxDecodedPartBytes)
    (hpart : decoded.bytes.length ≤ limits.maxDecodedPartBytes)
    (htotal : state.totalDecodedBytes + decoded.bytes.length ≤ limits.maxTotalDecodedBytes) :
    collectAttachment crates part limits mimetype filename partIndex state =
      .ok { state with
        totalDecodedBytes := state.totalDecodedBytes + decoded.bytes.length
        report := { state.report with
          attachments := state.report.attachments ++
            [extractedEntry part mimetype filename partIndex decoded] } } := by
  unfold collectAttachment
  simp only
  rw [ensureDecodeMayFit_eq_ok (u := ()) |>.mpr hfit, hdecode]
  simp only [bind, Except.bind]
  rw [reserveTotal_eq_ok.mpr ⟨hpart, htotal, rfl⟩]
  rfl

/-- `collect_attachment_data` reports an attachment that does not decode. -/
theorem collectAttachment_of_failed {limits : MimeLimits} {mimetype : Str}
    {filename : Option Str} {partIndex : Nat} {state : CollectState} {err : Error}
    (hdecode : decodePartBytes crates part = .error err)
    (hfit : ∀ encoding, transferEncoding part = .ok encoding →
      decodedUpperBound encoding (encodedBodyBytes part) ≤ limits.maxDecodedPartBytes) :
    collectAttachment crates part limits mimetype filename partIndex state =
      .ok { state with
        report := { state.report with
          failures := state.report.failures ++
            [failureEntry part mimetype filename partIndex err] } } := by
  unfold collectAttachment
  simp only
  rw [ensureDecodeMayFit_eq_ok (u := ()) |>.mpr hfit, hdecode]
  rfl

/-- `collect_attachment_data` makes at most one entry for an attachment. -/
theorem collectAttachment_eq_ok {limits : MimeLimits} {mimetype : Str} {filename : Option Str}
    {partIndex : Nat} {state state' : CollectState}
    (h : collectAttachment crates part limits mimetype filename partIndex state = .ok state') :
    state'.report.attachments.length + state'.report.failures.length =
        state.report.attachments.length + state.report.failures.length + 1 ∧
      state'.nextPartIndex = state.nextPartIndex := by
  unfold collectAttachment at h
  simp only at h
  obtain ⟨⟨⟩, _, h⟩ := bind_eq_ok.mp h
  split at h
  · obtain ⟨total, _, h⟩ := bind_eq_ok.mp h
    cases pure_eq_ok.mp h
    refine ⟨?_, rfl⟩
    simp only [List.length_append, List.length_singleton]
    omega
  · cases pure_eq_ok.mp h
    refine ⟨?_, rfl⟩
    simp only [List.length_append, List.length_singleton]
    omega

/-- What `collect_attachment_data` does at a leaf: at most one entry, for an attachment. -/
theorem collectLeaf_cases {limits : MimeLimits} {namedBodyAllowed : Bool}
    {selected : Option (List Nat)} {state state' : CollectState}
    (h : collectLeaf crates part limits namedBodyAllowed selected state = .ok state') :
    (partIsAttachmentLike (toAsciiLowercase part.ctype.mimetype)
        (partIsExplicitAttachment part (partFilename part) namedBodyAllowed)
        (cryptoPartKind part).isSome = true ∧
      state'.report.attachments.length + state'.report.failures.length =
        state.report.attachments.length + state.report.failures.length + 1) ∨
    state'.report = state.report := by
  unfold collectLeaf at h
  simp only at h
  split at h
  · next hlike =>
    split at h
    · cases h
      exact .inr rfl
    · exact .inl ⟨hlike, (collectAttachment_eq_ok h).1⟩
  · cases h
    exact .inr rfl

end Notm.Mail
