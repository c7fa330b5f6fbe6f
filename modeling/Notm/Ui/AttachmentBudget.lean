import Notm.Mail.Message
import Notm.Mail.WalkAgreement
import Notm.Ui.PreflightAgreement

/-!
# The loader's budget covers the attachments that are parsed

The leaf test of `preflight_mime_part` is coarser than that of `notm-mail`: every leaf that
becomes an attachment is attachment-like. On a tree that `mailparse` builds from the slices on
which the scanners agree, the walks therefore make at most as many attachments as the preflight
has charged.

* `loaderAttachmentLike_of_attachment` — a leaf that becomes an attachment is charged.
* `walkPart_length_le`, `collectAttachmentData_le` — the two walks, by the leaves that they enter.
* `preflightMimePart_charges` — the preflight charges every attachment-like leaf of the tree.
* `attachments_le_attachmentLikeCount` — the count covers what the walks make.
-/

namespace Notm.Ui

open Rust Mail

variable {crates : Crates}

/-! ## The tree that is parsed -/

/-- What `mailparse` reads of the headers of a part. -/
structure HeadersOf (crates : Crates) (headers : List MailHeader) (inMultipartDigest : Bool)
    (data : PartData) : Prop where
  headers_eq : data.headers = headers
  ctype : data.ctype = loaderContentType crates headers inMultipartDigest
  contentDisposition : data.contentDisposition =
    ((getFirstValue headers "Content-Disposition").map crates.parseContentDisposition).getD
      .default

mutual

/-- `mailparse` builds the tree from the slice: its parts have the headers of the slices that
`notm-mail` descends into, with the default content type of their place. -/
def ParsedFrom (crates : Crates) (inMultipartDigest : Bool) (raw : Bytes) : ParsedMail → Prop
  | .node data subparts =>
    ∃ headers bodyStart, crates.parseHeaders raw = .ok (headers, bodyStart) ∧
      HeadersOf crates headers inMultipartDigest data ∧
      SubpartsParsedFrom crates (data.ctype.mimetype = "multipart/digest".toList)
        (childSlices crates raw headers bodyStart) subparts

/-- `mailparse` builds the subparts from the slices, one from each. -/
def SubpartsParsedFrom (crates : Crates) (inMultipartDigest : Bool) :
    List Bytes → List ParsedMail → Prop
  | slices, [] => slices = []
  | slices, subpart :: rest =>
    ∃ raw slices', slices = raw :: slices' ∧ ParsedFrom crates inMultipartDigest raw subpart ∧
      SubpartsParsedFrom crates inMultipartDigest slices' rest

end

/-- What the comparison of the classifiers asks of the other crates: content types come in lower
case, and a disposition is read as `attachment` from a value that says so. -/
structure HeaderValuesNormal (crates : Crates) : Prop extends ContentTypesNormal crates where
  unicodeLower : ∀ value, crates.toLowercase (crates.parseContentType value).mimetype =
    (crates.parseContentType value).mimetype
  attachment : ∀ value, (crates.parseContentDisposition value).disposition = .attachment →
    contains (toAsciiLowercase value) "attachment".toList = true

theorem HeaderValuesNormal.lowered (hnormal : HeaderValuesNormal crates)
    {headers : List MailHeader} {digest : Bool} {data : PartData}
    (hdata : HeadersOf crates headers digest data) : MimetypeLowered crates data := by
  have hctype : ∃ value, data.ctype = crates.parseContentType value := by
    rw [hdata.ctype, loaderContentType]
    split
    · exact ⟨_, rfl⟩
    · exact ⟨_, rfl⟩
  obtain ⟨value, hvalue⟩ := hctype
  exact ⟨by rw [hvalue, hnormal.unicodeLower], by rw [hvalue, hnormal.lower]⟩

/-! ## One leaf -/

/-- The media types that the leaf test of the loader takes for parts of a crypto protocol have a
crypto kind in `notm-mail`. -/
theorem cryptoPartKind_isSome {data : PartData}
    (hlower : toAsciiLowercase data.ctype.mimetype = data.ctype.mimetype)
    (h : data.ctype.mimetype ∈ cryptoRelatedTypes) : (cryptoPartKind data).isSome = true := by
  by_contra hnone
  rw [Bool.not_eq_true, Option.isSome_eq_false_iff, Option.isNone_iff_eq_none] at hnone
  unfold cryptoPartKind at hnone
  simp only [hlower] at hnone
  split_ifs at hnone with h1 h2 h3 h4 h5 h6 h7
  simp only [cryptoRelatedTypes, List.mem_cons, List.not_mem_nil, or_false] at h
  rcases h with h | h | h | h | h | h | h
  · exact h3 h
  · exact h4 h
  · exact h5 h
  · exact h6 (.inl h)
  · exact h6 (.inr h)
  · exact h7 (.inl h)
  · exact h7 (.inr h)

/-- A part with a file name has one for the loader too. -/
theorem filename_isSome_iff (contentType : ParsedContentType)
    (disposition : ParsedContentDisposition) :
    ((param contentType.params "name").or (param disposition.params "filename")).isSome =
      ((param disposition.params "filename").or (param contentType.params "name")).isSome := by
  rw [Option.isSome_or, Option.isSome_or, Bool.or_comm]

/-- Every leaf that becomes an attachment is attachment-like for the loader. -/
theorem loaderAttachmentLike_of_attachment (hnormal : HeaderValuesNormal crates)
    {headers : List MailHeader} {digest namedBodyAllowed : Bool} {data : PartData}
    (hdata : HeadersOf crates headers digest data)
    (h : partIsAttachmentLike data.ctype.mimetype
      (partIsExplicitAttachment data (partFilename data) namedBodyAllowed)
      (cryptoPartKind data).isSome = true) :
    loaderAttachmentLike crates data.headers data.ctype = true := by
  have hlower := (hnormal.lowered hdata).ascii
  have hdisposition := hdata.contentDisposition
  have hname := filename_isSome_iff data.ctype data.contentDisposition
  unfold loaderAttachmentLike
  rw [hdata.headers_eq]
  simp only
  rw [← hdisposition, hname]
  unfold partIsAttachmentLike at h
  simp only [Bool.or_eq_true, Bool.and_eq_true, decide_eq_true_eq, Bool.not_eq_true'] at h ⊢
  rcases h with (h | h) | ⟨hcrypto, htext⟩
  · refine .inl (.inl ?_)
    unfold partIsExplicitAttachment at h
    simp only [Bool.or_eq_true, Bool.and_eq_true, beq_iff_eq] at h
    rcases h with h | ⟨hname, _⟩
    · -- the disposition is `attachment`: its value says so
      refine .inr ?_
      rw [hdisposition] at h
      cases hvalue : getFirstValue headers "Content-Disposition" with
      | none => rw [hvalue] at h; exact absurd h (by simp [ParsedContentDisposition.default])
      | some value =>
        rw [hvalue, Option.map_some, Option.getD_some] at h
        rw [Option.any_some]
        exact hnormal.attachment value h
    · exact .inl hname
  · refine .inl (.inr ?_)
    rw [h]
    exact beq_self_eq_true _
  · refine .inr ⟨?_, htext⟩
    by_contra hcontains
    have hmem : data.ctype.mimetype ∈ cryptoRelatedTypes := by simpa using hcontains
    have := cryptoPartKind_isSome hlower hmem
    rw [hcrypto] at this
    exact absurd this (by simp)

/-! ## The tree -/

mutual

/-- The attachment-like leaves of a tree. -/
def chargedLeaves (crates : Crates) : ParsedMail → Nat
  | .node data subparts =>
    if subparts = [] then if loaderAttachmentLike crates data.headers data.ctype then 1 else 0
    else chargedLeavesOfSubparts crates subparts

/-- The attachment-like leaves of several trees. -/
def chargedLeavesOfSubparts (crates : Crates) : List ParsedMail → Nat
  | [] => 0
  | subpart :: rest => chargedLeaves crates subpart + chargedLeavesOfSubparts crates rest

end

mutual

/-- The metadata walk makes an attachment of attachment-like leaves only. -/
theorem walkPart_length_le (hnormal : HeaderValuesNormal crates) (part : ParsedMail)
    {digest : Bool} {raw : Bytes} (hparsed : ParsedFrom crates digest raw part) {depth : Nat}
    {path : List Nat} {namedBodyAllowed : Bool} {state state' : ParseState}
    {selection : BodySelection}
    (h : walkPart crates part depth path namedBodyAllowed state = .ok (selection, state')) :
    state'.attachments.length ≤ state.attachments.length + chargedLeaves crates part := by
  match part, hparsed with
  | .node data subparts, ⟨headers, bodyStart, _, hdata, hsubparts⟩ =>
    rw [walkPart] at h
    rw [chargedLeaves]
    split at h
    · next hnil =>
      rw [if_pos hnil]
      rcases walkLeaf_cases h with ⟨hlike, _, hwalk⟩ | ⟨_, _, hattachments, _⟩
      · rw [(hnormal.lowered hdata).unicode] at hlike
        rw [if_pos (loaderAttachmentLike_of_attachment hnormal hdata hlike),
          (walkAttachment_eq_ok hwalk).1, List.length_append]
        exact Nat.le_refl _
      · rw [hattachments]
        exact Nat.le_add_right _ _
    · next hcons =>
      rw [if_neg hcons]
      split at h
      · exact absurd h (by simp)
      · next selections ranges final hwalk =>
        cases h
        have hle := walkSubparts_length_le hnormal subparts hsubparts hwalk
        exact hle

/-- The metadata walk over the subparts of one part. -/
theorem walkSubparts_length_le (hnormal : HeaderValuesNormal crates) {parent : PartData}
    {siblings : List ParsedMail} {mimetype : Str} (subparts : List ParsedMail) {digest : Bool}
    {slices : List Bytes} (hparsed : SubpartsParsedFrom crates digest slices subparts)
    {depth index : Nat} {path : List Nat} {namedBodyAllowed : Bool} {state state' : ParseState}
    {selections : List BodySelection} {ranges : List AttachmentRange}
    (h : walkSubparts crates parent siblings mimetype namedBodyAllowed depth path subparts index
      state = .ok (selections, ranges, state')) :
    state'.attachments.length ≤
      state.attachments.length + chargedLeavesOfSubparts crates subparts := by
  match subparts, hparsed with
  | [], _ =>
    rw [walkSubparts] at h
    cases h
    exact Nat.le_add_right _ _
  | subpart :: rest, ⟨raw, slices', _, hsubpart, hrest⟩ =>
    rw [walkSubparts] at h
    rw [chargedLeavesOfSubparts]
    split at h
    · exact absurd h (by simp)
    · next first after hfirst =>
      split at h
      · exact absurd h (by simp)
      · next others otherRanges final hothers =>
        cases h
        have hle := walkPart_length_le hnormal subpart hsubpart hfirst
        have hle' := walkSubparts_length_le hnormal rest hrest hothers
        omega

end

mutual

/-- The data walk makes an entry of attachment-like leaves only. -/
theorem collectAttachmentData_le (hnormal : HeaderValuesNormal crates) (part : ParsedMail)
    {digest : Bool} {raw : Bytes} (hparsed : ParsedFrom crates digest raw part)
    {limits : MimeLimits} {namedBodyAllowed : Bool} {selected : Option (List Nat)}
    {state state' : CollectState}
    (h : collectAttachmentData crates part limits namedBodyAllowed selected state = .ok state') :
    state'.report.attachments.length + state'.report.failures.length ≤
      state.report.attachments.length + state.report.failures.length +
        chargedLeaves crates part := by
  match part, hparsed with
  | .node data subparts, ⟨headers, bodyStart, _, hdata, hsubparts⟩ =>
    rw [collectAttachmentData] at h
    rw [chargedLeaves]
    split at h
    · next hnil =>
      rw [if_pos hnil]
      rcases collectLeaf_cases h with ⟨hlike, hcount⟩ | hreport
      · rw [(hnormal.lowered hdata).ascii] at hlike
        rw [if_pos (loaderAttachmentLike_of_attachment hnormal hdata hlike)]
        omega
      · rw [hreport]
        exact Nat.le_add_right _ _
    · next hcons =>
      rw [if_neg hcons]
      exact collectSubparts_le hnormal subparts hsubparts h

/-- The data walk over the subparts of one part. -/
theorem collectSubparts_le (hnormal : HeaderValuesNormal crates) {parent : PartData}
    {siblings : List ParsedMail} (subparts : List ParsedMail) {digest : Bool}
    {slices : List Bytes} (hparsed : SubpartsParsedFrom crates digest slices subparts)
    {limits : MimeLimits} {namedBodyAllowed : Bool} {selected : Option (List Nat)} {index : Nat}
    {state state' : CollectState}
    (h : collectSubparts crates parent siblings limits namedBodyAllowed selected subparts index
      state = .ok state') :
    state'.report.attachments.length + state'.report.failures.length ≤
      state.report.attachments.length + state.report.failures.length +
        chargedLeavesOfSubparts crates subparts := by
  match subparts, hparsed with
  | [], _ =>
    rw [collectSubparts] at h
    cases h
    exact Nat.le_add_right _ _
  | subpart :: rest, ⟨raw, slices', _, hsubpart, hrest⟩ =>
    rw [collectSubparts] at h
    rw [chargedLeavesOfSubparts]
    split at h
    · exact absurd h (by simp)
    · next after hafter =>
      have hle := collectAttachmentData_le hnormal subpart hsubpart hafter
      have hle' := collectSubparts_le hnormal rest hrest h
      omega

end

/-! ## The preflight -/

mutual

/-- A run of the preflight charges every attachment-like leaf of the tree. -/
theorem preflightMimePart_charges (part : ParsedMail) {digest : Bool} {raw : Bytes}
    (hparsed : ParsedFrom crates digest raw part)
    (hagree : loaderDescent crates digest raw = mailDescent crates raw)
    {cancelled : Nat → Bool} {depth : Nat} {limits : MimePreflightLimits}
    {state state' : MimePreflightState}
    (h : preflightMimePart crates cancelled raw digest depth limits state = .ok state') :
    state'.attachmentLikeCount = state.attachmentLikeCount + chargedLeaves crates part := by
  match part, hparsed with
  | .node data subparts, ⟨headers, bodyStart, hheaders, hdata, hsubparts⟩ =>
    rw [preflightMimePart_eq] at h
    rw [chargedLeaves]
    obtain ⟨hchildren, hdescents⟩ := children_eq_of_descent_eq hagree
    simp only [loaderChildren, mailChildren, childrenInDigest, hheaders] at hchildren hdescents
    split at h
    · exact absurd h (by simp)
    · next entered henter =>
      rw [← (enterPart_eq_ok henter).2]
      rw [hheaders] at h
      simp only [hchildren] at h
      split at h
      · next hleaf =>
        have hnil : subparts = [] := by
          rw [hleaf] at hsubparts
          cases subparts with
          | nil => rfl
          | cons subpart rest =>
            obtain ⟨_, _, hne, _⟩ := hsubparts
            exact absurd hne (by simp)
        rw [if_pos hnil, hdata.headers_eq, hdata.ctype]
        exact (chargeLeaf_eq_ok h).2
      · next hslices =>
        have hcons : subparts ≠ [] := by
          rintro rfl
          exact hslices hsubparts
        rw [if_neg hcons]
        rw [hdata.ctype] at hsubparts
        exact preflightSubparts_charges subparts hsubparts hdescents h

/-- A run of the preflight over the slices of the subparts. -/
theorem preflightSubparts_charges (subparts : List ParsedMail) {digest : Bool}
    {slices : List Bytes} (hparsed : SubpartsParsedFrom crates digest slices subparts)
    (hagree : ∀ slice ∈ slices, loaderDescent crates digest slice = mailDescent crates slice)
    {cancelled : Nat → Bool} {depth : Nat} {limits : MimePreflightLimits}
    {state state' : MimePreflightState}
    (h : slices.foldlM (fun state slice => do
      let state ← poll cancelled state
      preflightMimePart crates cancelled slice digest depth limits state) state = .ok state') :
    state'.attachmentLikeCount =
      state.attachmentLikeCount + chargedLeavesOfSubparts crates subparts := by
  match subparts, hparsed with
  | [], hnil =>
    rw [show slices = [] from hnil] at h
    cases h
    rfl
  | subpart :: rest, ⟨raw, slices', hslices, hsubpart, hrest⟩ =>
    subst hslices
    rw [List.foldlM_cons] at h
    obtain ⟨after, hafter, h⟩ := bind_eq_ok.mp h
    obtain ⟨asked, hpoll, hafter⟩ := bind_eq_ok.mp hafter
    have hfirst := preflightMimePart_charges subpart hsubpart (hagree raw (by simp)) hafter
    have hothers := preflightSubparts_charges rest hrest
      (fun slice hslice => hagree slice (by simp [hslice])) h
    have hasked := (poll_eq_ok hpoll).2
    rw [chargedLeavesOfSubparts]
    omega

end

/-! ## What keeps a message from the parser -/

theorem exists_ok_of_foldlM_ok {ε α σ : Type} {run : σ → α → Except ε σ} {xs : List α}
    {s s' : σ} (h : xs.foldlM run s = .ok s') : ∀ x ∈ xs, ∃ t t', run t x = .ok t' := by
  induction xs generalizing s with
  | nil => simp
  | cons x xs ih =>
    rw [List.foldlM_cons] at h
    obtain ⟨mid, hmid, hrest⟩ := bind_eq_ok.mp h
    intro y hy
    rcases List.mem_cons.mp hy with rfl | hy
    · exact ⟨s, mid, hmid⟩
    · exact ih hrest y hy

theorem exists_error_of_foldlM_error {ε α σ : Type} {run : σ → α → Except ε σ} {xs : List α}
    {s : σ} {e : ε} (h : xs.foldlM run s = .error e) : ∃ x ∈ xs, ∃ t, run t x = .error e := by
  induction xs generalizing s with
  | nil => exact absurd h (by simp [pure, Except.pure])
  | cons x xs ih =>
    rw [List.foldlM_cons] at h
    cases hrun : run s x with
    | error e' =>
      rw [hrun] at h
      cases h
      exact ⟨x, by simp, s, hrun⟩
    | ok mid =>
      rw [hrun] at h
      obtain ⟨y, hy, t, ht⟩ := ih h
      exact ⟨y, by simp [hy], t, ht⟩

theorem poll_error {cancelled : Nat → Bool} {state state' : MimePreflightState}
    {failure : MimePreflightFailure} (h : poll cancelled state = .error (failure, state')) :
    failure = .cancelled := by
  unfold poll at h
  simp only at h
  split at h
  · cases h
    rfl
  · exact absurd h (by simp)

/-- On a message whose structure `notm-mail` accepts, the loader's preflight does not end with a
failure that it reports as a parse error. -/
theorem preflightMimePart_not_recoverable {mailLimits : MimeLimits}
    (hdepth : mailLimits.maxDepth ≤ maxMimeNestingDepth) {digest : Bool} (raw : Bytes)
    (hagree : loaderDescent crates digest raw = mailDescent crates raw)
    {depth parts n : Nat} (hmail : preflightPart crates raw depth mailLimits parts = .ok n)
    {cancelled : Nat → Bool} {limits : MimePreflightLimits} {state state' : MimePreflightState}
    {failure : MimePreflightFailure}
    (h : preflightMimePart crates cancelled raw digest depth limits state =
      .error (failure, state')) :
    failure.isRecoverableParseFailure = false := by
  rw [preflightPart_eq] at hmail
  rw [preflightMimePart_eq] at h
  split at hmail
  · exact absurd hmail (by simp)
  split at hmail
  · exact absurd hmail (by simp)
  next hdeep _ =>
  split at h
  · -- The depth and the number of parts are limits that `notm-mail` has not exceeded with its own.
    next failed hentered =>
    cases h
    unfold enterPart at hentered
    split at hentered
    · next failed hpoll =>
      cases hentered
      rw [poll_error hpoll]
      rfl
    · split at hentered
      · omega
      · simp only at hentered
        split at hentered
        · cases hentered
          rfl
        · exact absurd hentered (by simp)
  · cases hparse : crates.parseHeaders raw with
    | error e => rw [hparse] at hmail; exact absurd hmail (by simp)
    | ok r =>
      obtain ⟨headers, bodyStart⟩ := r
      obtain ⟨hchildren, hdescents⟩ := children_eq_of_descent_eq hagree
      simp only [loaderChildren, mailChildren, childrenInDigest, hparse] at hchildren hdescents
      rw [hparse] at hmail h
      simp only [hchildren] at h hmail
      split at h
      · unfold chargeLeaf at h
        split at h
        · simp only at h
          split at h
          · cases h
            rfl
          · exact absurd h (by simp)
        · exact absurd h (by simp)
      · -- The failure is that of a child, which `notm-mail` has gone through: by induction on the
        -- length.
        obtain ⟨child, hchild, before, hrun⟩ := exists_error_of_foldlM_error h
        cases hpoll : poll cancelled before with
        | error failed =>
          obtain ⟨failed, _⟩ := failed
          rw [hpoll] at hrun
          cases hrun
          rw [poll_error hpoll]
          rfl
        | ok asked =>
          rw [hpoll] at hrun
          obtain ⟨_, _, hok⟩ := exists_ok_of_foldlM_ok hmail child hchild
          have hlt := length_lt_of_mem_childSlices hchild
          exact preflightMimePart_not_recoverable hdepth child (hdescents child hchild) hok hrun
termination_by raw.length

/-- A message that the preflight accepts without a parse error has been charged leaf by leaf. -/
theorem preflightMime_charges {raw : Bytes} {mail : ParsedMail}
    (hparsed : ParsedFrom crates false raw mail)
    (hagree : loaderDescent crates false raw = mailDescent crates raw) {cancelled : Nat → Bool}
    {limits : MimePreflightLimits} {preflight : MimePreflight}
    (haccept : preflightMime crates cancelled raw limits = .ok preflight)
    (hreached : preflight.parseError = none ∨
      preflightMimeStructure crates raw .default = .ok ()) :
    preflight.attachmentLikeCount = chargedLeaves crates mail := by
  unfold preflightMime at haccept
  split at haccept
  · next state hrun =>
    cases haccept
    have hcharged := preflightMimePart_charges mail hparsed hagree hrun
    rw [hcharged]
    exact Nat.zero_add _
  · next failure state hrun =>
    split at haccept
    · next hrecoverable =>
      cases haccept
      rcases hreached with hnone | hstructure
      · exact absurd hnone (by simp)
      · unfold preflightMimeStructure at hstructure
        cases hmail : preflightPart crates raw 0 .default 0 with
        | error e => rw [hmail] at hstructure; exact absurd hstructure (by simp [Except.map])
        | ok n =>
          have hnot := preflightMimePart_not_recoverable (by decide) raw hagree hmail hrun
          rw [hnot] at hrecoverable
          exact absurd hrecoverable (by simp)
    · exact absurd haccept (by simp)

/-- **The budget covers the attachments.** What the walks make of a message that the loader's
preflight accepts is covered by the count it has charged. Either the preflight reports no parse
error, or the message has passed the structure check that both walks stand behind. That the two
preflights descend into the same slices is a hypothesis, since where the scanners differ the loader
may count fewer parts. -/
theorem attachments_le_attachmentLikeCount (hnormal : HeaderValuesNormal crates) {raw : Bytes}
    {mail : ParsedMail} (hparsed : ParsedFrom crates false raw mail)
    (hagree : loaderDescent crates false raw = mailDescent crates raw) {cancelled : Nat → Bool}
    {limits : MimePreflightLimits} {preflight : MimePreflight}
    (haccept : preflightMime crates cancelled raw limits = .ok preflight)
    (hreached : preflight.parseError = none ∨
      preflightMimeStructure crates raw .default = .ok ()) :
    (∀ walkLimits selection state,
      walkPart crates mail 0 [] false (.new walkLimits) = .ok (selection, state) →
        state.attachments.length ≤ preflight.attachmentLikeCount) ∧
    (∀ collectLimits selected collected,
      collectAttachmentData crates mail collectLimits false selected .new = .ok collected →
        collected.report.attachments.length + collected.report.failures.length ≤
          preflight.attachmentLikeCount) := by
  -- The count is that of the attachment-like leaves of the tree that `mailparse` builds.
  rw [preflightMime_charges hparsed hagree haccept hreached]
  constructor
  · intro walkLimits selection state h
    simpa [ParseState.new] using walkPart_length_le hnormal mail hparsed h
  · intro collectLimits selected collected h
    simpa [CollectState.new] using collectAttachmentData_le hnormal mail hparsed h

/-! ## A message -/

theorem headerValuesNormal_reference : HeaderValuesNormal Reference.crates where
  toContentTypesNormal := contentTypesNormal_reference
  unicodeLower _ := toAsciiLowercase_toAsciiLowercase _
  attachment value h := by
    have hname : Reference.firstField value = "attachment".toList := by
      by_contra hne
      have hother : (Reference.parseContentDisposition value).disposition =
          if Reference.firstField value = "inline".toList then .inline
          else if Reference.firstField value = "form-data".toList then .formData
          else .extension (Reference.firstField value) := if_neg hne
      have h : (Reference.parseContentDisposition value).disposition = .attachment := h
      rw [hother] at h
      split_ifs at h
    have hfield : trim (value.takeWhile (· ≠ ';')) <:+: value :=
      (infix_of_trim _).trans (List.takeWhile_prefix _).isInfix
    rw [contains, decide_eq_true_iff, ← hname]
    exact hfield.map asciiLower

/-- A message with a text and an attachment. -/
def oneAttachment : Bytes :=
  Utf8.encode ("Content-Type: multipart/mixed; boundary=x\r\n\r\n" ++
    "--x\r\n\r\nhello\r\n" ++
    "--x\r\nContent-Type: application/pdf\r\nContent-Disposition: attachment\r\n\r\nAAA\r\n" ++
    "--x--\r\n").toList

/-- The tree that `Reference.crates` builds is one that `mailparse` builds. -/
theorem parsedFrom_treeOf {fuel : Nat} {digest : Bool} {raw : Bytes} {mail : ParsedMail}
    (h : Reference.treeOf crates fuel digest raw = .ok mail) :
    ParsedFrom crates digest raw mail := by
  have hslices : ∀ {tree : Bytes → Except Str ParsedMail} {digest : Bool},
      (∀ {raw mail}, tree raw = .ok mail → ParsedFrom crates digest raw mail) →
      ∀ {slices : List Bytes} {subparts : List ParsedMail},
        Reference.allOk (slices.map tree) = .ok subparts →
        SubpartsParsedFrom crates digest slices subparts := by
    intro tree digest htree slices
    induction slices with
    | nil =>
      intro subparts h
      cases h
      rfl
    | cons raw slices ih =>
      intro subparts h
      cases hraw : tree raw with
      | error e => rw [List.map_cons, hraw] at h; exact absurd h (by simp [Reference.allOk])
      | ok mail =>
        rw [List.map_cons, hraw, Reference.allOk] at h
        cases hrest : Reference.allOk (slices.map tree) with
        | error e => rw [hrest] at h; exact absurd h (by simp [Except.map])
        | ok mails =>
          rw [hrest] at h
          cases h
          exact ⟨raw, slices, rfl, htree hraw, ih hrest⟩
  induction fuel generalizing digest raw mail with
  | zero => exact absurd h (by simp [Reference.treeOf])
  | succ fuel ih =>
    rw [Reference.treeOf] at h
    cases hparse : crates.parseHeaders raw with
    | error e => rw [hparse] at h; exact absurd h (by simp)
    | ok r =>
      obtain ⟨headers, bodyStart⟩ := r
      rw [hparse] at h
      obtain ⟨subparts, hall, rfl⟩ := map_eq_ok.mp h
      exact ⟨headers, bodyStart, hparse, ⟨rfl, rfl, rfl⟩, hslices ih hall⟩

theorem descent_eq_oneAttachment : loaderDescent Reference.crates false oneAttachment =
    mailDescent Reference.crates oneAttachment := by
  refine descent_eq_of_children_eq (by decide +kernel) fun child hchild => ?_
  have hleaf : ∀ child ∈ mailChildren Reference.crates oneAttachment,
      loaderChildren Reference.crates
          (childrenInDigest Reference.crates false oneAttachment) child = [] ∧
        mailChildren Reference.crates child = [] := by decide +kernel
  obtain ⟨hloader, hmail⟩ := hleaf child hchild
  refine descent_eq_of_children_eq (hloader.trans hmail.symm) fun inner hinner => ?_
  rw [hmail] at hinner
  exact absurd hinner (by simp)

theorem attachments_le_attachmentLikeCount_oneAttachment :
    ∃ mail preflight, Reference.treeOf Reference.crates 3 false oneAttachment = .ok mail ∧
      preflightMime Reference.crates (fun _ => false) oneAttachment ⟨10, 10⟩ = .ok preflight ∧
      ∀ walkLimits selection state,
        walkPart Reference.crates mail 0 [] false (.new walkLimits) = .ok (selection, state) →
          state.attachments.length ≤ preflight.attachmentLikeCount := by
  obtain ⟨mail, hmail⟩ := exists_eq_ok
    (x := Reference.treeOf Reference.crates 3 false oneAttachment) (by decide +kernel)
  have haccept : preflightMime Reference.crates (fun _ => false) oneAttachment ⟨10, 10⟩ =
      .ok ⟨1, 3, none⟩ := by decide +kernel
  exact ⟨mail, _, hmail, haccept, (attachments_le_attachmentLikeCount headerValuesNormal_reference
    (parsedFrom_treeOf hmail) descent_eq_oneAttachment haccept (.inl rfl)).1⟩

end Notm.Ui
