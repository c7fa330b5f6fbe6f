import Notm.Lib.BTreeMap
import Notm.Lib.BTreeSet
import Notm.Lib.Base64
import Notm.Lib.FirstIndex
import Notm.Ui.CidSources
import Notm.Ui.PreparedScopes

/-!
# Which parts become inline images

For every scope of the HTML body the thread loader goes over the candidates of the scope in their
order and gives each content identifier that the scope refers to the first candidate that fits. A
part fits if it has been selected before or the parts selected so far leave room for it.

Main results:

* `select_first_fitting`: each content identifier gets the first candidate that fits when its turn
  comes.
* `selectionOf_select`: what is selected for one scope, and what has been charged for it.
* `selectScopes_run`: the same over all scopes, which share one budget.
* `resolveInlineCidImages_resolves`: the function always returns, and what it writes comes from the
  selections.
* `cid_selection_confined`: an identifier has no part from outside its scope, and a reference gets
  what the selection around it offers.
-/

namespace Notm.Ui

open Rust Mail

/-! ## Selection -/

def inlineImageContentTypeIsSafe (contentType : Str) : Bool :=
  toAsciiLowercase (trim contentType) ∈ ["image/avif".toList, "image/gif".toList,
    "image/jpeg".toList, "image/png".toList, "image/webp".toList]

/-- `selected_part_indexes` and `selected_total_bytes`. -/
structure SelectedParts where
  partIndexes : BTreeSet Nat
  totalBytes : Nat

/-- `max_inline_image_bytes` and `max_total_inline_image_bytes`; the second is a `usize`. -/
structure InlineImageLimits where
  imageBytes : Nat
  totalBytes : Nat
  bounded : totalBytes ≤ u64Max

/-- The content identifier for which an attachment may be selected, if there is one. -/
def candidateContentId (referenced : BTreeSet Str) (limits : InlineImageLimits)
    (attachment : Attachment) : Option Str :=
  match attachment.contentId.map loaderNormalizeContentId with
  | none => none
  | some contentId =>
    if contentId = [] ∨ attachment.decodeError.isSome = true ∨
        inlineImageContentTypeIsSafe attachment.contentType = false ∨
        contentId ∉ referenced ∨ attachment.size = 0 ∨ limits.imageBytes < attachment.size then
      none
    else some contentId

/-- What `selected_total_bytes` becomes if the part is selected; none where it does not fit. -/
def selectPart (limits : InlineImageLimits) (parts : SelectedParts) (attachment : Attachment) :
    Option SelectedParts :=
  if attachment.partIndex ∈ parts.partIndexes then some parts
  else
    let nextTotal := parts.totalBytes + attachment.size
    -- `checked_add`
    if u64Max < nextTotal then none
    else if limits.totalBytes < nextTotal then none
    else some ⟨parts.partIndexes.insert attachment.partIndex, nextTotal⟩

/-- One round of `select_inline_cid_segment_candidates`. The source makes all its checks in one
condition; the order of those that only skip the candidate does not matter. -/
def selectCandidate (referenced : BTreeSet Str) (limits : InlineImageLimits)
    (state : BTreeMap Str Nat × SelectedParts) (attachment : Attachment) :
    BTreeMap Str Nat × SelectedParts :=
  match candidateContentId referenced limits attachment with
  | none => state
  | some contentId =>
    if (state.1.get? contentId).isSome = true then state
    else
      match selectPart limits state.2 attachment with
      | none => state
      | some parts => (state.1.insert contentId attachment.partIndex, parts)

def selectInlineCidSegmentCandidates (candidates : List Attachment) (referenced : BTreeSet Str)
    (limits : InlineImageLimits) (parts : SelectedParts) : BTreeMap Str Nat × SelectedParts :=
  candidates.foldl (selectCandidate referenced limits) (.empty, parts)

structure InlineCidSegmentSelection where
  start : Nat
  stop : Nat
  partIndexesByContentId : BTreeMap Str Nat

/-- `html.get(start..end)`. -/
def getRange (html : Str) (start stop : Nat) : Option Str :=
  if start ≤ stop then
    (Utf8.dropBytes html start).bind fun rest => Utf8.takeBytes rest (stop - start)
  else none

/-- The content identifiers that a text refers to. -/
def referencedContentIds (isWord : Char → Bool) (segment : Str) : BTreeSet Str :=
  .ofList ((cidSources isWord segment).1.filterMap fun piece =>
    decodeCidUrlContentId piece.captured)

/-- The candidates of a scope in the order of its parts; all attachments where it has none. -/
def scopeCandidates (attachments : List Attachment) (scope : PreparedHtmlCidPartScope) :
    List Attachment :=
  match scope.partIndexes with
  | some partIndexes =>
    let byPartIndex := BTreeMap.ofList (attachments.map fun attachment =>
      (attachment.partIndex, attachment))
    partIndexes.filterMap byPartIndex.get?
  | none => attachments

/-- One round of the loop of `sanitize_html_with_cid_part_scopes`, where a slice that is not within
the HTML panics. -/
def sanitizeScope (sanitize : Str → Str) (html : Str)
    (state : Str × List PreparedHtmlCidPartScope) (scope : PreparedHtmlCidPartScope) :
    Option (Str × List PreparedHtmlCidPartScope) :=
  (getRange html scope.start scope.stop).map fun source =>
    let sanitized := state.1 ++ sanitize source
    (sanitized, state.2 ++ [⟨Utf8.len state.1, Utf8.len sanitized, scope.partIndexes⟩])

/-- `sanitize_html_with_cid_part_scopes`, for a way to sanitize a fragment. -/
def sanitizeHtmlWithCidPartScopes (sanitize : Str → Str) (html : Str)
    (scopes : List HtmlCidPartScope) : Option (Str × List PreparedHtmlCidPartScope) :=
  (preparedHtmlCidPartScopes html scopes).foldlM (sanitizeScope sanitize html) ([], [])

/-- One round of the loop over the scopes. -/
def selectScope (isWord : Char → Bool) (html : Str) (attachments : List Attachment)
    (limits : InlineImageLimits) (state : List InlineCidSegmentSelection × SelectedParts)
    (scope : PreparedHtmlCidPartScope) : List InlineCidSegmentSelection × SelectedParts :=
  match getRange html scope.start scope.stop with
  | none => state
  | some segment =>
    let (selected, parts) := selectInlineCidSegmentCandidates (scopeCandidates attachments scope)
      (referencedContentIds isWord segment) limits state.2
    (state.1 ++ [⟨scope.start, scope.stop, selected⟩], parts)

def SelectedParts.start : SelectedParts := ⟨.empty, 0⟩

/-- The loop over the scopes. -/
def selectSegments (isWord : Char → Bool) (html : Str) (scopes : List PreparedHtmlCidPartScope)
    (attachments : List Attachment) (limits : InlineImageLimits) :
    List InlineCidSegmentSelection × SelectedParts :=
  scopes.foldl (selectScope isWord html attachments limits) ([], .start)

/-! ## Replacement -/

/-- A part that is put into the HTML: its content identifier and its bytes as a `data:` URI. -/
structure InlineCidResource where
  contentId : Str
  dataUri : Str

/-- One round of the loop over the extracted parts. -/
def addResource (limits : InlineImageLimits) (state : BTreeMap Nat InlineCidResource × Nat)
    (attachment : ExtractedAttachment) : BTreeMap Nat InlineCidResource × Nat :=
  match attachment.contentId with
  | none => state
  | some contentId =>
    if inlineImageContentTypeIsSafe attachment.contentType = false ∨ attachment.bytes = [] ∨
        limits.imageBytes < attachment.bytes.length then
      state
    else
      let contentId := loaderNormalizeContentId contentId
      if contentId = [] ∨ (state.1.get? attachment.partIndex).isSome = true then state
      else
        let nextTotal := state.2 + attachment.bytes.length
        if u64Max < nextTotal ∨ limits.totalBytes < nextTotal then state
        else
          (state.1.insert attachment.partIndex
            ⟨contentId, "data:".toList ++ attachment.contentType ++ ";base64,".toList ++
              Base64.encode attachment.bytes⟩, nextTotal)

/-- `segment_index` after the `while` loop, and the segments from it on. -/
def skipSegments (start : Nat) (segments : List InlineCidSegmentSelection) :
    List InlineCidSegmentSelection :=
  segments.dropWhile fun segment => segment.stop ≤ start

/-- The closure of `resolve_inline_cid_images_scoped_with_limits`, over the segments that it has
not passed. -/
def resourceForReference (resources : BTreeMap Nat InlineCidResource)
    (segments : List InlineCidSegmentSelection) (start stop : Nat) (contentId : Str) :
    Option Str × List InlineCidSegmentSelection :=
  let segments := skipSegments start segments
  let resource := match segments with
    | [] => none
    | segment :: _ =>
      if start < segment.start ∨ segment.stop < stop then none
      else
        (segment.partIndexesByContentId.get? contentId).bind fun partIndex =>
          (resources.get? partIndex).bind fun resource =>
            if resource.contentId = contentId then some resource.dataUri else none
  (resource, segments)

def maxInlineImageReferences : Nat := 2048

def maxInlineImageHtmlBytes : Nat := 16 * 1024 * 1024

/-- `resolve_inline_cid_images_scoped_with_limits`. -/
def resolveInlineCidImagesScopedWithLimits (crates : Crates) (isWord : Char → Bool) (html : Str)
    (scopes : List PreparedHtmlCidPartScope) (parsed : ParsedMessage) (source : Bytes)
    (limits : InlineImageLimits) : Option Str :=
  if (cidSources isWord html).1 = [] then some html
  else
    let (segments, parts) := selectSegments isWord html scopes parsed.attachments limits
    let resources :=
      if parts.partIndexes.toList = [] then BTreeMap.empty
      else
        match extractAttachmentPartsDetailedWithLimits crates source parts.partIndexes.toList
            { MimeLimits.default with
              maxDecodedPartBytes := limits.imageBytes
              maxTotalDecodedBytes := limits.totalBytes } with
        | .ok report => (report.attachments.foldl (addResource limits) (.empty, 0)).1
        | .error _ => BTreeMap.empty
    (replaceCidSourcesBoundedBy isWord html maxInlineImageHtmlBytes maxInlineImageReferences
      (resourceForReference resources) segments).map Prod.snd

/-! ## What fits -/

variable {limits : InlineImageLimits} {referenced : BTreeSet Str} {parts parts' : SelectedParts}
  {attachment : Attachment} {attachments candidates : List Attachment} {contentId : Str}

/-- A part has been selected before, or there is room for it. -/
def FitsLimits (limits : InlineImageLimits) (parts : SelectedParts)
    (attachment : Attachment) : Prop :=
  attachment.partIndex ∈ parts.partIndexes ∨
    parts.totalBytes + attachment.size ≤ limits.totalBytes

theorem selectPart_eq_none :
    selectPart limits parts attachment = none ↔ ¬ FitsLimits limits parts attachment := by
  have hbounded := limits.bounded
  unfold selectPart FitsLimits
  split
  · next hmem => exact iff_of_false (by simp) fun hnot => hnot (Or.inl hmem)
  · next hmem =>
    dsimp only
    rw [or_iff_right hmem]
    split
    · exact iff_of_true rfl (by omega)
    · split
      · exact iff_of_true rfl (by omega)
      · exact iff_of_false (by simp) (by omega)

/-- What is selected with a part: the part itself, charged to the budget once. -/
theorem selectPart_eq_some (h : selectPart limits parts attachment = some parts') :
    (attachment.partIndex ∈ parts.partIndexes ∧ parts' = parts) ∨
      (attachment.partIndex ∉ parts.partIndexes ∧
        parts.totalBytes + attachment.size ≤ limits.totalBytes ∧
        parts' = ⟨parts.partIndexes.insert attachment.partIndex,
          parts.totalBytes + attachment.size⟩) := by
  unfold selectPart at h
  split at h
  · next hmem => exact Or.inl ⟨hmem, (Option.some.inj h).symm⟩
  · next hmem =>
    dsimp only at h
    split at h
    · exact absurd h (by simp)
    · split at h
      · exact absurd h (by simp)
      · exact Or.inr ⟨hmem, by omega, (Option.some.inj h).symm⟩

/-- The parts that are selected once some candidates have been gone over. -/
def partsAfter (referenced : BTreeSet Str) (limits : InlineImageLimits) (parts : SelectedParts)
    (seen : List Attachment) : SelectedParts :=
  (selectInlineCidSegmentCandidates seen referenced limits parts).2

/-- The candidate at an index is one for the content identifier and fits when its turn comes. -/
def FitsAt (referenced : BTreeSet Str) (limits : InlineImageLimits) (parts : SelectedParts)
    (candidates : List Attachment) (contentId : Str) (index : Nat) : Prop :=
  ∃ attachment, candidates[index]? = some attachment ∧
    candidateContentId referenced limits attachment = some contentId ∧
    FitsLimits limits (partsAfter referenced limits parts (candidates.take index)) attachment

theorem fitsAt_concat_of_lt {index : Nat} (h : index < candidates.length) :
    FitsAt referenced limits parts (candidates ++ [attachment]) contentId index ↔
      FitsAt referenced limits parts candidates contentId index := by
  unfold FitsAt
  rw [List.getElem?_append_left h, List.take_append_of_le_length (by omega)]

theorem fitsAt_concat_length :
    FitsAt referenced limits parts (candidates ++ [attachment]) contentId candidates.length ↔
      candidateContentId referenced limits attachment = some contentId ∧
        FitsLimits limits (partsAfter referenced limits parts candidates) attachment := by
  unfold FitsAt
  rw [List.getElem?_concat_length, List.take_left]
  constructor
  · intro ⟨found, hfound, hcandidate, hfits⟩
    obtain rfl := Option.some.inj hfound
    exact ⟨hcandidate, hfits⟩
  · intro ⟨hcandidate, hfits⟩
    exact ⟨attachment, rfl, hcandidate, hfits⟩

theorem FitsAt.lt {index : Nat} (h : FitsAt referenced limits parts candidates contentId index) :
    index < candidates.length := by
  obtain ⟨found, hfound, _⟩ := h
  exact (List.getElem?_eq_some_iff.1 hfound).1

theorem select_concat (candidates : List Attachment) (attachment : Attachment) :
    selectInlineCidSegmentCandidates (candidates ++ [attachment]) referenced limits parts =
      selectCandidate referenced limits
        (selectInlineCidSegmentCandidates candidates referenced limits parts) attachment := by
  unfold selectInlineCidSegmentCandidates
  rw [List.foldl_concat]

/-- A candidate that fits is selected for a content identifier that has no part yet. -/
theorem get?_selectCandidate_of_fits {state : BTreeMap Str Nat × SelectedParts}
    (hcandidate : candidateContentId referenced limits attachment = some contentId)
    (hnone : state.1.get? contentId = none) (hfits : FitsLimits limits state.2 attachment) :
    (selectCandidate referenced limits state attachment).1.get? contentId =
      some attachment.partIndex := by
  unfold selectCandidate
  rw [hcandidate]
  dsimp only
  rw [hnone]
  cases hselect : selectPart limits state.2 attachment with
  | none => exact absurd hfits (selectPart_eq_none.1 hselect)
  | some selected =>
    dsimp only
    rw [if_neg (by simp), BTreeMap.get?_insert, if_pos rfl]

/-- Any other candidate changes nothing for the content identifier. -/
theorem get?_selectCandidate_of_not {state : BTreeMap Str Nat × SelectedParts}
    (hnot : ¬ (candidateContentId referenced limits attachment = some contentId ∧
      state.1.get? contentId = none ∧ FitsLimits limits state.2 attachment)) :
    (selectCandidate referenced limits state attachment).1.get? contentId =
      state.1.get? contentId := by
  unfold selectCandidate
  split
  · rfl
  · next found hfound =>
    split
    · rfl
    · next hmissing =>
      split
      · rfl
      · next selected hselect =>
        rw [BTreeMap.get?_insert, if_neg]
        rintro rfl
        refine hnot ⟨hfound, by simpa using hmissing, ?_⟩
        by_contra hroom
        rw [selectPart_eq_none.2 hroom] at hselect
        cases hselect

/-- Each content identifier gets the first candidate that fits when its turn comes. -/
theorem select_first_fitting (candidates : List Attachment) (contentId : Str) :
    ∃ first, FirstIndex (FitsAt referenced limits parts candidates contentId) 0 first ∧
      (selectInlineCidSegmentCandidates candidates referenced limits parts).1.get? contentId =
        (first.bind fun index => candidates[index]?).map Attachment.partIndex := by
  induction candidates using List.reverseRecOn with
  | nil => exact ⟨none, fun index _ hfits => absurd hfits.lt (Nat.not_lt_zero _), rfl⟩
  | append_singleton candidates attachment ih =>
    obtain ⟨first, hfirst, hget⟩ := ih
    rw [select_concat]
    cases first with
    -- the identifier has its part already
    | some index =>
      have hlt := hfirst.2.1.lt
      refine ⟨some index, ⟨Nat.zero_le _, (fitsAt_concat_of_lt hlt).2 hfirst.2.1,
        fun j hj hlt' hfits => ?_⟩, ?_⟩
      · exact hfirst.2.2 j hj hlt' ((fitsAt_concat_of_lt (hlt'.trans hlt)).1 hfits)
      · have hkept : (some index).bind (fun index => (candidates ++ [attachment])[index]?) =
            (some index).bind fun index => candidates[index]? :=
          List.getElem?_append_left hlt
        rw [hkept, ← hget]
        refine get?_selectCandidate_of_not fun h => ?_
        have hpart := h.2.1
        rw [hget, Option.map_eq_none_iff] at hpart
        exact absurd (List.getElem?_eq_none_iff.1 hpart) (Nat.not_le.2 hlt)
    | none =>
      have hnone : (selectInlineCidSegmentCandidates candidates referenced limits
          parts).1.get? contentId = none := hget
      have hbefore : ∀ j, j ≠ candidates.length →
          ¬ FitsAt referenced limits parts (candidates ++ [attachment]) contentId j := by
        intro j hj hfits
        have hlt := hfits.lt
        rw [List.length_append, List.length_singleton] at hlt
        have hlt' : j < candidates.length := by omega
        exact hfirst j (Nat.zero_le _) ((fitsAt_concat_of_lt hlt').1 hfits)
      -- only the last candidate can be the first that fits
      by_cases hfits : FitsAt referenced limits parts (candidates ++ [attachment]) contentId
          candidates.length
      · refine ⟨some candidates.length, ⟨Nat.zero_le _, hfits,
          fun j _ hlt => hbefore j (by omega)⟩, ?_⟩
        obtain ⟨hcandidate, hroom⟩ := fitsAt_concat_length.1 hfits
        show _ = ((candidates ++ [attachment])[candidates.length]?).map Attachment.partIndex
        rw [List.getElem?_concat_length]
        exact get?_selectCandidate_of_fits hcandidate hnone hroom
      · refine ⟨none, fun j _ => ?_, ?_⟩
        · by_cases hj : j = candidates.length
          · exact hj ▸ hfits
          · exact hbefore j hj
        · refine (get?_selectCandidate_of_not fun h => ?_).trans hnone
          exact hfits (fitsAt_concat_length.2 ⟨h.1, h.2.2⟩)

/-! ## The budget -/

/-- Every selected part is charged to the budget once, and the sum stays within it. -/
structure Charged (limits : InlineImageLimits) (attachments : List Attachment)
    (parts : SelectedParts) (charged : List Attachment) : Prop where
  subset : ∀ attachment ∈ charged, attachment ∈ attachments
  nodup : (charged.map Attachment.partIndex).Nodup
  selected : ∀ index, index ∈ parts.partIndexes ↔ index ∈ charged.map Attachment.partIndex
  total : (charged.map Attachment.size).sum = parts.totalBytes
  budget : parts.totalBytes ≤ limits.totalBytes

theorem charged_start (attachments : List Attachment) : Charged limits attachments .start [] where
  subset := fun _ hmem => absurd hmem List.not_mem_nil
  nodup := List.nodup_nil
  selected := fun _ => Iff.rfl
  total := rfl
  budget := Nat.zero_le _

theorem Charged.selectPart {charged : List Attachment}
    (h : Charged limits attachments parts charged)
    (hmem : attachment ∈ attachments) (hselect : selectPart limits parts attachment = some parts') :
    ∃ charged', Charged limits attachments parts' charged' := by
  rcases selectPart_eq_some hselect with ⟨_, rfl⟩ | ⟨hnew, hroom, rfl⟩
  · exact ⟨charged, h⟩
  · refine ⟨attachment :: charged, ?_, ?_, ?_, ?_, hroom⟩
    · exact List.forall_mem_cons.2 ⟨hmem, h.subset⟩
    · rw [List.map_cons, List.nodup_cons]
      exact ⟨fun hold => hnew ((h.selected _).2 hold), h.nodup⟩
    · intro index
      show index ∈ parts.partIndexes.insert attachment.partIndex ↔ _
      rw [BTreeSet.mem_insert, List.map_cons, List.mem_cons, h.selected]
    · rw [List.map_cons, List.sum_cons, h.total]
      show attachment.size + parts.totalBytes = parts.totalBytes + attachment.size
      omega

/-- What the selection of a scope keeps: the budget, and that the parts it names are selected. -/
structure Selecting (limits : InlineImageLimits) (attachments : List Attachment)
    (state : BTreeMap Str Nat × SelectedParts) : Prop where
  charged : ∃ charged, Charged limits attachments state.2 charged
  selected : ∀ contentId index, state.1.get? contentId = some index → index ∈ state.2.partIndexes

theorem Selecting.step {state : BTreeMap Str Nat × SelectedParts}
    (h : Selecting limits attachments state) (hmem : attachment ∈ attachments) :
    Selecting limits attachments (selectCandidate referenced limits state attachment) := by
  unfold selectCandidate
  split
  · exact h
  · next contentId hcandidate =>
    split
    · exact h
    · split
      · exact h
      · next parts' hselect =>
        obtain ⟨charged, hcharged⟩ := h.charged
        have hgrown : ∀ index, index ∈ state.2.partIndexes → index ∈ parts'.partIndexes := by
          rcases selectPart_eq_some hselect with ⟨_, rfl⟩ | ⟨_, _, rfl⟩
          · exact fun _ hin => hin
          · exact fun _ hin => BTreeSet.mem_insert.2 (Or.inr hin)
        have hnew : attachment.partIndex ∈ parts'.partIndexes := by
          rcases selectPart_eq_some hselect with ⟨hin, rfl⟩ | ⟨_, _, rfl⟩
          · exact hin
          · exact BTreeSet.mem_insert.2 (Or.inl rfl)
        refine ⟨hcharged.selectPart hmem hselect, fun other index hget => ?_⟩
        rw [BTreeMap.get?_insert] at hget
        split at hget
        · obtain rfl := Option.some.inj hget
          exact hnew
        · exact hgrown index (h.selected other index hget)

theorem selecting_select {charged : List Attachment}
    (h : Charged limits attachments parts charged)
    (hcandidates : ∀ attachment ∈ candidates, attachment ∈ attachments) :
    Selecting limits attachments
      (selectInlineCidSegmentCandidates candidates referenced limits parts) := by
  induction candidates using List.reverseRecOn with
  | nil =>
    exact ⟨⟨charged, h⟩, fun _ _ hget => absurd hget (by simp [selectInlineCidSegmentCandidates])⟩
  | append_singleton candidates attachment ih =>
    obtain ⟨hbefore, hlast⟩ := List.forall_mem_append.1 hcandidates
    rw [select_concat]
    exact (ih hbefore).step (hlast attachment List.mem_cons_self)

/-! ## The scopes -/

variable {scope : PreparedHtmlCidPartScope} {scopes : List PreparedHtmlCidPartScope}

theorem mem_scopeCandidates (h : attachment ∈ scopeCandidates attachments scope) :
    attachment ∈ attachments ∧
      ∀ indexes, scope.partIndexes = some indexes → attachment.partIndex ∈ indexes := by
  unfold scopeCandidates at h
  split at h
  · next partIndexes hindexes =>
    obtain ⟨index, hindex, hget⟩ := List.mem_filterMap.1 h
    have hentry := BTreeMap.mem_of_mem_ofList (BTreeMap.mem_of_get? hget)
    obtain ⟨found, hfound, heq⟩ := List.mem_map.1 hentry
    obtain ⟨rfl, rfl⟩ := Prod.mk.inj heq
    refine ⟨hfound, fun indexes hsome => ?_⟩
    obtain rfl := Option.some.inj (hindexes.symm.trans hsome)
    exact hindex
  · next hnone =>
    refine ⟨h, fun indexes hsome => ?_⟩
    exact absurd (hnone.symm.trans hsome) (by simp)

/-- What is selected for a scope: for each content identifier the first candidate of the scope that
fits when its turn comes, which is a part of the scope that the segment refers to. A candidate that
is passed over for every identifier leaves everything as it is. -/
structure SelectionOf (attachments : List Attachment) (limits : InlineImageLimits)
    (parts parts' : SelectedParts) (scope : PreparedHtmlCidPartScope) (referenced : BTreeSet Str)
    (selection : InlineCidSegmentSelection) : Prop where
  start : selection.start = scope.start
  stop : selection.stop = scope.stop
  first : ∀ contentId, ∃ first,
    FirstIndex (FitsAt referenced limits parts (scopeCandidates attachments scope) contentId) 0
      first ∧
    selection.partIndexesByContentId.get? contentId =
      (first.bind fun index => (scopeCandidates attachments scope)[index]?).map Attachment.partIndex
  passedOver : ∀ index < (scopeCandidates attachments scope).length,
    (∀ contentId,
      ¬ FitsAt referenced limits parts (scopeCandidates attachments scope) contentId index) →
    selectInlineCidSegmentCandidates ((scopeCandidates attachments scope).take (index + 1))
        referenced limits parts =
      selectInlineCidSegmentCandidates ((scopeCandidates attachments scope).take index)
        referenced limits parts
  confined : ∀ contentId index, selection.partIndexesByContentId.get? contentId = some index →
    contentId ∈ referenced ∧ index ∈ parts'.partIndexes ∧
      ∃ attachment ∈ scopeCandidates attachments scope, attachment.partIndex = index ∧
        attachment.contentId.map loaderNormalizeContentId = some contentId ∧
        ∀ indexes, scope.partIndexes = some indexes → index ∈ indexes

theorem candidateContentId_eq_some
    (h : candidateContentId referenced limits attachment = some contentId) :
    attachment.contentId.map loaderNormalizeContentId = some contentId ∧
      contentId ∈ referenced := by
  unfold candidateContentId at h
  split at h
  · exact absurd h (by simp)
  · next found hfound =>
    split at h
    · exact absurd h (by simp)
    · next hchecks =>
      obtain rfl := Option.some.inj h
      simp only [not_or, not_not] at hchecks
      exact ⟨hfound, hchecks.2.2.2.1⟩

/-- A candidate that does not fit for any identifier is passed over. -/
theorem select_passedOver {index : Nat} (hlt : index < candidates.length)
    (hnot : ∀ contentId, ¬ FitsAt referenced limits parts candidates contentId index) :
    selectInlineCidSegmentCandidates (candidates.take (index + 1)) referenced limits parts =
      selectInlineCidSegmentCandidates (candidates.take index) referenced limits parts := by
  rw [List.take_succ_eq_append_getElem hlt, select_concat]
  unfold selectCandidate
  split
  · rfl
  · next contentId hcandidate =>
    split
    · rfl
    · split
      · rfl
      · next parts' hselect =>
        -- it would have fitted for its own identifier
        have hfits : FitsLimits limits (partsAfter referenced limits parts (candidates.take index))
            candidates[index] := by
          by_contra hroom
          have hnone := selectPart_eq_none.2 hroom
          unfold partsAfter at hnone
          rw [hnone] at hselect
          exact absurd hselect (by simp)
        exact absurd ⟨_, List.getElem?_eq_getElem hlt, hcandidate, hfits⟩ (hnot contentId)

theorem selectionOf_select {charged : List Attachment}
    (h : Charged limits attachments parts charged) (scope : PreparedHtmlCidPartScope)
    (referenced : BTreeSet Str) :
    SelectionOf attachments limits parts
      (selectInlineCidSegmentCandidates (scopeCandidates attachments scope) referenced limits
        parts).2 scope referenced
      ⟨scope.start, scope.stop, (selectInlineCidSegmentCandidates
        (scopeCandidates attachments scope) referenced limits parts).1⟩ where
  start := rfl
  stop := rfl
  first := fun contentId => select_first_fitting _ contentId
  passedOver := fun index hlt hnot => select_passedOver hlt hnot
  confined := by
    intro contentId index hget
    have hselecting := @selecting_select limits referenced parts attachments
      (scopeCandidates attachments scope) charged h fun attachment hmem =>
        (mem_scopeCandidates hmem).1
    obtain ⟨first, hfirst, hindex⟩ := @select_first_fitting limits referenced parts
      (scopeCandidates attachments scope) contentId
    have hsome := hindex.symm.trans hget
    obtain ⟨attachment, hattachment, hpart⟩ := Option.map_eq_some_iff.1 hsome
    obtain ⟨position, hposition, hfound⟩ := Option.bind_eq_some_iff.1 hattachment
    rw [hposition] at hfirst
    obtain ⟨candidate, hcandidate, hid, _⟩ := hfirst.2.1
    obtain rfl := Option.some.inj (hcandidate.symm.trans hfound)
    have hmem := List.mem_of_getElem? hfound
    obtain ⟨hcontentId, hreferenced⟩ := candidateContentId_eq_some hid
    refine ⟨hreferenced, hselecting.selected contentId index hget, candidate, hmem, hpart,
      hcontentId, fun indexes hsome => ?_⟩
    rw [← hpart]
    exact (mem_scopeCandidates hmem).2 indexes hsome

/-- The selections of the scopes, one after the other. -/
inductive SelectsScopes (isWord : Char → Bool) (html : Str) (attachments : List Attachment)
    (limits : InlineImageLimits) : SelectedParts → List PreparedHtmlCidPartScope →
      List InlineCidSegmentSelection → SelectedParts → Prop where
  | nil (parts : SelectedParts) : SelectsScopes isWord html attachments limits parts [] [] parts
  | skip {parts last : SelectedParts} {scope : PreparedHtmlCidPartScope}
      {rest : List PreparedHtmlCidPartScope} {selections : List InlineCidSegmentSelection}
      (hrange : getRange html scope.start scope.stop = none)
      (hrest : SelectsScopes isWord html attachments limits parts rest selections last) :
      SelectsScopes isWord html attachments limits parts (scope :: rest) selections last
  | select {parts parts' last : SelectedParts} {scope : PreparedHtmlCidPartScope}
      {rest : List PreparedHtmlCidPartScope} {selection : InlineCidSegmentSelection}
      {selections : List InlineCidSegmentSelection} {segment : Str}
      (hrange : getRange html scope.start scope.stop = some segment)
      (hselection : SelectionOf attachments limits parts parts' scope
        (referencedContentIds isWord segment) selection)
      (hrest : SelectsScopes isWord html attachments limits parts' rest selections last) :
      SelectsScopes isWord html attachments limits parts (scope :: rest) (selection :: selections)
        last

theorem selectScopes_run {isWord : Char → Bool} {html : Str} {charged : List Attachment}
    (before : List InlineCidSegmentSelection) (h : Charged limits attachments parts charged) :
    ∃ selections last charged',
      scopes.foldl (selectScope isWord html attachments limits) (before, parts) =
          (before ++ selections, last) ∧
        SelectsScopes isWord html attachments limits parts scopes selections last ∧
        Charged limits attachments last charged' := by
  induction scopes generalizing before parts charged with
  | nil => exact ⟨[], parts, charged, by rw [List.append_nil]; rfl, SelectsScopes.nil parts, h⟩
  | cons scope rest ih =>
    rw [List.foldl_cons]
    cases hrange : getRange html scope.start scope.stop with
    | none =>
      have hstep : selectScope isWord html attachments limits (before, parts) scope =
          (before, parts) := by
        unfold selectScope
        rw [hrange]
      rw [hstep]
      obtain ⟨selections, last, charged', hrun, hselects, hcharged⟩ := ih before h
      exact ⟨selections, last, charged', hrun, SelectsScopes.skip hrange hselects, hcharged⟩
    | some segment =>
      have hstep : selectScope isWord html attachments limits (before, parts) scope =
          (before ++ [⟨scope.start, scope.stop, (selectInlineCidSegmentCandidates
            (scopeCandidates attachments scope) (referencedContentIds isWord segment) limits
            parts).1⟩], (selectInlineCidSegmentCandidates (scopeCandidates attachments scope)
            (referencedContentIds isWord segment) limits parts).2) := by
        unfold selectScope
        rw [hrange]
      rw [hstep]
      have hselecting := @selecting_select limits (referencedContentIds isWord segment) parts
        attachments (scopeCandidates attachments scope) charged h fun attachment hmem =>
          (mem_scopeCandidates hmem).1
      obtain ⟨charged', hcharged⟩ := hselecting.charged
      obtain ⟨selections, last, charged'', hrun, hselects, hlast⟩ := ih _ hcharged
      refine ⟨_ :: selections, last, charged'', ?_, SelectsScopes.select hrange
        (selectionOf_select h scope _) hselects, hlast⟩
      rw [hrun, List.append_assoc, List.singleton_append]

/-- The ranges of the selections are those of the scopes, in their order. -/
theorem SelectsScopes.ranges {isWord : Char → Bool} {html : Str} {last : SelectedParts}
    {selections : List InlineCidSegmentSelection}
    (h : SelectsScopes isWord html attachments limits parts scopes selections last) :
    (selections.map fun selection => (selection.start, selection.stop)).Sublist
      (scopes.map fun scope => (scope.start, scope.stop)) := by
  induction h with
  | nil => exact List.Sublist.slnil
  | skip _ _ ih => exact ih.cons _
  | select _ hselection _ ih =>
    rw [List.map_cons, List.map_cons, hselection.start, hselection.stop]
    exact ih.cons_cons _

/-- The scopes of the sanitized HTML lie one after the other up to its end. -/
def InOrder (state : Str × List PreparedHtmlCidPartScope) : Prop :=
  state.2.Pairwise (fun earlier later => earlier.stop ≤ later.start) ∧
    ∀ scope ∈ state.2, scope.stop ≤ Utf8.len state.1

theorem InOrder.step {sanitize : Str → Str} {html : Str}
    {state next : Str × List PreparedHtmlCidPartScope} (h : InOrder state)
    (hstep : sanitizeScope sanitize html state scope = some next) : InOrder next := by
  obtain ⟨source, _, rfl⟩ := Option.map_eq_some_iff.1 hstep
  constructor
  · refine List.pairwise_append.2 ⟨h.1, List.pairwise_singleton _ _, fun earlier hearlier later
      hlater => ?_⟩
    obtain rfl := List.mem_singleton.1 hlater
    exact h.2 earlier hearlier
  · intro scope hscope
    show scope.stop ≤ Utf8.len (state.1 ++ sanitize source)
    rcases List.mem_append.1 hscope with hold | hnew
    · rw [Utf8.len_append]
      exact (h.2 scope hold).trans (Nat.le_add_right _ _)
    · obtain rfl := List.mem_singleton.1 hnew
      exact Nat.le_refl _

theorem sanitizeHtmlWithCidPartScopes_inOrder {sanitize : Str → Str} {html : Str}
    {messageScopes : List HtmlCidPartScope} {result : Str × List PreparedHtmlCidPartScope}
    (h : sanitizeHtmlWithCidPartScopes sanitize html messageScopes = some result) :
    InOrder result := by
  have hrun : ∀ (rest : List PreparedHtmlCidPartScope)
      (state : Str × List PreparedHtmlCidPartScope), InOrder state →
      rest.foldlM (sanitizeScope sanitize html) state = some result → InOrder result := by
    intro rest
    induction rest with
    | nil =>
      intro state hstate hfold
      exact Option.some.inj hfold ▸ hstate
    | cons scope rest ih =>
      intro state hstate hfold
      rw [List.foldlM_cons] at hfold
      obtain ⟨next, hstep, hrest⟩ := Option.bind_eq_some_iff.1 hfold
      exact ih next (hstate.step hstep) hrest
  exact hrun _ ([], []) ⟨List.Pairwise.nil, fun _ hmem => absurd hmem List.not_mem_nil⟩ h

/-! ## The references -/

variable {resources : BTreeMap Nat InlineCidResource} {selection : InlineCidSegmentSelection}
  {segments passed selections : List InlineCidSegmentSelection} {start stop : Nat} {uri : Str}

/-- What a selection offers for an identifier: the data of the part that it has for it. -/
def InlineCidSegmentSelection.resource (resources : BTreeMap Nat InlineCidResource)
    (selection : InlineCidSegmentSelection) (contentId : Str) : Option Str :=
  (selection.partIndexesByContentId.get? contentId).bind fun partIndex =>
    (resources.get? partIndex).bind fun resource =>
      if resource.contentId = contentId then some resource.dataUri else none

/-- The closure without its state: every reference is looked up among all selections. -/
def resourceAmongAll (resources : BTreeMap Nat InlineCidResource)
    (selections : List InlineCidSegmentSelection) (start stop : Nat) (contentId : Str) :
    Option Str × List InlineCidSegmentSelection :=
  ((resourceForReference resources selections start stop contentId).1, selections)

theorem skipSegments_append (h : ∀ segment ∈ passed, segment.stop ≤ start) :
    skipSegments start (passed ++ segments) = skipSegments start segments :=
  List.dropWhile_append_of_pos fun segment hmem => decide_eq_true (h segment hmem)

/-- What is offered for a reference comes from the selection around it. -/
theorem resourceForReference_confined
    (h : (resourceForReference resources selections start stop contentId).1 = some uri) :
    ∃ selection ∈ selections, selection.start ≤ start ∧ stop ≤ selection.stop ∧
      selection.resource resources contentId = some uri := by
  unfold resourceForReference at h
  dsimp only at h
  split at h
  · exact absurd h (by simp)
  · next segment rest hskip =>
    split at h
    · exact absurd h (by simp)
    · next hrange =>
      have hmem : segment ∈ skipSegments start selections := by
        rw [hskip]
        exact List.mem_cons_self
      exact ⟨segment, (List.dropWhile_suffix _).subset hmem, by omega, by omega, h⟩

/-- Where the selections lie one after the other, a reference within one gets what that one offers
for it. -/
theorem resourceForReference_within
    (horder : selections.Pairwise fun earlier later => earlier.stop ≤ later.start)
    (hmem : selection ∈ selections) (hstart : selection.start ≤ start) (hlt : start < stop)
    (hstop : stop ≤ selection.stop) :
    (resourceForReference resources selections start stop contentId).1 =
      selection.resource resources contentId := by
  obtain ⟨before, after, rfl⟩ := List.append_of_mem hmem
  have hpassed : ∀ segment ∈ before, segment.stop ≤ start := by
    intro segment hsegment
    have hle := (List.pairwise_append.1 horder).2.2 segment hsegment selection List.mem_cons_self
    omega
  have hskip : skipSegments start (before ++ selection :: after) = selection :: after := by
    rw [skipSegments_append hpassed]
    exact List.dropWhile_cons_of_neg (by simp; omega)
  unfold resourceForReference
  dsimp only
  rw [hskip]
  exact if_neg (by omega)

/-- The references come in their order, so a selection that the closure has passed is one that no
later reference lies in. -/
theorem offers_resourceForReference {lastEnd : Nat} (sources : List CidSource)
    (h : ∀ segment ∈ passed, segment.stop ≤ lastEnd) :
    offers (resourceForReference resources) segments lastEnd sources =
      offers (resourceAmongAll resources) (passed ++ segments) lastEnd sources := by
  induction sources generalizing passed segments lastEnd with
  | nil => rfl
  | cons piece rest ih =>
    unfold offers offer
    cases decodeCidUrlContentId piece.captured with
    | none =>
      have hrest := @ih segments passed _ fun segment hmem => (h segment hmem).trans
        (show lastEnd ≤ lastEnd + Utf8.len piece.before + Utf8.len piece.source by omega)
      exact congrArg (none :: ·) hrest
    | some contentId =>
      have hpassed : ∀ segment ∈ passed, segment.stop ≤ lastEnd + Utf8.len piece.before :=
        fun segment hmem => (h segment hmem).trans (Nat.le_add_right _ _)
      -- the segments that are passed now end before the attribute begins
      have hsplit : segments = segments.takeWhile (fun segment =>
            decide (segment.stop ≤ lastEnd + Utf8.len piece.before)) ++
          skipSegments (lastEnd + Utf8.len piece.before) segments :=
        List.takeWhile_append_dropWhile.symm
      have hnow : ∀ segment ∈ passed ++ segments.takeWhile (fun segment =>
          decide (segment.stop ≤ lastEnd + Utf8.len piece.before)),
          segment.stop ≤ lastEnd + Utf8.len piece.before + Utf8.len piece.source := by
        intro segment hmem
        rcases List.mem_append.1 hmem with hold | hnew
        · have hle := hpassed segment hold
          omega
        · have hle : segment.stop ≤ lastEnd + Utf8.len piece.before := by
            simpa using List.mem_takeWhile_imp hnew
          omega
      have hrest := @ih (skipSegments (lastEnd + Utf8.len piece.before) segments) _ _ hnow
      rw [List.append_assoc, ← hsplit] at hrest
      have hfirst : (resourceForReference resources segments (lastEnd + Utf8.len piece.before)
            (lastEnd + Utf8.len piece.before + Utf8.len piece.source) contentId).1 =
          (resourceForReference resources (passed ++ segments) (lastEnd + Utf8.len piece.before)
            (lastEnd + Utf8.len piece.before + Utf8.len piece.source) contentId).1 := by
        unfold resourceForReference
        dsimp only
        rw [skipSegments_append hpassed]
      exact congrArg₂ (· :: ·) hfirst hrest

/-! ## The resources -/

/-- The data that is kept of the extracted parts: of each part at most once, all of it within the
limits, and under the identifier that the part itself has. -/
structure ResourcesOf (limits : InlineImageLimits) (extracted : List ExtractedAttachment)
    (state : BTreeMap Nat InlineCidResource × Nat) (taken : List ExtractedAttachment) :
    Prop where
  extracted : taken ⊆ extracted
  nodup : (taken.map ExtractedAttachment.partIndex).Nodup
  total : state.2 = (taken.map fun attachment => attachment.bytes.length).sum
  bounded : state.2 ≤ limits.totalBytes
  kept : ∀ attachment ∈ taken, (state.1.get? attachment.partIndex).isSome = true
  resource : ∀ partIndex resource, state.1.get? partIndex = some resource →
    ∃ attachment ∈ taken, attachment.partIndex = partIndex ∧
      inlineImageContentTypeIsSafe attachment.contentType = true ∧
      attachment.bytes.length ≤ limits.imageBytes ∧
      attachment.contentId.map loaderNormalizeContentId = some resource.contentId ∧
      resource.dataUri = "data:".toList ++ attachment.contentType ++ ";base64,".toList ++
        Base64.encode attachment.bytes

theorem resourcesOf_empty (limits : InlineImageLimits) (extracted : List ExtractedAttachment) :
    ResourcesOf limits extracted (.empty, 0) [] where
  extracted := List.nil_subset _
  nodup := List.nodup_nil
  total := rfl
  bounded := Nat.zero_le _
  kept := fun _ hmem => absurd hmem List.not_mem_nil
  resource := fun _ _ hget => absurd hget (by simp)

/-- A part is added with its data, or nothing changes. -/
theorem ResourcesOf.addResource {extracted taken : List ExtractedAttachment}
    {state : BTreeMap Nat InlineCidResource × Nat} {attachment : ExtractedAttachment}
    (h : ResourcesOf limits extracted state taken) (hmem : attachment ∈ extracted) :
    ∃ taken', ResourcesOf limits extracted (addResource limits state attachment) taken' := by
  unfold Ui.addResource
  cases hid : attachment.contentId with
  | none => exact ⟨taken, h⟩
  | some contentId =>
    dsimp only
    split
    · exact ⟨taken, h⟩
    · next himage =>
      split
      · exact ⟨taken, h⟩
      · next hnew =>
        split
        · exact ⟨taken, h⟩
        · next hfits =>
          -- It is an image that is selected, new and within the limit: one more part, charged once.
          simp only [not_or, Bool.not_eq_false, Nat.not_lt] at himage hnew hfits
          have hfresh : ∀ other ∈ taken, other.partIndex ≠ attachment.partIndex :=
            fun other hother heq => hnew.2 (heq ▸ h.kept other hother)
          refine ⟨attachment :: taken, List.cons_subset.2 ⟨hmem, h.extracted⟩,
            List.nodup_cons.2 ⟨fun hold => ?_, h.nodup⟩, ?_, hfits.2, fun other hother => ?_,
            fun partIndex resource hget => ?_⟩
          · obtain ⟨other, hother, heq⟩ := List.mem_map.1 hold
            exact hfresh other hother heq
          · rw [List.map_cons, List.sum_cons, ← h.total, Nat.add_comm]
          · rw [BTreeMap.get?_insert]
            split
            · rfl
            · next hne =>
              have hold : other ∈ taken :=
                (List.mem_cons.1 hother).resolve_left fun heq => hne (by rw [heq])
              exact h.kept other hold
          · rw [BTreeMap.get?_insert] at hget
            split at hget
            · next heq =>
              obtain rfl := Option.some.inj hget
              exact ⟨attachment, List.mem_cons_self, heq.symm, himage.1, himage.2.2,
                by rw [hid]; rfl, rfl⟩
            · obtain ⟨other, hother, hresource⟩ := h.resource partIndex resource hget
              exact ⟨other, List.mem_cons_of_mem _ hother, hresource⟩

theorem ResourcesOf.foldl {extracted taken rest : List ExtractedAttachment}
    {state : BTreeMap Nat InlineCidResource × Nat} (h : ResourcesOf limits extracted state taken)
    (hrest : rest ⊆ extracted) :
    ∃ taken', ResourcesOf limits extracted (rest.foldl (Ui.addResource limits) state) taken' := by
  induction rest generalizing state taken with
  | nil => exact ⟨taken, h⟩
  | cons attachment rest ih =>
    obtain ⟨hmem, hrest⟩ := List.cons_subset.1 hrest
    obtain ⟨taken', hnext⟩ := h.addResource hmem
    exact ih hnext hrest

/-! ## The whole function -/

/-- What `resolve_inline_cid_images_scoped_with_limits` makes of a document: the text between the
attributes, and in the place of each attribute what the selection around it offers, or nothing. -/
structure ResolvesInline (isWord : Char → Bool) (html : Str) (limits : InlineImageLimits)
    (selections : List InlineCidSegmentSelection) (output : Str)
    (resources : BTreeMap Nat InlineCidResource) (chosen : List (Option Str)) : Prop where
  bounded : Utf8.len output ≤ max maxInlineImageHtmlBytes (Utf8.len html)
  extracted : ∃ extracted total taken, ResourcesOf limits extracted (resources, total) taken
  offered : List.Forall₂ (fun offered choice => choice = none ∨ choice = offered)
    (offers (resourceAmongAll resources) selections 0 (cidSources isWord html).1) chosen
  resolved : chosen.countP Option.isSome ≤ maxInlineImageReferences
  text : output = replacedText (cidSources isWord html).1 chosen ++ (cidSources isWord html).2

/-- The function always returns, and what it writes comes from the selections. -/
theorem resolveInlineCidImages_resolves (crates : Crates) (isWord : Char → Bool) {html : Str}
    (scopes : List PreparedHtmlCidPartScope) (parsed : ParsedMessage) (source : Bytes)
    (limits : InlineImageLimits) (hhtml : Utf8.len html ≤ isizeMax) :
    ∃ output resources chosen,
      resolveInlineCidImagesScopedWithLimits crates isWord html scopes parsed source limits =
        some output ∧
      ResolvesInline isWord html limits
        (selectSegments isWord html scopes parsed.attachments limits).1 output resources
        chosen := by
  unfold resolveInlineCidImagesScopedWithLimits
  by_cases hnone : (cidSources isWord html).1 = []
  · -- Nothing refers to a part, and the document is returned as it is.
    have hdocument := (cidSources_spec isWord html).1
    rw [hnone] at hdocument
    refine ⟨html, .empty, [], if_pos hnone, Nat.le_max_right _ _,
      ⟨[], 0, [], resourcesOf_empty limits []⟩, ?_, Nat.zero_le _, ?_⟩
    · rw [hnone]
      exact List.Forall₂.nil
    · rw [hnone]
      exact hdocument.symm
  · rw [if_neg hnone]
    rcases selectSegments isWord html scopes parsed.attachments limits with ⟨selections, parts⟩
    dsimp only
    have hreplace : ∀ resources, (∃ extracted total taken,
        ResourcesOf limits extracted (resources, total) taken) → ∃ output resources' chosen,
        (replaceCidSourcesBoundedBy isWord html maxInlineImageHtmlBytes maxInlineImageReferences
          (resourceForReference resources) selections).map Prod.snd = some output ∧
        ResolvesInline isWord html limits selections output resources' chosen := by
      intro resources hof
      have hlimit : maxInlineImageHtmlBytes ≤ isizeMax := by decide
      obtain ⟨last, output, hrun⟩ := replaceCidSourcesBoundedBy_isSome isWord html
        maxInlineImageReferences (Nat.max_le.2 ⟨hlimit, hhtml⟩) (resourceForReference resources)
        selections
      obtain ⟨hexact, rfl, chosen, hchosen, hresolved, houtput⟩ :=
        replaceCidSourcesBoundedBy_spec hhtml hrun
      rw [@offers_resourceForReference resources selections [] 0 _
        fun _ hmem => absurd hmem List.not_mem_nil] at hchosen
      have hbounded : Utf8.len (last.output ++ (cidSources isWord html).2) ≤
          max maxInlineImageHtmlBytes (Utf8.len html) := by
        rw [Utf8.len_append]
        exact (Nat.le_of_eq hexact.projected.symm).trans hexact.bounded
      rw [hrun]
      exact ⟨_, resources, chosen, rfl, hbounded, hof, hchosen, hresolved, by rw [houtput]⟩
    -- The data is that of the parts which the extraction of the selected ones returns, if it does.
    split
    · exact hreplace _ ⟨[], 0, [], resourcesOf_empty limits []⟩
    · split
      · next report _ =>
        obtain ⟨taken, htaken⟩ := (resourcesOf_empty limits report.attachments).foldl
          (List.Subset.refl report.attachments)
        exact hreplace _ ⟨report.attachments, _, taken, htaken⟩
      · exact hreplace _ ⟨[], 0, [], resourcesOf_empty limits []⟩

/-- **Selection is confined to its scope.** Each identifier that a scope refers to has the first
candidate of the scope that fits when its turn comes, so one that does not fit takes no room from
those after it, and none has a part from outside the scope. The parts that are selected for all the
scopes are charged to the budget once each.

A reference gets what the selection around it offers, whatever the references before it. In a
document that has been sanitized scope by scope there is no other selection that it could meet. The
document that `resolve_inline_cid_images_scoped_with_limits` returns has nothing else in the places
of its references. -/
theorem cid_selection_confined (isWord : Char → Bool) (html : Str)
    (scopes : List PreparedHtmlCidPartScope) (attachments : List Attachment)
    (limits : InlineImageLimits) :
    ∃ selections last charged,
      selectSegments isWord html scopes attachments limits = (selections, last) ∧
      SelectsScopes isWord html attachments limits .start scopes selections last ∧
      Charged limits attachments last charged ∧
      (∀ resources : BTreeMap Nat InlineCidResource,
        (∀ sources, offers (resourceForReference resources) selections 0 sources =
          offers (resourceAmongAll resources) selections 0 sources) ∧
        (∀ start stop contentId uri,
          (resourceForReference resources selections start stop contentId).1 = some uri →
          ∃ selection ∈ selections, selection.start ≤ start ∧ stop ≤ selection.stop ∧
            selection.resource resources contentId = some uri) ∧
        ((∃ sanitize body messageScopes,
            sanitizeHtmlWithCidPartScopes sanitize body messageScopes = some (html, scopes)) →
          ∀ selection ∈ selections, ∀ start stop contentId, selection.start ≤ start →
            start < stop → stop ≤ selection.stop →
            (resourceForReference resources selections start stop contentId).1 =
              selection.resource resources contentId)) ∧
      ∀ (crates : Crates) (parsed : ParsedMessage) (source : Bytes),
        parsed.attachments = attachments → Utf8.len html ≤ isizeMax →
        ∃ output resources chosen,
          resolveInlineCidImagesScopedWithLimits crates isWord html scopes parsed source limits =
            some output ∧
          ResolvesInline isWord html limits selections output resources chosen := by
  obtain ⟨selections, last, charged, hrun, hselects, hcharged⟩ :=
    @selectScopes_run limits .start attachments scopes isWord html [] [] (charged_start attachments)
  refine ⟨selections, last, charged, hrun, hselects, hcharged, fun resources =>
    ⟨fun sources => ?_, fun start stop contentId uri => resourceForReference_confined,
      fun horder selection hmem start stop contentId => ?_⟩,
    fun crates parsed source hparsed hhtml => ?_⟩
  · exact @offers_resourceForReference resources selections [] 0 sources
      fun _ hmem => absurd hmem List.not_mem_nil
  · obtain ⟨sanitize, body, messageScopes, hsanitized⟩ := horder
    have hscopes := (sanitizeHtmlWithCidPartScopes_inOrder hsanitized).1
    have hranges : (selections.map fun selection => (selection.start, selection.stop)).Pairwise
        fun earlier later => earlier.2 ≤ later.1 :=
      (List.pairwise_map.2 hscopes).sublist hselects.ranges
    exact resourceForReference_within (List.pairwise_map.1 hranges) hmem
  · have hresolves :=
      resolveInlineCidImages_resolves crates isWord scopes parsed source limits hhtml
    have hselected : selectSegments isWord html scopes attachments limits = (selections, last) :=
      hrun
    rwa [hparsed, hselected] at hresolves

end Notm.Ui
