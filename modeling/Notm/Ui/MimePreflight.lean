import Notm.Mail.Crates

/-!
# The MIME preflight of the thread loader

`preflight_mime` inspects the structure of a message before `notm-mail` parses it, and counts
the parts and the attachment-like leaves against the budget of a thread. The slices that its
loop cuts do not depend on the recursive calls, so the loop is a function of its own,
`loaderPartSlices`. The `cancelled` callback answers from outside: it is a parameter, asked
with the number of times it has been asked before.

* `loaderPartSlices` — the parts that the boundary lines cut a body into.
* `preflightMimePart` — the walk, with its limits and with the looks at `cancelled`.
* `preflightMimePart_eq` — its recursion over the child slices.
-/

namespace Notm.Ui

open Rust Mail

def maxMimeNestingDepth : Nat := 64

/-- `MimePreflightLimits`. -/
structure MimePreflightLimits where
  attachmentCount : Nat
  partCount : Nat
  deriving DecidableEq, Repr

/-- `MimePreflightState`, with the number of `cancelled` calls made so far. -/
structure MimePreflightState where
  attachmentLikeCount : Nat
  partCount : Nat
  polls : Nat
  deriving DecidableEq, Repr

/-- `MimePreflightState::default`. -/
def MimePreflightState.default : MimePreflightState := ⟨0, 0, 0⟩

/-- `MimePreflightFailure`. -/
inductive MimePreflightFailure where
  | cancelled
  | depthLimit
  | partLimit (visited limit : Nat)
  | attachmentLimit (attachments visited limit : Nat)
  | malformedHeaders (error : Str)
  deriving DecidableEq, Repr

/-- `is_recoverable_parse_failure`. -/
def MimePreflightFailure.isRecoverableParseFailure : MimePreflightFailure → Bool
  | depthLimit => true
  | malformedHeaders _ => true
  | _ => false

/-- The `Display` texts of `MimePreflightFailure`. -/
def MimePreflightFailure.display : MimePreflightFailure → Str
  | cancelled => "thread preparation was cancelled".toList
  | depthLimit =>
    "message MIME nesting depth exceeds the responsive limit of ".toList ++
      natText maxMimeNestingDepth
  | partLimit visited limit =>
    "message has at least ".toList ++ natText visited ++
      " MIME parts; remaining prepared MIME-part limit is ".toList ++ natText limit
  | attachmentLimit attachments visited limit =>
    "message has at least ".toList ++ natText attachments ++
      " attachment-like MIME parts after visiting ".toList ++ natText visited ++
      " MIME parts; remaining prepared attachment-count limit is ".toList ++ natText limit
  | malformedHeaders error => "message MIME headers could not be parsed: ".toList ++ error

/-! ## The boundary scanner -/

/-- `find_bytes`. -/
def findBytes (bytes : Bytes) (start : Nat) (needle : Bytes) : Option Nat :=
  if start > bytes.length ∨ needle.length > bytes.length then none
  else
    let stop := bytes.length - needle.length
    (List.range' start (stop + 1 - start)).find? fun index =>
      needle.isPrefixOf (bytes.drop index)

/-- `MimeBoundaryLine`. -/
structure MimeBoundaryLine where
  start : Nat
  nextLineStart : Option Nat
  closing : Bool
  deriving DecidableEq, Repr

/-- The `while` loop that skips spaces and tabs from `cursor` on. -/
def skipLinearWhitespace (bytes : Bytes) (cursor : Nat) : Nat :=
  cursor + ((bytes.drop cursor).takeWhile fun b => isBlank b.toNat).length

/-- `parse_mime_boundary_line`. -/
def parseMimeBoundaryLine (bytes : Bytes) (start markerLen : Nat) : Option MimeBoundaryLine :=
  let cursor := start + markerLen
  let closing := decide ((bytes.drop cursor).take 2 = [0x2D, 0x2D])
  let cursor := skipLinearWhitespace bytes (if closing then cursor + 2 else cursor)
  match bytes[cursor]? with
  | none => some ⟨start, none, closing⟩
  | some b =>
    if b = 0x0A then some ⟨start, some (cursor + 1), closing⟩
    else if b = 0x0D ∧ bytes[cursor + 1]? = some 0x0A then
      some ⟨start, some (cursor + 2), closing⟩
    else none

theorem findBytes_bounds {bytes needle : Bytes} {start index : Nat}
    (h : findBytes bytes start needle = some index) :
    start ≤ index ∧ index + needle.length ≤ bytes.length := by
  unfold findBytes at h
  split at h
  · exact absurd h (by simp)
  · have hmem := List.mem_of_find?_eq_some h
    rw [List.mem_range'] at hmem
    obtain ⟨k, hk, rfl⟩ := hmem
    omega

/-- The `while` loop of `find_mime_boundary_line`: `start` is where the search began,
`searchStart` where it goes on. -/
def findMimeBoundaryLineFrom (bytes : Bytes) (start : Nat) (marker : Bytes) (searchStart : Nat) :
    Option MimeBoundaryLine :=
  match h : findBytes bytes searchStart marker with
  | none => none
  | some index =>
    if index = start ∨ bytes[index - 1]? = some 0x0A then
      match parseMimeBoundaryLine bytes index marker.length with
      | some line => some line
      | none => findMimeBoundaryLineFrom bytes start marker (index + 1)
    else findMimeBoundaryLineFrom bytes start marker (index + 1)
termination_by bytes.length + 1 - searchStart
decreasing_by all_goals have hb := findBytes_bounds h; omega

/-- `find_mime_boundary_line`. -/
def findMimeBoundaryLine (bytes : Bytes) (start : Nat) (marker : Bytes) :
    Option MimeBoundaryLine :=
  findMimeBoundaryLineFrom bytes start marker start

/-- `strip_trailing_crlf`. -/
def stripTrailingCrlf (bytes : Bytes) (start stop : Nat) : Nat :=
  if stop > start ∧ bytes[stop - 1]? = some 0x0A then
    if stop - 1 > start ∧ bytes[stop - 2]? = some 0x0D then stop - 2 else stop - 1
  else stop

theorem skipLinearWhitespace_ge (bytes : Bytes) (cursor : Nat) :
    cursor ≤ skipLinearWhitespace bytes cursor := by
  simp [skipLinearWhitespace]

theorem parseMimeBoundaryLine_bounds {bytes : Bytes} {start markerLen : Nat}
    {line : MimeBoundaryLine} (h : parseMimeBoundaryLine bytes start markerLen = some line) :
    line.start = start ∧
      ∀ next, line.nextLineStart = some next → start < next ∧ next ≤ bytes.length := by
  unfold parseMimeBoundaryLine at h
  simp only at h
  set cursor := skipLinearWhitespace bytes
    (if decide ((bytes.drop (start + markerLen)).take 2 = [0x2D, 0x2D]) = true
      then start + markerLen + 2 else start + markerLen) with hcursor
  have hge : start ≤ cursor := by
    refine le_trans ?_ (skipLinearWhitespace_ge bytes _)
    split <;> omega
  split at h
  · cases h
    exact ⟨rfl, by simp⟩
  · next b hb =>
    have hlt : cursor < bytes.length := (List.getElem?_eq_some_iff.mp hb).1
    split at h
    · cases h
      refine ⟨rfl, fun next hnext => ?_⟩
      cases hnext
      omega
    · split at h
      · next hcr =>
        have hlt' := (List.getElem?_eq_some_iff.mp hcr.2).1
        cases h
        refine ⟨rfl, fun next hnext => ?_⟩
        cases hnext
        omega
      · exact absurd h (by simp)

theorem findMimeBoundaryLineFrom_bounds {bytes marker : Bytes} {start searchStart : Nat}
    {line : MimeBoundaryLine}
    (h : findMimeBoundaryLineFrom bytes start marker searchStart = some line) :
    searchStart ≤ line.start ∧ line.start ≤ bytes.length ∧
      ∀ next, line.nextLineStart = some next → line.start < next ∧ next ≤ bytes.length := by
  fun_induction findMimeBoundaryLineFrom bytes start marker searchStart with
  | case1 => exact absurd h (by simp)
  | case2 _ index hfind _ _ hline =>
    cases h
    obtain ⟨hstart, hnext⟩ := parseMimeBoundaryLine_bounds hline
    have hb := findBytes_bounds hfind
    exact ⟨by omega, by omega, by rwa [hstart]⟩
  | case3 _ _ hfind _ _ ih =>
    have hge := (findBytes_bounds hfind).1
    obtain ⟨hstart, hrest⟩ := ih h
    exact ⟨by omega, hrest⟩
  | case4 _ _ hfind _ ih =>
    have hge := (findBytes_bounds hfind).1
    obtain ⟨hstart, hrest⟩ := ih h
    exact ⟨by omega, hrest⟩

/-- `bytes[start..end]`. -/
def subslice (bytes : Bytes) (start stop : Nat) : Bytes := (bytes.drop start).take (stop - start)

-- The search result is used in `decreasing_by` only, which the linter does not see.
set_option linter.unusedVariables false in
/-- The slices that the loop of `preflight_mime_part` cuts from the boundary line on whose next
line starts at `nextLineStart`. -/
def loaderPartSlices (bytes marker : Bytes) (closing : Bool) (nextLineStart : Option Nat) :
    List Bytes :=
  match closing, nextLineStart with
  | true, _ => []
  | false, none => []
  | false, some partStart =>
    match hnext : findMimeBoundaryLine bytes partStart marker with
    | none => [subslice bytes partStart bytes.length]
    | some line =>
      subslice bytes partStart (stripTrailingCrlf bytes partStart line.start) ::
        loaderPartSlices bytes marker line.closing line.nextLineStart
termination_by nextLineStart.elim 0 fun next => bytes.length + 1 - next
decreasing_by
  obtain ⟨hge, hle, hbound⟩ := findMimeBoundaryLineFrom_bounds hnext
  cases hline : line.nextLineStart with
  | none =>
    simp only [Option.elim_none, Option.elim_some]
    omega
  | some next =>
    have := hbound next hline
    simp only [Option.elim_some]
    omega

/-! ## The recursion -/

/-- `content_type` of `preflight_mime_part`: the part's own, or the default of its place. -/
def loaderContentType (crates : Crates) (headers : List MailHeader) (inMultipartDigest : Bool) :
    ParsedContentType :=
  match getFirstValue headers "Content-Type" with
  | some value => crates.parseContentType value
  | none =>
    crates.parseContentType
      (if inMultipartDigest then "message/rfc822".toList else "text/plain".toList)

/-- The child part slices that `preflight_mime_part` descends into. -/
def loaderChildSlices (bytes : Bytes) (contentType : ParsedContentType) (bodyStart : Nat) :
    List Bytes :=
  if "multipart/".toList.isPrefixOf contentType.mimetype then
    match param contentType.params "boundary" with
    | none => []
    | some boundary =>
      if bodyStart < bytes.length then
        let marker := [0x2D, 0x2D] ++ Utf8.encode boundary
        match findMimeBoundaryLine bytes bodyStart marker with
        | none => []
        | some firstBoundary =>
          loaderPartSlices bytes marker firstBoundary.closing firstBoundary.nextLineStart
      else []
  else []

/-- The media types of `crypto_related`. -/
def cryptoRelatedTypes : List Str :=
  ["application/pgp-encrypted".toList, "application/pgp-signature".toList,
    "application/pgp-keys".toList, "application/pkcs7-signature".toList,
    "application/x-pkcs7-signature".toList, "application/pkcs7-mime".toList,
    "application/x-pkcs7-mime".toList]

/-- `attachment_like` of `preflight_mime_part`, the test of a leaf. -/
def loaderAttachmentLike (crates : Crates) (headers : List MailHeader)
    (contentType : ParsedContentType) : Bool :=
  let dispositionValue := getFirstValue headers "Content-Disposition"
  let disposition :=
    (dispositionValue.map crates.parseContentDisposition).getD ParsedContentDisposition.default
  let filename := (param contentType.params "name").or (param disposition.params "filename")
  let isAttachment := filename.isSome ||
    dispositionValue.any fun value => contains (toAsciiLowercase value) "attachment".toList
  isAttachment || eqIgnoreAsciiCase contentType.mimetype "text/calendar".toList ||
    (!cryptoRelatedTypes.contains contentType.mimetype &&
      !"text/".toList.isPrefixOf contentType.mimetype)

theorem subslice_length_lt {bytes : Bytes} {start stop : Nat} (h : 0 < start)
    (hle : start ≤ bytes.length) : (subslice bytes start stop).length < bytes.length := by
  simp only [subslice, List.length_take, List.length_drop]
  omega

/-- Every part is shorter than the slice it is cut from: a boundary line precedes it. -/
theorem length_lt_of_mem_loaderPartSlices {bytes marker part : Bytes} {closing : Bool}
    {nextLineStart : Option Nat} (h : part ∈ loaderPartSlices bytes marker closing nextLineStart)
    (hnext : ∀ next, nextLineStart = some next → 0 < next ∧ next ≤ bytes.length) :
    part.length < bytes.length := by
  fun_induction loaderPartSlices bytes marker closing nextLineStart with
  | case1 => exact absurd h (by simp)
  | case2 => exact absurd h (by simp)
  | case3 partStart =>
    obtain ⟨hpos, hle⟩ := hnext partStart rfl
    rw [List.mem_singleton.mp h]
    exact subslice_length_lt hpos hle
  | case4 partStart line hline ih =>
    obtain ⟨hpos, hle⟩ := hnext partStart rfl
    rcases List.mem_cons.mp h with rfl | h
    · exact subslice_length_lt hpos hle
    · refine ih h fun next hn => ?_
      have := (findMimeBoundaryLineFrom_bounds hline).2.2 next hn
      omega

theorem length_lt_of_mem_loaderChildSlices {bytes part : Bytes} {contentType : ParsedContentType}
    {bodyStart : Nat} (h : part ∈ loaderChildSlices bytes contentType bodyStart) :
    part.length < bytes.length := by
  unfold loaderChildSlices at h
  split at h
  · split at h
    · exact absurd h (by simp)
    · split at h
      · simp only at h
        split at h
        · exact absurd h (by simp)
        · next line hline =>
          refine length_lt_of_mem_loaderPartSlices h fun next hnext => ?_
          have := (findMimeBoundaryLineFrom_bounds hline).2.2 next hnext
          omega
      · exact absurd h (by simp)
  · exact absurd h (by simp)

/-- One call of the `cancelled` callback. -/
def poll (cancelled : Nat → Bool) (state : MimePreflightState) :
    Except (MimePreflightFailure × MimePreflightState) MimePreflightState :=
  let asked := { state with polls := state.polls + 1 }
  if cancelled state.polls then .error (.cancelled, asked) else .ok asked

/-- The leaf half of `preflight_mime_part`: charge the part if it is attachment-like. -/
def chargeLeaf (crates : Crates) (headers : List MailHeader) (contentType : ParsedContentType)
    (limits : MimePreflightLimits) (state : MimePreflightState) :
    Except (MimePreflightFailure × MimePreflightState) MimePreflightState :=
  if loaderAttachmentLike crates headers contentType then
    let state := { state with attachmentLikeCount := state.attachmentLikeCount + 1 }
    if state.attachmentLikeCount > limits.attachmentCount then
      .error (.attachmentLimit state.attachmentLikeCount state.partCount limits.attachmentCount,
        state)
    else .ok state
  else .ok state

/-- What `preflight_mime_part` does before it reads the headers: ask whether to stop, check the
depth, and count the part. -/
def enterPart (cancelled : Nat → Bool) (depth : Nat) (limits : MimePreflightLimits)
    (state : MimePreflightState) :
    Except (MimePreflightFailure × MimePreflightState) MimePreflightState :=
  match poll cancelled state with
  | .error failure => .error failure
  | .ok state =>
    if depth > maxMimeNestingDepth then .error (.depthLimit, state)
    else
      let state := { state with partCount := state.partCount + 1 }
      if state.partCount > limits.partCount then
        .error (.partLimit state.partCount limits.partCount, state)
      else .ok state

/-- `preflight_mime_part`. A failure keeps the state reached, which `preflight_mime` reads. -/
def preflightMimePart (crates : Crates) (cancelled : Nat → Bool) (bytes : Bytes)
    (inMultipartDigest : Bool) (depth : Nat) (limits : MimePreflightLimits)
    (state : MimePreflightState) :
    Except (MimePreflightFailure × MimePreflightState) MimePreflightState :=
  match enterPart cancelled depth limits state with
  | .error failure => .error failure
  | .ok state =>
    match crates.parseHeaders bytes with
    | .error e => .error (.malformedHeaders e, state)
    | .ok (headers, bodyStart) =>
      let contentType := loaderContentType crates headers inMultipartDigest
      let children := loaderChildSlices bytes contentType bodyStart
      if children = [] then chargeLeaf crates headers contentType limits state
      else
        children.attach.foldlM
          (fun state child => do
            let state ← poll cancelled state
            preflightMimePart crates cancelled child.val
              (contentType.mimetype = "multipart/digest".toList) (depth + 1) limits state)
          state
termination_by bytes.length
decreasing_by exact length_lt_of_mem_loaderChildSlices child.property

/-- The recursion of `preflight_mime_part` over its child slices. -/
theorem preflightMimePart_eq (crates : Crates) (cancelled : Nat → Bool) (bytes : Bytes)
    (inMultipartDigest : Bool) (depth : Nat) (limits : MimePreflightLimits)
    (state : MimePreflightState) :
    preflightMimePart crates cancelled bytes inMultipartDigest depth limits state =
      match enterPart cancelled depth limits state with
      | .error failure => .error failure
      | .ok state =>
        match crates.parseHeaders bytes with
        | .error e => .error (.malformedHeaders e, state)
        | .ok (headers, bodyStart) =>
          let contentType := loaderContentType crates headers inMultipartDigest
          let children := loaderChildSlices bytes contentType bodyStart
          if children = [] then chargeLeaf crates headers contentType limits state
          else
            children.foldlM
              (fun state child => do
                let state ← poll cancelled state
                preflightMimePart crates cancelled child
                  (contentType.mimetype = "multipart/digest".toList) (depth + 1) limits state)
              state := by
  rw [preflightMimePart]
  cases enterPart cancelled depth limits state with
  | error failure => rfl
  | ok state =>
    cases crates.parseHeaders bytes with
    | error e => rfl
    | ok r =>
      simp only
      split
      · rfl
      · rw [List.foldlM_subtype (g := fun state child => do
          let state ← poll cancelled state
          preflightMimePart crates cancelled child
            ((loaderContentType crates r.1 inMultipartDigest).mimetype =
              "multipart/digest".toList) (depth + 1) limits state) (by intros; rfl)]
        simp

theorem poll_eq_ok {cancelled : Nat → Bool} {state state' : MimePreflightState}
    (h : poll cancelled state = .ok state') :
    state'.partCount = state.partCount ∧
      state'.attachmentLikeCount = state.attachmentLikeCount := by
  unfold poll at h
  simp only at h
  split at h
  · exact absurd h (by simp)
  · cases h
    exact ⟨rfl, rfl⟩

theorem enterPart_eq_ok {cancelled : Nat → Bool} {depth : Nat} {limits : MimePreflightLimits}
    {state state' : MimePreflightState} (h : enterPart cancelled depth limits state = .ok state') :
    state'.partCount = state.partCount + 1 ∧
      state'.attachmentLikeCount = state.attachmentLikeCount := by
  unfold enterPart at h
  split at h
  · exact absurd h (by simp)
  · next asked hpoll =>
    obtain ⟨hparts, hattachments⟩ := poll_eq_ok hpoll
    split at h
    · exact absurd h (by simp)
    · simp only at h
      split at h
      · exact absurd h (by simp)
      · cases h
        exact ⟨by rw [← hparts], hattachments⟩

theorem chargeLeaf_eq_ok {crates : Crates} {headers : List MailHeader}
    {contentType : ParsedContentType} {limits : MimePreflightLimits}
    {state state' : MimePreflightState}
    (h : chargeLeaf crates headers contentType limits state = .ok state') :
    state'.partCount = state.partCount ∧
      state'.attachmentLikeCount = state.attachmentLikeCount +
        if loaderAttachmentLike crates headers contentType then 1 else 0 := by
  unfold chargeLeaf at h
  split at h
  · next hlike =>
    simp only at h
    split at h
    · exact absurd h (by simp)
    · cases h
      exact ⟨rfl, by rw [if_pos hlike]⟩
  · next hlike =>
    cases h
    exact ⟨rfl, by rw [if_neg hlike, Nat.add_zero]⟩

/-- `MimePreflight`. -/
structure MimePreflight where
  attachmentLikeCount : Nat
  partCount : Nat
  parseError : Option Str
  deriving DecidableEq, Repr

/-- `preflight_mime`. -/
def preflightMime (crates : Crates) (cancelled : Nat → Bool) (bytes : Bytes)
    (limits : MimePreflightLimits) : Except MimePreflightFailure MimePreflight :=
  match preflightMimePart crates cancelled bytes false 0 limits .default with
  | .ok state => .ok ⟨state.attachmentLikeCount, state.partCount, none⟩
  | .error (failure, state) =>
    if failure.isRecoverableParseFailure then
      .ok ⟨state.attachmentLikeCount, state.partCount, some failure.display⟩
    else .error failure

end Notm.Ui
