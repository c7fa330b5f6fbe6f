import Notm.Mail.Crates
import Notm.Mail.Error

/-!
# The MIME preflight of `notm-mail`

`preflight_part` walks the multipart structure of a message before `mailparse` builds its tree.
The boundary scanner works on byte offsets into the slice of one part. The slices that the
`while` loop of `preflight_part` cuts do not depend on what the recursive calls return, so the
loop is a function of its own, `partSlices`, and the recursion visits its list in order.

* `findLinePrefix` — the scanner of boundary lines, with `findSubslice` below it.
* `partSlices`, `childSlices` — the parts that the boundary lines of a multipart cut its body into.
* `length_lt_of_mem_childSlices` — each is shorter than the whole, so the walk over them ends.
* `preflightMimeStructure` — the walk, with the limits on depth and on the number of parts.
-/

namespace Notm.Mail

open Rust

/-- `MimeLimits`. -/
structure MimeLimits where
  maxMessageBytes : Nat
  maxDepth : Nat
  maxParts : Nat
  maxDecodedPartBytes : Nat
  maxTotalDecodedBytes : Nat
  deriving DecidableEq, Repr

def mimeDepthLimit : Nat := 32
def mimePartsLimit : Nat := 2048
def mimeDecodedPartBytesLimit : Nat := 32 * 1024 * 1024
def mimeTotalDecodedBytesLimit : Nat := 64 * 1024 * 1024
def messageBytesLimit : Nat := 64 * 1024 * 1024

/-- `MimeLimits::default`. -/
def MimeLimits.default : MimeLimits where
  maxMessageBytes := messageBytesLimit
  maxDepth := mimeDepthLimit
  maxParts := mimePartsLimit
  maxDecodedPartBytes := mimeDecodedPartBytesLimit
  maxTotalDecodedBytes := mimeTotalDecodedBytesLimit

/-! ## The boundary scanner -/

/-- `slice[start..end]`. -/
def slice (raw : Bytes) (start stop : Nat) : Bytes := (raw.drop start).take (stop - start)

/-- The search of `find_subslice` in what is left of the haystack: how many bytes precede the
first window equal to `needle`. -/
def windowPosition (needle : Bytes) : Bytes → Option Nat
  | [] => if needle.isPrefixOf [] then some 0 else none
  | b :: rest =>
    if needle.isPrefixOf (b :: rest) then some 0
    else (windowPosition needle rest).map (· + 1)

/-- `find_subslice`. -/
def findSubslice (haystack : Bytes) (start : Nat) (needle : Bytes) : Option Nat :=
  if needle = [] ∨ start > haystack.length ∨ needle.length > haystack.length then none
  else (windowPosition needle (haystack.drop start)).map (start + ·)

/-- The `while` loop that skips spaces and tabs from `index` on. -/
def skipBlankBytes (bytes : Bytes) (index : Nat) : Nat :=
  index + ((bytes.drop index).takeWhile fun b => isBlank b.toNat).length

/-- `valid_boundary_line_suffix`. -/
def validBoundaryLineSuffix (haystack : Bytes) (index : Nat) : Bool :=
  let index := if (haystack.drop index).take 2 = [0x2D, 0x2D] then index + 2 else index
  let index := skipBlankBytes haystack index
  index == haystack.length || haystack[index]? == some 0x0A ||
    (haystack[index]? == some 0x0D && haystack[index + 1]? == some 0x0A)

theorem findSubslice_ge {haystack needle : Bytes} {start index : Nat}
    (h : findSubslice haystack start needle = some index) : start ≤ index := by
  unfold findSubslice at h
  split at h
  · exact absurd h (by simp)
  · obtain ⟨k, _, rfl⟩ := Option.map_eq_some_iff.mp h
    omega

theorem windowPosition_lt {needle haystack : Bytes} {k : Nat} (hne : needle ≠ [])
    (h : windowPosition needle haystack = some k) : k < haystack.length := by
  induction haystack generalizing k with
  | nil =>
    cases needle with
    | nil => exact absurd rfl hne
    | cons b needle => simp [windowPosition] at h
  | cons b rest ih =>
    rw [windowPosition] at h
    split at h
    · cases h; simp
    · obtain ⟨k', hk', rfl⟩ := Option.map_eq_some_iff.mp h
      have := ih hk'
      simp only [List.length_cons]
      omega

theorem findSubslice_lt {haystack needle : Bytes} {start index : Nat}
    (h : findSubslice haystack start needle = some index) : index < haystack.length := by
  unfold findSubslice at h
  split at h
  · exact absurd h (by simp)
  · next hguard =>
    obtain ⟨k, hk, rfl⟩ := Option.map_eq_some_iff.mp h
    have := windowPosition_lt (fun hnil => hguard (.inl hnil)) hk
    rw [List.length_drop] at this
    omega

/-- The `while` loop of `find_line_prefix`: `start` is where the search began, `searchFrom`
where it goes on. -/
def findLinePrefixFrom (haystack : Bytes) (start : Nat) (needle : Bytes) (searchFrom : Nat) :
    Option Nat :=
  match h : findSubslice haystack searchFrom needle with
  | none => none
  | some index =>
    if (index = start ∨ haystack[index - 1]? = some 0x0A) ∧
        validBoundaryLineSuffix haystack (index + needle.length) = true then
      some index
    else findLinePrefixFrom haystack start needle (index + 1)
termination_by haystack.length - searchFrom
decreasing_by
  have hge := findSubslice_ge h
  have hlt := findSubslice_lt h
  omega

/-- `find_line_prefix`. -/
def findLinePrefix (haystack : Bytes) (start : Nat) (needle : Bytes) : Option Nat :=
  findLinePrefixFrom haystack start needle start

/-- `strip_trailing_line_ending`. -/
def stripTrailingLineEnding (raw : Bytes) (start stop : Nat) : Nat :=
  if stop > start ∧ raw[stop - 1]? = some 0x0A then
    if stop - 1 > start ∧ raw[stop - 2]? = some 0x0D then stop - 2 else stop - 1
  else stop

theorem findLinePrefixFrom_bounds {haystack needle : Bytes} {start searchFrom index : Nat}
    (h : findLinePrefixFrom haystack start needle searchFrom = some index) :
    searchFrom ≤ index ∧ index < haystack.length := by
  fun_induction findLinePrefixFrom haystack start needle searchFrom with
  | case1 => exact absurd h (by simp)
  | case2 _ _ hfind =>
    cases h
    exact ⟨findSubslice_ge hfind, findSubslice_lt hfind⟩
  | case3 _ _ hfind _ ih =>
    have := ih h
    have := findSubslice_ge hfind
    omega

-- The search results are used in `decreasing_by` only, which the linter does not see.
set_option linter.unusedVariables false in
/-- The slices that the loop of `preflight_part` cuts from `boundaryEnd` on, the offset behind
the delimiter it stands at. -/
def partSlices (raw delimiter : Bytes) (boundaryEnd : Nat) : List Bytes :=
  match hstart : findSubslice raw boundaryEnd [0x0A] with
  | none => []
  | some newline =>
    let partStart := newline + 1
    match hnext : findLinePrefix raw partStart delimiter with
    | none => [slice raw partStart raw.length]
    | some next =>
      let part := slice raw partStart (stripTrailingLineEnding raw partStart next)
      let boundaryEnd := next + delimiter.length
      -- The loop ends at a closing delimiter, and where fewer than two bytes follow this one.
      if boundaryEnd + 2 > raw.length ∨
          (raw[boundaryEnd]? = some 0x2D ∧ raw[boundaryEnd + 1]? = some 0x2D) then
        [part]
      else part :: partSlices raw delimiter boundaryEnd
termination_by raw.length - boundaryEnd
decreasing_by
  have hge := findSubslice_ge hstart
  have hnext' := findLinePrefixFrom_bounds hnext
  omega

/-! ## The recursion -/

/-- What `preflight_part` reads before it looks for parts: the delimiter and the offset of the
body, when the part is a multipart with a boundary and a body. -/
def multipartDelimiter (crates : Crates) (raw : Bytes) (headers : List MailHeader)
    (bodyStart : Nat) : Option Bytes :=
  match getFirstValue headers "Content-Type" with
  | none => none
  | some value =>
    let contentType := crates.parseContentType value
    let mimetype := toAsciiLowercase contentType.mimetype
    if !("multipart/".toList.isPrefixOf mimetype) || raw.length ≤ bodyStart then none
    else (param contentType.params "boundary").map fun boundary =>
      [0x2D, 0x2D] ++ Utf8.encode boundary

/-- The child part slices that `preflight_part` descends into. -/
def childSlices (crates : Crates) (raw : Bytes) (headers : List MailHeader) (bodyStart : Nat) :
    List Bytes :=
  match multipartDelimiter crates raw headers bodyStart with
  | none => []
  | some delimiter =>
    match findLinePrefix raw bodyStart delimiter with
    | none => []
    | some firstBoundary => partSlices raw delimiter (firstBoundary + delimiter.length)

theorem slice_length_le (raw : Bytes) (start stop : Nat) :
    (slice raw start stop).length ≤ raw.length - start := by
  simp only [slice, List.length_take, List.length_drop]
  omega

/-- Every part is shorter than the slice it is cut from: a line feed precedes it. -/
theorem length_lt_of_mem_partSlices {raw delimiter part : Bytes} {boundaryEnd : Nat}
    (h : part ∈ partSlices raw delimiter boundaryEnd) : part.length < raw.length := by
  have hcut : ∀ {start newline stop : Nat}, findSubslice raw start [0x0A] = some newline →
      (slice raw (newline + 1) stop).length < raw.length := by
    intro start newline stop hfind
    have hlt := findSubslice_lt hfind
    have hle := slice_length_le raw (newline + 1) stop
    omega
  fun_induction partSlices raw delimiter boundaryEnd with
  | case1 => exact absurd h (by simp)
  | case2 _ _ hstart => rw [List.mem_singleton.mp h]; exact hcut hstart
  | case3 _ _ hstart => rw [List.mem_singleton.mp h]; exact hcut hstart
  | case4 _ _ hstart _ _ _ _ _ _ ih =>
    rcases List.mem_cons.mp h with rfl | h
    · exact hcut hstart
    · exact ih h

theorem length_lt_of_mem_childSlices {crates : Crates} {raw part : Bytes}
    {headers : List MailHeader} {bodyStart : Nat}
    (h : part ∈ childSlices crates raw headers bodyStart) : part.length < raw.length := by
  unfold childSlices at h
  split at h
  · exact absurd h (by simp)
  · split at h
    · exact absurd h (by simp)
    · exact length_lt_of_mem_partSlices h

/-- `preflight_part`. The count of visited parts is returned instead of written through
`&mut usize`. -/
def preflightPart (crates : Crates) (raw : Bytes) (depth : Nat) (limits : MimeLimits)
    (parts : Nat) : Except Error Nat :=
  if depth > limits.maxDepth then .error (.mimeLimit (.depth depth limits.maxDepth))
  else if parts + 1 > limits.maxParts then .error (.mimeLimit (.parts limits.maxParts))
  else
    match crates.parseHeaders raw with
    | .error e => .error (.crate e)
    | .ok (headers, bodyStart) =>
      (childSlices crates raw headers bodyStart).attach.foldlM
        (fun parts child => preflightPart crates child.val (depth + 1) limits parts) (parts + 1)
termination_by raw.length
decreasing_by exact length_lt_of_mem_childSlices child.property

/-- `preflight_mime_structure`. -/
def preflightMimeStructure (crates : Crates) (bytes : Bytes) (limits : MimeLimits) :
    Except Error Unit :=
  (preflightPart crates bytes 0 limits 0).map fun _ => ()

/-- The recursion of `preflight_part` over its child slices. -/
theorem preflightPart_eq (crates : Crates) (raw : Bytes) (depth : Nat) (limits : MimeLimits)
    (parts : Nat) :
    preflightPart crates raw depth limits parts =
      if depth > limits.maxDepth then .error (.mimeLimit (.depth depth limits.maxDepth))
      else if parts + 1 > limits.maxParts then .error (.mimeLimit (.parts limits.maxParts))
      else
        match crates.parseHeaders raw with
        | .error e => .error (.crate e)
        | .ok (headers, bodyStart) =>
          (childSlices crates raw headers bodyStart).foldlM
            (fun parts child => preflightPart crates child (depth + 1) limits parts)
            (parts + 1) := by
  rw [preflightPart]
  split
  · rfl
  · split
    · rfl
    · cases crates.parseHeaders raw with
      | error e => rfl
      | ok r =>
        simp only
        rw [List.foldlM_subtype (g := fun parts child =>
          preflightPart crates child (depth + 1) limits parts) (by intros; rfl)]
        simp

end Notm.Mail
