import Notm.Mail.HtmlFragments
import Notm.Mail.WalkLeaf

/-!
# The provenance of the HTML scopes

Every part of a tree has a number of attachments below it, and with them a range of attachment
indexes. `HtmlBelow` places an HTML leaf in the tree and collects, from the nearest
`multipart/related` around it outwards, the indexes of the attachments beside the root. The walk
selects an HTML body that is joined from such leaves, each with its own indexes.

* `childRanges_getElem?` — the range of a child holds as many indexes as the child has attachments.
* `HtmlBelow.indexes` — the groups around a leaf hold indexes of attachments, each of them once.
* `assembled_selectMultipartBody` — what one multipart part selects comes from leaves below it.
* `walkPart_assembled` — so does what the walk of a whole message selects.
-/

namespace Notm.Mail

open Rust

/-! ## Attachment indexes of a tree -/

mutual

/-- The number of attachments in a tree. -/
def attachmentCount (crates : Crates) (part : ParsedMail) (namedBodyAllowed : Bool) : Nat :=
  match part with
  | .node data subparts =>
    if subparts = [] then
      (partIsAttachmentLike (crates.toLowercase data.ctype.mimetype)
        (partIsExplicitAttachment data (partFilename data) namedBodyAllowed)
        (cryptoPartKind data).isSome).toNat
    else (subpartCounts crates data subparts namedBodyAllowed subparts 0).sum

/-- The numbers of attachments of the subparts from `index` on. -/
def subpartCounts (crates : Crates) (parent : PartData) (siblings : List ParsedMail)
    (namedBodyAllowed : Bool) (subparts : List ParsedMail) (index : Nat) : List Nat :=
  match subparts with
  | [] => []
  | subpart :: rest =>
    attachmentCount crates subpart
        (namedBodyAllowedForChild parent siblings (crates.toLowercase parent.ctype.mimetype)
          namedBodyAllowed index) ::
      subpartCounts crates parent siblings namedBodyAllowed rest (index + 1)

end

/-- The ranges of consecutive attachments, from their numbers. -/
def rangesFrom (start : Nat) : List Nat → List AttachmentRange
  | [] => []
  | count :: counts => ⟨start, start + count⟩ :: rangesFrom (start + count) counts

/-- The attachment ranges of the children of a part whose own attachments count from `start`. -/
def childRanges (crates : Crates) (data : PartData) (subparts : List ParsedMail)
    (namedBodyAllowed : Bool) (start : Nat) : List AttachmentRange :=
  rangesFrom start (subpartCounts crates data subparts namedBodyAllowed subparts 0)

/-! ## HTML leaves -/

/-- `HtmlBelow crates part namedBodyAllowed start body groups`: `body` is the text of an HTML leaf
in `part`, whose attachments count from `start`; `groups` holds, for each `multipart/related`
whose root the leaf is in, nearest first, the indexes of the attachments below its other
children. -/
inductive HtmlBelow (crates : Crates) :
    ParsedMail → Bool → Nat → Str → List (List Nat) → Prop where
  | leaf {data : PartData} {namedBodyAllowed : Bool} {start : Nat} {body : Str}
      (htype : crates.toLowercase data.ctype.mimetype = "text/html".toList)
      (hbody : data.body = .ok body) :
      HtmlBelow crates (.node data []) namedBodyAllowed start body []
  | child {data : PartData} {subparts : List ParsedMail} {namedBodyAllowed : Bool}
      {start index : Nat} {child : ParsedMail} {range : AttachmentRange} {body : Str}
      {groups : List (List Nat)}
      (hchild : subparts[index]? = some child)
      (hrange : (childRanges crates data subparts namedBodyAllowed start)[index]? = some range)
      (hplain : crates.toLowercase data.ctype.mimetype ≠ "multipart/related".toList)
      (hbelow : HtmlBelow crates child
        (namedBodyAllowedForChild data subparts (crates.toLowercase data.ctype.mimetype)
          namedBodyAllowed index) range.start body groups) :
      HtmlBelow crates (.node data subparts) namedBodyAllowed start body groups
  | root {data : PartData} {subparts : List ParsedMail} {namedBodyAllowed : Bool}
      {start : Nat} {child : ParsedMail} {range : AttachmentRange} {body : Str}
      {groups : List (List Nat)}
      (hchild : subparts[relatedRootIndex data subparts]? = some child)
      (hrange : (childRanges crates data subparts namedBodyAllowed start)[
        relatedRootIndex data subparts]? = some range)
      (hrelated : crates.toLowercase data.ctype.mimetype = "multipart/related".toList)
      (hbelow : HtmlBelow crates child
        (namedBodyAllowedForChild data subparts (crates.toLowercase data.ctype.mimetype)
          namedBodyAllowed (relatedRootIndex data subparts)) range.start body groups) :
      HtmlBelow crates (.node data subparts) namedBodyAllowed start body
        (groups ++ [nonRootIndexes (relatedRootIndex data subparts)
          (childRanges crates data subparts namedBodyAllowed start)])

/-- The `part_indexes` of a scope with the given groups: none outside of any
`multipart/related`. -/
def lookupIndexes (groups : List (List Nat)) : Option (List Nat) :=
  if groups = [] then none else some groups.flatten

/-- A fragment that comes from an HTML leaf of the part. -/
def FragmentOf (crates : Crates) (part : ParsedMail) (namedBodyAllowed : Bool) (start : Nat)
    (f : Fragment) : Prop :=
  ∃ groups, HtmlBelow crates part namedBodyAllowed start f.body groups ∧
    f.partIndexes = lookupIndexes groups

variable {crates : Crates}

/-! ## Ranges -/

/-- A range lies within the whole, and is as long as its count says. -/
theorem rangesFrom_bounds {start index : Nat} {counts : List Nat} {range : AttachmentRange}
    (h : (rangesFrom start counts)[index]? = some range) :
    start ≤ range.start ∧ range.start ≤ range.stop ∧ range.stop ≤ start + counts.sum ∧
      counts[index]? = some (range.stop - range.start) := by
  induction counts generalizing start index with
  | nil => exact absurd h (by simp [rangesFrom])
  | cons count counts ih =>
    cases index with
    | zero =>
      cases h
      simp
    | succ index =>
      have htail : (rangesFrom (start + count) counts)[index]? = some range := by
        simpa [rangesFrom] using h
      obtain ⟨hstart, hle, hstop, hcount⟩ := ih htail
      simp only [List.sum_cons, List.getElem?_cons_succ]
      exact ⟨by omega, hle, by omega, hcount⟩

/-- The indexes of the ranges but that at `root`, where the ranges stand from position `k` on. -/
theorem mem_nonRootFrom {root start k n : Nat} {counts : List Nat}
    (h : n ∈ ((rangesFrom start counts).zipIdx k).flatMap fun (range, index) =>
      if index = root then [] else range.indexes) :
    start ≤ n ∧ n < start + counts.sum ∧
      ∀ range, k ≤ root → (rangesFrom start counts)[root - k]? = some range →
        n < range.start ∨ range.stop ≤ n := by
  induction counts generalizing start k with
  | nil => exact absurd h (by simp [rangesFrom])
  | cons count counts ih =>
    simp only [rangesFrom, List.zipIdx_cons, List.flatMap_cons, List.mem_append] at h
    rw [List.sum_cons]
    rcases h with h | h
    · split at h
      · exact absurd h (by simp)
      · next hroot =>
        simp only [AttachmentRange.indexes, List.mem_range'_1] at h
        refine ⟨h.1, by omega, fun range hk hrange => .inl ?_⟩
        obtain ⟨k', hk'⟩ : ∃ k', root - k = k' + 1 := ⟨root - k - 1, by omega⟩
        rw [hk', rangesFrom, List.getElem?_cons_succ] at hrange
        have := (rangesFrom_bounds hrange).1
        omega
    · obtain ⟨hstart, hstop, hrest⟩ := ih h
      refine ⟨by omega, by omega, fun range hk hrange => ?_⟩
      by_cases hroot : k = root
      · rw [hroot, Nat.sub_self] at hrange
        cases hrange
        exact .inr hstart
      · obtain ⟨k', hk'⟩ : ∃ k', root - k = k' + 1 := ⟨root - k - 1, by omega⟩
        rw [hk', rangesFrom, List.getElem?_cons_succ] at hrange
        refine hrest range (by omega) ?_
        rwa [show root - (k + 1) = k' by omega]

theorem nodup_nonRootFrom (root start k : Nat) (counts : List Nat) :
    (((rangesFrom start counts).zipIdx k).flatMap fun (range, index) =>
      if index = root then [] else range.indexes).Nodup := by
  induction counts generalizing start k with
  | nil => exact List.nodup_nil
  | cons count counts ih =>
    simp only [rangesFrom, List.zipIdx_cons, List.flatMap_cons]
    refine List.nodup_append.mpr ⟨?_, ih _ _, ?_⟩
    · split
      · exact List.nodup_nil
      · exact List.nodup_range'
    · intro a ha b hb
      have hb := (mem_nonRootFrom hb).1
      split at ha
      · exact absurd ha (by simp)
      · simp only [AttachmentRange.indexes, List.mem_range'_1] at ha
        omega

/-- What stands beside the root of a `multipart/related` is within the part and outside of the
root. -/
theorem mem_nonRootIndexes {root start n : Nat} {counts : List Nat}
    (h : n ∈ nonRootIndexes root (rangesFrom start counts)) :
    start ≤ n ∧ n < start + counts.sum ∧
      ∀ range, (rangesFrom start counts)[root]? = some range →
        n < range.start ∨ range.stop ≤ n := by
  obtain ⟨hstart, hstop, hroot⟩ := mem_nonRootFrom h
  exact ⟨hstart, hstop, fun range hrange => hroot range (Nat.zero_le _) (by simpa using hrange)⟩

/-- Pushing indexes that are not there yet appends them. -/
theorem foldl_pushUnseen (related indexes : List Nat) (hnodup : related.Nodup)
    (hdisjoint : ∀ n ∈ related, n ∉ indexes) :
    related.foldl pushUnseen indexes = indexes ++ related := by
  induction related generalizing indexes with
  | nil => simp
  | cons n related ih =>
    rw [List.foldl_cons, pushUnseen, if_neg (hdisjoint n (by simp)),
      ih _ (List.nodup_cons.mp hnodup).2, List.append_assoc]
    · rfl
    · intro m hm hmem
      rcases List.mem_append.mp hmem with hmem | hmem
      · exact hdisjoint m (by simp [hm]) hmem
      · rw [List.mem_singleton.mp hmem] at hm
        exact (List.nodup_cons.mp hnodup).1 hm

theorem subpartCounts_getElem? {parent : PartData} {siblings : List ParsedMail}
    {namedBodyAllowed : Bool} {subparts : List ParsedMail} {index k : Nat} {child : ParsedMail}
    (h : subparts[k]? = some child) :
    (subpartCounts crates parent siblings namedBodyAllowed subparts index)[k]? =
      some (attachmentCount crates child
        (namedBodyAllowedForChild parent siblings (crates.toLowercase parent.ctype.mimetype)
          namedBodyAllowed (index + k))) := by
  induction subparts generalizing index k with
  | nil => exact absurd h (by simp)
  | cons subpart rest ih =>
    rw [subpartCounts]
    cases k with
    | zero =>
      cases h
      rfl
    | succ k =>
      rw [List.getElem?_cons_succ, ih (by simpa using h), Nat.add_assoc, Nat.add_comm 1 k]

/-- A child's range holds as many indexes as the child has attachments. -/
theorem childRanges_getElem? {data : PartData} {subparts : List ParsedMail}
    {namedBodyAllowed : Bool} {start index : Nat} {child : ParsedMail} {range : AttachmentRange}
    (hchild : subparts[index]? = some child)
    (hrange : (childRanges crates data subparts namedBodyAllowed start)[index]? = some range) :
    range.stop = range.start + attachmentCount crates child
        (namedBodyAllowedForChild data subparts (crates.toLowercase data.ctype.mimetype)
          namedBodyAllowed index) ∧
      start ≤ range.start ∧
      range.stop ≤ start + attachmentCount crates (.node data subparts) namedBodyAllowed := by
  obtain ⟨hstart, hle, hstop, hcount⟩ := rangesFrom_bounds hrange
  rw [subpartCounts_getElem? hchild, Option.some.injEq, Nat.zero_add] at hcount
  have hcons : subparts ≠ [] := by
    rintro rfl
    exact absurd hchild (by simp)
  rw [attachmentCount, if_neg hcons]
  exact ⟨by omega, hstart, hstop⟩

/-- The groups around an HTML leaf hold indexes of attachments of the part, each once. A
`multipart/related` adds the indexes beside its root, which lie outside of the range of the root and
so outside of all groups collected in it. -/
theorem HtmlBelow.indexes {part : ParsedMail} {namedBodyAllowed : Bool} {start : Nat}
    {body : Str} {groups : List (List Nat)}
    (h : HtmlBelow crates part namedBodyAllowed start body groups) :
    groups.flatten.Nodup ∧ ∀ n ∈ groups.flatten, start ≤ n ∧
      n < start + attachmentCount crates part namedBodyAllowed := by
  induction h with
  | leaf => exact ⟨List.nodup_nil, by simp⟩
  | child hchild hrange _ _ ih =>
    obtain ⟨hstop, hstart, hbound⟩ := childRanges_getElem? hchild hrange
    refine ⟨ih.1, fun n hn => ?_⟩
    have := ih.2 n hn
    omega
  | @root data subparts named start child range body groups hchild hrange hrelated _ ih =>
    obtain ⟨hstop, hstart, hbound⟩ := childRanges_getElem? hchild hrange
    have hcons : subparts ≠ [] := by
      rintro rfl
      exact absurd hchild (by simp)
    rw [List.flatten_append, List.flatten_singleton]
    constructor
    · refine List.nodup_append.mpr ⟨ih.1, nodup_nonRootFrom _ _ _ _, fun a ha b hb => ?_⟩
      have ha := ih.2 a ha
      have hb := (mem_nonRootIndexes hb).2.2 range hrange
      omega
    · intro n hn
      rcases List.mem_append.mp hn with hn | hn
      · have := ih.2 n hn
        omega
      · obtain ⟨hge, hlt, _⟩ := mem_nonRootIndexes hn
        rw [attachmentCount, if_neg hcons]
        exact ⟨hge, hlt⟩

/-! ## The walk -/

/-- The selections of the subparts are assembled from the HTML leaves of their own parts. -/
def SelectionsOf (crates : Crates) (parent : PartData) (siblings : List ParsedMail)
    (namedBodyAllowed : Bool) (subparts : List ParsedMail) (index : Nat)
    (selections : List BodySelection) (ranges : List AttachmentRange) : Prop :=
  ∀ k selection, selections[k]? = some selection → ∃ child range, subparts[k]? = some child ∧
    ranges[k]? = some range ∧
    Assembled (FragmentOf crates child
      (namedBodyAllowedForChild parent siblings (crates.toLowercase parent.ctype.mimetype)
        namedBodyAllowed (index + k)) range.start) selection

/-- What `select_multipart_body` selects is assembled from the leaves of the part. -/
theorem assembled_selectMultipartBody {data : PartData} {subparts : List ParsedMail}
    {namedBodyAllowed : Bool} {start : Nat} {selections : List BodySelection}
    (h : SelectionsOf crates data subparts namedBodyAllowed subparts 0 selections
      (childRanges crates data subparts namedBodyAllowed start)) :
    Assembled (FragmentOf crates (.node data subparts) namedBodyAllowed start)
      (selectMultipartBody data subparts (crates.toLowercase data.ctype.mimetype) selections
        (childRanges crates data subparts namedBodyAllowed start)) := by
  -- Under any type but `multipart/related` a leaf of a child is a leaf of the part with the same
  -- groups.
  have hchild : crates.toLowercase data.ctype.mimetype ≠ "multipart/related".toList →
      ∀ s ∈ selections,
        Assembled (FragmentOf crates (.node data subparts) namedBodyAllowed start) s := by
    intro hplain s hs
    obtain ⟨k, hk⟩ := List.mem_iff_getElem?.mp hs
    obtain ⟨child, range, hchild, hrange, hassembled⟩ := h k s hk
    rw [Nat.zero_add] at hassembled
    refine hassembled.mono fun f hf => ?_
    obtain ⟨groups, hbelow, hindexes⟩ := hf
    exact ⟨groups, .child hchild hrange hplain hbelow, hindexes⟩
  unfold selectMultipartBody
  split
  · next halternative =>
    refine assembled_foldl Assembled.replaceSupported (hchild ?_) assembled_default
    rw [halternative]
    decide +kernel
  split
  · next hrelated =>
    refine assembled_selectRelatedBody (P := fun f => ∃ child range,
      subparts[relatedRootIndex data subparts]? = some child ∧
      (childRanges crates data subparts namedBodyAllowed start)[
        relatedRootIndex data subparts]? = some range ∧
      FragmentOf crates child (namedBodyAllowedForChild data subparts
        (crates.toLowercase data.ctype.mimetype) namedBodyAllowed
        (relatedRootIndex data subparts)) range.start f) ?_ ?_
    · intro s hs
      -- only the root of a `multipart/related` contributes a body
      obtain ⟨child, range, hchild, hrange, hassembled⟩ := h _ s hs
      rw [Nat.zero_add] at hassembled
      exact hassembled.mono fun f hf => ⟨child, range, hchild, hrange, hf⟩
    · rintro f ⟨child, range, hchild, hrange, groups, hbelow, hindexes⟩
      refine ⟨_, .root hchild hrange hrelated hbelow, ?_⟩
      -- the groups of the root are disjoint from what stands beside it
      have hroot : f.partIndexes.getD [] = groups.flatten := by
        rw [hindexes, lookupIndexes]
        split
        · next hnil => rw [hnil]; rfl
        · rfl
      have hstop := (childRanges_getElem? hchild hrange).1
      have hpush := foldl_pushUnseen
        (nonRootIndexes (relatedRootIndex data subparts)
          (childRanges crates data subparts namedBodyAllowed start))
        groups.flatten (nodup_nonRootFrom _ _ _ _) fun n hn hmem => by
          have hin := hbelow.indexes.2 n hmem
          have hout := (mem_nonRootIndexes hn).2.2 range hrange
          omega
      rw [lookupIndexes, if_neg (by simp), List.flatten_append, List.flatten_singleton,
        Fragment.relate, hroot, hpush]
  next hplain =>
  split
  · cases hs : selections with
    | nil => exact assembled_default
    | cons s rest => exact hchild hplain s (by simp [hs])
  split
  · exact assembled_default
  · exact assembled_foldl Assembled.append (hchild hplain) assembled_default

/-- A leaf selects at most one HTML body, and only that of an HTML part. -/
theorem assembled_walkLeaf {data : PartData} {namedBodyAllowed explicitlyAttached : Bool}
    {filename : Option Str} {start : Nat} {state state' : ParseState}
    {selection : BodySelection}
    (h : walkLeaf crates data (crates.toLowercase data.ctype.mimetype) filename
      explicitlyAttached state = .ok (selection, state')) :
    Assembled (FragmentOf crates (.node data []) namedBodyAllowed start) selection := by
  rcases walkLeaf_cases h with ⟨_, rfl, _⟩ | ⟨_, hselection, _⟩
  · exact assembled_default
  · rcases hselection with rfl | ⟨body, hbody, rfl⟩
    · exact assembled_default
    · unfold bodySelectionOf
      split
      · exact ⟨[], by simp, rfl, rfl⟩
      split
      · next hhtml =>
        refine ⟨[⟨body, none⟩], fun f hf => ?_, rfl, ?_⟩
        · rw [List.mem_singleton.mp hf]
          exact ⟨[], .leaf hhtml hbody, rfl⟩
        · simp [scopesFrom, wholeScope]
      split
      · exact ⟨[], by simp, rfl, rfl⟩
      · exact assembled_default

mutual

/-- The run over a part: its attachments take the next indexes, in order, and its HTML is
assembled from its leaves. -/
theorem walkPart_assembled (part : ParsedMail) {depth : Nat} {path : List Nat}
    {namedBodyAllowed : Bool} {state state' : ParseState} {selection : BodySelection}
    (h : walkPart crates part depth path namedBodyAllowed state = .ok (selection, state')) :
    Assembled (FragmentOf crates part namedBodyAllowed state.nextAttachmentIndex) selection ∧
      state'.nextAttachmentIndex =
        state.nextAttachmentIndex + attachmentCount crates part namedBodyAllowed ∧
      state'.attachments.map (·.partIndex) = state.attachments.map (·.partIndex) ++
        List.range' state.nextAttachmentIndex (attachmentCount crates part namedBodyAllowed) := by
  match part with
  | .node data subparts =>
    rw [walkPart] at h
    split at h
    · next hnil =>
      subst hnil
      refine ⟨assembled_walkLeaf h, ?_⟩
      rw [attachmentCount, if_pos rfl]
      rcases walkLeaf_cases h with ⟨hlike, _, hwalk⟩ | ⟨hlike, _, hattachments, hnext, _⟩
      · obtain ⟨hattachments, hnext, _⟩ := walkAttachment_eq_ok hwalk
        rw [hnext, hattachments, hlike, List.map_append, List.map_singleton,
          attachmentEntry_partIndex]
        exact ⟨rfl, rfl⟩
      · rw [hnext, hattachments, hlike]
        exact ⟨rfl, (List.append_nil _).symm⟩
    · next hcons =>
      split at h
      · exact absurd h (by simp)
      · next selections ranges final hwalk =>
        cases h
        obtain ⟨hranges, hnext, hindexes, hselections⟩ := walkSubparts_assembled subparts hwalk
        have hstart : (state.enter crates data depth path).nextAttachmentIndex =
            state.nextAttachmentIndex := rfl
        rw [hstart] at hranges hnext
        refine ⟨?_, by rw [hnext, attachmentCount, if_neg hcons],
          by rw [hindexes, attachmentCount, if_neg hcons]; rfl⟩
        split
        · exact assembled_default
        · rw [hranges] at hselections ⊢
          exact assembled_selectMultipartBody hselections

/-- The run over the subparts of one part. -/
theorem walkSubparts_assembled {parent : PartData} {siblings : List ParsedMail}
    (subparts : List ParsedMail) {depth index : Nat} {path : List Nat} {namedBodyAllowed : Bool}
    {state state' : ParseState} {selections : List BodySelection} {ranges : List AttachmentRange}
    (h : walkSubparts crates parent siblings (crates.toLowercase parent.ctype.mimetype)
      namedBodyAllowed depth path subparts index state = .ok (selections, ranges, state')) :
    ranges = rangesFrom state.nextAttachmentIndex
        (subpartCounts crates parent siblings namedBodyAllowed subparts index) ∧
      state'.nextAttachmentIndex = state.nextAttachmentIndex +
        (subpartCounts crates parent siblings namedBodyAllowed subparts index).sum ∧
      state'.attachments.map (·.partIndex) = state.attachments.map (·.partIndex) ++
        List.range' state.nextAttachmentIndex
          (subpartCounts crates parent siblings namedBodyAllowed subparts index).sum ∧
      SelectionsOf crates parent siblings namedBodyAllowed subparts index selections ranges := by
  match subparts with
  | [] =>
    rw [walkSubparts] at h
    cases h
    exact ⟨rfl, rfl, (List.append_nil _).symm, fun k selection hk => absurd hk (by simp)⟩
  | subpart :: rest =>
    rw [walkSubparts] at h
    split at h
    · exact absurd h (by simp)
    · next first after hfirst =>
      split at h
      · exact absurd h (by simp)
      · next others otherRanges final hothers =>
        cases h
        obtain ⟨hassembled, hafter, hfirstIndexes⟩ := walkPart_assembled subpart hfirst
        obtain ⟨hranges, hnext, hrestIndexes, hselections⟩ := walkSubparts_assembled rest hothers
        rw [subpartCounts, rangesFrom, List.sum_cons, ← hafter]
        refine ⟨by rw [hranges], by rw [hnext, hafter]; omega, ?_, fun k selection hk => ?_⟩
        · rw [hrestIndexes, hfirstIndexes, hafter, List.append_assoc, List.range'_append_1]
        cases k with
        | zero =>
          cases hk
          exact ⟨subpart, _, rfl, rfl, hassembled⟩
        | succ k =>
          obtain ⟨child, range, hchild, hrange, hassembled⟩ :=
            hselections k selection (by simpa using hk)
          refine ⟨child, range, by simpa using hchild, by simpa using hrange, ?_⟩
          rwa [show index + (k + 1) = index + 1 + k by omega]

end

end Notm.Mail
