import Notm.Lib.FirstIndex
import Notm.Mail.Preflight
import Notm.Ui.MimePreflight

/-!
# The two boundary scanners find the same lines

`find_line_prefix` of `notm-mail` and `find_mime_boundary_line` of the thread loader are written
apart, over two byte searches. Both return the first boundary line from their start on
(`BoundaryLine`), hence the same one; what the loader records about the line it returns is what
`notm-mail` reads off the bytes behind the delimiter.

* `parseMimeBoundaryLine_eq` — what the loader records about a boundary line.
* `findMimeBoundaryLine_eq` — it finds one exactly where `find_line_prefix` does.
-/

namespace Notm.Ui

open Rust Mail

/-! ## What a boundary line is -/

/-- The bytes behind a delimiter are those of a boundary line: the closing dashes or none,
blanks, and then the end of the data or of the line. -/
def LineSuffix (raw : Bytes) (index : Nat) : Prop := validBoundaryLineSuffix raw index = true

instance (raw : Bytes) (index : Nat) : Decidable (LineSuffix raw index) := by
  unfold LineSuffix; infer_instance

/-- A boundary line starts at `index`: the delimiter stands there, at the beginning of the
searched bytes or behind a line feed, with nothing but a line suffix after it. -/
def BoundaryLine (raw delimiter : Bytes) (start index : Nat) : Prop :=
  delimiter <+: raw.drop index ∧ (index = start ∨ raw[index - 1]? = some 0x0A) ∧
    LineSuffix raw (index + delimiter.length)

/-- The delimiter that ends at `index` is a closing one. -/
def ClosingAt (raw : Bytes) (index : Nat) : Prop := (raw.drop index).take 2 = [0x2D, 0x2D]

instance (raw : Bytes) (index : Nat) : Decidable (ClosingAt raw index) := by
  unfold ClosingAt; infer_instance

/-! ## The searches -/

theorem windowPosition_first {needle : Bytes} (hne : needle ≠ []) (haystack : Bytes) :
    FirstIndex (fun k => needle <+: haystack.drop k) 0 (windowPosition needle haystack) := by
  induction haystack with
  | nil =>
    obtain ⟨b, needle, rfl⟩ := List.exists_cons_of_ne_nil hne
    intro j _
    simp
  | cons b rest ih =>
    rw [windowPosition]
    split
    · next h => exact ⟨le_rfl, List.isPrefixOf_iff_prefix.mp h, fun j _ hlt =>
        absurd hlt (Nat.not_lt_zero j)⟩
    · next h =>
      have h0 : ¬ needle <+: (b :: rest).drop 0 := fun hp => h (List.isPrefixOf_iff_prefix.mpr hp)
      cases hw : windowPosition needle rest with
      | none =>
        rw [hw] at ih
        intro j _
        cases j with
        | zero => exact h0
        | succ j => exact ih j (Nat.zero_le _)
      | some k =>
        rw [hw] at ih
        refine ⟨Nat.zero_le _, ih.2.1, fun j _ hlt => ?_⟩
        cases j with
        | zero => exact h0
        | succ j => exact ih.2.2 j (Nat.zero_le _) (Nat.lt_of_succ_lt_succ hlt)

/-- Where the needle stands there is room for it. -/
theorem length_le_of_prefix_drop {needle raw : Bytes} {j : Nat} (hne : needle ≠ [])
    (h : needle <+: raw.drop j) : j + needle.length ≤ raw.length := by
  have hle := h.length_le
  have hpos := List.length_pos_iff.mpr hne
  rw [List.length_drop] at hle
  omega

theorem findSubslice_first {needle : Bytes} (hne : needle ≠ []) (haystack : Bytes)
    (start : Nat) :
    FirstIndex (fun j => needle <+: haystack.drop j) start
      (findSubslice haystack start needle) := by
  unfold findSubslice
  split
  · next h =>
    intro j hj hp
    have := length_le_of_prefix_drop hne hp
    rcases h with h | h | h
    · exact hne h
    · omega
    · omega
  · have h := windowPosition_first hne (haystack.drop start)
    simp only [List.drop_drop] at h
    exact h.shift

theorem findBytes_first {needle : Bytes} (hne : needle ≠ []) (bytes : Bytes) (start : Nat) :
    FirstIndex (fun j => needle <+: bytes.drop j) start (findBytes bytes start needle) := by
  unfold findBytes
  split
  · next h =>
    intro j hj hp
    have := length_le_of_prefix_drop hne hp
    omega
  · simp only [← List.isPrefixOf_iff_prefix]
    refine FirstIndex.of_find?_range' fun j hj => ?_
    by_contra hp
    have := length_le_of_prefix_drop hne
      (List.isPrefixOf_iff_prefix.mp (Bool.of_not_eq_false hp))
    omega

theorem findLinePrefixFrom_first {delimiter : Bytes} (hne : delimiter ≠ []) (raw : Bytes)
    (start searchFrom : Nat) :
    FirstIndex (BoundaryLine raw delimiter start) searchFrom
      (findLinePrefixFrom raw start delimiter searchFrom) := by
  fun_induction findLinePrefixFrom raw start delimiter searchFrom with
  | case1 searchFrom hfind =>
    have h := findSubslice_first hne raw searchFrom
    rw [hfind] at h
    exact h.none_and
  | case2 searchFrom index hfind hline =>
    have h := findSubslice_first hne raw searchFrom
    rw [hfind] at h
    exact h.keep hline
  | case3 searchFrom index hfind hline ih =>
    have h := findSubslice_first hne raw searchFrom
    rw [hfind] at h
    exact h.skip hline ih

/-! ## What the loader records about a line

Both scanners read the bytes behind a delimiter in the same order: the closing dashes, the
blanks, and the end of the line. `lineEnd` is what remains after the first two. -/

/-- What is left of the bytes behind a delimiter after the closing dashes and the blanks. -/
def lineEnd (tail : Bytes) : Bytes :=
  (if tail.take 2 = [0x2D, 0x2D] then tail.drop 2 else tail).dropWhile fun b => isBlank b.toNat

theorem drop_skipLinearWhitespace (raw : Bytes) (cursor : Nat) :
    raw.drop (skipLinearWhitespace raw cursor) =
      (raw.drop cursor).dropWhile fun b => isBlank b.toNat := by
  rw [skipLinearWhitespace, ← List.drop_drop]
  generalize raw.drop cursor = rest
  have h := List.takeWhile_append_dropWhile (p := fun b : UInt8 => isBlank b.toNat) (l := rest)
  calc rest.drop (rest.takeWhile fun b => isBlank b.toNat).length
      = ((rest.takeWhile fun b => isBlank b.toNat) ++
          (rest.dropWhile fun b => isBlank b.toNat)).drop
            (rest.takeWhile fun b => isBlank b.toNat).length := by rw [h]
    _ = rest.dropWhile fun b => isBlank b.toNat := List.drop_left

/-- The cursor at which both scanners read the end of the line. -/
def lineEndCursor (raw : Bytes) (index : Nat) : Nat :=
  skipLinearWhitespace raw
    (if (raw.drop index).take 2 = [0x2D, 0x2D] then index + 2 else index)

theorem drop_lineEndCursor (raw : Bytes) (index : Nat) :
    raw.drop (lineEndCursor raw index) = lineEnd (raw.drop index) := by
  rw [lineEndCursor, drop_skipLinearWhitespace, lineEnd]
  split
  · rw [List.drop_drop]
  · rfl

/-- No line feed stands between a delimiter and the end of its line. -/
theorem exists_append_lineEnd (tail : Bytes) :
    ∃ pre, tail = pre ++ lineEnd tail ∧ (0x0A : UInt8) ∉ pre := by
  have hblank : ∀ l : Bytes, (0x0A : UInt8) ∉ l.takeWhile fun b => isBlank b.toNat := by
    intro l hmem
    have := List.mem_takeWhile_imp hmem
    simp [isBlank] at this
  unfold lineEnd
  split
  · next h =>
    refine ⟨[0x2D, 0x2D] ++ (tail.drop 2).takeWhile fun b => isBlank b.toNat, ?_, ?_⟩
    · rw [List.append_assoc, List.takeWhile_append_dropWhile, ← h, List.take_append_drop]
    · have := hblank (tail.drop 2)
      simp [this]
  · exact ⟨tail.takeWhile fun b => isBlank b.toNat,
      (List.takeWhile_append_dropWhile).symm, hblank tail⟩

theorem lineEndCursor_eq {raw : Bytes} {index : Nat} (hle : index ≤ raw.length) :
    lineEndCursor raw index + (lineEnd (raw.drop index)).length = raw.length := by
  have hdrop := congrArg List.length (drop_lineEndCursor raw index)
  rw [List.length_drop] at hdrop
  have hcursor : lineEndCursor raw index ≤ raw.length := by
    unfold lineEndCursor skipLinearWhitespace
    have hpre := (List.takeWhile_prefix (l := raw.drop
      (if (raw.drop index).take 2 = [0x2D, 0x2D] then index + 2 else index))
      fun b => isBlank b.toNat).length_le
    rw [List.length_drop] at hpre
    have hstart : (if (raw.drop index).take 2 = [0x2D, 0x2D] then index + 2 else index)
        ≤ raw.length := by
      split
      · next h =>
        have := congrArg List.length h
        simp only [List.length_take, List.length_drop, List.length_cons, List.length_nil] at this
        omega
      · exact hle
    omega
  omega

/-- The end of a line: the end of the data, a line feed, or a carriage return and a line
feed. -/
inductive IsLineEnd : Bytes → Prop where
  | eof : IsLineEnd []
  | lf (rest : Bytes) : IsLineEnd (0x0A :: rest)
  | crlf (rest : Bytes) : IsLineEnd (0x0D :: 0x0A :: rest)

theorem lineSuffix_iff {raw : Bytes} {index : Nat} (hle : index ≤ raw.length) :
    LineSuffix raw index ↔ IsLineEnd (lineEnd (raw.drop index)) := by
  have hcursor := lineEndCursor_eq hle
  have hget : ∀ k, raw[lineEndCursor raw index + k]? = (lineEnd (raw.drop index))[k]? := by
    intro k
    rw [← drop_lineEndCursor, List.getElem?_drop]
  have hdef : LineSuffix raw index ↔ lineEndCursor raw index = raw.length ∨
      raw[lineEndCursor raw index]? = some 0x0A ∨
      (raw[lineEndCursor raw index]? = some 0x0D ∧
        raw[lineEndCursor raw index + 1]? = some 0x0A) := by
    simp only [LineSuffix, validBoundaryLineSuffix, lineEndCursor, skipLinearWhitespace,
      skipBlankBytes, Bool.or_eq_true, Bool.and_eq_true, beq_iff_eq, or_assoc]
  rw [hdef, hget 1, show raw[lineEndCursor raw index]? = (lineEnd (raw.drop index))[0]? from
    hget 0]
  generalize lineEnd (raw.drop index) = rest at hcursor ⊢
  constructor
  · rintro (h | h | ⟨h, h'⟩)
    · have : rest.length = 0 := by omega
      rw [List.length_eq_zero_iff.mp this]
      exact .eof
    · cases rest with
      | nil => simp at h
      | cons b rest =>
        simp only [List.getElem?_cons_zero, Option.some.injEq] at h
        subst h
        exact .lf rest
    · rcases rest with _ | ⟨b, _ | ⟨c, rest⟩⟩
      · simp at h
      · simp at h'
      · simp only [List.getElem?_cons_zero, List.getElem?_cons_succ, Option.some.injEq] at h h'
        subst h h'
        exact .crlf rest
  · rintro (_ | rest | rest)
    · left; simpa using hcursor
    · right; left; rfl
    · right; right; exact ⟨rfl, rfl⟩

theorem windowPosition_lf_append {pre : Bytes} (hpre : (0x0A : UInt8) ∉ pre) (rest : Bytes) :
    windowPosition [0x0A] (pre ++ rest) = (windowPosition [0x0A] rest).map (pre.length + ·) := by
  induction pre with
  | nil => cases h : windowPosition [0x0A] rest <;> simp [h]
  | cons b pre ih =>
    simp only [List.mem_cons, not_or] at hpre
    have hb : ¬ (List.isPrefixOf [0x0A] (b :: (pre ++ rest)) = true) := by
      simpa [List.isPrefixOf] using hpre.1
    rw [List.cons_append, windowPosition, if_neg hb, ih hpre.2, Option.map_map]
    congr 1
    funext k
    simp only [Function.comp_apply, List.length_cons]
    omega

/-- What `parse_mime_boundary_line` returns once it stands on the end of the line. -/
def boundaryLineAt (raw : Bytes) (start cursor : Nat) (closing : Bool) :
    Option MimeBoundaryLine :=
  match raw[cursor]? with
  | none => some ⟨start, none, closing⟩
  | some b =>
    if b = 0x0A then some ⟨start, some (cursor + 1), closing⟩
    else if b = 0x0D ∧ raw[cursor + 1]? = some 0x0A then some ⟨start, some (cursor + 2), closing⟩
    else none

/-- **What the loader records about a boundary line**: its start, the offset behind the first
line feed after the delimiter, and whether the delimiter is a closing one. -/
theorem parseMimeBoundaryLine_eq {raw : Bytes} {start markerLen : Nat}
    (hle : start + markerLen ≤ raw.length) :
    parseMimeBoundaryLine raw start markerLen =
      if LineSuffix raw (start + markerLen) then
        some ⟨start, (findSubslice raw (start + markerLen) [0x0A]).map (· + 1),
          decide (ClosingAt raw (start + markerLen))⟩
      else none := by
  set index := start + markerLen with hindex
  have hget : ∀ k, raw[lineEndCursor raw index + k]? = (lineEnd (raw.drop index))[k]? := by
    intro k
    rw [← drop_lineEndCursor, List.getElem?_drop]
  have hcursor := lineEndCursor_eq hle
  -- the first line feed behind the delimiter is the one that ends the line
  obtain ⟨pre, hpre, hlf⟩ := exists_append_lineEnd (raw.drop index)
  have hprelen : index + pre.length = lineEndCursor raw index := by
    have := congrArg List.length hpre
    rw [List.length_drop, List.length_append] at this
    omega
  have hfind : findSubslice raw index [0x0A] =
      (windowPosition [0x0A] (lineEnd (raw.drop index))).map (lineEndCursor raw index + ·) := by
    unfold findSubslice
    split
    · next h =>
      have hnil : lineEnd (raw.drop index) = [] := by
        rcases h with h | h | h
        · exact absurd h (by simp)
        · omega
        · rw [List.length_singleton] at h
          exact List.length_eq_zero_iff.mp (by omega)
      rw [hnil]
      rfl
    · conv_lhs => rw [hpre, windowPosition_lf_append hlf, Option.map_map]
      congr 1
      funext k
      simp only [Function.comp_apply]
      omega
  have hparse : parseMimeBoundaryLine raw start markerLen =
      boundaryLineAt raw start (lineEndCursor raw index) (decide (ClosingAt raw index)) := by
    simp only [parseMimeBoundaryLine, boundaryLineAt, lineEndCursor, ClosingAt,
      decide_eq_true_eq, ← hindex]
    rfl
  rw [hparse, boundaryLineAt, hget 1, hfind, show raw[lineEndCursor raw index]? =
    (lineEnd (raw.drop index))[0]? from hget 0]
  by_cases hsuffix : LineSuffix raw index
  · rw [if_pos hsuffix]
    have hend := (lineSuffix_iff hle).mp hsuffix
    cases hrest : lineEnd (raw.drop index) with
    | nil => simp [windowPosition]
    | cons b rest =>
      rw [hrest] at hend
      cases hend with
      | lf => simp [windowPosition]
      | crlf rest => simp [windowPosition, Nat.add_assoc]
  · rw [if_neg hsuffix]
    have hend := mt (lineSuffix_iff hle).mpr hsuffix
    cases hrest : lineEnd (raw.drop index) with
    | nil => rw [hrest] at hend; exact absurd .eof hend
    | cons b rest =>
      rw [hrest] at hend
      simp only [List.getElem?_cons_zero, List.getElem?_cons_succ]
      have hb : b ≠ 0x0A := by
        rintro rfl
        exact hend (.lf rest)
      rw [if_neg hb]
      refine if_neg fun hcr => hend ?_
      cases rest with
      | nil => simp at hcr
      | cons c rest =>
        simp only [List.getElem?_cons_zero, Option.some.injEq] at hcr
        rw [hcr.1, hcr.2]
        exact .crlf rest

/-- **The scanners agree.** The loader finds a boundary line exactly where `find_line_prefix`
finds one, and records what `notm-mail` reads behind the delimiter. -/
theorem findMimeBoundaryLine_eq {delimiter : Bytes} (hne : delimiter ≠ []) (raw : Bytes)
    (start : Nat) :
    findMimeBoundaryLine raw start delimiter =
      (findLinePrefix raw start delimiter).map fun index =>
        ⟨index, (findSubslice raw (index + delimiter.length) [0x0A]).map (· + 1),
          decide (ClosingAt raw (index + delimiter.length))⟩ := by
  -- The loader's loop: it passes over what is not at the beginning of a line, and over delimiters
  -- with a wrong suffix.
  have hloader : ∀ searchStart,
      FirstIndex (BoundaryLine raw delimiter start) searchStart
        ((findMimeBoundaryLineFrom raw start delimiter searchStart).map (·.start)) ∧
      ∀ line, findMimeBoundaryLineFrom raw start delimiter searchStart = some line →
        line = ⟨line.start, (findSubslice raw (line.start + delimiter.length) [0x0A]).map (· + 1),
          decide (ClosingAt raw (line.start + delimiter.length))⟩ := by
    intro searchStart
    fun_induction findMimeBoundaryLineFrom raw start delimiter searchStart with
    | case1 searchStart hfind =>
      have h := findBytes_first hne raw searchStart
      rw [hfind] at h
      exact ⟨h.none_and, by simp⟩
    | case2 searchStart index hfind hbegin line hline =>
      have h := findBytes_first hne raw searchStart
      rw [hfind] at h
      rw [parseMimeBoundaryLine_eq (findBytes_bounds hfind).2] at hline
      split at hline
      · next hsuffix =>
        cases hline
        exact ⟨h.keep ⟨hbegin, hsuffix⟩, fun line hline => by cases hline; rfl⟩
      · exact absurd hline (by simp)
    | case3 searchStart index hfind hbegin hline ih =>
      have h := findBytes_first hne raw searchStart
      rw [hfind] at h
      rw [parseMimeBoundaryLine_eq (findBytes_bounds hfind).2] at hline
      split at hline
      · exact absurd hline (by simp)
      · next hsuffix => exact ⟨h.skip (fun hq => hsuffix hq.2) ih.1, ih.2⟩
    | case4 searchStart index hfind hbegin ih =>
      have h := findBytes_first hne raw searchStart
      rw [hfind] at h
      exact ⟨h.skip (fun hq => hbegin hq.1) ih.1, ih.2⟩
  obtain ⟨hfirst, hrecord⟩ := hloader start
  have hsame := hfirst.unique (findLinePrefixFrom_first hne raw start start)
  unfold findMimeBoundaryLine findLinePrefix
  rw [← hsame]
  cases hline : findMimeBoundaryLineFrom raw start delimiter start with
  | none => rfl
  | some line =>
    simp only [Option.map_some]
    rw [← hrecord line hline]

end Notm.Ui
