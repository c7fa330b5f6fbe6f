import Notm.Mail.ReferenceCrates
import Notm.Ui.BoundaryScan

/-!
# Where the two MIME preflights descend into the same parts

Both preflights recurse over the child slices that their boundary scanners cut. The scanners
find the same boundary lines (`findMimeBoundaryLine_eq`), but the loops around them stop
differently: `notm-mail` does not look whether the *first* delimiter is a closing one, and it
stops at a later delimiter with fewer than two bytes behind it, even where that byte is the line
feed of a boundary line. `ScannersAgree` says that a message reaches neither case, and the two
descents are equal exactly then.

* `SliceTree` — the parts that a preflight descends into.
* `Follows`, `ScannersAgree` — the lines at which the two loops stop differently.
* `loaderPartSlices_eq_iff` — one level.
* `preflightPart_count`, `preflightMimePart_count` — a run that returns has counted its descent.
* `loaderDescent_eq_mailDescent_iff` — the whole tree.
-/

namespace Notm.Ui

open Rust Mail

/-! ## The descents -/

/-- The tree of part slices that a preflight visits. -/
inductive SliceTree where
  | node (raw : Bytes) (children : List SliceTree)

/-- The child slices of `notm-mail` below a slice; a slice whose headers do not parse has none. -/
def mailChildren (crates : Crates) (raw : Bytes) : List Bytes :=
  match crates.parseHeaders raw with
  | .error _ => []
  | .ok (headers, bodyStart) => childSlices crates raw headers bodyStart

/-- The child slices of the thread loader below a slice. -/
def loaderChildren (crates : Crates) (inMultipartDigest : Bool) (raw : Bytes) : List Bytes :=
  match crates.parseHeaders raw with
  | .error _ => []
  | .ok (headers, bodyStart) =>
    loaderChildSlices raw (loaderContentType crates headers inMultipartDigest) bodyStart

/-- Whether the children of a slice stand in a `multipart/digest`. -/
def childrenInDigest (crates : Crates) (inMultipartDigest : Bool) (raw : Bytes) : Bool :=
  match crates.parseHeaders raw with
  | .error _ => false
  | .ok (headers, _) =>
    (loaderContentType crates headers inMultipartDigest).mimetype = "multipart/digest".toList

theorem length_lt_of_mem_mailChildren {crates : Crates} {raw part : Bytes}
    (h : part ∈ mailChildren crates raw) : part.length < raw.length := by
  unfold mailChildren at h
  split at h
  · exact absurd h (by simp)
  · exact length_lt_of_mem_childSlices h

theorem length_lt_of_mem_loaderChildren {crates : Crates} {digest : Bool} {raw part : Bytes}
    (h : part ∈ loaderChildren crates digest raw) : part.length < raw.length := by
  unfold loaderChildren at h
  split at h
  · exact absurd h (by simp)
  · exact length_lt_of_mem_loaderChildSlices h

/-- What `preflight_part` descends into below `raw`, apart from its limits. -/
def mailDescent (crates : Crates) (raw : Bytes) : SliceTree :=
  .node raw ((mailChildren crates raw).attach.map fun child => mailDescent crates child.val)
termination_by raw.length
decreasing_by exact length_lt_of_mem_mailChildren child.property

/-- What `preflight_mime_part` descends into below `raw`, apart from its limits. -/
def loaderDescent (crates : Crates) (inMultipartDigest : Bool) (raw : Bytes) : SliceTree :=
  .node raw ((loaderChildren crates inMultipartDigest raw).attach.map fun child =>
    loaderDescent crates (childrenInDigest crates inMultipartDigest raw) child.val)
termination_by raw.length
decreasing_by exact length_lt_of_mem_loaderChildren child.property

theorem mailDescent_eq (crates : Crates) (raw : Bytes) :
    mailDescent crates raw =
      .node raw ((mailChildren crates raw).map (mailDescent crates)) := by
  rw [mailDescent, List.attach_map_val]

theorem loaderDescent_eq (crates : Crates) (digest : Bool) (raw : Bytes) :
    loaderDescent crates digest raw =
      .node raw ((loaderChildren crates digest raw).map
        (loaderDescent crates (childrenInDigest crates digest raw))) := by
  rw [loaderDescent, List.attach_map_val]

/-! ## The lines that the loops reach -/

/-- `Follows raw delimiter index line`: scanning on behind the delimiter that ends at `index`,
line by line and up to a closing delimiter, reaches the boundary line that starts at `line`. -/
inductive Follows (raw delimiter : Bytes) : Nat → Nat → Prop where
  | next {index newline line : Nat}
      (hnewline : findSubslice raw index [0x0A] = some newline)
      (hline : findLinePrefix raw (newline + 1) delimiter = some line) :
      Follows raw delimiter index line
  | later {index newline line line' : Nat}
      (hnewline : findSubslice raw index [0x0A] = some newline)
      (hline : findLinePrefix raw (newline + 1) delimiter = some line)
      (hopen : ¬ ClosingAt raw (line + delimiter.length))
      (hrest : Follows raw delimiter (line + delimiter.length) line') :
      Follows raw delimiter index line'

/-- The scanners cut the same slices out of a multipart: its first boundary line is not a
closing one that a further line follows, and no later boundary line ends the data with a line
feed right behind the delimiter. -/
def CutsAgree (raw delimiter : Bytes) (bodyStart : Nat) : Prop :=
  ∀ first, findLinePrefix raw bodyStart delimiter = some first →
    ¬ (ClosingAt raw (first + delimiter.length) ∧
      (findSubslice raw (first + delimiter.length) [0x0A]).isSome) ∧
    ∀ line, Follows raw delimiter (first + delimiter.length) line →
      raw.drop (line + delimiter.length) ≠ [0x0A]

/-- The scanners cut the same slices at the level of `raw`. -/
def LevelAgrees (crates : Crates) (raw : Bytes) : Prop :=
  ∀ headers bodyStart, crates.parseHeaders raw = .ok (headers, bodyStart) →
    ∀ delimiter, multipartDelimiter crates raw headers bodyStart = some delimiter →
      CutsAgree raw delimiter bodyStart

/-- `part` is `raw` or a part below it. -/
inductive PartOf (crates : Crates) : Bytes → Bytes → Prop where
  | self (raw : Bytes) : PartOf crates raw raw
  | inner {raw child part : Bytes} (hchild : child ∈ mailChildren crates raw)
      (hpart : PartOf crates child part) : PartOf crates raw part

/-- At no level of the message does a first closing delimiter with a line behind it, or a last
delimiter with nothing but a line feed behind it, set the scanners apart. -/
def ScannersAgree (crates : Crates) (raw : Bytes) : Prop :=
  ∀ part, PartOf crates raw part → LevelAgrees crates part

/-! ## One level -/

variable {raw delimiter : Bytes}

theorem findLinePrefix_suffix (hne : delimiter ≠ []) {start line : Nat}
    (h : findLinePrefix raw start delimiter = some line) :
    LineSuffix raw (line + delimiter.length) ∧ line + delimiter.length ≤ raw.length := by
  have hfirst := findLinePrefixFrom_first hne raw start start
  rw [findLinePrefix] at h
  rw [h] at hfirst
  exact ⟨hfirst.2.1.2.2, length_le_of_prefix_drop hne hfirst.2.1.1⟩

/-- With fewer than two bytes behind a delimiter there is no line behind it, unless the one byte
is a line feed. -/
theorem findSubslice_lf_short {index : Nat} (hsuffix : LineSuffix raw index)
    (hle : index ≤ raw.length) (hshort : raw.length < index + 2)
    (hlf : raw.drop index ≠ [0x0A]) : findSubslice raw index [0x0A] = none := by
  have hfirst := findSubslice_first (List.cons_ne_nil 0x0A []) raw index
  cases hfind : findSubslice raw index [0x0A] with
  | none => rfl
  | some k =>
    rw [hfind] at hfirst
    obtain ⟨hge, hpre, _⟩ := hfirst
    have hroom := length_le_of_prefix_drop (by simp) hpre
    rw [List.length_singleton] at hroom
    have hk : k = index := by omega
    subst hk
    obtain ⟨rest, hrest⟩ := hpre
    have hlen := congrArg List.length hrest
    rw [List.length_drop, List.length_append, List.length_singleton] at hlen
    have : rest = [] := List.length_eq_zero_iff.mp (by omega)
    rw [this] at hrest
    exact absurd hrest.symm hlf

theorem loaderPartSlices_open_none (raw delimiter : Bytes) :
    loaderPartSlices raw delimiter false none = [] := by
  rw [loaderPartSlices]

theorem loaderPartSlices_closing (raw delimiter : Bytes) (next : Option Nat) :
    loaderPartSlices raw delimiter true next = [] := by
  rw [loaderPartSlices]

/-- One turn of the loader's loop, with the boundary line as `notm-mail` finds it. -/
theorem loaderPartSlices_open_some (hne : delimiter ≠ []) (partStart : Nat) :
    loaderPartSlices raw delimiter false (some partStart) =
      match findLinePrefix raw partStart delimiter with
      | none => [slice raw partStart raw.length]
      | some line =>
        slice raw partStart (stripTrailingLineEnding raw partStart line) ::
          loaderPartSlices raw delimiter (decide (ClosingAt raw (line + delimiter.length)))
            ((findSubslice raw (line + delimiter.length) [0x0A]).map (· + 1)) := by
  have heq := findMimeBoundaryLine_eq hne raw partStart
  rw [loaderPartSlices]
  split
  · next hnone =>
    rw [hnone] at heq
    cases hline : findLinePrefix raw partStart delimiter with
    | none => rfl
    | some line => rw [hline] at heq; exact absurd heq (by simp)
  · next line hsome =>
    rw [hsome] at heq
    cases hline : findLinePrefix raw partStart delimiter with
    | none => rw [hline] at heq; exact absurd heq (by simp)
    | some start =>
      rw [hline, Option.map_some, Option.some.injEq] at heq
      rw [heq]
      rfl

/-- One step of `Follows`. -/
theorem follows_iff {index line : Nat} :
    Follows raw delimiter index line ↔
      ∃ newline, findSubslice raw index [0x0A] = some newline ∧
        ∃ next, findLinePrefix raw (newline + 1) delimiter = some next ∧
          (line = next ∨ (¬ ClosingAt raw (next + delimiter.length) ∧
            Follows raw delimiter (next + delimiter.length) line)) := by
  constructor
  · intro h
    cases h with
    | next hnewline hline => exact ⟨_, hnewline, _, hline, .inl rfl⟩
    | later hnewline hline hopen hrest => exact ⟨_, hnewline, _, hline, .inr ⟨hopen, hrest⟩⟩
  · rintro ⟨newline, hnewline, next, hline, rfl | ⟨hopen, hrest⟩⟩
    · exact .next hnewline hline
    · exact .later hnewline hline hopen hrest

/-- No line follows where no line feed does. -/
theorem not_follows_of_none {index : Nat} (h : findSubslice raw index [0x0A] = none) (line : Nat) :
    ¬ Follows raw delimiter index line := by
  rw [follows_iff, h]
  simp

theorem follows_iff_of_next {index newline next line : Nat}
    (hstart : findSubslice raw index [0x0A] = some newline)
    (hnext : findLinePrefix raw (newline + 1) delimiter = some next) :
    Follows raw delimiter index line ↔ line = next ∨
      (¬ ClosingAt raw (next + delimiter.length) ∧
        Follows raw delimiter (next + delimiter.length) line) := by
  rw [follows_iff, hstart]
  simp only [Option.some.injEq, exists_eq_left', hnext]

theorem closingAt_iff {index : Nat} :
    ClosingAt raw index ↔ raw[index]? = some 0x2D ∧ raw[index + 1]? = some 0x2D := by
  have h0 : raw[index]? = (raw.drop index)[0]? := by rw [List.getElem?_drop, Nat.add_zero]
  have h1 : raw[index + 1]? = (raw.drop index)[1]? := by rw [List.getElem?_drop]
  rw [ClosingAt, h0, h1]
  rcases raw.drop index with _ | ⟨b, _ | ⟨c, rest⟩⟩ <;> simp

/-- The loops behind an open delimiter cut the same slices exactly when no line that they reach
ends the data with a bare line feed. -/
theorem loaderPartSlices_eq_iff (hne : delimiter ≠ []) (index : Nat) :
    loaderPartSlices raw delimiter false ((findSubslice raw index [0x0A]).map (· + 1)) =
        partSlices raw delimiter index ↔
      ∀ line, Follows raw delimiter index line → raw.drop (line + delimiter.length) ≠ [0x0A] := by
  fun_induction partSlices raw delimiter index with
  | case1 index hstart =>
    rw [hstart, Option.map_none, loaderPartSlices_open_none]
    exact iff_of_true rfl fun line hline => absurd hline (not_follows_of_none hstart line)
  | case2 index newline hstart partStart hnext =>
    rw [hstart, Option.map_some, loaderPartSlices_open_some hne, hnext]
    refine iff_of_true rfl fun line hline => ?_
    obtain ⟨newline', hstart', next, hnext', _⟩ := follows_iff.mp hline
    rw [hstart] at hstart'
    cases hstart'
    rw [hnext] at hnext'
    exact absurd hnext' (by simp)
  | case3 index newline hstart partStart next hnext part boundaryEnd hstop =>
    -- the loop of `notm-mail` ends at this line: the loader's must end here too
    obtain ⟨hsuffix, hle⟩ := findLinePrefix_suffix hne hnext
    rw [hstart, Option.map_some, loaderPartSlices_open_some hne, hnext]
    simp only [List.cons.injEq, follows_iff_of_next hstart hnext]
    by_cases hclosing : ClosingAt raw (next + delimiter.length)
    · rw [decide_eq_true hclosing, loaderPartSlices_closing]
      refine iff_of_true ⟨rfl, rfl⟩ ?_
      rintro line (rfl | ⟨hopen, _⟩) hlf
      · rw [ClosingAt, hlf] at hclosing
        exact absurd hclosing (by decide)
      · exact hopen hclosing
    · have hshort : raw.length < next + delimiter.length + 2 :=
        hstop.resolve_right fun h => hclosing (closingAt_iff.mpr h)
      rw [decide_eq_false hclosing]
      by_cases hlf : raw.drop (next + delimiter.length) = [0x0A]
      · -- a bare line feed at the end: the loader cuts one more, empty slice
        refine iff_of_false ?_ fun h => h next (.inl rfl) hlf
        have hlen := congrArg List.length hlf
        rw [List.length_drop, List.length_singleton] at hlen
        have hfirst := findSubslice_first (List.cons_ne_nil 0x0A []) raw
          (next + delimiter.length)
        cases hfind : findSubslice raw (next + delimiter.length) [0x0A] with
        | none =>
          rw [hfind] at hfirst
          have hat : [0x0A] <+: raw.drop (next + delimiter.length) :=
            ⟨[], by rw [hlf, List.append_nil]⟩
          exact absurd hat (hfirst _ (Nat.le_refl _))
        | some newline' =>
          rw [Option.map_some, loaderPartSlices_open_some hne]
          split <;> simp
      · rw [findSubslice_lf_short hsuffix hle hshort hlf, Option.map_none,
          loaderPartSlices_open_none]
        refine iff_of_true ⟨rfl, rfl⟩ ?_
        rintro line (rfl | ⟨_, hfollows⟩)
        · exact hlf
        · exact absurd hfollows (not_follows_of_none
            (findSubslice_lf_short hsuffix hle hshort hlf) line)
  | case4 index newline hstart partStart next hnext part boundaryEnd hstop ih =>
    have hopen : ¬ ClosingAt raw (next + delimiter.length) := fun hclosing =>
      hstop (.inr (closingAt_iff.mp hclosing))
    rw [hstart, Option.map_some, loaderPartSlices_open_some hne, hnext]
    simp only [List.cons.injEq, follows_iff_of_next hstart hnext]
    rw [decide_eq_false hopen]
    constructor
    · rintro ⟨_, hrest⟩ line (rfl | ⟨_, hfollows⟩)
      · intro hlf
        have hlen := congrArg List.length hlf
        rw [List.length_drop, List.length_singleton] at hlen
        exact hstop (.inl (by omega))
      · exact ih.mp hrest line hfollows
    · exact fun h => ⟨rfl, ih.mpr fun line hfollows => h line (.inr ⟨hopen, hfollows⟩)⟩

/-- A first delimiter with a line behind it has at least one slice in `notm-mail`. -/
theorem partSlices_ne_nil {index : Nat} (h : (findSubslice raw index [0x0A]).isSome) :
    partSlices raw delimiter index ≠ [] := by
  obtain ⟨newline, hnewline⟩ := Option.isSome_iff_exists.mp h
  rw [partSlices]
  split
  · next hnone => rw [hnewline] at hnone; exact absurd hnone (by simp)
  · simp only
    split
    · exact List.cons_ne_nil _ _
    · split <;> exact List.cons_ne_nil _ _

/-- What the claim on the content types asks of `mailparse`: types come in lower case, and the
two defaults of the loader are themselves. -/
structure ContentTypesNormal (crates : Crates) : Prop where
  lower : ∀ value, toAsciiLowercase (crates.parseContentType value).mimetype =
    (crates.parseContentType value).mimetype
  text : (crates.parseContentType "text/plain".toList).mimetype = "text/plain".toList
  rfc822 : (crates.parseContentType "message/rfc822".toList).mimetype =
    "message/rfc822".toList

variable {crates : Crates}

/-- The loader looks for parts behind the same delimiter as `notm-mail`. -/
theorem loaderChildSlices_eq (hct : ContentTypesNormal crates) (headers : List MailHeader)
    (digest : Bool) (bodyStart : Nat) :
    loaderChildSlices raw (loaderContentType crates headers digest) bodyStart =
      match multipartDelimiter crates raw headers bodyStart with
      | none => []
      | some delimiter =>
        match findLinePrefix raw bodyStart delimiter with
        | none => []
        | some first =>
          loaderPartSlices raw delimiter (decide (ClosingAt raw (first + delimiter.length)))
            ((findSubslice raw (first + delimiter.length) [0x0A]).map (· + 1)) := by
  unfold loaderContentType multipartDelimiter loaderChildSlices
  -- Without the field the content type is the default one, which is never a multipart.
  cases hvalue : getFirstValue headers "Content-Type" with
  | none =>
    have hmime : ¬ "multipart/".toList.isPrefixOf
        (crates.parseContentType (if digest = true then "message/rfc822".toList
          else "text/plain".toList)).mimetype = true := by
      cases digest
      · rw [if_neg Bool.false_ne_true, hct.text]; decide +kernel
      · rw [if_pos rfl, hct.rfc822]; decide +kernel
    simp only
    rw [if_neg hmime]
  | some value =>
    simp only [hct.lower]
    generalize crates.parseContentType value = contentType
    by_cases hmime : "multipart/".toList.isPrefixOf contentType.mimetype = true
    · by_cases hbody : bodyStart < raw.length
      · have hnot : ¬ (!"multipart/".toList.isPrefixOf contentType.mimetype ||
            decide (raw.length ≤ bodyStart)) = true := by
          rw [hmime, decide_eq_false (by omega)]
          exact Bool.false_ne_true
        rw [if_pos hmime, if_neg hnot]
        cases param contentType.params "boundary" with
        | none => rfl
        | some boundary =>
          simp only [Option.map_some]
          rw [if_pos hbody, findMimeBoundaryLine_eq (by simp)]
          cases findLinePrefix raw bodyStart ([0x2D, 0x2D] ++ Utf8.encode boundary) <;> rfl
      · have hyes : (!"multipart/".toList.isPrefixOf contentType.mimetype ||
            decide (raw.length ≤ bodyStart)) = true := by
          rw [decide_eq_true (by omega), Bool.or_true]
        rw [if_pos hmime, if_pos hyes]
        cases param contentType.params "boundary" with
        | none => rfl
        | some boundary => simp only [if_neg hbody]
    · have hyes : (!"multipart/".toList.isPrefixOf contentType.mimetype ||
          decide (raw.length ≤ bodyStart)) = true := by
        rw [Bool.not_eq_true _ |>.mp hmime]
        rfl
      rw [if_neg hmime, if_pos hyes]

theorem loaderChildSlices_eq_childSlices_iff (hct : ContentTypesNormal crates)
    (headers : List MailHeader) (digest : Bool) (bodyStart : Nat) :
    loaderChildSlices raw (loaderContentType crates headers digest) bodyStart =
        childSlices crates raw headers bodyStart ↔
      ∀ delimiter, multipartDelimiter crates raw headers bodyStart = some delimiter →
        CutsAgree raw delimiter bodyStart := by
  rw [loaderChildSlices_eq hct, childSlices]
  cases hdelim : multipartDelimiter crates raw headers bodyStart with
  | none => simp
  | some delimiter =>
    have hne : delimiter ≠ [] := by
      unfold multipartDelimiter at hdelim
      split at hdelim
      · exact absurd hdelim (by simp)
      · simp only at hdelim
        split at hdelim
        · exact absurd hdelim (by simp)
        · obtain ⟨boundary, _, rfl⟩ := Option.map_eq_some_iff.mp hdelim
          simp
    simp only [Option.some.injEq, forall_eq', CutsAgree]
    cases hfirst : findLinePrefix raw bodyStart delimiter with
    | none => simp
    | some first =>
      simp only [Option.some.injEq, forall_eq']
      by_cases hclosing : ClosingAt raw (first + delimiter.length)
      · rw [decide_eq_true hclosing, loaderPartSlices_closing]
        by_cases hsome : (findSubslice raw (first + delimiter.length) [0x0A]).isSome
        · exact iff_of_false (fun h => partSlices_ne_nil hsome h.symm)
            fun h => h.1 ⟨hclosing, hsome⟩
        · have hnone := Option.not_isSome_iff_eq_none.mp hsome
          refine iff_of_true ?_ ⟨fun h => hsome h.2, fun line hline =>
            absurd hline (not_follows_of_none hnone line)⟩
          rw [partSlices]
          split
          · rfl
          · next newline hnewline => rw [hnone] at hnewline; exact absurd hnewline (by simp)
      · rw [decide_eq_false hclosing, loaderPartSlices_eq_iff hne]
        exact ⟨fun h => ⟨fun hc => hclosing hc.1, h⟩, fun h => h.2⟩

theorem loaderChildren_eq_iff (hct : ContentTypesNormal crates) (digest : Bool) (raw : Bytes) :
    loaderChildren crates digest raw = mailChildren crates raw ↔ LevelAgrees crates raw := by
  unfold loaderChildren mailChildren LevelAgrees
  cases hparse : crates.parseHeaders raw with
  | error e => simp
  | ok r =>
    obtain ⟨headers, bodyStart⟩ := r
    simp only [Except.ok.injEq, Prod.mk.injEq]
    rw [loaderChildSlices_eq_childSlices_iff hct]
    exact ⟨fun h _ _ heq => by obtain ⟨rfl, rfl⟩ := heq; exact h, fun h => h _ _ ⟨rfl, rfl⟩⟩

/-! ## All levels -/

theorem SliceTree.node_inj {r r' : Bytes} {ts ts' : List SliceTree}
    (h : SliceTree.node r ts = .node r' ts') : r = r' ∧ ts = ts' := by
  cases h
  exact ⟨rfl, rfl⟩

/-- The slice at the root of a descent. -/
def SliceTree.root : SliceTree → Bytes
  | node raw _ => raw

@[simp] theorem root_mailDescent (raw : Bytes) : (mailDescent crates raw).root = raw := by
  rw [mailDescent_eq]
  rfl

@[simp] theorem root_loaderDescent (digest : Bool) (raw : Bytes) :
    (loaderDescent crates digest raw).root = raw := by
  rw [loaderDescent_eq]
  rfl

/-- Descents that are equal visit the same children. -/
theorem children_eq_of_descent_eq {digest : Bool}
    (h : loaderDescent crates digest raw = mailDescent crates raw) :
    loaderChildren crates digest raw = mailChildren crates raw ∧
      ∀ child ∈ mailChildren crates raw,
        loaderDescent crates (childrenInDigest crates digest raw) child =
          mailDescent crates child := by
  rw [loaderDescent_eq, mailDescent_eq] at h
  have hmap := (SliceTree.node_inj h).2
  have hchildren : loaderChildren crates digest raw = mailChildren crates raw := by
    have := congrArg (List.map SliceTree.root) hmap
    simpa [List.map_map, Function.comp_def] using this
  refine ⟨hchildren, fun child hchild => ?_⟩
  rw [hchildren] at hmap
  exact List.map_inj_left.mp hmap child hchild

/-- Descents that visit the same children, and agree below each of them, are equal. -/
theorem descent_eq_of_children_eq {digest : Bool}
    (hchildren : loaderChildren crates digest raw = mailChildren crates raw)
    (h : ∀ child ∈ mailChildren crates raw,
      loaderDescent crates (childrenInDigest crates digest raw) child =
        mailDescent crates child) :
    loaderDescent crates digest raw = mailDescent crates raw := by
  rw [loaderDescent_eq, mailDescent_eq, hchildren]
  congr 1
  exact List.map_inj_left.mpr h

theorem descent_eq_of_scannersAgree (hct : ContentTypesNormal crates) (digest : Bool)
    (raw : Bytes) (h : ScannersAgree crates raw) :
    loaderDescent crates digest raw = mailDescent crates raw := by
  refine descent_eq_of_children_eq ((loaderChildren_eq_iff hct digest raw).mpr (h raw (.self raw)))
    fun child hchild => ?_
  have hlt := length_lt_of_mem_mailChildren hchild
  exact descent_eq_of_scannersAgree hct _ child fun part hpart => h part (.inner hchild hpart)
termination_by raw.length

theorem levelAgrees_of_descent_eq (hct : ContentTypesNormal crates) {part : Bytes}
    (hpart : PartOf crates raw part) :
    ∀ digest, loaderDescent crates digest raw = mailDescent crates raw →
      LevelAgrees crates part := by
  induction hpart with
  | self raw =>
    intro digest h
    exact (loaderChildren_eq_iff hct digest raw).mp (children_eq_of_descent_eq h).1
  | inner hchild _ ih =>
    intro digest h
    exact ih _ ((children_eq_of_descent_eq h).2 _ hchild)

/-! ## The runs count the descents -/

mutual

/-- The number of slices of a descent. -/
def SliceTree.size : SliceTree → Nat
  | .node _ children => 1 + SliceTree.sizes children

/-- The number of slices of several descents. -/
def SliceTree.sizes : List SliceTree → Nat
  | [] => 0
  | tree :: trees => tree.size + SliceTree.sizes trees

end

/-- A run over a list of parts that returns adds up what the run over each part adds. -/
theorem foldlM_ok_add {ε α σ : Type} {run : σ → α → Except ε σ} (count : σ → Nat)
    (size : α → Nat) {xs : List α}
    (hstep : ∀ x ∈ xs, ∀ s s', run s x = .ok s' → count s' = count s + size x) :
    ∀ {s s' : σ}, xs.foldlM run s = .ok s' → count s' = count s + (xs.map size).sum := by
  induction xs with
  | nil =>
    intro s s' h
    cases h
    simp
  | cons x xs ih =>
    intro s s' h
    rw [List.foldlM_cons] at h
    obtain ⟨mid, hmid, hrest⟩ := bind_eq_ok.mp h
    have h1 := hstep x (by simp) s mid hmid
    have h2 := ih (fun y hy => hstep y (by simp [hy])) hrest
    rw [List.map_cons, List.sum_cons]
    omega

theorem sizes_map {α : Type} (f : α → SliceTree) (xs : List α) :
    SliceTree.sizes (xs.map f) = (xs.map fun x => (f x).size).sum := by
  induction xs with
  | nil => rfl
  | cons x xs ih => simp [SliceTree.sizes, ih]

/-- A run of `preflight_part` that returns has counted the slices of its descent. -/
theorem preflightPart_count (crates : Crates) (raw : Bytes) (depth : Nat) (limits : MimeLimits)
    (parts n : Nat) (h : preflightPart crates raw depth limits parts = .ok n) :
    n = parts + (mailDescent crates raw).size := by
  rw [preflightPart_eq] at h
  split at h
  · exact absurd h (by simp)
  · split at h
    · exact absurd h (by simp)
    · rw [mailDescent_eq, SliceTree.size, sizes_map]
      cases hparse : crates.parseHeaders raw with
      | error e => rw [hparse] at h; exact absurd h (by simp)
      | ok r =>
        obtain ⟨headers, bodyStart⟩ := r
        rw [hparse] at h
        have hchildren : mailChildren crates raw = childSlices crates raw headers bodyStart := by
          simp only [mailChildren, hparse]
        rw [hchildren]
        have hsum := foldlM_ok_add id
          (fun child => (mailDescent crates child).size)
          (fun child hchild parts n hrun => by
            have hlt := length_lt_of_mem_childSlices hchild
            exact preflightPart_count crates child (depth + 1) limits parts n hrun) h
        simp only [id_eq] at hsum
        omega
termination_by raw.length

/-- A run of `preflight_mime_part` that returns has counted the slices of its descent. -/
theorem preflightMimePart_count (crates : Crates) (cancelled : Nat → Bool) (raw : Bytes)
    (digest : Bool) (depth : Nat) (limits : MimePreflightLimits)
    (state state' : MimePreflightState)
    (h : preflightMimePart crates cancelled raw digest depth limits state = .ok state') :
    state'.partCount = state.partCount + (loaderDescent crates digest raw).size := by
  rw [preflightMimePart_eq] at h
  rw [loaderDescent_eq, SliceTree.size, sizes_map]
  split at h
  · exact absurd h (by simp)
  · next entered henter =>
    have hentered := (enterPart_eq_ok henter).1
    cases hparse : crates.parseHeaders raw with
    | error e => rw [hparse] at h; exact absurd h (by simp)
    | ok r =>
      obtain ⟨headers, bodyStart⟩ := r
      rw [hparse] at h
      simp only at h
      have hchildren : loaderChildren crates digest raw =
          loaderChildSlices raw (loaderContentType crates headers digest) bodyStart := by
        simp only [loaderChildren, hparse]
      have hdigest : childrenInDigest crates digest raw =
          decide ((loaderContentType crates headers digest).mimetype =
            "multipart/digest".toList) := by
        simp only [childrenInDigest, hparse]
      split at h
      · next hleaf =>
        have hcharged := (chargeLeaf_eq_ok h).1
        rw [hchildren, hleaf, List.map_nil, List.sum_nil]
        omega
      · rw [hchildren, hdigest]
        -- The recursion goes through the children in turn, and each adds the slices of its own
        -- descent.
        have hsum := foldlM_ok_add MimePreflightState.partCount
          (fun child => (loaderDescent crates _ child).size)
          (fun child hchild state state' hrun => by
            obtain ⟨asked, hpoll, hrun⟩ := bind_eq_ok.mp hrun
            have hlt := length_lt_of_mem_loaderChildSlices hchild
            rw [← (poll_eq_ok hpoll).1]
            exact preflightMimePart_count crates cancelled child _ (depth + 1) limits asked state'
              hrun) h
        rw [hsum, hentered]
        omega
termination_by raw.length

/-- **Where the two preflights descend alike.** They descend into the same slices of exactly the
messages on which the scanners agree; and a run of either that returns has counted the slices of its
own descent. -/
theorem loaderDescent_eq_mailDescent_iff (hct : ContentTypesNormal crates) (raw : Bytes) :
    (loaderDescent crates false raw = mailDescent crates raw ↔ ScannersAgree crates raw) ∧
      (∀ limits depth parts n, preflightPart crates raw depth limits parts = .ok n →
        n = parts + (mailDescent crates raw).size) ∧
      (∀ cancelled limits depth state state',
        preflightMimePart crates cancelled raw false depth limits state = .ok state' →
        state'.partCount = state.partCount + (loaderDescent crates false raw).size) :=
  ⟨⟨fun h _ hpart => levelAgrees_of_descent_eq hct hpart false h,
      descent_eq_of_scannersAgree hct false raw⟩,
    fun limits depth parts n h => preflightPart_count crates raw depth limits parts n h,
    fun cancelled limits depth state state' h =>
      preflightMimePart_count crates cancelled raw false depth limits state state' h⟩

theorem contentTypesNormal_reference : ContentTypesNormal Reference.crates where
  lower _ := toAsciiLowercase_toAsciiLowercase _
  text := by decide +kernel
  rfc822 := by decide +kernel

/-- A multipart whose first boundary line is a closing one, with a part behind it. -/
def closingFirst : Bytes :=
  Utf8.encode ("Content-Type: multipart/mixed; boundary=x\r\n\r\n--x--\r\n" ++
    "Content-Type: application/pdf\r\n\r\nAAA\r\n").toList

/-- A multipart that ends with the line feed of a boundary line. -/
def bareLineFeedLast : Bytes :=
  Utf8.encode "Content-Type: multipart/mixed; boundary=x\r\n\r\n--x\n\nAAA\n--x\n".toList

theorem loaderDescent_eq_mailDescent_iff_closingFirst :
    loaderDescent Reference.crates false closingFirst = mailDescent Reference.crates closingFirst ↔
      ScannersAgree Reference.crates closingFirst :=
  (loaderDescent_eq_mailDescent_iff contentTypesNormal_reference closingFirst).1

/-- `notm-mail` descends into the part behind a closing delimiter that comes first, and counts
two parts; the loader descends into nothing and counts one. -/
theorem descents_differ_on_closingFirst :
    loaderDescent Reference.crates false closingFirst ≠ mailDescent Reference.crates closingFirst ∧
      preflightPart Reference.crates closingFirst 0 .default 0 = .ok 2 ∧
      preflightMime Reference.crates (fun _ => false) closingFirst ⟨100, 100⟩ =
        .ok ⟨1, 1, none⟩ := by
  refine ⟨fun h => ?_, by decide +kernel, by decide +kernel⟩
  have hchildren := (children_eq_of_descent_eq h).1
  exact absurd hchildren (by decide +kernel)

/-- The loader cuts one more, empty slice behind a boundary line that ends the data. -/
example : loaderChildren Reference.crates false bareLineFeedLast =
    mailChildren Reference.crates bareLineFeedLast ++ [[]] := by decide +kernel

end Notm.Ui
