import Notm.Notmuch.MaildirFilenames

/-!
# What an expected Maildir filename keeps

A filename of a Maildir is a directory, `cur` or `new`, and a name in it, and the name may end with
the marker of its flags. The filename that is expected for some tags is in `cur`, has the same name
before the last marker, and the flags that it had, but for the ones that the tags decide. A filename
that is not of this form stays as it is, and a filename that is expected is expected to stay.

* `InMaildir`, `HasFlags`, `FlagsInOrder` — the form of a filename, and of the flags in it.
* `FlagsFor` — the flags that some tags make of others, by what they decide and what they leave.
* `InMaildir.info_of_hasFlags`, `maildirFlags_spec` — what the code reads from a filename.
* `expected_flaggedFilename` — a filename that is written is left as it is.
* `expected_filename_law` — the filename that is expected for some tags.
-/

namespace Notm.Notmuch

open Rust

/-! ## The form of a filename -/

def slash : UInt8 := 0x2F

/-- The marker of the flags. -/
def flagMarker : Bytes := [0x3A, 0x32, 0x2C]

def curDirectory : Bytes := [0x63, 0x75, 0x72]

def newDirectory : Bytes := [0x6E, 0x65, 0x77]

/-- A filename with its directory, `cur` or `new`, and what is before it. The name is what follows
the last slash. -/
structure InMaildir (filename parent directory name : Bytes) : Prop where
  path : filename = parent ++ directory ++ slash :: name
  parentEnd : parent = [] ∨ ∃ before, parent = before ++ [slash]
  kind : directory = curDirectory ∨ directory = newDirectory
  nameFree : slash ∉ name

/-- A name with flags after its last marker. -/
structure HasFlags (name base flags : Bytes) : Prop where
  split : name = base ++ (flagMarker ++ flags)
  last : ¬ flagMarker <:+: flags

/-- A name without a marker. -/
def NoFlags (name : Bytes) : Prop := ¬ flagMarker <:+: name

/-- Flags are ASCII, and in order without repetition. -/
structure FlagsInOrder (flags : Bytes) : Prop where
  increasing : (flags.map UInt8.toNat).Pairwise (· < ·)
  ascii : ∀ flag ∈ flags, flag.toNat < 128

/-- The flags that the tags make of others. The tags decide about some flags, there or not; all the
other flags stay as they were, whether or not they mean anything to the program. -/
structure FlagsFor (tags : List Str) (flags updated : Bytes) : Prop where
  inOrder : FlagsInOrder updated
  mem : ∀ flag, flag ∈ updated ↔ (flag.toNat, true) ∈ desiredFlags tags ∨
    (flag.toNat ∉ (desiredFlags tags).map Prod.fst ∧ flag ∈ flags)

/-- The filename with these flags. -/
def flaggedFilename (parent base flags : Bytes) : Bytes :=
  parent ++ curDirectory ++ slash :: (base ++ (flagMarker ++ flags))

/-! ## Searching from the right -/

variable {p : UInt8 → Bool} {bytes rest window : Bytes} {i : Nat}

theorem rposition_append {x : UInt8} (hx : p x = true) (hrest : ∀ y ∈ rest, p y = false) :
    rposition p (bytes ++ x :: rest) = some bytes.length := by
  have hfound : (bytes ++ x :: rest).reverse.findIdx? p = some rest.length := by
    rw [List.reverse_append, List.reverse_cons, List.append_assoc, List.findIdx?_append,
      List.findIdx?_eq_none_iff.2 fun y hy => hrest y (List.mem_reverse.1 hy)]
    simp [List.findIdx?_cons, hx]
  unfold rposition
  rw [hfound, List.length_append, List.length_cons]
  show some (bytes.length + (rest.length + 1) - 1 - rest.length) = _
  exact congrArg some (by omega)

theorem rposition_eq_none (h : ∀ y ∈ bytes, p y = false) : rposition p bytes = none := by
  unfold rposition
  rw [List.findIdx?_eq_none_iff.2 fun y hy => h y (List.mem_reverse.1 hy)]
  rfl

/-- Bytes have a last one with a property, or none. -/
theorem exists_last (p : UInt8 → Bool) (bytes : Bytes) :
    (∀ y ∈ bytes, p y = false) ∨
      ∃ before x rest, bytes = before ++ x :: rest ∧ p x = true ∧ ∀ y ∈ rest, p y = false := by
  induction bytes with
  | nil => exact Or.inl fun y hy => absurd hy List.not_mem_nil
  | cons x bytes ih =>
    rcases ih with hnone | ⟨before, y, rest, rfl, hy, hrest⟩
    · cases hx : p x with
      | false => exact Or.inl (List.forall_mem_cons.2 ⟨hx, hnone⟩)
      | true => exact Or.inr ⟨[], x, bytes, rfl, hx, hnone⟩
    · exact Or.inr ⟨x :: before, y, rest, rfl, hy, hrest⟩

theorem find?_reverse_range {q : Nat → Bool} {n : Nat} (hlt : i < n) (hq : q i = true)
    (hlast : ∀ j, i < j → q j = false) : (List.range n).reverse.find? q = some i := by
  induction n with
  | zero => exact absurd hlt (Nat.not_lt_zero i)
  | succ n ih =>
    rw [List.range_succ, List.reverse_append, List.reverse_singleton, List.singleton_append,
      List.find?_cons]
    by_cases hlast' : i = n
    · rw [← hlast', hq]
    · rw [hlast n (by omega)]
      exact ih (by omega)

/-! ## The parts of a filename -/

variable {filename parent directory name base flags updated : Bytes} {tags : List Str}

theorem ne_slash (h : slash ∉ bytes) : ∀ y ∈ bytes, (y == slash) = false :=
  fun _ hy => beq_false_of_ne fun heq => h (heq ▸ hy)

theorem InMaildir.directory_free (h : InMaildir filename parent directory name) :
    slash ∉ directory := by
  rcases h.kind with rfl | rfl <;> decide

theorem InMaildir.lastSlash (h : InMaildir filename parent directory name) :
    rposition (· == slash) filename = some (parent ++ directory).length := by
  rw [h.path]
  exact rposition_append (beq_self_eq_true slash) (ne_slash h.nameFree)

/-- `directory_start`. -/
theorem InMaildir.directoryStart_eq (h : InMaildir filename parent directory name) :
    ((rposition (· == slash) (parent ++ directory)).map fun slash => slash + 1).getD 0 =
      parent.length := by
  rcases h.parentEnd with rfl | ⟨before, rfl⟩
  · rw [List.nil_append, rposition_eq_none (ne_slash h.directory_free)]
    rfl
  · rw [List.append_assoc, List.singleton_append,
      @rposition_append (· == slash) before directory slash (beq_self_eq_true slash)
        (ne_slash h.directory_free)]
    show before.length + 1 = _
    rw [List.length_append, List.length_singleton]

/-- The marker has no colon but at its beginning, so no marker begins within another. -/
theorem not_isPrefixOf_drop (h : ¬ flagMarker <:+: flags) {n : Nat} (hn : 0 < n) :
    flagMarker.isPrefixOf ((flagMarker ++ flags).drop n) = false := by
  rw [Bool.eq_false_iff]
  intro hprefix
  match n, hn with
  | 1, _ => exact absurd hprefix (by simp [flagMarker])
  | 2, _ => exact absurd hprefix (by simp [flagMarker])
  | n + 3, _ =>
    have hdrop : (flagMarker ++ flags).drop (n + 3) = flags.drop n := rfl
    rw [hdrop] at hprefix
    exact h ((List.isPrefixOf_iff_prefix.1 hprefix).isInfix.trans
      (List.drop_suffix n flags).isInfix)

/-- What is before the last marker of a name with flags, and what is after it. -/
theorem InMaildir.split_of_hasFlags (h : InMaildir filename parent directory name)
    (hflags : HasFlags name base flags) :
    filename = parent ++ directory ++ slash :: base ++ (flagMarker ++ flags) := by
  rw [h.path, hflags.split, List.append_assoc _ (slash :: base)]
  rfl

theorem length_head : (parent ++ directory ++ slash :: base).length =
    (parent ++ directory).length + 1 + base.length := by
  rw [List.length_append, List.length_cons]
  omega

/-- `maildir_info` of a name with flags. -/
theorem InMaildir.info_of_hasFlags (h : InMaildir filename parent directory name)
    (hflags : HasFlags name base flags) :
    (rfindWindow flagMarker filename).filter (fun info => info > (parent ++ directory).length) =
      some (parent ++ directory ++ slash :: base).length := by
  have hfound : rfindWindow flagMarker filename =
      some (parent ++ directory ++ slash :: base).length := by
    rw [h.split_of_hasFlags hflags]
    refine find?_reverse_range ?_ ?_ fun j hj => ?_
    · have hmarker : flagMarker.length = 3 := rfl
      simp only [List.length_append, List.length_cons]
      omega
    · rw [List.drop_left]
      rfl
    · obtain ⟨n, rfl⟩ := Nat.exists_eq_add_of_le (Nat.le_of_lt hj)
      rw [List.drop_length_add_append]
      exact not_isPrefixOf_drop hflags.last (by omega)
  rw [hfound]
  exact Option.filter_some_pos (by rw [decide_eq_true_eq, length_head]; omega)

/-- `maildir_info` of a name without flags. -/
theorem InMaildir.info_of_noFlags (h : InMaildir filename parent directory name)
    (hnone : NoFlags name) :
    (rfindWindow flagMarker filename).filter (fun info => info > (parent ++ directory).length) =
      none := by
  cases hfound : rfindWindow flagMarker filename with
  | none => rfl
  | some info =>
    have hprefix := List.find?_some hfound
    rw [Option.filter_some, if_neg]
    intro hlater
    obtain ⟨n, rfl⟩ := Nat.exists_eq_add_of_le (Nat.succ_le_of_lt (of_decide_eq_true hlater))
    have hdrop : filename.drop ((parent ++ directory).length.succ + n) = name.drop n := by
      rw [h.path, Nat.succ_add_eq_add_succ, List.drop_length_add_append]
      rfl
    rw [hdrop] at hprefix
    exact hnone ((List.isPrefixOf_iff_prefix.1 hprefix).isInfix.trans
      (List.drop_suffix n name).isInfix)

/-! ## The flags -/

theorem maildirFlags_concat (flags : List Nat) (flag : Nat) :
    maildirFlags (flags ++ [flag]) = (maildirFlags flags).bind fun set =>
      if 128 ≤ flag ∨ set.toList.any (flag ≤ ·) then none else some (set.insert flag) := by
  unfold maildirFlags
  rw [List.foldlM_append]
  show Option.bind _ _ = _
  congr 1
  funext set
  rw [List.foldlM_cons]
  exact Option.bind_fun_some _

/-- Flags are taken if they are in order, and then the set of them is they. -/
theorem maildirFlags_spec (flags : List Nat) :
    if h : flags.Pairwise (· < ·) ∧ ∀ flag ∈ flags, flag < 128 then
      maildirFlags flags = some ⟨flags, h.1⟩
    else maildirFlags flags = none := by
  -- The loop goes from the front, so the induction adds the last flag: it has to be greater than
  -- all.
  induction flags using List.reverseRecOn with
  | nil => exact rfl
  | append_singleton flags flag ih =>
    rw [maildirFlags_concat]
    split at ih
    · next hbefore =>
      rw [ih, Option.bind_some]
      split
      · next h =>
        have hlt : ∀ earlier ∈ flags, earlier < flag := fun earlier hmem =>
          (List.pairwise_append.1 h.1).2.2 earlier hmem flag List.mem_cons_self
        have hascii := h.2 flag (List.mem_append_right _ List.mem_cons_self)
        rw [if_neg]
        · refine congrArg some (BTreeSet.eq_of_mem_iff fun x => ?_)
          rw [BTreeSet.mem_insert]
          show x = flag ∨ x ∈ flags ↔ x ∈ flags ++ [flag]
          rw [List.mem_append, List.mem_singleton]
          exact or_comm
        · simp only [List.any_eq_true, decide_eq_true_eq, not_or, not_exists, not_and, not_le]
          exact ⟨hascii, hlt⟩
      · next h =>
        rw [if_pos]
        by_contra hnot
        simp only [List.any_eq_true, decide_eq_true_eq, not_or, not_exists, not_and, not_le] at hnot
        refine h ⟨List.pairwise_append.2 ⟨hbefore.1, List.pairwise_singleton _ _,
          fun earlier hmem later hlater => ?_⟩, fun other hmem => ?_⟩
        · obtain rfl := List.mem_singleton.1 hlater
          exact hnot.2 earlier hmem
        · rcases List.mem_append.1 hmem with hold | hnew
          · exact hbefore.2 other hold
          · exact List.mem_singleton.1 hnew ▸ hnot.1
    · next hbefore =>
      rw [ih, dif_neg]
      · rfl
      · intro h
        exact hbefore ⟨(List.pairwise_append.1 h.1).1,
          fun other hmem => h.2 other (List.mem_append_left _ hmem)⟩

/-- The flags that are to be there or not decide about themselves only. -/
theorem mem_foldl_desired {desired : List (Nat × Bool)} {flag : Nat} {set : BTreeSet Nat}
    (hnodup : (desired.map Prod.fst).Nodup) :
    flag ∈ desired.foldl (fun flags desired =>
        if desired.2 then flags.insert desired.1 else flags.remove desired.1) set ↔
      (flag, true) ∈ desired ∨ (flag ∉ desired.map Prod.fst ∧ flag ∈ set) := by
  induction desired generalizing set with
  | nil => simp
  | cons first desired ih =>
    rw [List.map_cons, List.nodup_cons] at hnodup
    rw [List.foldl_cons, ih hnodup.2]
    obtain ⟨key, wanted⟩ := first
    cases wanted with
    | true =>
      simp only [if_true, BTreeSet.mem_insert, List.mem_cons, List.map_cons, Prod.mk.injEq,
        and_true, not_or]
      by_cases hflag : flag = key
      · subst hflag
        simp [hnodup.1]
      · simp [hflag]
    | false =>
      simp only [Bool.false_eq_true, if_false, BTreeSet.mem_remove, List.mem_cons, List.map_cons,
        Prod.mk.injEq, not_or]
      tauto

theorem FlagsInOrder.maildirFlags_eq (h : FlagsInOrder flags) :
    maildirFlags (flags.map UInt8.toNat) = some ⟨flags.map UInt8.toNat, h.increasing⟩ := by
  have hspec := maildirFlags_spec (flags.map UInt8.toNat)
  rwa [dif_pos ⟨h.increasing, List.forall_mem_map.2 h.ascii⟩] at hspec

theorem maildirFlags_eq_none (h : ¬ FlagsInOrder flags) :
    maildirFlags (flags.map UInt8.toNat) = none := by
  have hspec := maildirFlags_spec (flags.map UInt8.toNat)
  rwa [dif_neg fun hboth => h ⟨hboth.1, List.forall_mem_map.1 hboth.2⟩] at hspec

/-- The flags that are written. -/
def updatedFlags (tags : List Str) (set : BTreeSet Nat) : BTreeSet Nat :=
  (desiredFlags tags).foldl (fun flags desired =>
    if desired.2 then flags.insert desired.1 else flags.remove desired.1) set

theorem mem_updatedFlags {flag : Nat} {set : BTreeSet Nat} :
    flag ∈ updatedFlags tags set ↔ (flag, true) ∈ desiredFlags tags ∨
      (flag ∉ (desiredFlags tags).map Prod.fst ∧ flag ∈ set) :=
  mem_foldl_desired (show [0x44, 0x46, 0x50, 0x52, 0x53].Nodup by decide)

theorem desiredFlags_lt {flag : Nat} {wanted : Bool} (h : (flag, wanted) ∈ desiredFlags tags) :
    flag < 128 := by
  have hmem : flag ∈ (desiredFlags tags).map Prod.fst := List.mem_map_of_mem h
  exact (show ∀ flag ∈ [0x44, 0x46, 0x50, 0x52, 0x53], flag < 128 by decide) flag hmem

/-- The bytes that are written are the codes of the flags. -/
theorem FlagsInOrder.flagsFor (h : FlagsInOrder flags) (tags : List Str) :
    (((updatedFlags tags ⟨flags.map UInt8.toNat, h.increasing⟩).toList.map UInt8.ofNat).map
        UInt8.toNat =
      (updatedFlags tags ⟨flags.map UInt8.toNat, h.increasing⟩).toList) ∧
    FlagsFor tags flags
      ((updatedFlags tags ⟨flags.map UInt8.toNat, h.increasing⟩).toList.map UInt8.ofNat) := by
  have hascii : ∀ flag ∈ updatedFlags tags ⟨flags.map UInt8.toNat, h.increasing⟩, flag < 128 := by
    intro flag hflag
    rcases mem_updatedFlags.1 hflag with hdesired | ⟨_, hkept⟩
    · exact desiredFlags_lt hdesired
    · exact (List.forall_mem_map (P := (· < 128))).2 h.ascii flag hkept
  have hcodes : ((updatedFlags tags ⟨flags.map UInt8.toNat, h.increasing⟩).toList.map
        UInt8.ofNat).map UInt8.toNat =
        (updatedFlags tags ⟨flags.map UInt8.toNat, h.increasing⟩).toList := by
    rw [List.map_map]
    refine List.map_congr_left (fun flag hflag => ?_) |>.trans (List.map_id' _)
    have hlt := hascii flag hflag
    show (UInt8.ofNat flag).toNat = flag
    exact UInt8.toNat_ofNat_of_lt (hlt.trans_le (show 128 ≤ UInt8.size by decide))
  refine ⟨hcodes, ⟨?_, ?_⟩, fun flag => ?_⟩
  · rw [hcodes]
    exact (updatedFlags tags _).increasing
  · intro flag hflag
    have hmem := List.mem_map_of_mem (f := UInt8.toNat) hflag
    rw [hcodes] at hmem
    exact hascii _ hmem
  · have hiff : flag ∈ (updatedFlags tags ⟨flags.map UInt8.toNat, h.increasing⟩).toList.map
        UInt8.ofNat ↔ flag.toNat ∈ updatedFlags tags ⟨flags.map UInt8.toNat, h.increasing⟩ := by
      constructor
      · intro hmem
        have hcode := List.mem_map_of_mem (f := UInt8.toNat) hmem
        rwa [hcodes] at hcode
      · intro hmem
        exact List.mem_map.2 ⟨flag.toNat, hmem, UInt8.ofNat_toNat⟩
    rw [hiff, mem_updatedFlags]
    have hkept : flag.toNat ∈ (⟨flags.map UInt8.toNat, h.increasing⟩ : BTreeSet Nat) ↔
        flag ∈ flags := by
      show flag.toNat ∈ flags.map UInt8.toNat ↔ _
      exact List.mem_map_of_injective fun _ _ => UInt8.toNat_inj.1
    rw [hkept]

/-- The flags for some tags are determined by the flags before. -/
theorem FlagsFor.unique {other : Bytes} (h : FlagsFor tags flags updated)
    (h' : FlagsFor tags flags other) : updated = other := by
  have hcodes : updated.map UInt8.toNat = other.map UInt8.toNat := by
    refine h.inOrder.increasing.eq_of_mem_iff h'.inOrder.increasing fun code => ?_
    have hiff : ∀ flag, flag ∈ updated ↔ flag ∈ other := fun flag =>
      (h.mem flag).trans (h'.mem flag).symm
    simp only [List.mem_map, hiff]
  exact (List.map_inj_right fun _ _ => UInt8.toNat_inj.1).1 hcodes

theorem FlagsFor.again (h : FlagsFor tags flags updated) : FlagsFor tags updated updated where
  inOrder := h.inOrder
  mem := fun flag => by
    rw [h.mem flag]
    tauto

/-! ## The expected filename -/

/-- The flags that are read from a filename, and the end of what is before them. -/
theorem InMaildir.expected_eq (h : InMaildir filename parent directory name) (tags : List Str)
    {info : Option Nat}
    (hinfo : (rfindWindow flagMarker filename).filter
      (fun info => info > (parent ++ directory).length) = info) :
    expectedMaildirFilenameBytes filename tags =
      match maildirFlags (((info.map fun info => filename.drop (info + 3)).getD []).map
          UInt8.toNat) with
      | none => filename
      | some flags =>
        if directory = newDirectory ∧ info = none ∧
            (updatedFlags tags flags).toList = flags.toList then
          filename
        else
          (if directory = newDirectory then
              (filename.take (info.getD filename.length)).take parent.length ++ curDirectory ++
                (filename.take (info.getD filename.length)).drop (parent ++ directory).length
            else filename.take (info.getD filename.length)) ++ flagMarker ++
              (updatedFlags tags flags).toList.map UInt8.ofNat := by
  have hslash := h.lastSlash
  have hstart := h.directoryStart_eq
  have htake : filename.take (parent ++ directory).length = parent ++ directory := by
    rw [h.path, List.take_left]
  unfold slash at hslash hstart
  unfold expectedMaildirFilenameBytes
  rw [hslash]
  dsimp only
  rw [htake, hstart, List.drop_left]
  unfold flagMarker at hinfo
  rw [hinfo, if_neg]
  · rfl
  · intro hneither
    exact h.kind.elim hneither.1 hneither.2

/-- A filename outside of a Maildir stays as it is. -/
theorem expected_of_foreign
    (h : ∀ parent directory name, ¬ InMaildir filename parent directory name) :
    expectedMaildirFilenameBytes filename tags = filename := by
  rcases exists_last (· == slash) filename with hnone | ⟨path, x, name, rfl, hx, hname⟩
  · have hslash := rposition_eq_none hnone
    unfold slash at hslash
    unfold expectedMaildirFilenameBytes
    rw [hslash]
  · obtain rfl := eq_of_beq hx
    have hslash := @rposition_append (· == slash) path name slash hx hname
    have hfree : ∀ {bytes : Bytes}, (∀ y ∈ bytes, (y == slash) = false) → slash ∉ bytes :=
      fun hall hmem => absurd (hall slash hmem) (by decide)
    -- The directory begins after the slash before, or where the filename begins.
    obtain ⟨parent, directory, hpath, hparent, hstart⟩ : ∃ parent directory,
        path = parent ++ directory ∧ (parent = [] ∨ ∃ before, parent = before ++ [slash]) ∧
        ((rposition (· == slash) path).map fun slash => slash + 1).getD 0 = parent.length := by
      rcases exists_last (· == slash) path with hnone | ⟨before, y, directory, rfl, hy, hdirectory⟩
      · refine ⟨[], path, rfl, Or.inl rfl, ?_⟩
        rw [rposition_eq_none hnone]
        rfl
      · obtain rfl := eq_of_beq hy
        refine ⟨before ++ [slash], directory, by simp, Or.inr ⟨before, rfl⟩, ?_⟩
        rw [@rposition_append (· == slash) before directory slash hy hdirectory]
        show before.length + 1 = _
        rw [List.length_append, List.length_singleton]
    have hneither : directory ≠ curDirectory ∧ directory ≠ newDirectory := by
      by_contra hkind
      have hone : directory = curDirectory ∨ directory = newDirectory := by tauto
      exact h parent directory name ⟨hpath ▸ rfl, hparent, hone, hfree hname⟩
    unfold slash at hslash hstart
    unfold slash expectedMaildirFilenameBytes
    rw [hslash]
    dsimp only
    rw [List.take_left, hstart, hpath, List.drop_left]
    exact if_pos hneither

/-- A name whose flags are not in order stays as it is. -/
theorem InMaildir.expected_malformed (h : InMaildir filename parent directory name)
    (hflags : HasFlags name base flags) (horder : ¬ FlagsInOrder flags) :
    expectedMaildirFilenameBytes filename tags = filename := by
  have hdrop : filename.drop ((parent ++ directory ++ slash :: base).length + 3) = flags := by
    rw [h.split_of_hasFlags hflags, List.drop_length_add_append]
    rfl
  rw [h.expected_eq tags (h.info_of_hasFlags hflags)]
  show (match maildirFlags ((filename.drop _).map UInt8.toNat) with
    | none => filename
    | some flags => _) = _
  rw [hdrop, maildirFlags_eq_none horder]

/-- The directory of what is written is `cur`. -/
theorem InMaildir.moved (h : InMaildir filename parent directory name) (rest : Bytes) :
    (if directory = newDirectory then
        (parent ++ directory ++ slash :: rest).take parent.length ++ curDirectory ++
          (parent ++ directory ++ slash :: rest).drop (parent ++ directory).length
      else parent ++ directory ++ slash :: rest) = parent ++ curDirectory ++ slash :: rest := by
  split
  · rw [List.drop_left, List.append_assoc parent directory, List.take_left]
  · next hnew =>
    rw [h.kind.resolve_right hnew]

theorem InMaildir.expected_flagged (h : InMaildir filename parent directory name) (tags : List Str)
    (hflags : HasFlags name base flags) (horder : FlagsInOrder flags) :
    ∃ updated, FlagsFor tags flags updated ∧
      expectedMaildirFilenameBytes filename tags = flaggedFilename parent base updated := by
  obtain ⟨_, hfor⟩ := horder.flagsFor tags
  refine ⟨_, hfor, ?_⟩
  have hdrop : filename.drop ((parent ++ directory ++ slash :: base).length + 3) = flags := by
    rw [h.split_of_hasFlags hflags, List.drop_length_add_append]
    rfl
  have htake : filename.take (parent ++ directory ++ slash :: base).length =
      parent ++ directory ++ slash :: base := by
    rw [h.split_of_hasFlags hflags, List.take_left]
  rw [h.expected_eq tags (h.info_of_hasFlags hflags)]
  show (match maildirFlags ((filename.drop _).map UInt8.toNat) with
    | none => filename
    | some flags => _) = _
  rw [hdrop, horder.maildirFlags_eq]
  dsimp only
  rw [if_neg (by simp), Option.getD_some, htake, h.moved base]
  unfold flaggedFilename
  simp

theorem InMaildir.expected_unflagged (h : InMaildir filename parent directory name)
    (tags : List Str)
    (hnone : NoFlags name) :
    ∃ updated, FlagsFor tags [] updated ∧
      expectedMaildirFilenameBytes filename tags =
        if directory = newDirectory ∧ updated = [] then filename
        else flaggedFilename parent name updated := by
  have horder : FlagsInOrder [] := ⟨List.Pairwise.nil, fun _ hmem => absurd hmem List.not_mem_nil⟩
  have hfor : FlagsFor tags [] ((updatedFlags tags .empty).toList.map UInt8.ofNat) :=
    (horder.flagsFor tags).2
  refine ⟨_, hfor, ?_⟩
  rw [h.expected_eq tags (h.info_of_noFlags hnone)]
  -- without a marker there are no flags before
  show (if directory = newDirectory ∧ (none : Option Nat) = none ∧
      (updatedFlags tags .empty).toList = [] then filename else _) = _
  by_cases hstay : directory = newDirectory ∧ (updatedFlags tags .empty).toList = []
  · rw [if_pos ⟨hstay.1, rfl, hstay.2⟩, if_pos ⟨hstay.1, List.map_eq_nil_iff.2 hstay.2⟩]
  · have hread : ¬ (directory = newDirectory ∧ (none : Option Nat) = none ∧
        (updatedFlags tags .empty).toList = []) := fun hall => hstay ⟨hall.1, hall.2.2⟩
    have hwritten : ¬ (directory = newDirectory ∧
        (updatedFlags tags .empty).toList.map UInt8.ofNat = []) := fun hall =>
      hstay ⟨hall.1, List.map_eq_nil_iff.1 hall.2⟩
    rw [if_neg hread, if_neg hwritten, Option.getD_none, List.take_length, h.path, h.moved name]
    unfold flaggedFilename
    simp

/-! ## The law -/

theorem hasFlags_or_noFlags (name : Bytes) :
    (∃ base flags, HasFlags name base flags) ∨ NoFlags name := by
  induction name with
  | nil => exact Or.inr (show ¬ flagMarker <:+: [] by decide)
  | cons x name ih =>
    rcases ih with ⟨base, flags, hsplit, hlast⟩ | hnone
    · exact Or.inl ⟨x :: base, flags, congrArg (x :: ·) hsplit, hlast⟩
    · by_cases hprefix : flagMarker <+: x :: name
      · obtain ⟨flags, heq⟩ := hprefix
        have hsuffix : flags <:+ name := ⟨[0x32, 0x2C], (List.cons.inj heq).2⟩
        exact Or.inl ⟨[], flags, heq.symm, fun hin => hnone (hin.trans hsuffix.isInfix)⟩
      · exact Or.inr fun hin => (List.infix_cons_iff.1 hin).elim hprefix hnone

/-- Flags that are written can be read again. -/
theorem FlagsInOrder.no_marker (h : FlagsInOrder flags) : ¬ flagMarker <:+: flags := by
  intro hin
  have hmarker := h.increasing.sublist (hin.sublist.map UInt8.toNat)
  exact absurd hmarker (by decide)

theorem FlagsFor.slash_free (h : FlagsFor tags flags updated) (hflags : slash ∉ flags) :
    slash ∉ updated := by
  intro hmem
  rcases (h.mem slash).1 hmem with hdesired | ⟨_, hkept⟩
  · have hkey : slash.toNat ∈ (desiredFlags tags).map Prod.fst := List.mem_map_of_mem hdesired
    exact (show slash.toNat ∉ [0x44, 0x46, 0x50, 0x52, 0x53] by decide) hkey
  · exact hflags hkept

/-- A filename that is written is left as it is. -/
theorem expected_flaggedFilename {before : Bytes} (hparent : parent = [] ∨ ∃ before, parent =
    before ++ [slash]) (hbase : slash ∉ base) (hbefore : slash ∉ before)
    (h : FlagsFor tags before updated) :
    expectedMaildirFilenameBytes (flaggedFilename parent base updated) tags =
      flaggedFilename parent base updated := by
  have hname : slash ∉ base ++ (flagMarker ++ updated) := by
    simp only [List.mem_append, not_or]
    exact ⟨hbase, by decide, h.slash_free hbefore⟩
  have hin : InMaildir (flaggedFilename parent base updated) parent curDirectory
      (base ++ (flagMarker ++ updated)) := ⟨rfl, hparent, Or.inl rfl, hname⟩
  obtain ⟨again, hagain, heq⟩ :=
    hin.expected_flagged tags ⟨rfl, h.inOrder.no_marker⟩ h.inOrder
  rw [heq, h.again.unique hagain]

/-- **The expected filename.** A filename of a Maildir keeps its name before the last marker, and
the flags that the tags say nothing of; its flags are written in order, and they are as the tags
ask. Without a marker the whole name is kept, and a filename in `new` stays there while no flag is
to be written. A filename with flags that are not in order and one outside of a Maildir stay as they
are. -/
theorem expected_filename_law (filename : Bytes) (tags : List Str) :
    expectedMaildirFilenameBytes (expectedMaildirFilenameBytes filename tags) tags =
        expectedMaildirFilenameBytes filename tags ∧
      ((∀ parent directory name, ¬ InMaildir filename parent directory name) →
        expectedMaildirFilenameBytes filename tags = filename) ∧
      ∀ parent directory name, InMaildir filename parent directory name →
        ((∃ base flags, HasFlags name base flags) ∨ NoFlags name) ∧
        (∀ base flags, HasFlags name base flags → ¬ FlagsInOrder flags →
          expectedMaildirFilenameBytes filename tags = filename) ∧
        (∀ base flags, HasFlags name base flags → FlagsInOrder flags →
          ∃ updated, FlagsFor tags flags updated ∧
            expectedMaildirFilenameBytes filename tags = flaggedFilename parent base updated) ∧
        (NoFlags name → ∃ updated, FlagsFor tags [] updated ∧
          expectedMaildirFilenameBytes filename tags =
            if directory = newDirectory ∧ updated = [] then filename
            else flaggedFilename parent name updated) := by
  refine ⟨?_, expected_of_foreign, fun parent directory name h =>
    ⟨hasFlags_or_noFlags name, fun base flags => h.expected_malformed,
      fun base flags => h.expected_flagged tags, h.expected_unflagged tags⟩⟩
  -- What is expected is expected to stay. It is of the form that is written, or the name was left
  -- as it is in the first place.
  by_cases hforeign : ∀ parent directory name, ¬ InMaildir filename parent directory name
  · rw [expected_of_foreign hforeign, expected_of_foreign hforeign]
  · push Not at hforeign
    obtain ⟨parent, directory, name, h⟩ := hforeign
    rcases hasFlags_or_noFlags name with ⟨base, flags, hflags⟩ | hnone
    · by_cases horder : FlagsInOrder flags
      · obtain ⟨updated, hfor, heq⟩ := h.expected_flagged tags hflags horder
        have hfree := h.nameFree
        rw [hflags.split] at hfree
        simp only [List.mem_append, not_or] at hfree
        rw [heq, expected_flaggedFilename h.parentEnd hfree.1 hfree.2.2 hfor]
      · rw [h.expected_malformed hflags horder, h.expected_malformed hflags horder]
    · obtain ⟨updated, hfor, heq⟩ := h.expected_unflagged tags hnone
      by_cases hstay : directory = newDirectory ∧ updated = []
      · rw [if_pos hstay] at heq
        rw [heq, heq]
      · rw [heq, if_neg hstay,
          expected_flaggedFilename h.parentEnd h.nameFree List.not_mem_nil hfor]

/-- `cur/m:1,x`. -/
def foreignInfo : Bytes := [0x63, 0x75, 0x72, 0x2F, 0x6D, 0x3A, 0x31, 0x2C, 0x78]

/-- Flags are written after the information of another version. -/
theorem foreign_info_renamed :
    expectedMaildirFilenameBytes foreignInfo [] = foreignInfo ++ [0x3A, 0x32, 0x2C, 0x53] ∧
      expectedMaildirFilenameBytes foreignInfo [] ≠ foreignInfo := by
  decide +kernel

end Notm.Notmuch
