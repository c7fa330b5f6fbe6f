import Notm.Ui.BoundaryScan

/-!
# Where the header section ends

`notm-mail` and the thread loader each look for the blank line that ends the header section of a
message. `header_end` takes the first one, in whichever form it is; `find_header_end` takes one in
LF form only when there is none in CRLF form at all.

* `headerEnd_first` — `header_end` finds the first blank line.
* `headerEnd_append` — so what is found in the beginning of a message is found in the message.
* `header_ends_agree_iff` — when `find_header_end` finds the same one.
* `prepareHeaderBlock_eq_headerText` — then the loader and the reader show the same text.
-/

namespace Notm.Ui

open Rust Notm.Mail

/-- A blank line in CRLF form. -/
def crlfBlank : Bytes := [0x0D, 0x0A, 0x0D, 0x0A]

/-- A blank line in LF form. -/
def lfBlank : Bytes := [0x0A, 0x0A]

/-! ## The two searches -/

/-- `header_end` of `message_io`. -/
def headerEnd (bytes : Bytes) : Option Nat :=
  match windowPosition crlfBlank bytes, windowPosition lfBlank bytes with
  | some crlf, some lf => some (min crlf lf)
  | some index, none | none, some index => some index
  | none, none => none

/-- `find_header_end` of the thread loader. -/
def findHeaderEnd (bytes : Bytes) : Option Nat :=
  (windowPosition crlfBlank bytes).or (windowPosition lfBlank bytes)

/-- `prepare_header_block`, before its bytes are decoded. -/
def prepareHeaderBlock (bytes : Bytes) (maxBytes : Nat) : Except Str Bytes :=
  let stop := (findHeaderEnd bytes).getD bytes.length
  if maxBytes < stop then
    .error ("message headers are ".toList ++ natText stop ++
      " bytes; the responsive text-view limit is ".toList ++ natText maxBytes ++
      " bytes".toList)
  else .ok (bytes.take stop)

/-- The loop of `read_header_text_with_limit` over the pieces in which the reader returns the
message: what is displayed, and whether it was truncated. -/
def readHeaderPieces (limit : Nat) (retained : Bytes) : List Bytes → Bytes × Bool
  | [] => (retained, false)
  | piece :: pieces =>
    let keep := min (limit - retained.length) piece.length
    let retained := retained ++ piece.take keep
    match headerEnd retained with
    | some stop => (retained.take stop, false)
    | none =>
      if keep < piece.length then (retained, true)
      else if retained.length = limit then (retained, !pieces.isEmpty)
      else readHeaderPieces limit retained pieces

/-! ## Blank lines -/

/-- A blank line of some form begins at the index. -/
def BlankAt (bytes : Bytes) (i : Nat) : Prop :=
  crlfBlank <+: bytes.drop i ∨ lfBlank <+: bytes.drop i

theorem crlf_first (bytes : Bytes) :
    FirstIndex (fun i => crlfBlank <+: bytes.drop i) 0 (windowPosition crlfBlank bytes) :=
  windowPosition_first (by decide) bytes

theorem lf_first (bytes : Bytes) :
    FirstIndex (fun i => lfBlank <+: bytes.drop i) 0 (windowPosition lfBlank bytes) :=
  windowPosition_first (by decide) bytes

/-- `header_end` finds the first blank line. -/
theorem headerEnd_first (bytes : Bytes) : FirstIndex (BlankAt bytes) 0 (headerEnd bytes) := by
  have hcrlf := crlf_first bytes
  have hlf := lf_first bytes
  unfold headerEnd
  cases hc : windowPosition crlfBlank bytes with
  | none =>
    rw [hc] at hcrlf
    cases hl : windowPosition lfBlank bytes with
    | none =>
      rw [hl] at hlf
      exact fun j hj hblank => hblank.elim (hcrlf j hj) (hlf j hj)
    | some lf =>
      rw [hl] at hlf
      refine ⟨Nat.zero_le _, Or.inr hlf.2.1, fun j hj hlt hblank => ?_⟩
      exact hblank.elim (hcrlf j hj) (hlf.2.2 j hj hlt)
  | some crlf =>
    rw [hc] at hcrlf
    cases hl : windowPosition lfBlank bytes with
    | none =>
      rw [hl] at hlf
      refine ⟨Nat.zero_le _, Or.inl hcrlf.2.1, fun j hj hlt hblank => ?_⟩
      exact hblank.elim (hcrlf.2.2 j hj hlt) (hlf j hj)
    | some lf =>
      rw [hl] at hlf
      refine ⟨Nat.zero_le _, ?_, fun j hj hlt hblank => ?_⟩
      · rcases Nat.le_total crlf lf with hle | hle
        · rw [Nat.min_eq_left hle]
          exact Or.inl hcrlf.2.1
        · rw [Nat.min_eq_right hle]
          exact Or.inr hlf.2.1
      · exact hblank.elim (hcrlf.2.2 j hj (by omega)) (hlf.2.2 j hj (by omega))

theorem headerEnd_le {bytes : Bytes} {stop : Nat} (h : headerEnd bytes = some stop) :
    stop + 2 ≤ bytes.length := by
  have hfirst := headerEnd_first bytes
  rw [h] at hfirst
  rcases hfirst.2.1 with hcrlf | hlf
  · have hlength := length_le_of_prefix_drop (by decide) hcrlf
    have hfour : crlfBlank.length = 4 := rfl
    omega
  · exact length_le_of_prefix_drop (by decide) hlf

/-! ## Reading in pieces -/

/-- What stands at an index of the longer text stands there in the shorter one, if there is room
for it. -/
theorem prefix_drop_of_append {needle bytes rest : Bytes} {i : Nat}
    (h : needle <+: (bytes ++ rest).drop i) (hroom : i + needle.length ≤ bytes.length) :
    needle <+: bytes.drop i := by
  rw [List.drop_append_of_le_length (by omega)] at h
  refine List.prefix_of_prefix_length_le h (List.prefix_append _ _) ?_
  rw [List.length_drop]
  omega

theorem blankAt_append {bytes : Bytes} {i : Nat} (h : BlankAt bytes i) (rest : Bytes)
    (hle : i ≤ bytes.length) : BlankAt (bytes ++ rest) i := by
  unfold BlankAt
  rw [List.drop_append_of_le_length hle]
  exact h.imp (·.trans (List.prefix_append _ _)) (·.trans (List.prefix_append _ _))

/-- The two bytes of a blank line in LF form are not the middle of one in CRLF form. -/
theorem not_lf_behind_crlf {bytes : Bytes} {i : Nat} (hcrlf : crlfBlank <+: bytes.drop i)
    (hlf : lfBlank <+: bytes.drop (i + 1)) : False := by
  obtain ⟨rest, hrest⟩ := hcrlf
  have hdrop : bytes.drop (i + 1) = [0x0A, 0x0D, 0x0A] ++ rest := by
    rw [← List.drop_drop, ← hrest]
    rfl
  rw [hdrop] at hlf
  obtain ⟨rest', hrest'⟩ := hlf
  exact absurd (List.cons.inj (List.cons.inj hrest').2).1 (by decide)

/-- A blank line that is found in the beginning of a message is the first of the message. -/
theorem headerEnd_append {bytes : Bytes} {stop : Nat} (h : headerEnd bytes = some stop)
    (rest : Bytes) : headerEnd (bytes ++ rest) = some stop := by
  have hroom := headerEnd_le h
  have hfirst := headerEnd_first bytes
  rw [h] at hfirst
  refine (headerEnd_first (bytes ++ rest)).unique ⟨Nat.zero_le _, ?_, fun j hj hlt hblank => ?_⟩
  · exact blankAt_append hfirst.2.1 rest (by omega)
  · rcases hblank with hcrlf | hlf
    · have hfour : crlfBlank.length = 4 := rfl
      by_cases hlast : j + 4 ≤ bytes.length
      · exact hfirst.2.2 j hj hlt (Or.inl (prefix_drop_of_append hcrlf hlast))
      · -- only the last three bytes of the beginning are left: the blank line found is in LF form
        rcases hfirst.2.1 with hcrlf' | hlf'
        · have hlength := length_le_of_prefix_drop (by decide) hcrlf'
          omega
        · obtain rfl : stop = j + 1 := by omega
          refine not_lf_behind_crlf hcrlf ?_
          rw [List.drop_append_of_le_length (by omega)]
          exact hlf'.trans (List.prefix_append _ _)
    · have htwo : lfBlank.length = 2 := rfl
      exact hfirst.2.2 j hj hlt (Or.inr (prefix_drop_of_append hlf (by omega)))

/-- What is displayed of a message: its header section, within the limit. -/
def headerText (limit : Nat) (bytes : Bytes) : Bytes × Bool :=
  match headerEnd (bytes.take limit) with
  | some stop => (bytes.take stop, false)
  | none => (bytes.take limit, decide (limit < bytes.length))

/-- The pieces in which the message is read do not matter. -/
theorem readHeaderPieces_eq {limit : Nat} {retained : Bytes} {pieces : List Bytes}
    (hpieces : ∀ piece ∈ pieces, piece ≠ []) (hroom : retained.length ≤ limit)
    (hnone : headerEnd retained = none) (hfull : retained.length = limit → pieces = []) :
    readHeaderPieces limit retained pieces = headerText limit (retained ++ pieces.flatten) := by
  induction pieces generalizing retained with
  | nil =>
    have htake : (retained ++ ([] : List Bytes).flatten).take limit = retained := by
      rw [List.flatten_nil, List.append_nil, List.take_of_length_le hroom]
    unfold readHeaderPieces headerText
    rw [htake, hnone, List.flatten_nil, List.append_nil]
    have hshort : ¬ limit < retained.length := by omega
    simp only [hshort, decide_false]
  | cons piece pieces ih =>
    have hkept : retained ++ piece.take (min (limit - retained.length) piece.length) =
        (retained ++ piece).take limit := by
      rw [List.take_append, List.take_of_length_le hroom]
      congr 1
      rw [List.take_eq_take_iff]
      omega
    have hbegin : (retained ++ (piece :: pieces).flatten).take limit =
        (retained ++ piece).take limit ++
          pieces.flatten.take (limit - (retained ++ piece).length) := by
      rw [List.flatten_cons, ← List.append_assoc, List.take_append]
    unfold readHeaderPieces
    dsimp only
    rw [hkept]
    cases hend : headerEnd ((retained ++ piece).take limit) with
    | some stop =>
      have hle := headerEnd_le hend
      rw [List.length_take] at hle
      have hshown : ((retained ++ piece).take limit).take stop =
          (retained ++ (piece :: pieces).flatten).take stop := by
        rw [List.take_take, Nat.min_eq_left (by omega), List.flatten_cons, ← List.append_assoc]
        exact (List.take_append_of_le_length (by omega)).symm
      unfold headerText
      rw [hbegin, headerEnd_append hend]
      show (((retained ++ piece).take limit).take stop, false) = _
      rw [hshown]
    | none =>
      by_cases hcut : min (limit - retained.length) piece.length < piece.length
      · -- the piece does not fit
        have hlong : limit < (retained ++ piece).length := by
          rw [List.length_append]
          omega
        have hrest : limit - (retained ++ piece).length = 0 := by omega
        unfold headerText
        rw [hbegin, hrest, List.take_zero, List.append_nil, hend]
        have hlonger : limit < (retained ++ (piece :: pieces).flatten).length := by
          rw [List.flatten_cons, ← List.append_assoc, List.length_append]
          omega
        simp only [hcut, if_true, hlonger, decide_true]
      · have hfits : (retained ++ piece).length ≤ limit := by
          rw [List.length_append]
          omega
        have htaken : (retained ++ piece).take limit = retained ++ piece :=
          List.take_of_length_le hfits
        rw [htaken] at hend hbegin
        rw [htaken]
        dsimp only
        rw [if_neg hcut]
        by_cases hexact : (retained ++ piece).length = limit
        · have hzero : limit - (retained ++ piece).length = 0 := by omega
          unfold headerText
          rw [if_pos hexact, hbegin, hzero, List.take_zero, List.append_nil, hend]
          have hmore : (!pieces.isEmpty) =
              decide (limit < (retained ++ (piece :: pieces).flatten).length) := by
            rw [List.flatten_cons, ← List.append_assoc, List.length_append, hexact]
            cases pieces with
            | nil => simp
            | cons next rest =>
              have hnext := hpieces next (List.mem_cons_of_mem _ List.mem_cons_self)
              have hpos : 0 < (next :: rest).flatten.length := by
                rw [List.flatten_cons, List.length_append]
                have hlength := List.length_pos_of_ne_nil hnext
                omega
              simp only [List.isEmpty_cons, Bool.not_false]
              exact (decide_eq_true (by omega)).symm
          rw [hmore]
        · rw [if_neg hexact, ih (fun p hp => hpieces p (List.mem_cons_of_mem _ hp)) hfits hend
            (fun h => absurd h hexact)]
          rw [List.flatten_cons, List.append_assoc]

/-- `read_header_text_with_limit` displays the header section that `header_end` finds. -/
theorem readHeaderPieces_nil_eq {limit : Nat} (hlimit : 0 < limit) {pieces : List Bytes}
    (hpieces : ∀ piece ∈ pieces, piece ≠ []) :
    readHeaderPieces limit [] pieces = headerText limit pieces.flatten := by
  refine readHeaderPieces_eq hpieces (Nat.zero_le _) (by decide) fun h => ?_
  exact absurd h (by simp; omega)

/-! ## Agreement -/

/-- When the message has a blank line in CRLF form, none in LF form comes before the first of
them. -/
def CrlfComesFirst (bytes : Bytes) : Prop :=
  (∃ j, crlfBlank <+: bytes.drop j) →
    ∀ i, lfBlank <+: bytes.drop i → ∃ j ≤ i, crlfBlank <+: bytes.drop j

/-- **Where the two agree.** The thread loader and `message_io` find the same end of the header
section exactly when no blank line in LF form comes before the first one in CRLF form. A message
without any blank line in CRLF form is among these, and one whose lines end in LF while a part of it
quotes such a line is not. -/
theorem header_ends_agree_iff (bytes : Bytes) :
    findHeaderEnd bytes = headerEnd bytes ↔ CrlfComesFirst bytes := by
  have hcrlf := crlf_first bytes
  have hlf := lf_first bytes
  unfold findHeaderEnd headerEnd CrlfComesFirst
  cases hc : windowPosition crlfBlank bytes with
  | none =>
    -- No blank line is in CRLF form: both look for one in LF form.
    rw [hc] at hcrlf
    refine iff_of_true ?_ fun hany => ?_
    · cases windowPosition lfBlank bytes <;> rfl
    · obtain ⟨j, hj⟩ := hany
      exact absurd hj (hcrlf j (Nat.zero_le _))
  | some crlf =>
    rw [hc] at hcrlf
    cases hl : windowPosition lfBlank bytes with
    | none =>
      rw [hl] at hlf
      -- All blank lines are in CRLF form, and both take the first.
      refine iff_of_true rfl fun _ i hi => ?_
      exact absurd hi (hlf i (Nat.zero_le _))
    | some lf =>
      rw [hl] at hlf
      -- There are both: the loader takes the first in CRLF form, the reader the first of all.
      show some crlf = some (min crlf lf) ↔ _
      constructor
      · intro heq _ i hi
        have hmin := Option.some.inj heq
        have hle : lf ≤ i := by
          by_contra hlt
          exact hlf.2.2 i (Nat.zero_le _) (by omega) hi
        exact ⟨crlf, by omega, hcrlf.2.1⟩
      · intro hfirst
        obtain ⟨j, hj, hcrlf'⟩ := hfirst ⟨crlf, hcrlf.2.1⟩ lf hlf.2.1
        have hle : crlf ≤ j := by
          by_contra hlt
          exact hcrlf.2.2 j (Nat.zero_le _) (by omega) hcrlf'
        rw [Nat.min_eq_left (by omega)]

/-- Within the limits the two texts are then the same. -/
theorem prepareHeaderBlock_eq_headerText {bytes : Bytes} {limit : Nat}
    (h : findHeaderEnd bytes = headerEnd bytes) (hlimit : bytes.length ≤ limit) :
    prepareHeaderBlock bytes limit = .ok (headerText limit bytes).1 := by
  unfold prepareHeaderBlock headerText
  rw [h, List.take_of_length_le hlimit]
  cases hend : headerEnd bytes with
  | none =>
    have hfits : ¬ limit < bytes.length := by omega
    simp only [Option.getD_none, hfits, if_false, List.take_length]
  | some stop =>
    have hle := headerEnd_le hend
    have hfits : ¬ limit < stop := by omega
    simp only [Option.getD_some, hfits, if_false]

/-- A message whose lines end in LF, with a body that quotes a blank line in CRLF form. -/
theorem lf_message_with_crlf_in_body :
    findHeaderEnd [0x61, 0x0A, 0x0A, 0x62, 0x0D, 0x0A, 0x0D, 0x0A] = some 4 ∧
      headerEnd [0x61, 0x0A, 0x0A, 0x62, 0x0D, 0x0A, 0x0D, 0x0A] = some 1 := by
  decide

end Notm.Ui
