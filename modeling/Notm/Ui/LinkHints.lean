import Notm.Lib.Counter
import Notm.Lib.Rust

/-!
# Link hints

Every visible link of an HTML message gets a label, and the letters that are typed leave the links
whose labels begin with them until one label is complete. All labels are as long as each other, so
none is the beginning of another.

* `hintLabel_injective` — a label is its index written to the base of the alphabet.
* `linkHintLabels_fixedWidth` — the labels of a message are different and equally long.
* `applyLinkHintChar_step` — a character is refused, completes a label or narrows the choice.
* `pressHints_eq_typeHint` — what the keys of the user come to.
* `link_hint_selects_its_label` — a sequence selects the link whose label it leaves.
-/

namespace Notm.Ui

open Rust

/-! ## Labels -/

def linkHintAlphabet : List Char := "asdfghjklqwertyuiopzxcvbnm".toList

/-- The loop of `hint_label_width`, of which there are no more rounds than hints. -/
def hintLabelWidthFrom (count radix : Nat) : Nat → Nat → Nat → Nat
  | 0, width, _ => width
  | fuel + 1, width, capacity =>
    if capacity < count then
      hintLabelWidthFrom count radix fuel (width + 1) (saturatingMul capacity radix)
    else width

def hintLabelWidth (count radix : Nat) : Nat := hintLabelWidthFrom count radix count 1 radix

/-- The loop of `hint_label`, from the last position to the first, with the characters that are
written already. -/
def hintLabelFrom (alphabet : List Char) : Nat → Nat → Str → Str
  | 0, _, written => written
  | position + 1, index, written =>
    hintLabelFrom alphabet position (index / alphabet.length)
      (alphabet.getD (index % alphabet.length) 'a' :: written)

def hintLabel (index width : Nat) (alphabet : List Char) : Str :=
  hintLabelFrom alphabet width index []

def linkHintLabels (count : Nat) : List Str :=
  if count = 0 then []
  else
    let width := hintLabelWidth count linkHintAlphabet.length
    (List.range count).map fun index => hintLabel index width linkHintAlphabet

/-! ## State -/

inductive LinkHintPhase where
  | idle | awaitingLoad | collecting | rendering | active
  deriving DecidableEq

def LinkHintPhase.isLoading (phase : LinkHintPhase) : Bool :=
  phase ∈ [.awaitingLoad, .collecting, .rendering]

structure LinkHintCandidate where
  label : Str
  uri : Str
  deriving DecidableEq

structure LinkHintState where
  phase : LinkHintPhase
  generation : Nat
  typedPrefix : Str
  candidates : List LinkHintCandidate
  overlayCount : Nat
  collectAttempts : Nat
  deriving DecidableEq

inductive LinkHintInputOutcome where
  | inactive
  | loading
  | invalid (attempted typedPrefix : Str) (count total : Nat)
  | updated (typedPrefix : Str) (count total : Nat)
  | selected (uri : Str)
  deriving DecidableEq

/-- The candidates that a beginning leaves. -/
def matchingCandidates (candidates : List LinkHintCandidate) (beginning : Str) :
    List LinkHintCandidate :=
  candidates.filter fun candidate => beginning.isPrefixOf candidate.label

def matchingHintCount (candidates : List LinkHintCandidate) (beginning : Str) : Nat :=
  (matchingCandidates candidates beginning).length

/-- `reset`, and what a selection does. -/
def LinkHintState.reset (state : LinkHintState) : LinkHintState where
  phase := .idle
  generation := wrappingSucc state.generation
  typedPrefix := []
  candidates := []
  overlayCount := 0
  collectAttempts := 0

def applyLinkHintChar (state : LinkHintState) (input : Char) :
    LinkHintState × LinkHintInputOutcome :=
  let attempted := state.typedPrefix ++ [input]
  let remaining := matchingCandidates state.candidates attempted
  if remaining = [] then
    (state, .invalid attempted state.typedPrefix
    (matchingHintCount state.candidates state.typedPrefix)
      state.candidates.length)
  else
    match remaining.find? fun candidate => candidate.label = attempted with
    | some candidate => (state.reset, .selected candidate.uri)
    | none => ({ state with typedPrefix := attempted },
        .updated attempted remaining.length state.candidates.length)

/-- `input_char`, where no outcome is the reminder to type a displayed letter. -/
def inputChar (state : LinkHintState) (input : Char) :
    LinkHintState × Option LinkHintInputOutcome :=
  let input := asciiLower input
  if input ∉ linkHintAlphabet then (state, none)
  else if state.phase.isLoading = true then (state, some .loading)
  else if state.phase ≠ .active then (state, some .inactive)
  else
    let (state, outcome) := applyLinkHintChar state input
    (state, some outcome)

/-- `backspace`. While the hints load it changes nothing. -/
def backspaceHint (state : LinkHintState) : LinkHintState :=
  if state.phase = .active then { state with typedPrefix := state.typedPrefix.dropLast } else state

/-- The candidates of `finish_collecting`. -/
def linkHintCandidates (uris : List Str) : List LinkHintCandidate :=
  (uris.zip (linkHintLabels uris.length)).map fun (uri, label) => ⟨label, uri⟩

/-- The state once the labels are displayed. -/
def displayedHints (generation collectAttempts : Nat) (uris : List Str) : LinkHintState where
  phase := .active
  generation
  typedPrefix := []
  candidates := linkHintCandidates uris
  overlayCount := uris.length
  collectAttempts

/-- The characters of a sequence up to the one that selects a link: what is selected. -/
def typeHint : LinkHintState → List Char → Option Str
  | _, [] => none
  | state, input :: rest =>
    match applyLinkHintChar state input with
    | (_, .selected uri) => some uri
    | (state, _) => typeHint state rest

/-- The keys of a sequence as the controller takes them, up to the one that selects a link. -/
def pressHints : LinkHintState → List Char → Option Str
  | _, [] => none
  | state, input :: rest =>
    match inputChar state input with
    | (_, some (.selected uri)) => some uri
    | (state, _) => pressHints state rest

/-! ## What labels are like -/

variable {alphabet : List Char} {width count radix : Nat} {i j : Nat}

/-- The rounds suffice: there are as many labels of the width as there are hints. -/
theorem count_le_hintLabelWidthFrom (hradix : 2 ≤ radix) (hcount : count ≤ u64Max)
    (fuel width : Nat)
    (capacity : Nat) (hcapacity : capacity ≤ radix ^ width) (hpos : 0 < capacity)
    (hfuel : count ≤ capacity + fuel) :
    count ≤ radix ^ hintLabelWidthFrom count radix fuel width capacity := by
  induction fuel generalizing width capacity with
  | zero => exact hfuel.trans hcapacity
  | succ fuel ih =>
    unfold hintLabelWidthFrom
    split
    · next hless =>
      have hgrows : capacity + capacity ≤ capacity * radix := by
        calc capacity + capacity = capacity * 2 := (Nat.mul_two capacity).symm
          _ ≤ capacity * radix := Nat.mul_le_mul_left capacity hradix
      refine ih (width + 1) (saturatingMul capacity radix) ?_ ?_ ?_
      · calc saturatingMul capacity radix ≤ capacity * radix := Nat.min_le_left _ _
          _ ≤ radix ^ width * radix := Nat.mul_le_mul_right radix hcapacity
          _ = radix ^ (width + 1) := (Nat.pow_succ radix width).symm
      · unfold saturatingMul
        omega
      · unfold saturatingMul
        omega
    · omega

theorem count_le_hintLabelWidth (hradix : 2 ≤ radix) (hcount : count ≤ u64Max) :
    count ≤ radix ^ hintLabelWidth count radix :=
  count_le_hintLabelWidthFrom hradix hcount count 1 radix (Nat.le_of_eq (Nat.pow_one radix).symm)
    (by omega) (Nat.le_add_left _ _)

/-- What is written already stays behind the rest of the label. -/
theorem hintLabelFrom_eq (width index : Nat) (written : Str) :
    hintLabelFrom alphabet width index written = hintLabel index width alphabet ++ written := by
  induction width generalizing index written with
  | zero => rfl
  | succ width ih =>
    unfold hintLabel hintLabelFrom
    rw [ih, ih _ [_], List.append_assoc]
    rfl

/-- A label is that of the quotient and the character of the remainder. -/
theorem hintLabel_succ (index width : Nat) (alphabet : List Char) :
    hintLabel index (width + 1) alphabet = hintLabel (index / alphabet.length) width alphabet ++
      [alphabet.getD (index % alphabet.length) 'a'] :=
  hintLabelFrom_eq width (index / alphabet.length) _

theorem length_hintLabel (index width : Nat) (alphabet : List Char) :
    (hintLabel index width alphabet).length = width := by
  induction width generalizing index with
  | zero => rfl
  | succ width ih => rw [hintLabel_succ, List.length_append, ih, List.length_singleton]

theorem mem_alphabet_of_mem_hintLabel {index : Nat} {c : Char} (halphabet : alphabet ≠ [])
    (h : c ∈ hintLabel index width alphabet) : c ∈ alphabet := by
  induction width generalizing index with
  | zero => exact absurd h List.not_mem_nil
  | succ width ih =>
    rw [hintLabel_succ, List.mem_append, List.mem_singleton] at h
    rcases h with hrest | rfl
    · exact ih hrest
    · have hlt : index % alphabet.length < alphabet.length :=
        Nat.mod_lt _ (List.length_pos_iff.2 halphabet)
      rw [List.getD_eq_getElem _ _ hlt]
      exact List.getElem_mem hlt

/-- Labels are numbers to the base of the alphabet. -/
theorem hintLabel_injective (halphabet : alphabet.Nodup) {width : Nat}
    (hi : i < alphabet.length ^ width) (hj : j < alphabet.length ^ width)
    (h : hintLabel i width alphabet = hintLabel j width alphabet) : i = j := by
  induction width generalizing i j with
  | zero =>
    rw [Nat.pow_zero] at hi hj
    omega
  | succ width ih =>
    rw [hintLabel_succ, hintLabel_succ] at h
    obtain ⟨hquotient, hlast⟩ := List.append_inj h
      ((length_hintLabel _ _ _).trans (length_hintLabel _ _ _).symm)
    have hne : 0 < alphabet.length := by
      by_contra hzero
      rw [Nat.eq_zero_of_not_pos hzero, Nat.zero_pow (Nat.succ_pos width)] at hi
      exact absurd hi (Nat.not_lt_zero i)
    have hdiv : i / alphabet.length = j / alphabet.length := by
      rw [Nat.pow_succ] at hi hj
      exact ih (Nat.div_lt_of_lt_mul (Nat.mul_comm _ _ ▸ hi))
        (Nat.div_lt_of_lt_mul (Nat.mul_comm _ _ ▸ hj)) hquotient
    have hmod : i % alphabet.length = j % alphabet.length := by
      have hchar := (List.cons.inj hlast).1
      rw [List.getD_eq_getElem _ _ (Nat.mod_lt i hne),
        List.getD_eq_getElem _ _ (Nat.mod_lt j hne)] at hchar
      exact (List.Nodup.getElem_inj_iff halphabet).1 hchar
    rw [← Nat.div_add_mod i alphabet.length, hdiv, hmod, Nat.div_add_mod]

/-- Labels for as many hints as there are: different, and as long as each other. -/
structure FixedWidth (labels : List Str) (width : Nat) : Prop where
  nodup : labels.Nodup
  width : ∀ label ∈ labels, label.length = width

theorem linkHintLabels_length (count : Nat) : (linkHintLabels count).length = count := by
  unfold linkHintLabels
  split
  · next hzero => exact hzero.symm
  · rw [List.length_map, List.length_range]

theorem linkHintLabels_fixedWidth (hcount : count ≤ u64Max) :
    FixedWidth (linkHintLabels count) (hintLabelWidth count linkHintAlphabet.length) := by
  have hlength : linkHintAlphabet.length = 26 := rfl
  have henough := @count_le_hintLabelWidth count linkHintAlphabet.length
    (by rw [hlength]; omega) hcount
  unfold linkHintLabels
  split
  · exact ⟨List.nodup_nil, fun _ hmem => absurd hmem List.not_mem_nil⟩
  · constructor
    · refine List.Nodup.map_on (fun i hi j hj h => ?_) List.nodup_range
      have hi' := List.mem_range.1 hi
      have hj' := List.mem_range.1 hj
      exact hintLabel_injective (by decide) (hi'.trans_le henough) (hj'.trans_le henough) h
    · intro label hlabel
      obtain ⟨index, _, rfl⟩ := List.mem_map.1 hlabel
      exact length_hintLabel _ _ _

theorem mem_alphabet_of_mem_linkHintLabels {label : Str} {c : Char}
    (hlabel : label ∈ linkHintLabels count) (hc : c ∈ label) : c ∈ linkHintAlphabet := by
  unfold linkHintLabels at hlabel
  split at hlabel
  · exact absurd hlabel List.not_mem_nil
  · obtain ⟨index, _, rfl⟩ := List.mem_map.1 hlabel
    exact mem_alphabet_of_mem_hintLabel (by decide) hc

/-- A label that begins with another is that one. -/
theorem FixedWidth.eq_of_isPrefix {labels : List Str} (h : FixedWidth labels width) {a b : Str}
    (ha : a ∈ labels) (hb : b ∈ labels) (hab : a <+: b) : a = b :=
  hab.eq_of_length ((h.width a ha).trans (h.width b hb).symm)

/-! ## Typing -/

variable {state : LinkHintState} {candidates : List LinkHintCandidate} {attempted uri : Str}
  {input : Char}

/-- What is typed of a sequence, without the characters with which no remaining label continues. -/
def acceptedHint (labels : List Str) : Str → List Char → Str
  | typed, [] => typed
  | typed, input :: rest =>
    if labels.any (fun label => (typed ++ [input]).isPrefixOf label) = true then
      acceptedHint labels (typed ++ [input]) rest
    else acceptedHint labels typed rest

theorem matchingCandidates_eq_nil : matchingCandidates candidates attempted = [] ↔
    (candidates.map LinkHintCandidate.label).any (fun label => attempted.isPrefixOf label) =
      false := by
  unfold matchingCandidates
  rw [List.filter_eq_nil_iff, List.any_map, List.any_eq_false]
  rfl

/-- What a character does: no label continues with it, or one is complete, or some are left. -/
inductive HintStep (state : LinkHintState) (input : Char) :
    LinkHintState × LinkHintInputOutcome → Prop
  | invalid
    (hnone : (state.candidates.map LinkHintCandidate.label).any
      (fun label => (state.typedPrefix ++ [input]).isPrefixOf label) = false) :
    HintStep state input (state, .invalid (state.typedPrefix ++ [input]) state.typedPrefix
      (matchingHintCount state.candidates state.typedPrefix) state.candidates.length)
  | selected (candidate : LinkHintCandidate) (hmem : candidate ∈ state.candidates)
    (hlabel : candidate.label = state.typedPrefix ++ [input]) :
    HintStep state input (state.reset, .selected candidate.uri)
  | updated
    (hsome : (state.candidates.map LinkHintCandidate.label).any
      (fun label => (state.typedPrefix ++ [input]).isPrefixOf label) = true)
    (hincomplete : ∀ candidate ∈ state.candidates,
      candidate.label ≠ state.typedPrefix ++ [input]) :
    HintStep state input ({ state with typedPrefix := state.typedPrefix ++ [input] },
      .updated (state.typedPrefix ++ [input])
        (matchingHintCount state.candidates (state.typedPrefix ++ [input]))
        state.candidates.length)

theorem applyLinkHintChar_step (state : LinkHintState) (input : Char) :
    HintStep state input (applyLinkHintChar state input) := by
  unfold applyLinkHintChar
  dsimp only
  split
  · next hnone => exact HintStep.invalid (matchingCandidates_eq_nil.1 hnone)
  · next hsome =>
    split
    · next candidate hfound =>
      have hmem := List.mem_of_find?_eq_some hfound
      have hlabel := List.find?_some hfound
      exact HintStep.selected candidate (List.mem_of_mem_filter hmem) (of_decide_eq_true hlabel)
    · next hfound =>
      refine HintStep.updated ?_ fun candidate hmem hlabel => ?_
      · rw [← Bool.not_eq_false]
        exact fun hnone => hsome (matchingCandidates_eq_nil.2 hnone)
      · have hmatching : candidate ∈ matchingCandidates state.candidates
            (state.typedPrefix ++ [input]) := by
          refine List.mem_filter.2 ⟨hmem, List.isPrefixOf_iff_prefix.2 ?_⟩
          rw [hlabel]
        exact List.find?_eq_none.1 hfound candidate hmatching (decide_eq_true hlabel)

/-- Only a selection ends the display of the hints. -/
theorem HintStep.phase {result : LinkHintState × LinkHintInputOutcome}
    (h : HintStep state input result) (hopen : ∀ uri, result.2 ≠ .selected uri) :
    result.1.phase = state.phase := by
  cases h with
  | invalid => rfl
  | selected candidate => exact absurd rfl (hopen candidate.uri)
  | updated => rfl

/-- While the hints are displayed, keys other than letters of the alphabet are left out and capital
letters count as small ones: what remains is typed by `apply_link_hint_char`. -/
theorem pressHints_eq_typeHint (hactive : state.phase = .active) (keys : List Char) :
    pressHints state keys =
      typeHint state ((keys.map asciiLower).filter fun key => key ∈ linkHintAlphabet) := by
  induction keys generalizing state with
  | nil => rfl
  | cons key rest ih =>
    have hloading : state.phase.isLoading ≠ true := by
      rw [hactive]
      decide
    unfold pressHints inputChar
    dsimp only
    rw [List.map_cons]
    by_cases hletter : asciiLower key ∈ linkHintAlphabet
    · have htyped : ((asciiLower key :: rest.map asciiLower).filter
          fun key => key ∈ linkHintAlphabet) =
            asciiLower key :: (rest.map asciiLower).filter fun key => key ∈ linkHintAlphabet :=
        List.filter_cons_of_pos (decide_eq_true hletter)
      rw [htyped, if_neg (not_not.2 hletter), if_neg hloading, if_neg (not_not.2 hactive)]
      have hphase := (applyLinkHintChar_step state (asciiLower key)).phase
      unfold typeHint
      rcases hresult : applyLinkHintChar state (asciiLower key) with ⟨next, outcome⟩
      rw [hresult] at hphase
      cases outcome with
      | selected uri => rfl
      | _ => exact ih ((hphase fun _ => LinkHintInputOutcome.noConfusion).trans hactive)
    · -- the reminder to type a displayed letter leaves the state as it is
      have hdropped : ((asciiLower key :: rest.map asciiLower).filter
          fun key => key ∈ linkHintAlphabet) =
            (rest.map asciiLower).filter fun key => key ∈ linkHintAlphabet :=
        List.filter_cons_of_neg (by simpa using hletter)
      rw [hdropped, if_pos hletter]
      exact ih hactive

/-- Backspace takes back a letter with which some label continues. -/
theorem backspaceHint_of_updated {count total : Nat} (hactive : state.phase = .active)
    (h : (applyLinkHintChar state input).2 = .updated attempted count total) :
    backspaceHint (applyLinkHintChar state input).1 = state := by
  have hstep := applyLinkHintChar_step state input
  generalize applyLinkHintChar state input = result at h hstep
  cases hstep with
  | invalid => cases h
  | selected => cases h
  | updated =>
    unfold backspaceHint
    rw [if_pos hactive]
    dsimp only
    rw [List.dropLast_concat]

/-- A complete label is not continued. -/
theorem acceptedHint_of_mem {labels : List Str} (h : FixedWidth labels width) {label : Str}
    (hlabel : label ∈ labels) (rest : List Char) : acceptedHint labels label rest = label := by
  induction rest with
  | nil => rfl
  | cons input rest ih =>
    unfold acceptedHint
    rw [if_neg]
    · exact ih
    · intro hsome
      obtain ⟨longer, hlonger, hbegins⟩ := List.any_eq_true.1 hsome
      have hle := (List.isPrefixOf_iff_prefix.1 hbegins).length_le
      rw [List.length_append, List.length_singleton, h.width label hlabel,
        h.width longer hlonger] at hle
      omega

/-- A label is typed as it is, from any of its beginnings on. -/
theorem acceptedHint_of_label {labels : List Str} {typed rest : Str}
    (hlabel : typed ++ rest ∈ labels) : acceptedHint labels typed rest = typed ++ rest := by
  induction rest generalizing typed with
  | nil => exact (List.append_nil typed).symm
  | cons input rest ih =>
    have hsplit : typed ++ input :: rest = typed ++ [input] ++ rest := List.append_cons _ _ _
    unfold acceptedHint
    rw [if_pos, hsplit]
    · exact ih (hsplit ▸ hlabel)
    · refine List.any_eq_true.2 ⟨_, hlabel, List.isPrefixOf_iff_prefix.2 ?_⟩
      rw [hsplit]
      exact List.prefix_append _ _

/-- A sequence selects the link whose label is what is typed of it. -/
theorem typeHint_eq_some {width : Nat}
    (h : FixedWidth (state.candidates.map LinkHintCandidate.label) width)
    (hincomplete : state.typedPrefix ∉ state.candidates.map LinkHintCandidate.label)
    (inputs : List Char) :
    typeHint state inputs = some uri ↔ ∃ candidate ∈ state.candidates, candidate.uri = uri ∧
      candidate.label = acceptedHint (state.candidates.map LinkHintCandidate.label)
        state.typedPrefix inputs := by
  induction inputs generalizing state with
  | nil =>
    refine iff_of_false (by simp [typeHint]) fun ⟨candidate, hmem, _, hlabel⟩ => hincomplete ?_
    rw [show state.typedPrefix = candidate.label from hlabel.symm]
    exact List.mem_map_of_mem hmem
  | cons input rest ih =>
    have hstep := applyLinkHintChar_step state input
    unfold typeHint acceptedHint
    generalize applyLinkHintChar state input = result at hstep
    cases hstep with
    | invalid hnone =>
      rw [if_neg (by rw [hnone]; simp)]
      exact ih h hincomplete
    | selected candidate hmem hlabel =>
      have hcomplete : state.typedPrefix ++ [input] ∈
          state.candidates.map LinkHintCandidate.label := by
        rw [← hlabel]
        exact List.mem_map_of_mem hmem
      rw [if_pos (List.any_eq_true.2 ⟨_, hcomplete, List.isPrefixOf_iff_prefix.2
        (List.prefix_refl _)⟩), acceptedHint_of_mem h hcomplete]
      constructor
      · intro hselected
        exact ⟨candidate, hmem, Option.some.inj hselected, hlabel⟩
      · intro ⟨other, hother, huri, hsame⟩
        -- labels are different, so it is the same candidate
        have heq : candidate = other :=
          List.inj_on_of_nodup_map h.nodup hmem hother (hlabel.trans hsame.symm)
        rw [heq, ← huri]
    | updated hsome hother =>
      rw [if_pos hsome]
      refine @ih { state with typedPrefix := state.typedPrefix ++ [input] } h fun hmem => ?_
      obtain ⟨candidate, hcandidate, hlabel⟩ := List.mem_map.1 hmem
      exact hother candidate hcandidate hlabel

/-! ## The hints of a message -/

theorem map_label_linkHintCandidates (uris : List Str) :
    (linkHintCandidates uris).map LinkHintCandidate.label = linkHintLabels uris.length := by
  unfold linkHintCandidates
  rw [List.map_map]
  exact List.map_snd_zip (Nat.le_of_eq (linkHintLabels_length uris.length))

theorem mem_linkHintCandidates {uris : List Str} {candidate : LinkHintCandidate} :
    candidate ∈ linkHintCandidates uris ↔ ∃ i : Nat, uris[i]? = some candidate.uri ∧
      (linkHintLabels uris.length)[i]? = some candidate.label := by
  have hzip : candidate ∈ linkHintCandidates uris ↔
      (candidate.uri, candidate.label) ∈ uris.zip (linkHintLabels uris.length) := by
    unfold linkHintCandidates
    constructor
    · intro hmem
      obtain ⟨⟨uri, label⟩, hpair, rfl⟩ := List.mem_map.1 hmem
      exact hpair
    · intro hpair
      exact List.mem_map.2 ⟨_, hpair, rfl⟩
  rw [hzip, List.mem_iff_getElem?]
  simp only [List.getElem?_zip_eq_some]

/-- Before anything is typed no label is complete. -/
theorem nil_not_mem_linkHintLabels (count : Nat) (hcount : count ≤ u64Max) :
    [] ∉ linkHintLabels count := by
  have hwidth : ∀ fuel width capacity : Nat,
      width ≤ hintLabelWidthFrom count linkHintAlphabet.length fuel width capacity := by
    intro fuel
    induction fuel with
    | zero => exact fun width capacity => Nat.le_refl width
    | succ fuel ih =>
      intro width capacity
      unfold hintLabelWidthFrom
      split
      · exact (Nat.le_succ width).trans (ih _ _)
      · exact Nat.le_refl width
  intro hmem
  have hlength := (linkHintLabels_fixedWidth hcount).width [] hmem
  have hone := hwidth count 1 linkHintAlphabet.length
  unfold hintLabelWidth at hlength
  rw [← hlength] at hone
  exact absurd hone (by decide)

/-- **A label selects its link.** The labels are different, as long as each other and of the
alphabet, so that none is the beginning of another, and typing the label of a link selects it. Of
any other sequence those characters are left out with which no remaining label continues, for they
change nothing, and the link is selected whose label is left.

The sequence is that of the characters given to `apply_link_hint_char`. The keys of the user come
to it through `input_char`, which leaves out those that are no letters of the alphabet and takes
capital letters for small ones. -/
theorem link_hint_selects_its_label (uris : List Str) (huris : uris.length ≤ u64Max)
    (generation collectAttempts : Nat) :
    (linkHintLabels uris.length).length = uris.length ∧
      (linkHintLabels uris.length).Nodup ∧
      (∃ width, ∀ label ∈ linkHintLabels uris.length,
        label.length = width ∧ ∀ c ∈ label, c ∈ linkHintAlphabet) ∧
      (∀ a ∈ linkHintLabels uris.length, ∀ b ∈ linkHintLabels uris.length, a <+: b → a = b) ∧
      (∀ (i : Nat) uri label, uris[i]? = some uri → (linkHintLabels uris.length)[i]? = some label →
        typeHint (displayedHints generation collectAttempts uris) label = some uri) ∧
      (∀ inputs uri, typeHint (displayedHints generation collectAttempts uris) inputs = some uri ↔
        ∃ i : Nat, uris[i]? = some uri ∧ (linkHintLabels uris.length)[i]? =
          some (acceptedHint (linkHintLabels uris.length) [] inputs)) ∧
      (∀ state input,
        (∀ candidate ∈ state.candidates,
          ¬ (state.typedPrefix ++ [input]) <+: candidate.label) →
        (applyLinkHintChar state input).1 = state) ∧
      ∀ keys, pressHints (displayedHints generation collectAttempts uris) keys =
        typeHint (displayedHints generation collectAttempts uris)
          ((keys.map asciiLower).filter fun key => key ∈ linkHintAlphabet) := by
  have hfixed := linkHintLabels_fixedWidth huris
  -- What is accepted of a sequence is a label exactly where that label's link is selected.
  have htyping : ∀ inputs uri,
      typeHint (displayedHints generation collectAttempts uris) inputs = some uri ↔
        ∃ i : Nat, uris[i]? = some uri ∧ (linkHintLabels uris.length)[i]? =
          some (acceptedHint (linkHintLabels uris.length) [] inputs) := by
    intro inputs uri
    have hlabels : (displayedHints generation collectAttempts uris).candidates.map
        LinkHintCandidate.label = linkHintLabels uris.length := map_label_linkHintCandidates uris
    have hiff := @typeHint_eq_some (displayedHints generation collectAttempts uris) uri _
      (by rw [hlabels]; exact hfixed)
      (by rw [hlabels]; exact nil_not_mem_linkHintLabels _ huris) inputs
    rw [hiff, hlabels]
    constructor
    · intro ⟨candidate, hmem, huri, hlabel⟩
      obtain ⟨i, hi, hlabel'⟩ := mem_linkHintCandidates.1 hmem
      exact ⟨i, huri ▸ hi, hlabel'.trans (congrArg some hlabel)⟩
    · intro ⟨i, hi, hlabel⟩
      exact ⟨⟨_, uri⟩, mem_linkHintCandidates.2 ⟨i, hi, hlabel⟩, rfl, rfl⟩
  refine ⟨linkHintLabels_length _, hfixed.nodup, ⟨_, fun label hlabel =>
    ⟨hfixed.width label hlabel, fun c hc => mem_alphabet_of_mem_linkHintLabels hlabel hc⟩⟩,
    fun a ha b hb => hfixed.eq_of_isPrefix ha hb, fun i uri label huri hlabel => ?_, htyping,
    fun state input hnone => ?_, pressHints_eq_typeHint rfl⟩
  · -- A label is a sequence of which every character is accepted.
    have haccepted : acceptedHint (linkHintLabels uris.length) [] label = label :=
      acceptedHint_of_label (List.mem_of_getElem? hlabel)
    refine (htyping label uri).2 ⟨i, huri, ?_⟩
    rw [haccepted, hlabel]
  · -- A character behind which no label goes on is rejected, and the state stays.
    have hstep := applyLinkHintChar_step state input
    generalize applyLinkHintChar state input = result at hstep
    cases hstep with
    | invalid => rfl
    | selected candidate hmem hlabel =>
      exact absurd (hlabel ▸ List.prefix_refl _) (hnone candidate hmem)
    | updated hsome =>
      obtain ⟨label, hlabel, hbegins⟩ := List.any_eq_true.1 hsome
      obtain ⟨candidate, hmem, rfl⟩ := List.mem_map.1 hlabel
      exact absurd (List.isPrefixOf_iff_prefix.1 hbegins) (hnone candidate hmem)

/-- Two links, of which the label of the first is one letter. -/
theorem link_hint_selects_first :
    typeHint (displayedHints 1 0 [['x'], ['y']]) ['a'] = some ['x'] :=
  (link_hint_selects_its_label [['x'], ['y']] (by decide) 1 0).2.2.2.2.1 0 ['x'] ['a'] rfl
    (by decide)

/-- A letter that is no label is ignored, so a second sequence selects the first link. -/
theorem ignored_letter_selects :
    typeHint (displayedHints 1 0 [['x'], ['y']]) ['m', 'a'] = some ['x'] ∧
      (linkHintLabels 2)[0]? ≠ some ['m', 'a'] := by
  decide

end Notm.Ui
