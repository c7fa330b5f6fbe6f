import Notm.Lib.Counter
import Notm.Lib.Percent
import Notm.Mail.Crates

/-!
# Inline images in HTML

The `src` attributes of a sanitized document that name a MIME part by its content identifier are
replaced by the data of the part. A document is to stay within a limit, so the length that it will
have is reckoned before the data is copied, from attribute to attribute.

* `cidSourcesFrom_spec` — the regular expression divides a document into pieces and loses nothing.
* `replaceCidSource_exact` — after each round the projected length is what it is taken for.
* `foldlM_exact` — so it is after any number of rounds, whatever the closure offers.
* `replaceCidSourcesBoundedBy_isSome` — no copy panics while the bound is one a string can have.
* `cid_replacement_within_bounds` — what the whole function writes.
-/

namespace Notm.Ui

open Rust

/-! ## The attributes -/

/-- An attribute that the regular expression finds: the text since the one before it, the
attribute, and the part of it that is captured. -/
structure CidSource where
  before : Str
  source : Str
  captured : Str

/-- A character in any case. The long s folds to an s. -/
def matchesIgnoringCase (pattern c : Char) : Bool :=
  asciiLower c = pattern || (pattern = 's' && c = 'ſ')

/-- The text that matches a pattern of small letters, and the text after it. -/
def stripPattern : Str → Str → Option (Str × Str)
  | [], text => some ([], text)
  | _ :: _, [] => none
  | p :: pattern, c :: text =>
    if matchesIgnoringCase p c = true then
      (stripPattern pattern text).map fun (matched, rest) => (c :: matched, rest)
    else none

/-- `src="cid:([^"]+)"` at the beginning of the text: the attribute, the captured part and the text
after it. -/
def matchCidSource (text : Str) : Option (Str × Str × Str) :=
  (stripPattern "src=\"cid:".toList text).bind fun (opening, rest) =>
    let captured := rest.takeWhile (· ≠ '"')
    match rest.dropWhile (· ≠ '"') with
    | [] => none
    | quote :: after =>
      if captured = [] then none else some (opening ++ (captured ++ [quote]), captured, after)

/-- `captures_iter` of the regular expression, with the text since the last attribute in `before`.
An attribute begins at a word boundary, which is a matter of the Unicode tables. -/
def cidSourcesFrom (isWord : Char → Bool) : Nat → Bool → Str → Str → List CidSource × Str
  | 0, _, before, text => ([], before ++ text)
  | _ + 1, _, before, [] => ([], before)
  | fuel + 1, previousIsWord, before, c :: text =>
    match if isWord c ≠ previousIsWord then matchCidSource (c :: text) else none with
    | some (source, captured, after) =>
      let (sources, tail) := cidSourcesFrom isWord fuel (isWord '"') [] after
      (⟨before, source, captured⟩ :: sources, tail)
    | none => cidSourcesFrom isWord fuel (isWord c) (before ++ [c]) text

/-- The attributes of a document and the text after the last of them. -/
def cidSources (isWord : Char → Bool) (html : Str) : List CidSource × Str :=
  cidSourcesFrom isWord (html.length + 1) false [] html

/-! ## Content identifiers -/

/-- `normalize_content_id` of the thread loader. -/
def loaderNormalizeContentId (value : Str) : Str :=
  toAsciiLowercase (trim (((trim value).dropWhile (· = '<')).rdropWhile (· = '>')))

/-- The loop of `decode_sanitized_attribute_entities`. -/
def decodeEntitiesFrom : Nat → Str → Str
  | 0, _ => []
  | _, [] => []
  | fuel + 1, c :: rest =>
    let remainder := c :: rest
    if "&amp;".toList.isPrefixOf remainder then '&' :: decodeEntitiesFrom fuel (remainder.drop 5)
    else if "&quot;".toList.isPrefixOf remainder then
      '"' :: decodeEntitiesFrom fuel (remainder.drop 6)
    else if "&nbsp;".toList.isPrefixOf remainder then
      '\u00A0' :: decodeEntitiesFrom fuel (remainder.drop 6)
    else c :: decodeEntitiesFrom fuel rest

def decodeSanitizedAttributeEntities (value : Str) : Str := decodeEntitiesFrom value.length value

def decodeCidUrlContentId (value : Str) : Option Str :=
  (Percent.decode (Utf8.encode (decodeSanitizedAttributeEntities value))).bind fun decoded =>
    if decoded.any fun byte => byte < 0x20 || byte = 0x7F then none
    else
      (Utf8.decode decoded).bind fun text =>
        let contentId := loaderNormalizeContentId text
        if contentId = [] then none else some contentId

/-! ## The function -/

/-- The longest string. -/
def isizeMax : Nat := 2 ^ 63 - 1

/-- `push_str`, which panics where the string would be too long. -/
def pushStr (output text : Str) : Option Str :=
  if Utf8.len output + Utf8.len text ≤ isizeMax then some (output ++ text) else none

/-- The locals of `replace_cid_sources_bounded_by` and the state of its closure. -/
structure CidReplacement (σ : Type) where
  projectedLen : Nat
  resolvedReferences : Nat
  lastEnd : Nat
  output : Str
  closure : σ
  deriving DecidableEq

def emptySource : Str := "src=\"\"".toList

section
variable {σ : Type} (maxOutputBytes maxResolvedReferences htmlLen : Nat)
  (resourceFor : σ → Nat → Nat → Str → Option Str × σ)

/-- What the closure offers for an attribute. -/
def offer (closure : σ) (lastEnd : Nat) (piece : CidSource) : Option Str × σ :=
  let start := lastEnd + Utf8.len piece.before
  match decodeCidUrlContentId piece.captured with
  | none => (none, closure)
  | some contentId => resourceFor closure start (start + Utf8.len piece.source) contentId

/-- One round of the loop. -/
def replaceCidSource (state : CidReplacement σ) (piece : CidSource) :
    Option (CidReplacement σ) := do
  let output ← pushStr state.output piece.before
  let (resource, closure) := offer resourceFor state.closure state.lastEnd piece
  let lastEnd := state.lastEnd + Utf8.len piece.before + Utf8.len piece.source
  let replacementLen := match resource with
    | none => Utf8.len emptySource
    | some resource => saturatingAdd (Utf8.len emptySource) (Utf8.len resource)
  let candidateLen := saturatingAdd (state.projectedLen - Utf8.len piece.source) replacementLen
  match resource with
  | some resource =>
    if htmlLen ≤ maxOutputBytes ∧ state.resolvedReferences < maxResolvedReferences ∧
        candidateLen ≤ max maxOutputBytes htmlLen then do
      let output ← pushStr output "src=\"".toList
      let output ← pushStr output resource
      let output ← pushStr output ['"']
      some { projectedLen := candidateLen, resolvedReferences := state.resolvedReferences + 1,
             lastEnd, output, closure }
    else do
      let output ← pushStr output emptySource
      some { projectedLen := saturatingAdd (state.projectedLen - Utf8.len piece.source)
               (Utf8.len emptySource),
             resolvedReferences := state.resolvedReferences, lastEnd, output, closure }
  | none => do
    let output ← pushStr output emptySource
    some { projectedLen := saturatingAdd (state.projectedLen - Utf8.len piece.source)
             (Utf8.len emptySource),
           resolvedReferences := state.resolvedReferences, lastEnd, output, closure }

end

/-- The state before the first attribute. -/
def CidReplacement.start {σ : Type} (html : Str) (closure : σ) : CidReplacement σ where
  projectedLen := Utf8.len html
  resolvedReferences := 0
  lastEnd := 0
  output := []
  closure

/-- `replace_cid_sources_bounded_by`: the last state of the loop and the document. -/
def replaceCidSourcesBoundedBy {σ : Type} (isWord : Char → Bool) (html : Str)
    (maxOutputBytes maxResolvedReferences : Nat)
    (resourceFor : σ → Nat → Nat → Str → Option Str × σ) (closure : σ) :
    Option (CidReplacement σ × Str) := do
  let (sources, tail) := cidSources isWord html
  let state ← sources.foldlM
    (replaceCidSource maxOutputBytes maxResolvedReferences (Utf8.len html) resourceFor)
    (CidReplacement.start html closure)
  let output ← pushStr state.output tail
  some (state, output)

/-! ## The pieces of a document -/

variable {isWord : Char → Bool} {html before text tail : Str} {sources rest : List CidSource}

/-- A document as the pieces that the regular expression divides it into. -/
def piecesText (sources : List CidSource) (tail : Str) : Str :=
  (sources.flatMap fun piece => piece.before ++ piece.source) ++ tail

@[simp] theorem piecesText_cons (piece : CidSource) (rest : List CidSource) (tail : Str) :
    piecesText (piece :: rest) tail = piece.before ++ (piece.source ++ piecesText rest tail) := by
  unfold piecesText
  rw [List.flatMap_cons, List.append_assoc, List.append_assoc]

theorem stripPattern_some {pattern matched rest : Str}
    (h : stripPattern pattern text = some (matched, rest)) :
    text = matched ++ rest ∧ matched.length = pattern.length := by
  fun_induction stripPattern pattern text generalizing matched rest with
  | case1 text =>
    obtain ⟨rfl, rfl⟩ := Prod.mk.inj (Option.some.inj h)
    exact ⟨rfl, rfl⟩
  | case2 => exact absurd h (by simp)
  | case3 p pattern c text _ ih =>
    obtain ⟨⟨found, left⟩, hfound, heq⟩ := Option.map_eq_some_iff.1 h
    obtain ⟨rfl, rfl⟩ := Prod.mk.inj heq
    obtain ⟨rfl, hlength⟩ := ih hfound
    exact ⟨rfl, by rw [List.length_cons, List.length_cons, hlength]⟩
  | case4 => exact absurd h (by simp)

/-- An attribute is longer than the one that takes its place when nothing is found for it. -/
theorem matchCidSource_some {source captured after : Str}
    (h : matchCidSource text = some (source, captured, after)) :
    text = source ++ after ∧ Utf8.len emptySource ≤ source.length := by
  obtain ⟨⟨opening, left⟩, hopening, hclose⟩ := Option.bind_eq_some_iff.1 h
  obtain ⟨htext, hlength⟩ := stripPattern_some hopening
  have hsplit := List.takeWhile_append_dropWhile (p := (· ≠ '"')) (l := left)
  dsimp only at hclose
  split at hclose
  · exact absurd hclose (by simp)
  · next quote later hdrop =>
    split at hclose
    · exact absurd hclose (by simp)
    · obtain ⟨rfl, hrest⟩ := Prod.mk.inj (Option.some.inj hclose)
      obtain ⟨rfl, rfl⟩ := Prod.mk.inj hrest
      rw [hdrop] at hsplit
      constructor
      · rw [htext, List.append_assoc, List.append_assoc, List.singleton_append, hsplit]
      · have hnine : opening.length = 9 := hlength
        have hsix : Utf8.len emptySource = 6 := by decide
        rw [List.length_append]
        omega

/-- The pieces make up the document. -/
theorem cidSourcesFrom_spec (fuel : Nat) (previousIsWord : Bool) (before text : Str) :
    piecesText (cidSourcesFrom isWord fuel previousIsWord before text).1
        (cidSourcesFrom isWord fuel previousIsWord before text).2 = before ++ text ∧
      ∀ piece ∈ (cidSourcesFrom isWord fuel previousIsWord before text).1,
        Utf8.len emptySource ≤ piece.source.length := by
  fun_induction cidSourcesFrom isWord fuel previousIsWord before text with
  | case1 => exact ⟨rfl, fun _ hmem => absurd hmem List.not_mem_nil⟩
  | case2 fuel previousIsWord before =>
    exact ⟨(List.append_nil before).symm, fun _ hmem => absurd hmem List.not_mem_nil⟩
  | case3 fuel previousIsWord before c text source captured after hmatch sources tail hscan ih =>
    have hfound : matchCidSource (c :: text) = some (source, captured, after) := by
      split at hmatch
      · exact hmatch
      · exact absurd hmatch (by simp)
    obtain ⟨htext, hlength⟩ := matchCidSource_some hfound
    rw [hscan] at ih
    refine ⟨?_, List.forall_mem_cons.2 ⟨hlength, ih.2⟩⟩
    rw [piecesText_cons, ih.1, List.nil_append, htext]
  | case4 fuel previousIsWord before c text hmatch ih =>
    refine ⟨?_, ih.2⟩
    rw [ih.1, List.append_assoc]
    rfl

/-! ## One attribute -/

section
variable {σ : Type} {maxOutputBytes maxResolvedReferences htmlLen : Nat}
  {resourceFor : σ → Nat → Nat → Str → Option Str × σ} {state next last : CidReplacement σ}
  {piece : CidSource}

/-- The attribute that takes the place of another. -/
def replacementText : Option Str → Str
  | none => emptySource
  | some resource => "src=\"".toList ++ resource ++ ['"']

theorem pushStr_eq_some {output text result : Str} (h : pushStr output text = some result) :
    result = output ++ text ∧ Utf8.len result ≤ isizeMax := by
  unfold pushStr at h
  split at h
  · next hle =>
    obtain rfl := Option.some.inj h
    exact ⟨rfl, by rw [Utf8.len_append]; exact hle⟩
  · exact absurd h (by simp)

/-- The state before the attributes that are left: the projected length is the length that the
document has if none of them is resolved. -/
structure CidReplacement.Exact (maxOutputBytes maxResolvedReferences htmlLen : Nat)
    (state : CidReplacement σ) (rest : List CidSource) (tail : Str) : Prop where
  projected : state.projectedLen = Utf8.len state.output + Utf8.len (piecesText rest tail)
  bounded : state.projectedLen ≤ max maxOutputBytes htmlLen
  resolved : state.resolvedReferences ≤ maxResolvedReferences
  output : Utf8.len state.output ≤ isizeMax
  rest : Utf8.len (piecesText rest tail) ≤ isizeMax

/-- What one round does: the attribute is replaced, by what is offered or by an empty one. -/
structure Replaces (resourceFor : σ → Nat → Nat → Str → Option Str × σ) (state : CidReplacement σ)
    (piece : CidSource) (chosen : Option Str) (next : CidReplacement σ) : Prop where
  offered : chosen = none ∨ chosen = (offer resourceFor state.closure state.lastEnd piece).1
  output : next.output = state.output ++ (piece.before ++ replacementText chosen)
  resolved : next.resolvedReferences = state.resolvedReferences + chosen.toList.length
  lastEnd : next.lastEnd = state.lastEnd + Utf8.len piece.before + Utf8.len piece.source
  closure : next.closure = (offer resourceFor state.closure state.lastEnd piece).2

theorem replaceCidSource_exact
    (hlength : Utf8.len emptySource ≤ Utf8.len piece.source)
    (h : state.Exact maxOutputBytes maxResolvedReferences htmlLen (piece :: rest) tail)
    (hstep : replaceCidSource maxOutputBytes maxResolvedReferences htmlLen resourceFor state piece =
      some next) :
    next.Exact maxOutputBytes maxResolvedReferences htmlLen rest tail ∧
      ∃ chosen, Replaces resourceFor state piece chosen next := by
  have hsix : Utf8.len emptySource = 6 := by decide
  have hopen : Utf8.len "src=\"".toList = 5 := by decide
  have hquote : Utf8.len ['"'] = 1 := by decide
  have hroom : 2 * isizeMax ≤ u64Max := by decide
  have hprojected := h.projected
  have hbounded := h.bounded
  have hrest := h.rest
  rw [piecesText_cons, Utf8.len_append, Utf8.len_append] at hprojected hrest
  -- Without a resource, and with one that does not fit, an empty attribute is written.
  have hempty : ∀ (resolvedLen : Nat) (output : Str) (lastEnd : Nat) (closure : σ),
      pushStr (state.output ++ piece.before) emptySource = some output →
      resolvedLen = saturatingAdd (state.projectedLen - Utf8.len piece.source)
        (Utf8.len emptySource) →
      (CidReplacement.mk resolvedLen state.resolvedReferences lastEnd output closure).Exact
        maxOutputBytes maxResolvedReferences htmlLen rest tail := by
    intro resolvedLen output lastEnd closure hpush hlen
    obtain ⟨rfl, houtput⟩ := pushStr_eq_some hpush
    have hexact : resolvedLen = state.projectedLen - Utf8.len piece.source + 6 := by
      have hstate := h.output
      rw [hlen, hsix]
      exact saturatingAdd_of_le (by omega)
    rw [Utf8.len_append, Utf8.len_append, hsix] at houtput
    refine ⟨?_, ?_, h.resolved, ?_, by omega⟩
    · show resolvedLen = Utf8.len (state.output ++ piece.before ++ emptySource) + _
      rw [Utf8.len_append, Utf8.len_append, hsix]
      omega
    · show resolvedLen ≤ _
      omega
    · show Utf8.len (state.output ++ piece.before ++ emptySource) ≤ _
      rw [Utf8.len_append, Utf8.len_append, hsix]
      omega
  unfold replaceCidSource at hstep
  obtain ⟨copied, hcopied, hstep⟩ := Option.bind_eq_some_iff.1 hstep
  obtain ⟨rfl, hcopiedLen⟩ := pushStr_eq_some hcopied
  cases hoffer : offer resourceFor state.closure state.lastEnd piece with
  | mk resource closure =>
    rw [hoffer] at hstep
    dsimp only at hstep
    cases resource with
    | none =>
      obtain ⟨output, hpush, hstep⟩ := Option.bind_eq_some_iff.1 hstep
      obtain rfl := Option.some.inj hstep
      refine ⟨hempty _ _ _ _ hpush rfl, none, Or.inl rfl, ?_, rfl, rfl, by rw [hoffer]⟩
      rw [(pushStr_eq_some hpush).1, List.append_assoc]
      rfl
    | some resource =>
      dsimp only at hstep
      split at hstep
      · next hfits =>
        obtain ⟨first, hfirst, hstep⟩ := Option.bind_eq_some_iff.1 hstep
        obtain ⟨second, hsecond, hstep⟩ := Option.bind_eq_some_iff.1 hstep
        obtain ⟨third, hthird, hstep⟩ := Option.bind_eq_some_iff.1 hstep
        obtain rfl := Option.some.inj hstep
        obtain ⟨rfl, _⟩ := pushStr_eq_some hfirst
        obtain ⟨rfl, _⟩ := pushStr_eq_some hsecond
        obtain ⟨rfl, houtput⟩ := pushStr_eq_some hthird
        have hlen := houtput
        simp only [Utf8.len_append, hopen, hquote] at hlen
        -- What is written fits into a string, so the sums are exact.
        have hexact : saturatingAdd (state.projectedLen - Utf8.len piece.source)
            (saturatingAdd (Utf8.len emptySource) (Utf8.len resource)) =
              state.projectedLen - Utf8.len piece.source + (6 + Utf8.len resource) := by
          rw [hsix, saturatingAdd_of_le (n := 6) (by omega)]
          exact saturatingAdd_of_le (by omega)
        rw [hexact]
        rw [hexact] at hfits
        refine ⟨⟨?_, hfits.2.2, hfits.2.1, houtput, by omega⟩, some resource, ?_⟩
        · simp only [Utf8.len_append, hopen, hquote]
          omega
        · refine ⟨Or.inr (by rw [hoffer]), ?_, rfl, rfl, by rw [hoffer]⟩
          unfold replacementText
          simp only [List.append_assoc]
      · obtain ⟨output, hpush, hstep⟩ := Option.bind_eq_some_iff.1 hstep
        obtain rfl := Option.some.inj hstep
        refine ⟨hempty _ _ _ _ hpush rfl, none, Or.inl rfl, ?_, rfl, rfl, by rw [hoffer]⟩
        rw [(pushStr_eq_some hpush).1, List.append_assoc]
        rfl

theorem pushStr_of_le {output text : Str} (h : Utf8.len output + Utf8.len text ≤ isizeMax) :
    pushStr output text = some (output ++ text) :=
  if_pos h

/-- Within a bound that a string can have no round panics: what is written is never longer than the
projected length, and that stays within the bound. -/
theorem replaceCidSource_isSome (hbound : max maxOutputBytes htmlLen ≤ isizeMax)
    (hlength : Utf8.len emptySource ≤ Utf8.len piece.source)
    (h : state.Exact maxOutputBytes maxResolvedReferences htmlLen (piece :: rest) tail) :
    ∃ next, replaceCidSource maxOutputBytes maxResolvedReferences htmlLen resourceFor state piece =
      some next := by
  have hsix : Utf8.len emptySource = 6 := by decide
  have hopen : Utf8.len "src=\"".toList = 5 := by decide
  have hquote : Utf8.len ['"'] = 1 := by decide
  have hroom : isizeMax < u64Max := by decide
  have hprojected := h.projected
  have hbounded := h.bounded
  rw [piecesText_cons, Utf8.len_append, Utf8.len_append] at hprojected
  have hempty : pushStr (state.output ++ piece.before) emptySource =
      some (state.output ++ piece.before ++ emptySource) := by
    refine pushStr_of_le ?_
    rw [Utf8.len_append, hsix]
    omega
  have hbefore : pushStr state.output piece.before = some (state.output ++ piece.before) :=
    pushStr_of_le (by omega)
  unfold replaceCidSource
  rw [hbefore]
  rcases offer resourceFor state.closure state.lastEnd piece with ⟨_ | resource, closure⟩
  · exact ⟨_, congrArg (Option.bind · _) hempty⟩
  · simp only [Option.bind_eq_bind, Option.bind_some]
    split
    · next hfits =>
      -- the sums are exact, for a saturated one would be over the bound
      have hcandidate := hfits.2.2
      unfold saturatingAdd at hcandidate
      rw [pushStr_of_le (by rw [Utf8.len_append, hopen]; omega), Option.bind_some,
        pushStr_of_le (by rw [Utf8.len_append, Utf8.len_append, hopen]; omega), Option.bind_some,
        pushStr_of_le (by
          rw [Utf8.len_append, Utf8.len_append, Utf8.len_append, hopen, hquote]; omega)]
      exact ⟨_, rfl⟩
    · rw [hempty]
      exact ⟨_, rfl⟩

/-! ## All attributes -/

/-- What is offered for the attributes, one after the other. -/
def offers (resourceFor : σ → Nat → Nat → Str → Option Str × σ) :
    σ → Nat → List CidSource → List (Option Str)
  | _, _, [] => []
  | closure, lastEnd, piece :: rest =>
    let (resource, closure) := offer resourceFor closure lastEnd piece
    resource :: offers resourceFor closure
      (lastEnd + Utf8.len piece.before + Utf8.len piece.source) rest

/-- The document with the attributes replaced. -/
def replacedText (sources : List CidSource) (chosen : List (Option Str)) : Str :=
  (List.zipWith (fun piece replacement => piece.before ++ replacementText replacement)
    sources chosen).flatten

theorem foldlM_exact {done : List CidSource}
    (hlength : ∀ piece ∈ done, Utf8.len emptySource ≤ Utf8.len piece.source)
    (h : state.Exact maxOutputBytes maxResolvedReferences htmlLen (done ++ rest) tail)
    (hrun : done.foldlM (replaceCidSource maxOutputBytes maxResolvedReferences htmlLen resourceFor)
      state = some last) :
    last.Exact maxOutputBytes maxResolvedReferences htmlLen rest tail ∧
      ∃ chosen, List.Forall₂ (fun offered choice => choice = none ∨ choice = offered)
          (offers resourceFor state.closure state.lastEnd done) chosen ∧
        last.output = state.output ++ replacedText done chosen ∧
        last.resolvedReferences = state.resolvedReferences + (chosen.countP Option.isSome) := by
  induction done generalizing state with
  | nil =>
    obtain rfl := Option.some.inj hrun
    exact ⟨h, [], List.Forall₂.nil, (List.append_nil _).symm, rfl⟩
  | cons piece done ih =>
    rw [List.foldlM_cons] at hrun
    obtain ⟨middle, hstep, hrun⟩ := Option.bind_eq_some_iff.1 hrun
    obtain ⟨hexact, choice, hreplaces⟩ :=
      replaceCidSource_exact (hlength piece List.mem_cons_self) h hstep
    obtain ⟨hlast, chosen, hchosen, houtput, hresolved⟩ :=
      ih (fun piece hpiece => hlength piece (List.mem_cons_of_mem _ hpiece)) hexact hrun
    refine ⟨hlast, choice :: chosen, ?_, ?_, ?_⟩
    · rw [hreplaces.lastEnd, hreplaces.closure] at hchosen
      exact List.Forall₂.cons hreplaces.offered hchosen
    · rw [houtput, hreplaces.output, List.append_assoc]
      rfl
    · rw [hresolved, hreplaces.resolved, List.countP_cons]
      cases choice with
      | none => simp
      | some resource =>
        simp only [Option.toList_some, List.length_singleton, Option.isSome_some, if_true]
        omega

/-! ## The whole document -/

theorem CidReplacement.start_exact {closure : σ} (hhtml : Utf8.len html ≤ isizeMax)
    (htext : piecesText sources tail = html) :
    (CidReplacement.start html closure).Exact maxOutputBytes maxResolvedReferences (Utf8.len html)
      sources tail where
  projected := by
    rw [htext]
    exact (Nat.zero_add _).symm
  bounded := Nat.le_max_right _ _
  resolved := Nat.zero_le _
  output := Nat.zero_le _
  rest := by
    rw [htext]
    exact hhtml

end

/-- The pieces of a document are the document, and none is shorter than an empty attribute. -/
theorem cidSources_spec (isWord : Char → Bool) (html : Str) :
    piecesText (cidSources isWord html).1 (cidSources isWord html).2 = html ∧
      ∀ piece ∈ (cidSources isWord html).1, Utf8.len emptySource ≤ Utf8.len piece.source := by
  obtain ⟨hdocument, hlength⟩ := @cidSourcesFrom_spec isWord (html.length + 1) false [] html
  exact ⟨hdocument, fun piece hpiece => (hlength piece hpiece).trans (Utf8.length_le_len _)⟩

/-- The last round leaves the document measured up to its tail, with what was chosen for each
attribute. -/
theorem replaceCidSourcesBoundedBy_spec {σ : Type} {isWord : Char → Bool} {html : Str}
    (hhtml : Utf8.len html ≤ isizeMax) {maxOutputBytes maxResolvedReferences : Nat}
    {resourceFor : σ → Nat → Nat → Str → Option Str × σ} {closure : σ} {last : CidReplacement σ}
    {output : Str}
    (h : replaceCidSourcesBoundedBy isWord html maxOutputBytes maxResolvedReferences resourceFor
      closure = some (last, output)) :
    last.Exact maxOutputBytes maxResolvedReferences (Utf8.len html) [] (cidSources isWord html).2 ∧
      output = last.output ++ (cidSources isWord html).2 ∧
      ∃ chosen, List.Forall₂ (fun offered choice => choice = none ∨ choice = offered)
          (offers resourceFor closure 0 (cidSources isWord html).1) chosen ∧
        chosen.countP Option.isSome ≤ maxResolvedReferences ∧
        last.output = replacedText (cidSources isWord html).1 chosen := by
  obtain ⟨hdocument, hsources⟩ := cidSources_spec isWord html
  obtain ⟨state, hrun, hrest⟩ := Option.bind_eq_some_iff.1 h
  obtain ⟨result, hpush, hresult⟩ := Option.bind_eq_some_iff.1 hrest
  obtain ⟨rfl, rfl⟩ := Prod.mk.inj (Option.some.inj hresult)
  obtain ⟨rfl, _⟩ := pushStr_eq_some hpush
  have hstart : (CidReplacement.start html closure).Exact maxOutputBytes maxResolvedReferences
      (Utf8.len html) ((cidSources isWord html).1 ++ []) (cidSources isWord html).2 := by
    rw [List.append_nil]
    exact CidReplacement.start_exact hhtml hdocument
  obtain ⟨hexact, chosen, hchosen, houtput, hresolved⟩ := foldlM_exact hsources hstart hrun
  refine ⟨hexact, rfl, chosen, hchosen, ?_, houtput⟩
  have hcount := hexact.resolved
  rw [hresolved] at hcount
  exact (Nat.zero_add _).symm.trans_le hcount

/-- The rounds go through to the end: each leaves the document exactly measured for the next. -/
theorem foldlM_isSome {σ : Type} {maxOutputBytes maxResolvedReferences htmlLen : Nat}
    {resourceFor : σ → Nat → Nat → Str → Option Str × σ} {state : CidReplacement σ}
    (hbound : max maxOutputBytes htmlLen ≤ isizeMax)
    (hlength : ∀ piece ∈ sources, Utf8.len emptySource ≤ Utf8.len piece.source)
    (h : state.Exact maxOutputBytes maxResolvedReferences htmlLen sources tail) :
    ∃ last, sources.foldlM
      (replaceCidSource maxOutputBytes maxResolvedReferences htmlLen resourceFor) state =
        some last := by
  induction sources generalizing state with
  | nil => exact ⟨state, rfl⟩
  | cons piece rest ih =>
    have hpiece := hlength piece List.mem_cons_self
    obtain ⟨next, hstep⟩ : ∃ next, replaceCidSource maxOutputBytes maxResolvedReferences htmlLen
        resourceFor state piece = some next :=
      replaceCidSource_isSome hbound hpiece h
    obtain ⟨last, hrun⟩ := ih (fun piece hmem => hlength piece (List.mem_cons_of_mem _ hmem))
      (replaceCidSource_exact hpiece h hstep).1
    refine ⟨last, ?_⟩
    rw [List.foldlM_cons, hstep]
    exact hrun

/-- Where a string can be as long as the bound and the document, there is a result: no copy takes
the output beyond the capacity of a string. -/
theorem replaceCidSourcesBoundedBy_isSome {σ : Type} (isWord : Char → Bool) (html : Str)
    {maxOutputBytes : Nat} (maxResolvedReferences : Nat)
    (hbound : max maxOutputBytes (Utf8.len html) ≤ isizeMax)
    (resourceFor : σ → Nat → Nat → Str → Option Str × σ) (closure : σ) :
    ∃ last output, replaceCidSourcesBoundedBy isWord html maxOutputBytes maxResolvedReferences
      resourceFor closure = some (last, output) := by
  obtain ⟨hdocument, hsources⟩ := cidSources_spec isWord html
  have hstart : (CidReplacement.start html closure).Exact maxOutputBytes maxResolvedReferences
      (Utf8.len html) (cidSources isWord html).1 (cidSources isWord html).2 :=
    CidReplacement.start_exact ((Nat.le_max_right _ _).trans hbound) hdocument
  obtain ⟨last, hrun⟩ : ∃ last, (cidSources isWord html).1.foldlM
      (replaceCidSource maxOutputBytes maxResolvedReferences (Utf8.len html) resourceFor)
      (CidReplacement.start html closure) = some last :=
    foldlM_isSome hbound hsources hstart
  rw [← List.append_nil (cidSources isWord html).1] at hstart
  have hexact := (foldlM_exact hsources hstart hrun).1
  have htail : Utf8.len last.output + Utf8.len (cidSources isWord html).2 ≤ isizeMax :=
    (Nat.le_of_eq hexact.projected.symm).trans (hexact.bounded.trans hbound)
  exact ⟨last, _, Option.bind_eq_some_iff.2 ⟨last, hrun,
    Option.bind_eq_some_iff.2 ⟨_, pushStr_of_le htail, rfl⟩⟩⟩

/-- **The replacement stays within its bounds.** The document is made of the text between its
attributes, as it was, and of what takes the place of each attribute: the resource that is offered
for it, or nothing. The projected length is at every attribute the length of what is written and
what is left, so it is never less than what is subtracted from it, and in the end it is the length
of the document. That there is a result is `replaceCidSourcesBoundedBy_isSome`. -/
theorem cid_replacement_within_bounds {σ : Type} (isWord : Char → Bool) (html : Str)
    (hhtml : Utf8.len html ≤ isizeMax) (maxOutputBytes maxResolvedReferences : Nat)
    (resourceFor : σ → Nat → Nat → Str → Option Str × σ) (closure : σ) (last : CidReplacement σ)
    (output : Str)
    (h : replaceCidSourcesBoundedBy isWord html maxOutputBytes maxResolvedReferences resourceFor
      closure = some (last, output)) :
    Utf8.len output ≤ max maxOutputBytes (Utf8.len html) ∧ last.projectedLen = Utf8.len output ∧
      piecesText (cidSources isWord html).1 (cidSources isWord html).2 = html ∧
      (∃ chosen, List.Forall₂ (fun offered choice => choice = none ∨ choice = offered)
          (offers resourceFor closure 0 (cidSources isWord html).1) chosen ∧
        chosen.countP Option.isSome ≤ maxResolvedReferences ∧
        output = replacedText (cidSources isWord html).1 chosen ++ (cidSources isWord html).2) ∧
      ∀ done rest middle, (cidSources isWord html).1 = done ++ rest →
        done.foldlM (replaceCidSource maxOutputBytes maxResolvedReferences (Utf8.len html)
          resourceFor)
          (CidReplacement.start html closure) = some middle →
        middle.projectedLen =
            Utf8.len middle.output + Utf8.len (piecesText rest (cidSources isWord html).2) ∧
          middle.projectedLen ≤ max maxOutputBytes (Utf8.len html) ∧
          ∀ piece ∈ rest.head?, Utf8.len piece.source ≤ middle.projectedLen := by
  obtain ⟨hdocument, hsources⟩ := cidSources_spec isWord html
  obtain ⟨hexact, rfl, chosen, hchosen, hresolved, houtput⟩ :=
    replaceCidSourcesBoundedBy_spec hhtml h
  have hprojected :
      last.projectedLen = Utf8.len (last.output ++ (cidSources isWord html).2) := by
    rw [Utf8.len_append]
    exact hexact.projected
  refine ⟨hprojected ▸ hexact.bounded, hprojected, hdocument,
    ⟨chosen, hchosen, hresolved, by rw [houtput]⟩, ?_⟩
  · intro done rest middle hsplit hdone
    rw [hsplit] at hsources hdocument
    obtain ⟨hmiddle, _⟩ := foldlM_exact
      (fun piece hpiece => hsources piece (List.mem_append_left _ hpiece))
      (CidReplacement.start_exact hhtml hdocument) hdone
    refine ⟨hmiddle.projected, hmiddle.bounded, fun piece hpiece => ?_⟩
    cases rest with
    | nil => exact absurd hpiece (by simp)
    | cons first rest =>
      obtain rfl := Option.some.inj hpiece
      rw [hmiddle.projected, piecesText_cons, Utf8.len_append, Utf8.len_append]
      omega

/-- A closure without a state: one resource. -/
def oneResource : Unit → Nat → Nat → Str → Option Str × Unit :=
  fun closure _ _ contentId => (if contentId = ['x'] then some "data:y".toList else none, closure)

def imageHtml : Str := "<img src=\"cid:x\" src=\"cid:z\">".toList

def imageOutput : Str := "<img src=\"data:y\" src=\"\">".toList

/-- Of two attributes one is resolved. -/
theorem cid_replacement_of_image :
    Utf8.len imageOutput ≤ max 100 (Utf8.len imageHtml) ∧ 25 = Utf8.len imageOutput := by
  have hrun : replaceCidSourcesBoundedBy (fun c => isAsciiAlphanumeric c.toNat) imageHtml 100 1
      oneResource () =
        some (⟨25, 1, 28, "<img src=\"data:y\" src=\"\"".toList, ()⟩, imageOutput) := by
    decide +kernel
  have hhtml : Utf8.len imageHtml ≤ isizeMax := by
    have hlength : Utf8.len imageHtml = 29 := by decide +kernel
    rw [hlength]
    norm_num [isizeMax]
  have hbounds := cid_replacement_within_bounds (fun c => isAsciiAlphanumeric c.toNat) imageHtml
    hhtml 100 1 oneResource () _ _ hrun
  exact ⟨hbounds.1, hbounds.2.1⟩

end Notm.Ui
