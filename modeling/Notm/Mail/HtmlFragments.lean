import Notm.Mail.Mime

/-!
# The HTML body as joined fragments

An HTML body is a list of fragments, each with its own lookup provenance, joined by an empty
line. The operations of `BodySelection` keep this form: what they do to the text and to its
scopes is what appending, replacing and relabelling do to the fragments.

* `scopesFrom`, `joinBodies` — the scopes and the text of a list of fragments.
* `covers_scopesFrom` — the scopes lie end to end over the text, on character boundaries.
* `exists_fragment_of_mem_scopesFrom` — every scope is that of one fragment.
* `Assembled.append`, `Assembled.replaceSupported`, `assembled_selectRelatedBody` — the operations
  of a selection, done to its fragments.
-/

namespace Notm.Mail

open Rust

/-- One HTML leaf of a body, with the provenance of its `cid:` references. -/
structure Fragment where
  body : Str
  partIndexes : Option (List Nat)

/-- What stands between two fragments. -/
def separator : Str := "\n\n".toList

/-- The text of a list of fragments. -/
def joinBodies : List Fragment → Str
  | [] => []
  | [f] => f.body
  | f :: fs => f.body ++ separator ++ joinBodies fs

/-- The scopes of a list of fragments whose text starts at `offset`: a separator belongs to the
fragment in front of it. -/
def scopesFrom (offset : Nat) : List Fragment → List HtmlCidPartScope
  | [] => []
  | [f] => [⟨offset, offset + Utf8.len f.body, f.partIndexes⟩]
  | f :: fs =>
    ⟨offset, offset + Utf8.len (f.body ++ separator), f.partIndexes⟩ ::
      scopesFrom (offset + Utf8.len (f.body ++ separator)) fs

/-- The body that a selection holds when it is made of the fragments. -/
def htmlOf (fragments : List Fragment) : Option Str :=
  if fragments = [] then none else some (joinBodies fragments)

/-- The HTML of a selection is joined from fragments of one kind. -/
def Assembled (P : Fragment → Prop) (selection : BodySelection) : Prop :=
  ∃ fragments, (∀ f ∈ fragments, P f) ∧ selection.html = htmlOf fragments ∧
    selection.htmlCidPartScopes = scopesFrom 0 fragments

variable {P : Fragment → Prop}

/-! ## Joining -/

theorem joinBodies_cons {f : Fragment} {fs : List Fragment} (h : fs ≠ []) :
    joinBodies (f :: fs) = f.body ++ separator ++ joinBodies fs := by
  cases fs with
  | nil => exact absurd rfl h
  | cons g gs => rfl

theorem scopesFrom_cons {offset : Nat} {f : Fragment} {fs : List Fragment} (h : fs ≠ []) :
    scopesFrom offset (f :: fs) =
      ⟨offset, offset + Utf8.len (f.body ++ separator), f.partIndexes⟩ ::
        scopesFrom (offset + Utf8.len (f.body ++ separator)) fs := by
  cases fs with
  | nil => exact absurd rfl h
  | cons g gs => rfl

theorem joinBodies_append {fs gs : List Fragment} (hf : fs ≠ []) (hg : gs ≠ []) :
    joinBodies (fs ++ gs) = joinBodies fs ++ separator ++ joinBodies gs := by
  induction fs with
  | nil => exact absurd rfl hf
  | cons f fs ih =>
    rw [List.cons_append, joinBodies_cons (by simp [hg])]
    by_cases hfs : fs = []
    · rw [hfs]
      rfl
    · rw [ih hfs, joinBodies_cons hfs]
      simp only [List.append_assoc]

theorem scopesFrom_ne_nil {offset : Nat} {fs : List Fragment} (h : fs ≠ []) :
    scopesFrom offset fs ≠ [] := by
  match fs with
  | [] => exact absurd rfl h
  | [f] => exact List.cons_ne_nil _ _
  | f :: g :: fs => exact List.cons_ne_nil _ _

theorem scopesFrom_shift (offset by_ : Nat) (fs : List Fragment) :
    (scopesFrom offset fs).map (·.shift by_) = scopesFrom (offset + by_) fs := by
  induction fs generalizing offset with
  | nil => rfl
  | cons f fs ih =>
    have hshift : ∀ stop, offset + stop + by_ = offset + by_ + stop := fun stop => by omega
    by_cases h : fs = []
    · subst h
      simp only [scopesFrom, List.map_cons, List.map_nil, HtmlCidPartScope.shift, hshift]
    · rw [scopesFrom_cons h, scopesFrom_cons h, List.map_cons, ih, hshift]
      simp only [HtmlCidPartScope.shift, hshift]

theorem coverSeparator_concat (scopes : List HtmlCidPartScope) (last : HtmlCidPartScope)
    (length : Nat) :
    coverSeparator (scopes ++ [last]) length = scopes ++ [{ last with stop := length }] := by
  simp [coverSeparator]

theorem coverSeparator_cons {scope : HtmlCidPartScope} {scopes : List HtmlCidPartScope}
    (h : scopes ≠ []) (length : Nat) :
    coverSeparator (scope :: scopes) length = scope :: coverSeparator scopes length := by
  obtain ⟨init, last, rfl⟩ := List.eq_nil_or_concat scopes |>.resolve_left h
  rw [List.concat_eq_append, ← List.cons_append, coverSeparator_concat, coverSeparator_concat,
    List.cons_append]

/-- The last scope of the fragments in front grows over the separator. -/
theorem coverSeparator_scopesFrom {fs : List Fragment} (h : fs ≠ []) (offset : Nat)
    {gs : List Fragment} (hg : gs ≠ []) :
    coverSeparator (scopesFrom offset fs) (offset + Utf8.len (joinBodies fs ++ separator)) ++
        scopesFrom (offset + Utf8.len (joinBodies fs ++ separator)) gs =
      scopesFrom offset (fs ++ gs) := by
  induction fs generalizing offset with
  | nil => exact absurd rfl h
  | cons f fs ih =>
    have hne : fs ++ gs ≠ [] := by simp [hg]
    rw [List.cons_append, scopesFrom_cons hne]
    by_cases hfs : fs = []
    · subst hfs
      rfl
    · have hlen : offset + Utf8.len (joinBodies (f :: fs) ++ separator) =
          offset + Utf8.len (f.body ++ separator) + Utf8.len (joinBodies fs ++ separator) := by
        rw [joinBodies_cons hfs]
        simp only [Utf8.len_append]
        omega
      rw [hlen, scopesFrom_cons hfs, coverSeparator_cons (scopesFrom_ne_nil hfs),
        List.cons_append, ih hfs]

/-- What `multipart/related` does to a fragment of its root. -/
def Fragment.relate (related : List Nat) (f : Fragment) : Fragment :=
  { f with partIndexes := some (related.foldl pushUnseen (f.partIndexes.getD [])) }

/-- Relabelling the scopes relabels the fragments. -/
theorem scopesFrom_relate (related : List Nat) (offset : Nat) (fs : List Fragment) :
    (scopesFrom offset fs).map (·.relate related) =
      scopesFrom offset (fs.map (·.relate related)) := by
  induction fs generalizing offset with
  | nil => rfl
  | cons f fs ih =>
    by_cases h : fs = []
    · subst h
      rfl
    · rw [scopesFrom_cons h, List.map_cons, List.map_cons, scopesFrom_cons (by simp [h]), ih]
      rfl

theorem joinBodies_relate (related : List Nat) (fs : List Fragment) :
    joinBodies (fs.map (·.relate related)) = joinBodies fs := by
  induction fs with
  | nil => rfl
  | cons x fs ih =>
    by_cases h : fs = []
    · subst h
      rfl
    · rw [List.map_cons, joinBodies_cons (by simp [h]), joinBodies_cons h, ih]
      rfl

/-! ## The scopes cover the text -/

/-- The scopes lie end to end on character boundaries, from `offset` to the end of the text. -/
def Covers (html : Str) (offset : Nat) : List HtmlCidPartScope → Prop
  | [] => offset = Utf8.len html
  | scope :: scopes =>
    scope.start = offset ∧ scope.start ≤ scope.stop ∧
      Utf8.isCharBoundary html scope.start = true ∧ Utf8.isCharBoundary html scope.stop = true ∧
      Covers html scope.stop scopes

theorem isCharBoundary_len (pre post : Str) :
    Utf8.isCharBoundary (pre ++ post) (Utf8.len pre) = true :=
  Utf8.At.isCharBoundary ⟨pre, rfl, rfl⟩

/-- The scopes of a list of fragments lie end to end over its text, wherever the text begins. -/
theorem covers_scopesFrom (pre : Str) {fs : List Fragment} (h : fs ≠ []) :
    Covers (pre ++ joinBodies fs) (Utf8.len pre) (scopesFrom (Utf8.len pre) fs) := by
  induction fs generalizing pre with
  | nil => exact absurd rfl h
  | cons f fs ih =>
    by_cases hfs : fs = []
    · subst hfs
      have hend := isCharBoundary_len (pre ++ f.body) []
      rw [List.append_nil, Utf8.len_append] at hend
      exact ⟨rfl, Nat.le_add_right _ _, isCharBoundary_len pre _, hend,
        (Utf8.len_append pre f.body).symm⟩
    · rw [scopesFrom_cons hfs, joinBodies_cons hfs, ← Utf8.len_append]
      have hrest := ih (pre ++ (f.body ++ separator)) hfs
      have hsplit : pre ++ (f.body ++ separator ++ joinBodies fs) =
          pre ++ (f.body ++ separator) ++ joinBodies fs := by simp only [List.append_assoc]
      rw [hsplit]
      refine ⟨rfl, ?_, ?_, isCharBoundary_len _ _, hrest⟩
      · rw [Utf8.len_append]
        exact Nat.le_add_right _ _
      · rw [List.append_assoc]
        exact isCharBoundary_len pre _

/-- The scope holds the text of the fragment, with the separator behind it where another
fragment follows. -/
def HoldsFragment (html : Str) (scope : HtmlCidPartScope) (f : Fragment) : Prop :=
  scope.partIndexes = f.partIndexes ∧ ∃ before text after, html = before ++ text ++ after ∧
    (text = f.body ∨ text = f.body ++ separator) ∧ scope.start = Utf8.len before ∧
    scope.stop = Utf8.len (before ++ text)

/-- Every scope is that of a fragment. -/
theorem exists_fragment_of_mem_scopesFrom (pre : Str) {fs : List Fragment}
    {scope : HtmlCidPartScope} (h : scope ∈ scopesFrom (Utf8.len pre) fs) :
    ∃ f ∈ fs, HoldsFragment (pre ++ joinBodies fs) scope f := by
  induction fs generalizing pre with
  | nil => exact absurd h (by simp [scopesFrom])
  | cons f fs ih =>
    by_cases hfs : fs = []
    · subst hfs
      rw [List.mem_singleton.mp h]
      exact ⟨f, by simp, rfl, pre, f.body, [], by simp [joinBodies], .inl rfl, rfl,
        (Utf8.len_append _ _).symm⟩
    · rw [scopesFrom_cons hfs, ← Utf8.len_append] at h
      have hsplit : pre ++ joinBodies (f :: fs) =
          pre ++ (f.body ++ separator) ++ joinBodies fs := by
        rw [joinBodies_cons hfs]
        simp only [List.append_assoc]
      rw [hsplit]
      rcases List.mem_cons.mp h with rfl | h
      · exact ⟨f, by simp, rfl, pre, f.body ++ separator, joinBodies fs, rfl, .inr rfl, rfl, rfl⟩
      · obtain ⟨g, hg, hholds⟩ := ih (pre ++ (f.body ++ separator)) h
        exact ⟨g, by simp [hg], hholds⟩

/-! ## The operations of a selection -/

@[simp] theorem htmlOf_nil : htmlOf [] = none := rfl

theorem htmlOf_of_ne_nil {fs : List Fragment} (h : fs ≠ []) : htmlOf fs = some (joinBodies fs) :=
  if_neg h

theorem assembled_default : Assembled P .default := ⟨[], by simp, rfl, rfl⟩

theorem Assembled.mono {Q : Fragment → Prop} {selection : BodySelection}
    (h : Assembled P selection) (hPQ : ∀ f, P f → Q f) : Assembled Q selection := by
  obtain ⟨fs, hfs, hhtml, hscopes⟩ := h
  exact ⟨fs, fun f hf => hPQ f (hfs f hf), hhtml, hscopes⟩

theorem nonBlank_eq_some {body : Option Str} {s : Str} (h : nonBlank body = some s) :
    body = some s := (Option.filter_eq_some_iff.mp h).1

/-- `append` appends the fragments, unless they are blank. Where both sides have text the separator
goes to the last fragment in front, and the scopes behind it are shifted by what stands before them.
-/
theorem Assembled.append {selected other : BodySelection} (h : Assembled P selected)
    (h' : Assembled P other) : Assembled P (selected.append other) := by
  obtain ⟨fs, hfs, hhtml, hscopes⟩ := h
  obtain ⟨gs, hgs, hhtml', hscopes'⟩ := h'
  have happend : ∃ hs, (∀ f ∈ hs, P f) ∧
      appendHtmlBody selected.html selected.htmlCidPartScopes other.html
        other.htmlCidPartScopes = (htmlOf hs, scopesFrom 0 hs) := by
    unfold appendHtmlBody
    split
    · exact ⟨fs, hfs, by rw [hhtml, hscopes]⟩
    · next source hsource =>
      rw [nonBlank_eq_some hsource] at hhtml'
      have hgne : gs ≠ [] := by
        rintro rfl
        exact absurd hhtml' (by simp)
      rw [htmlOf_of_ne_nil hgne, Option.some.injEq] at hhtml'
      simp only [hscopes', if_neg (scopesFrom_ne_nil hgne)]
      split
      · next destination hdestination =>
        rw [nonBlank_eq_some hdestination] at hhtml
        have hfne : fs ≠ [] := by
          rintro rfl
          exact absurd hhtml (by simp)
        rw [htmlOf_of_ne_nil hfne, Option.some.injEq] at hhtml
        -- both have text: the scopes of the second are shifted behind the separator
        refine ⟨fs ++ gs, fun f hf => (List.mem_append.mp hf).elim (hfs f) (hgs f), ?_⟩
        rw [htmlOf_of_ne_nil (by simp [hfne]), joinBodies_append hfne hgne,
          ← coverSeparator_scopesFrom hfne 0 hgne, scopesFrom_shift, hscopes, hhtml, hhtml']
        simp only [Nat.zero_add]
        rfl
      · exact ⟨gs, hgs, by rw [htmlOf_of_ne_nil hgne, hhtml']⟩
  obtain ⟨hs, hhs, heq⟩ := happend
  exact ⟨hs, hhs, congrArg Prod.fst heq, congrArg Prod.snd heq⟩

/-- `replace_supported` keeps one of the two lists of fragments. -/
theorem Assembled.replaceSupported {selected other : BodySelection} (h : Assembled P selected)
    (h' : Assembled P other) : Assembled P (selected.replaceSupported other) := by
  unfold BodySelection.replaceSupported
  cases hother : other.html with
  | none =>
    obtain ⟨fs, hfs, hhtml, hscopes⟩ := h
    exact ⟨fs, hfs, by simpa using hhtml, by simpa using hscopes⟩
  | some html =>
    obtain ⟨gs, hgs, hhtml, hscopes⟩ := h'
    rw [hother] at hhtml
    exact ⟨gs, hgs, by simpa using hhtml, by simpa using hscopes⟩

/-- A fold over selections keeps what one step keeps. -/
theorem assembled_foldl {op : BodySelection → BodySelection → BodySelection}
    (hop : ∀ {s o}, Assembled P s → Assembled P o → Assembled P (op s o))
    {selections : List BodySelection} (h : ∀ s ∈ selections, Assembled P s) :
    ∀ {start}, Assembled P start → Assembled P (selections.foldl op start) := by
  induction selections with
  | nil => exact fun hstart => hstart
  | cons s rest ih =>
    intro start hstart
    exact ih (fun o ho => h o (by simp [ho])) (hop hstart (h s (by simp)))

/-- The `multipart/related` arm relabels the fragments of its root. -/
theorem assembled_selectRelatedBody {Q : Fragment → Prop} {rootIndex : Nat}
    {selections : List BodySelection} {ranges : List AttachmentRange}
    (h : ∀ s, selections[rootIndex]? = some s → Assembled P s)
    (hPQ : ∀ f, P f → Q (f.relate (nonRootIndexes rootIndex ranges))) :
    Assembled Q (selectRelatedBody rootIndex selections ranges) := by
  have hroot : Assembled P (selections[rootIndex]?.getD .default) := by
    cases hs : selections[rootIndex]? with
    | none => exact assembled_default
    | some s => exact h s hs
  unfold selectRelatedBody
  obtain ⟨fs, hfs, hhtml, hscopes⟩ := hroot
  by_cases hne : fs = []
  · subst hne
    simp only [hhtml, htmlOf_nil]
    exact ⟨[], by simp, hhtml, hscopes⟩
  · simp only [hhtml, htmlOf_of_ne_nil hne, hscopes, if_neg (scopesFrom_ne_nil hne)]
    refine ⟨_, ?_, ?_, scopesFrom_relate _ 0 fs⟩
    · intro f hf
      obtain ⟨g, hg, rfl⟩ := List.mem_map.mp hf
      exact hPQ g (hfs g hg)
    · rw [htmlOf_of_ne_nil (by simp [hne]), joinBodies_relate]

end Notm.Mail
