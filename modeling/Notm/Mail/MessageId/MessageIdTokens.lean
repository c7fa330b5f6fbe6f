import Notm.Mail.MessageId.FieldValue

/-!
# Message identifiers of a field

What `message_id_tokens` returns: the identifiers of its values in their canonical form, which
is read back as itself, and nothing of what stands in comments, quoted words or encoded words.

* `messageIdTokens_eq_ok` — a field is read segment by segment.
* `messageIdTokens_bracketed_iff` — which bracketed texts are identifiers, and what becomes of them.
* `messageIdTokens_canonical` — the result is read back as itself, and depends on nothing outside.
-/

namespace Notm.Mail

open Rust Rfc5322
open Utf8 (At leadByte)

variable {field : String}

/-! ## Header text -/

/-- The characters that `validate_header_text` lets pass. -/
def IsHeaderText (value : Str) : Prop := ∀ c ∈ value, c = '\t' ∨ isControl c = false

theorem validateHeaderText_eq_ok {name : Text} {value : Str} :
    validateHeaderText name value = .ok () ↔ IsHeaderText value := by
  have hclass : ∀ c : Char, (¬ (decide (c ≠ '\t') && isControl c) = true) ↔
      (c = '\t' ∨ isControl c = false) := by
    intro c
    by_cases hc : c = '\t' <;> simp [hc]
  unfold validateHeaderText
  split
  · next c hfind =>
    have hmem := List.mem_of_find?_eq_some hfind
    have hbad := List.find?_some hfind
    refine iff_of_false (by simp) fun h => ?_
    exact (hclass c).mpr (h c hmem) hbad
  · next hfind =>
    rw [List.find?_eq_none] at hfind
    exact iff_of_true rfl fun c hc => (hclass c).mp (hfind c hc)

theorem IsHeaderText.append {a b : Str} (ha : IsHeaderText a) (hb : IsHeaderText b) :
    IsHeaderText (a ++ b) := List.forall_mem_append.mpr ⟨ha, hb⟩

theorem isHeaderText_bracketed {s : Str} (hs : SourceText s) :
    IsHeaderText ('<' :: (s ++ ['>'])) := by
  intro c hc
  rcases List.mem_cons.mp hc with rfl | hc
  · exact .inr rfl
  · rcases List.mem_append.mp hc with hc | hc
    · exact (hs c hc).not_control
    · rw [List.mem_singleton.mp hc]
      exact .inr rfl

/-! ## Values -/

/-- The segments of a value that the field accepts. -/
structure IsValue (field : String) (segments : List Segment) : Prop where
  value : FieldValue (allowsObsoleteSyntax field) true false segments
  text : IsHeaderText (textOf segments)

theorem parseMessageIdSequence_eq_ok {value : Str} {allow : Bool} {ids : List Str} :
    parseMessageIdSequence field value allow = .ok ids ↔
      ∃ segments, FieldValue allow true false segments ∧ value = textOf segments ∧
        ids = idsOf segments := by
  have hvalue : parseMessageIdSequence field value allow =
      valueFrom field value allow false 0 [] := rfl
  rw [hvalue]
  constructor
  · intro h
    exact valueFrom_eq_ok (fun _ => rfl) (At.start value) h
  · rintro ⟨segments, hs, rfl, rfl⟩
    exact valueFrom_of hs [] (At.start _) rfl

/-- The values of a field are read segment by segment, and the identifiers among the segments
are what is returned. -/
theorem messageIdTokens_eq_ok {values : List Str} {ids : List Str} :
    messageIdTokens field values = .ok ids ↔
      ∃ parts : List (List Segment), (∀ segments ∈ parts, IsValue field segments) ∧
        values = parts.map textOf ∧ ids = parts.flatMap idsOf := by
  -- The induction on the values carries the identifiers that have been found so far.
  have hacc : ∀ (values : List Str) (acc ids : List Str),
      values.foldlM (fun tokens value => do
        validateHeaderText (lit field) value
        return tokens ++
          (← parseMessageIdSequence field value (allowsObsoleteSyntax field))) acc = .ok ids ↔
        ∃ parts : List (List Segment), (∀ segments ∈ parts, IsValue field segments) ∧
          values = parts.map textOf ∧ ids = acc ++ parts.flatMap idsOf := by
    intro values
    induction values with
    | nil =>
      intro acc ids
      rw [List.foldlM_nil, pure_eq_ok]
      constructor
      · rintro rfl
        exact ⟨[], by simp, rfl, by simp⟩
      · rintro ⟨parts, -, hparts, rfl⟩
        rw [List.map_eq_nil_iff.mp hparts.symm]
        simp
    | cons value values ih =>
      intro acc ids
      rw [List.foldlM_cons]
      constructor
      · intro h
        obtain ⟨tokens, hvalue, h⟩ := bind_eq_ok.mp h
        obtain ⟨_, htext, hvalue⟩ := bind_eq_ok.mp hvalue
        obtain ⟨found, hfound, hvalue⟩ := bind_eq_ok.mp hvalue
        obtain rfl := pure_eq_ok.mp hvalue
        obtain ⟨segments, hs, rfl, rfl⟩ := parseMessageIdSequence_eq_ok.mp hfound
        obtain ⟨parts, hparts, rfl, rfl⟩ := (ih _ _).mp h
        refine ⟨segments :: parts, ?_, rfl, by simp⟩
        exact List.forall_mem_cons.mpr ⟨⟨hs, validateHeaderText_eq_ok.mp htext⟩, hparts⟩
      · rintro ⟨parts, hparts, hvalues, rfl⟩
        cases parts with
        | nil => cases hvalues
        | cons segments parts =>
          obtain ⟨rfl, rfl⟩ := List.cons.inj hvalues
          obtain ⟨hs, hparts⟩ := List.forall_mem_cons.mp hparts
          refine bind_eq_ok.mpr ⟨acc ++ idsOf segments, ?_, (ih _ _).mpr ⟨parts, hparts, rfl, ?_⟩⟩
          · refine bind_eq_ok.mpr ⟨(), validateHeaderText_eq_ok.mpr hs.text, ?_⟩
            exact bind_eq_ok.mpr
              ⟨_, parseMessageIdSequence_eq_ok.mpr ⟨segments, hs.value, rfl, rfl⟩, rfl⟩
          · simp
  rw [messageIdTokens, hacc]
  simp

theorem messageIdTokens_singleton {value : Str} {ids : List Str} :
    messageIdTokens field [value] = .ok ids ↔
      ∃ segments, IsValue field segments ∧ value = textOf segments ∧ ids = idsOf segments := by
  rw [messageIdTokens_eq_ok]
  constructor
  · rintro ⟨parts, hparts, hvalues, rfl⟩
    cases parts with
    | nil => cases hvalues
    | cons segments parts =>
      obtain ⟨rfl, hnil⟩ := List.cons.inj hvalues
      obtain rfl := List.map_eq_nil_iff.mp hnil.symm
      exact ⟨segments, hparts segments (by simp), rfl, by simp⟩
  · rintro ⟨segments, hs, rfl, rfl⟩
    exact ⟨[segments], by simpa using hs, rfl, by simp⟩

/-! ## One identifier by itself -/

/-- A value without identifiers does not end with a closing angle bracket. -/
theorem getLast?_textOf_ne {allow start phrase : Bool} {segments : List Segment}
    (hs : FieldValue allow start phrase segments) (hids : idsOf segments = []) :
    (textOf segments).getLast? ≠ some '>' := by
  have hlast : ∀ {segment : Segment} {segments : List Segment} (last : Char),
      (∃ front, segment.text = front ++ [last]) → last ≠ '>' →
      (textOf segments).getLast? ≠ some '>' →
      (textOf (segment :: segments)).getLast? ≠ some '>' := by
    rintro segment segments last ⟨front, htext⟩ hne ih
    rw [textOf_cons, htext]
    cases hrest : textOf segments with
    | nil => simpa using hne
    | cons c rest =>
      rw [List.getLast?_append_of_ne_nil _ (by simp), ← hrest]
      exact ih
  induction hs with
  | nil => simp
  | @blank _ _ c _ hc _ ih =>
    exact hlast c ⟨[], rfl⟩ (ne_of_class hc rfl) (ih hids)
  | @comment _ _ body _ _ _ ih => exact hlast ')' ⟨'(' :: body, rfl⟩ (by decide) (ih hids)
  | @word _ _ segment _ _ hword _ ih =>
    rw [idsOf_word hword] at hids
    cases hword with
    | @atom _ _ word hne hword _ _ =>
      refine hlast (word.getLast hne) ⟨word.dropLast, (List.dropLast_append_getLast hne).symm⟩ ?_
        (ih hids)
      intro heq
      have := hword _ (List.getLast_mem hne)
      rw [heq] at this
      exact absurd this (by decide +kernel)
    | @quoted _ _ body _ => exact hlast '"' ⟨'"' :: body, rfl⟩ (by decide) (ih hids)
    | @encoded _ charset encoding text _ _ =>
      exact hlast '=' ⟨'=' :: '?' :: (charset ++ '?' :: (encoding ++ '?' :: (text ++ ['?']))),
        by simp [Segment.text, encodedWord]⟩ (by decide) (ih hids)
  | dot _ _ ih => exact hlast '.' ⟨[], rfl⟩ (by decide) (ih hids)
  | id _ _ _ => cases hids

/-- A value that begins with an opening angle bracket begins with an identifier. -/
theorem fieldValue_opens {allow start phrase : Bool} {segments : List Segment} {rest : Str}
    (hs : FieldValue allow start phrase segments) (htext : textOf segments = '<' :: rest) :
    ∃ source canon segments', segments = .id source canon :: segments' ∧
      AcceptsId allow source canon ∧ FieldValue allow false false segments' ∧
      rest = source ++ '>' :: textOf segments' := by
  cases hs with
  | nil => cases htext
  | blank hc _ =>
    cases htext
    exact absurd hc (by decide)
  | comment => cases htext
  | word _ hword _ =>
    obtain ⟨c, tail, hc, -, hne, -⟩ := word_opens hword (textOf _)
    rw [textOf_cons, hc] at htext
    cases htext
    exact absurd rfl hne
  | dot => cases htext
  | @id _ _ source canon segments' hid hs =>
    rw [textOf_cons, Segment.text, List.cons_append, List.cons.injEq] at htext
    exact ⟨source, canon, segments', rfl, hid, hs, by simp [← htext.2]⟩

/-- A bracketed text is one identifier of a field exactly when the field accepts what stands
between the brackets. -/
theorem messageIdTokens_bracketed {x y : Str} :
    messageIdTokens field ['<' :: (x ++ ['>'])] = .ok [y] ↔
      ∃ canon, AcceptsId (allowsObsoleteSyntax field) x canon ∧ y = '<' :: (canon ++ ['>']) := by
  rw [messageIdTokens_singleton]
  constructor
  · rintro ⟨segments, hs, htext, hids⟩
    obtain ⟨source, canon, segments', rfl, hid, hs', hrest⟩ := fieldValue_opens hs.value htext.symm
    obtain ⟨rfl, hnil⟩ := List.cons.inj hids
    have hends : textOf segments' = [] := by
      by_contra hne
      have hlast : (x ++ ['>']).getLast? = some '>' := List.getLast?_concat
      rw [hrest, List.getLast?_append_of_ne_nil _ (by simp), List.getLast?_cons] at hlast
      cases hl : (textOf segments').getLast? with
      | none => exact hne (List.getLast?_eq_none_iff.mp hl)
      | some c =>
        rw [hl] at hlast
        exact getLast?_textOf_ne hs' hnil.symm (hl.trans hlast)
    rw [hends] at hrest
    obtain rfl := List.append_cancel_right hrest
    exact ⟨canon, hid, rfl⟩
  · rintro ⟨canon, hid, rfl⟩
    refine ⟨[.id x canon], ⟨.id hid .nil, ?_⟩, by simp [Segment.text], rfl⟩
    simpa [Segment.text] using isHeaderText_bracketed hid.msgId.source

/-- **Which identifiers are accepted.** The scanner of In-Reply-To and References accepts `<x>`
exactly when `x` is a message identifier of the obsolete grammar, and returns its canonical form.
The scanner of any other field, of Message-ID in particular, accepts modern identifiers only and
returns them as they are. Both hold of the scan of a whole value and of the scan of one identifier.
-/
theorem messageIdTokens_bracketed_iff (field : String) (x y : Str) :
    (messageIdTokens field ['<' :: (x ++ ['>'])] = .ok [y] ↔
      if allowsObsoleteSyntax field then ∃ canon, MsgId x canon ∧ y = '<' :: (canon ++ ['>'])
      else StrictMsgId x ∧ y = '<' :: (x ++ ['>'])) ∧
    (canonicalMessageIdCore field ('<' :: (x ++ ['>'])) (allowsObsoleteSyntax field) = .ok y ↔
      if allowsObsoleteSyntax field then ∃ canon, MsgId x canon ∧ y = '<' :: (canon ++ ['>'])
      else StrictMsgId x ∧ y = '<' :: (x ++ ['>'])) := by
  rw [messageIdTokens_bracketed, canonicalMessageIdCore_iff, and_self_iff]
  cases allowsObsoleteSyntax field with
  | true => rfl
  | false =>
    constructor
    · rintro ⟨canon, ⟨hstrict, rfl⟩, rfl⟩
      exact ⟨hstrict, rfl⟩
    · rintro ⟨hstrict, rfl⟩
      exact ⟨x, ⟨hstrict, rfl⟩, rfl⟩

/-- Comments inside of an identifier are for the threading fields only, and white space inside of
a domain literal is dropped with them. -/
theorem messageIdTokens_differs :
    MsgId "a (c)@b".toList "a@b".toList ∧
      (∀ ids, messageIdTokens "Message-ID" ["<a (c)@b>".toList] ≠ .ok ids) ∧
      messageIdTokens "In-Reply-To" ["<a (c)@b>".toList] = .ok ["<a@b>".toList] ∧
      messageIdTokens "In-Reply-To" ["<a@[ 1 ]>".toList] = .ok ["<a@[1]>".toList] ∧
      (∀ ids, messageIdTokens "In-Reply-To" ["<a@[]>".toList] ≠ .ok ids) := by
  have hfails : ∀ {field : String} {values : List Str},
      (messageIdTokens field values).isOk = false →
        ∀ ids, messageIdTokens field values ≠ .ok ids := by
    intro field values h ids heq
    rw [heq] at h
    cases h
  have hatom : ∀ c : Char, Rfc5322.isAtext c.toNat = true → Atom [c] := fun c hc =>
    ⟨by simp, by simpa using hc⟩
  have hcomment : CommentBody ['c'] := .text (by decide) .nil
  have hleft : IdLeft ['a', ' ', '(', 'c', ')'] ['a'] :=
    DotSeparated.last (a := []) (w := ['a']) .nil (.inl (hatom 'a' (by decide +kernel)))
      (.blank (c := ' ') (by decide) (.comment hcomment .nil))
  have hright : IdRight ['b'] ['b'] :=
    .domain (DotSeparated.last .nil (hatom 'b' (by decide +kernel)) .nil)
  have hsource : "a (c)@b".toList = ['a', ' ', '(', 'c', ')'] ++ '@' :: ['b'] := by
    decide +kernel
  have hcanon : "a@b".toList = ['a'] ++ '@' :: ['b'] := by decide +kernel
  refine ⟨?_, hfails (by decide +kernel), by decide +kernel, by decide +kernel,
    hfails (by decide +kernel)⟩
  rw [hsource, hcanon]
  exact .mk hleft hright

/-! ## Canonical values -/

/-- The identifiers joined with single spaces, as segments. -/
def joinedIds : List Str → List Segment
  | [] => []
  | [canon] => [.id canon canon]
  | canon :: rest => .id canon canon :: .blank ' ' :: joinedIds rest

/-- An identifier in brackets. -/
def bracketed (canon : Str) : Str := '<' :: (canon ++ ['>'])

theorem textOf_joinedIds (canons : List Str) :
    textOf (joinedIds canons) = [' '].intercalate (canons.map bracketed) := by
  induction canons with
  | nil => rfl
  | cons canon canons ih =>
    cases canons with
    | nil => simp [joinedIds, Segment.text, bracketed, List.intercalate]
    | cons canon' canons =>
      rw [joinedIds, textOf_cons, textOf_cons, ih]
      · simp [Segment.text, bracketed, List.intercalate]
      · simp

theorem idsOf_joinedIds (canons : List Str) :
    idsOf (joinedIds canons) = canons.map bracketed := by
  induction canons with
  | nil => rfl
  | cons canon canons ih =>
    cases canons with
    | nil => rfl
    | cons canon' canons =>
      rw [joinedIds]
      · exact congrArg (bracketed canon :: ·) ih
      · simp

theorem fieldValue_joinedIds {allow start : Bool} {canons : List Str}
    (h : ∀ canon ∈ canons, AcceptsId allow canon canon) :
    FieldValue allow start false (joinedIds canons) := by
  induction canons generalizing start with
  | nil => exact .nil
  | cons canon canons ih =>
    obtain ⟨hcanon, hcanons⟩ := List.forall_mem_cons.mp h
    cases canons with
    | nil => exact .id hcanon .nil
    | cons canon' canons =>
      rw [joinedIds]
      · exact .id hcanon (.blank (by decide) (ih hcanons))
      · simp

theorem isHeaderText_joined {canons : List Str} (h : ∀ canon ∈ canons, SourceText canon) :
    IsHeaderText ([' '].intercalate (canons.map bracketed)) := by
  induction canons with
  | nil => simp [IsHeaderText, List.intercalate]
  | cons canon canons ih =>
    obtain ⟨hcanon, hcanons⟩ := List.forall_mem_cons.mp h
    cases canons with
    | nil => simpa [List.intercalate, bracketed] using isHeaderText_bracketed hcanon
    | cons canon' canons =>
      have hjoin : [' '].intercalate ((canon :: canon' :: canons).map bracketed) =
          bracketed canon ++ ' ' :: [' '].intercalate ((canon' :: canons).map bracketed) := by
        simp [List.intercalate]
      rw [hjoin]
      exact (isHeaderText_bracketed hcanon).append
        (List.forall_mem_cons.mpr ⟨.inr rfl, ih hcanons⟩)

/-- The identifiers of a value are canonical ones in brackets. -/
theorem exists_canons {allow start phrase : Bool} {segments : List Segment}
    (hs : FieldValue allow start phrase segments) :
    ∃ canons : List Str, idsOf segments = canons.map bracketed ∧
      ∀ canon ∈ canons, AcceptsId allow canon canon := by
  induction hs with
  | nil => exact ⟨[], rfl, by simp⟩
  | blank _ _ ih => exact ih
  | comment _ _ ih => exact ih
  | word _ hword _ ih => rwa [idsOf_word hword]
  | dot _ _ ih => exact ih
  | @id _ _ _ canon _ hid _ ih =>
    obtain ⟨canons, hcanons, hall⟩ := ih
    exact ⟨canon :: canons, congrArg (bracketed canon :: ·) hcanons,
      List.forall_mem_cons.mpr ⟨hid.canonical, hall⟩⟩

theorem exists_canons_parts {parts : List (List Segment)}
    (h : ∀ segments ∈ parts, IsValue field segments) :
    ∃ canons : List Str, parts.flatMap idsOf = canons.map bracketed ∧
      ∀ canon ∈ canons, AcceptsId (allowsObsoleteSyntax field) canon canon := by
  induction parts with
  | nil => exact ⟨[], rfl, by simp⟩
  | cons segments parts ih =>
    obtain ⟨hs, hparts⟩ := List.forall_mem_cons.mp h
    obtain ⟨canons, hcanons, hall⟩ := exists_canons hs.value
    obtain ⟨canons', hcanons', hall'⟩ := ih hparts
    exact ⟨canons ++ canons', by rw [List.flatMap_cons, hcanons, hcanons', List.map_append],
      List.forall_mem_append.mpr ⟨hall, hall'⟩⟩

/-- What stands inside of a comment, a quoted word or an encoded word may differ, everything else
is the same. -/
inductive SameOutside : Segment → Segment → Prop where
  | comment (body body' : Str) : SameOutside (.comment body) (.comment body')
  | quoted (body body' : Str) : SameOutside (.quoted body) (.quoted body')
  | encoded (charset encoding text charset' encoding' text' : Str) :
      SameOutside (.encoded charset encoding text) (.encoded charset' encoding' text')
  | same (segment : Segment) : SameOutside segment segment

theorem idsOf_sameOutside {segments segments' : List Segment}
    (h : List.Forall₂ SameOutside segments segments') : idsOf segments = idsOf segments' := by
  induction h with
  | nil => rfl
  | cons hsame _ ih =>
    cases hsame with
    | comment => exact ih
    | quoted => exact ih
    | encoded => exact ih
    | same =>
      rw [idsOf, idsOf, List.filterMap_cons, List.filterMap_cons]
      split
      · exact ih
      · exact congrArg (_ :: ·) ih

theorem flatMap_idsOf_sameOutside {parts parts' : List (List Segment)}
    (h : List.Forall₂ (List.Forall₂ SameOutside) parts parts') :
    parts.flatMap idsOf = parts'.flatMap idsOf := by
  induction h with
  | nil => rfl
  | cons hsame _ ih => rw [List.flatMap_cons, List.flatMap_cons, idsOf_sameOutside hsame, ih]

/-- **What is returned is read back.** The identifiers that a field returns, joined with single
spaces, are returned again, and each of them by itself. The values consist of segments of which only
the identifiers contribute, so that other text inside of comments, quoted words and encoded words
does not change the result. -/
theorem messageIdTokens_canonical (field : String) (values ids : List Str)
    (h : messageIdTokens field values = .ok ids) :
    messageIdTokens field [[' '].intercalate ids] = .ok ids ∧
      (∀ id ∈ ids, messageIdTokens field [id] = .ok [id]) ∧
      ∃ parts : List (List Segment), (∀ segments ∈ parts, IsValue field segments) ∧
        values = parts.map textOf ∧ ids = parts.flatMap idsOf ∧
        ∀ parts', List.Forall₂ (List.Forall₂ SameOutside) parts parts' →
          (∀ segments ∈ parts', IsValue field segments) →
          messageIdTokens field (parts'.map textOf) = .ok ids := by
  obtain ⟨parts, hparts, rfl, rfl⟩ := messageIdTokens_eq_ok.mp h
  obtain ⟨canons, hcanons, hall⟩ := exists_canons_parts hparts
  -- A canonical identifier is free of comments and folding, so it may be written as it is.
  have hsource : ∀ canon ∈ canons, SourceText canon := fun canon hcanon =>
    (hall canon hcanon).msgId.source
  refine ⟨?_, ?_, parts, hparts, rfl, rfl, ?_⟩
  · rw [hcanons]
    refine messageIdTokens_singleton.mpr ⟨joinedIds canons, ⟨fieldValue_joinedIds hall, ?_⟩,
      (textOf_joinedIds canons).symm, (idsOf_joinedIds canons).symm⟩
    rw [textOf_joinedIds]
    exact isHeaderText_joined hsource
  · intro id hid
    rw [hcanons] at hid
    obtain ⟨canon, hcanon, rfl⟩ := List.mem_map.mp hid
    exact messageIdTokens_bracketed.mpr ⟨canon, hall canon hcanon, rfl⟩
  · intro parts' hsame hparts'
    exact messageIdTokens_eq_ok.mpr ⟨parts', hparts', rfl, flatMap_idsOf_sameOutside hsame⟩

/-- A value with identifiers inside of everything that does not contribute. -/
theorem messageIdTokens_canonical_phrases :
    let value := "see (<x@y>) \"<q@q>\" <a (c)@b> =?utf-8?q?<z@z>?= <c.d@[1 2]>".toList
    let ids := ["<a@b>".toList, "<c.d@[12]>".toList]
    messageIdTokens "References" [value] = .ok ids ∧
      messageIdTokens "References" [[' '].intercalate ids] = .ok ids ∧
      ∀ id ∈ ids, messageIdTokens "References" [id] = .ok [id] := by
  intro value ids
  have hok : messageIdTokens "References" [value] = .ok ids := by decide +kernel
  have hcanonical := messageIdTokens_canonical "References" [value] ids hok
  exact ⟨hok, hcanonical.1, hcanonical.2.1⟩

end Notm.Mail
