import Notm.Mail.MessageId.WordLemmas

/-!
# The obsolete forms

`valid_obs_id_left_with_cfws` and `valid_obs_id_right_with_cfws` accept exactly the two sides of
an identifier in the obsolete grammar, and neither of them panics.

* `ScansWord` — a scanner reads the words of one kind, and nothing else.
* `domainLiteralEnd_eq_some` — the loop over a domain literal.
* `DotSeparated.exists_word` — how the left side of an obsolete identifier begins.
-/

namespace Notm.Mail

open Rust Rfc5322
open Utf8 (At leadByte)

variable {field : String} {value : Str} {index : Nat}

/-! ## A word with comments and white space around it -/

/-- What ends the word before it and is not skipped with it: a dot, or the end. -/
def StopsWord (rest : Str) : Prop := EndsAtom rest ∧ Plain rest

theorem StopsWord.nil : StopsWord [] := ⟨by simp [EndsAtom], .nil⟩

theorem stopsWord_dot (rest : Str) : StopsWord ('.' :: rest) :=
  ⟨fun c hc => by cases hc; decide +kernel, plain_cons.mpr ⟨by decide, by decide⟩⟩

theorem endsAtom_cfws {b rest : Str} (hb : Cfws b) (hrest : EndsAtom rest) :
    EndsAtom (b ++ rest) := by
  cases hb with
  | nil => exact hrest
  | @blank c s hc _ =>
    intro d hd
    cases hd
    have hblank : c.toNat = 0x20 ∨ c.toNat = 0x09 := by simpa [isBlank] using hc
    rcases hblank with h | h <;> (rw [h]; decide +kernel)
  | comment _ _ =>
    intro d hd
    cases hd
    decide +kernel

theorem plain_atext {c : Char} {rest : Str} (hc : Rfc5322.isAtext c.toNat = true) :
    Plain (c :: rest) := by
  have hne : ∀ code ∈ [0x20, 0x09, 0x28], Rfc5322.isAtext code = false := by decide +kernel
  refine plain_cons.mpr ⟨?_, ?_⟩
  · by_contra hblank
    have hcode : c.toNat = 0x20 ∨ c.toNat = 0x09 := by
      simpa only [isBlank, Bool.not_eq_false, Bool.or_eq_true, beq_iff_eq] using hblank
    rcases hcode with h | h <;> (rw [h, hne _ (by simp)] at hc; exact absurd hc (by decide))
  · rintro rfl
    exact absurd hc (by decide +kernel)

theorem plain_word {w : Str} (hw : Word w) (rest : Str) : Plain (w ++ rest) := by
  rcases hw with hatom | ⟨body, _, rfl⟩
  · obtain ⟨c, t, rfl⟩ := List.exists_cons_of_ne_nil hatom.1
    exact plain_atext (hatom.2 c (by simp))
  · exact plain_cons.mpr ⟨by decide, by decide⟩

/-- `parse` reads a word of the kind `P` with comments and white space around it. -/
structure ScansWord (value : Str) (parse : Nat → Res (Option Nat)) (P : List Char → Prop) :
    Prop where
  ne_nil : ∀ w, P w → w ≠ []
  complete : ∀ {index : Nat} {a w b rest : Str}, Cfws a → P w → Cfws b → StopsWord rest →
    At value index (a ++ (w ++ (b ++ rest))) →
    parse index = .ok (some (index + Utf8.len (a ++ w ++ b)))
  sound : ∀ {index : Nat} {rest : Str}, At value index rest →
    (∃ e, parse index = .error (.error e)) ∨ parse index = .ok none ∨
      ∃ a w b rest', rest = a ++ (w ++ (b ++ rest')) ∧ Cfws a ∧ P w ∧ Cfws b ∧
        parse index = .ok (some (index + Utf8.len (a ++ w ++ b)))

theorem scansWord_parseObsIdLeftWord (field : String) (value : Str) :
    ScansWord value (parseObsIdLeftWord field value) Word where
  ne_nil := fun _ => Word.ne_nil
  complete := by
    intro index a w b rest ha hw hb hrest h
    have hafter := h.advance
    obtain ⟨c, t, rfl, hword⟩ := wordAt_of hw (endsAtom_cfws hb hrest.1) hafter
    have hbyte := byteAt_cons hafter
    have hskip := skipMessageIdCfws_of field hb hrest.2 hafter.advance
    simp only [parseObsIdLeftWord, skipObsoleteMessageIdCfws,
      skipMessageIdCfws_of field ha (plain_word hw _) h, hbyte, hword, hskip]
    simp only [Except.map, Utf8.len_append, Nat.add_assoc]
  sound := by
    intro index rest h
    unfold parseObsIdLeftWord skipObsoleteMessageIdCfws
    rcases skipMessageIdCfws_cases field h with
      ⟨e, herr⟩ | ⟨a, rest, rfl, ha, -, hskip⟩
    · exact .inl ⟨e, by rw [herr]⟩
    rw [hskip]
    have hafter := h.advance
    cases rest with
    | nil => exact .inr (.inl (by simp only [byteAt_nil hafter]))
    | cons c rest =>
      simp only [byteAt_cons hafter]
      rcases wordAt_cases hafter with hnone | ⟨w, rest', heq, hw, hword⟩
      · exact .inr (.inl (by rw [hnone]))
      rw [hword]
      rw [heq] at hafter
      rcases skipMessageIdCfws_cases field hafter.advance with
        ⟨e, herr⟩ | ⟨b, rest'', rfl, hb, -, hskip'⟩
      · exact .inl ⟨e, by simp only [herr]; rfl⟩
      · refine .inr (.inr ⟨a, w, b, rest'', by rw [heq], ha, hw, hb, ?_⟩)
        simp only [hskip']
        simp only [Except.map, Utf8.len_append, Nat.add_assoc]

theorem scansWord_parseObsDomainAtom (field : String) (value : Str) :
    ScansWord value (parseObsDomainAtom field value) Atom where
  ne_nil := fun _ => Atom.ne_nil
  complete := by
    intro index a w b rest ha hw hb hrest h
    have hafter := h.advance
    have hatom := parseIdLeftAtom_of hw (endsAtom_cfws hb hrest.1) hafter
    have hskip := skipMessageIdCfws_of field hb hrest.2 hafter.advance
    simp only [parseObsDomainAtom, skipObsoleteMessageIdCfws,
      skipMessageIdCfws_of field ha (plain_word (.inl hw) _) h, hatom, hskip]
    simp only [Except.map, Utf8.len_append, Nat.add_assoc]
  sound := by
    intro index rest h
    unfold parseObsDomainAtom skipObsoleteMessageIdCfws
    rcases skipMessageIdCfws_cases field h with
      ⟨e, herr⟩ | ⟨a, rest, rfl, ha, -, hskip⟩
    · exact .inl ⟨e, by rw [herr]⟩
    rw [hskip]
    have hafter := h.advance
    simp only
    rcases parseIdLeftAtom_cases hafter with hnone | ⟨w, rest', heq, hw, -, hatom⟩
    · exact .inr (.inl (by rw [hnone]))
    rw [hatom]
    rw [heq] at hafter
    rcases skipMessageIdCfws_cases field hafter.advance with
      ⟨e, herr⟩ | ⟨b, rest'', rfl, hb, -, hskip'⟩
    · exact .inl ⟨e, by simp only [herr]; rfl⟩
    · refine .inr (.inr ⟨a, w, b, rest'', by rw [heq], ha, hw, hb, ?_⟩)
      simp only [hskip']
      simp only [Except.map, Utf8.len_append, Nat.add_assoc]

/-! ## Words with dots between them -/

section DotSeparated

variable {parse : Nat → Res (Option Nat)}
  {hparse : ∀ {index next}, parse index = .ok (some next) → index < next} {P : List Char → Prop}

theorem validDotSeparatedFrom_of (hscan : ScansWord value parse P) {s canon : Str}
    (hs : DotSeparated P s canon) :
    ∀ {index : Nat}, At value index s →
      validDotSeparatedFrom parse hparse value index = .ok true := by
  -- Along the derivation: the last word ends the text, any other has a dot and another word behind
  -- it.
  induction hs with
  | @last a w b ha hw hb =>
    intro index h
    have hsplit : At value index (a ++ (w ++ (b ++ []))) := by simpa using h
    have hend : At value (index + Utf8.len (a ++ w ++ b)) [] := by
      refine At.advance (t := a ++ w ++ b) ?_
      simpa using h
    rw [validDotSeparatedFrom]
    split
    · next herr => rw [hscan.complete ha hw hb .nil hsplit] at herr; cases herr
    · next hnone => rw [hscan.complete ha hw hb .nil hsplit] at hnone; cases hnone
    · next next hnext =>
      rw [hscan.complete ha hw hb .nil hsplit] at hnext
      cases hnext
      rw [if_pos ((length_eq_iff hend).mpr rfl)]
  | @dot a w b s canon ha hw hb hs ih =>
    intro index h
    have hsplit : At value index (a ++ (w ++ (b ++ '.' :: s))) := by simpa using h
    have hdot : At value (index + Utf8.len (a ++ w ++ b)) ('.' :: s) := by
      refine At.advance (t := a ++ w ++ b) ?_
      simpa using h
    have hrest := hdot.step_ascii (by decide)
    have hne : s ≠ [] := hs.ne_nil hscan.ne_nil
    rw [validDotSeparatedFrom]
    split
    · next herr => rw [hscan.complete ha hw hb (stopsWord_dot s) hsplit] at herr; cases herr
    · next hnone => rw [hscan.complete ha hw hb (stopsWord_dot s) hsplit] at hnone; cases hnone
    · next next hnext =>
      rw [hscan.complete ha hw hb (stopsWord_dot s) hsplit] at hnext
      cases hnext
      rw [if_neg (by rw [length_eq_iff hdot]; simp)]
      split
      · next hbyte => rw [byteAt_cons hdot] at hbyte; cases hbyte
      · next byte hbyte =>
        rw [byteAt_cons hdot] at hbyte
        cases hbyte
        rw [if_neg (by decide), if_neg (by rw [length_eq_iff hrest]; exact hne)]
        exact ih hrest

variable (hparse) in
theorem validDotSeparatedFrom_cases (hscan : ScansWord value parse P) {rest : Str}
    (h : At value index rest) :
    (∃ e, validDotSeparatedFrom parse hparse value index = .error (.error e)) ∨
      validDotSeparatedFrom parse hparse value index = .ok false ∨
      ∃ canon, DotSeparated P rest canon := by
  -- The induction is on what is left of the text: every turn reads a word and a dot.
  induction hlen : rest.length using Nat.strongRecOn generalizing index rest with
  | ind n ih =>
  subst hlen
  rw [validDotSeparatedFrom]
  rcases hscan.sound h with ⟨e, herr⟩ | hnone | ⟨a, w, b, rest', rfl, ha, hw, hb, hnext⟩
  · left
    split
    · next fault hfault => rw [herr] at hfault; cases hfault; exact ⟨e, rfl⟩
    · next hok => rw [herr] at hok; cases hok
    · next hok => rw [herr] at hok; cases hok
  · right; left
    split
    · next hok => rw [hnone] at hok; cases hok
    · rfl
    · next hok => rw [hnone] at hok; cases hok
  split
  · next hok => rw [hnext] at hok; cases hok
  · next hok => rw [hnext] at hok; cases hok
  next next' hok =>
  rw [hnext] at hok
  cases hok
  have hafter : At value (index + Utf8.len (a ++ w ++ b)) rest' := by
    refine At.advance (t := a ++ w ++ b) ?_
    simpa using h
  split
  · next hend =>
    rw [length_eq_iff hafter] at hend
    subst hend
    exact .inr (.inr ⟨w, by simpa using DotSeparated.last ha hw hb⟩)
  next hend =>
  split
  · next hbyte =>
      exact absurd ((length_eq_iff hafter).mpr ((byteAt_eq_none_iff hafter).mp hbyte)) hend
  next byte hbyte =>
  cases rest' with
  | nil => exact absurd ((length_eq_iff hafter).mpr rfl) hend
  | cons c rest' =>
  rw [byteAt_cons hafter] at hbyte
  cases hbyte
  split
  · exact .inr (.inl rfl)
  -- a dot, and another word behind it unless the text ends there
  next hdot =>
  have hc : c = '.' := (leadByte_eq_iff (by decide) rfl).mp (not_not.mp hdot)
  subst hc
  split
  · exact .inr (.inl rfl)
  next hlast =>
  have hlt : rest'.length < (a ++ (w ++ (b ++ '.' :: rest'))).length := by
    simp only [List.length_append, List.length_cons]
    omega
  rcases ih rest'.length hlt (hafter.step_ascii (by decide)) rfl with
    herr | hfalse | ⟨canon, hcanon⟩
  · exact .inl herr
  · exact .inr (.inl hfalse)
  · exact .inr (.inr ⟨w ++ '.' :: canon, by simpa using DotSeparated.dot ha hw hb hcanon⟩)

end DotSeparated

/-! ## Domain literals -/

/-- One step of the loop over a domain literal, by the character at hand. -/
theorem domainLiteralEnd_cons (start : Nat) (hasContent : Bool) (c : Char) (rest : Str) :
    domainLiteralEnd start hasContent (Utf8.encode (c :: rest)) =
      if c = ']' then if hasContent then some (start + 1) else none
      else if isBlank c.toNat then domainLiteralEnd (start + 1) hasContent (Utf8.encode rest)
      else if c = '\\' then
        match rest with
        | [] => none
        | d :: rest =>
          if Rfc5322.isEscapable d.toNat then
            domainLiteralEnd (start + 2) true (Utf8.encode rest)
          else none
      else if isDtext c.toNat then domainLiteralEnd (start + 1) true (Utf8.encode rest)
      else none := by
  have hslash : leadByte c = 0x5C ↔ c = '\\' := leadByte_eq_iff (by decide) rfl
  have hclose : leadByte c = 0x5D ↔ c = ']' := leadByte_eq_iff (by decide) rfl
  by_cases hasc : c.toNat < 128
  · rw [Utf8.encode_cons_ascii hasc, domainLiteralEnd.eq_def]
    simp only [isBlank_leadByte, isLiteralText_leadByte, hslash, hclose]
    cases rest with
    | nil => rfl
    | cons d rest =>
      by_cases hd : d.toNat < 128
      · simp only [Utf8.encode_cons_ascii hd, isEscapable_leadByte]
      · obtain ⟨tail, htail⟩ := Utf8.encode_cons_eq d rest
        simp only [htail, isEscapable_leadByte, isEscapable_of_ge (Nat.le_of_not_lt hd)]
        rfl
  · obtain ⟨tail, htail⟩ := Utf8.encode_cons_eq c rest
    have hs : c ≠ '\\' := by rintro rfl; exact hasc (by decide)
    have hc : c ≠ ']' := by rintro rfl; exact hasc (by decide)
    rw [htail, domainLiteralEnd.eq_def]
    simp only [isBlank_leadByte, isLiteralText_leadByte, hslash, hclose, if_neg hs, if_neg hc,
      isBlank_of_ge (Nat.le_of_not_lt hasc), isDtext_of_ge (Nat.le_of_not_lt hasc)]
    rfl

theorem domainLiteralEnd_of {s canon : Str} (hs : LiteralBody s canon) (rest : Str) :
    ∀ (start : Nat) (hasContent : Bool), hasContent = true ∨ canon ≠ [] →
      domainLiteralEnd start hasContent (Utf8.encode (s ++ ']' :: rest)) =
        some (start + Utf8.len s + 1) := by
  induction hs with
  | nil =>
    intro start hasContent h
    obtain rfl : hasContent = true := by simpa using h
    rw [List.nil_append, domainLiteralEnd_cons, if_pos rfl, if_pos rfl]
    rfl
  | @blank c s canon hc _ ih =>
    intro start hasContent h
    have hne : c ≠ ']' := by rintro rfl; exact absurd hc (by decide)
    rw [List.cons_append, domainLiteralEnd_cons, if_neg hne, if_pos hc, ih _ _ h, Utf8.len_cons,
      Utf8.utf8Size_ascii (isBlank_ascii hc)]
    congr 1
    omega
  | @text c s canon hc _ ih =>
    intro start hasContent _
    rw [List.cons_append, domainLiteralEnd_cons, if_neg (ne_of_class hc rfl),
      if_neg (by rw [not_isBlank_of_isDtext hc]; decide), if_neg (ne_of_class hc rfl), if_pos hc,
      ih _ _ (.inl rfl), Utf8.len_cons, Utf8.utf8Size_ascii (isDtext_ascii hc)]
    congr 1
    omega
  | @pair c s canon hc _ ih =>
    intro start hasContent _
    rw [List.cons_append, domainLiteralEnd_cons, if_neg (by decide), if_neg (by decide),
      if_pos rfl]
    simp only [List.cons_append]
    rw [if_pos hc, ih _ _ (.inl rfl), Utf8.len_cons, Utf8.len_cons,
      Utf8.utf8Size_ascii (c := '\\') (by decide), Utf8.utf8Size_ascii (isEscapable_ascii hc)]
    congr 1
    omega

/-- The loop stops behind the closing bracket of a literal with content. -/
theorem domainLiteralEnd_eq_some {start next : Nat} {hasContent : Bool} {rest : Str}
    (h : domainLiteralEnd start hasContent (Utf8.encode rest) = some next) :
    ∃ s canon rest', rest = s ++ ']' :: rest' ∧ LiteralBody s canon ∧
      (hasContent = true ∨ canon ≠ []) ∧ next = start + Utf8.len s + 1 := by
  -- The loop takes one character, or a backslash with the character that it quotes.
  induction hlen : rest.length using Nat.strongRecOn generalizing start hasContent rest with
  | ind n ih =>
  subst hlen
  cases rest with
  | nil => cases h
  | cons c rest =>
    rw [domainLiteralEnd_cons] at h
    split at h
    · next hc =>
      subst hc
      split at h
      · next hcontent =>
        cases h
        exact ⟨[], [], rest, rfl, .nil, .inl hcontent, rfl⟩
      · cases h
    split at h
    · next hc =>
      obtain ⟨s, canon, rest', rfl, hs, hcontent, rfl⟩ := ih rest.length (by simp) h rfl
      refine ⟨c :: s, canon, rest', rfl, .blank hc hs, hcontent, ?_⟩
      rw [Utf8.len_cons, Utf8.utf8Size_ascii (isBlank_ascii hc)]
      omega
    split at h
    · next hc =>
      subst hc
      cases rest with
      | nil => cases h
      | cons d rest =>
        simp only at h
        split at h
        · next hd =>
          have hlt : rest.length < ('\\' :: d :: rest).length := by
            simp only [List.length_cons]
            omega
          obtain ⟨s, canon, rest', rfl, hs, -, rfl⟩ := ih rest.length hlt h rfl
          refine ⟨'\\' :: d :: s, '\\' :: d :: canon, rest', rfl, .pair hd hs, .inr (by simp), ?_⟩
          rw [Utf8.len_cons, Utf8.len_cons, Utf8.utf8Size_ascii (c := '\\') (by decide),
            Utf8.utf8Size_ascii (isEscapable_ascii hd)]
          omega
        · cases h
    split at h
    · next hc =>
      obtain ⟨s, canon, rest', rfl, hs, -, rfl⟩ := ih rest.length (by simp) h rfl
      refine ⟨c :: s, c :: canon, rest', rfl, .text hc hs, .inr (by simp), ?_⟩
      rw [Utf8.len_cons, Utf8.utf8Size_ascii (isDtext_ascii hc)]
      omega
    · cases h

theorem validObsDomainLiteral_iff {rest : Str} (h : At value index ('[' :: rest)) :
    validObsDomainLiteral field value index = .ok true ↔
      ∃ s canon b, rest = s ++ ']' :: b ∧ LiteralBody s canon ∧ canon ≠ [] ∧ Cfws b := by
  have hopen := h.step_ascii (by decide)
  unfold validObsDomainLiteral skipObsoleteMessageIdCfws
  rw [hopen.drop_encode]
  constructor
  · intro heq
    split at heq
    · cases heq
    · next next hnext =>
      obtain ⟨s, canon, rest', rfl, hs, hcontent, rfl⟩ := domainLiteralEnd_eq_some hnext
      have hclose : At value (index + 1 + Utf8.len s + 1) rest' :=
        hopen.advance.step_ascii (by decide)
      obtain ⟨stop, hstop, hend⟩ := map_eq_ok.mp heq
      rcases skipMessageIdCfws_cases field hclose with
        ⟨e, herr⟩ | ⟨b, rest, rfl, hb, -, hskip⟩
      · rw [herr] at hstop; cases hstop
      · rw [hskip] at hstop
        cases hstop
        rw [beq_iff_eq, length_eq_iff hclose.advance] at hend
        subst hend
        exact ⟨s, canon, b, by simp, hs, by simpa using hcontent, hb⟩
  · rintro ⟨s, canon, b, rfl, hs, hne, hb⟩
    have hclose : At value (index + 1 + Utf8.len s + 1) (b ++ []) := by
      simpa using hopen.advance.step_ascii (by decide)
    rw [domainLiteralEnd_of hs b _ _ (.inr hne)]
    simp only
    rw [skipMessageIdCfws_of field hb .nil hclose, Except.map,
      (length_eq_iff hclose.advance).mpr rfl,
      beq_self_eq_true]

/-! ## The two sides -/

theorem validObsIdLeftWithCfws_iff (left : Str) :
    validObsIdLeftWithCfws field left = .ok true ↔ ∃ canon, IdLeft left canon := by
  unfold validObsIdLeftWithCfws
  have hscan := scansWord_parseObsIdLeftWord field left
  constructor
  · intro h
    split at h
    · cases h
    · rcases validDotSeparatedFrom_cases parseObsIdLeftWord_gt hscan
        (At.start left) with ⟨e, herr⟩ | hfalse | hcanon
      · rw [herr] at h; cases h
      · rw [hfalse] at h; cases h
      · exact hcanon
  · rintro ⟨canon, hcanon⟩
    rw [if_neg (hcanon.ne_nil hscan.ne_nil)]
    exact validDotSeparatedFrom_of hscan hcanon (At.start left)

/-- The left side of an identifier in the obsolete form begins with a word. -/
theorem DotSeparated.exists_word {P : List Char → Prop} {s canon : Str}
    (h : DotSeparated P s canon) : ∃ a w rest, s = a ++ (w ++ rest) ∧ Cfws a ∧ P w := by
  cases h with
  | @last a _ b ha hw _ => exact ⟨a, canon, b, by simp, ha, hw⟩
  | @dot a w b s _ ha hw _ _ => exact ⟨a, w, b ++ '.' :: s, by simp, ha, hw⟩

theorem validObsIdRightWithCfws_iff (right : Str) :
    validObsIdRightWithCfws field right = .ok true ↔ ∃ canon, IdRight right canon := by
  have hscan := scansWord_parseObsDomainAtom field right
  have hstart := At.start right
  constructor
  · intro h
    unfold validObsIdRightWithCfws skipObsoleteMessageIdCfws at h
    split at h
    · cases h
    rcases skipMessageIdCfws_cases field hstart with
      ⟨e, herr⟩ | ⟨a, rest, rfl, ha, -, hskip⟩
    · rw [herr] at h; cases h
    rw [hskip] at h
    simp only at h
    split at h
    · next hbyte =>
      cases rest with
      | nil => rw [byteAt_nil hstart.advance] at hbyte; cases hbyte
      | cons c rest =>
        rw [byteAt_cons hstart.advance, Option.some.injEq] at hbyte
        obtain rfl : c = '[' := (leadByte_eq_iff (by decide) rfl).mp hbyte
        obtain ⟨s, canon, b, rfl, hs, hne, hb⟩ := (validObsDomainLiteral_iff hstart.advance).mp h
        exact ⟨_, .literal ha hs hne hb⟩
    · -- No bracket stands there, so the side is a domain of atoms.
      rcases validDotSeparatedFrom_cases parseObsDomainAtom_gt hscan hstart with
        ⟨e, herr⟩ | hfalse | ⟨canon, hcanon⟩
      · rw [herr] at h; cases h
      · rw [hfalse] at h; cases h
      · exact ⟨canon, .domain hcanon⟩
  · rintro ⟨canon, hright⟩
    unfold validObsIdRightWithCfws skipObsoleteMessageIdCfws
    cases hright with
    | domain h =>
      obtain ⟨a, w, rest, heq, ha, hw⟩ := DotSeparated.exists_word h
      have hafter : At right 0 (a ++ (w ++ rest)) := heq ▸ hstart
      -- an atom does not begin with a bracket
      have hbyte : ¬ byteAt right (0 + Utf8.len a) = some 0x5B := by
        obtain ⟨c, t, rfl⟩ := List.exists_cons_of_ne_nil hw.ne_nil
        rw [byteAt_cons hafter.advance, Option.some.injEq,
          leadByte_eq_iff (d := '[') (by decide) rfl]
        rintro rfl
        exact absurd (hw.2 '[' (by simp)) (by decide +kernel)
      rw [if_neg (h.ne_nil hscan.ne_nil),
        skipMessageIdCfws_of field ha (plain_word (.inl hw) _) hafter]
      simp only
      rw [if_neg hbyte]
      exact validDotSeparatedFrom_of hscan h hstart
    | @literal a s b canon ha hs hne hb =>
      have hplain : Plain ('[' :: (s ++ ']' :: b)) := plain_cons.mpr ⟨by decide, by decide⟩
      have hbyte : byteAt (a ++ '[' :: (s ++ ']' :: b)) (0 + Utf8.len a) = some 0x5B :=
        byteAt_cons hstart.advance
      rw [if_neg (by simp), skipMessageIdCfws_of field ha hplain hstart]
      simp only
      rw [if_pos hbyte]
      exact (validObsDomainLiteral_iff hstart.advance).mpr ⟨s, canon, b, rfl, hs, hne, hb⟩

end Notm.Mail
