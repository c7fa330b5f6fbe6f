import Notm.Mail.MessageId.WordLemmas

/-!
# The strict forms

`valid_dot_atom`, `valid_no_fold_literal` and `valid_obs_id_left` look at the bytes of a side
without comments or white space: of a modern identifier, or of a canonical one.
-/

namespace Notm.Mail

open Rust Rfc5322
open Utf8 (At leadByte)

variable {value : Str} {index : Nat}

/-! ## `valid_obs_id_left` -/

theorem parseIdLeftWord_of {w rest : Str} (hw : Word w) (hrest : EndsAtom rest)
    (h : At value index (w ++ rest)) :
    parseIdLeftWord (Utf8.encode value) index = some (index + Utf8.len w) := by
  obtain ⟨c, t, rfl, hword⟩ := wordAt_of hw hrest h
  have hbyte : (Utf8.encode value)[index]? = some (leadByte c) := h.get_cons
  rw [parseIdLeftWord, hbyte]
  simpa only [wordAt, Option.some.injEq] using hword

theorem endsAtom_dot (rest : Str) : EndsAtom ('.' :: rest) := by
  intro c hc
  cases hc
  decide +kernel

theorem validObsIdLeftFrom_of {s : Str} (hs : Dotted Word s) :
    ∀ {index : Nat}, At value index s →
      validObsIdLeftFrom (Utf8.encode value) index = true := by
  induction hs with
  | @last w hw =>
    intro index h
    have hsplit : At value index (w ++ []) := by simpa using h
    have hword := parseIdLeftWord_of hw (by simp [EndsAtom]) hsplit
    rw [validObsIdLeftFrom]
    split
    · next hnone => rw [hword] at hnone; cases hnone
    · next next hnext =>
      rw [hword] at hnext
      cases hnext
      exact if_pos ((length_eq_iff hsplit.advance).mpr rfl)
  | @dot w s hw hs ih =>
    intro index h
    have hword := parseIdLeftWord_of hw (endsAtom_dot s) h
    have hdot := h.advance
    have hrest := hdot.step_ascii (by decide)
    have hne : s ≠ [] := hs.separated.ne_nil fun _ => Word.ne_nil
    rw [validObsIdLeftFrom]
    split
    · next hnone => rw [hword] at hnone; cases hnone
    · next next hnext =>
      rw [hword] at hnext
      cases hnext
      have hbyte : (Utf8.encode value)[index + Utf8.len w]? = some 0x2E := hdot.get_cons
      rw [if_neg (by rw [length_eq_iff hdot]; simp), dif_pos hbyte,
        if_neg (by rw [length_eq_iff hrest]; exact hne)]
      exact ih hrest

theorem validObsIdLeft_of {left : Str} (h : Dotted Word left) :
    validObsIdLeft (Utf8.encode left) = true := by
  have hne : left ≠ [] := h.separated.ne_nil fun _ => Word.ne_nil
  rw [validObsIdLeft, validObsIdLeftFrom_of h (At.start left), Bool.and_true, decide_eq_true_eq]
  exact Utf8.encode_ne_nil hne

/-! ## `valid_dot_atom` -/

/-- Two dots in a row. -/
abbrev DoubleDot (bytes : Bytes) : Prop := [0x2E, 0x2E] <:+: bytes

theorem doubleDot_cons (byte : UInt8) (bytes : Bytes) :
    DoubleDot (byte :: bytes) ↔ byte = 0x2E ∧ bytes.head? = some 0x2E ∨ DoubleDot bytes := by
  rw [DoubleDot, List.infix_cons_iff]
  refine or_congr ?_ Iff.rfl
  cases bytes with
  | nil => simp
  | cons b bytes => simp [List.cons_prefix_cons, eq_comm]

theorem doubleDot_append {w bytes : Bytes} (hw : 0x2E ∉ w) :
    DoubleDot (w ++ bytes) ↔ DoubleDot bytes := by
  induction w with
  | nil => rfl
  | cons b w ih =>
    have hb : b ≠ 0x2E := fun h => hw (by simp [h])
    rw [List.cons_append, doubleDot_cons, ih fun h => hw (by simp [h])]
    simp [hb]

theorem isAtext_dot : Notm.Mail.isAtext 0x2E = false := by decide +kernel

theorem encode_atom {w : Str} (hw : ∀ c ∈ w, Rfc5322.isAtext c.toNat = true) :
    ∀ b ∈ Utf8.encode w, Notm.Mail.isAtext b = true := by
  intro b hb
  rw [isAtext_eq]
  obtain ⟨c, hc, hbc⟩ := List.mem_flatMap.mp hb
  have hasc := isAtext_ascii (hw c hc)
  rw [Utf8.encodeChar_ascii hasc, List.mem_singleton] at hbc
  rw [hbc, UInt8.toNat_ofNat', Nat.mod_eq_of_lt (by omega)]
  exact hw c hc

theorem dot_not_mem_encode_atom {w : Str} (hw : ∀ c ∈ w, Rfc5322.isAtext c.toNat = true) :
    0x2E ∉ Utf8.encode w := by
  intro h
  have := encode_atom hw _ h
  rw [isAtext_dot] at this
  exact absurd this (by decide)

/-- The checks of `valid_dot_atom` one by one. -/
structure DotAtomBytes (bytes : Bytes) : Prop where
  ne_nil : bytes ≠ []
  head : bytes.head? ≠ some 0x2E
  last : bytes.getLast? ≠ some 0x2E
  apart : ¬ DoubleDot bytes
  all : ∀ b ∈ bytes, b = 0x2E ∨ Notm.Mail.isAtext b = true

theorem validDotAtom_iff (bytes : Bytes) : validDotAtom bytes = true ↔ DotAtomBytes bytes := by
  simp only [validDotAtom, Bool.and_eq_true, decide_eq_true_eq, bne_iff_ne, Bool.not_eq_true',
    decide_eq_false_iff_not, List.all_eq_true, Bool.or_eq_true, beq_iff_eq]
  exact ⟨fun ⟨⟨⟨⟨h1, h2⟩, h3⟩, h4⟩, h5⟩ => ⟨h1, h2, h3, h4, h5⟩,
    fun ⟨h1, h2, h3, h4, h5⟩ => ⟨⟨⟨⟨h1, h2⟩, h3⟩, h4⟩, h5⟩⟩

theorem dotAtomBytes_of {s : Str} (hs : DotAtom s) : DotAtomBytes (Utf8.encode s) := by
  induction hs with
  | @last w hw =>
    have hdot := dot_not_mem_encode_atom hw.2
    have hapart : DoubleDot (Utf8.encode w ++ []) ↔ DoubleDot [] := doubleDot_append hdot
    rw [List.append_nil] at hapart
    refine ⟨Utf8.encode_ne_nil hw.1, ?_, ?_, ?_, fun b hb => .inr (encode_atom hw.2 b hb)⟩
    · exact fun h => hdot (List.mem_of_mem_head? h)
    · exact fun h => hdot (List.mem_of_mem_getLast? h)
    · rw [hapart]
      simp [DoubleDot]
  | @dot w s hw hs ih =>
    have hdot := dot_not_mem_encode_atom hw.2
    obtain ⟨b, t, hbt⟩ := List.exists_cons_of_ne_nil (Utf8.encode_ne_nil hw.1)
    have henc : Utf8.encode (w ++ '.' :: s) = Utf8.encode w ++ 0x2E :: Utf8.encode s := by
      rw [Utf8.encode_append, Utf8.encode_cons_ascii (by decide)]
      rfl
    rw [henc]
    refine ⟨by simp, ?_, ?_, ?_, ?_⟩
    · rw [hbt, List.cons_append, List.head?_cons]
      rintro h
      cases h
      exact hdot (by simp [hbt])
    · rw [List.getLast?_append_of_ne_nil _ (by simp), List.getLast?_cons]
      have hlast := ih.last
      cases hl : (Utf8.encode s).getLast? with
      | none => exact absurd (List.getLast?_eq_none_iff.mp hl) ih.ne_nil
      | some l => rwa [hl] at hlast
    · rw [doubleDot_append hdot, doubleDot_cons]
      exact not_or.mpr ⟨fun h => ih.head h.2, ih.apart⟩
    · intro b hb
      rcases List.mem_append.mp hb with hb | hb
      · exact .inr (encode_atom hw.2 b hb)
      · rcases List.mem_cons.mp hb with rfl | hb
        · exact .inl rfl
        · exact ih.all b hb

theorem dotAtom_of_bytes {s : Str} (h : DotAtomBytes (Utf8.encode s)) : DotAtom s := by
  induction hlen : s.length using Nat.strongRecOn generalizing s with
  | ind n ih =>
  subst hlen
  -- the first atom, and what is left behind it
  rcases parseIdLeftAtom_cases (At.start s) with hnone | ⟨w, rest, rfl, hw, hends, -⟩
  · exfalso
    cases s with
    | nil => exact h.ne_nil rfl
    | cons c s =>
      obtain ⟨tail, htail⟩ := Utf8.encode_cons_eq c s
      have hlead : Notm.Mail.isAtext (leadByte c) = false := by
        cases hatext : Notm.Mail.isAtext (leadByte c) with
        | false => rfl
        | true =>
          simp only [parseIdLeftAtom, List.drop_zero, htail, List.takeWhile_cons_of_pos hatext,
            List.length_cons] at hnone
          simp at hnone
      rcases h.all (leadByte c) (by simp [htail]) with hdot | hatext
      · exact h.head (by rw [htail, hdot]; rfl)
      · rw [hlead] at hatext
        exact absurd hatext (by decide)
  cases rest with
  | nil =>
    rw [List.append_nil]
    exact .last hw
  | cons c rest =>
    have hc : c = '.' := by
      obtain ⟨tail, htail⟩ := Utf8.encode_cons_eq c rest
      rcases h.all (leadByte c) (by simp [htail]) with hdot | hatext
      · exact (leadByte_eq_iff (d := '.') (by decide) rfl).mp hdot
      · rw [isAtext_leadByte, hends c rfl] at hatext
        exact absurd hatext (by decide)
    subst hc
    have henc : Utf8.encode (w ++ '.' :: rest) = Utf8.encode w ++ 0x2E :: Utf8.encode rest := by
      rw [Utf8.encode_append, Utf8.encode_cons_ascii (by decide)]
      rfl
    rw [henc] at h
    have hapart := h.apart
    rw [doubleDot_append (dot_not_mem_encode_atom hw.2), doubleDot_cons, not_or] at hapart
    have hne : Utf8.encode rest ≠ [] := by
      intro hnil
      exact h.last (by rw [hnil, List.getLast?_append_of_ne_nil _ (by simp)]; rfl)
    have hlt : rest.length < (w ++ '.' :: rest).length := by
      simp only [List.length_append, List.length_cons]
      omega
    refine .dot hw (ih rest.length hlt ⟨hne, ?_, ?_, hapart.2, ?_⟩ rfl)
    · exact fun hhead => hapart.1 ⟨rfl, hhead⟩
    · have hlast := h.last
      rw [List.getLast?_append_of_ne_nil _ (by simp), List.getLast?_cons] at hlast
      cases hl : (Utf8.encode rest).getLast? with
      | none => exact absurd (List.getLast?_eq_none_iff.mp hl) hne
      | some l => rwa [hl] at hlast
    · exact fun b hb => h.all b (by simp [hb])

theorem validDotAtom_encode (s : Str) : validDotAtom (Utf8.encode s) = true ↔ DotAtom s :=
  (validDotAtom_iff _).trans ⟨dotAtom_of_bytes, dotAtomBytes_of⟩

/-! ## `valid_id_right` -/

theorem validLiteralContent_of {s canon : Str} (hs : LiteralBody s canon) :
    validLiteralContent (Utf8.encode canon) = true := by
  induction hs with
  | nil => rfl
  | blank _ _ ih => exact ih
  | @text c s canon hc _ ih =>
    have hslash : leadByte c ≠ 0x5C := by
      rw [ne_eq, leadByte_eq_iff (d := '\\') (by decide) rfl]
      rintro rfl
      exact absurd hc (by decide)
    rw [Utf8.encode_cons_ascii (isDtext_ascii hc), validLiteralContent.eq_def]
    simp only [if_neg hslash, isLiteralText_leadByte, hc, ih, Bool.and_self]
  | @pair c s canon hc _ ih =>
    rw [Utf8.encode_cons_ascii (by decide), Utf8.encode_cons_ascii (isEscapable_ascii hc),
      validLiteralContent.eq_def]
    simp only [isEscapable_leadByte, hc, ih, Bool.and_self]
    rfl

theorem literalBody_of_content {s : Str} (h : validLiteralContent (Utf8.encode s) = true) :
    LiteralBody s s := by
  induction hlen : s.length using Nat.strongRecOn generalizing s with
  | ind n ih =>
  subst hlen
  cases s with
  | nil => exact .nil
  | cons c s =>
    have hslash : leadByte c = 0x5C ↔ c = '\\' := leadByte_eq_iff (by decide) rfl
    by_cases hc : c = '\\'
    · subst hc
      rw [Utf8.encode_cons_ascii (by decide), validLiteralContent.eq_def] at h
      simp only [hslash, if_true] at h
      cases s with
      | nil => cases h
      | cons d s =>
        obtain ⟨tail, htail⟩ := Utf8.encode_cons_eq d s
        simp only [htail, isEscapable_leadByte, Bool.and_eq_true] at h
        have hd := isEscapable_ascii h.1
        rw [Utf8.encode_cons_ascii hd, List.cons.injEq] at htail
        have hlt : s.length < ('\\' :: d :: s).length := by
          simp only [List.length_cons]
          omega
        exact .pair h.1 (ih s.length hlt (by rw [htail.2]; exact h.2) rfl)
    · obtain ⟨tail, htail⟩ := Utf8.encode_cons_eq c s
      rw [htail, validLiteralContent.eq_def] at h
      simp only [hslash, if_neg hc, isLiteralText_leadByte, Bool.and_eq_true] at h
      rw [Utf8.encode_cons_ascii (isDtext_ascii h.1), List.cons.injEq] at htail
      exact .text h.1 (ih s.length (by simp) (by rw [htail.2]; exact h.2) rfl)

/-- The last byte of a text is an ASCII byte when its last character is that one. -/
theorem getLast?_encode_eq_iff {d : Char} {b : UInt8} (hd : d.toNat < 128)
    (hb : b.toNat = d.toNat) (s : Str) :
    (Utf8.encode s).getLast? = some b ↔ s.getLast? = some d := by
  induction s using List.reverseRecOn with
  | nil => simp
  | append_singleton s c =>
    rw [Utf8.encode_append, List.getLast?_concat, Option.some.injEq]
    by_cases hasc : c.toNat < 128
    · rw [Utf8.encode_cons_ascii hasc, Utf8.encode_nil, List.getLast?_concat, Option.some.injEq]
      exact leadByte_eq_iff hd hb
    · have hne : c ≠ d := by rintro rfl; exact hasc hd
      rw [List.getLast?_append_of_ne_nil _ (Utf8.encode_ne_nil (by simp))]
      refine iff_of_false (fun h => ?_) hne
      have hmem : b ∈ String.utf8EncodeChar c := by
        simpa using List.mem_of_getLast? h
      have := Utf8.encodeChar_not_ascii (Nat.le_of_not_lt hasc) b hmem
      omega

theorem validNoFoldLiteral_encode (s : Str) :
    validNoFoldLiteral (Utf8.encode s) = true ↔ NoFoldLiteral s := by
  constructor
  · intro h
    unfold validNoFoldLiteral at h
    split at h
    · cases h
    next hshape =>
    simp only [Bool.or_eq_true, decide_eq_true_eq, bne_iff_ne, not_or, not_not] at hshape
    -- The three checks on the ends: at least one byte between an opening and a closing bracket.
    obtain ⟨⟨hlen, hhead⟩, hlast⟩ := hshape
    cases s with
    | nil => cases hhead
    | cons c s =>
      obtain ⟨tail, htail⟩ := Utf8.encode_cons_eq c s
      rw [htail, List.head?_cons, Option.some.injEq] at hhead
      obtain rfl : c = '[' := (leadByte_eq_iff (by decide) rfl).mp hhead
      rw [getLast?_encode_eq_iff (d := ']') (by decide) rfl] at hlast
      obtain ⟨s, hs⟩ := List.getLast?_eq_some_iff.mp hlast
      cases s with
      | nil => cases hs
      | cons c s =>
        rw [List.cons_append, List.cons.injEq] at hs
        obtain ⟨rfl, rfl⟩ := hs
        rw [Utf8.encode_bracketed (by decide) (by decide)] at h hlen
        rw [List.tail_cons, List.dropLast_concat] at h
        refine .mk (literalBody_of_content h) ?_
        rintro rfl
        simp at hlen
  · intro h
    cases h with
    | @mk content hs hne =>
    have hpos := List.length_pos_of_ne_nil (Utf8.encode_ne_nil hne)
    have hlen : ¬ (leadByte '[' :: (Utf8.encode content ++ [leadByte ']'])).length < 3 := by
      simp only [List.length_cons, List.length_append, List.length_nil]
      omega
    have hlast : (leadByte '[' :: (Utf8.encode content ++ [leadByte ']'])).getLast? =
        some 0x5D := by
      rw [← List.cons_append, List.getLast?_concat]
      rfl
    unfold validNoFoldLiteral
    rw [Utf8.encode_bracketed (by decide) (by decide), hlast, decide_eq_false hlen, List.head?_cons,
      if_neg (by decide), List.tail_cons, List.dropLast_concat]
    exact validLiteralContent_of hs

theorem validIdRight_encode (right : Str) :
    validIdRight (Utf8.encode right) = true ↔ DotAtom right ∨ NoFoldLiteral right := by
  unfold validIdRight
  split
  · next hhead =>
    rw [validNoFoldLiteral_encode]
    refine ⟨.inr, ?_⟩
    rintro (hatom | hliteral)
    · have hall := (dotAtomBytes_of hatom).all 0x5B (List.mem_of_mem_head? hhead)
      exact absurd hall (by decide +kernel)
    · exact hliteral
  · next hhead =>
    rw [validDotAtom_encode]
    refine ⟨.inl, ?_⟩
    rintro (hatom | hliteral)
    · exact hatom
    · cases hliteral
      rw [Utf8.encode_bracketed (by decide) (by decide)] at hhead
      exact absurd rfl hhead

end Notm.Mail
