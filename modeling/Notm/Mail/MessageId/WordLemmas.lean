import Notm.Mail.MessageId.ScanLemmas

/-!
# Words, domains and literals at a character boundary

What the word scanners of `rfc5322.rs` accept: atoms, quoted strings, words and atoms with
comments and white space around them and dots between them, and domain literals.
-/

namespace Notm.Mail

open Rust Rfc5322
open Utf8 (At leadByte)

variable {field : String} {value : Str} {index : Nat}

/-! ## Atoms -/

/-- The rest does not go on with `atext`. -/
def EndsAtom (rest : Str) : Prop := ∀ c ∈ rest.head?, Rfc5322.isAtext c.toNat = false

theorem takeWhile_isAtext {rest : Str} (h : At value index rest) :
    ((Utf8.encode value).drop index).takeWhile Notm.Mail.isAtext =
      Utf8.encode (rest.takeWhile fun c => Rfc5322.isAtext c.toNat) := by
  have hclass : Notm.Mail.isAtext = fun b => Rfc5322.isAtext b.toNat := funext isAtext_eq
  rw [h.drop_encode, hclass]
  exact Utf8.takeWhile_encode (fun _ => isAtext_of_ge) rest

theorem takeWhile_atom {w rest : Str} (hw : ∀ c ∈ w, Rfc5322.isAtext c.toNat = true)
    (hrest : EndsAtom rest) :
    (w ++ rest).takeWhile (fun c => Rfc5322.isAtext c.toNat) = w := by
  rw [List.takeWhile_append_of_pos (by simpa using hw)]
  cases rest with
  | nil => simp
  | cons c rest => rw [List.takeWhile_cons_of_neg (by simp [hrest c rfl]), List.append_nil]

theorem len_pos {w : Str} (h : w ≠ []) : Utf8.len w ≠ 0 := by
  cases w with
  | nil => exact absurd rfl h
  | cons c w =>
    have := c.utf8Size_pos
    rw [Utf8.len_cons]
    omega

theorem parseIdLeftAtom_of {w rest : Str} (hw : Atom w) (hrest : EndsAtom rest)
    (h : At value index (w ++ rest)) :
    parseIdLeftAtom (Utf8.encode value) index = some (index + Utf8.len w) := by
  unfold parseIdLeftAtom
  rw [takeWhile_isAtext h, takeWhile_atom hw.2 hrest]
  exact if_neg (len_pos hw.1)

theorem parseIdLeftAtom_cases {rest : Str} (h : At value index rest) :
    parseIdLeftAtom (Utf8.encode value) index = none ∨
      ∃ w rest', rest = w ++ rest' ∧ Atom w ∧ EndsAtom rest' ∧
        parseIdLeftAtom (Utf8.encode value) index = some (index + Utf8.len w) := by
  by_cases hw : rest.takeWhile (fun c => Rfc5322.isAtext c.toNat) = []
  · left
    unfold parseIdLeftAtom
    rw [takeWhile_isAtext h, hw]
    rfl
  · right
    have hsplit := List.takeWhile_append_dropWhile
      (p := fun c : Char => Rfc5322.isAtext c.toNat) (l := rest)
    have hatom : Atom (rest.takeWhile fun c => Rfc5322.isAtext c.toNat) :=
      ⟨hw, fun c hc => List.mem_takeWhile_imp (p := fun c : Char => Rfc5322.isAtext c.toNat) hc⟩
    have hends : EndsAtom (rest.dropWhile fun c => Rfc5322.isAtext c.toNat) := by
      intro c hc
      have := List.head?_dropWhile_not (fun c : Char => Rfc5322.isAtext c.toNat) rest
      rw [hc] at this
      simpa using this
    refine ⟨_, _, hsplit.symm, hatom, hends, parseIdLeftAtom_of hatom hends ?_⟩
    rwa [hsplit]

/-! ## Quoted strings -/

/-- One step of the loop over a quoted string, by the character at hand. -/
theorem quotedIdWordEnd_cons (start : Nat) (escaped : Bool) (c : Char) (rest : Str) :
    quotedIdWordEnd start escaped (Utf8.encode (c :: rest)) =
      if escaped then
        if Rfc5322.isEscapable c.toNat then
          quotedIdWordEnd (start + 1) false (Utf8.encode rest)
        else none
      else if c = '\\' then quotedIdWordEnd (start + 1) true (Utf8.encode rest)
      else if c = '"' then some (start + 1)
      else if isQtext c.toNat then quotedIdWordEnd (start + 1) false (Utf8.encode rest)
      else none := by
  have hslash : leadByte c = 0x5C ↔ c = '\\' := leadByte_eq_iff (by decide) rfl
  have hquote : leadByte c = 0x22 ↔ c = '"' := leadByte_eq_iff (by decide) rfl
  by_cases hasc : c.toNat < 128
  · rw [Utf8.encode_cons_ascii hasc, quotedIdWordEnd]
    simp only [isEscapable_leadByte, isQuotedText_leadByte, hslash, hquote]
  · obtain ⟨tail, htail⟩ := Utf8.encode_cons_eq c rest
    have hs : c ≠ '\\' := by rintro rfl; exact hasc (by decide)
    have hq : c ≠ '"' := by rintro rfl; exact hasc (by decide)
    rw [htail, quotedIdWordEnd]
    simp only [isEscapable_leadByte, isQuotedText_leadByte, hslash, hquote, if_neg hs, if_neg hq,
      isEscapable_of_ge (Nat.le_of_not_lt hasc), isQtext_of_ge (Nat.le_of_not_lt hasc)]
    rfl

theorem quotedIdWordEnd_of {body : Str} (hbody : QuotedBody body) (rest : Str) :
    ∀ start, quotedIdWordEnd start false (Utf8.encode (body ++ '"' :: rest)) =
      some (start + Utf8.len body + 1) := by
  induction hbody with
  | nil =>
    intro start
    rw [List.nil_append, quotedIdWordEnd_cons, if_neg (by decide), if_neg (by decide), if_pos rfl]
    rfl
  | @text c s hc _ ih =>
    intro start
    have hne : c ≠ '"' ∧ c ≠ '\\' := by
      constructor <;> (rintro rfl; exact absurd hc (by decide))
    rw [List.cons_append, quotedIdWordEnd_cons, if_neg (by decide), if_neg hne.2, if_neg hne.1,
      if_pos hc, ih, Utf8.len_cons, Utf8.utf8Size_ascii (isQtext_ascii hc)]
    congr 1
    omega
  | @pair c s hc _ ih =>
    intro start
    rw [List.cons_append, quotedIdWordEnd_cons, if_neg (by decide), if_pos rfl, List.cons_append,
      quotedIdWordEnd_cons, if_pos rfl, if_pos hc, ih, Utf8.len_cons, Utf8.len_cons,
      Utf8.utf8Size_ascii (c := '\\') (by decide), Utf8.utf8Size_ascii (isEscapable_ascii hc)]
    congr 1
    omega

/-- The loop stops behind the closing quote of a quoted string, whose backslash has been read
when `escaped` is set. -/
theorem quotedIdWordEnd_cases (rest : Str) : ∀ (start : Nat) (escaped : Bool),
    quotedIdWordEnd start escaped (Utf8.encode rest) = none ∨
      ∃ body rest', rest = body ++ '"' :: rest' ∧
        QuotedBody (if escaped then '\\' :: body else body) ∧
        quotedIdWordEnd start escaped (Utf8.encode rest) =
          some (start + Utf8.len body + 1) := by
  induction rest with
  | nil => exact fun _ _ => .inl rfl
  | cons c rest ih =>
    intro start escaped
    rw [quotedIdWordEnd_cons]
    -- Behind a backslash any character that can be escaped is taken, a quote among them.
    cases escaped with
    | true =>
      rw [if_pos rfl]
      cases hc : Rfc5322.isEscapable c.toNat with
      | false => exact .inl rfl
      | true =>
        rw [if_pos rfl]
        rcases ih (start + 1) false with hnone | ⟨body, rest', rfl, hbody, heq⟩
        · exact .inl hnone
        · refine .inr ⟨c :: body, rest', rfl, .pair hc hbody, ?_⟩
          rw [heq, Utf8.len_cons, Utf8.utf8Size_ascii (isEscapable_ascii hc)]
          congr 1
          omega
    | false =>
      rw [if_neg (by decide)]
      by_cases hslash : c = '\\'
      · subst hslash
        rw [if_pos rfl]
        rcases ih (start + 1) true with hnone | ⟨body, rest', rfl, hbody, heq⟩
        · exact .inl hnone
        · refine .inr ⟨'\\' :: body, rest', rfl, hbody, ?_⟩
          rw [heq, Utf8.len_cons, Utf8.utf8Size_ascii (c := '\\') (by decide)]
          congr 1
          omega
      rw [if_neg hslash]
      by_cases hquote : c = '"'
      · subst hquote
        rw [if_pos rfl]
        exact .inr ⟨[], rest, rfl, .nil, rfl⟩
      rw [if_neg hquote]
      cases hc : isQtext c.toNat with
      | false => exact .inl rfl
      | true =>
        rw [if_pos rfl]
        rcases ih (start + 1) false with hnone | ⟨body, rest', rfl, hbody, heq⟩
        · exact .inl hnone
        · refine .inr ⟨c :: body, rest', rfl, .text hc hbody, ?_⟩
          rw [heq, Utf8.len_cons, Utf8.utf8Size_ascii (isQtext_ascii hc)]
          congr 1
          omega

/-! ## Words -/

theorem wordAt_leadByte (c : Char) :
    wordAt (Utf8.encode value) index (leadByte c) =
      if c = '"' then parseQuotedIdWord (Utf8.encode value) index
      else parseIdLeftAtom (Utf8.encode value) index := by
  have hquote : leadByte c = 0x22 ↔ c = '"' := leadByte_eq_iff (by decide) rfl
  simp only [wordAt, hquote]

theorem wordAt_of {w rest : Str} (hw : Word w) (hrest : EndsAtom rest)
    (h : At value index (w ++ rest)) :
    ∃ c t, w = c :: t ∧
      wordAt (Utf8.encode value) index (leadByte c) = some (index + Utf8.len w) := by
  rcases hw with hatom | ⟨body, hbody, rfl⟩
  · obtain ⟨c, t, rfl⟩ := List.exists_cons_of_ne_nil hatom.1
    have hc : c ≠ '"' := by
      rintro rfl
      exact absurd (hatom.2 '"' (by simp)) (by decide +kernel)
    refine ⟨c, t, rfl, ?_⟩
    rw [wordAt_leadByte, if_neg hc]
    exact parseIdLeftAtom_of hatom hrest h
  · have hquote : At value index ('"' :: (body ++ '"' :: rest)) := by simpa using h
    refine ⟨'"', body ++ ['"'], rfl, ?_⟩
    rw [wordAt_leadByte, if_pos rfl, parseQuotedIdWord, (hquote.step_ascii (by decide)).drop_encode,
      quotedIdWordEnd_of hbody, Utf8.len_cons, Utf8.len_append, Utf8.len_cons,
      Utf8.utf8Size_ascii (c := '"') (by decide), Utf8.len_nil]
    congr 1
    omega

theorem wordAt_cases {c : Char} {rest : Str} (h : At value index (c :: rest)) :
    wordAt (Utf8.encode value) index (leadByte c) = none ∨
      ∃ w rest', c :: rest = w ++ rest' ∧ Word w ∧
        wordAt (Utf8.encode value) index (leadByte c) = some (index + Utf8.len w) := by
  rw [wordAt_leadByte]
  by_cases hc : c = '"'
  · subst hc
    rw [if_pos rfl, parseQuotedIdWord, (h.step_ascii (by decide)).drop_encode]
    rcases quotedIdWordEnd_cases rest (index + 1) false with
      hnone | ⟨body, rest', rfl, hbody, heq⟩
    · exact .inl hnone
    · refine .inr ⟨'"' :: (body ++ ['"']), rest', by simp, .inr ⟨body, hbody, rfl⟩, ?_⟩
      rw [heq, Utf8.len_cons, Utf8.len_append, Utf8.len_cons,
        Utf8.utf8Size_ascii (c := '"') (by decide), Utf8.len_nil]
      congr 1
      omega
  · rw [if_neg hc]
    rcases parseIdLeftAtom_cases h with hnone | ⟨w, rest', heq, hw, -, hnext⟩
    · exact .inl hnone
    · exact .inr ⟨w, rest', heq, .inl hw, hnext⟩

end Notm.Mail
