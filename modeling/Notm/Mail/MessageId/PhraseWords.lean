import Notm.Mail.MessageId.Sequence
import Notm.Mail.MessageId.WordLemmas

/-!
# The words of obsolete phrases

The words that may stand between the identifiers of In-Reply-To and References: atoms and quoted
strings with characters beyond ASCII in them, and encoded words, which are not decoded.

For each kind of word there is a lemma that the scanner passes over it (`_of`), and one that it
passes over nothing else (`_cases`, `_eq_ok`).
-/

namespace Notm.Mail

open Rust Rfc5322
open Utf8 (At leadByte)

variable {field : String} {value : Str} {index : Nat}

/-! ## Atoms -/

/-- A character of an atom in a phrase. -/
def isPhraseAtomChar (c : Char) : Bool :=
  if c.toNat < 128 then Rfc5322.isAtext c.toNat else !isControl c

/-- An atom of a phrase goes on until an ASCII character that is not `atext`. -/
def EndsPhraseAtom (rest : Str) : Prop :=
  ∀ c ∈ rest.head?, c.toNat < 128 ∧ Rfc5322.isAtext c.toNat = false

theorem isAtext_ofNat {c : Char} (h : c.toNat < 128) :
    Notm.Mail.isAtext (UInt8.ofNat c.toNat) = Rfc5322.isAtext c.toNat := by
  rw [isAtext_eq, UInt8.toNat_ofNat', Nat.mod_eq_of_lt (by omega)]

theorem threadingAtomLen_of {w rest : Str} (hw : ∀ c ∈ w, isPhraseAtomChar c = true)
    (hrest : EndsPhraseAtom rest) : threadingAtomLen (w ++ rest) = some (Utf8.len w) := by
  induction w with
  | nil =>
    cases rest with
    | nil => rfl
    | cons c rest =>
      obtain ⟨hasc, hatext⟩ := hrest c rfl
      rw [List.nil_append, threadingAtomLen, if_pos hasc, isAtext_ofNat hasc, hatext]
      rfl
  | cons c w ih =>
    have hc := hw c (by simp)
    have hrec := ih fun c hc => hw c (by simp [hc])
    rw [List.cons_append, threadingAtomLen, hrec]
    rw [isPhraseAtomChar] at hc
    split at hc
    · next hasc =>
      rw [if_pos hasc, isAtext_ofNat hasc, hc, if_pos rfl, Utf8.len_cons]
      rfl
    · next hasc =>
      rw [Bool.not_eq_true'] at hc
      rw [if_neg hasc, hc, if_neg (by decide), Utf8.len_cons]
      rfl

theorem threadingAtomLen_eq_some {rest : Str} {length : Nat}
    (h : threadingAtomLen rest = some length) :
    ∃ w rest', rest = w ++ rest' ∧ (∀ c ∈ w, isPhraseAtomChar c = true) ∧ EndsPhraseAtom rest' ∧
      length = Utf8.len w := by
  induction rest generalizing length with
  | nil =>
    cases h
    exact ⟨[], [], rfl, by simp, by simp [EndsPhraseAtom], rfl⟩
  | cons c rest ih =>
    have hgo : isPhraseAtomChar c = true → (threadingAtomLen rest).map (c.utf8Size + ·) =
        some length → ∃ w rest', c :: rest = w ++ rest' ∧
          (∀ c ∈ w, isPhraseAtomChar c = true) ∧ EndsPhraseAtom rest' ∧ length = Utf8.len w := by
      intro hc hmap
      obtain ⟨length', hlen, rfl⟩ := Option.map_eq_some_iff.mp hmap
      obtain ⟨w, rest', rfl, hw, hends, rfl⟩ := ih hlen
      exact ⟨c :: w, rest', rfl, by simpa using ⟨hc, hw⟩, hends, by rw [Utf8.len_cons]⟩
    rw [threadingAtomLen] at h
    split at h
    · next hasc =>
      rw [isAtext_ofNat hasc] at h
      split at h
      · next hatext => exact hgo (by rw [isPhraseAtomChar, if_pos hasc, hatext]) h
      · next hatext =>
        cases h
        refine ⟨[], c :: rest, rfl, by simp, ?_, rfl⟩
        intro d hd
        cases hd
        exact ⟨hasc, by simpa using hatext⟩
    · next hasc =>
      split at h
      · cases h
      · next hcontrol =>
        exact hgo (by rw [isPhraseAtomChar, if_neg hasc]; simpa using hcontrol) h

theorem sliceFrom_at {rest : Str} (h : At value index rest) : sliceFrom value index = .ok rest := by
  rw [sliceFrom, h.dropBytes]
  rfl

theorem parseObsoleteThreadingAtom_of {w rest : Str} (hne : w ≠ [])
    (hw : ∀ c ∈ w, isPhraseAtomChar c = true) (hrest : EndsPhraseAtom rest)
    (h : At value index (w ++ rest)) :
    parseObsoleteThreadingAtom value index = .ok (some (index + Utf8.len w)) := by
  rw [parseObsoleteThreadingAtom, sliceFrom_at h]
  simp only [bind, Except.bind, threadingAtomLen_of hw hrest, Option.bind, if_neg (len_pos hne)]
  rfl

theorem parseObsoleteThreadingAtom_cases {rest : Str} (h : At value index rest) :
    parseObsoleteThreadingAtom value index = .ok none ∨
      ∃ w rest', rest = w ++ rest' ∧ w ≠ [] ∧ (∀ c ∈ w, isPhraseAtomChar c = true) ∧
        EndsPhraseAtom rest' ∧
        parseObsoleteThreadingAtom value index = .ok (some (index + Utf8.len w)) := by
  cases hlen : threadingAtomLen rest with
  | none =>
    left
    rw [parseObsoleteThreadingAtom, sliceFrom_at h]
    simp only [bind, Except.bind, hlen]
    rfl
  | some length =>
    obtain ⟨w, rest', rfl, hw, hends, rfl⟩ := threadingAtomLen_eq_some hlen
    by_cases hne : w = []
    · subst hne
      left
      rw [parseObsoleteThreadingAtom, sliceFrom_at h]
      simp only [bind, Except.bind, hlen]
      rfl
    · exact .inr ⟨w, rest', rfl, hne, hw, hends, parseObsoleteThreadingAtom_of hne hw hends h⟩

/-! ## Quoted words -/

/-- A character that a quoted word of a phrase holds unescaped. -/
def isPhraseQuotedChar (c : Char) : Bool :=
  if c.toNat < 128 then isQtext c.toNat else !isControl c

/-- What stands between the quotes of a quoted word in a phrase. -/
inductive PhraseQuotedBody : Str → Prop where
  | nil : PhraseQuotedBody []
  | text {c : Char} {s : Str} (hc : isPhraseQuotedChar c = true) (hs : PhraseQuotedBody s) :
      PhraseQuotedBody (c :: s)
  | pair {c : Char} {s : Str} (hc : Rfc5322.isEscapable c.toNat = true)
      (hs : PhraseQuotedBody s) : PhraseQuotedBody ('\\' :: c :: s)

theorem isPhraseQuotedChar_ne {c : Char} (h : isPhraseQuotedChar c = true) :
    c ≠ '"' ∧ c ≠ '\\' := by
  constructor <;> (rintro rfl; exact absurd h (by decide))

/-- One step of the loop over a quoted word, by the character at the offset. -/
theorem threadingQuotedWordFrom_cons {c : Char} {rest : Str} (h : At value index (c :: rest)) :
    threadingQuotedWordFrom value index =
      if c = '\\' then
        match rest with
        | [] => .ok none
        | d :: _ =>
          if Rfc5322.isEscapable d.toNat then threadingQuotedWordFrom value (index + 2)
          else .ok none
      else if c = '"' then .ok (some (index + 1))
      else if isPhraseQuotedChar c then threadingQuotedWordFrom value (index + c.utf8Size)
      else .ok none := by
  have hslash : leadByte c = 0x5C ↔ c = '\\' := leadByte_eq_iff (by decide) rfl
  have hquote : leadByte c = 0x22 ↔ c = '"' := leadByte_eq_iff (by decide) rfl
  rw [threadingQuotedWordFrom]
  split
  · next hnone => rw [byteAt_cons h] at hnone; cases hnone
  next byte hbyte =>
  rw [byteAt_cons h] at hbyte
  cases hbyte
  simp only [hslash, hquote, isQuotedText_leadByte, leadByte_lt_iff']
  by_cases h1 : c = '\\'
  · subst h1
    rw [if_pos rfl, if_pos rfl]
    have hafter := h.step_ascii (by decide)
    cases rest with
    | nil => rw [byteAt_nil hafter]
    | cons d rest =>
      rw [byteAt_cons hafter]
      simp only [isEscapable_leadByte]
  rw [if_neg h1, if_neg h1]
  by_cases h2 : c = '"'
  · rw [if_pos h2, if_pos h2]
  rw [if_neg h2, if_neg h2, isPhraseQuotedChar]
  by_cases hasc : c.toNat < 128
  · rw [if_pos hasc, if_pos hasc, Utf8.utf8Size_ascii hasc]
  · rw [if_neg hasc, if_neg hasc, isQtext_of_ge (Nat.le_of_not_lt hasc), charFrom_cons h]
    simp only
    cases isControl c <;> rfl

theorem threadingQuotedWordFrom_nil (h : At value index []) :
    threadingQuotedWordFrom value index = .ok none := by
  rw [threadingQuotedWordFrom]
  split
  · rfl
  · next byte hbyte => rw [byteAt_nil h] at hbyte; cases hbyte

theorem threadingQuotedWordFrom_of {body rest : Str} (hbody : PhraseQuotedBody body) :
    ∀ {index : Nat}, At value index (body ++ '"' :: rest) →
      threadingQuotedWordFrom value index = .ok (some (index + Utf8.len body + 1)) := by
  induction hbody with
  | nil =>
    intro index h
    rw [threadingQuotedWordFrom_cons h, if_neg (by decide), if_pos rfl]
    rfl
  | @text c s hc _ ih =>
    intro index h
    have hne := isPhraseQuotedChar_ne hc
    rw [threadingQuotedWordFrom_cons h, if_neg hne.2, if_neg hne.1, if_pos hc, ih h.step,
      Utf8.len_cons, Nat.add_assoc index]
  | @pair c s hc _ ih =>
    intro index h
    have hslash : At value index ('\\' :: c :: (s ++ '"' :: rest)) := h
    have hafter := (hslash.step_ascii (by decide)).step_ascii (isEscapable_ascii hc)
    rw [threadingQuotedWordFrom_cons hslash, if_pos rfl]
    simp only
    rw [if_pos hc, ih hafter, Utf8.len_cons, Utf8.len_cons,
      Utf8.utf8Size_ascii (c := '\\') (by decide), Utf8.utf8Size_ascii (isEscapable_ascii hc)]
    congr 2
    omega

theorem threadingQuotedWordFrom_cases {rest : Str} (h : At value index rest) :
    threadingQuotedWordFrom value index = .ok none ∨
      ∃ body rest', rest = body ++ '"' :: rest' ∧ PhraseQuotedBody body ∧
        threadingQuotedWordFrom value index = .ok (some (index + Utf8.len body + 1)) := by
  induction hlen : rest.length using Nat.strongRecOn generalizing index rest with
  | ind n ih =>
  subst hlen
  cases rest with
  | nil => exact .inl (threadingQuotedWordFrom_nil h)
  | cons c rest =>
    rw [threadingQuotedWordFrom_cons h]
    -- a backslash takes the next character with it, which is missing at the end of the text
    by_cases h1 : c = '\\'
    · subst h1
      rw [if_pos rfl]
      cases rest with
      | nil => exact .inl rfl
      | cons d rest =>
        simp only
        cases hd : Rfc5322.isEscapable d.toNat with
        | false => exact .inl rfl
        | true =>
          have hafter := (h.step_ascii (by decide)).step_ascii (isEscapable_ascii hd)
          have hlt : rest.length < ('\\' :: d :: rest).length := by
            simp only [List.length_cons]
            omega
          rw [if_pos rfl]
          rcases ih rest.length hlt hafter rfl with hnone | ⟨body, rest', rfl, hbody, heq⟩
          · exact .inl hnone
          · refine .inr ⟨'\\' :: d :: body, rest', rfl, .pair hd hbody, ?_⟩
            rw [heq, Utf8.len_cons, Utf8.len_cons, Utf8.utf8Size_ascii (c := '\\') (by decide),
              Utf8.utf8Size_ascii (isEscapable_ascii hd)]
            congr 2
            omega
    rw [if_neg h1]
    by_cases h2 : c = '"'
    · subst h2
      exact .inr ⟨[], rest, rfl, .nil, if_pos rfl⟩
    rw [if_neg h2]
    cases hc : isPhraseQuotedChar c with
    | false => exact .inl rfl
    | true =>
      rw [if_pos rfl]
      rcases ih rest.length (by simp) h.step rfl with hnone | ⟨body, rest', rfl, hbody, heq⟩
      · exact .inl hnone
      · refine .inr ⟨c :: body, rest', rfl, .text hc hbody, ?_⟩
        rw [heq, Utf8.len_cons, Nat.add_assoc index]

/-! ## Encoded words -/

/-- A character of the charset of an encoded word. -/
def isCharsetCode (code : Nat) : Bool :=
  isAsciiGraphic code && !(code ∈ ("()<>@,;:\\\"/[]?=".toList.map Char.toNat))

/-- A character of the encoding of an encoded word. -/
def isEncodingCode (code : Nat) : Bool :=
  isAsciiGraphic code && !(code ∈ ("()<>@,;:\\\"/[]?.=".toList.map Char.toNat))

/-- A character of the text of an encoded word. -/
def isEncodedTextCode (code : Nat) : Bool := isAsciiGraphic code && code != 0x3F

/-- `=?charset?encoding?text?=`. -/
def encodedWord (charset encoding text : Str) : Str :=
  '=' :: '?' :: (charset ++ '?' :: (encoding ++ '?' :: (text ++ ['?', '='])))

/-- The syntax of an encoded word, whatever it encodes. -/
structure EncodedWordSyntax (charset encoding text : Str) : Prop where
  charset_ne_nil : charset ≠ []
  charset_code : ∀ c ∈ charset, isCharsetCode c.toNat = true
  encoding_ne_nil : encoding ≠ []
  encoding_code : ∀ c ∈ encoding, isEncodingCode c.toNat = true
  text_ne_nil : text ≠ []
  text_code : ∀ c ∈ text, isEncodedTextCode c.toNat = true
  length_le : Utf8.len (encodedWord charset encoding text) ≤ 75

/-- Nothing, or a blank, stands before the offset. -/
def startsWord (value : Str) (index : Nat) : Bool :=
  index == 0 || (byteAt value (index - 1)).any fun b => isBlank b.toNat

/-- Nothing, or a blank, comes next. -/
def EndsEncodedWord (rest : Str) : Prop := ∀ c ∈ rest.head?, isBlank c.toNat = true

/-- A test on the bytes of a token, none of them beyond ASCII, is a test on its characters. -/
theorem validToken_encode {p : UInt8 → Bool} {q : Nat → Bool}
    (hclass : ∀ n < 256, p (UInt8.ofNat n) = q n) (hhigh : ∀ n, 128 ≤ n → q n = false)
    (token : Str) :
    (decide (Utf8.encode token ≠ []) && (Utf8.encode token).all p) = true ↔
      token ≠ [] ∧ ∀ c ∈ token, q c.toNat = true := by
  have hbyte : p = fun b => q b.toNat := funext fun b => by simpa using hclass b.toNat b.toNat_lt
  have hnil : Utf8.encode token = [] ↔ token = [] :=
    ⟨fun h => by by_contra hne; exact Utf8.encode_ne_nil hne h, fun h => by rw [h]; rfl⟩
  rw [hbyte, Utf8.all_encode hhigh]
  simp only [Bool.and_eq_true, decide_eq_true_eq, List.all_eq_true, ne_eq, hnil]

theorem validRfc2047CharsetToken_encode (charset : Str) :
    validRfc2047CharsetToken (Utf8.encode charset) = true ↔
      charset ≠ [] ∧ ∀ c ∈ charset, isCharsetCode c.toNat = true := by
  refine validToken_encode (by decide +kernel) (fun n hn => ?_) charset
  rw [isCharsetCode, isAsciiGraphic_of_ge hn]
  rfl

theorem validRfc2047EncodingToken_encode (encoding : Str) :
    validRfc2047EncodingToken (Utf8.encode encoding) = true ↔
      encoding ≠ [] ∧ ∀ c ∈ encoding, isEncodingCode c.toNat = true := by
  refine validToken_encode (by decide +kernel) (fun n hn => ?_) encoding
  rw [isEncodingCode, isAsciiGraphic_of_ge hn]
  rfl

theorem isEncodedTextCode_of_ge {n : Nat} (h : 128 ≤ n) : isEncodedTextCode n = false := by
  rw [isEncodedTextCode, isAsciiGraphic_of_ge h]
  rfl

theorem all_encodedText (text : Str) :
    ((Utf8.encode text).all fun byte => isAsciiGraphic byte.toNat && byte != 0x3F) = true ↔
      ∀ c ∈ text, isEncodedTextCode c.toNat = true := by
  have hbyte : (fun byte : UInt8 => isAsciiGraphic byte.toNat && byte != 0x3F) =
      fun b => isEncodedTextCode b.toNat := by
    funext b
    rw [isEncodedTextCode, bne_toNat]
    rfl
  rw [hbyte, Utf8.all_encode fun _ => isEncodedTextCode_of_ge, List.all_eq_true]

theorem question_not_mem_encode {s : Str} (h : '?' ∉ s) : 0x3F ∉ Utf8.encode s := by
  intro hmem
  obtain ⟨c, hc, heq⟩ := Utf8.mem_encode_ascii hmem (by decide)
  have hquestion : c = '?' := Char.toNat_inj.mp heq
  exact h (hquestion ▸ hc)

theorem splitQuestion_of {pre : Str} (h : '?' ∉ pre) (post : Str) :
    splitQuestion (Utf8.encode (pre ++ '?' :: post)) =
      some (Utf8.encode pre, Utf8.encode post) := by
  have hbytes : Utf8.encode (pre ++ '?' :: post) = Utf8.encode pre ++ 0x3F :: Utf8.encode post := by
    rw [Utf8.encode_append, Utf8.encode_cons_ascii (by decide)]
    rfl
  have hpre : ∀ b ∈ Utf8.encode pre, (decide (b ≠ 0x3F)) = true := by
    intro b hb
    rw [decide_eq_true_eq]
    rintro rfl
    exact question_not_mem_encode h hb
  rw [splitQuestion, hbytes, if_pos (by simp), List.takeWhile_append_of_pos hpre,
    List.dropWhile_append_of_pos hpre]
  simp

theorem splitQuestion_eq_some {s : Str} {a b : Bytes}
    (h : splitQuestion (Utf8.encode s) = some (a, b)) :
    ∃ pre post, s = pre ++ '?' :: post ∧ '?' ∉ pre ∧ a = Utf8.encode pre ∧
      b = Utf8.encode post := by
  have hmem : '?' ∈ s := by
    by_contra hnot
    rw [splitQuestion, if_neg (question_not_mem_encode hnot)] at h
    cases h
  obtain ⟨pre, post, rfl, hpre⟩ := List.eq_append_cons_of_mem hmem
  rw [splitQuestion_of hpre] at h
  cases h
  exact ⟨pre, post, rfl, hpre, rfl, rfl⟩

theorem ensureNear_eq_ok {condition : Bool} {message : String} :
    ensureNear condition field value index message = .ok () ↔ condition = true := by
  cases condition <;> simp [ensureNear]

theorem questionOr_eq_ok {message : String} {bytes : Bytes} {split : Bytes × Bytes} :
    questionOr field value index message bytes = .ok split ↔ splitQuestion bytes = some split := by
  unfold questionOr
  cases splitQuestion bytes <;> simp

theorem not_question_of_class {p : Nat → Bool} {s : Str} (h : ∀ c ∈ s, p c.toNat = true)
    (hp : p 0x3F = false) : '?' ∉ s := fun hmem => by
  have := h '?' hmem
  rw [show ('?' : Char).toNat = 0x3F from rfl, hp] at this
  exact absurd this (by decide)

theorem len_encodedWord (charset encoding text : Str) :
    Utf8.len (encodedWord charset encoding text) =
      2 + (Utf8.encode charset).length + 1 + (Utf8.encode encoding).length + 1 +
        (Utf8.encode text).length + 2 := by
  simp only [encodedWord, Utf8.len_cons, Utf8.len_append, Utf8.len_nil, Utf8.length_encode]
  rw [Utf8.utf8Size_ascii (c := '=') (by decide), Utf8.utf8Size_ascii (c := '?') (by decide)]
  omega

theorem byteAt_all_blank {rest : Str} (h : At value index rest) :
    ((byteAt value index).all fun next => isBlank next.toNat) = true ↔ EndsEncodedWord rest := by
  cases rest with
  | nil => simp [byteAt_nil h, EndsEncodedWord]
  | cons c rest => simp [byteAt_cons h, EndsEncodedWord]

theorem parseObsoleteThreadingEncodedWord_of {charset encoding text rest : Str}
    (hword : EncodedWordSyntax charset encoding text) (hstart : startsWord value index = true)
    (hends : EndsEncodedWord rest)
    (h : At value index (encodedWord charset encoding text ++ rest)) :
    parseObsoleteThreadingEncodedWord field value index =
      .ok (index + Utf8.len (encodedWord charset encoding text)) := by
  have hcharset := not_question_of_class hword.charset_code (by decide +kernel)
  have hencoding := not_question_of_class hword.encoding_code (by decide +kernel)
  have htext := not_question_of_class hword.text_code (by decide +kernel)
  have hinner : At value (index + 2)
      (charset ++ '?' :: (encoding ++ '?' :: (text ++ '?' :: '=' :: rest))) := by
    have hopen : At value index ('=' :: '?' ::
        (charset ++ '?' :: (encoding ++ '?' :: (text ++ '?' :: '=' :: rest)))) := by
      simpa [encodedWord] using h
    exact (hopen.step_ascii (by decide)).step_ascii (by decide)
  have htail : (Utf8.encode ('=' :: rest)).head? = some 0x3D := by
    rw [Utf8.encode_cons_ascii (by decide)]
    rfl
  have hlen := len_encodedWord charset encoding text
  unfold parseObsoleteThreadingEncodedWord
  refine bind_eq_ok.mpr ⟨(), ensureNear_eq_ok.mpr hstart, ?_⟩
  rw [hinner.drop_encode]
  refine bind_eq_ok.mpr ⟨_, questionOr_eq_ok.mpr (splitQuestion_of hcharset _), ?_⟩
  refine bind_eq_ok.mpr ⟨(), ensureNear_eq_ok.mpr ((validRfc2047CharsetToken_encode _).mpr
    ⟨hword.charset_ne_nil, hword.charset_code⟩), ?_⟩
  refine bind_eq_ok.mpr ⟨_, questionOr_eq_ok.mpr (splitQuestion_of hencoding _), ?_⟩
  refine bind_eq_ok.mpr ⟨(), ensureNear_eq_ok.mpr ((validRfc2047EncodingToken_encode _).mpr
    ⟨hword.encoding_ne_nil, hword.encoding_code⟩), ?_⟩
  refine bind_eq_ok.mpr ⟨_, questionOr_eq_ok.mpr (splitQuestion_of htext _), ?_⟩
  refine bind_eq_ok.mpr ⟨(), ensureNear_eq_ok.mpr ?_, ?_⟩
  · rw [htail, beq_self_eq_true, Bool.true_and, decide_eq_true_eq]
    exact Utf8.encode_ne_nil hword.text_ne_nil
  refine bind_eq_ok.mpr ⟨(), ensureNear_eq_ok.mpr ((all_encodedText _).mpr hword.text_code), ?_⟩
  refine bind_eq_ok.mpr ⟨(), Res.ensure_eq_ok.mpr ?_, ?_⟩
  · rw [← hlen, decide_eq_true_eq]
    exact hword.length_le
  rw [← hlen]
  exact bind_eq_ok.mpr ⟨(), ensureNear_eq_ok.mpr ((byteAt_all_blank h.advance).mpr hends), rfl⟩

theorem parseObsoleteThreadingEncodedWord_eq_ok {rest : Str} {next : Nat}
    (h : At value index ('=' :: '?' :: rest))
    (heq : parseObsoleteThreadingEncodedWord field value index = .ok next) :
    ∃ charset encoding text rest', '=' :: '?' :: rest = encodedWord charset encoding text ++ rest' ∧
      EncodedWordSyntax charset encoding text ∧ startsWord value index = true ∧
      EndsEncodedWord rest' ∧ next = index + Utf8.len (encodedWord charset encoding text) := by
  have hinner := (h.step_ascii (by decide)).step_ascii (by decide)
  unfold parseObsoleteThreadingEncodedWord at heq
  obtain ⟨_, hstart, heq⟩ := bind_eq_ok.mp heq
  rw [hinner.drop_encode] at heq
  obtain ⟨⟨charsetBytes, afterCharset⟩, hsplit, heq⟩ := bind_eq_ok.mp heq
  obtain ⟨charset, afterCharset, rfl, -, rfl, rfl⟩ :=
    splitQuestion_eq_some (questionOr_eq_ok.mp hsplit)
  obtain ⟨_, hcharset, heq⟩ := bind_eq_ok.mp heq
  obtain ⟨⟨encodingBytes, afterEncoding⟩, hsplit, heq⟩ := bind_eq_ok.mp heq
  obtain ⟨encoding, afterEncoding, rfl, -, rfl, rfl⟩ :=
    splitQuestion_eq_some (questionOr_eq_ok.mp hsplit)
  obtain ⟨_, hencoding, heq⟩ := bind_eq_ok.mp heq
  obtain ⟨⟨textBytes, afterText⟩, hsplit, heq⟩ := bind_eq_ok.mp heq
  obtain ⟨text, afterText, rfl, -, rfl, rfl⟩ :=
    splitQuestion_eq_some (questionOr_eq_ok.mp hsplit)
  -- The three parts are there; now the closing mark, the length and what follows the word.
  obtain ⟨_, hclose, heq⟩ := bind_eq_ok.mp heq
  obtain ⟨_, htext, heq⟩ := bind_eq_ok.mp heq
  obtain ⟨_, hlength, heq⟩ := bind_eq_ok.mp heq
  obtain ⟨_, hends, heq⟩ := bind_eq_ok.mp heq
  obtain rfl := pure_eq_ok.mp heq
  have hclose := ensureNear_eq_ok.mp hclose
  rw [Bool.and_eq_true, beq_iff_eq, decide_eq_true_eq] at hclose
  have hlength := Res.ensure_eq_ok.mp hlength
  have hlen := len_encodedWord charset encoding text
  rw [decide_eq_true_eq, ← hlen] at hlength
  rw [← hlen] at hends ⊢
  cases afterText with
  | nil => cases hclose.1
  | cons c rest' =>
    have hc : c = '=' := by
      obtain ⟨tail, htail⟩ := Utf8.encode_cons_eq c rest'
      rw [htail] at hclose
      exact (leadByte_eq_iff (d := '=') (by decide) rfl).mp (Option.some.inj hclose.1)
    subst hc
    have hat : At value index (encodedWord charset encoding text ++ rest') := by
      simpa [encodedWord] using h
    have htextNe : text ≠ [] := by
      rintro rfl
      exact hclose.2 rfl
    have hcharset := (validRfc2047CharsetToken_encode _).mp (ensureNear_eq_ok.mp hcharset)
    have hencoding := (validRfc2047EncodingToken_encode _).mp (ensureNear_eq_ok.mp hencoding)
    exact ⟨charset, encoding, text, rest', by simp [encodedWord],
      ⟨hcharset.1, hcharset.2, hencoding.1, hencoding.2, htextNe,
        (all_encodedText _).mp (ensureNear_eq_ok.mp htext), hlength⟩,
      ensureNear_eq_ok.mp hstart,
      (byteAt_all_blank hat.advance).mp (ensureNear_eq_ok.mp hends), rfl⟩

end Notm.Mail
