import Notm.Lib.Rfc5322
import Notm.Mail.MessageId.Identifier

/-!
# The scanners at a character boundary

`Utf8.At value index rest` says that `index` stands on a character boundary of `value` with
`rest` behind it. At such an offset each scanner of `rfc5322.rs` either fails, without a panic,
or comes to a stop at another boundary with a piece of the grammar in between; and it does not
miss a piece that is there.

* `skipComment_cases` — a comment is passed over, nested ones included, or the scan fails.
* `skipMessageIdCfws_cases`, `skipMessageIdCfws_of` — comments and white space are skipped, and no
  more.
-/

namespace Notm.Mail

open Rust Rfc5322
open Utf8 (At leadByte)

variable {field : String} {value : Str} {index : Nat}

/-! ## Bytes and characters -/

theorem byteAt_nil (h : At value index []) : byteAt value index = none := h.get_nil

theorem byteAt_cons {c : Char} {rest : Str} (h : At value index (c :: rest)) :
    byteAt value index = some (leadByte c) := h.get_cons

theorem byteAt_eq_none_iff {rest : Str} (h : At value index rest) :
    byteAt value index = none ↔ rest = [] := by
  cases rest with
  | nil => exact iff_of_true (byteAt_nil h) rfl
  | cons c rest => rw [byteAt_cons h]; simp

theorem length_eq_iff {rest : Str} (h : At value index rest) :
    index = (Utf8.encode value).length ↔ rest = [] := by
  have hlen : index + Utf8.len rest = (Utf8.encode value).length := h.add_len
  cases rest with
  | nil => exact iff_of_true (by simpa using hlen) rfl
  | cons c rest =>
    have := c.utf8Size_pos
    simp only [Utf8.len_cons] at hlen
    exact iff_of_false (by omega) (by simp)

/-- The first byte of a character is an ASCII byte exactly when the character is that one. -/
theorem leadByte_eq_iff {c d : Char} {b : UInt8} (hd : d.toNat < 128) (hb : b.toNat = d.toNat) :
    leadByte c = b ↔ c = d := by
  constructor
  · rintro rfl
    have hc : c.toNat < 128 := (Utf8.leadByte_lt_iff c).mp (by omega)
    rw [Utf8.leadByte_ascii hc] at hb
    exact Char.toNat_inj.mp hb
  · rintro rfl
    exact UInt8.toNat_inj.mp (by rw [Utf8.leadByte_ascii hd, hb])

theorem leadByte_ne {c d : Char} {b : UInt8} (hd : d.toNat < 128) (hb : b.toNat = d.toNat)
    (h : c ≠ d) : leadByte c ≠ b :=
  fun heq => h ((leadByte_eq_iff hd hb).mp heq)

theorem leadByte_ge_iff (c : Char) : (0x80 : UInt8) ≤ leadByte c ↔ 128 ≤ c.toNat := by
  rw [UInt8.le_iff_toNat_le]
  have := Utf8.leadByte_lt_iff c
  simp only [UInt8.reduceToNat]
  omega

theorem leadByte_lt_iff' (c : Char) : leadByte c < (0x80 : UInt8) ↔ c.toNat < 128 := by
  rw [UInt8.lt_iff_toNat_lt]
  exact Utf8.leadByte_lt_iff c

theorem charFrom_cons {c : Char} {rest : Str} (h : At value index (c :: rest)) :
    charFrom value index = .ok c := by
  unfold charFrom sliceFrom
  rw [h.dropBytes]
  rfl

theorem isAtext_eq (b : UInt8) : Notm.Mail.isAtext b = Rfc5322.isAtext b.toNat := by
  have hall : ∀ n < 256, Notm.Mail.isAtext (UInt8.ofNat n) = Rfc5322.isAtext n := by
    decide +kernel
  simpa using hall b.toNat b.toNat_lt

theorem isEscapable_eq (b : UInt8) : Notm.Mail.isEscapable b = Rfc5322.isEscapable b.toNat := rfl

theorem bne_toNat (b k : UInt8) : (b != k) = (b.toNat != k.toNat) := by
  rw [Bool.eq_iff_iff, bne_iff_ne, bne_iff_ne, ne_eq, ne_eq, UInt8.toNat_inj]

theorem isQuotedText_eq (b : UInt8) : isQuotedText b = isQtext b.toNat := by
  rw [isQuotedText, isQtext, isEscapable_eq, bne_toNat, bne_toNat]
  rfl

theorem isLiteralText_eq (b : UInt8) : isLiteralText b = isDtext b.toNat := by
  rw [isLiteralText, isDtext, bne_toNat, bne_toNat, bne_toNat]
  rfl

@[simp] theorem isAtext_leadByte (c : Char) :
    Notm.Mail.isAtext (leadByte c) = Rfc5322.isAtext c.toNat := by
  rw [isAtext_eq]
  exact Utf8.leadByte_class (fun _ => isAtext_of_ge) c

@[simp] theorem isEscapable_leadByte (c : Char) :
    Notm.Mail.isEscapable (leadByte c) = Rfc5322.isEscapable c.toNat := by
  rw [isEscapable_eq]
  exact Utf8.leadByte_class (fun _ => isEscapable_of_ge) c

@[simp] theorem isQuotedText_leadByte (c : Char) :
    isQuotedText (leadByte c) = isQtext c.toNat := by
  rw [isQuotedText_eq]
  exact Utf8.leadByte_class (fun _ => isQtext_of_ge) c

@[simp] theorem isLiteralText_leadByte (c : Char) :
    isLiteralText (leadByte c) = isDtext c.toNat := by
  rw [isLiteralText_eq]
  exact Utf8.leadByte_class (fun _ => isDtext_of_ge) c

@[simp] theorem isBlank_leadByte (c : Char) :
    isBlank (leadByte c).toNat = isBlank c.toNat :=
  Utf8.leadByte_class (fun _ => isBlank_of_ge) c

/-! ## Classes of characters -/

theorem isBlank_ascii {c : Char} (h : isBlank c.toNat = true) : c.toNat < 128 := by
  by_contra hge
  rw [isBlank_of_ge (by omega)] at h
  exact absurd h (by decide)

theorem isEscapable_ascii {c : Char} (h : Rfc5322.isEscapable c.toNat = true) :
    c.toNat < 128 := by
  by_contra hge
  rw [isEscapable_of_ge (by omega)] at h
  exact absurd h (by decide)

theorem isQtext_ascii {c : Char} (h : isQtext c.toNat = true) : c.toNat < 128 := by
  by_contra hge
  rw [isQtext_of_ge (by omega)] at h
  exact absurd h (by decide)

theorem isDtext_ascii {c : Char} (h : isDtext c.toNat = true) : c.toNat < 128 := by
  by_contra hge
  rw [isDtext_of_ge (by omega)] at h
  exact absurd h (by decide)

theorem isAtext_ascii {c : Char} (h : Rfc5322.isAtext c.toNat = true) : c.toNat < 128 := by
  by_contra hge
  rw [isAtext_of_ge (by omega)] at h
  exact absurd h (by decide)

theorem not_isBlank_of_isDtext {c : Char} (h : isDtext c.toNat = true) :
    isBlank c.toNat = false := by
  simp only [isDtext, isAsciiGraphic, Bool.and_eq_true, decide_eq_true_eq] at h
  simp only [isBlank, Bool.or_eq_false_iff, beq_eq_false_iff_ne]
  omega

/-- A character is not one that the class leaves out. -/
theorem ne_of_class {p : Nat → Bool} {c d : Char} (h : p c.toNat = true)
    (hd : p d.toNat = false) : c ≠ d := by
  rintro rfl
  rw [h] at hd
  exact absurd hd (by decide)

/-! ## Comments -/

variable (field) in
theorem commentPairLen_cons {c : Char} {rest : Str} (h : At value index ('\\' :: c :: rest)) :
    (isCommentPair c = true → commentPairLen field value index = .ok (1 + c.utf8Size)) ∧
      (isCommentPair c = false → ∃ e, commentPairLen field value index = .error (.error e)) := by
  have hc := h.step_ascii (by decide)
  unfold commentPairLen isCommentPair
  rw [byteAt_cons hc]
  simp only [leadByte_lt_iff', isEscapable_leadByte]
  by_cases hasc : c.toNat < 128
  · rw [if_pos hasc, if_pos hasc, Utf8.utf8Size_ascii hasc]
    cases Rfc5322.isEscapable c.toNat with
    | true => simp
    | false => exact ⟨by simp, fun _ => ⟨_, rfl⟩⟩
  · rw [if_neg hasc, if_neg hasc, charFrom_cons hc]
    simp only [bind, Except.bind]
    cases isControl c with
    | true => exact ⟨by simp, fun _ => ⟨_, rfl⟩⟩
    | false => exact ⟨fun _ => rfl, by simp⟩

/-- One step of the comment loop, by the character at the offset. -/
theorem skipComment_cons (depth : Nat) {c : Char} {rest : Str}
    (h : At value index (c :: rest)) :
    skipComment field value index (depth + 1) =
      if c = '\\' then
        match commentPairLen field value index with
        | .error fault => .error fault
        | .ok len => skipComment field value (index + len) (depth + 1)
      else if c = '(' then skipComment field value (index + 1) (depth + 2)
      else if c = ')' then skipComment field value (index + 1) depth
      else if isCtext c then skipComment field value (index + c.utf8Size) (depth + 1)
      else Res.bail (lit field ++ lit " contains an invalid character in a comment") := by
  rw [skipComment]
  split
  · next hnone => rw [byteAt_cons h] at hnone; exact absurd hnone (by simp)
  next byte hbyte =>
  rw [byteAt_cons h, Option.some.injEq] at hbyte
  subst hbyte
  have hopen : leadByte c = 0x28 ↔ c = '(' := leadByte_eq_iff (by decide) rfl
  have hclose : leadByte c = 0x29 ↔ c = ')' := leadByte_eq_iff (by decide) rfl
  have hslash : leadByte c = 0x5C ↔ c = '\\' := leadByte_eq_iff (by decide) rfl
  simp only [leadByte_ge_iff, isEscapable_leadByte, hopen, hclose, hslash]
  by_cases h1 : c = '\\'
  · subst h1
    rw [if_neg (by decide), if_neg (by decide), if_pos rfl, if_pos rfl]
    cases commentPairLen field value index <;> rfl
  rw [if_neg h1, if_neg h1]
  by_cases h2 : c = '('
  · subst h2
    rw [if_neg (by decide), if_neg (by decide), if_pos rfl, if_pos rfl]
  rw [if_neg h2, if_neg h2]
  by_cases h3 : c = ')'
  · subst h3
    rw [if_neg (by decide), if_neg (by decide), if_pos rfl, if_pos rfl]
  rw [if_neg h3, if_neg h3]
  have hctext : isCtext c = isCommentPair c := by
    rw [isCtext, bne_iff_ne.mpr h1, bne_iff_ne.mpr h2, bne_iff_ne.mpr h3]
    simp only [Bool.and_true]
  rw [hctext, isCommentPair]
  by_cases hasc : c.toNat < 128
  · rw [if_neg (by omega), if_pos hasc, Utf8.utf8Size_ascii hasc]
    cases Rfc5322.isEscapable c.toNat <;> rfl
  · rw [if_pos (by omega), if_neg hasc, charFrom_cons h]
    simp only
    cases isControl c <;> rfl

/-- The comment loop passes over the body of a comment. -/
theorem skipComment_body {body : Str} (hbody : CommentBody body) :
    ∀ {index : Nat} {rest : Str} (depth : Nat), At value index (body ++ rest) →
      skipComment field value index (depth + 1) =
        skipComment field value (index + Utf8.len body) (depth + 1) := by
  induction hbody with
  | nil => exact fun _ _ => rfl
  | @text c s hc _ ih =>
    intro index rest depth h
    have hne : c ≠ '\\' ∧ c ≠ '(' ∧ c ≠ ')' := by
      simp only [isCtext, Bool.and_eq_true, bne_iff_ne] at hc
      exact ⟨hc.2, hc.1.1.2, hc.1.2⟩
    rw [skipComment_cons depth h, if_neg hne.1, if_neg hne.2.1, if_neg hne.2.2, if_pos hc,
      ih depth h.step, Utf8.len_cons, Nat.add_assoc]
  | @pair c s hc _ ih =>
    intro index rest depth h
    have hslash := h.step_ascii (by decide)
    rw [skipComment_cons depth h, if_pos rfl, (commentPairLen_cons field h).1 hc]
    simp only
    rw [← Nat.add_assoc, ih depth hslash.step]
    simp only [Utf8.len_cons, Nat.add_assoc]
    rfl
  | @nested b s _ _ ihb ihs =>
    intro index rest depth h
    have hparen : At value index ('(' :: (b ++ ')' :: (s ++ rest))) := by simpa using h
    have hopen := hparen.step_ascii (by decide)
    have hclose := hopen.advance
    have hrest := hclose.step_ascii (by decide)
    rw [skipComment_cons depth hparen, if_neg (by decide), if_pos rfl, ihb (depth + 1) hopen,
      skipComment_cons (depth + 1) hclose, if_neg (by decide), if_neg (by decide), if_pos rfl,
      ihs depth hrest]
    congr 1
    simp only [Utf8.len_cons, Utf8.len_append]
    rw [Utf8.utf8Size_ascii (by decide), Utf8.utf8Size_ascii (by decide)]
    omega

variable (field) in
/-- The comment loop fails, or it comes behind the parenthesis that closes the innermost
comment. -/
theorem skipComment_cases (depth : Nat) {rest : Str} (h : At value index rest) :
    (∃ e, skipComment field value index (depth + 1) = .error (.error e)) ∨
      ∃ body rest', rest = body ++ ')' :: rest' ∧ CommentBody body ∧
        skipComment field value index (depth + 1) =
          skipComment field value (index + Utf8.len body + 1) depth := by
  -- a nested comment is followed by the rest of the outer one: the induction is on the length
  induction hlen : rest.length using Nat.strongRecOn generalizing index depth rest with
  | ind n ih =>
  subst hlen
  cases rest with
  | nil =>
    have hbail : skipComment field value index (depth + 1) =
        Res.bail (lit field ++ lit " contains an unterminated comment") := by
      rw [skipComment]
      split
      · rfl
      · next byte hbyte => rw [byteAt_nil h] at hbyte; exact absurd hbyte (by simp)
    exact .inl ⟨_, hbail⟩
  | cons c rest =>
    rw [skipComment_cons depth h]
    by_cases h1 : c = '\\'
    · subst h1
      rw [if_pos rfl]
      cases rest with
      | nil =>
        have hlen : commentPairLen field value index =
            Res.bail (lit field ++ lit " contains an incomplete quoted pair in a comment") := by
          rw [commentPairLen, byteAt_nil (h.step_ascii (by decide))]
        rw [hlen]
        exact .inl ⟨_, rfl⟩
      | cons d rest =>
        obtain ⟨hok, herror⟩ := commentPairLen_cons field h
        cases hd : isCommentPair d with
        | false =>
          obtain ⟨e, he⟩ := herror hd
          rw [he]
          exact .inl ⟨e, rfl⟩
        | true =>
          rw [hok hd]
          have hrest := (h.step_ascii (by decide)).step
          rw [Nat.add_assoc] at hrest
          have hlt : rest.length < ('\\' :: d :: rest).length := by
            simp only [List.length_cons]
            omega
          rcases ih rest.length hlt depth hrest rfl with
            herr | ⟨body, rest', rfl, hbody, heq⟩
          · exact .inl herr
          · refine .inr ⟨'\\' :: d :: body, rest', rfl, .pair hd hbody, ?_⟩
            simp only
            rw [heq]
            congr 1
            simp only [Utf8.len_cons]
            rw [Utf8.utf8Size_ascii (c := '\\') (by decide)]
            omega
    rw [if_neg h1]
    by_cases h2 : c = '('
    · subst h2
      rw [if_pos rfl]
      have hopen := h.step_ascii (by decide)
      rcases ih rest.length (by simp) (depth + 1) hopen rfl with herr |
        ⟨inner, rest', rfl, hinner, heq⟩
      · exact .inl herr
      · have hclose := hopen.advance.step_ascii (by decide)
        rcases ih rest'.length (by simp; omega) depth hclose rfl with herr |
          ⟨body, rest'', rfl, hbody, heq'⟩
        · exact .inl (by rw [heq]; exact herr)
        · refine .inr ⟨'(' :: (inner ++ ')' :: body), rest'', by simp, .nested hinner hbody, ?_⟩
          rw [heq, heq']
          congr 1
          simp only [Utf8.len_cons, Utf8.len_append]
          rw [Utf8.utf8Size_ascii (c := '(') (by decide), Utf8.utf8Size_ascii (c := ')')
            (by decide)]
          omega
    rw [if_neg h2]
    by_cases h3 : c = ')'
    · subst h3
      rw [if_pos rfl]
      exact .inr ⟨[], rest, rfl, .nil, rfl⟩
    rw [if_neg h3]
    cases hc : isCtext c with
    | false => exact .inl ⟨_, rfl⟩
    | true =>
      rcases ih rest.length (by simp) depth h.step rfl with herr | ⟨body, rest', rfl, hbody, heq⟩
      · exact .inl herr
      · refine .inr ⟨c :: body, rest', rfl, .text hc hbody, ?_⟩
        rw [if_pos rfl, heq, Utf8.len_cons]
        congr 1
        omega

/-! ## Comments and folding white space -/

/-- The rest does not go on with comments or white space. -/
def Plain (rest : Str) : Prop := ∀ c ∈ rest.head?, isBlank c.toNat = false ∧ c ≠ '('

theorem Plain.nil : Plain [] := by simp [Plain]

theorem plain_cons {c : Char} {rest : Str} :
    Plain (c :: rest) ↔ isBlank c.toNat = false ∧ c ≠ '(' := by simp [Plain]

theorem skipBlanks_eq (value : Str) (index : Nat) :
    skipBlanks value index = match byteAt value index with
      | some b => if isBlank b.toNat then skipBlanks value (index + 1) else index
      | none => index := by
  unfold skipBlanks byteAt
  cases hbyte : (Utf8.encode value)[index]? with
  | none =>
    rw [List.drop_eq_nil_of_le (List.getElem?_eq_none_iff.mp hbyte)]
    rfl
  | some b =>
    obtain ⟨hlt, rfl⟩ := List.getElem?_eq_some_iff.mp hbyte
    rw [List.drop_eq_getElem_cons hlt, List.takeWhile_cons]
    simp only
    split
    · simp only [List.length_cons]
      omega
    · rfl

theorem skipBlanks_blank {c : Char} {rest : Str} (h : At value index (c :: rest))
    (hc : isBlank c.toNat = true) : skipBlanks value index = skipBlanks value (index + 1) := by
  rw [skipBlanks_eq, byteAt_cons h]
  simp only [isBlank_leadByte, hc, if_true]

theorem skipBlanks_stop {rest : Str} (h : At value index rest)
    (hrest : ∀ c ∈ rest.head?, isBlank c.toNat = false) : skipBlanks value index = index := by
  rw [skipBlanks_eq]
  cases rest with
  | nil => rw [byteAt_nil h]
  | cons c rest =>
    rw [byteAt_cons h]
    simp [hrest c rfl]

theorem skipMessageIdCfws_blank {c : Char} {rest : Str} (h : At value index (c :: rest))
    (hc : isBlank c.toNat = true) :
    skipMessageIdCfws field value index = skipMessageIdCfws field value (index + 1) := by
  rw [skipMessageIdCfws, skipMessageIdCfws, skipBlanks_blank h hc]

theorem skipMessageIdCfws_plain {rest : Str} (h : At value index rest) (hrest : Plain rest) :
    skipMessageIdCfws field value index = .ok index := by
  have hstop : skipBlanks value index = index := skipBlanks_stop h fun c hc => (hrest c hc).1
  have hbyte : ¬ byteAt value index = some 0x28 := by
    cases rest with
    | nil => simp [byteAt_nil h]
    | cons c rest =>
      rw [byteAt_cons h, Option.some.injEq, leadByte_eq_iff (d := '(') (by decide) rfl]
      exact (plain_cons.mp hrest).2
  rw [skipMessageIdCfws, hstop, dif_neg hbyte]

theorem skipMessageIdCfws_open {rest : Str} (h : At value index ('(' :: rest)) :
    skipMessageIdCfws field value index = match skipComment field value (index + 1) 1 with
      | .error fault => .error fault
      | .ok next => skipMessageIdCfws field value next := by
  have hstop : skipBlanks value index = index :=
    skipBlanks_stop h fun c hc => by cases hc; decide
  have hbyte : byteAt value index = some 0x28 := by rw [byteAt_cons h]; rfl
  rw [skipMessageIdCfws, hstop, dif_pos hbyte]
  cases skipComment field value (index + 1) 1 <;> rfl

theorem skipComment_zero : skipComment field value index 0 = .ok index := by rw [skipComment]

variable (field) in
/-- All comments and white space are skipped. -/
theorem skipMessageIdCfws_of {a rest : Str} (ha : Cfws a) (hrest : Plain rest) :
    ∀ {index : Nat}, At value index (a ++ rest) →
      skipMessageIdCfws field value index = .ok (index + Utf8.len a) := by
  induction ha with
  | nil => exact fun h => skipMessageIdCfws_plain h hrest
  | @blank c s hc _ ih =>
    intro index h
    rw [skipMessageIdCfws_blank h hc, ih (h.step_ascii (isBlank_ascii hc)), Utf8.len_cons,
      Utf8.utf8Size_ascii (isBlank_ascii hc), Nat.add_assoc]
  | @comment b s hb _ ih =>
    intro index h
    have hparen : At value index ('(' :: (b ++ ')' :: (s ++ rest))) := by simpa using h
    have hopen := hparen.step_ascii (by decide)
    have hclose := hopen.advance
    rw [skipMessageIdCfws_open hparen, skipComment_body hb 0 hopen, skipComment_cons 0 hclose,
      if_neg (by decide), if_neg (by decide), if_pos rfl, skipComment_zero]
    simp only
    rw [ih (hclose.step_ascii (by decide))]
    congr 1
    simp only [Utf8.len_cons, Utf8.len_append]
    rw [Utf8.utf8Size_ascii (c := '(') (by decide), Utf8.utf8Size_ascii (c := ')') (by decide)]
    omega

variable (field) in
/-- Skipping fails in a comment, or passes over comments and white space only. -/
theorem skipMessageIdCfws_cases {rest : Str} (h : At value index rest) :
    (∃ e, skipMessageIdCfws field value index = .error (.error e)) ∨
      ∃ a rest', rest = a ++ rest' ∧ Cfws a ∧ Plain rest' ∧
        skipMessageIdCfws field value index = .ok (index + Utf8.len a) := by
  induction hlen : rest.length using Nat.strongRecOn generalizing index rest with
  | ind n ih =>
  subst hlen
  cases rest with
  | nil => exact .inr ⟨[], [], rfl, .nil, .nil, skipMessageIdCfws_plain h .nil⟩
  | cons c rest =>
    by_cases hc : isBlank c.toNat = true
    · rw [skipMessageIdCfws_blank h hc]
      rcases ih rest.length (by simp) (h.step_ascii (isBlank_ascii hc)) rfl with
        herr | ⟨a, rest', rfl, ha, hplain, heq⟩
      · exact .inl herr
      · refine .inr ⟨c :: a, rest', rfl, .blank hc ha, hplain, ?_⟩
        rw [heq, Utf8.len_cons, Utf8.utf8Size_ascii (isBlank_ascii hc), Nat.add_assoc]
    -- A comment is skipped as a whole, and what follows it is shorter.
    by_cases hopen : c = '('
    · subst hopen
      have hbody := h.step_ascii (by decide)
      rw [skipMessageIdCfws_open h]
      rcases skipComment_cases field 0 hbody with
        ⟨e, herr⟩ | ⟨body, rest', rfl, hcomment, heq⟩
      · exact .inl ⟨e, by rw [herr]⟩
      · have hclose := hbody.advance.step_ascii (by decide)
        have hlt : rest'.length < ('(' :: (body ++ ')' :: rest')).length := by
          simp only [List.length_cons, List.length_append]
          omega
        rw [heq, skipComment_zero]
        rcases ih rest'.length hlt hclose rfl with ⟨e, herr⟩ | ⟨a, rest'', rfl, ha, hplain, heq'⟩
        · exact .inl ⟨e, herr⟩
        · refine .inr ⟨'(' :: (body ++ ')' :: a), rest'', by simp, .comment hcomment ha, hplain, ?_⟩
          simp only
          rw [heq']
          congr 1
          simp only [Utf8.len_cons, Utf8.len_append]
          rw [Utf8.utf8Size_ascii (c := '(') (by decide),
            Utf8.utf8Size_ascii (c := ')') (by decide)]
          omega
    · have hplain : Plain (c :: rest) := plain_cons.mpr ⟨by simpa using hc, hopen⟩
      exact .inr ⟨[], c :: rest, rfl, .nil, hplain, skipMessageIdCfws_plain h hplain⟩

end Notm.Mail
