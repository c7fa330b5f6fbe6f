import Notm.Mail.MessageId.WordLemmas

/-!
# The delimiters of an identifier

The loops of `find_message_id_end` and `message_id_separator` look for a `>` and for an `@`
outside of quotes, literals and comments. They pass over every piece of the grammar, so the
delimiters they find are those of the derivation.

`passes_idLeft` and `passes_idRight` are about the two sides of an identifier,
`messageIdSeparator_of` and `messageIdSeparator_eq_some` about the `@` between them.
-/

namespace Notm.Mail

open Rust Rfc5322
open Utf8 (At leadByte)

variable {field : String} {value : Str} {index : Nat} {target : UInt8}

/-! ## Passing over a piece -/

/-- The state behind `bytes`, unless `target` stands outside of everything in them. -/
def IdScan.through (target : UInt8) : IdScan → Bytes → Option IdScan
  | scan, [] => some scan
  | scan, byte :: rest =>
    if scan = .neutral ∧ byte = target then none else (scan.step byte).through target rest

theorem IdScan.through_append (scan : IdScan) (a b : Bytes) :
    scan.through target (a ++ b) = (scan.through target a).bind fun scan =>
      scan.through target b := by
  induction a generalizing scan with
  | nil => rfl
  | cons byte a ih =>
    rw [List.cons_append, IdScan.through, IdScan.through]
    split
    · rfl
    · exact ih _

/-- The loops look for an `@` and for a `>`. -/
def IsTarget (target : UInt8) : Prop := target = 0x40 ∨ target = 0x3E

/-- The state inside of `depth + 1` comments. -/
def IdScan.inComment (escaped : Bool) (depth : Nat) : IdScan := ⟨false, false, escaped, depth + 1⟩

theorem IdScan.inComment_ne_neutral (escaped : Bool) (depth : Nat) :
    inComment escaped depth ≠ .neutral := by
  simp [inComment, neutral]

theorem IdScan.step_inComment_escaped (depth : Nat) (byte : UInt8) :
    (inComment true depth).step byte = inComment false depth := by
  simp [inComment, step]

theorem IdScan.step_inComment {byte : UInt8} (depth : Nat)
    (h : byte ≠ 0x5C ∧ byte ≠ 0x28 ∧ byte ≠ 0x29) :
    (inComment false depth).step byte = inComment false depth := by
  simp [inComment, step, h]

theorem IdScan.through_inComment_high {bytes : Bytes} (depth : Nat)
    (h : ∀ b ∈ bytes, 128 ≤ b.toNat) :
    (inComment false depth).through target bytes = some (inComment false depth) := by
  induction bytes with
  | nil => rfl
  | cons b bytes ih =>
    have hb := h b (by simp)
    have hne : b ≠ 0x5C ∧ b ≠ 0x28 ∧ b ≠ 0x29 := by
      refine ⟨?_, ?_, ?_⟩ <;> (rintro rfl; exact absurd hb (by decide))
    rw [through, if_neg (fun h => inComment_ne_neutral _ _ h.1), step_inComment depth hne]
    exact ih fun b hb => h b (by simp [hb])

/-- A character in a comment that does not open, close or quote anything. -/
theorem IdScan.through_inComment_char {c : Char} (depth : Nat)
    (h : c ≠ '\\' ∧ c ≠ '(' ∧ c ≠ ')') (rest : Bytes) :
    (inComment false depth).through target (String.utf8EncodeChar c ++ rest) =
      (inComment false depth).through target rest := by
  rw [through_append]
  by_cases hasc : c.toNat < 128
  · have hne : leadByte c ≠ 0x5C ∧ leadByte c ≠ 0x28 ∧ leadByte c ≠ 0x29 := by
      refine ⟨?_, ?_, ?_⟩
      · rw [ne_eq, leadByte_eq_iff (d := '\\') (by decide) rfl]
        exact h.1
      · rw [ne_eq, leadByte_eq_iff (d := '(') (by decide) rfl]
        exact h.2.1
      · rw [ne_eq, leadByte_eq_iff (d := ')') (by decide) rfl]
        exact h.2.2
    have hone : String.utf8EncodeChar c = [leadByte c] := by
      simpa using Utf8.encode_cons_ascii hasc []
    rw [hone, through, if_neg (fun h => inComment_ne_neutral _ _ h.1), step_inComment depth hne]
    rfl
  · rw [through_inComment_high depth (Utf8.encodeChar_not_ascii (Nat.le_of_not_lt hasc))]
    rfl

/-- A character behind a backslash in a comment. -/
theorem IdScan.through_inComment_escaped (c : Char) (depth : Nat) (rest : Bytes) :
    (inComment true depth).through target (String.utf8EncodeChar c ++ rest) =
      (inComment false depth).through target rest := by
  rw [through_append]
  obtain ⟨tail, htail⟩ := Utf8.encodeChar_eq_cons c
  have htailHigh : ∀ b ∈ tail, 128 ≤ b.toNat := by
    by_cases hasc : c.toNat < 128
    · rw [Utf8.encodeChar_ascii hasc, List.cons.injEq] at htail
      rw [← htail.2]
      simp
    · intro b hb
      exact Utf8.encodeChar_not_ascii (Nat.le_of_not_lt hasc) b (by rw [htail]; simp [hb])
  rw [htail, through, if_neg (fun h => inComment_ne_neutral _ _ h.1), step_inComment_escaped,
    through_inComment_high depth htailHigh]
  rfl

theorem IdScan.through_comment {body : Str} (hbody : CommentBody body) :
    ∀ (depth : Nat) (rest : Bytes),
      (inComment false depth).through target (Utf8.encode body ++ rest) =
        (inComment false depth).through target rest := by
  induction hbody with
  | nil => exact fun _ _ => rfl
  | @text c s hc _ ih =>
    intro depth rest
    have hne : c ≠ '\\' ∧ c ≠ '(' ∧ c ≠ ')' := by
      simp only [isCtext, Bool.and_eq_true, bne_iff_ne] at hc
      exact ⟨hc.2, hc.1.1.2, hc.1.2⟩
    rw [Utf8.encode_cons, List.append_assoc, through_inComment_char depth hne]
    exact ih depth rest
  | @pair c s hc _ ih =>
    intro depth rest
    have hstep : (inComment false depth).step (leadByte '\\') = inComment true depth := rfl
    rw [Utf8.encode_cons_ascii (by decide), List.cons_append, through,
      if_neg (fun h => inComment_ne_neutral _ _ h.1), hstep, Utf8.encode_cons, List.append_assoc,
      through_inComment_escaped]
    exact ih depth rest
  | @nested b s _ _ ihb ihs =>
    intro depth rest
    have hopen : (inComment false depth).step (leadByte '(') = inComment false (depth + 1) := rfl
    have hclose : (inComment false (depth + 1)).step (leadByte ')') = inComment false depth := rfl
    rw [Utf8.encode_cons_ascii (by decide), List.cons_append, through,
      if_neg (fun h => inComment_ne_neutral _ _ h.1), hopen, Utf8.encode_append,
      List.append_assoc, ihb, Utf8.encode_cons_ascii (by decide), List.cons_append, through,
      if_neg (fun h => inComment_ne_neutral _ _ h.1), hclose]
    exact ihs depth rest

/-- Neither loop stops in `s` or comes out of it in another state. -/
def Passes (target : UInt8) (s : Str) : Prop :=
  IdScan.neutral.through target (Utf8.encode s) = some .neutral

theorem Passes.append {a b : Str} (ha : Passes target a) (hb : Passes target b) :
    Passes target (a ++ b) := by
  rw [Passes, Utf8.encode_append, IdScan.through_append, ha]
  exact hb

theorem Passes.cons {c : Char} {s : Str} (hc : c.toNat < 128) (hne : leadByte c ≠ target)
    (hstep : IdScan.neutral.step (leadByte c) = .neutral) (hs : Passes target s) :
    Passes target (c :: s) := by
  rw [Passes, Utf8.encode_cons_ascii hc, IdScan.through, if_neg (fun h => hne h.2), hstep]
  exact hs

theorem passes_nil : Passes target [] := rfl

/-- Outside of everything only a quote, a bracket and a parenthesis open something. -/
theorem IdScan.step_neutral {byte : UInt8} (h : byte ≠ 0x22 ∧ byte ≠ 0x5B ∧ byte ≠ 0x28) :
    neutral.step byte = neutral := by
  simp [neutral, step, h]

/-! ## The pieces of the grammar -/

theorem passes_cfws (ht : IsTarget target) {a : Str} (ha : Cfws a) : Passes target a := by
  induction ha with
  | nil => exact passes_nil
  | @blank c s hc _ ih =>
    have hcode : c.toNat = 0x20 ∨ c.toNat = 0x09 := by simpa [isBlank] using hc
    have hlead := Utf8.leadByte_ascii (isBlank_ascii hc)
    have hbyte : leadByte c = 0x20 ∨ leadByte c = 0x09 :=
      hcode.imp (fun h => UInt8.toNat_inj.mp (hlead.trans h))
        (fun h => UInt8.toNat_inj.mp (hlead.trans h))
    refine Passes.cons (isBlank_ascii hc) ?_ ?_ ih
    · rcases ht with rfl | rfl <;> rcases hbyte with h | h <;> (rw [h]; decide)
    · rcases hbyte with h | h <;> (rw [h]; decide)
  | @comment b s hb _ ih =>
    have hopen : IdScan.neutral.step (leadByte '(') = .inComment false 0 := rfl
    have hclose : (IdScan.inComment false 0).step (leadByte ')') = .neutral := rfl
    have hne : leadByte '(' ≠ target := by rcases ht with rfl | rfl <;> decide
    rw [Passes, Utf8.encode_cons_ascii (by decide), IdScan.through,
      if_neg (fun h => hne h.2), hopen,
      Utf8.encode_append, IdScan.through_comment hb, Utf8.encode_cons_ascii (by decide),
        IdScan.through,
      if_neg (fun h => IdScan.inComment_ne_neutral _ _ h.1), hclose]
    exact ih

theorem passes_atext (ht : IsTarget target) {w : Str}
    (hw : ∀ c ∈ w, Rfc5322.isAtext c.toNat = true) : Passes target w := by
  induction w with
  | nil => exact passes_nil
  | cons c w ih =>
    have hc := hw c (by simp)
    have hatext : Notm.Mail.isAtext (leadByte c) = true := by rwa [isAtext_leadByte]
    have hspecial : ∀ b ∈ [(0x40 : UInt8), 0x3E, 0x22, 0x5B, 0x28],
        Notm.Mail.isAtext b = false := by decide +kernel
    have hne : ∀ b ∈ [(0x40 : UInt8), 0x3E, 0x22, 0x5B, 0x28], leadByte c ≠ b := by
      rintro b hb rfl
      rw [hspecial _ hb] at hatext
      exact absurd hatext (by decide)
    refine Passes.cons (isAtext_ascii hc) ?_ ?_ (ih fun c hc => hw c (by simp [hc]))
    · rcases ht with rfl | rfl
      · exact hne 0x40 (by simp)
      · exact hne 0x3E (by simp)
    · exact IdScan.step_neutral ⟨hne 0x22 (by simp), hne 0x5B (by simp), hne 0x28 (by simp)⟩

/-- The state behind an opening quote. -/
def IdScan.inQuotes (escaped : Bool) : IdScan := ⟨true, false, escaped, 0⟩

/-- The state behind an opening bracket. -/
def IdScan.inLiteral (escaped : Bool) : IdScan := ⟨false, true, escaped, 0⟩

theorem IdScan.through_quoted {body : Str} (hbody : QuotedBody body) (rest : Bytes) :
    (inQuotes false).through target (Utf8.encode body ++ rest) =
      (inQuotes false).through target rest := by
  induction hbody with
  | nil => rfl
  | @text c s hc _ ih =>
    have hslash : leadByte c ≠ 0x5C := leadByte_ne (d := '\\') (by decide) rfl (ne_of_class hc rfl)
    have hquote : leadByte c ≠ 0x22 := leadByte_ne (d := '"') (by decide) rfl (ne_of_class hc rfl)
    have hstep : (inQuotes false).step (leadByte c) = inQuotes false := by
      simp [inQuotes, step, hslash, hquote]
    rw [Utf8.encode_cons_ascii (isQtext_ascii hc), List.cons_append, through,
      if_neg (by simp [inQuotes, neutral]), hstep]
    exact ih
  | @pair c s hc _ ih =>
    have hslash : (inQuotes false).step (leadByte '\\') = inQuotes true := rfl
    have hstep : (inQuotes true).step (leadByte c) = inQuotes false := by simp [inQuotes, step]
    rw [Utf8.encode_cons_ascii (by decide), List.cons_append, through,
      if_neg (by simp [inQuotes, neutral]), hslash, Utf8.encode_cons_ascii (isEscapable_ascii hc),
      List.cons_append, through, if_neg (by simp [inQuotes, neutral]), hstep]
    exact ih

theorem IdScan.through_literal {body canon : Str} (hbody : LiteralBody body canon) (rest : Bytes) :
    (inLiteral false).through target (Utf8.encode body ++ rest) =
      (inLiteral false).through target rest := by
  have hplain : ∀ c : Char, c ≠ '\\' → c ≠ ']' →
      (inLiteral false).step (leadByte c) = inLiteral false := by
    intro c hs hc
    have hslash : leadByte c ≠ 0x5C := leadByte_ne (d := '\\') (by decide) rfl hs
    have hclose : leadByte c ≠ 0x5D := leadByte_ne (d := ']') (by decide) rfl hc
    simp [inLiteral, step, hslash, hclose]
  induction hbody with
  | nil => rfl
  | @blank c s _ hc _ ih =>
    rw [Utf8.encode_cons_ascii (isBlank_ascii hc), List.cons_append, through,
      if_neg (by simp [inLiteral, neutral]),
      hplain c (ne_of_class hc rfl) (ne_of_class hc rfl)]
    exact ih
  | @text c s _ hc _ ih =>
    rw [Utf8.encode_cons_ascii (isDtext_ascii hc), List.cons_append, through,
      if_neg (by simp [inLiteral, neutral]),
      hplain c (ne_of_class hc rfl) (ne_of_class hc rfl)]
    exact ih
  | @pair c s _ hc _ ih =>
    have hslash : (inLiteral false).step (leadByte '\\') = inLiteral true := rfl
    have hstep : (inLiteral true).step (leadByte c) = inLiteral false := by simp [inLiteral, step]
    rw [Utf8.encode_cons_ascii (by decide), List.cons_append, through,
      if_neg (by simp [inLiteral, neutral]), hslash, Utf8.encode_cons_ascii (isEscapable_ascii hc),
      List.cons_append, through, if_neg (by simp [inLiteral, neutral]), hstep]
    exact ih

theorem passes_word (ht : IsTarget target) {w : Str} (hw : Word w) : Passes target w := by
  rcases hw with hatom | ⟨body, hbody, rfl⟩
  · exact passes_atext ht hatom.2
  · have hopen : IdScan.neutral.step (leadByte '"') = .inQuotes false := rfl
    have hclose : (IdScan.inQuotes false).step (leadByte '"') = .neutral := rfl
    have hne : leadByte '"' ≠ target := by rcases ht with rfl | rfl <;> decide
    rw [Passes, Utf8.encode_bracketed (by decide) (by decide), IdScan.through,
      if_neg (fun h => hne h.2),
      hopen, IdScan.through_quoted hbody, IdScan.through,
      if_neg (by simp [IdScan.inQuotes, IdScan.neutral]), hclose]
    rfl

theorem passes_dot (ht : IsTarget target) {s : Str} (hs : Passes target s) :
    Passes target ('.' :: s) := by
  refine Passes.cons (by decide) ?_ rfl hs
  rcases ht with rfl | rfl <;> decide

theorem passes_dotSeparated (ht : IsTarget target) {P : List Char → Prop}
    (hP : ∀ w, P w → Passes target w) {s canon : Str} (hs : DotSeparated P s canon) :
    Passes target s := by
  induction hs with
  | last ha hw hb => exact ((passes_cfws ht ha).append (hP _ hw)).append (passes_cfws ht hb)
  | dot ha hw hb _ ih =>
    exact (((passes_cfws ht ha).append (hP _ hw)).append (passes_cfws ht hb)).append
      (passes_dot ht ih)

theorem passes_idLeft (ht : IsTarget target) {s canon : Str} (hs : IdLeft s canon) :
    Passes target s :=
  passes_dotSeparated ht (fun _ => passes_word ht) hs

theorem passes_idRight (ht : IsTarget target) {s canon : Str} (hs : IdRight s canon) :
    Passes target s := by
  cases hs with
  | domain h => exact passes_dotSeparated ht (fun _ hw => passes_atext ht hw.2) h
  | @literal a body b canon ha hbody _ hb =>
    have hopen : IdScan.neutral.step (leadByte '[') = .inLiteral false := rfl
    have hclose : (IdScan.inLiteral false).step (leadByte ']') = .neutral := rfl
    have hne : leadByte '[' ≠ target := by rcases ht with rfl | rfl <;> decide
    refine (passes_cfws ht ha).append ?_
    rw [Passes, Utf8.encode_cons_ascii (by decide), IdScan.through,
      if_neg (fun h => hne h.2), hopen,
      Utf8.encode_append, IdScan.through_literal hbody, Utf8.encode_cons_ascii (by decide),
      IdScan.through, if_neg (by simp [IdScan.inLiteral, IdScan.neutral]), hclose]
    exact passes_cfws ht hb

/-! ## What the loops find -/

theorem findSeparator_cons (scan : IdScan) (separator : Option Nat) (start : Nat) (byte : UInt8)
    (rest : Bytes) :
    findSeparator scan separator start (byte :: rest) =
      if scan = .neutral ∧ byte = 0x40 then
        match separator with
        | some _ => none
        | none => findSeparator scan (some start) (start + 1) rest
      else findSeparator (scan.step byte) separator (start + 1) rest := by
  cases separator <;> rfl

theorem findSeparator_append {scan scan' : IdScan} {a : Bytes}
    (h : scan.through 0x40 a = some scan')
    (separator : Option Nat) (start : Nat) (rest : Bytes) :
    findSeparator scan separator start (a ++ rest) =
      findSeparator scan' separator (start + a.length) rest := by
  induction a generalizing scan start with
  | nil => cases h; rfl
  | cons byte a ih =>
    rw [IdScan.through] at h
    split at h
    · cases h
    · next hnot =>
      rw [List.cons_append, findSeparator_cons, if_neg hnot, ih h, List.length_cons]
      congr 1
      omega

theorem findIdEnd_append {scan scan' : IdScan} {a : Bytes} (h : scan.through 0x3E a = some scan')
    (start : Nat) (rest : Bytes) :
    findIdEnd scan start (a ++ rest) = findIdEnd scan' (start + a.length) rest := by
  induction a generalizing scan start with
  | nil => cases h; rfl
  | cons byte a ih =>
    rw [IdScan.through] at h
    split at h
    · cases h
    · next hnot =>
      rw [List.cons_append, findIdEnd, if_neg hnot, ih h, List.length_cons]
      congr 1
      omega

/-- The separator is the only `@` outside of quotes, literals and comments. -/
theorem messageIdSeparator_of {left right : Str} (hleft : Passes 0x40 left)
    (hright : Passes 0x40 right) :
    messageIdSeparator (Utf8.encode (left ++ '@' :: right)) = some (Utf8.len left) := by
  have hat : leadByte '@' = 0x40 := rfl
  rw [messageIdSeparator, Utf8.encode_append, Utf8.encode_cons_ascii (by decide),
    findSeparator_append hleft, hat, findSeparator_cons, if_pos ⟨rfl, rfl⟩]
  simp only
  rw [← List.append_nil (Utf8.encode right), findSeparator_append hright, Nat.zero_add]
  rfl

theorem findSeparator_eq_some {scan scan' : IdScan} {start : Nat} {bytes : Bytes}
    {separator result : Option Nat}
    (h : findSeparator scan separator start bytes = some (result, scan')) :
    result = separator ∨ ∃ i, result = some (start + i) ∧ bytes[i]? = some 0x40 := by
  induction bytes generalizing scan separator start with
  | nil =>
    cases h
    exact .inl rfl
  | cons byte bytes ih =>
    rw [findSeparator_cons] at h
    split at h
    · next hat =>
      cases separator with
      | some _ => cases h
      | none =>
        right
        rcases ih h with hsame | ⟨i, hi, hbyte⟩
        · exact ⟨0, hsame, by rw [hat.2]; rfl⟩
        · exact ⟨i + 1, by rw [hi]; congr 1; omega, hbyte⟩
    · rcases ih h with hsame | ⟨i, hi, hbyte⟩
      · exact .inl hsame
      · exact .inr ⟨i + 1, by rw [hi]; congr 1; omega, hbyte⟩

theorem messageIdSeparator_eq_some {bytes : Bytes} {separator : Nat}
    (h : messageIdSeparator bytes = some separator) : bytes[separator]? = some 0x40 := by
  unfold messageIdSeparator at h
  split at h
  · cases h
  · next result scan hscan =>
    split at h
    · subst h
      rcases findSeparator_eq_some hscan with hnone | ⟨i, hi, hbyte⟩
      · cases hnone
      · rw [Nat.zero_add] at hi
        cases hi
        exact hbyte
    · cases h

end Notm.Mail
