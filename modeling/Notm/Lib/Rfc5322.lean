import Notm.Lib.Rust

/-!
# Message identifiers of RFC 5322

The grammar of `msg-id` in its obsolete form: words and atoms with comments and folding white
space around them, separated by dots, and domain literals. Comments may hold characters beyond
ASCII, everything else is ASCII. A derivation relates a text to its canonical form, the text
without what is semantically empty.

Main results:

* `MsgId.canonical` and `StrictMsgId.msgId`: a canonical form derives itself, and so does a modern
  identifier.
* `MsgId.canonicalChar`: a canonical form has visible ASCII and blanks only.
* `MsgId.source` and `IsSourceChar.not_control`: an identifier has no control character but the tab.
-/

namespace Rfc5322

open Rust

/-! ## Character classes -/

/-- `atext`. -/
def isAtext (code : Nat) : Bool :=
  isAsciiAlphanumeric code || "!#$%&'*+-/=?^_`\x7b|\x7d~".toList.any fun c => c.toNat == code

/-- `VCHAR / WSP`: what a quoted pair may quote. -/
def isEscapable (code : Nat) : Bool := isBlank code || isAsciiGraphic code

/-- `qtext / WSP`. -/
def isQtext (code : Nat) : Bool := isEscapable code && code != 0x22 && code != 0x5C

/-- `dtext`. -/
def isDtext (code : Nat) : Bool :=
  isAsciiGraphic code && code != 0x5B && code != 0x5C && code != 0x5D

/-- What a quoted pair in a comment may quote. -/
def isCommentPair (c : Char) : Bool :=
  if c.toNat < 128 then isEscapable c.toNat else !isControl c

/-- `ctext / WSP`. -/
def isCtext (c : Char) : Bool := isCommentPair c && c != '(' && c != ')' && c != '\\'

theorem isAtext_of_ge {n : Nat} (h : 128 ≤ n) : isAtext n = false := by
  have hspecial : ("!#$%&'*+-/=?^_`\x7b|\x7d~".toList.all fun c => c.toNat < 128) = true := by
    decide +kernel
  have halnum : isAsciiAlphanumeric n = false := by
    simp [isAsciiAlphanumeric, isAsciiDigit]
    omega
  rw [isAtext, halnum, Bool.false_or, List.any_eq_false]
  intro c hc heq
  have := of_decide_eq_true (List.all_eq_true.mp hspecial c hc)
  have := eq_of_beq heq
  omega

theorem isEscapable_of_ge {n : Nat} (h : 128 ≤ n) : isEscapable n = false := by
  rw [isEscapable, isBlank_of_ge h, isAsciiGraphic_of_ge h]
  rfl

theorem isQtext_of_ge {n : Nat} (h : 128 ≤ n) : isQtext n = false := by
  rw [isQtext, isEscapable_of_ge h]
  rfl

theorem isDtext_of_ge {n : Nat} (h : 128 ≤ n) : isDtext n = false := by
  rw [isDtext, isAsciiGraphic_of_ge h]
  rfl

/-! ## Comments and folding white space -/

/-- What stands between the parentheses of a comment. -/
inductive CommentBody : List Char → Prop where
  | nil : CommentBody []
  | text {c : Char} {s : List Char} (hc : isCtext c = true) (hs : CommentBody s) :
      CommentBody (c :: s)
  | pair {c : Char} {s : List Char} (hc : isCommentPair c = true) (hs : CommentBody s) :
      CommentBody ('\\' :: c :: s)
  | nested {b s : List Char} (hb : CommentBody b) (hs : CommentBody s) :
      CommentBody ('(' :: (b ++ ')' :: s))

/-- `[CFWS]`: comments and white space, or nothing. -/
inductive Cfws : List Char → Prop where
  | nil : Cfws []
  | blank {c : Char} {s : List Char} (hc : isBlank c.toNat = true) (hs : Cfws s) : Cfws (c :: s)
  | comment {b s : List Char} (hb : CommentBody b) (hs : Cfws s) : Cfws ('(' :: (b ++ ')' :: s))

/-! ## Words -/

/-- `1*atext`. -/
def Atom (s : List Char) : Prop := s ≠ [] ∧ ∀ c ∈ s, isAtext c.toNat = true

/-- What stands between the quotes of a quoted string. -/
inductive QuotedBody : List Char → Prop where
  | nil : QuotedBody []
  | text {c : Char} {s : List Char} (hc : isQtext c.toNat = true) (hs : QuotedBody s) :
      QuotedBody (c :: s)
  | pair {c : Char} {s : List Char} (hc : isEscapable c.toNat = true) (hs : QuotedBody s) :
      QuotedBody ('\\' :: c :: s)

/-- `quoted-string`. -/
def QuotedString (s : List Char) : Prop := ∃ b, QuotedBody b ∧ s = '"' :: (b ++ ['"'])

/-- `word`. -/
def Word (s : List Char) : Prop := Atom s ∨ QuotedString s

/-- Words of a kind with dots between them and white space and comments around each, with the
canonical form: the words and the dots. -/
inductive DotSeparated (P : List Char → Prop) : List Char → List Char → Prop where
  | last {a w b : List Char} (ha : Cfws a) (hw : P w) (hb : Cfws b) :
      DotSeparated P (a ++ w ++ b) w
  | dot {a w b s canon : List Char} (ha : Cfws a) (hw : P w) (hb : Cfws b)
      (hs : DotSeparated P s canon) :
      DotSeparated P (a ++ w ++ b ++ '.' :: s) (w ++ '.' :: canon)

/-- `obs-id-left`, that is `local-part`. -/
abbrev IdLeft : List Char → List Char → Prop := DotSeparated Word

/-- `dot-atom / obs-domain`. -/
abbrev Domain : List Char → List Char → Prop := DotSeparated Atom

/-- What stands between the brackets of a domain literal, with the white space between its
characters left out of the canonical form. -/
inductive LiteralBody : List Char → List Char → Prop where
  | nil : LiteralBody [] []
  | blank {c : Char} {s canon : List Char} (hc : isBlank c.toNat = true)
      (hs : LiteralBody s canon) : LiteralBody (c :: s) canon
  | text {c : Char} {s canon : List Char} (hc : isDtext c.toNat = true)
      (hs : LiteralBody s canon) : LiteralBody (c :: s) (c :: canon)
  | pair {c : Char} {s canon : List Char} (hc : isEscapable c.toNat = true)
      (hs : LiteralBody s canon) : LiteralBody ('\\' :: c :: s) ('\\' :: c :: canon)

/-- `obs-id-right` without an empty domain literal. -/
inductive IdRight : List Char → List Char → Prop where
  | domain {s canon : List Char} (h : Domain s canon) : IdRight s canon
  | literal {a s b canon : List Char} (ha : Cfws a) (hs : LiteralBody s canon)
      (hne : canon ≠ []) (hb : Cfws b) :
      IdRight (a ++ '[' :: (s ++ ']' :: b)) ('[' :: (canon ++ [']']))

/-- What stands between the angle brackets of a message identifier. -/
inductive MsgId : List Char → List Char → Prop where
  | mk {left leftCanon right rightCanon : List Char} (hleft : IdLeft left leftCanon)
      (hright : IdRight right rightCanon) :
      MsgId (left ++ '@' :: right) (leftCanon ++ '@' :: rightCanon)

theorem Atom.ne_nil {s : List Char} (h : Atom s) : s ≠ [] := h.1

theorem Word.ne_nil {s : List Char} (h : Word s) : s ≠ [] := by
  rcases h with h | ⟨b, _, rfl⟩
  · exact h.ne_nil
  · simp

theorem DotSeparated.ne_nil {P : List Char → Prop} (hP : ∀ w, P w → w ≠ []) {s canon : List Char}
    (h : DotSeparated P s canon) : s ≠ [] := by
  cases h with
  | last _ hw _ =>
    have := hP _ hw
    simp [this]
  | dot => simp

/-! ## Canonical forms -/

/-- Words of a kind with a dot between each two and nothing else. -/
inductive Dotted (P : List Char → Prop) : List Char → Prop where
  | last {w : List Char} (hw : P w) : Dotted P w
  | dot {w s : List Char} (hw : P w) (hs : Dotted P s) : Dotted P (w ++ '.' :: s)

/-- `dot-atom-text`. -/
abbrev DotAtom : List Char → Prop := Dotted Atom

/-- `no-fold-literal` with content, in which quoted pairs are allowed. -/
inductive NoFoldLiteral : List Char → Prop where
  | mk {s : List Char} (hs : LiteralBody s s) (hne : s ≠ []) : NoFoldLiteral ('[' :: (s ++ [']']))

/-- What stands between the angle brackets of a message identifier in its modern form. -/
inductive StrictMsgId : List Char → Prop where
  | mk {left right : List Char} (hleft : DotAtom left)
      (hright : DotAtom right ∨ NoFoldLiteral right) : StrictMsgId (left ++ '@' :: right)

theorem DotSeparated.dotted {P : List Char → Prop} {s canon : List Char}
    (h : DotSeparated P s canon) : Dotted P canon := by
  induction h with
  | last _ hw _ => exact .last hw
  | dot _ hw _ _ ih => exact .dot hw ih

theorem Dotted.separated {P : List Char → Prop} {s : List Char} (h : Dotted P s) :
    DotSeparated P s s := by
  induction h with
  | @last w hw => simpa using DotSeparated.last (P := P) .nil hw .nil
  | @dot w s hw _ ih => simpa using DotSeparated.dot (P := P) .nil hw .nil ih

theorem Dotted.mono {P Q : List Char → Prop} (hPQ : ∀ w, P w → Q w) {s : List Char}
    (h : Dotted P s) : Dotted Q s := by
  induction h with
  | last hw => exact .last (hPQ _ hw)
  | dot hw _ ih => exact .dot (hPQ _ hw) ih

/-- A canonical form derives itself. -/
theorem DotSeparated.canonical {P : List Char → Prop} {s canon : List Char}
    (h : DotSeparated P s canon) : DotSeparated P canon canon := h.dotted.separated

theorem LiteralBody.canonical {s canon : List Char} (h : LiteralBody s canon) :
    LiteralBody canon canon := by
  induction h with
  | nil => exact .nil
  | blank _ _ ih => exact ih
  | text hc _ ih => exact .text hc ih
  | pair hc _ ih => exact .pair hc ih

theorem IdRight.canonical {s canon : List Char} (h : IdRight s canon) : IdRight canon canon := by
  cases h with
  | domain h => exact .domain h.canonical
  | literal _ hs hne _ => simpa using IdRight.literal .nil hs.canonical hne .nil

/-- The canonical form of a right side is a modern one. -/
theorem IdRight.strict {s canon : List Char} (h : IdRight s canon) :
    DotAtom canon ∨ NoFoldLiteral canon := by
  cases h with
  | domain h => exact .inl h.dotted
  | literal _ hs hne _ => exact .inr (.mk hs.canonical hne)

theorem MsgId.canonical {s canon : List Char} (h : MsgId s canon) : MsgId canon canon := by
  obtain ⟨hleft, hright⟩ := h
  exact .mk hleft.canonical hright.canonical

theorem idRight_strict {s : List Char} (h : DotAtom s ∨ NoFoldLiteral s) : IdRight s s := by
  rcases h with hatom | ⟨hs, hne⟩
  · exact .domain hatom.separated
  · simpa using IdRight.literal .nil hs hne .nil

/-- The modern form is an obsolete form without anything to leave out. -/
theorem StrictMsgId.msgId {s : List Char} (h : StrictMsgId s) : MsgId s s := by
  obtain ⟨hleft, hright⟩ := h
  exact .mk (hleft.mono fun _ => .inl).separated (idRight_strict hright)

/-! ## Canonical forms are visible ASCII -/

/-- A character of the canonical form: visible, or a blank in a quoted string. -/
def IsCanonicalChar (c : Char) : Prop := isEscapable c.toNat = true

theorem isEscapable_of_isAtext {n : Nat} (h : isAtext n = true) : isEscapable n = true := by
  by_cases hn : n < 128
  · have hall : ∀ n < 128, isAtext n = true → isEscapable n = true := by decide +kernel
    exact hall n hn h
  · rw [isAtext_of_ge (by omega)] at h
    exact absurd h (by decide)

theorem isEscapable_of_isDtext {n : Nat} (h : isDtext n = true) : isEscapable n = true := by
  simp only [isDtext, Bool.and_eq_true] at h
  rw [isEscapable, h.1.1.1, Bool.or_true]

theorem isEscapable_of_isQtext {n : Nat} (h : isQtext n = true) : isEscapable n = true := by
  simp only [isQtext, Bool.and_eq_true] at h
  exact h.1.1

theorem Dotted.canonicalChar {P : List Char → Prop} (hP : ∀ w, P w → ∀ c ∈ w, IsCanonicalChar c)
    {s : List Char} (h : Dotted P s) : ∀ c ∈ s, IsCanonicalChar c := by
  induction h with
  | last hw => exact hP _ hw
  | dot hw _ ih =>
    intro c hc
    rcases List.mem_append.mp hc with hc | hc
    · exact hP _ hw c hc
    · rcases List.mem_cons.mp hc with rfl | hc
      · rfl
      · exact ih c hc

theorem Atom.canonicalChar {w : List Char} (h : Atom w) : ∀ c ∈ w, IsCanonicalChar c :=
  fun c hc => isEscapable_of_isAtext (h.2 c hc)

theorem QuotedBody.canonicalChar {b : List Char} (h : QuotedBody b) :
    ∀ c ∈ b, IsCanonicalChar c := by
  induction h with
  | nil => simp
  | text hc _ ih =>
    intro d hd
    rcases List.mem_cons.mp hd with rfl | hd
    · exact isEscapable_of_isQtext hc
    · exact ih d hd
  | pair hc _ ih =>
    intro d hd
    rcases List.mem_cons.mp hd with rfl | hd
    · rfl
    · rcases List.mem_cons.mp hd with rfl | hd
      · exact hc
      · exact ih d hd

theorem Word.canonicalChar {w : List Char} (h : Word w) : ∀ c ∈ w, IsCanonicalChar c := by
  rcases h with h | ⟨b, hb, rfl⟩
  · exact h.canonicalChar
  · intro c hc
    rcases List.mem_cons.mp hc with rfl | hc
    · rfl
    · rcases List.mem_append.mp hc with hc | hc
      · exact hb.canonicalChar c hc
      · rw [List.mem_singleton.mp hc]
        rfl

theorem LiteralBody.canonicalChar {s canon : List Char} (h : LiteralBody s canon) :
    ∀ c ∈ canon, IsCanonicalChar c := by
  induction h with
  | nil => simp
  | blank _ _ ih => exact ih
  | text hc _ ih =>
    intro d hd
    rcases List.mem_cons.mp hd with rfl | hd
    · exact isEscapable_of_isDtext hc
    · exact ih d hd
  | pair hc _ ih =>
    intro d hd
    rcases List.mem_cons.mp hd with rfl | hd
    · rfl
    · rcases List.mem_cons.mp hd with rfl | hd
      · exact hc
      · exact ih d hd

theorem IdRight.canonicalChar {s canon : List Char} (h : IdRight s canon) :
    ∀ c ∈ canon, IsCanonicalChar c := by
  cases h with
  | domain h => exact h.dotted.canonicalChar fun _ => Atom.canonicalChar
  | literal _ hs _ _ =>
    intro c hc
    rcases List.mem_cons.mp hc with rfl | hc
    · rfl
    · rcases List.mem_append.mp hc with hc | hc
      · exact hs.canonicalChar c hc
      · rw [List.mem_singleton.mp hc]
        rfl

theorem MsgId.canonicalChar {s canon : List Char} (h : MsgId s canon) :
    ∀ c ∈ canon, IsCanonicalChar c := by
  obtain ⟨hleft, hright⟩ := h
  intro c hc
  rcases List.mem_append.mp hc with hc | hc
  · exact hleft.dotted.canonicalChar (fun _ => Word.canonicalChar) c hc
  · rcases List.mem_cons.mp hc with rfl | hc
    · rfl
    · exact hright.canonicalChar c hc

theorem IsCanonicalChar.lt {c : Char} (h : IsCanonicalChar c) : c.toNat < 128 := by
  by_contra hge
  rw [IsCanonicalChar, isEscapable_of_ge (by omega)] at h
  exact absurd h (by decide)

/-! ## Derivations have no control characters -/

/-- A character of a derivation. -/
def IsSourceChar (c : Char) : Prop := isCommentPair c = true

theorem IsCanonicalChar.source {c : Char} (h : IsCanonicalChar c) : IsSourceChar c := by
  rw [IsSourceChar, isCommentPair, if_pos h.lt]
  exact h

theorem IsSourceChar.not_control {c : Char} (h : IsSourceChar c) :
    c = '\t' ∨ isControl c = false := by
  rw [IsSourceChar, isCommentPair] at h
  split at h
  · have hall : ∀ n < 128, isEscapable n = true →
        n = 9 ∨ isControl (Char.ofNat n) = false := by decide +kernel
    have := hall c.toNat (by assumption) h
    rw [Char.ofNat_toNat] at this
    exact this.imp (fun h9 => Char.toNat_inj.mp h9) id
  · exact .inr (by simpa using h)

/-- All characters of `s` may stand in a derivation. -/
def SourceText (s : List Char) : Prop := ∀ c ∈ s, IsSourceChar c

theorem SourceText.nil : SourceText [] := by simp [SourceText]

theorem SourceText.cons {c : Char} {s : List Char} (hc : IsSourceChar c) (hs : SourceText s) :
    SourceText (c :: s) := List.forall_mem_cons.mpr ⟨hc, hs⟩

theorem SourceText.append {a b : List Char} (ha : SourceText a) (hb : SourceText b) :
    SourceText (a ++ b) := List.forall_mem_append.mpr ⟨ha, hb⟩

theorem CommentBody.source {b : List Char} (h : CommentBody b) : SourceText b := by
  induction h with
  | nil => exact .nil
  | text hc _ ih =>
    simp only [isCtext, Bool.and_eq_true] at hc
    exact .cons hc.1.1.1 ih
  | pair hc _ ih => exact .cons rfl (.cons hc ih)
  | nested _ _ ihb ihs => exact .cons rfl (ihb.append (.cons rfl ihs))

theorem Cfws.source {a : List Char} (h : Cfws a) : SourceText a := by
  induction h with
  | nil => exact .nil
  | @blank c _ hc _ ih =>
    have hcanon : IsCanonicalChar c := by rw [IsCanonicalChar, isEscapable, hc, Bool.true_or]
    exact .cons hcanon.source ih
  | comment hb _ ih => exact .cons rfl (hb.source.append (.cons rfl ih))

theorem LiteralBody.source {s canon : List Char} (h : LiteralBody s canon) : SourceText s := by
  induction h with
  | nil => exact .nil
  | @blank c _ _ hc _ ih =>
    have hcanon : IsCanonicalChar c := by rw [IsCanonicalChar, isEscapable, hc, Bool.true_or]
    exact .cons hcanon.source ih
  | @text c _ _ hc _ ih => exact .cons (IsCanonicalChar.source (isEscapable_of_isDtext hc)) ih
  | @pair c _ _ hc _ ih => exact .cons rfl (.cons (IsCanonicalChar.source hc) ih)

theorem DotSeparated.source {P : List Char → Prop} (hP : ∀ w, P w → SourceText w)
    {s canon : List Char} (h : DotSeparated P s canon) : SourceText s := by
  induction h with
  | last ha hw hb => exact (ha.source.append (hP _ hw)).append hb.source
  | dot ha hw hb _ ih =>
    exact ((ha.source.append (hP _ hw)).append hb.source).append (.cons rfl ih)

theorem IdRight.source {s canon : List Char} (h : IdRight s canon) : SourceText s := by
  cases h with
  | domain h => exact h.source fun _ hw c hc => (hw.canonicalChar c hc).source
  | literal ha hs _ hb =>
    exact ha.source.append (.cons rfl (hs.source.append (.cons rfl hb.source)))

theorem MsgId.source {s canon : List Char} (h : MsgId s canon) : SourceText s := by
  obtain ⟨hleft, hright⟩ := h
  exact (hleft.source fun _ hw c hc => (hw.canonicalChar c hc).source).append
    (.cons rfl hright.source)

end Rfc5322
