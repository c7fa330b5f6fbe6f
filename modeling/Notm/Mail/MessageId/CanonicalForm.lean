import Notm.Mail.MessageId.DelimiterScan
import Notm.Mail.MessageId.ObsoleteForms
import Notm.Mail.MessageId.StrictForms

/-!
# The canonical form of an identifier

`strip_obsolete_message_id_cfws` drops what is semantically empty. Together with the separator
and the checks of the two sides this decides `canonical_message_id_core`.

* `stripFrom_byte` and the lemmas under it — the stripping loop, character by character.
* `canonicalMessageIdCore_eq_ok` — what is asked of a bracketed text, check by check.
* `canonicalMessageIdCore_obsolete_iff` — the identifiers of the obsolete grammar, in canonical
  form.
* `canonicalMessageIdCore_strict_iff` — the modern identifiers, as they are.
-/

namespace Notm.Mail

open Rust Rfc5322
open Utf8 (At leadByte)

variable {field : String} {value : Str}

/-! ## Stripping -/

/-- The state of the stripping loop outside of quotes and literals. -/
def StripScan.neutral : StripScan := ⟨false, false, false⟩

/-- The state of the stripping loop behind an opening quote. -/
def StripScan.inQuotes (escaped : Bool) : StripScan := ⟨true, false, escaped⟩

/-- The state of the stripping loop behind an opening bracket. -/
def StripScan.inLiteral (escaped : Bool) : StripScan := ⟨false, true, escaped⟩

/-- One step of the stripping loop. -/
theorem stripFrom_byte {index : Nat} {byte : UInt8} (h : byteAt value index = some byte)
    (scan : StripScan) (canonical : Bytes) :
    stripFrom field value index scan canonical =
      if scan.escaped then
        stripFrom field value (index + 1) { scan with escaped := false } (canonical ++ [byte])
      else if (scan.quoted || scan.literal) && byte = 0x5C then
        stripFrom field value (index + 1) { scan with escaped := true } (canonical ++ [byte])
      else if !scan.literal && byte = 0x22 then
        stripFrom field value (index + 1) { scan with quoted := !scan.quoted } (canonical ++ [byte])
      else if !scan.quoted && byte = 0x5B then
        stripFrom field value (index + 1) { scan with literal := true } (canonical ++ [byte])
      else if scan.literal && byte = 0x5D then
        stripFrom field value (index + 1) { scan with literal := false } (canonical ++ [byte])
      else if !scan.quoted && isBlank byte.toNat then
        stripFrom field value (index + 1) scan canonical
      else if !scan.quoted && !scan.literal && byte = 0x28 then
        match skipObsoleteMessageIdComment field value index with
        | .error fault => .error fault
        | .ok next => stripFrom field value next scan canonical
      else stripFrom field value (index + 1) scan (canonical ++ [byte]) := by
  rw [stripFrom]
  split
  · next hnone => rw [h] at hnone; cases hnone
  next byte' hbyte =>
  rw [h] at hbyte
  cases hbyte
  cases skipObsoleteMessageIdComment field value index <;> rfl

/-- The loop goes over `s` from one state to another and keeps `canon` of it. -/
def Strips (field : String) (value : Str) (scan scan' : StripScan) (s canon : Str) : Prop :=
  ∀ (index : Nat) (rest : Str) (canonical : Bytes), At value index (s ++ rest) →
    stripFrom field value index scan canonical =
      stripFrom field value (index + Utf8.len s) scan' (canonical ++ Utf8.encode canon)

namespace Strips

variable {scan scan' scan'' : StripScan}

theorem nil : Strips field value scan scan [] [] := by
  intro index rest canonical _
  rw [Utf8.encode_nil, List.append_nil]
  rfl

theorem append {a b canon canon' : Str} (ha : Strips field value scan scan' a canon)
    (hb : Strips field value scan' scan'' b canon') :
    Strips field value scan scan'' (a ++ b) (canon ++ canon') := by
  intro index rest canonical h
  rw [List.append_assoc] at h
  rw [ha _ _ canonical h, hb _ _ _ h.advance, Utf8.len_append, Utf8.encode_append, Nat.add_assoc,
    List.append_assoc]

/-- One ASCII character, by the step of the loop on its byte. -/
theorem char {c : Char} {canon : Str} (hasc : c.toNat < 128)
    (hstep : ∀ (index : Nat) (canonical : Bytes), byteAt value index = some (leadByte c) →
      stripFrom field value index scan canonical =
        stripFrom field value (index + 1) scan' (canonical ++ Utf8.encode canon)) :
    Strips field value scan scan' [c] canon := by
  intro index rest canonical h
  rw [hstep index canonical (byteAt_cons h), Utf8.len_cons, Utf8.utf8Size_ascii hasc]
  rfl

/-- A character outside of everything that is kept as it is. -/
theorem keep {c : Char} (hasc : c.toNat < 128) (hblank : isBlank c.toNat = false)
    (hc : c ≠ '"' ∧ c ≠ '[' ∧ c ≠ '(') :
    Strips field value .neutral .neutral [c] [c] := by
  have hquote : leadByte c ≠ 0x22 := leadByte_ne (d := '"') (by decide) rfl hc.1
  have hopen : leadByte c ≠ 0x5B := leadByte_ne (d := '[') (by decide) rfl hc.2.1
  have hparen : leadByte c ≠ 0x28 := leadByte_ne (d := '(') (by decide) rfl hc.2.2
  refine char hasc fun index canonical hbyte => ?_
  rw [stripFrom_byte hbyte, Utf8.encode_cons_ascii hasc]
  simp [StripScan.neutral, hblank, hquote, hopen, hparen]

theorem blank {c : Char} (hc : isBlank c.toNat = true) :
    Strips field value .neutral .neutral [c] [] := by
  have hquote : leadByte c ≠ 0x22 := leadByte_ne (d := '"') (by decide) rfl (ne_of_class hc rfl)
  have hopen : leadByte c ≠ 0x5B := leadByte_ne (d := '[') (by decide) rfl (ne_of_class hc rfl)
  refine char (isBlank_ascii hc) fun index canonical hbyte => ?_
  rw [stripFrom_byte hbyte]
  simp [StripScan.neutral, hc, hquote, hopen]

theorem comment {body : Str} (hbody : CommentBody body) :
    Strips field value .neutral .neutral ('(' :: (body ++ [')'])) [] := by
  intro index rest canonical h
  have hparen : At value index ('(' :: (body ++ ')' :: rest)) := by simpa using h
  have hopen := hparen.step_ascii (by decide)
  have hskip : skipObsoleteMessageIdComment field value index =
      .ok (index + 1 + Utf8.len body + 1) := by
    rw [skipObsoleteMessageIdComment, skipComment_body hbody 0 hopen,
      skipComment_cons 0 hopen.advance, if_neg (by decide), if_neg (by decide), if_pos rfl,
      skipComment_zero]
  have hlen : index + Utf8.len ('(' :: (body ++ [')'])) = index + 1 + Utf8.len body + 1 := by
    simp only [Utf8.len_cons, Utf8.len_append, Utf8.len_nil]
    rw [Utf8.utf8Size_ascii (c := '(') (by decide), Utf8.utf8Size_ascii (c := ')') (by decide)]
    omega
  have hlead : leadByte '(' = 0x28 := rfl
  rw [stripFrom_byte (byteAt_cons hparen), hskip, hlead, hlen]
  simp [StripScan.neutral, isBlank]

theorem cfws {a : Str} (ha : Cfws a) : Strips field value .neutral .neutral a [] := by
  induction ha with
  | nil => exact nil
  | blank hc _ ih => exact (blank hc).append ih
  | comment hb _ ih => simpa using (comment hb).append ih

theorem atext {w : Str} (hw : ∀ c ∈ w, Rfc5322.isAtext c.toNat = true) :
    Strips field value .neutral .neutral w w := by
  induction w with
  | nil => exact nil
  | cons c w ih =>
    have hc := hw c (by simp)
    have hplain : Plain (c :: w) := plain_atext hc
    rw [plain_cons] at hplain
    have hne : c ≠ '"' ∧ c ≠ '[' := by
      constructor <;> exact ne_of_class hc (by decide +kernel)
    exact (keep (isAtext_ascii hc) hplain.1 ⟨hne.1, hne.2, hplain.2⟩).append
      (ih fun c hc => hw c (by simp [hc]))

/-- A quoted pair in quotes or in a literal. -/
theorem pair {c : Char} (hc : Rfc5322.isEscapable c.toNat = true) {quoted literal : Bool}
    (hinside : (quoted || literal) = true) :
    Strips field value ⟨quoted, literal, false⟩ ⟨quoted, literal, false⟩ ['\\', c] ['\\', c] := by
  have hslash : Strips field value ⟨quoted, literal, false⟩ ⟨quoted, literal, true⟩
      ['\\'] ['\\'] := by
    refine char (by decide) fun index canonical hbyte => ?_
    have hlead : leadByte '\\' = 0x5C := rfl
    rw [stripFrom_byte hbyte, hlead]
    simp only [hinside]
    rfl
  have hchar : Strips field value ⟨quoted, literal, true⟩ ⟨quoted, literal, false⟩ [c] [c] := by
    refine char (isEscapable_ascii hc) fun index canonical hbyte => ?_
    rw [stripFrom_byte hbyte, if_pos rfl, Utf8.encode_cons_ascii (isEscapable_ascii hc)]
    rfl
  exact hslash.append hchar

theorem quotedBody {body : Str} (hbody : QuotedBody body) :
    Strips field value (.inQuotes false) (.inQuotes false) body body := by
  induction hbody with
  | nil => exact nil
  | @text c s hc _ ih =>
    have hslash : leadByte c ≠ 0x5C := leadByte_ne (d := '\\') (by decide) rfl (ne_of_class hc rfl)
    have hquote : leadByte c ≠ 0x22 := leadByte_ne (d := '"') (by decide) rfl (ne_of_class hc rfl)
    have hchar : Strips field value (.inQuotes false) (.inQuotes false) [c] [c] := by
      refine char (isQtext_ascii hc) fun index canonical hbyte => ?_
      rw [stripFrom_byte hbyte, Utf8.encode_cons_ascii (isQtext_ascii hc)]
      simp [StripScan.inQuotes, hslash, hquote]
    exact hchar.append ih
  | pair hc _ ih => exact (pair hc rfl).append ih

theorem literalBody {body canon : Str} (hbody : LiteralBody body canon) :
    Strips field value (.inLiteral false) (.inLiteral false) body canon := by
  induction hbody with
  | nil => exact nil
  | @blank c s canon hc _ ih =>
    have hslash : leadByte c ≠ 0x5C := leadByte_ne (d := '\\') (by decide) rfl (ne_of_class hc rfl)
    have hopen : leadByte c ≠ 0x5B := leadByte_ne (d := '[') (by decide) rfl (ne_of_class hc rfl)
    have hclose : leadByte c ≠ 0x5D := leadByte_ne (d := ']') (by decide) rfl (ne_of_class hc rfl)
    have hchar : Strips field value (.inLiteral false) (.inLiteral false) [c] [] := by
      refine char (isBlank_ascii hc) fun index canonical hbyte => ?_
      rw [stripFrom_byte hbyte]
      simp [StripScan.inLiteral, hc, hslash, hopen, hclose]
    exact hchar.append ih
  | @text c s canon hc _ ih =>
    have hslash : leadByte c ≠ 0x5C := leadByte_ne (d := '\\') (by decide) rfl (ne_of_class hc rfl)
    have hopen : leadByte c ≠ 0x5B := leadByte_ne (d := '[') (by decide) rfl (ne_of_class hc rfl)
    have hclose : leadByte c ≠ 0x5D := leadByte_ne (d := ']') (by decide) rfl (ne_of_class hc rfl)
    have hchar : Strips field value (.inLiteral false) (.inLiteral false) [c] [c] := by
      refine char (isDtext_ascii hc) fun index canonical hbyte => ?_
      rw [stripFrom_byte hbyte, Utf8.encode_cons_ascii (isDtext_ascii hc)]
      simp [StripScan.inLiteral, not_isBlank_of_isDtext hc, hslash, hopen, hclose]
    exact hchar.append ih
  | pair hc _ ih => exact (pair hc rfl).append ih

theorem word {w : Str} (hw : Word w) : Strips field value .neutral .neutral w w := by
  rcases hw with hatom | ⟨body, hbody, rfl⟩
  · exact atext hatom.2
  · have hlead : leadByte '"' = 0x22 := rfl
    have hopen : Strips field value .neutral (.inQuotes false) ['"'] ['"'] := by
      refine char (by decide) fun index canonical hbyte => ?_
      rw [stripFrom_byte hbyte, hlead]
      rfl
    have hclose : Strips field value (.inQuotes false) .neutral ['"'] ['"'] := by
      refine char (by decide) fun index canonical hbyte => ?_
      rw [stripFrom_byte hbyte, hlead]
      rfl
    exact hopen.append ((quotedBody hbody).append hclose)

theorem dotSeparated {P : List Char → Prop}
    (hP : ∀ w, P w → Strips field value .neutral .neutral w w) {s canon : Str}
    (hs : DotSeparated P s canon) : Strips field value .neutral .neutral s canon := by
  induction hs with
  | last ha hw hb => simpa using ((cfws ha).append (hP _ hw)).append (cfws hb)
  | @dot a w b s canon ha hw hb _ ih =>
    have hdot : Strips field value .neutral .neutral ['.'] ['.'] :=
      keep (by decide) (by decide) (by decide)
    simpa using (((cfws ha).append (hP _ hw)).append (cfws hb)).append (hdot.append ih)

theorem idRight {s canon : Str} (hs : IdRight s canon) :
    Strips field value .neutral .neutral s canon := by
  cases hs with
  | domain h => exact dotSeparated (fun _ hw => atext hw.2) h
  | @literal a body b canon ha hbody _ hb =>
    have hopen : Strips field value .neutral (.inLiteral false) ['['] ['['] := by
      refine char (by decide) fun index canonical hbyte => ?_
      have hlead : leadByte '[' = 0x5B := rfl
      rw [stripFrom_byte hbyte, hlead]
      rfl
    have hclose : Strips field value (.inLiteral false) .neutral [']'] [']'] := by
      refine char (by decide) fun index canonical hbyte => ?_
      have hlead : leadByte ']' = 0x5D := rfl
      rw [stripFrom_byte hbyte, hlead]
      rfl
    simpa using
      (cfws ha).append (hopen.append ((literalBody hbody).append (hclose.append (cfws hb))))

theorem msgId {s canon : Str} (hs : MsgId s canon) :
    Strips field value .neutral .neutral s canon := by
  obtain ⟨hleft, hright⟩ := hs
  have hat : Strips field value .neutral .neutral ['@'] ['@'] :=
    keep (by decide) (by decide) (by decide)
  exact (dotSeparated (fun _ => word) hleft).append (hat.append (idRight hright))

end Strips

theorem stripObsoleteMessageIdCfws_of {inner canon : Str} (h : MsgId inner canon) :
    stripObsoleteMessageIdCfws field inner = .ok (Utf8.encode canon) := by
  have hstart : At inner 0 (inner ++ []) := by simpa using At.start inner
  have hend := byteAt_nil hstart.advance
  have hstrip : Strips field inner .neutral .neutral inner canon := Strips.msgId h
  rw [stripObsoleteMessageIdCfws]
  refine (hstrip 0 [] [] hstart).trans ?_
  rw [stripFrom]
  split
  · rfl
  · next byte hbyte => rw [hend] at hbyte; cases hbyte

/-! ## The separator of a text -/

theorem separatorOf_eq_ok {source : Str} {inner : Bytes} {separator : Nat} :
    separatorOf field source inner = .ok separator ↔ messageIdSeparator inner = some separator := by
  unfold separatorOf
  cases messageIdSeparator inner with
  | none => simp [bailValue]
  | some s => simp

theorem ensureValue_eq_ok {condition : Bool} {message : String} {source : Str} :
    ensureValue condition field message source = .ok () ↔ condition = true := by
  cases condition <;> simp [ensureValue, bailValue]

theorem splitSource_eq_ok {inner left right : Str} {separator : Nat}
    (hbyte : (Utf8.encode inner)[separator]? = some 0x40)
    (h : splitSource inner separator = .ok (left, right)) : inner = left ++ '@' :: right := by
  unfold splitSource at h
  split at h
  · next l r hl hr =>
    cases h
    obtain ⟨rest, rfl, rfl⟩ := Utf8.takeBytes_eq_some hl
    have hat : At (left ++ rest) (Utf8.len left) rest := ⟨left, rfl, rfl⟩
    cases rest with
    | nil => rw [hat.get_nil] at hbyte; cases hbyte
    | cons c rest =>
      rw [hat.get_cons, Option.some.injEq] at hbyte
      obtain rfl : c = '@' := (leadByte_eq_iff (by decide) rfl).mp hbyte
      rw [(hat.step_ascii (by decide)).dropBytes] at hr
      cases hr
      rfl
  · cases h

theorem splitSource_of (left right : Str) :
    splitSource (left ++ '@' :: right) (Utf8.len left) = .ok (left, right) := by
  have hat : At (left ++ '@' :: right) (Utf8.len left) ('@' :: right) := ⟨left, rfl, rfl⟩
  rw [splitSource, Utf8.takeBytes_append, (hat.step_ascii (by decide)).dropBytes]

/-! ## One identifier -/

/-- What `canonical_message_id_core` does with a bracketed text, check by check. -/
theorem canonicalMessageIdCore_eq_ok {x y : Str} {allow : Bool} :
    canonicalMessageIdCore field ('<' :: (x ++ ['>'])) allow = .ok y ↔
      (allow || isAscii ('<' :: (x ++ ['>']))) = true ∧
      ∃ sourceSeparator left right inner separator text,
        messageIdSeparator (Utf8.encode x) = some sourceSeparator ∧
        splitSource x sourceSeparator = .ok (left, right) ∧
        canonicalInner field ('<' :: (x ++ ['>'])) x left right allow = .ok inner ∧
        messageIdSeparator inner = some separator ∧
        validObsIdLeft (inner.take separator) = true ∧
        validIdRight (inner.drop (separator + 1)) = true ∧
        Utf8.decode inner = some text ∧ y = '<' :: (text ++ ['>']) := by
  have hlast : ('<' :: (x ++ ['>'])).getLast? = some '>' := by
    rw [← List.cons_append, List.getLast?_concat]
  have hinner : ('<' :: (x ++ ['>'])).tail.dropLast = x := by
    rw [List.tail_cons, List.dropLast_concat]
  unfold canonicalMessageIdCore
  simp only [List.head?_cons, hlast, hinner, beq_self_eq_true, Bool.true_and]
  constructor
  · intro h
    obtain ⟨_, hascii, h⟩ := bind_eq_ok.mp h
    obtain ⟨sourceSeparator, hsource, h⟩ := bind_eq_ok.mp h
    obtain ⟨⟨left, right⟩, hsplit, h⟩ := bind_eq_ok.mp h
    obtain ⟨inner, hstrip, h⟩ := bind_eq_ok.mp h
    obtain ⟨separator, hseparator, h⟩ := bind_eq_ok.mp h
    obtain ⟨_, hleft, h⟩ := bind_eq_ok.mp h
    obtain ⟨_, hright, h⟩ := bind_eq_ok.mp h
    obtain ⟨text, htext, h⟩ := bind_eq_ok.mp h
    exact ⟨ensureValue_eq_ok.mp hascii, sourceSeparator, left, right, inner, separator, text,
      separatorOf_eq_ok.mp hsource, hsplit, hstrip, separatorOf_eq_ok.mp hseparator,
      ensureValue_eq_ok.mp hleft, ensureValue_eq_ok.mp hright, Res.orPanic_eq_ok.mp htext,
      (pure_eq_ok.mp h).symm⟩
  · rintro ⟨hascii, sourceSeparator, left, right, inner, separator, text, hsource, hsplit, hstrip,
      hseparator, hleft, hright, htext, rfl⟩
    refine bind_eq_ok.mpr ⟨(), ensureValue_eq_ok.mpr hascii, ?_⟩
    refine bind_eq_ok.mpr ⟨_, separatorOf_eq_ok.mpr hsource, ?_⟩
    refine bind_eq_ok.mpr ⟨_, hsplit, ?_⟩
    refine bind_eq_ok.mpr ⟨_, hstrip, ?_⟩
    refine bind_eq_ok.mpr ⟨_, separatorOf_eq_ok.mpr hseparator, ?_⟩
    refine bind_eq_ok.mpr ⟨(), ensureValue_eq_ok.mpr hleft, ?_⟩
    refine bind_eq_ok.mpr ⟨(), ensureValue_eq_ok.mpr hright, ?_⟩
    exact bind_eq_ok.mpr ⟨_, Res.orPanic_eq_ok.mpr htext, rfl⟩

/-- The separator of a derivation is the one between its sides. -/
theorem messageIdSeparator_msgId {left leftCanon right rightCanon : Str}
    (hleft : IdLeft left leftCanon) (hright : IdRight right rightCanon) :
    messageIdSeparator (Utf8.encode (left ++ '@' :: right)) = some (Utf8.len left) :=
  messageIdSeparator_of (passes_idLeft (.inl rfl) hleft) (passes_idRight (.inl rfl) hright)

/-- A derivation whose canonical form is what `canonicalInner` returns is accepted. -/
theorem canonicalMessageIdCore_of {left leftCanon right rightCanon : Str} {allow : Bool}
    (hleft : IdLeft left leftCanon) (hright : IdRight right rightCanon)
    (hascii : (allow || isAscii ('<' :: (left ++ '@' :: right ++ ['>']))) = true)
    (hinner : canonicalInner field ('<' :: (left ++ '@' :: right ++ ['>'])) (left ++ '@' :: right)
      left right allow = .ok (Utf8.encode (leftCanon ++ '@' :: rightCanon))) :
    canonicalMessageIdCore field ('<' :: (left ++ '@' :: right ++ ['>'])) allow =
      .ok ('<' :: (leftCanon ++ '@' :: rightCanon ++ ['>'])) := by
  have htake : (Utf8.encode (leftCanon ++ '@' :: rightCanon)).take (Utf8.len leftCanon) =
      Utf8.encode leftCanon := by
    rw [Utf8.encode_append]
    exact List.take_left
  have hdrop : (Utf8.encode (leftCanon ++ '@' :: rightCanon)).drop (Utf8.len leftCanon + 1) =
      Utf8.encode rightCanon := by
    have hat : At (leftCanon ++ '@' :: rightCanon) (Utf8.len leftCanon) ('@' :: rightCanon) :=
      ⟨leftCanon, rfl, rfl⟩
    exact (hat.step_ascii (by decide)).drop_encode
  refine canonicalMessageIdCore_eq_ok.mpr ⟨hascii, _, _, _, _, _, _,
    messageIdSeparator_msgId hleft hright, splitSource_of left right, hinner,
    messageIdSeparator_msgId hleft.canonical hright.canonical, ?_, ?_, Utf8.decode_encode _, rfl⟩
  · rw [htake]
    exact validObsIdLeft_of hleft.dotted
  · rw [hdrop]
    exact (validIdRight_encode _).mpr hright.strict

/-- With the obsolete syntax an identifier is accepted exactly when it is one of the grammar,
in its canonical form. -/
theorem canonicalMessageIdCore_obsolete_iff {x y : Str} :
    canonicalMessageIdCore field ('<' :: (x ++ ['>'])) true = .ok y ↔
      ∃ canon, MsgId x canon ∧ y = '<' :: (canon ++ ['>']) := by
  have hcomplete : ∀ {canon}, MsgId x canon →
      canonicalMessageIdCore field ('<' :: (x ++ ['>'])) true =
        .ok ('<' :: (canon ++ ['>'])) := by
    intro canon h
    obtain ⟨hleft, hright⟩ := h
    refine canonicalMessageIdCore_of hleft hright rfl ?_
    simp only [canonicalInner, if_true, (validObsIdLeftWithCfws_iff _).mpr ⟨_, hleft⟩,
      (validObsIdRightWithCfws_iff _).mpr ⟨_, hright⟩,
      stripObsoleteMessageIdCfws_of (.mk hleft hright)]
    rfl
  constructor
  · intro h
    obtain ⟨-, _, left, right, _, _, _, hsource, hsplit, hinner, -⟩ :=
      canonicalMessageIdCore_eq_ok.mp h
    obtain rfl := splitSource_eq_ok (messageIdSeparator_eq_some hsource) hsplit
    simp only [canonicalInner, if_true] at hinner
    obtain ⟨validLeft, hvalidLeft, hinner⟩ := bind_eq_ok.mp hinner
    obtain ⟨_, hleftTrue, hinner⟩ := bind_eq_ok.mp hinner
    obtain ⟨validRight, hvalidRight, hinner⟩ := bind_eq_ok.mp hinner
    obtain ⟨_, hrightTrue, -⟩ := bind_eq_ok.mp hinner
    rw [ensureValue_eq_ok.mp hleftTrue] at hvalidLeft
    rw [ensureValue_eq_ok.mp hrightTrue] at hvalidRight
    obtain ⟨leftCanon, hleft⟩ := (validObsIdLeftWithCfws_iff _).mp hvalidLeft
    obtain ⟨rightCanon, hright⟩ := (validObsIdRightWithCfws_iff _).mp hvalidRight
    rw [hcomplete (.mk hleft hright)] at h
    cases h
    exact ⟨_, .mk hleft hright, rfl⟩
  · rintro ⟨canon, hmsg, rfl⟩
    exact hcomplete hmsg

theorem isAscii_bracketed {x : Str} (h : ∀ c ∈ x, IsCanonicalChar c) :
    isAscii ('<' :: (x ++ ['>'])) = true := by
  rw [isAscii, List.all_eq_true]
  intro c hc
  rw [decide_eq_true_eq]
  rcases List.mem_cons.mp hc with rfl | hc
  · decide
  rcases List.mem_append.mp hc with hc | hc
  · exact (h c hc).lt
  · rw [List.mem_singleton.mp hc]
    decide

theorem isAscii_strict {x : Str} (h : StrictMsgId x) : isAscii ('<' :: (x ++ ['>'])) = true :=
  isAscii_bracketed h.msgId.canonicalChar

/-- Without the obsolete syntax an identifier is accepted exactly when it is a modern one, and
is returned as it is. -/
theorem canonicalMessageIdCore_strict_iff {x y : Str} :
    canonicalMessageIdCore field ('<' :: (x ++ ['>'])) false = .ok y ↔
      StrictMsgId x ∧ y = '<' :: (x ++ ['>']) := by
  constructor
  · intro h
    obtain ⟨-, _, left, right, inner, _, text, hsource, hsplit, hinner, -, -, -, htext, rfl⟩ :=
      canonicalMessageIdCore_eq_ok.mp h
    obtain rfl := splitSource_eq_ok (messageIdSeparator_eq_some hsource) hsplit
    simp only [canonicalInner, Bool.false_eq_true, if_false] at hinner
    obtain ⟨_, hleft, hinner⟩ := bind_eq_ok.mp hinner
    obtain ⟨_, hright, hinner⟩ := bind_eq_ok.mp hinner
    obtain rfl := pure_eq_ok.mp hinner
    rw [Utf8.decode_encode] at htext
    cases htext
    exact ⟨.mk ((validDotAtom_encode _).mp (ensureValue_eq_ok.mp hleft))
      ((validIdRight_encode _).mp (ensureValue_eq_ok.mp hright)), rfl⟩
  · rintro ⟨h, rfl⟩
    have hascii := isAscii_strict h
    obtain ⟨hleft, hright⟩ := h
    have hidLeft : IdLeft _ _ := (hleft.mono fun _ => Or.inl).separated
    refine canonicalMessageIdCore_of hidLeft (idRight_strict hright) (by simpa using hascii) ?_
    simp only [canonicalInner, Bool.false_eq_true, if_false, (validDotAtom_encode _).mpr hleft,
      (validIdRight_encode _).mpr hright]
    rfl

end Notm.Mail
