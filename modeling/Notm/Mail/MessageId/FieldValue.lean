import Notm.Mail.MessageId.CanonicalForm
import Notm.Mail.MessageId.PhraseWords

/-!
# The value of a threading field

A value that `message_id_tokens` accepts is a sequence of segments: white space, comments, the
words and dots of obsolete phrases, and message identifiers. Only the last contribute.

* `Segment`, `FieldValue` — the pieces of a value, and how they may follow each other.
* `valueFrom_of` — a sequence of segments is read, and its identifiers are returned.
* `valueFrom_eq_ok` — what is read is such a sequence.
-/

namespace Notm.Mail

open Rust Rfc5322
open Utf8 (At leadByte)

/-! ## Segments -/

/-- A piece of a field value. -/
inductive Segment where
  | blank (c : Char)
  | comment (body : Str)
  | atom (word : Str)
  | quoted (body : Str)
  | encoded (charset encoding text : Str)
  | dot
  /-- What stands between the angle brackets, and its canonical form. -/
  | id (source canon : Str)

/-- The characters of a segment. -/
def Segment.text : Segment → Str
  | blank c => [c]
  | comment body => '(' :: (body ++ [')'])
  | atom word => word
  | quoted body => '"' :: (body ++ ['"'])
  | encoded charset encoding text => encodedWord charset encoding text
  | dot => ['.']
  | id source _ => '<' :: (source ++ ['>'])

theorem len_comment (body : Str) :
    Utf8.len (Segment.comment body).text = 1 + (Utf8.len body + 1) := by
  simp only [Segment.text, Utf8.len_cons, Utf8.len_append, Utf8.len_nil]
  rw [Utf8.utf8Size_ascii (c := '(') (by decide), Utf8.utf8Size_ascii (c := ')') (by decide)]

theorem len_id (source canon : Str) :
    Utf8.len (Segment.id source canon).text = 1 + (Utf8.len source + 1) := by
  simp only [Segment.text, Utf8.len_cons, Utf8.len_append, Utf8.len_nil]
  rw [Utf8.utf8Size_ascii (c := '<') (by decide), Utf8.utf8Size_ascii (c := '>') (by decide)]

/-- The identifier that a segment contributes. -/
def Segment.id? : Segment → Option Str
  | id _ canon => some ('<' :: (canon ++ ['>']))
  | _ => none

/-- The characters of a value. -/
def textOf (segments : List Segment) : Str := segments.flatMap Segment.text

/-- The identifiers of a value. -/
def idsOf (segments : List Segment) : List Str := segments.filterMap Segment.id?

@[simp] theorem textOf_nil : textOf [] = [] := rfl

@[simp] theorem textOf_cons (segment : Segment) (segments : List Segment) :
    textOf (segment :: segments) = segment.text ++ textOf segments := rfl

@[simp] theorem idsOf_nil : idsOf [] = [] := rfl

/-- What may stand between angle brackets, with its canonical form. -/
def AcceptsId (allow : Bool) (source canon : Str) : Prop :=
  if allow then MsgId source canon else StrictMsgId source ∧ canon = source

theorem AcceptsId.msgId {allow : Bool} {source canon : Str} (h : AcceptsId allow source canon) :
    MsgId source canon := by
  cases allow with
  | true => exact h
  | false =>
    obtain ⟨hstrict, rfl⟩ := h
    exact hstrict.msgId

theorem AcceptsId.canonical {allow : Bool} {source canon : Str}
    (h : AcceptsId allow source canon) : AcceptsId allow canon canon := by
  cases allow with
  | true => exact MsgId.canonical h
  | false =>
    obtain ⟨hstrict, rfl⟩ := h
    exact ⟨hstrict, rfl⟩

theorem canonicalMessageIdCore_iff {field : String} {allow : Bool} {x y : Str} :
    canonicalMessageIdCore field ('<' :: (x ++ ['>'])) allow = .ok y ↔
      ∃ canon, AcceptsId allow x canon ∧ y = '<' :: (canon ++ ['>']) := by
  cases allow with
  | true => exact canonicalMessageIdCore_obsolete_iff
  | false =>
    rw [canonicalMessageIdCore_strict_iff]
    constructor
    · rintro ⟨hstrict, rfl⟩
      exact ⟨x, ⟨hstrict, rfl⟩, rfl⟩
    · rintro ⟨canon, ⟨hstrict, rfl⟩, rfl⟩
      exact ⟨hstrict, rfl⟩

/-- A word of a phrase with `rest` behind it: an encoded word stands by itself (`start` says that
nothing or a blank stands before it), and an atom is as long as it can be. -/
inductive PhraseWord : Bool → Str → Segment → Prop where
  | atom {start : Bool} {rest word : Str} (hne : word ≠ [])
      (hword : ∀ c ∈ word, isPhraseAtomChar c = true) (hopen : ¬ ['=', '?'] <+: word)
      (hends : EndsPhraseAtom rest) : PhraseWord start rest (.atom word)
  | quoted {start : Bool} {rest body : Str} (hbody : PhraseQuotedBody body) :
      PhraseWord start rest (.quoted body)
  | encoded {rest charset encoding text : Str} (hword : EncodedWordSyntax charset encoding text)
      (hends : EndsEncodedWord rest) : PhraseWord true rest (.encoded charset encoding text)

/-- The segments of a value follow each other well. A dot stands behind a word of a phrase, and
`phrase` says that one has begun. Phrases need the obsolete syntax, which `allow` says. -/
inductive FieldValue (allow : Bool) : Bool → Bool → List Segment → Prop where
  | nil {start phrase : Bool} : FieldValue allow start phrase []
  | blank {start phrase : Bool} {c : Char} {segments : List Segment}
      (hc : isBlank c.toNat = true) (hs : FieldValue allow true phrase segments) :
      FieldValue allow start phrase (.blank c :: segments)
  | comment {start phrase : Bool} {body : Str} {segments : List Segment}
      (hbody : CommentBody body) (hs : FieldValue allow false phrase segments) :
      FieldValue allow start phrase (.comment body :: segments)
  | word {start phrase : Bool} {segment : Segment} {segments : List Segment}
      (hallow : allow = true) (hword : PhraseWord start (textOf segments) segment)
      (hs : FieldValue allow false true segments) :
      FieldValue allow start phrase (segment :: segments)
  | dot {start : Bool} {segments : List Segment} (hallow : allow = true)
      (hs : FieldValue allow false true segments) :
      FieldValue allow start true (.dot :: segments)
  | id {start phrase : Bool} {source canon : Str} {segments : List Segment}
      (hid : AcceptsId allow source canon) (hs : FieldValue allow false false segments) :
      FieldValue allow start phrase (.id source canon :: segments)

variable {field : String} {value : Str} {allow : Bool} {index : Nat} {ids : List Str}

/-! ## The loops step by step -/

/-- What the loop of a phrase does behind comments and white space. -/
def phraseAt (field : String) (value : Str) (start : Nat) : Res Nat :=
  match byteAt value start with
  | none => .ok start
  | some byte =>
    if byte = 0x3C then .ok start
    else if byte = 0x2E then phraseFrom field value (start + 1)
    else
      match parseObsoleteThreadingWord field value start with
      | .error fault => .error fault
      | .ok next => phraseFrom field value next

theorem phraseFrom_eq (field : String) (value : Str) (index : Nat) :
    phraseFrom field value index = match skipMessageIdCfws field value index with
      | .error fault => .error fault
      | .ok start => phraseAt field value start := by
  rw [phraseFrom]
  split
  · next fault hskip => rw [hskip]
  · next start hskip =>
    rw [hskip]
    simp only [phraseAt]
    split
    · next hbyte => rw [hbyte]
    · next byte hbyte =>
      rw [hbyte]
      simp only
      cases parseObsoleteThreadingWord field value start <;> rfl

/-- What the loop of a value does behind comments and white space. -/
def messageIdsAt (field : String) (value : Str) (allow : Bool) (start : Nat) (ids : List Str) :
    Res (List Str) :=
  match byteAt value start with
  | none => .ok ids
  | some byte =>
    if byte ≠ 0x3C then
      if !allow then bailNear field value start " contains text outside a message identifier"
      else
        match parseObsoleteThreadingPhrase field value start with
        | .error fault => .error fault
        | .ok next => messageIdsFrom field value allow next ids
    else
      match findMessageIdEnd field value (start + 1) with
      | .error fault => .error fault
      | .ok stop =>
        match sliceThrough value start stop >>= fun id =>
          canonicalMessageIdCore field id allow with
        | .error fault => .error fault
        | .ok id => messageIdsFrom field value allow (stop + 1) (ids ++ [id])

theorem messageIdsFrom_eq (field : String) (value : Str) (allow : Bool) (index : Nat)
    (ids : List Str) :
    messageIdsFrom field value allow index ids =
      if index < (Utf8.encode value).length then
        match skipMessageIdCfws field value index with
        | .error fault => .error fault
        | .ok start => messageIdsAt field value allow start ids
      else .ok ids := by
  rw [messageIdsFrom]
  split
  · split
    · next fault hskip => rw [hskip]
    · next start hskip =>
      rw [hskip]
      simp only [messageIdsAt]
      split
      · next hbyte => rw [hbyte]
      · next byte hbyte =>
        rw [hbyte]
        simp only
        cases parseObsoleteThreadingPhrase field value start <;>
          cases findMessageIdEnd field value (start + 1) <;> rfl
  · rfl

/-- The rest of the scan, in a phrase or outside of one. -/
def valueFrom (field : String) (value : Str) (allow phrase : Bool) (index : Nat)
    (ids : List Str) : Res (List Str) :=
  if phrase then
    match phraseFrom field value index with
    | .error fault => .error fault
    | .ok next => messageIdsFrom field value allow next ids
  else messageIdsFrom field value allow index ids

theorem lt_length {c : Char} {rest : Str} (h : At value index (c :: rest)) :
    index < (Utf8.encode value).length :=
  lt_of_byteAt (byteAt_cons h)

theorem not_lt_length (h : At value index []) : ¬ index < (Utf8.encode value).length := by
  rw [(length_eq_iff h).mpr rfl]
  exact Nat.lt_irrefl _

theorem valueFrom_nil (phrase : Bool) (h : At value index []) :
    valueFrom field value allow phrase index ids = .ok ids := by
  have hids : messageIdsFrom field value allow index ids = .ok ids := by
    rw [messageIdsFrom_eq, if_neg (not_lt_length h)]
  cases phrase with
  | false => exact hids
  | true =>
    rw [valueFrom, if_pos rfl, phraseFrom_eq, skipMessageIdCfws_plain h .nil]
    simp only [phraseAt, byteAt_nil h]
    exact hids

/-- What is skipped makes no difference. -/
theorem valueFrom_skip {next : Nat} {c : Char} {rest rest' : Str} (phrase : Bool)
    (h : At value index (c :: rest)) (hnext : At value next rest')
    (hskip : skipMessageIdCfws field value index = skipMessageIdCfws field value next) :
    valueFrom field value allow phrase index ids = valueFrom field value allow phrase next ids := by
  cases phrase with
  | true =>
    rw [valueFrom, valueFrom, if_pos rfl, if_pos rfl, phraseFrom_eq, hskip, ← phraseFrom_eq]
  | false =>
    have hlt := lt_length h
    rw [valueFrom, valueFrom, if_neg (by decide), if_neg (by decide), messageIdsFrom_eq,
      messageIdsFrom_eq field value allow next, if_pos hlt, hskip]
    cases rest' with
    | nil =>
      rw [if_neg (not_lt_length hnext), skipMessageIdCfws_plain hnext .nil]
      simp only [messageIdsAt, byteAt_nil hnext]
    | cons c' rest' => rw [if_pos (lt_length hnext)]

theorem valueFrom_error {fault : Fault} {c : Char} {rest : Str} (phrase : Bool)
    (h : At value index (c :: rest)) (hskip : skipMessageIdCfws field value index = .error fault) :
    valueFrom field value allow phrase index ids = .error fault := by
  cases phrase with
  | true => rw [valueFrom, if_pos rfl, phraseFrom_eq, hskip]
  | false => rw [valueFrom, if_neg (by decide), messageIdsFrom_eq, if_pos (lt_length h), hskip]

theorem valueFrom_blank {c : Char} {rest : Str} (phrase : Bool) (h : At value index (c :: rest))
    (hc : isBlank c.toNat = true) :
    valueFrom field value allow phrase index ids =
      valueFrom field value allow phrase (index + 1) ids :=
  valueFrom_skip phrase h (h.step_ascii (isBlank_ascii hc)) (skipMessageIdCfws_blank h hc)

theorem valueFrom_comment {body rest : Str} (phrase : Bool) (hbody : CommentBody body)
    (h : At value index ('(' :: (body ++ ')' :: rest))) :
    valueFrom field value allow phrase index ids =
      valueFrom field value allow phrase (index + 1 + Utf8.len body + 1) ids := by
  have hopen := h.step_ascii (by decide)
  refine valueFrom_skip phrase h (hopen.advance.step_ascii (by decide)) ?_
  rw [skipMessageIdCfws_open h, skipComment_body hbody 0 hopen,
    skipComment_cons 0 hopen.advance, if_neg (by decide), if_neg (by decide), if_pos rfl,
    skipComment_zero]

/-- A dot in a phrase is passed over. -/
theorem valueFrom_dot {rest : Str} (h : At value index ('.' :: rest)) :
    valueFrom field value allow true index ids =
      valueFrom field value allow true (index + 1) ids := by
  have hplain : Plain ('.' :: rest) := plain_cons.mpr ⟨by decide, by decide⟩
  have hlead : leadByte '.' = 0x2E := rfl
  have hstep : phraseFrom field value index = phraseFrom field value (index + 1) := by
    rw [phraseFrom_eq, skipMessageIdCfws_plain h hplain]
    simp only [phraseAt, byteAt_cons h, hlead]
    rw [if_neg (by decide), if_pos trivial]
  rw [valueFrom, valueFrom, if_pos rfl, if_pos rfl, hstep]

/-- Anything else outside of an identifier is a word of a phrase. -/
theorem valueFrom_word {phrase : Bool} {c : Char} {rest : Str} (h : At value index (c :: rest))
    (hplain : Plain (c :: rest)) (hid : c ≠ '<') (hdot : phrase = true → c ≠ '.') :
    valueFrom field value true phrase index ids =
      match parseObsoleteThreadingWord field value index with
      | .error fault => .error fault
      | .ok next => valueFrom field value true true next ids := by
  have hlt : leadByte c ≠ 0x3C := leadByte_ne (d := '<') (by decide) rfl hid
  cases phrase with
  | true =>
    have hne : leadByte c ≠ 0x2E := leadByte_ne (d := '.') (by decide) rfl (hdot rfl)
    rw [valueFrom, if_pos rfl, phraseFrom_eq, skipMessageIdCfws_plain h hplain]
    simp only [phraseAt, byteAt_cons h, if_neg hlt, if_neg hne]
    cases parseObsoleteThreadingWord field value index <;> rfl
  | false =>
    rw [valueFrom, if_neg (by decide), messageIdsFrom_eq, if_pos (lt_length h),
      skipMessageIdCfws_plain h hplain]
    simp only [messageIdsAt, byteAt_cons h, if_pos hlt, parseObsoleteThreadingPhrase]
    cases parseObsoleteThreadingWord field value index <;> rfl

variable (field ids) in
/-- Without the obsolete syntax nothing else may stand outside of an identifier. -/
theorem valueFrom_text {c : Char} {rest : Str} (h : At value index (c :: rest))
    (hplain : Plain (c :: rest)) (hid : c ≠ '<') :
    ∃ e, valueFrom field value false false index ids = .error (.error e) := by
  have hlt : leadByte c ≠ 0x3C := leadByte_ne (d := '<') (by decide) rfl hid
  rw [valueFrom, if_neg (by decide), messageIdsFrom_eq, if_pos (lt_length h),
    skipMessageIdCfws_plain h hplain]
  simp only [messageIdsAt, byteAt_cons h, if_pos hlt, bailNear, sliceFrom_at h]
  exact ⟨_, rfl⟩

/-- An opening angle bracket begins an identifier. -/
theorem valueFrom_id {rest : Str} (phrase : Bool) (h : At value index ('<' :: rest)) :
    valueFrom field value allow phrase index ids =
      match findMessageIdEnd field value (index + 1) with
      | .error fault => .error fault
      | .ok stop =>
        match sliceThrough value index stop >>= fun id =>
          canonicalMessageIdCore field id allow with
        | .error fault => .error fault
        | .ok id => valueFrom field value allow false (stop + 1) (ids ++ [id]) := by
  have hplain : Plain ('<' :: rest) := plain_cons.mpr ⟨by decide, by decide⟩
  have hlead : leadByte '<' = 0x3C := rfl
  have hids : messageIdsFrom field value allow index ids =
      messageIdsAt field value allow index ids := by
    rw [messageIdsFrom_eq, if_pos (lt_length h), skipMessageIdCfws_plain h hplain]
  have hany : valueFrom field value allow phrase index ids =
      messageIdsAt field value allow index ids := by
    cases phrase with
    | false => exact hids
    | true =>
      rw [valueFrom, if_pos rfl, phraseFrom_eq, skipMessageIdCfws_plain h hplain]
      simp only [phraseAt, byteAt_cons h, hlead, if_true]
      exact hids
  rw [hany]
  simp only [messageIdsAt, byteAt_cons h, hlead]
  rfl

/-! ## What stands before an offset -/

theorem startsWord_after {c : Char} {rest : Str} (h : At value index (c :: rest)) :
    startsWord value (index + c.utf8Size) = isBlank c.toNat := by
  have hpos := c.utf8Size_pos
  have hlen : (String.utf8EncodeChar c).length = c.utf8Size := String.length_utf8EncodeChar c
  have hbyte : byteAt value (index + c.utf8Size - 1) =
      (String.utf8EncodeChar c)[c.utf8Size - 1]? := by
    rw [byteAt, Nat.add_sub_assoc hpos, h.getElem?, Utf8.encode_cons,
      List.getElem?_append_left (by omega)]
  have hzero : (index + c.utf8Size == 0) = false := by
    rw [beq_eq_false_iff_ne]
    omega
  rw [startsWord, hzero, Bool.false_or, hbyte]
  by_cases hasc : c.toNat < 128
  · have hone : String.utf8EncodeChar c = [leadByte c] := by
      simpa using Utf8.encode_cons_ascii hasc []
    rw [Utf8.utf8Size_ascii hasc, hone]
    simp
  · rw [isBlank_of_ge (Nat.le_of_not_lt hasc)]
    cases hlast : (String.utf8EncodeChar c)[c.utf8Size - 1]? with
    | none => rfl
    | some b =>
      have := Utf8.encodeChar_not_ascii (Nat.le_of_not_lt hasc) b (List.mem_of_getElem? hlast)
      exact isBlank_of_ge this

/-- An encoded word does not stand right behind the segment. -/
def Segment.Closed (segment : Segment) : Prop :=
  ∃ front last, segment.text = front ++ [last] ∧ isBlank last.toNat = false

theorem startsWord_closed {segment : Segment} {rest : Str} (hclosed : segment.Closed)
    (h : At value index (segment.text ++ rest)) :
    startsWord value (index + Utf8.len segment.text) = false := by
  obtain ⟨front, last, htext, hblank⟩ := hclosed
  rw [htext] at h ⊢
  have hlast : At value (index + Utf8.len front) (last :: rest) :=
    At.advance (t := front) (by simpa using h)
  rw [Utf8.len_append, Utf8.len_cons, Utf8.len_nil, Nat.add_zero, ← Nat.add_assoc,
    startsWord_after hlast, hblank]

theorem isBlank_phraseAtomChar {c : Char} (h : isPhraseAtomChar c = true) :
    isBlank c.toNat = false := by
  rw [isPhraseAtomChar] at h
  split at h
  · have hplain : Plain [c] := plain_atext h
    exact (plain_cons.mp hplain).1
  · next hasc => exact isBlank_of_ge (Nat.le_of_not_lt hasc)

theorem closed_word {start : Bool} {rest : Str} {segment : Segment}
    (h : PhraseWord start rest segment) : segment.Closed := by
  cases h with
  | @atom _ _ word hne hword _ _ =>
    exact ⟨word.dropLast, word.getLast hne, (List.dropLast_append_getLast hne).symm,
      isBlank_phraseAtomChar (hword _ (List.getLast_mem hne))⟩
  | @quoted _ _ body _ => exact ⟨'"' :: body, '"', rfl, by decide⟩
  | @encoded _ charset encoding text _ _ =>
    exact ⟨'=' :: '?' :: (charset ++ '?' :: (encoding ++ '?' :: (text ++ ['?']))), '=',
      by simp [Segment.text, encodedWord], by decide⟩

theorem idsOf_word {start : Bool} {rest : Str} {segment : Segment}
    (h : PhraseWord start rest segment) (segments : List Segment) :
    idsOf (segment :: segments) = idsOf segments := by
  cases h <;> rfl

theorem closed_comment (body : Str) : (Segment.comment body).Closed :=
  ⟨'(' :: body, ')', rfl, by decide⟩

theorem closed_dot : Segment.dot.Closed := ⟨[], '.', rfl, by decide⟩

theorem closed_id (source canon : Str) : (Segment.id source canon).Closed :=
  ⟨'<' :: source, '>', rfl, by decide⟩

/-! ## Words of a phrase -/

theorem opensEncodedWord_iff {rest : Str} (h : At value index rest) :
    (byteAt value index = some 0x3D ∧ byteAt value (index + 1) = some 0x3F) ↔
      ['=', '?'] <+: rest := by
  cases rest with
  | nil => simp [byteAt_nil h]
  | cons c rest =>
    rw [byteAt_cons h, Option.some.injEq, leadByte_eq_iff (d := '=') (by decide) rfl,
      List.cons_prefix_cons, eq_comm]
    refine and_congr_right ?_
    rintro rfl
    have hafter := h.step_ascii (by decide)
    cases rest with
    | nil => simp [byteAt_nil hafter]
    | cons d rest =>
      rw [byteAt_cons hafter, Option.some.injEq, leadByte_eq_iff (d := '?') (by decide) rfl,
        List.cons_prefix_cons, eq_comm]
      simp

theorem not_opensEncodedWord {word rest : Str} (hopen : ¬ ['=', '?'] <+: word) (hne : word ≠ [])
    (hends : EndsPhraseAtom rest) : ¬ ['=', '?'] <+: word ++ rest := by
  intro hearlier
  cases word with
  | nil => exact hne rfl
  | cons c word =>
    rw [List.cons_append, List.cons_prefix_cons] at hearlier
    obtain ⟨rfl, hearlier⟩ := hearlier
    cases word with
    | nil =>
      cases rest with
      | nil => simp at hearlier
      | cons d rest =>
        rw [List.nil_append, List.cons_prefix_cons] at hearlier
        obtain ⟨rfl, -⟩ := hearlier
        exact absurd (hends '?' rfl).2 (by decide +kernel)
    | cons d word =>
      rw [List.cons_append, List.cons_prefix_cons] at hearlier
      obtain ⟨rfl, -⟩ := hearlier
      exact hopen (by simp [List.cons_prefix_cons])

theorem byteAt_quote_iff {rest : Str} (h : At value index rest) :
    byteAt value index = some 0x22 ↔ rest.head? = some '"' := by
  cases rest with
  | nil => simp [byteAt_nil h]
  | cons c rest =>
    rw [byteAt_cons h, Option.some.injEq, leadByte_eq_iff (d := '"') (by decide) rfl]
    simp

/-- A word of a phrase does not begin like anything else. -/
theorem word_opens {start : Bool} {rest : Str} {segment : Segment}
    (h : PhraseWord start rest segment) (rest' : Str) :
    ∃ c tail, segment.text ++ rest' = c :: tail ∧ Plain (c :: tail) ∧ c ≠ '<' ∧ c ≠ '.' := by
  cases h with
  | @atom _ _ word hne hword _ _ =>
    obtain ⟨c, word, rfl⟩ := List.exists_cons_of_ne_nil hne
    have hc := hword c (by simp)
    have hne : c ≠ '(' ∧ c ≠ '<' ∧ c ≠ '.' := by
      refine ⟨?_, ?_, ?_⟩ <;> (rintro rfl; exact absurd hc (by decide +kernel))
    exact ⟨c, word ++ rest', rfl, plain_cons.mpr ⟨isBlank_phraseAtomChar hc, hne.1⟩, hne.2⟩
  | @quoted _ _ body _ =>
    exact ⟨'"', body ++ ['"'] ++ rest', rfl, plain_cons.mpr (by decide), by decide, by decide⟩
  | @encoded _ charset encoding text _ _ =>
    exact ⟨'=', _, rfl, plain_cons.mpr (by decide), by decide, by decide⟩

theorem parseObsoleteThreadingWord_of {rest : Str} {segment : Segment}
    (hword : PhraseWord (startsWord value index) rest segment)
    (h : At value index (segment.text ++ rest)) :
    parseObsoleteThreadingWord field value index = .ok (index + Utf8.len segment.text) := by
  generalize hstart : startsWord value index = start at hword
  unfold parseObsoleteThreadingWord
  cases hword with
  | @atom _ _ word hne hword hopen hends =>
    have hquote : ¬ byteAt value index = some 0x22 := by
      rw [byteAt_quote_iff h]
      obtain ⟨c, w, rfl⟩ := List.exists_cons_of_ne_nil hne
      intro hc
      cases hc
      exact absurd (hword '"' (by simp)) (by decide +kernel)
    rw [if_neg (by rw [opensEncodedWord_iff h]; exact not_opensEncodedWord hopen hne hends),
      if_neg hquote, parseObsoleteThreadingAtom_of hne hword hends h]
    rfl
  | @quoted _ _ body hbody =>
    have hopen : At value index ('"' :: (body ++ '"' :: rest)) := by
      simpa [Segment.text] using h
    have hlen : index + Utf8.len (Segment.quoted body).text = index + 1 + Utf8.len body + 1 := by
      simp only [Segment.text, Utf8.len_cons, Utf8.len_append, Utf8.len_nil]
      rw [Utf8.utf8Size_ascii (c := '"') (by decide)]
      omega
    rw [if_neg (by rw [opensEncodedWord_iff hopen, List.cons_prefix_cons]; simp),
      if_pos ((byteAt_quote_iff hopen).mpr rfl), parseObsoleteThreadingQuotedWord,
      threadingQuotedWordFrom_of hbody (hopen.step_ascii (by decide)), hlen]
    rfl
  | @encoded _ charset encoding text hword hends =>
    have hopen : ['=', '?'] <+: (Segment.encoded charset encoding text).text ++ rest := by
      simp [Segment.text, encodedWord, List.cons_prefix_cons]
    rw [if_pos ((opensEncodedWord_iff h).mpr hopen)]
    exact parseObsoleteThreadingEncodedWord_of hword hstart hends h

theorem parseObsoleteThreadingWord_eq_ok {rest : Str} {next : Nat} (h : At value index rest)
    (heq : parseObsoleteThreadingWord field value index = .ok next) :
    ∃ segment rest', rest = segment.text ++ rest' ∧
      PhraseWord (startsWord value index) rest' segment ∧
      next = index + Utf8.len segment.text := by
  unfold parseObsoleteThreadingWord at heq
  -- An encoded word, a quoted word or an atom, by how the word begins.
  split at heq
  · next hopen =>
    obtain ⟨rest, rfl⟩ := (opensEncodedWord_iff h).mp hopen
    obtain ⟨charset, encoding, text, rest', hrest, hword, hstart, hends, rfl⟩ :=
      parseObsoleteThreadingEncodedWord_eq_ok h heq
    rw [hstart]
    exact ⟨.encoded charset encoding text, rest', hrest, .encoded hword hends, rfl⟩
  next hopen =>
  rw [opensEncodedWord_iff h] at hopen
  split at heq
  · next hquote =>
    cases rest with
    | nil => rw [byteAt_nil h] at hquote; cases hquote
    | cons c rest =>
    obtain rfl : c = '"' := Option.some.inj ((byteAt_quote_iff h).mp hquote)
    obtain ⟨found, hfound, heq⟩ := bind_eq_ok.mp heq
    rw [okOrNear_eq_ok] at heq
    subst heq
    rcases threadingQuotedWordFrom_cases (h.step_ascii (by decide)) with
      hnone | ⟨body, rest', rfl, hbody, hsome⟩
    · rw [parseObsoleteThreadingQuotedWord, hnone] at hfound
      cases hfound
    · rw [parseObsoleteThreadingQuotedWord, hsome] at hfound
      cases hfound
      refine ⟨.quoted body, rest', by simp [Segment.text], .quoted hbody, ?_⟩
      simp only [Segment.text, Utf8.len_cons, Utf8.len_append, Utf8.len_nil]
      rw [Utf8.utf8Size_ascii (c := '"') (by decide)]
      omega
  · obtain ⟨found, hfound, heq⟩ := bind_eq_ok.mp heq
    rw [okOrNear_eq_ok] at heq
    subst heq
    rcases parseObsoleteThreadingAtom_cases h with
      hnone | ⟨word, rest', rfl, hne, hword, hends, hsome⟩
    · rw [hnone] at hfound
      cases hfound
    · rw [hsome] at hfound
      cases hfound
      exact ⟨.atom word, rest', rfl,
        .atom hne hword (fun hp => hopen (hp.trans (List.prefix_append _ _))) hends, rfl⟩

/-! ## Identifiers -/

theorem passes_msgId {source canon : Str} (h : MsgId source canon) : Passes 0x3E source := by
  obtain ⟨hleft, hright⟩ := h
  exact (passes_idLeft (.inr rfl) hleft).append
    (Passes.cons (by decide) (by decide) rfl (passes_idRight (.inr rfl) hright))

theorem findMessageIdEnd_of {source canon rest : Str} (hid : MsgId source canon)
    (h : At value index (source ++ '>' :: rest)) :
    findMessageIdEnd field value index = .ok (index + Utf8.len source) := by
  have hlead : leadByte '>' = 0x3E := rfl
  rw [findMessageIdEnd, h.drop_encode, Utf8.encode_append, findIdEnd_append (passes_msgId hid),
    Utf8.encode_cons_ascii (by decide), findIdEnd, hlead, if_pos ⟨rfl, rfl⟩]
  rfl

theorem sliceThrough_of {source rest : Str} (h : At value index ('<' :: (source ++ '>' :: rest))) :
    sliceThrough value index (index + 1 + Utf8.len source) = .ok ('<' :: (source ++ ['>'])) := by
  have hlen : index + 1 + Utf8.len source + 1 - index = Utf8.len ('<' :: (source ++ ['>'])) := by
    simp only [Utf8.len_cons, Utf8.len_append, Utf8.len_nil]
    rw [Utf8.utf8Size_ascii (c := '<') (by decide), Utf8.utf8Size_ascii (c := '>') (by decide)]
    omega
  have hsplit : '<' :: (source ++ '>' :: rest) = '<' :: (source ++ ['>']) ++ rest := by simp
  rw [sliceThrough, sliceFrom_at h, hlen, hsplit]
  simp only [bind, Except.bind, Utf8.takeBytes_append]
  rfl

theorem bracketed_of_shape {source : Str}
    (h : source.head? = some '<' ∧ source.getLast? = some '>') :
    ∃ x, source = '<' :: (x ++ ['>']) := by
  obtain ⟨hhead, hlast⟩ := h
  obtain ⟨front, rfl⟩ := List.getLast?_eq_some_iff.mp hlast
  cases front with
  | nil => cases hhead
  | cons c front =>
    cases hhead
    exact ⟨front, rfl⟩

theorem canonicalMessageIdCore_bracketed {source y : Str}
    (h : canonicalMessageIdCore field source allow = .ok y) :
    ∃ x, source = '<' :: (x ++ ['>']) := by
  unfold canonicalMessageIdCore at h
  obtain ⟨_, hshape, -⟩ := bind_eq_ok.mp h
  have hshape := ensureValue_eq_ok.mp hshape
  simp only [Bool.and_eq_true, beq_iff_eq] at hshape
  exact bracketed_of_shape hshape.1

theorem sliceThrough_eq_ok {rest source : Str} {stop : Nat} (h : At value index rest)
    (hstop : index ≤ stop) (heq : sliceThrough value index stop = .ok source) :
    ∃ rest', rest = source ++ rest' ∧ stop + 1 = index + Utf8.len source := by
  rw [sliceThrough, sliceFrom_at h] at heq
  obtain ⟨rest', hrest, hlen⟩ := Utf8.takeBytes_eq_some (Res.orPanic_eq_ok.mp heq)
  exact ⟨rest', hrest, by omega⟩

/-! ## The whole value -/

/-- A sequence of segments is read, and its identifiers are returned. -/
theorem valueFrom_of {start phrase : Bool} {segments : List Segment}
    (hs : FieldValue allow start phrase segments) :
    ∀ {index : Nat} (ids : List Str), At value index (textOf segments) →
      startsWord value index = start →
      valueFrom field value allow phrase index ids = .ok (ids ++ idsOf segments) := by
  -- One segment at a time. The loop has to stop behind it, and the next segment has to find the
  -- start of a word where it claims one.
  induction hs with
  | nil =>
    intro index ids h _
    rw [valueFrom_nil _ h, idsOf_nil, List.append_nil]
  | @blank start phrase c segments hc _ ih =>
    intro index ids h _
    have hstart := startsWord_after h
    rw [Utf8.utf8Size_ascii (isBlank_ascii hc), hc] at hstart
    rw [valueFrom_blank phrase h hc, ih ids (h.step_ascii (isBlank_ascii hc)) hstart]
    rfl
  | @comment start phrase body segments hbody _ ih =>
    intro index ids h _
    have hopen : At value index ('(' :: (body ++ ')' :: textOf segments)) := by
      simpa [Segment.text] using h
    have hstart := startsWord_closed (closed_comment body) h
    have hafter := At.advance (t := (Segment.comment body).text) h
    rw [len_comment, ← Nat.add_assoc, ← Nat.add_assoc] at hstart hafter
    rw [valueFrom_comment phrase hbody hopen, ih ids hafter hstart]
    rfl
  | @word start phrase segment segments hallow hword _ ih =>
    intro index ids h hstart
    subst hallow
    have hafter := At.advance (t := segment.text) h
    have hclosed := startsWord_closed (closed_word hword) h
    obtain ⟨c, rest, hc, hplain, hid, hdot⟩ := word_opens hword (textOf segments)
    have hopen : At value index (c :: rest) := hc ▸ h
    rw [valueFrom_word hopen hplain hid fun _ => hdot,
      parseObsoleteThreadingWord_of (hstart ▸ hword) h]
    simp only
    rw [ih ids hafter hclosed, idsOf_word hword]
  | @dot start segments hallow _ ih =>
    intro index ids h _
    have hclosed := startsWord_closed closed_dot h
    have hafter := At.advance (t := Segment.dot.text) h
    have hlen : index + Utf8.len Segment.dot.text = index + 1 := rfl
    rw [hlen] at hclosed hafter
    subst hallow
    rw [valueFrom_dot h, ih ids hafter hclosed]
    rfl
  | @id start phrase source canon segments hid _ ih =>
    intro index ids h _
    have hopen : At value index ('<' :: (source ++ '>' :: textOf segments)) := by
      simpa [Segment.text] using h
    have hclosed := startsWord_closed (closed_id source canon) h
    have hafter := At.advance (t := (Segment.id source canon).text) h
    rw [len_id, ← Nat.add_assoc, ← Nat.add_assoc] at hclosed hafter
    have hid' : (sliceThrough value index (index + 1 + Utf8.len source) >>= fun id =>
        canonicalMessageIdCore field id allow) = .ok ('<' :: (canon ++ ['>'])) :=
      bind_eq_ok.mpr ⟨_, sliceThrough_of hopen, canonicalMessageIdCore_iff.mpr ⟨canon, hid, rfl⟩⟩
    rw [valueFrom_id phrase hopen, findMessageIdEnd_of hid.msgId (hopen.step_ascii (by decide))]
    simp only [hid']
    rw [ih _ hafter hclosed, List.append_assoc]
    rfl

/-- What is read is a sequence of segments whose identifiers are returned. -/
theorem valueFrom_eq_ok {phrase : Bool} {rest : Str} {result : List Str}
    (hphrase : allow = false → phrase = false) (h : At value index rest)
    (heq : valueFrom field value allow phrase index ids = .ok result) :
    ∃ segments, FieldValue allow (startsWord value index) phrase segments ∧
      rest = textOf segments ∧ result = ids ++ idsOf segments := by
  -- the loops go on behind the segment at hand: the induction is on what is left
  induction hlen : rest.length using Nat.strongRecOn generalizing index rest phrase ids with
  | ind n ih =>
  subst hlen
  cases rest with
  | nil =>
    rw [valueFrom_nil phrase h] at heq
    cases heq
    exact ⟨[], .nil, rfl, by simp⟩
  | cons c rest =>
    by_cases hblank : isBlank c.toNat = true
    · have hstart := startsWord_after h
      rw [Utf8.utf8Size_ascii (isBlank_ascii hblank), hblank] at hstart
      rw [valueFrom_blank phrase h hblank] at heq
      obtain ⟨segments, hs, rfl, rfl⟩ :=
        ih rest.length (by simp) hphrase (h.step_ascii (isBlank_ascii hblank)) heq rfl
      rw [hstart] at hs
      exact ⟨.blank c :: segments, .blank hblank hs, rfl, rfl⟩
    by_cases hparen : c = '('
    · subst hparen
      have hopen := h.step_ascii (by decide)
      rcases skipComment_cases field 0 hopen with
        ⟨e, herr⟩ | ⟨body, rest', rfl, hbody, -⟩
      · rw [valueFrom_error phrase h (by rw [skipMessageIdCfws_open h, herr])] at heq
        cases heq
      · have hcomment : At value index ((Segment.comment body).text ++ rest') := by
          simpa [Segment.text] using h
        have hclosed := startsWord_closed (closed_comment body) hcomment
        have hlt : rest'.length < ('(' :: (body ++ ')' :: rest')).length := by
          simp only [List.length_cons, List.length_append]
          omega
        rw [len_comment, ← Nat.add_assoc, ← Nat.add_assoc] at hclosed
        rw [valueFrom_comment phrase hbody h] at heq
        obtain ⟨segments, hs, rfl, rfl⟩ :=
          ih rest'.length hlt hphrase (hopen.advance.step_ascii (by decide)) heq rfl
        rw [hclosed] at hs
        exact ⟨.comment body :: segments, .comment hbody hs, by simp [Segment.text], rfl⟩
    have hplain : Plain (c :: rest) := plain_cons.mpr ⟨by simpa using hblank, hparen⟩
    by_cases hid : c = '<'
    · subst hid
      rw [valueFrom_id phrase h] at heq
      split at heq
      · cases heq
      next stop hstop =>
      split at heq
      · cases heq
      next id hcore =>
      obtain ⟨source, hslice, hcore⟩ := bind_eq_ok.mp hcore
      obtain ⟨source, rfl⟩ := canonicalMessageIdCore_bracketed hcore
      obtain ⟨canon, hid, rfl⟩ := canonicalMessageIdCore_iff.mp hcore
      have hge := findMessageIdEnd_ge hstop
      obtain ⟨rest', hrest, hnext⟩ := sliceThrough_eq_ok h (by omega) hslice
      have hsource : At value index ((Segment.id source canon).text ++ rest') := hrest ▸ h
      have hclosed := startsWord_closed (closed_id source canon) hsource
      have hlt : rest'.length < ('<' :: rest).length := by
        rw [hrest]
        simp only [List.length_cons, List.length_append, List.length_nil]
        omega
      rw [hnext] at heq
      obtain ⟨segments, hs, rfl, rfl⟩ :=
        ih rest'.length hlt (fun _ => rfl) hsource.advance heq rfl
      rw [hclosed] at hs
      exact ⟨.id source canon :: segments, .id hid hs, hrest, by
        rw [List.append_assoc]
        rfl⟩
    by_cases hdot : phrase = true ∧ c = '.'
    · obtain ⟨rfl, rfl⟩ := hdot
      have hallow : allow = true := by
        by_contra hnot
        exact absurd (hphrase (by simpa using hnot)) (by decide)
      have htext : At value index (Segment.dot.text ++ rest) := h
      have hclosed := startsWord_closed closed_dot htext
      have hlen : index + Utf8.len Segment.dot.text = index + 1 := rfl
      rw [hlen] at hclosed
      rw [valueFrom_dot h] at heq
      obtain ⟨segments, hs, rfl, rfl⟩ :=
        ih rest.length (by simp) hphrase (h.step_ascii (by decide)) heq rfl
      rw [hclosed] at hs
      exact ⟨.dot :: segments, .dot hallow hs, rfl, rfl⟩
    cases allow with
    | false =>
      obtain rfl := hphrase rfl
      obtain ⟨e, herr⟩ := valueFrom_text field ids h hplain hid
      rw [herr] at heq
      cases heq
    | true =>
      rw [valueFrom_word h hplain hid fun hp hc => hdot ⟨hp, hc⟩] at heq
      split at heq
      · cases heq
      next next hnext =>
      obtain ⟨segment, rest', hrest, hword, rfl⟩ := parseObsoleteThreadingWord_eq_ok h hnext
      rw [hrest] at h
      have hclosed := startsWord_closed (closed_word hword) h
      have hlt : rest'.length < (c :: rest).length := by
        obtain ⟨front, last, htext, -⟩ := closed_word hword
        rw [hrest, htext]
        simp only [List.length_append, List.length_cons, List.length_nil]
        omega
      obtain ⟨segments, hs, rfl, rfl⟩ :=
        ih rest'.length hlt (fun hf => by cases hf) h.advance heq rfl
      rw [hclosed] at hs
      exact ⟨segment :: segments, .word rfl hword hs, hrest, by rw [idsOf_word hword]⟩

end Notm.Mail
