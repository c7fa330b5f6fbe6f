import Notm.Mail.MessageId.MessageIdTokens
import Notm.Mail.Reply

/-!
# Control characters in a reply

The texts that a reply takes from the original, against `validate_header_text`, which rendering
puts each of them through. The threading fields are checked when the message is parsed, byte by
byte; the subject and the mailboxes are not.

* `CleanOriginal` — the original has no control character where a reply copies from it.
* `threading_passes` — the check of the reader lets the controls from U+0080 to U+009F through.
* `copiedTexts_iff` — the copied texts are the subject, the threading fields and the mailboxes.
* `copiedTexts_accepted_iff` — when rendering takes them all.
-/

namespace Notm.Mail

open Rust

/-! ## The check of the reader -/

instance (value : Str) : Decidable (IsHeaderText value) :=
  List.decidableBAll (fun c => c = '\t' ∨ isControl c = false) value

/-- A control character that is none of ASCII. -/
def IsC1 (c : Char) : Prop := 0x80 ≤ c.toNat ∧ c.toNat ≤ 0x9F

instance (c : Char) : Decidable (IsC1 c) := inferInstanceAs (Decidable (_ ∧ _))

theorem toNat_ofNat_latin1 : ∀ code < 256, (Char.ofNat code).toNat = code := by decide +kernel

theorem unfoldBytes_passes {field : String} {raw unfolded : Bytes}
    (h : unfoldBytes field raw = .ok unfolded) :
    ∀ byte ∈ unfolded, byte = 0x09 ∨ (0x20 ≤ byte ∧ byte ≠ 0x7F) := by
  fun_induction unfoldBytes field raw generalizing unfolded with
  | case1 =>
    obtain rfl := Except.ok.inj h
    exact fun byte hmem => absurd hmem List.not_mem_nil
  | case2 rest ih =>
    obtain ⟨_, _, h⟩ := bind_eq_ok.1 h
    exact ih h
  | case3 => cases h
  | case4 rest hcr ih =>
    obtain ⟨_, _, h⟩ := bind_eq_ok.1 h
    exact ih h
  | case5 byte rest hcr hlf hpass ih =>
    obtain ⟨later, hlater, h⟩ := bind_eq_ok.1 h
    obtain rfl := pure_eq_ok.1 h
    intro byte' hmem
    rcases List.mem_cons.1 hmem with rfl | hmem
    · exact hpass
    · exact ih hlater byte' hmem
  | case6 => cases h

/-- A structured field holds no control character of ASCII but tabs. -/
theorem unfoldRawStructuredHeader_passes {field : String} {raw : Bytes} {value : Str}
    (h : unfoldRawStructuredHeader field raw = .ok value) :
    ∀ c ∈ value, c = '\t' ∨ (0x20 ≤ c.toNat ∧ c.toNat ≠ 0x7F) := by
  obtain ⟨unfolded, hunfolded, hvalue⟩ := map_eq_ok.1 h
  have hpasses := unfoldBytes_passes hunfolded
  have hcode : ∀ (c : Char) (byte : UInt8), byte ∈ unfolded → c.toNat = byte.toNat →
      c = '\t' ∨ (0x20 ≤ c.toNat ∧ c.toNat ≠ 0x7F) := by
    intro c byte hmem hcode
    rcases hpasses byte hmem with rfl | ⟨hge, hne⟩
    · exact Or.inl (Char.toNat_inj.1 hcode)
    · refine Or.inr ⟨?_, fun hdel => hne (UInt8.toNat_inj.1 (hcode.symm.trans hdel))⟩
      rw [hcode]
      exact UInt8.le_iff_toNat_le.1 hge
  intro c hc
  cases hdecode : Utf8.decode unfolded with
  | some text =>
    rw [hdecode, Option.getD_some] at hvalue
    rw [← hvalue] at hc
    rw [← Utf8.encode_of_decode hdecode] at hcode
    by_cases hascii : c.toNat < 128
    · refine hcode c _ (Utf8.mem_encode_of_ascii hc hascii) ?_
      rw [UInt8.toNat_ofNat', Nat.mod_eq_of_lt (by omega)]
    · exact Or.inr ⟨by omega, by omega⟩
  | none =>
    -- Latin-1: each byte is the code of its character.
    rw [hdecode, Option.getD_none] at hvalue
    rw [← hvalue] at hc
    obtain ⟨byte, hmem, rfl⟩ := List.mem_map.1 hc
    refine hcode _ byte hmem ?_
    exact toNat_ofNat_latin1 byte.toNat byte.toNat_lt

theorem firstRawStructuredHeader_passes {field : String} {headers : List MailHeader} {value : Str}
    (h : firstRawStructuredHeader headers field = .ok value) :
    ∀ c ∈ value, c = '\t' ∨ (0x20 ≤ c.toNat ∧ c.toNat ≠ 0x7F) := by
  unfold firstRawStructuredHeader at h
  split at h
  · obtain rfl := Except.ok.inj h
    exact fun c hc => absurd hc List.not_mem_nil
  · exact unfoldRawStructuredHeader_passes h

/-- What the reader lets pass and the writer does not are the controls above ASCII. -/
theorem isHeaderText_iff_no_c1 {value : Str}
    (h : ∀ c ∈ value, c = '\t' ∨ (0x20 ≤ c.toNat ∧ c.toNat ≠ 0x7F)) :
    IsHeaderText value ↔ ∀ c ∈ value, ¬ IsC1 c := by
  refine forall₂_congr fun c hc => ?_
  rcases h c hc with rfl | ⟨hge, hne⟩
  · exact iff_of_true (Or.inl rfl) (by decide)
  · have htab : c ≠ '\t' := by
      rintro rfl
      exact absurd hge (by decide)
    rw [or_iff_right htab, ← Bool.not_eq_true]
    refine not_congr ?_
    unfold isControl IsC1
    simp only [Bool.or_eq_true, Bool.and_eq_true, decide_eq_true_eq]
    omega

/-! ## The texts of the writer -/

theorem isHeaderText_map_iff {f : Char → Char} {s : Str} :
    IsHeaderText (s.map f) ↔ ∀ c ∈ s, f c = '\t' ∨ isControl (f c) = false := List.forall_mem_map

/-- Escaping a character that is header text does not matter. -/
theorem isHeaderText_replace_iff {s escape : Str} {c : Char} (hc : isControl c = false)
    (hescape : IsHeaderText escape) : IsHeaderText (replace s c escape) ↔ IsHeaderText s := by
  unfold replace IsHeaderText
  constructor
  · intro h d hd
    by_cases heq : d = c
    · exact Or.inr (heq ▸ hc)
    · exact h d (List.mem_flatMap.2 ⟨d, hd, by rw [if_neg heq]; exact List.mem_singleton_self d⟩)
  · intro h d hd
    obtain ⟨e, he, hd⟩ := List.mem_flatMap.1 hd
    split at hd
    · exact hescape d hd
    · rw [List.mem_singleton.1 hd]
      exact h e he

theorem isHeaderText_append_iff {a b : Str} :
    IsHeaderText (a ++ b) ↔ IsHeaderText a ∧ IsHeaderText b := List.forall_mem_append

/-- Line breaks in a name become spaces; its other controls stay. -/
theorem isHeaderText_quoteName_iff {name : Str} :
    IsHeaderText (quoteName name) ↔
      ∀ c ∈ name, c = '\t' ∨ c = '\r' ∨ c = '\n' ∨ isControl c = false := by
  have hspaced : IsHeaderText (name.map fun c => if c = '\r' ∨ c = '\n' then ' ' else c) ↔
      ∀ c ∈ name, c = '\t' ∨ c = '\r' ∨ c = '\n' ∨ isControl c = false := by
    rw [isHeaderText_map_iff]
    refine forall₂_congr fun c _ => ?_
    split
    · next hbreak =>
      refine iff_of_true (Or.inr (by decide)) ?_
      rcases hbreak with rfl | rfl
      · exact Or.inr (Or.inl rfl)
      · exact Or.inr (Or.inr (Or.inl rfl))
    · next hother =>
      obtain ⟨hcr, hlf⟩ := not_or.1 hother
      rw [or_iff_right hcr, or_iff_right hlf]
  have hquote : IsHeaderText ['"'] := by decide +kernel
  unfold quoteName
  dsimp only
  split
  · rw [isHeaderText_append_iff, isHeaderText_append_iff, and_iff_left hquote,
      and_iff_right hquote, isHeaderText_replace_iff (by decide) (by decide +kernel),
      isHeaderText_replace_iff (by decide) (by decide +kernel), hspaced]
  · exact hspaced

theorem isHeaderText_formatAddress_iff {address : MailAddress} :
    IsHeaderText (formatAddress address) ↔
      IsHeaderText address.email ∧ ∀ name ∈ address.name, ∀ c ∈ name,
        c = '\t' ∨ c = '\r' ∨ c = '\n' ∨ isControl c = false := by
  have hopening : IsHeaderText [' ', '<'] := by decide +kernel
  have hclosing : IsHeaderText ['>'] := by decide +kernel
  unfold formatAddress
  split
  · next name hname =>
    rw [hname]
    split
    · rw [isHeaderText_append_iff, isHeaderText_append_iff, isHeaderText_append_iff,
        isHeaderText_quoteName_iff, and_iff_left hclosing, and_iff_left hopening, and_comm]
      refine and_congr_right fun _ => ⟨?_, fun h => h name rfl⟩
      rintro h name' ⟨⟩
      exact h
    · next hempty =>
      obtain rfl : name = [] := not_not.1 hempty
      refine (and_iff_left ?_).symm
      rintro name ⟨⟩ c hc
      exact absurd hc List.not_mem_nil
  · next hname =>
    rw [hname]
    refine (and_iff_left ?_).symm
    rintro name ⟨⟩

theorem isHeaderText_normalizeSubjectForReply_iff {crates : Crates} {subject : Str} :
    IsHeaderText (normalizeSubjectForReply crates subject) ↔ IsHeaderText (trim subject) := by
  unfold normalizeSubjectForReply
  dsimp only
  split
  · exact Iff.rfl
  · rw [isHeaderText_append_iff]
    exact and_iff_right (by decide +kernel)

/-! ## The texts of a reply -/

/-- The texts that rendering validates, each with the field that it is for. -/
def ComposedMessage.copiedTexts (message : ComposedMessage) : List (String × Str) :=
  ("Subject", message.subject) :: message.inReplyTo.toList.map (Prod.mk "In-Reply-To") ++
    message.references.map (Prod.mk "References") ++ message.to.map (Prod.mk "To") ++
    message.cc.map (Prod.mk "Cc")

/-- The original has no control character in what a reply takes from it: none in the subject and
the mailboxes, but for tabs, and none above ASCII in the threading fields. -/
structure CleanOriginal (crates : Crates) (original : ParsedMessage) (myEmails : List Str)
    (kind : ReplyKind) : Prop where
  subject : IsHeaderText (trim original.subject)
  messageId : ∀ c ∈ original.messageId, ¬ IsC1 c
  references : original.messageId ≠ [] → ∀ c ∈ trim original.references, ¬ IsC1 c
  email : ∀ address ∈ (replyRecipients crates original myEmails kind).1 ++
    (replyRecipients crates original myEmails kind).2, IsHeaderText address.email
  /-- A line break in a name becomes a space. -/
  name : ∀ address ∈ (replyRecipients crates original myEmails kind).1 ++
      (replyRecipients crates original myEmails kind).2, ∀ name ∈ address.name, ∀ c ∈ name,
    c = '\t' ∨ c = '\r' ∨ c = '\n' ∨ isControl c = false

variable {crates : Crates} {sanitizeHtml : Str → Str} {generated : Generated}
  {original : ParsedMessage} {identity : Identity} {myEmails : List Str} {kind : ReplyKind}

/-- The threading fields of a parsed message have gone through the check of the reader. -/
theorem threading_passes {bytes : Bytes} {limits : MimeLimits}
    (h : parseRfc5322WithLimits crates bytes limits = .ok original) :
    (∀ c ∈ original.messageId, c = '\t' ∨ (0x20 ≤ c.toNat ∧ c.toNat ≠ 0x7F)) ∧
      ∀ c ∈ original.references, c = '\t' ∨ (0x20 ≤ c.toNat ∧ c.toNat ≠ 0x7F) := by
  unfold parseRfc5322WithLimits at h
  obtain ⟨parsed, _, h⟩ := bind_eq_ok.1 h
  obtain ⟨walked, _, h⟩ := bind_eq_ok.1 h
  obtain ⟨messageId, hmessageId, h⟩ := bind_eq_ok.1 h
  obtain ⟨references, hreferences, h⟩ := bind_eq_ok.1 h
  obtain ⟨inReplyTo, _, h⟩ := bind_eq_ok.1 h
  obtain rfl := pure_eq_ok.1 h
  exact ⟨firstRawStructuredHeader_passes hmessageId, firstRawStructuredHeader_passes hreferences⟩

/-- What the copied texts are made of. -/
theorem copiedTexts_iff :
    (∀ copied ∈ (buildReply crates sanitizeHtml generated original identity myEmails
        kind).copiedTexts, IsHeaderText copied.2) ↔
      IsHeaderText (trim original.subject) ∧
      (original.messageId ≠ [] →
        IsHeaderText original.messageId ∧ IsHeaderText (trim original.references)) ∧
      ∀ address ∈ (replyRecipients crates original myEmails kind).1 ++
        (replyRecipients crates original myEmails kind).2, IsHeaderText
        (formatAddress address) := by
  have hsubject : (buildReply crates sanitizeHtml generated original identity myEmails
      kind).subject = normalizeSubjectForReply crates original.subject := rfl
  have hto : (buildReply crates sanitizeHtml generated original identity myEmails kind).to =
      (replyRecipients crates original myEmails kind).1.map formatAddress := rfl
  have hcc : (buildReply crates sanitizeHtml generated original identity myEmails kind).cc =
      (replyRecipients crates original myEmails kind).2.map formatAddress := rfl
  have hthreading :
      (∀ text ∈ (buildReply crates sanitizeHtml generated original identity myEmails
          kind).inReplyTo.toList ++ (buildReply crates sanitizeHtml generated original identity
          myEmails kind).references, IsHeaderText text) ↔
        (original.messageId ≠ [] →
          IsHeaderText original.messageId ∧ IsHeaderText (trim original.references)) := by
    unfold buildReply
    dsimp only
    by_cases hid : original.messageId = []
    · simp [hid]
    · by_cases href : trim original.references = []
      · have hnone : IsHeaderText [] := by decide
        simp [hid, href, hnone]
      · simp [hid, href, and_comm]
  unfold ComposedMessage.copiedTexts
  rw [hsubject, hto, hcc, ← hthreading]
  simp only [List.cons_append, List.append_assoc, List.forall_mem_cons, List.forall_mem_append,
    List.forall_mem_map, isHeaderText_normalizeSubjectForReply_iff]
  tauto

/-- **What a reply copies.** A reply to a parsed message copies only texts that rendering accepts
exactly when the original is clean: the subject and the mailboxes have not been looked at before,
and the check of the threading fields lets the controls above ASCII through. -/
theorem copiedTexts_accepted_iff {bytes : Bytes} {limits : MimeLimits}
    (h : parseRfc5322WithLimits crates bytes limits = .ok original) :
    (∀ copied ∈ (buildReply crates sanitizeHtml generated original identity myEmails
        kind).copiedTexts, validateHeaderText (lit copied.1) copied.2 = .ok ()) ↔
      CleanOriginal crates original myEmails kind := by
  obtain ⟨hmessageId, hreferences⟩ := threading_passes h
  -- What is copied of References is trimmed, which adds no character.
  have htrimmed : ∀ c ∈ trim original.references, c = '\t' ∨ (0x20 ≤ c.toNat ∧ c.toNat ≠ 0x7F) :=
    fun c hc => hreferences c ((infix_of_trim original.references).subset hc)
  simp only [validateHeaderText_eq_ok]
  rw [copiedTexts_iff, isHeaderText_iff_no_c1 hmessageId, isHeaderText_iff_no_c1 htrimmed]
  -- A mailbox is written with its name quoted, which takes no control away but line breaks.
  simp only [isHeaderText_formatAddress_iff]
  constructor
  · rintro ⟨hsubject, hthreading, hrecipients⟩
    refine ⟨hsubject, ?_, fun hid => (hthreading hid).2, fun address hmem =>
      (hrecipients address hmem).1, fun address hmem => (hrecipients address hmem).2⟩
    intro c hc
    exact (hthreading (List.ne_nil_of_mem hc)).1 c hc
  · intro hclean
    exact ⟨hclean.subject, fun hid => ⟨hclean.messageId, hclean.references hid⟩,
      fun address hmem => ⟨hclean.email address hmem, hclean.name address hmem⟩⟩

/-- A clean message. -/
def plainOriginal : Bytes :=
  Utf8.encode ("Subject: hello\r\nFrom: a@example.test\r\n"
    ++ "Message-ID: <1@example.test>\r\n\r\nx").toList

theorem reply_to_plainOriginal :
    ∃ original, parseRfc5322WithLimits Reference.crates plainOriginal .default = .ok original ∧
      ∀ copied ∈ (buildReply Reference.crates id ⟨[], [], []⟩ original ⟨none, ['m']⟩ []
        .sender).copiedTexts, validateHeaderText (lit copied.1) copied.2 = .ok () := by
  obtain ⟨original, horiginal⟩ := exists_eq_ok
    (x := parseRfc5322WithLimits Reference.crates plainOriginal .default) (by decide +kernel)
  have hread : (parseRfc5322WithLimits Reference.crates plainOriginal .default).toOption.map
      (fun original => (original.subject, original.messageId, original.references,
        replyRecipients Reference.crates original [] .sender)) =
      some ("hello".toList, "<1@example.test>".toList, [],
        [⟨none, "a@example.test".toList⟩], []) := by
    decide +kernel
  rw [horiginal] at hread
  obtain ⟨hsubject, hread⟩ := Prod.mk.inj (Option.some.inj hread)
  obtain ⟨hmessageId, hread⟩ := Prod.mk.inj hread
  obtain ⟨hreferences, hrecipients⟩ := Prod.mk.inj hread
  refine ⟨original, horiginal, (copiedTexts_accepted_iff horiginal).2 ?_⟩
  constructor
  case subject =>
    rw [hsubject]
    decide +kernel
  case messageId =>
    rw [hmessageId]
    exact List.all_iff_forall_prop.1 (by decide +kernel)
  case references =>
    rw [hreferences]
    exact fun _ c hc => absurd hc List.not_mem_nil
  case email =>
    rw [hrecipients]
    exact fun address hmem => by
      rw [List.mem_singleton.1 hmem]
      decide +kernel
  case name =>
    rw [hrecipients]
    exact fun address hmem name hname => by
      rw [List.mem_singleton.1 hmem] at hname
      cases hname

/-- A message with BEL in its subject and, not in UTF-8, the byte of NEL in its identifier. -/
def controlOriginal : Bytes :=
  Utf8.encode "Subject: hel\x07lo\r\nFrom: a@example.test\r\nMessage-ID: <1".toList ++ [0x85] ++
    Utf8.encode "@example.test>\r\n\r\nx".toList

theorem reply_to_controlOriginal :
    ∃ original, parseRfc5322WithLimits Reference.crates controlOriginal .default = .ok original ∧
      (buildReply Reference.crates id ⟨[], [], []⟩ original ⟨none, ['m']⟩ [] .sender).subject =
        "Re: hel\x07lo".toList ∧
      validateHeaderText (lit "Subject") "Re: hel\x07lo".toList ≠ .ok () ∧
      (buildReply Reference.crates id ⟨[], [], []⟩ original ⟨none, ['m']⟩ [] .sender).inReplyTo =
        some "<1\u0085@example.test>".toList ∧
      validateHeaderText (lit "In-Reply-To") "<1\u0085@example.test>".toList ≠ .ok () := by
  obtain ⟨original, horiginal⟩ := exists_eq_ok
    (x := parseRfc5322WithLimits Reference.crates controlOriginal .default) (by decide +kernel)
  have hread : (parseRfc5322WithLimits Reference.crates controlOriginal .default).toOption.map
      (fun original => ((buildReply Reference.crates id ⟨[], [], []⟩ original ⟨none, ['m']⟩ []
          .sender).subject, (buildReply Reference.crates id ⟨[], [], []⟩ original ⟨none, ['m']⟩ []
          .sender).inReplyTo)) =
      some ("Re: hel\x07lo".toList, some "<1\u0085@example.test>".toList) := by
    decide +kernel
  rw [horiginal] at hread
  obtain ⟨hsubject, hinReplyTo⟩ := Prod.mk.inj (Option.some.inj hread)
  refine ⟨original, horiginal, hsubject, ?_, hinReplyTo, ?_⟩
  · rw [Ne, validateHeaderText_eq_ok]
    decide +kernel
  · rw [Ne, validateHeaderText_eq_ok]
    decide +kernel

end Notm.Mail
