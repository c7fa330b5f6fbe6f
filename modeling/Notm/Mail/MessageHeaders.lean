import Notm.Lib.HeaderSection
import Notm.Mail.RenderMessage

/-!
# The header section of a rendered message

Whatever the strings of a message are, its header section holds the fields that `render_message`
writes, in their order and each once: no string ends a field or the section, or starts another one,
and no line is white space only.

* `HasInk` — text with a printing character in it, which keeps a folded line from being blank.
* `writeTokenHeader_writes` — tokens that all have ink make one field, wherever it is folded.
* `writeMessageHeaders_writes`, `writeMultipartHeader_writes` — the fields before the body, in
  order.
* `writeMessage_section` — what is written starts with the fields and an empty line.
* `rendered_fields_read` — a reader finds these fields and no others.
-/

namespace Notm.Mail

open Rust Folding HeaderSection

/-! ## Text that is not white space only -/

/-- A character that is neither a space nor a tab. A folded line that has one is not blank, so a
reader does not take it for the end of the header section. -/
def HasInk (text : Str) : Prop := ∃ c ∈ text, c ≠ ' ' ∧ c ≠ '\t'

variable {crates : Crates} {out written : Bytes} {name value token : Str} {tokens names : List Str}

theorem HasInk.of_mem {c : Char} (hc : c ∈ value) (hspace : c ≠ ' ') (htab : c ≠ '\t') :
    HasInk value := ⟨c, hc, hspace, htab⟩

/-- The bytes of such a text are not white space only either. -/
theorem HasInk.not_blank (h : HasInk token) {line : Bytes}
    (hline : ∀ byte ∈ Utf8.encode token, byte ∈ line) : ¬ IsBlank line := by
  obtain ⟨c, hc, hspace, htab⟩ := h
  intro hblank
  by_cases hascii : c.toNat < 128
  · have hbyte := hblank _ (hline _ (Utf8.mem_encode_of_ascii hc hascii))
    have hcode : (UInt8.ofNat c.toNat).toNat = c.toNat :=
      Nat.mod_eq_of_lt (hascii.trans (by decide))
    rcases hbyte with heq | heq
    · refine hspace (Char.toNat_inj.1 ?_)
      rw [← hcode, heq]
      rfl
    · refine htab (Char.toNat_inj.1 ?_)
      rw [← hcode, heq]
      rfl
  · have hlead : Utf8.leadByte c ∈ Utf8.encode token := by
      refine List.mem_flatMap.2 ⟨c, hc, ?_⟩
      obtain ⟨rest, hrest⟩ := Utf8.encodeChar_eq_cons c
      rw [hrest]
      exact List.mem_cons_self
    have hbyte := hblank _ (hline _ hlead)
    have hhigh := Utf8.leadByte_not_ascii (Nat.le_of_not_lt hascii)
    rcases hbyte with heq | heq
    · rw [heq] at hhigh
      exact absurd hhigh (by decide)
    · rw [heq] at hhigh
      exact absurd hhigh (by decide)

/-- What trimming leaves starts with a character that is no white space. -/
theorem hasInk_of_trim (h : trim value ≠ []) : HasInk (trim value) := by
  have hprefix : trim value <+: trimStart value :=
    List.rdropWhile_prefix isWhitespace (trimStart value)
  cases hstart : trimStart value with
  | nil =>
    rw [hstart] at hprefix
    exact absurd (List.prefix_nil.1 hprefix) h
  | cons c rest =>
    have hplain : isWhitespace c = false := by
      have hdrop : value.dropWhile isWhitespace = c :: rest := hstart
      have hhead := List.head_dropWhile_not isWhitespace (hdrop ▸ List.cons_ne_nil c rest)
      simpa only [hdrop, List.head_cons] using hhead
    cases htrim : trim value with
    | nil => exact absurd htrim h
    | cons d more =>
      rw [hstart, htrim] at hprefix
      obtain rfl : d = c := (List.cons_prefix_cons.1 hprefix).1
      refine HasInk.of_mem List.mem_cons_self ?_ ?_
      · rintro rfl
        exact absurd hplain (by decide)
      · rintro rfl
        exact absurd hplain (by decide)

/-! ## Fields -/

/-- A field is written behind `out`. -/
def Writes (name : Str) (out written : Bytes) : Prop :=
  ∃ field, IsField (Utf8.encode name) field ∧ written = out ++ joinLines field

/-- The fields that have been written. -/
def WritesFields (names : List Str) (out : Bytes) : Prop :=
  ∃ groups, List.Forall₂ IsField (names.map Utf8.encode) groups ∧ out = joinLines groups.flatten

theorem writesFields_nil : WritesFields [] [] := ⟨[], .nil, rfl⟩

theorem WritesFields.snoc (h : WritesFields names out) (hnext : Writes name out written) :
    WritesFields (names ++ [name]) written := by
  obtain ⟨groups, hgroups, rfl⟩ := h
  obtain ⟨field, hfield, rfl⟩ := hnext
  refine ⟨groups ++ [field], ?_, ?_⟩
  · rw [List.map_append]
    exact List.rel_append hgroups (.cons hfield .nil)
  · rw [List.flatten_append, List.flatten_singleton, joinLines_append]

theorem not_mem_newline_encode {text : Str} (h : IsHeaderText text) : 0x0A ∉ Utf8.encode text :=
  not_mem_encode_newline (h.not_mem (by decide) (by decide))

theorem not_mem_newline_spaced (h : ∀ token ∈ tokens, IsHeaderText token) :
    0x0A ∉ spaced tokens := by
  intro hmem
  obtain ⟨token, htoken, hmem⟩ := List.mem_flatMap.1 hmem
  rcases List.mem_cons.1 hmem with heq | hmem
  · exact absurd heq (by decide)
  · exact not_mem_newline_encode (h token htoken) hmem

/-- Tokens that are not white space only make a field, however they are folded. -/
theorem writeTokenHeader_writes (hname : IsHeaderText name)
    (htokens : ∀ token ∈ tokens, HasInk token)
    (h : writeTokenHeader out name tokens = .ok written) : Writes name out written := by
  obtain ⟨closed, current, hlayout, hwritten⟩ := writeTokenHeader_layout h
  obtain ⟨first, rest, hlines, hne⟩ := hlayout.starts
  have hall : ∀ group ∈ first :: rest, ∀ token ∈ group, token ∈ tokens := by
    intro group hgroup token htoken
    rw [← hlayout.flatMap_tokens, hlines, List.flatMap_cons, List.flatMap_map]
    rcases List.mem_cons.1 hgroup with rfl | hgroup
    · exact List.mem_append_left _ htoken
    · exact List.mem_append_right _ (List.mem_flatMap.2 ⟨group, hgroup, htoken⟩)
  have htext := hlayout.isHeaderText
  -- No token holds a CR or an LF, so no line of the field ends before its end.
  have hclean : ∀ group ∈ first :: rest, 0x0D ∉ spaced group ∧ 0x0A ∉ spaced group := by
    intro group hgroup
    have hgroupText := fun token htoken => htext token (hall group hgroup token htoken)
    exact ⟨not_mem_spaced hgroupText, not_mem_newline_spaced hgroupText⟩
  refine ⟨(closed ++ [current]).map TokenLine.bytes, ⟨?_, ?_⟩, hwritten⟩
  · refine ⟨spaced first, rest.map fun group => (foldedLine group).bytes, ?_, ?_⟩
    · rw [hlines, List.map_cons, List.map_map]
      refine congrArg₂ List.cons ?_ rfl
      show Utf8.encode name ++ [0x3A] ++ spaced first = _
      rw [List.append_assoc]
      rfl
    · intro line hline
      obtain ⟨group, hgroup, rfl⟩ := List.mem_map.1 hline
      cases group with
      | nil => exact absurd hgroup hne
      | cons token group =>
        -- A folded line starts with a space and goes on with a token that has ink.
        have hink := htokens token (hall _ (List.mem_cons_of_mem _ hgroup) token List.mem_cons_self)
        refine ⟨rfl, hink.not_blank fun byte hbyte => ?_⟩
        show byte ∈ 0x20 :: Utf8.encode token ++ spaced group
        exact List.mem_append_left _ (List.mem_cons_of_mem _ hbyte)
  · rw [hlines]
    intro line hline
    obtain ⟨tokenLine, htokenLine, rfl⟩ := List.mem_map.1 hline
    rcases List.mem_cons.1 htokenLine with rfl | htokenLine
    · obtain ⟨hcr, hlf⟩ := hclean first List.mem_cons_self
      have hnameCr : 0x0D ∉ Utf8.encode name := not_mem_encode (not_mem_of_isHeaderText hname)
      have hnameLf := not_mem_newline_encode hname
      unfold nameLine TokenLine.bytes
      simp only [List.mem_append, List.mem_singleton]
      exact ⟨not_or.2 ⟨not_or.2 ⟨hnameCr, by decide⟩, hcr⟩,
        not_or.2 ⟨not_or.2 ⟨hnameLf, by decide⟩, hlf⟩⟩
    · obtain ⟨group, hgroup, rfl⟩ := List.mem_map.1 htokenLine
      exact hclean group (List.mem_cons_of_mem _ hgroup)

/-- A single line. -/
theorem writes_line (hname : IsHeaderText name) (hvalue : IsHeaderText value) :
    Writes name out (out ++ joinLines [Utf8.encode name ++ 0x3A :: 0x20 :: Utf8.encode value]) := by
  refine ⟨_, ⟨⟨_, [], rfl, fun line hline => absurd hline List.not_mem_nil⟩, ?_⟩, rfl⟩
  intro line hline
  obtain rfl := List.mem_singleton.1 hline
  have hnameCr : 0x0D ∉ Utf8.encode name := not_mem_encode (not_mem_of_isHeaderText hname)
  have hnameLf := not_mem_newline_encode hname
  have hvalueCr : 0x0D ∉ Utf8.encode value := not_mem_encode (not_mem_of_isHeaderText hvalue)
  have hvalueLf := not_mem_newline_encode hvalue
  simp only [List.mem_append, List.mem_cons]
  exact ⟨not_or.2 ⟨hnameCr, not_or.2 ⟨by decide, not_or.2 ⟨by decide, hvalueCr⟩⟩⟩,
    not_or.2 ⟨hnameLf, not_or.2 ⟨by decide, not_or.2 ⟨by decide, hvalueLf⟩⟩⟩⟩

theorem writeLiteralHeader_eq (h : writeLiteralHeader out name value = .ok written) :
    IsHeaderText value ∧
      written = out ++ joinLines [Utf8.encode name ++ 0x3A :: 0x20 :: Utf8.encode value] := by
  obtain ⟨_, htext, h⟩ := bind_eq_ok.1 h
  obtain ⟨_, _, h⟩ := bind_eq_ok.1 h
  obtain rfl := Except.ok.inj h
  refine ⟨validateHeaderText_eq_ok.1 htext, ?_⟩
  rw [joinLines_cons, joinLines_nil, List.append_nil]
  have hcolon : Utf8.encode ": ".toList = [0x3A, 0x20] := by decide
  rw [hcolon]
  simp

theorem writeLiteralHeader_writes (hname : IsHeaderText name)
    (h : writeLiteralHeader out name value = .ok written) : Writes name out written := by
  obtain ⟨hvalue, rfl⟩ := writeLiteralHeader_eq h
  exact writes_line hname hvalue

/-! ## The tokens of the headers -/

/-- An address that is valid has an at sign. -/
def ValidHasAt (crates : Crates) : Prop :=
  ∀ email, crates.emailAddressIsValid email = true → '@' ∈ email

theorem hasInk_of_encodeWords (hvalue : value ≠ []) :
    ∀ token ∈ encodeWords crates value, HasInk token := by
  intro token htoken
  rw [encodeWords, if_neg hvalue] at htoken
  obtain ⟨chunk, -, rfl⟩ := List.mem_map.1 htoken
  have hequals : '=' ∈ "=?UTF-8?B?".toList := by decide
  exact HasInk.of_mem (List.mem_append_left _ (List.mem_append_left _ hequals)) (by decide)
    (by decide)

/-- Quoting a name leaves its printing characters. -/
theorem hasInk_of_quoteName (hname : IsHeaderText name) (h : HasInk name) :
    HasInk (quoteName name) := by
  obtain ⟨c, hc, hspace, htab⟩ := h
  have hcr : c ≠ '\r' := fun heq => hname.not_mem (by decide) (by decide) (heq ▸ hc)
  have hlf : c ≠ '\n' := fun heq => hname.not_mem (by decide) (by decide) (heq ▸ hc)
  unfold quoteName
  dsimp only
  split
  · refine HasInk.of_mem (c := '"') ?_ (by decide) (by decide)
    exact List.mem_append_right _ (List.mem_singleton_self _)
  · refine HasInk.of_mem (c := c) (List.mem_map.2 ⟨c, hc, ?_⟩) hspace htab
    rw [if_neg (not_or.2 ⟨hcr, hlf⟩)]

theorem mailAddressFromSingle_parts {single : SingleInfo} {address : MailAddress}
    (h : mailAddressFromSingle crates single = some address) :
    crates.emailAddressIsValid address.email = true ∧
      ∀ name, address.name = some name → name ≠ [] ∧ HasInk name := by
  unfold mailAddressFromSingle at h
  dsimp only at h
  split at h
  · rename_i hvalid
    obtain rfl := Option.some.inj h
    refine ⟨hvalid, fun name hname => ?_⟩
    obtain ⟨hmap, hne⟩ := Option.filter_eq_some_iff.1 hname
    obtain ⟨raw, -, rfl⟩ := Option.map_eq_some_iff.1 hmap
    have hnonempty : trim raw ≠ [] := of_decide_eq_true hne
    exact ⟨hnonempty, hasInk_of_trim hnonempty⟩
  · exact absurd h (by simp)

/-- What a checked address is made of. -/
theorem parseOneChecked_parts {input : Str} {address : MailAddress}
    (h : parseOneChecked crates input = .ok address) :
    crates.emailAddressIsValid address.email = true ∧
      ∀ name, address.name = some name → name ≠ [] ∧ HasInk name := by
  obtain ⟨addresses, haddresses, h⟩ := bind_eq_ok.1 h
  have hmem : address ∈ addresses := by
    split at h
    · obtain rfl := Except.ok.inj h
      exact List.mem_singleton_self _
    · exact absurd h Res.bail_ne_ok
  unfold parseAddressListChecked at haddresses
  split at haddresses
  · obtain rfl := Except.ok.inj haddresses
    exact absurd hmem List.not_mem_nil
  · split at haddresses
    · exact absurd haddresses Res.bail_ne_ok
    · obtain ⟨_, _, haddresses⟩ := bind_eq_ok.1 haddresses
      have hforall := mapM_eq_ok.1 haddresses
      obtain ⟨i, hi, rfl⟩ := List.mem_iff_getElem.1 hmem
      have hsingle := hforall.get (hforall.length_eq ▸ hi) hi
      dsimp only [List.get_eq_getElem] at hsingle
      split at hsingle
      · rename_i found hfound
        exact Except.ok.inj hsingle ▸ mailAddressFromSingle_parts hfound
      · exact absurd hsingle Res.bail_ne_ok

theorem hasInk_of_email (hcrates : ValidHasAt crates) {email : Str}
    (h : crates.emailAddressIsValid email = true) : HasInk email :=
  HasInk.of_mem (hcrates email h) (by decide) (by decide)

theorem hasInk_of_mailbox (hcrates : ValidHasAt crates) {field : String} {input : Str}
    (h : renderMailboxTokens crates field input = .ok tokens) :
    ∀ token ∈ tokens, HasInk token := by
  obtain ⟨_, _, h⟩ := bind_eq_ok.1 h
  obtain ⟨address, haddress, h⟩ := bind_eq_ok.1 h
  obtain ⟨_, _, h⟩ := bind_eq_ok.1 h
  obtain ⟨hvalid, hnames⟩ := parseOneChecked_parts haddress
  have hemail := hasInk_of_email hcrates hvalid
  split at h
  · rename_i name hname
    obtain ⟨hsome, -⟩ := Option.filter_eq_some_iff.1 hname
    obtain ⟨hnonempty, hink⟩ := hnames name hsome
    obtain ⟨_, htext, h⟩ := bind_eq_ok.1 h
    obtain rfl := Except.ok.inj h
    refine List.forall_mem_append.2 ⟨?_, ?_⟩
    · split
      · exact hasInk_of_encodeWords hnonempty
      · intro token htoken
        obtain rfl := List.mem_singleton.1 htoken
        exact hasInk_of_quoteName (validateHeaderText_eq_ok.1 htext) hink
    · intro token htoken
      obtain rfl := List.mem_singleton.1 htoken
      exact HasInk.of_mem List.mem_cons_self (by decide) (by decide)
  · obtain rfl := Except.ok.inj h
    intro token htoken
    obtain rfl := List.mem_singleton.1 htoken
    exact hemail

theorem hasInk_of_pushComma {mailbox : List Str} (h : pushComma mailbox = .ok tokens)
    (hmailbox : ∀ token ∈ mailbox, HasInk token) : ∀ token ∈ tokens, HasInk token := by
  obtain ⟨last, hlast, h⟩ := bind_eq_ok.1 h
  obtain rfl := Except.ok.inj h
  refine List.forall_mem_append.2 ⟨?_, ?_⟩
  · exact fun token htoken => hmailbox token (List.mem_of_mem_dropLast htoken)
  · intro token htoken
    obtain rfl := List.mem_singleton.1 htoken
    have hmem : ',' ∈ last ++ [','] := List.mem_append_right _ (List.mem_singleton_self _)
    exact HasInk.of_mem hmem (by decide) (by decide)

theorem hasInk_of_mailboxes (hcrates : ValidHasAt crates) {field : String} {count index : Nat}
    {values tokens' : List Str} (htokens : ∀ token ∈ tokens, HasInk token)
    (h : mailboxTokensFrom crates field count tokens index values = .ok tokens') :
    ∀ token ∈ tokens', HasInk token := by
  induction values generalizing tokens index with
  | nil =>
    obtain rfl := Except.ok.inj h
    exact htokens
  | cons value values ih =>
    obtain ⟨mailbox, hmailbox, h⟩ := bind_eq_ok.1 h
    have hmailbox := hasInk_of_mailbox hcrates (Res.withContext_eq_ok.1 hmailbox)
    dsimp only at h
    split at h
    · obtain ⟨pushed, hpushed, h⟩ := bind_eq_ok.1 h
      exact ih (List.forall_mem_append.2 ⟨htokens, hasInk_of_pushComma hpushed hmailbox⟩) h
    · obtain ⟨pushed, hpushed, h⟩ := bind_eq_ok.1 h
      obtain rfl := Except.ok.inj hpushed
      exact ih (List.forall_mem_append.2 ⟨htokens, hmailbox⟩) h

theorem hasInk_of_messageIds {field : String} {values ids : List Str}
    (h : messageIdTokens field values = .ok ids) : ∀ id ∈ ids, HasInk id := by
  obtain ⟨parts, hparts, -, rfl⟩ := messageIdTokens_eq_ok.1 h
  obtain ⟨canons, hcanons, -⟩ := exists_canons_parts hparts
  rw [hcanons]
  intro id hid
  obtain ⟨canon, -, rfl⟩ := List.mem_map.1 hid
  exact HasInk.of_mem List.mem_cons_self (by decide) (by decide)

/-! ## The headers of a message -/

/-- A token that fits on the first line is not folded, whatever it is. -/
theorem writeTokenHeader_single
    (hfits : Utf8.len name + 1 + 1 + Utf8.len token ≤ recommendedHeaderLineLength)
    (h : writeTokenHeader out name [token] = .ok written) :
    written = out ++ joinLines [Utf8.encode name ++ 0x3A :: 0x20 :: Utf8.encode token] := by
  unfold writeTokenHeader at h
  rw [if_neg (List.cons_ne_nil _ _)] at h
  obtain ⟨state, hrun, h⟩ := bind_eq_ok.1 h
  obtain rfl := Except.ok.inj h
  rw [List.foldlM_cons] at hrun
  obtain ⟨next, hstep, hrun⟩ := bind_eq_ok.1 hrun
  obtain rfl := pure_eq_ok.1 hrun
  obtain ⟨_, _, hstep⟩ := bind_eq_ok.1 hstep
  obtain ⟨_, _, hstep⟩ := bind_eq_ok.1 hstep
  rw [if_pos hfits] at hstep
  obtain rfl := Except.ok.inj hstep
  rw [joinLines_cons, joinLines_nil, List.append_nil]
  simp

theorem writeSubjectHeader_writes {subject : Str}
    (h : writeSubjectHeader crates out subject = .ok written) :
    Writes "Subject".toList out written := by
  obtain ⟨_, htext, h⟩ := bind_eq_ok.1 h
  dsimp only at h
  split at h
  · rename_i hencoded
    have hnonempty : subject ≠ [] := by
      rintro rfl
      exact absurd hencoded (by decide)
    exact writeTokenHeader_writes (isHeaderText_of_all (by decide))
      (hasInk_of_encodeWords hnonempty) h
  · rename_i hplain
    obtain ⟨-, hshort⟩ := not_or.1 hplain
    have hlen : Utf8.len "Subject: ".toList = 9 := by decide
    have hname : Utf8.len "Subject".toList = 7 := by decide
    have hfits : Utf8.len "Subject".toList + 1 + 1 + Utf8.len subject ≤
        recommendedHeaderLineLength := by
      rw [hlen] at hshort
      unfold saturatingAdd u64Max recommendedHeaderLineLength at hshort
      rw [hname]
      unfold recommendedHeaderLineLength
      omega
    rw [writeTokenHeader_single hfits h]
    exact writes_line (isHeaderText_of_all (by decide)) (validateHeaderText_eq_ok.1 htext)

theorem writeAddressHeader_writes (hcrates : ValidHasAt crates) {field : String}
    {values : List Str} {allowEmpty : Bool} (hfield : IsHeaderText field.toList)
    (h : writeAddressHeader crates out field values allowEmpty = .ok written) :
    Writes field.toList out written := by
  obtain ⟨_, _, h⟩ := bind_eq_ok.1 h
  obtain ⟨tokens, htokens, h⟩ := bind_eq_ok.1 h
  refine writeTokenHeader_writes hfield (hasInk_of_mailboxes hcrates ?_ htokens) h
  exact fun token htoken => absurd htoken List.not_mem_nil

theorem writeThreadingHeader_writes {field : String} {values : List Str}
    (hfield : IsHeaderText field.toList)
    (h : writeThreadingHeader out field values = .ok written) :
    Writes field.toList out written := by
  obtain ⟨ids, hids, h⟩ := bind_eq_ok.1 h
  obtain ⟨_, _, h⟩ := bind_eq_ok.1 h
  exact writeTokenHeader_writes hfield (hasInk_of_messageIds hids) h

theorem writeMessageIdHeader_writes {messageId : Str}
    (h : writeMessageIdHeader out messageId = .ok written) :
    Writes "Message-ID".toList out written := by
  obtain ⟨ids, hids, h⟩ := bind_eq_ok.1 h
  obtain ⟨_, _, h⟩ := bind_eq_ok.1 h
  exact writeTokenHeader_writes (isHeaderText_of_all (by decide)) (hasInk_of_messageIds hids) h

/-- The recipient headers of a message, each where it has recipients. -/
def recipientFields (message : ComposedMessage) : List Str :=
  (if message.to ≠ [] then ["To".toList] else []) ++
    (if message.cc ≠ [] then ["Cc".toList] else []) ++
      if message.bcc ≠ [] then ["Bcc".toList] else []

/-- The headers that make a message a reply. -/
def threadingFields (message : ComposedMessage) : List Str :=
  (if message.inReplyTo.isSome then ["In-Reply-To".toList] else []) ++
    if message.references ≠ [] then ["References".toList] else []

/-- The fields up to the one for the MIME version. -/
def messageFields (message : ComposedMessage) : List Str :=
  ["Date".toList, "Message-ID".toList, "From".toList] ++ recipientFields message ++
    ["Subject".toList] ++ threadingFields message ++ ["MIME-Version".toList]

theorem writeRecipientHeader_writes (hcrates : ValidHasAt crates) {field : String}
    {values : List Str} (hfield : IsHeaderText field.toList) (hout : WritesFields names out)
    (h : writeRecipientHeader crates out field values = .ok written) :
    WritesFields (names ++ if values ≠ [] then [field.toList] else []) written := by
  unfold writeRecipientHeader at h
  split at h
  · rename_i hvalues
    rw [if_pos hvalues]
    exact hout.snoc (writeAddressHeader_writes hcrates hfield h)
  · rename_i hvalues
    obtain rfl := Except.ok.inj h
    rw [if_neg hvalues, List.append_nil]
    exact hout

theorem writeInReplyTo_writes {inReplyTo : Option Str} (hout : WritesFields names out)
    (h : writeInReplyTo out inReplyTo = .ok written) :
    WritesFields (names ++ if inReplyTo.isSome then ["In-Reply-To".toList] else []) written := by
  cases inReplyTo with
  | some id =>
    exact hout.snoc (writeThreadingHeader_writes (isHeaderText_of_all (by decide)) h)
  | none =>
    obtain rfl := Except.ok.inj h
    rw [if_neg (by simp), List.append_nil]
    exact hout

theorem writeReferences_writes {references : List Str} (hout : WritesFields names out)
    (h : writeReferences out references = .ok written) :
    WritesFields (names ++ if references ≠ [] then ["References".toList] else []) written := by
  unfold writeReferences at h
  split at h
  · rename_i hreferences
    rw [if_pos hreferences]
    exact hout.snoc (writeThreadingHeader_writes (isHeaderText_of_all (by decide)) h)
  · rename_i hreferences
    obtain rfl := Except.ok.inj h
    rw [if_neg hreferences, List.append_nil]
    exact hout

theorem writeMessageHeaders_writes (hcrates : ValidHasAt crates) {message : ComposedMessage}
    (hdate : HasInk message.renderDate) (h : writeMessageHeaders crates message = .ok written) :
    WritesFields (messageFields message) written := by
  have htext : ∀ {name : Str}, name.all (fun c => !isControl c) = true → IsHeaderText name :=
    isHeaderText_of_all
  obtain ⟨dated, hdated, h⟩ := bind_eq_ok.1 h
  obtain ⟨identified, hidentified, h⟩ := bind_eq_ok.1 h
  obtain ⟨sent, hsent, h⟩ := bind_eq_ok.1 h
  obtain ⟨withTo, hto, h⟩ := bind_eq_ok.1 h
  obtain ⟨withCc, hcc, h⟩ := bind_eq_ok.1 h
  obtain ⟨withBcc, hbcc, h⟩ := bind_eq_ok.1 h
  obtain ⟨withSubject, hsubject, h⟩ := bind_eq_ok.1 h
  obtain ⟨answered, hanswered, h⟩ := bind_eq_ok.1 h
  obtain ⟨referred, hreferred, h⟩ := bind_eq_ok.1 h
  have hdateTokens : ∀ token ∈ [message.renderDate], HasInk token :=
    fun token htoken => List.mem_singleton.1 htoken ▸ hdate
  have hdated := writesFields_nil.snoc
    (writeTokenHeader_writes (htext (by decide)) hdateTokens hdated)
  have hidentified := hdated.snoc (writeMessageIdHeader_writes hidentified)
  have hsent := hidentified.snoc (writeAddressHeader_writes hcrates (htext (by decide)) hsent)
  have hto := writeRecipientHeader_writes hcrates (htext (by decide)) hsent hto
  have hcc := writeRecipientHeader_writes hcrates (htext (by decide)) hto hcc
  have hbcc := writeRecipientHeader_writes hcrates (htext (by decide)) hcc hbcc
  have hsubject := hbcc.snoc (writeSubjectHeader_writes hsubject)
  have hanswered := writeInReplyTo_writes hsubject hanswered
  have hreferred := writeReferences_writes hanswered hreferred
  have hversion := hreferred.snoc (writeLiteralHeader_writes (htext (by decide)) h)
  simpa only [messageFields, recipientFields, threadingFields, List.append_assoc, List.cons_append,
    List.nil_append] using hversion

/-! ## What follows the headers -/

theorem prefix_ensureCrlfTerminated (text : Bytes) : text <+: ensureCrlfTerminated text := by
  unfold ensureCrlfTerminated
  split
  · exact List.prefix_rfl
  · exact List.prefix_append _ _

theorem prefix_writeLiteralHeader (h : writeLiteralHeader out name value = .ok written) :
    out <+: written := by
  obtain ⟨-, rfl⟩ := writeLiteralHeader_eq h
  exact List.prefix_append _ _

theorem prefix_writeParameters {count index : Nat} {parameters : List Str}
    (h : writeParameters name count out index parameters = .ok written) : out <+: written := by
  induction parameters generalizing out index with
  | nil =>
    obtain rfl := Except.ok.inj h
    exact List.prefix_rfl
  | cons parameter rest ih =>
    obtain ⟨_, _, h⟩ := bind_eq_ok.1 h
    exact (List.prefix_append _ _).trans (ih h)

theorem prefix_writeParameterizedHeader {parameterName parameterValue : Str}
    (h : writeParameterizedHeader out name value parameterName parameterValue = .ok written) :
    out <+: written := by
  obtain ⟨first, hfirst, h⟩ := bind_eq_ok.1 h
  exact (prefix_writeLiteralHeader hfirst).trans (prefix_writeParameters h)

theorem prefix_writeBoundary (out : Bytes) (boundary : Str) (closing : Bool) :
    out <+: writeBoundary out boundary closing := List.prefix_append _ _

theorem prefix_writeMultipartHeader {contentType boundary : Str}
    (h : writeMultipartHeader out contentType boundary = .ok written) : out <+: written := by
  obtain ⟨typed, htyped, h⟩ := bind_eq_ok.1 h
  obtain rfl := Except.ok.inj h
  exact (prefix_writeLiteralHeader htyped).trans (List.prefix_append _ _)

theorem prefix_writeQuotedPrintableBody {body : Str}
    (h : writeQuotedPrintableBody crates out body = .ok written) : out <+: written := by
  obtain ⟨normalized, _, h⟩ := bind_eq_ok.1 h
  obtain rfl := Except.ok.inj h
  exact (List.prefix_append _ _).trans (prefix_ensureCrlfTerminated _)

/-- A text part is two fields, an empty line and its body. -/
theorem writeTextPart_writes {contentType body : Str}
    (h : writeTextPart crates out contentType body = .ok written) :
    ∃ typed headers, Writes "Content-Type".toList out typed ∧
      Writes "Content-Transfer-Encoding".toList typed headers ∧ headers ++ crlf <+: written := by
  obtain ⟨headers, hheaders, h⟩ := bind_eq_ok.1 h
  obtain ⟨typed, htyped, hheaders⟩ := bind_eq_ok.1 hheaders
  exact ⟨typed, headers, writeLiteralHeader_writes (isHeaderText_of_all (by decide)) htyped,
    writeLiteralHeader_writes (isHeaderText_of_all (by decide)) hheaders,
    prefix_writeQuotedPrintableBody h⟩

theorem Writes.isPrefix (h : Writes name out written) : out <+: written := by
  obtain ⟨field, -, rfl⟩ := h
  exact List.prefix_append _ _

theorem prefix_writeTextPart {contentType body : Str}
    (h : writeTextPart crates out contentType body = .ok written) : out <+: written := by
  obtain ⟨typed, headers, htyped, hheaders, hbody⟩ := writeTextPart_writes h
  exact ((htyped.isPrefix.trans hheaders.isPrefix).trans (List.prefix_append _ _)).trans hbody

theorem prefix_renderAlternativeParts {boundary textBody : Str} {htmlBody : Option Str}
    (h : renderAlternativeParts crates out boundary textBody htmlBody = .ok written) :
    out <+: written := by
  obtain ⟨texted, htexted, h⟩ := bind_eq_ok.1 h
  have htexted := (prefix_writeBoundary out boundary false).trans (prefix_writeTextPart htexted)
  cases htmlBody with
  | none =>
    obtain rfl := Except.ok.inj h
    exact htexted.trans (prefix_writeBoundary _ _ _)
  | some html =>
    obtain ⟨htmled, hhtmled, h⟩ := bind_eq_ok.1 h
    obtain rfl := Except.ok.inj h
    have hhtmled := (prefix_writeBoundary texted boundary false).trans
      (prefix_writeTextPart hhtmled)
    exact (htexted.trans hhtmled).trans (prefix_writeBoundary _ _ _)

theorem prefix_writeAttachmentHeaders {filename contentType : Str}
    (h : writeAttachmentHeaders out filename contentType = .ok written) : out <+: written := by
  obtain ⟨_, _, h⟩ := bind_eq_ok.1 h
  obtain ⟨_, _, h⟩ := bind_eq_ok.1 h
  obtain ⟨_, _, h⟩ := bind_eq_ok.1 h
  obtain ⟨typed, htyped, h⟩ := bind_eq_ok.1 h
  obtain ⟨transferred, htransferred, h⟩ := bind_eq_ok.1 h
  obtain ⟨disposed, hdisposed, h⟩ := bind_eq_ok.1 h
  obtain rfl := Except.ok.inj h
  have htyped := prefix_writeParameterizedHeader htyped
  have htransferred := prefix_writeLiteralHeader htransferred
  have hdisposed := prefix_writeParameterizedHeader hdisposed
  exact ((htyped.trans htransferred).trans hdisposed).trans (List.prefix_append _ _)

theorem prefix_renderAttachment {attachment : AttachmentInput}
    (h : renderAttachment crates out attachment = .ok written) : out <+: written := by
  obtain ⟨headers, hheaders, h⟩ := bind_eq_ok.1 h
  have hheaders := prefix_writeAttachmentHeaders hheaders
  dsimp only at h
  split at h
  · obtain ⟨embedded, _, h⟩ := bind_eq_ok.1 h
    obtain rfl := Except.ok.inj h
    exact (hheaders.trans (List.prefix_append _ _)).trans (prefix_ensureCrlfTerminated _)
  · obtain rfl := Except.ok.inj h
    exact (hheaders.trans (List.prefix_append _ _)).trans (List.prefix_append _ _)

theorem prefix_renderFirstPart {message : ComposedMessage}
    (h : renderFirstPart crates out message = .ok written) : out <+: written := by
  unfold renderFirstPart at h
  split at h
  · obtain ⟨headers, hheaders, h⟩ := bind_eq_ok.1 h
    exact ((prefix_writeMultipartHeader hheaders).trans (List.prefix_append _ _)).trans
      (prefix_renderAlternativeParts h)
  · exact prefix_writeTextPart h

/-- A multipart header is one field of two lines. -/
theorem writeMultipartHeader_writes {contentType boundary : Str} (hboundary : IsHeaderText boundary)
    (h : writeMultipartHeader out contentType boundary = .ok written) :
    Writes "Content-Type".toList out written := by
  obtain ⟨typed, htyped, h⟩ := bind_eq_ok.1 h
  obtain rfl := Except.ok.inj h
  obtain ⟨hvalue, rfl⟩ := writeLiteralHeader_eq htyped
  have hclean : ∀ text : Str, IsHeaderText text →
      0x0D ∉ Utf8.encode text ∧ 0x0A ∉ Utf8.encode text := fun text htext =>
    ⟨not_mem_encode (not_mem_of_isHeaderText htext), not_mem_newline_encode htext⟩
  obtain ⟨hnameCr, hnameLf⟩ := hclean "Content-Type".toList (isHeaderText_of_all (by decide))
  obtain ⟨hvalueCr, hvalueLf⟩ := hclean _ hvalue
  obtain ⟨hopenCr, hopenLf⟩ := hclean " boundary=\"".toList (isHeaderText_of_all (by decide))
  obtain ⟨hboundaryCr, hboundaryLf⟩ := hclean _ hboundary
  obtain ⟨hcloseCr, hcloseLf⟩ := hclean "\"".toList (isHeaderText_of_all (by decide))
  refine ⟨[Utf8.encode "Content-Type".toList ++
      0x3A :: 0x20 :: Utf8.encode (contentType ++ ";".toList),
    Utf8.encode " boundary=\"".toList ++ Utf8.encode boundary ++ Utf8.encode "\"".toList],
    ⟨⟨_, _, rfl, ?_⟩, ?_⟩, ?_⟩
  · intro line hline
    obtain rfl := List.mem_singleton.1 hline
    -- the second line is not blank, for the boundary stands in quotes
    have hquote : (0x22 : UInt8) ∈ Utf8.encode "\"".toList := by decide
    refine ⟨by rfl, fun hblank => ?_⟩
    exact absurd (hblank 0x22 (List.mem_append_right _ hquote)) (by decide)
  · intro line hline
    rcases List.mem_cons.1 hline with rfl | hline
    · simp only [List.mem_append, List.mem_cons]
      exact ⟨not_or.2 ⟨hnameCr, not_or.2 ⟨by decide, not_or.2 ⟨by decide, hvalueCr⟩⟩⟩,
        not_or.2 ⟨hnameLf, not_or.2 ⟨by decide, not_or.2 ⟨by decide, hvalueLf⟩⟩⟩⟩
    · obtain rfl := List.mem_singleton.1 hline
      simp only [List.mem_append]
      exact ⟨not_or.2 ⟨not_or.2 ⟨hopenCr, hboundaryCr⟩, hcloseCr⟩,
        not_or.2 ⟨not_or.2 ⟨hopenLf, hboundaryLf⟩, hcloseLf⟩⟩
  · simp only [joinLines_cons, joinLines_nil, List.append_nil, List.append_assoc]

/-! ## The section -/

def isMultipart (message : ComposedMessage) : Bool :=
  message.attachments ≠ [] || (renderedHtmlBody message).isSome

/-- The fields of a message, in their order. -/
def fieldNames (message : ComposedMessage) : List Str :=
  messageFields message ++ ["Content-Type".toList] ++
    if isMultipart message then [] else ["Content-Transfer-Encoding".toList]

/-- The names of all fields that a message can have. -/
def allFieldNames : List Str :=
  (["Date", "Message-ID", "From"] ++ (["To"] ++ ["Cc"] ++ ["Bcc"]) ++ ["Subject"] ++
    (["In-Reply-To"] ++ ["References"]) ++ ["MIME-Version"] ++ ["Content-Type"] ++
    ["Content-Transfer-Encoding"]).map String.toList

theorem sublist_ite {c : Prop} [Decidable c] (name : Str) :
    (if c then [name] else []).Sublist [name] := by
  split
  · exact List.Sublist.refl _
  · exact List.nil_sublist _

/-- No field is there twice, and none is out of order. -/
theorem fieldNames_sublist (message : ComposedMessage) :
    (fieldNames message).Sublist allFieldNames := by
  have hrecipients : (recipientFields message).Sublist ["To".toList, "Cc".toList, "Bcc".toList] :=
    ((sublist_ite _).append (sublist_ite _)).append (sublist_ite _)
  have hthreading : (threadingFields message).Sublist ["In-Reply-To".toList, "References".toList] :=
    (sublist_ite _).append (sublist_ite _)
  have htransfer : (if isMultipart message then [] else
      ["Content-Transfer-Encoding".toList]).Sublist ["Content-Transfer-Encoding".toList] := by
    split
    · exact List.nil_sublist _
    · exact List.Sublist.refl _
  have hfields :=
    ((((((List.Sublist.refl ["Date".toList, "Message-ID".toList, "From".toList]).append
    hrecipients).append (List.Sublist.refl ["Subject".toList])).append hthreading).append
    (List.Sublist.refl ["MIME-Version".toList])).append
    (List.Sublist.refl ["Content-Type".toList])).append htransfer
  exact hfields

theorem isName_of_mem {message : ComposedMessage} (h : name ∈ fieldNames message) :
    IsName (Utf8.encode name) := by
  have hall : (allFieldNames.all fun name => Utf8.encode name ≠ [] &&
      (Utf8.encode name).all fun byte => 0x20 < byte && byte ≠ 0x3A) = true := by decide
  have hname := List.all_eq_true.1 hall name ((fieldNames_sublist message).subset h)
  simp only [Bool.and_eq_true, decide_eq_true_eq, List.all_eq_true] at hname
  exact ⟨hname.1, hname.2⟩

/-- What is written starts with the fields and an empty line. There are three layouts: one text
part, two alternatives, and a mixed message with attachments; the last two have a multipart type. -/
theorem writeMessage_section (hcrates : ValidHasAt crates) {message : ComposedMessage}
    (hdate : HasInk message.renderDate) (huuid : IsUuidText message.mimeBoundaryId)
    (h : writeMessage crates message = .ok written) :
    ∃ headers, WritesFields (fieldNames message) headers ∧ headers ++ crlf <+: written := by
  have hid := isHeaderText_of_isUuidText huuid
  have hmixed : IsHeaderText (mixedBoundary message) :=
    (isHeaderText_of_all (by decide)).append hid
  have halternative : IsHeaderText (alternativeBoundary message) :=
    (isHeaderText_of_all (by decide)).append hid
  obtain ⟨headers, hheaders, h⟩ := bind_eq_ok.1 h
  have hheaders := writeMessageHeaders_writes hcrates hdate hheaders
  unfold fieldNames
  dsimp only at h
  split at h
  · rename_i hattachments
    split at h
    · rename_i hhtml
      -- A message of one text part has the fields of that part behind its own.
      have hplain : isMultipart message = false := by simp [isMultipart, hattachments, hhtml]
      rw [hplain]
      obtain ⟨typed, transferred, htyped, htransferred, hbody⟩ := writeTextPart_writes h
      exact ⟨transferred, (hheaders.snoc htyped).snoc htransferred, hbody⟩
    · rename_i hhtml
      have hmultipart : isMultipart message = true := by
        simp [isMultipart, hattachments, Option.isSome_iff_ne_none.2 hhtml]
      rw [hmultipart]
      obtain ⟨typed, htyped, h⟩ := bind_eq_ok.1 h
      refine ⟨typed, ?_, prefix_renderAlternativeParts h⟩
      simpa using hheaders.snoc (writeMultipartHeader_writes halternative htyped)
  · rename_i hattachments
    have hmultipart : isMultipart message = true := by simp [isMultipart, hattachments]
    rw [hmultipart]
    obtain ⟨typed, htyped, h⟩ := bind_eq_ok.1 h
    obtain ⟨first, hfirst, h⟩ := bind_eq_ok.1 h
    obtain ⟨attached, hattached, h⟩ := bind_eq_ok.1 h
    obtain rfl := Except.ok.inj h
    refine ⟨typed, ?_, ?_⟩
    · simpa using hheaders.snoc (writeMultipartHeader_writes hmixed htyped)
    · have hfirst := (prefix_writeBoundary (typed ++ crlf) _ false).trans
        (prefix_renderFirstPart hfirst)
      -- Whatever the parts are, they are written behind the section.
      refine (foldlM_preserves ?_ hfirst hattached).trans (prefix_writeBoundary _ _ _)
      intro before attachment after hbefore hrender
      exact (hbefore.trans (prefix_writeBoundary _ _ _)).trans (prefix_renderAttachment hrender)

/-- A reader of the rendered message finds its fields, in their order and each once, whatever the
strings of the message are; and no line of the section is white space only. The two hypotheses on
the strings are on those that the program itself makes, the date and the boundary id; the subject,
the names and the addresses are arbitrary. -/
theorem rendered_fields_read (crates : Crates) (message : ComposedMessage) (out : Bytes)
    (hcrates : ValidHasAt crates) (hdate : HasInk message.renderDate)
    (huuid : IsUuidText message.mimeBoundaryId) (h : renderMessage crates message = .ok out) :
    (fields (headerLines out)).map fieldName = (fieldNames message).map Utf8.encode ∧
      (∀ line ∈ headerLines out, ¬ IsBlank line ∧ 0x0D ∉ line ∧ 0x0A ∉ line) ∧
      ∃ body, out = joinLines (headerLines out) ++ (crlf ++ body) := by
  obtain ⟨written, hwritten, h⟩ := bind_eq_ok.1 h
  obtain ⟨_, _, h⟩ := bind_eq_ok.1 h
  obtain rfl := Except.ok.inj h
  obtain ⟨headers, ⟨groups, hgroups, rfl⟩, body, rfl⟩ :=
    writeMessage_section hcrates hdate huuid hwritten
  have hnames : ∀ name ∈ (fieldNames message).map Utf8.encode, IsName name := by
    intro name hname
    obtain ⟨name, hmem, rfl⟩ := List.mem_map.1 hname
    exact isName_of_mem hmem
  rw [List.append_assoc]
  obtain ⟨hread, hlines⟩ := read_fields hnames hgroups body
  refine ⟨hread, hlines, body, ?_⟩
  rw [headerLines_eq hgroups]

/-- A note whose subject looks like another field. -/
def disguisedNote : ComposedMessage :=
  ComposedMessage.new Reference.crates ⟨['7'], ['n', 'o', 'w'], ['4', '-', 'a']⟩
    "a@b.c".toList ["d@e.f".toList] "Bcc: g@h.i".toList ['x']

/-- It is a subject. -/
theorem disguised_note_read :
    ∃ out, renderMessage Reference.crates disguisedNote = .ok out ∧
      (fields (headerLines out)).map fieldName =
        ["Date", "Message-ID", "From", "To", "Subject", "MIME-Version", "Content-Type",
          "Content-Transfer-Encoding"].map fun name => Utf8.encode name.toList := by
  obtain ⟨out, hout⟩ := exists_eq_ok (x := renderMessage Reference.crates disguisedNote)
    (by decide +kernel)
  have hcrates : ValidHasAt Reference.crates := by
    intro email hvalid
    exact of_decide_eq_true hvalid
  have hdate : HasInk disguisedNote.renderDate :=
    HasInk.of_mem (c := 'n') List.mem_cons_self (by decide) (by decide)
  have huuid : IsUuidText disguisedNote.mimeBoundaryId := by
    intro c hc
    have hmem : c ∈ ['4', '-', 'a'] := hc
    simp only [List.mem_cons, List.not_mem_nil, or_false] at hmem
    rcases hmem with rfl | rfl | rfl
    · exact Or.inr (by decide)
    · exact Or.inl rfl
    · exact Or.inr (by decide)
  refine ⟨out, hout, ?_⟩
  exact (rendered_fields_read Reference.crates disguisedNote out hcrates hdate huuid hout).1

end Notm.Mail
