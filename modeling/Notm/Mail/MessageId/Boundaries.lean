import Notm.Mail.MessageId.IndexedSequence

/-!
# The boundaries of the scans

No input makes the scanners of message identifiers panic: each of them begins between two
characters of a value and ends there.

* `safe_phraseFrom`, `safe_validDotSeparatedFrom` — the loops go forward, from boundary to boundary.
* `safe_canonicalMessageIdCore` — one identifier.
* `safe_messageIdsFrom`, `safe_messageIdTokens` — a value, and all values of a field.
* `message_id_tokens_never_panics` — the whole of it, for the scanner with its indexes.
-/

namespace Notm.Mail

open Rust Rfc5322
open Utf8 (At leadByte)

variable {α : Type} {field : String} {value : Str} {index : Nat}

/-- A call that does not panic, and whose value satisfies `post`. -/
abbrev Safe (post : α → Prop) (r : Res α) : Prop := Ensures (· ≠ .panic) post r

/-- An offset between two characters of `value`, or at one of its ends. -/
def Lands (value : Str) (next : Nat) : Prop := ∃ rest, At value next rest

/-! ## Failures -/

theorem safe_bail {post : α → Prop} (text : Text) : Safe post (Res.bail text) := by
  show Fault.error (.msg text) ≠ .panic
  simp

theorem safe_ensure (condition : Bool) (text : Text) :
    Safe (fun _ => condition = true) (Res.ensure condition text) := by
  cases condition with
  | false => exact safe_bail text
  | true => rfl

theorem safe_bailNear {post : α → Prop} {rest : Str} {message : String} (h : At value index rest) :
    Safe post (bailNear field value index message) := by
  unfold bailNear
  rw [sliceFrom_at h]
  exact safe_bail _

theorem safe_ensureNear {condition : Bool} {rest : Str} {message : String}
    (h : At value index rest) :
    Safe (fun _ => condition = true) (ensureNear condition field value index message) := by
  cases condition with
  | false => exact safe_bailNear h
  | true => rfl

theorem safe_okOrNear {found : Option Nat} {rest : Str} {message : String} {post : Nat → Prop}
    (h : At value index rest) (hfound : ∀ next, found = some next → post next) :
    Safe post (okOrNear field value index message found) := by
  cases found with
  | none => exact safe_bailNear h
  | some next => exact hfound next rfl

theorem safe_questionOr {bytes : Bytes} {rest : Str} {message : String} (h : At value index rest) :
    Safe (fun _ => True) (questionOr field value index message bytes) := by
  unfold questionOr
  cases splitQuestion bytes with
  | none => exact safe_bailNear h
  | some split => exact trivial

theorem safe_ensureValue (condition : Bool) (message : String) :
    Safe (fun _ => condition = true) (ensureValue condition field message value) := by
  cases condition with
  | false => exact safe_bail _
  | true => rfl

theorem safe_separatorOf (bytes : Bytes) :
    Safe (fun separator => messageIdSeparator bytes = some separator)
      (separatorOf field value bytes) := by
  unfold separatorOf
  cases messageIdSeparator bytes with
  | none => exact safe_bail _
  | some separator => rfl

theorem safe_validateHeaderText (name : Text) (value : Str) :
    Safe (fun _ => True) (validateHeaderText name value) := by
  unfold validateHeaderText
  cases value.find? fun c => c ≠ '\t' && isControl c with
  | none => exact trivial
  | some character => exact safe_bail _

/-! ## Scanners of a value -/

variable (field) in
theorem safe_skipMessageIdCfws {rest : Str} (h : At value index rest) :
    Safe (fun next => Lands value next ∧ index ≤ next) (skipMessageIdCfws field value index) := by
  rcases skipMessageIdCfws_cases field h with ⟨e, herr⟩ | ⟨a, rest', rfl, -, -, hskip⟩
  · rw [herr]
    show Fault.error e ≠ .panic
    simp
  · rw [hskip]
    exact ⟨⟨rest', h.advance⟩, Nat.le_add_right _ _⟩

variable (field) in
/-- A word of a phrase is read without a panic, and the next one starts between characters. -/
theorem safe_parseObsoleteThreadingWord {rest : Str} (h : At value index rest) :
    Safe (Lands value) (parseObsoleteThreadingWord field value index) := by
  -- No word panics; where one is read, `parseObsoleteThreadingWord_eq_ok` says where it ends.
  have hsafe : Safe (fun _ => True) (parseObsoleteThreadingWord field value index) := by
    unfold parseObsoleteThreadingWord
    split
    · unfold parseObsoleteThreadingEncodedWord
      refine (safe_ensureNear h).bind fun _ _ => ?_
      refine (safe_questionOr h).bind fun charset _ => ?_
      refine (safe_ensureNear h).bind fun _ _ => ?_
      refine (safe_questionOr h).bind fun encoding _ => ?_
      refine (safe_ensureNear h).bind fun _ _ => ?_
      refine (safe_questionOr h).bind fun text _ => ?_
      refine (safe_ensureNear h).bind fun _ _ => ?_
      refine (safe_ensureNear h).bind fun _ _ => ?_
      refine (safe_ensure _ _).bind fun _ _ => ?_
      exact (safe_ensureNear h).bind fun _ _ => trivial
    · split
      · next hquote =>
        cases rest with
        | nil => exact absurd (byteAt_nil h) (by rw [hquote]; simp)
        | cons c rest =>
          rw [byteAt_cons h, Option.some.injEq] at hquote
          obtain rfl : c = '"' := (leadByte_eq_iff (by decide) rfl).mp hquote
          unfold parseObsoleteThreadingQuotedWord
          rcases threadingQuotedWordFrom_cases (h.step_ascii (by decide)) with
            hnone | ⟨body, rest', -, -, hsome⟩
          · rw [hnone, Indexed.ok_bind]
            exact safe_okOrNear h fun _ _ => trivial
          · rw [hsome]
            exact trivial
      · rcases parseObsoleteThreadingAtom_cases h with hnone | ⟨w, rest', -, -, -, -, hsome⟩
        · rw [hnone, Indexed.ok_bind]
          exact safe_okOrNear h fun _ _ => trivial
        · rw [hsome]
          exact trivial
  refine hsafe.of_ok fun next hnext => ?_
  obtain ⟨segment, rest', rfl, -, rfl⟩ := parseObsoleteThreadingWord_eq_ok h hnext
  exact ⟨rest', h.advance⟩

/-- The induction is on what is left of the value: every round of the loop goes forward. -/
theorem safe_phraseFrom (hlands : Lands value index) :
    Safe (Lands value) (phraseFrom field value index) := by
  induction hlen : (Utf8.encode value).length - index using Nat.strongRecOn
    generalizing index with
  | ind n ih =>
  subst hlen
  obtain ⟨rest, h⟩ := hlands
  rw [phraseFrom_eq]
  rcases (safe_skipMessageIdCfws field h).elim with
    ⟨fault, hfault, hne⟩ | ⟨start, hstart, ⟨rest', hat⟩, hge⟩
  · rw [hfault]
    exact hne
  rw [hstart]
  show Safe (Lands value) (phraseAt field value start)
  unfold phraseAt
  cases rest' with
  | nil =>
    rw [byteAt_nil hat]
    exact ⟨[], hat⟩
  | cons c rest' =>
    have hlt := lt_of_byteAt (byteAt_cons hat)
    rw [byteAt_cons hat]
    dsimp only
    split
    · exact ⟨c :: rest', hat⟩
    split
    · next hdot =>
      obtain rfl : c = '.' := (leadByte_eq_iff (by decide) rfl).mp hdot
      exact ih _ (by omega) ⟨rest', hat.step_ascii (by decide)⟩ rfl
    rcases (safe_parseObsoleteThreadingWord field hat).elim with
      ⟨fault, hfault, hne⟩ | ⟨next, hnext, hlands⟩
    · rw [hfault]
      exact hne
    · rw [hnext]
      have hgt := parseObsoleteThreadingWord_gt hnext
      exact ih _ (by omega) hlands rfl

variable (field) in
theorem safe_parseObsoleteThreadingPhrase (hlands : Lands value index) :
    Safe (Lands value) (parseObsoleteThreadingPhrase field value index) := by
  obtain ⟨rest, h⟩ := hlands
  unfold parseObsoleteThreadingPhrase
  rcases (safe_parseObsoleteThreadingWord field h).elim with
    ⟨fault, hfault, hne⟩ | ⟨next, hnext, hlands⟩
  · rw [hfault]
    exact hne
  · rw [hnext]
    exact safe_phraseFrom hlands

/-! ## Scanners of an identifier -/

/-- The two sides of an identifier are read by one loop, whatever word stands between its dots. -/
theorem safe_validDotSeparatedFrom {parse : Nat → Res (Option Nat)} {P : List Char → Prop}
    (hparse : ∀ {index next}, parse index = .ok (some next) → index < next)
    (hscan : ScansWord value parse P) {rest : Str} (h : At value index rest) :
    Safe (fun _ => True) (validDotSeparatedFrom parse hparse value index) := by
  rcases validDotSeparatedFrom_cases hparse hscan h with ⟨e, herr⟩ | hfalse | ⟨canon, hcanon⟩
  · rw [herr]
    show Fault.error e ≠ .panic
    simp
  · rw [hfalse]
    exact trivial
  · rw [validDotSeparatedFrom_of hscan hcanon h]
    exact trivial

theorem safe_validObsIdLeftWithCfws (left : Str) :
    Safe (fun valid => valid = true → ∃ canon, IdLeft left canon)
      (validObsIdLeftWithCfws field left) := by
  have hsafe : Safe (fun _ => True) (validObsIdLeftWithCfws field left) := by
    unfold validObsIdLeftWithCfws
    split
    · exact trivial
    · exact safe_validDotSeparatedFrom _ (scansWord_parseObsIdLeftWord field left) (At.start left)
  refine hsafe.of_ok fun valid hok htrue => ?_
  exact (validObsIdLeftWithCfws_iff left).mp (htrue ▸ hok)

theorem safe_validObsDomainLiteral {rest : Str} (h : At value index ('[' :: rest)) :
    Safe (fun _ => True) (validObsDomainLiteral field value index) := by
  have hopen := h.step_ascii (by decide)
  unfold validObsDomainLiteral skipObsoleteMessageIdCfws
  rw [hopen.drop_encode]
  split
  · exact trivial
  · next next hnext =>
    obtain ⟨s, canon, rest', rfl, -, -, rfl⟩ := domainLiteralEnd_eq_some hnext
    have hclose : At value (index + 1 + Utf8.len s + 1) rest' :=
      hopen.advance.step_ascii (by decide)
    exact ((safe_skipMessageIdCfws field hclose).mono fun _ _ => trivial).map

theorem safe_validObsIdRightWithCfws (right : Str) :
    Safe (fun valid => valid = true → ∃ canon, IdRight right canon)
      (validObsIdRightWithCfws field right) := by
  have hsafe : Safe (fun _ => True) (validObsIdRightWithCfws field right) := by
    unfold validObsIdRightWithCfws skipObsoleteMessageIdCfws
    split
    · exact trivial
    rcases (safe_skipMessageIdCfws field (At.start right)).elim with
      ⟨fault, hfault, hne⟩ | ⟨start, hstart, ⟨rest, hat⟩, -⟩
    · rw [hfault]
      exact hne
    rw [hstart]
    dsimp only
    split
    · next hbyte =>
      cases rest with
      | nil => exact absurd (byteAt_nil hat) (by rw [hbyte]; simp)
      | cons c rest =>
        rw [byteAt_cons hat, Option.some.injEq] at hbyte
        obtain rfl : c = '[' := (leadByte_eq_iff (by decide) rfl).mp hbyte
        exact safe_validObsDomainLiteral hat
    · exact safe_validDotSeparatedFrom _ (scansWord_parseObsDomainAtom field right)
        (At.start right)
  refine hsafe.of_ok fun valid hok htrue => ?_
  exact (validObsIdRightWithCfws_iff right).mp (htrue ▸ hok)

/-- What is left of an identifier without its white space and comments is text. -/
theorem safe_canonicalInner {allow : Bool} (left right : Str) :
    Safe (fun inner => ∃ text, inner = Utf8.encode text)
      (canonicalInner field value (left ++ '@' :: right) left right allow) := by
  cases allow with
  | true =>
    refine (safe_validObsIdLeftWithCfws left).bind fun validLeft hleft => ?_
    refine (safe_ensureValue validLeft _).bind fun _ hvalid => ?_
    obtain ⟨leftCanon, hleft⟩ := hleft hvalid
    refine (safe_validObsIdRightWithCfws right).bind fun validRight hright => ?_
    refine (safe_ensureValue validRight _).bind fun _ hvalid => ?_
    obtain ⟨rightCanon, hright⟩ := hright hvalid
    rw [stripObsoleteMessageIdCfws_of (.mk hleft hright)]
    exact ⟨_, rfl⟩
  | false =>
    refine (safe_ensureValue _ _).bind fun _ _ => ?_
    refine (safe_ensureValue _ _).bind fun _ _ => ?_
    exact ⟨_, rfl⟩

/-- An identifier is returned as ASCII, and nothing of it is taken for granted in vain. -/
theorem safe_canonicalMessageIdCore (field : String) (value : Str) (allow : Bool) :
    Safe (fun id => isAscii id = true) (canonicalMessageIdCore field value allow) := by
  have hsafe : Safe (fun _ => True) (canonicalMessageIdCore field value allow) := by
    unfold canonicalMessageIdCore
    refine (safe_ensureValue _ _).bind fun _ hshape => ?_
    simp only [Bool.and_eq_true, beq_iff_eq] at hshape
    obtain ⟨x, rfl⟩ := bracketed_of_shape hshape.1
    have hinner : ('<' :: (x ++ ['>'])).tail.dropLast = x := by
      rw [List.tail_cons, List.dropLast_concat]
    dsimp only
    rw [hinner]
    refine (safe_separatorOf _).bind fun sourceSeparator hsource => ?_
    obtain ⟨left, right, rfl, rfl⟩ := Indexed.exists_split hsource
    rw [splitSource_of, Indexed.ok_bind]
    dsimp only
    refine (safe_canonicalInner left right).bind fun inner htext => ?_
    obtain ⟨text, rfl⟩ := htext
    refine (safe_separatorOf _).bind fun separator _ => ?_
    refine (safe_ensureValue _ _).bind fun _ _ => ?_
    refine (safe_ensureValue _ _).bind fun _ _ => ?_
    rw [Utf8.decode_encode]
    exact trivial
  refine hsafe.of_ok fun id hid => ?_
  obtain ⟨x, rfl⟩ := canonicalMessageIdCore_bracketed hid
  obtain ⟨canon, haccepts, rfl⟩ := canonicalMessageIdCore_iff.mp hid
  exact isAscii_bracketed haccepts.msgId.canonicalChar

/-! ## The values of a field -/

theorem byte_of_findIdEnd {scan : IdScan} {start stop : Nat} {bytes : Bytes}
    (h : findIdEnd scan start bytes = some stop) :
    ∃ offset, stop = start + offset ∧ bytes[offset]? = some 0x3E := by
  induction bytes generalizing scan start with
  | nil => exact absurd h (by simp [findIdEnd])
  | cons byte bytes ih =>
    rw [findIdEnd] at h
    split at h
    · next hfound =>
      obtain rfl := Option.some.inj h
      exact ⟨0, rfl, congrArg some hfound.2⟩
    · obtain ⟨offset, rfl, hbyte⟩ := ih h
      exact ⟨offset + 1, by omega, hbyte⟩

/-- An identifier ends at a closing angle bracket, and the scan goes on behind it. -/
theorem safe_findMessageIdEnd (field : String) (value : Str) (index : Nat) :
    Safe (fun stop => index ≤ stop ∧ ∃ rest, At value stop ('>' :: rest))
      (findMessageIdEnd field value index) := by
  unfold findMessageIdEnd
  split
  · next stop hstop =>
    obtain ⟨offset, rfl, hbyte⟩ := byte_of_findIdEnd hstop
    rw [List.getElem?_drop] at hbyte
    obtain ⟨c, rest, hat, hlead⟩ := Utf8.exists_at hbyte (by decide)
    obtain rfl : c = '>' := (leadByte_eq_iff (by decide) rfl).mp hlead
    exact ⟨Nat.le_add_right _ _, rest, hat⟩
  · exact safe_bail _

/-- The slice of an identifier starts and ends between characters. -/
theorem sliceThrough_lands {stop : Nat} {rest rest' : Str} (h : At value index rest)
    (hstop : At value (stop + 1) rest') (hle : index ≤ stop) :
    ∃ source, sliceThrough value index stop = .ok source := by
  obtain ⟨before, rfl, rfl⟩ := h
  obtain ⟨through, htext, hlen⟩ := hstop
  have hprefix : before <+: through := by
    refine (List.prefix_or_prefix_of_prefix (List.prefix_append before rest)
      (htext ▸ List.prefix_append through rest')).resolve_right fun hshort => ?_
    obtain ⟨more, rfl⟩ := hshort
    rw [Utf8.len_append] at hle
    omega
  obtain ⟨source, rfl⟩ := hprefix
  rw [List.append_assoc] at htext
  obtain rfl := List.append_cancel_left htext
  refine ⟨source, ?_⟩
  have hat : At (before ++ (source ++ rest')) (Utf8.len before) (source ++ rest') :=
    ⟨before, rfl, rfl⟩
  have hcount : stop + 1 - Utf8.len before = Utf8.len source := by
    rw [hlen, Utf8.len_append, Nat.add_sub_cancel_left]
  rw [sliceThrough, sliceFrom_at hat, Indexed.ok_bind, hcount, Utf8.takeBytes_append]
  rfl

theorem safe_identifier (allow : Bool) {stop : Nat} (hlands : Lands value index)
    (hstop : findMessageIdEnd field value (index + 1) = .ok stop) :
    Lands value (stop + 1) ∧
      Safe (fun id => isAscii id = true) (sliceThrough value index stop >>= fun id =>
        canonicalMessageIdCore field id allow) := by
  obtain ⟨rest, hat⟩ := hlands
  have hend := safe_findMessageIdEnd field value (index + 1)
  rw [hstop] at hend
  obtain ⟨hle, rest', hclose⟩ := hend
  have hbehind : At value (stop + 1) rest' := hclose.step_ascii (by decide)
  obtain ⟨source, hsource⟩ := sliceThrough_lands hat hbehind (by omega)
  rw [hsource, Indexed.ok_bind]
  exact ⟨⟨rest', hbehind⟩, safe_canonicalMessageIdCore field source allow⟩

/-- From an offset between characters the loop over a value takes no index or slice out of its
range, and adds identifiers in ASCII only. -/
theorem safe_messageIdsFrom {allow : Bool} {ids : List Str} (hlands : Lands value index)
    (hids : ∀ id ∈ ids, isAscii id = true) :
    Indexed.messageIdsFrom field value allow index ids =
        messageIdsFrom field value allow index ids ∧
      Safe (fun ids => ∀ id ∈ ids, isAscii id = true)
        (messageIdsFrom field value allow index ids) := by
  have hidentifier : ∀ {start stop : Nat}, findMessageIdEnd field value (start + 1) = .ok stop →
      (Indexed.strRange value start (stop + 1) >>= fun id =>
          Indexed.canonicalMessageIdCore field id allow) =
        sliceThrough value start stop >>= fun id => canonicalMessageIdCore field id allow := by
    intro start stop hstop
    have hge := findMessageIdEnd_ge hstop
    rw [Indexed.strRange_through (by omega)]
    exact bind_congr fun id => Indexed.canonicalMessageIdCore_eq field id allow
  have hmodel : ∀ {start : Nat} {ids : List Str} {index : Nat},
      index < (Utf8.encode value).length → skipMessageIdCfws field value index = .ok start →
        messageIdsFrom field value allow index ids = messageIdsAt field value allow start ids := by
    intro start ids index hlt hskip
    rw [messageIdsFrom_eq, if_pos hlt, hskip]
  have hstart : ∀ {index start : Nat}, Lands value index →
      skipMessageIdCfws field value index = .ok start → Lands value start := by
    intro index start hlands hskip
    obtain ⟨rest, h⟩ := hlands
    have hsafe := safe_skipMessageIdCfws field h
    rw [hskip] at hsafe
    exact hsafe.1
  -- The cases are the turns of the loop: white space that fails, the end of the value, a phrase
  -- where none is allowed, one that fails or is passed over, and an identifier that has no end, is
  -- refused or is added. The model takes the same turn in each.
  fun_induction Indexed.messageIdsFrom field value allow index ids with
  | case1 index ids hlt fault hskip =>
    obtain ⟨rest, h⟩ := hlands
    have hsafe := safe_skipMessageIdCfws field h
    rw [hskip] at hsafe
    rw [messageIdsFrom_eq, if_pos hlt, hskip]
    exact ⟨rfl, hsafe⟩
  | case2 index ids hlt hskip =>
    have hend : byteAt value (Utf8.encode value).length = none :=
      List.getElem?_eq_none (Nat.le_refl _)
    rw [hmodel hlt hskip, messageIdsAt, hend]
    exact ⟨rfl, hids⟩
  | case3 index ids hlt start hskip hne hnone =>
    obtain ⟨rest, hat⟩ := hstart hlands hskip
    exact absurd ((length_eq_iff hat).mpr ((byteAt_eq_none_iff hat).mp hnone)) hne
  | case4 index ids hlt start hskip hne byte hbyte hopen hallow =>
    obtain ⟨rest, hat⟩ := hstart hlands hskip
    rw [hmodel hlt hskip, messageIdsAt, hbyte]
    simp only [if_pos hopen, if_pos hallow]
    exact ⟨trivial, safe_bailNear hat⟩
  | case5 index ids hlt start hskip hne byte hbyte hopen hallow fault hphrase =>
    rw [Indexed.parseObsoleteThreadingPhrase_eq] at hphrase
    have hsafe := safe_parseObsoleteThreadingPhrase field (hstart hlands hskip)
    rw [hphrase] at hsafe
    rw [hmodel hlt hskip, messageIdsAt, hbyte]
    simp only [if_pos hopen, if_neg hallow, hphrase]
    exact ⟨trivial, hsafe⟩
  | case6 index ids hlt start hskip hne byte hbyte hopen hallow next hphrase ih =>
    rw [Indexed.parseObsoleteThreadingPhrase_eq] at hphrase
    have hsafe := safe_parseObsoleteThreadingPhrase field (hstart hlands hskip)
    rw [hphrase] at hsafe
    rw [hmodel hlt hskip, messageIdsAt, hbyte]
    simp only [if_pos hopen, if_neg hallow, hphrase]
    exact ih hsafe hids
  | case7 index ids hlt start hskip hne byte hbyte hopen fault hstop =>
    have hsafe := safe_findMessageIdEnd field value (start + 1)
    rw [hstop] at hsafe
    rw [hmodel hlt hskip, messageIdsAt, hbyte]
    simp only [if_neg hopen, hstop]
    exact ⟨trivial, hsafe⟩
  | case8 index ids hlt start hskip hne byte hbyte hopen stop hstop fault hcore =>
    have hsafe := safe_identifier allow (hstart hlands hskip) hstop
    rw [hidentifier hstop] at hcore
    rw [hmodel hlt hskip, messageIdsAt, hbyte]
    simp only [if_neg hopen, hstop]
    rw [hcore] at hsafe ⊢
    exact ⟨rfl, hsafe.2⟩
  | case9 index ids hlt start hskip hne byte hbyte hopen stop hstop id hcore ih =>
    have hsafe := safe_identifier allow (hstart hlands hskip) hstop
    rw [hidentifier hstop] at hcore
    rw [hmodel hlt hskip, messageIdsAt, hbyte]
    simp only [if_neg hopen, hstop]
    rw [hcore] at hsafe ⊢
    exact ih hsafe.1 (List.forall_mem_append.mpr ⟨hids, List.forall_mem_singleton.mpr hsafe.2⟩)
  | case10 index ids hge =>
    rw [messageIdsFrom_eq, if_neg hge]
    exact ⟨rfl, hids⟩

/-- Every value of a field is scanned to its end or to an error. -/
theorem safe_messageIdTokens (field : String) (values : List Str) :
    Indexed.messageIdTokens field values = messageIdTokens field values ∧
      Safe (fun ids => ∀ id ∈ ids, isAscii id = true) (messageIdTokens field values) := by
  have hvalue : ∀ value, Indexed.parseMessageIdSequence field value (allowsObsoleteSyntax field) =
        parseMessageIdSequence field value (allowsObsoleteSyntax field) ∧
      Safe (fun ids => ∀ id ∈ ids, isAscii id = true)
        (parseMessageIdSequence field value (allowsObsoleteSyntax field)) := fun value =>
    safe_messageIdsFrom ⟨value, At.start value⟩ (by simp)
  constructor
  · unfold Indexed.messageIdTokens messageIdTokens
    simp only [(hvalue _).1]
  · refine Ensures.foldlM (fun tokens value htokens => ?_) (by simp)
    refine (safe_validateHeaderText _ value).bind fun _ _ => ?_
    refine (hvalue value).2.bind fun ids hids => ?_
    exact List.forall_mem_append.mpr ⟨htokens, hids⟩

/-- What one round of each loop of the scan does: the position goes forward. -/
structure Forward (field : String) (value : Str) : Prop where
  comment : ∀ {index depth next}, skipComment field value index depth = .ok next → index ≤ next
  cfws : ∀ {index next}, skipMessageIdCfws field value index = .ok next → index ≤ next
  quotedWord : ∀ {index next}, threadingQuotedWordFrom value index = .ok (some next) → index < next
  word : ∀ {index next},
    Indexed.parseObsoleteThreadingWord field value index = .ok next → index < next
  phrase : ∀ {index next},
    Indexed.parseObsoleteThreadingPhrase field value index = .ok next → index < next
  identifier : ∀ {index stop}, findMessageIdEnd field value index = .ok stop → index ≤ stop
  idLeftWord : ∀ {index next}, parseIdLeftWord (Utf8.encode value) index = some next → index < next
  obsIdLeftWord : ∀ {index next},
    parseObsIdLeftWord field value index = .ok (some next) → index < next
  obsDomainAtom : ∀ {index next},
    parseObsDomainAtom field value index = .ok (some next) → index < next

theorem forward (field : String) (value : Str) : Forward field value where
  comment := skipComment_ge
  cfws := skipMessageIdCfws_ge
  quotedWord := threadingQuotedWordFrom_gt
  word h := parseObsoleteThreadingWord_gt
    ((Indexed.parseObsoleteThreadingWord_eq field value _).symm.trans h)
  phrase h := parseObsoleteThreadingPhrase_gt
    ((Indexed.parseObsoleteThreadingPhrase_eq field value _).symm.trans h)
  identifier := findMessageIdEnd_ge
  idLeftWord := parseIdLeftWord_gt
  obsIdLeftWord := parseObsIdLeftWord_gt
  obsDomainAtom := parseObsDomainAtom_gt

/-- **No input makes the scanner panic.** With every index, slice and `expect` of the source in it,
`message_id_tokens` ends for every field and all values with identifiers in ASCII or with an error,
and never panics. It is the function of the model, and each round of its loops goes forward. -/
theorem message_id_tokens_never_panics (field : String) (values : List Str) :
    ((∃ ids, Indexed.messageIdTokens field values = .ok ids ∧ ∀ id ∈ ids, isAscii id = true) ∨
      ∃ error, Indexed.messageIdTokens field values = .error (.error error)) ∧
    Indexed.messageIdTokens field values = messageIdTokens field values ∧
    ∀ value, Forward field value := by
  obtain ⟨hmodel, hsafe⟩ := safe_messageIdTokens field values
  refine ⟨?_, hmodel, forward field⟩
  rw [hmodel]
  rcases hsafe.elim with ⟨fault, hfault, hne⟩ | hok
  · cases fault with
    | error e => exact .inr ⟨e, hfault⟩
    | panic => exact absurd rfl hne
  · exact .inl hok

end Notm.Mail
