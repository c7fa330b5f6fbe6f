import Notm.Lib.Percent
import Notm.Mail.Error

/-!
# `mailto` links

`parse_mailto_uri` reads the editable fields of a message from a link, and a link is anything a web
page or another program hands over. A link is split before it is decoded, so that an encoded
separator is data.

* `setField_reads` — what one field of the query does to the request, by its name.
* `run_reads`, `run_ok` — what the loop over the query does, and when it goes through.
* `parseMailtoUri_eq_ok`, `parseMailtoUri_of_decodesTo` — a link is accepted with what it decodes
  to.
* `EncodesParts.decodesTo` — a link that was written for a request decodes to its values.
* `mailto_carries_request` — the round trip, and that no link sets anything else.
-/

namespace Notm.Mail

open Rust

/-- What a mailto link asks for. -/
structure MailtoRequest where
  «to» : List Str
  cc : List Str
  bcc : List Str
  subject : Str
  body : Str
  deriving DecidableEq

/-- The locals of `parse_mailto_uri`. -/
structure MailtoState where
  request : MailtoRequest
  subjectSeen : Bool
  bodySeen : Bool

/-- The locals before the query, with the recipients of the path. -/
def MailtoState.start (list : List Str) : MailtoState where
  request := { «to» := list, cc := [], bcc := [], subject := [], body := [] }
  subjectSeen := false
  bodySeen := false

/-! ## The functions -/

/-- The decoded bytes have to be UTF-8. -/
def percentDecode (value field : Str) : Res Str :=
  match Percent.decode (Utf8.encode value) with
  | none => Res.bail (lit "mailto " ++ [.lit field] ++ lit " has invalid percent-encoding")
  | some decoded =>
    match Utf8.decode decoded with
    | none => Res.bail (lit "mailto " ++ [.lit field] ++ lit " is not valid UTF-8 after decoding")
    | some text => .ok text

/-- A header name has visible ASCII without the colon. -/
def validateHeaderName (name : Str) : Res Unit :=
  Res.ensure
    (name ≠ [] && (Utf8.encode name).all fun byte => isAsciiGraphic byte.toNat && byte.toNat ≠ 58)
    (lit "mailto header name is invalid")

/-- A control character could end the header. -/
def ensureHeaderValueIsSafe (value field : Str) : Res Unit :=
  Res.ensure (!value.any isControl)
    (lit "mailto " ++ [.lit field] ++ lit " contains a control character")

/-- The control characters that a body may have. -/
def isBodyBreak (c : Char) : Bool := c = '\r' ∨ c = '\n' ∨ c = '\t'

def ensureBodyValueIsSafe (value : Str) : Res Unit :=
  Res.ensure (!value.any fun c => isControl c && !isBodyBreak c)
    (lit "mailto body contains an unsupported control character")

/-- `replace("\r\n", "\n")`. -/
def joinLineBreaks : Str → Str
  | [] => []
  | c :: rest =>
    if c = '\r' ∧ rest.head? = some '\n' then joinLineBreaks rest else c :: joinLineBreaks rest

/-- CRLF and a single CR become LF. -/
def normalizeBodyLineBreaks (value : Str) : Str := replace (joinLineBreaks value) '\r' ['\n']

/-- A value of blanks adds nothing, and the blanks around a value are dropped. -/
def appendAddressValue (destination : List Str) (value field : Str) : Res (List Str) := do
  ensureHeaderValueIsSafe value field
  if trim value = [] then .ok destination else .ok (destination ++ [trim value])

/-- The `match` on the lower-case name. The first subject and the first body count, and a field
with any other name is passed over. -/
def setField (state : MailtoState) (name value : Str) : Res MailtoState :=
  let request := state.request
  if toAsciiLowercase name = "to".toList then do
    let list ← appendAddressValue request.«to» value "to".toList
    .ok { state with request := { request with «to» := list } }
  else if toAsciiLowercase name = "cc".toList then do
    let list ← appendAddressValue request.cc value "cc".toList
    .ok { state with request := { request with cc := list } }
  else if toAsciiLowercase name = "bcc".toList then do
    let list ← appendAddressValue request.bcc value "bcc".toList
    .ok { state with request := { request with bcc := list } }
  else if toAsciiLowercase name = "subject".toList ∧ state.subjectSeen = false then do
    ensureHeaderValueIsSafe value "subject".toList
    .ok { state with request := { request with subject := value }, subjectSeen := true }
  else if toAsciiLowercase name = "body".toList ∧ state.bodySeen = false then do
    ensureBodyValueIsSafe value
    .ok { state with
      request := { request with body := normalizeBodyLineBreaks value }, bodySeen := true }
  else .ok state

/-- The name and the value of one field of the query. -/
def decodeField (encodedField : Str) : Res (Str × Str) :=
  match splitOnce encodedField '=' with
  | none => Res.bail (lit "mailto header field must contain '='")
  | some (encodedName, encodedValue) => do
    let name ← percentDecode encodedName "header name".toList
    validateHeaderName name
    let value ← percentDecode encodedValue (name ++ " value".toList)
    .ok (name, value)

/-- One round of the loop over the query. -/
def parseField (state : MailtoState) (encodedField : Str) : Res MailtoState := do
  let (name, value) ← decodeField encodedField
  setField state name value

/-- The fields between the ampersands; empty ones are dropped. -/
def queryFields (query : Option Str) : List Str :=
  match query with
  | none => []
  | some query => (query.splitOn '&').filter (· ≠ [])

/-- The text before the fragment, as the recipients and the query. -/
def splitParts (withoutScheme : Str) : Str × Option Str :=
  let withoutFragment := ((splitOnce withoutScheme '#').map Prod.fst).getD withoutScheme
  match splitOnce withoutFragment '?' with
  | none => (withoutFragment, none)
  | some (recipient, query) => (recipient, some query)

/-- `parse_mailto_uri`. The first seven bytes are the scheme exactly where the first seven
characters are. -/
def parseMailtoUri (uri : Str) : Res MailtoRequest := do
  Res.ensure (eqIgnoreAsciiCase (uri.take 7) "mailto:".toList) (lit "URI scheme must be mailto")
  let withoutScheme := uri.drop 7
  Res.ensure (!"//".toList.isPrefixOf withoutScheme)
    (lit "mailto URI must not contain an authority")
  let parts := splitParts withoutScheme
  let recipient ← percentDecode parts.1 "recipient".toList
  let list ← appendAddressValue [] recipient "recipient".toList
  let state ← (queryFields parts.2).foldlM parseField (MailtoState.start list)
  .ok state.request

/-! ## What a query says -/

/-- The values of the fields with one name. -/
def valuesNamed (key : String) (fields : List (Str × Str)) : List Str :=
  (fields.filter fun field => toAsciiLowercase field.1 = key.toList).map Prod.snd

/-- Recipients are trimmed and blank ones are left out. -/
def keptRecipients (values : List Str) : List Str := (values.map trim).filter (· ≠ [])

/-- The request of the recipients before the query and the decoded fields of the query. -/
def requestOf (recipient : Str) (fields : List (Str × Str)) : MailtoRequest where
  «to» := keptRecipients (recipient :: valuesNamed "to" fields)
  cc := keptRecipients (valuesNamed "cc" fields)
  bcc := keptRecipients (valuesNamed "bcc" fields)
  subject := ((valuesNamed "subject" fields).head?).getD []
  body := normalizeBodyLineBreaks (((valuesNamed "body" fields).head?).getD [])

/-- Text for a header, without control characters. -/
def IsPlainText (value : Str) : Prop := ∀ c ∈ value, isControl c = false

instance (value : Str) : Decidable (IsPlainText value) :=
  List.decidableBAll (fun c => isControl c = false) value

/-- Text for a body, whose only control characters are line feeds and tabs. -/
def IsBodyText (value : Str) : Prop := ∀ c ∈ value, c = '\n' ∨ c = '\t' ∨ isControl c = false

/-- The texts of a request hold no controls: none at all in the recipients and the subject, and none
but tabs and line feeds in the body. -/
structure MailtoRequest.Safe (request : MailtoRequest) : Prop where
  «to» : ∀ recipient ∈ request.«to», IsPlainText recipient
  cc : ∀ recipient ∈ request.cc, IsPlainText recipient
  bcc : ∀ recipient ∈ request.bcc, IsPlainText recipient
  subject : IsPlainText request.subject
  body : IsBodyText request.body

/-- What a state says of the fields read so far. -/
structure MailtoState.Reads (state : MailtoState) (recipient : Str) (fields : List (Str × Str)) :
    Prop where
  request : state.request = requestOf recipient fields
  subjectSeen : state.subjectSeen = true ↔ valuesNamed "subject" fields ≠ []
  bodySeen : state.bodySeen = true ↔ valuesNamed "body" fields ≠ []
  safe : state.request.Safe

/-- Fields that the composer edits. -/
def composerKeys : List Str :=
  ["to".toList, "cc".toList, "bcc".toList, "subject".toList, "body".toList]

/-! ## Links -/

/-- The request as the parser returns it: recipients without the blanks around them, and none that
is blank. -/
def MailtoRequest.kept (request : MailtoRequest) : MailtoRequest :=
  { request with
    «to» := keptRecipients request.«to»
    cc := keptRecipients request.cc
    bcc := keptRecipients request.bcc }

/-- One way to write a field: its name in any case, and every character that does not separate
parts of a link as it is or percent-encoded. -/
def EncodesField (key : String) (value text : Str) : Prop :=
  ∃ name nameText valueText, toAsciiLowercase name = key.toList ∧
    Percent.Encoded (· ∉ "%#&=".toList) name nameText ∧
    Percent.Encoded (· ∉ "%#&".toList) value valueText ∧ text = nameText ++ '=' :: valueText

/-- The values of all fields of a name, in their order. -/
def valuesOf (key : String) (fields : List (String × Str)) : List Str :=
  (fields.filter fun field => field.1 = key).map Prod.snd

def queryText (texts : List Str) : Str :=
  if texts = [] then [] else '?' :: ['&'].intercalate texts

/-- One way to write a request: a recipient before the query or none, and a field for each other
value. -/
structure EncodesParts (request : MailtoRequest) (uri path : Str) (fields : List (String × Str))
    (scheme pathText fragment : Str) (texts : List Str) : Prop where
  written : uri = scheme ++ (pathText ++ queryText texts ++ fragment)
  schemeCase : eqIgnoreAsciiCase scheme "mailto:".toList = true
  encodedPath : Percent.Encoded (· ∉ "%#?".toList) path pathText
  authority : "//".toList.isPrefixOf pathText = false
  keys : ∀ field ∈ fields, field.1.toList ∈ composerKeys
  encodedFields : List.Forall₂ (fun field text => EncodesField field.1 field.2 text) fields texts
  fragmentMark : fragment = [] ∨ ∃ rest, fragment = '#' :: rest
  «to» : request.«to» = (if path = [] then [] else [path]) ++ valuesOf "to" fields
  cc : request.cc = valuesOf "cc" fields
  bcc : request.bcc = valuesOf "bcc" fields
  subject : valuesOf "subject" fields = [request.subject] ∨
    (valuesOf "subject" fields = [] ∧ request.subject = [])
  body : valuesOf "body" fields = [request.body] ∨
    (valuesOf "body" fields = [] ∧ request.body = [])

/-- The link encodes the request: in some way of cutting it into a path and fields, each part is an
encoding of the text that the request has for it. -/
def Encodes (request : MailtoRequest) (uri : Str) : Prop :=
  ∃ path fields scheme pathText fragment texts,
    EncodesParts request uri path fields scheme pathText fragment texts

/-! ## Values -/

variable {state state' : MailtoState} {recipient name value : Str} {fields : List (Str × Str)}

theorem isPlainText_iff : IsPlainText value ↔ (!value.any isControl) = true := by
  unfold IsPlainText
  simp

theorem isPlainText_trim (h : IsPlainText value) : IsPlainText (trim value) :=
  fun c hc => h c ((infix_of_trim value).subset hc)

theorem ensureHeaderValueIsSafe_eq_ok {field : Str} {u : Unit} :
    ensureHeaderValueIsSafe value field = .ok u ↔ IsPlainText value := by
  rw [isPlainText_iff]
  exact Res.ensure_eq_ok

theorem mem_joinLineBreaks {c : Char} (h : c ∈ joinLineBreaks value) : c ∈ value := by
  fun_induction joinLineBreaks value with
  | case1 => exact h
  | case2 d rest _ ih => exact List.mem_cons_of_mem d (ih h)
  | case3 d rest _ ih =>
    rcases List.mem_cons.1 h with heq | h
    · exact heq ▸ List.mem_cons_self
    · exact List.mem_cons_of_mem d (ih h)

theorem joinLineBreaks_of_not_mem (h : '\r' ∉ value) : joinLineBreaks value = value := by
  fun_induction joinLineBreaks value with
  | case1 => rfl
  | case2 d rest hbreak => exact absurd (hbreak.1 ▸ List.mem_cons_self) h
  | case3 d rest _ ih => rw [ih fun hmem => h (List.mem_cons_of_mem d hmem)]

theorem normalizeBodyLineBreaks_of_not_mem (h : '\r' ∉ value) :
    normalizeBodyLineBreaks value = value := by
  unfold normalizeBodyLineBreaks replace
  rw [joinLineBreaks_of_not_mem h]
  calc value.flatMap (fun d => if d = '\r' then ['\n'] else [d])
      = value.flatMap (fun d => [d]) := by
        refine List.flatMap_congr fun d hd => if_neg ?_
        exact fun heq => h (heq ▸ hd)
    _ = value := List.flatMap_singleton' value

/-- A normalised body has no carriage returns. -/
theorem isBodyText_normalize (h : ∀ c ∈ value, isBodyBreak c = true ∨ isControl c = false) :
    IsBodyText (normalizeBodyLineBreaks value) := by
  intro c hc
  obtain ⟨d, hd, hc⟩ := List.mem_flatMap.1 hc
  split at hc
  · exact Or.inl (List.mem_singleton.1 hc)
  · next hne =>
    rw [List.mem_singleton.1 hc]
    rcases h d (mem_joinLineBreaks hd) with hbreak | hplain
    · have hcases : d = '\r' ∨ d = '\n' ∨ d = '\t' := of_decide_eq_true hbreak
      rcases hcases with heq | heq | heq
      · exact absurd heq hne
      · exact Or.inl heq
      · exact Or.inr (Or.inl heq)
    · exact Or.inr (Or.inr hplain)

theorem ensureBodyValueIsSafe_eq_ok {u : Unit} :
    ensureBodyValueIsSafe value = .ok u ↔
      ∀ c ∈ value, isBodyBreak c = true ∨ isControl c = false := by
  unfold ensureBodyValueIsSafe
  rw [Res.ensure_eq_ok, Bool.not_eq_true', List.any_eq_false]
  refine forall₂_congr fun c _ => ?_
  cases isControl c <;> cases isBodyBreak c <;> decide

/-! ## One field -/

theorem valuesNamed_concat (key : String) :
    valuesNamed key (fields ++ [(name, value)]) =
      valuesNamed key fields ++ if toAsciiLowercase name = key.toList then [value] else [] := by
  unfold valuesNamed
  rw [List.filter_append, List.map_append]
  congr 1
  by_cases hkey : toAsciiLowercase name = key.toList
  · simp [hkey]
  · simp [hkey]

theorem valuesNamed_concat_self {key : String} (h : toAsciiLowercase name = key.toList) :
    valuesNamed key (fields ++ [(name, value)]) = valuesNamed key fields ++ [value] := by
  rw [valuesNamed_concat, if_pos h]

theorem valuesNamed_concat_of_ne {key : String} (h : toAsciiLowercase name ≠ key.toList) :
    valuesNamed key (fields ++ [(name, value)]) = valuesNamed key fields := by
  rw [valuesNamed_concat, if_neg h, List.append_nil]

theorem keptRecipients_append (first second : List Str) :
    keptRecipients (first ++ second) = keptRecipients first ++ keptRecipients second := by
  unfold keptRecipients
  rw [List.map_append, List.filter_append]

theorem appendAddressValue_eq_ok {destination list : List Str} {field : Str} :
    appendAddressValue destination value field = .ok list ↔
      IsPlainText value ∧ list = destination ++ keptRecipients [value] := by
  have hkept : keptRecipients [value] = if trim value = [] then [] else [trim value] := by
    by_cases hblank : trim value = []
    · simp [keptRecipients, hblank]
    · simp [keptRecipients, hblank]
  unfold appendAddressValue
  have hlist : (if trim value = [] then .ok destination else .ok (destination ++ [trim value]) :
      Res (List Str)) = .ok (destination ++ keptRecipients [value]) := by
    rw [hkept]
    split
    · rw [List.append_nil]
    · rfl
  rw [bind_eq_ok, hlist]
  constructor
  · intro ⟨_, hsafe, heq⟩
    exact ⟨ensureHeaderValueIsSafe_eq_ok.1 hsafe, (Except.ok.inj heq).symm⟩
  · intro ⟨hsafe, heq⟩
    exact ⟨(), ensureHeaderValueIsSafe_eq_ok.2 hsafe, heq ▸ rfl⟩

theorem isPlainText_keptRecipients (h : IsPlainText value) :
    ∀ recipient ∈ keptRecipients [value], IsPlainText recipient := by
  intro recipient hmem
  obtain ⟨original, horiginal, rfl⟩ := List.mem_map.1 (List.mem_of_mem_filter hmem)
  rw [List.mem_singleton.1 horiginal]
  exact isPlainText_trim h

theorem requestOf_append (more : List (Str × Str)) :
    requestOf recipient (fields ++ more) =
      { «to» := keptRecipients (recipient :: valuesNamed "to" fields) ++
          keptRecipients (valuesNamed "to" more)
        cc := keptRecipients (valuesNamed "cc" fields) ++ keptRecipients (valuesNamed "cc" more)
        bcc := keptRecipients (valuesNamed "bcc" fields) ++ keptRecipients (valuesNamed "bcc" more)
        subject := ((valuesNamed "subject" fields ++ valuesNamed "subject" more).head?).getD []
        body := normalizeBodyLineBreaks
          (((valuesNamed "body" fields ++ valuesNamed "body" more).head?).getD []) } := by
  have hvalues : ∀ key, valuesNamed key (fields ++ more) =
      valuesNamed key fields ++ valuesNamed key more := by
    intro key
    unfold valuesNamed
    rw [List.filter_append, List.map_append]
  unfold requestOf
  rw [hvalues, hvalues, hvalues, hvalues, hvalues, ← List.cons_append, keptRecipients_append,
    keptRecipients_append, keptRecipients_append]

theorem MailtoState.Reads.of_recipients (h : state.Reads recipient fields)
    (hsubject : toAsciiLowercase name ≠ "subject".toList)
    (hbody : toAsciiLowercase name ≠ "body".toList) {request : MailtoRequest}
    (hrequest : requestOf recipient (fields ++ [(name, value)]) = request)
    (hsafe : request.Safe) :
    { state with request }.Reads recipient (fields ++ [(name, value)]) where
  request := hrequest.symm
  subjectSeen := by
    rw [valuesNamed_concat_of_ne hsubject]
    exact h.subjectSeen
  bodySeen := by
    rw [valuesNamed_concat_of_ne hbody]
    exact h.bodySeen
  safe := hsafe

theorem forall_mem_keptRecipients_append {list : List Str} (h : ∀ r ∈ list, IsPlainText r)
    (hvalue : IsPlainText value) : ∀ r ∈ list ++ keptRecipients [value], IsPlainText r :=
  List.forall_mem_append.2 ⟨h, isPlainText_keptRecipients hvalue⟩

variable (value) in
/-- A later value of a field does not replace the first. -/
theorem later_values {key : String}
    (h : toAsciiLowercase name = key.toList → valuesNamed key fields ≠ []) :
    (valuesNamed key fields ++ valuesNamed key [(name, value)]).head? =
        (valuesNamed key fields).head? ∧
      (valuesNamed key (fields ++ [(name, value)]) ≠ [] ↔ valuesNamed key fields ≠ []) := by
  by_cases hkey : toAsciiLowercase name = key.toList
  · rw [valuesNamed_concat_self hkey]
    exact ⟨List.head?_append_of_ne_nil _ (h hkey),
      iff_of_true (List.append_ne_nil_of_left_ne_nil (h hkey) _) (h hkey)⟩
  · have hnone : valuesNamed key [(name, value)] = [] :=
      show valuesNamed key ([] ++ [(name, value)]) = valuesNamed key [] from
        valuesNamed_concat_of_ne hkey
    rw [valuesNamed_concat_of_ne hkey, hnone, List.append_nil]
    exact ⟨rfl, Iff.rfl⟩

/-- What one field adds, by its name. The three recipient fields append what is not blank; the first
subject and the first body count; anything else leaves the request as it is. -/
theorem setField_reads (h : state.Reads recipient fields)
    (hset : setField state name value = .ok state') :
    state'.Reads recipient (fields ++ [(name, value)]) := by
  have hsafe := h.safe
  have hvalues : ∀ key, valuesNamed key [(name, value)] =
      if toAsciiLowercase name = key.toList then [value] else [] := by
    intro key
    have hconcat : valuesNamed key ([] ++ [(name, value)]) = _ := valuesNamed_concat key
    exact hconcat.trans (List.nil_append _)
  unfold setField at hset
  split at hset
  · next hkey =>
    obtain ⟨list, hlist, hset⟩ := bind_eq_ok.1 hset
    obtain rfl := Except.ok.inj hset
    obtain ⟨hplain, rfl⟩ := appendAddressValue_eq_ok.1 hlist
    -- The recipients are read as the values of all fields of this name so far.
    refine h.of_recipients (by rw [hkey]; decide) (by rw [hkey]; decide) ?_
      { hsafe with «to» := forall_mem_keptRecipients_append hsafe.«to» hplain }
    rw [requestOf_append, h.request]
    simp only [hvalues, hkey]
    simp [requestOf, keptRecipients]
  split at hset
  · next hkey =>
    obtain ⟨list, hlist, hset⟩ := bind_eq_ok.1 hset
    obtain rfl := Except.ok.inj hset
    obtain ⟨hplain, rfl⟩ := appendAddressValue_eq_ok.1 hlist
    refine h.of_recipients (by rw [hkey]; decide) (by rw [hkey]; decide) ?_
      { hsafe with cc := forall_mem_keptRecipients_append hsafe.cc hplain }
    rw [requestOf_append, h.request]
    simp only [hvalues, hkey]
    simp [requestOf, keptRecipients]
  split at hset
  · next hkey =>
    obtain ⟨list, hlist, hset⟩ := bind_eq_ok.1 hset
    obtain rfl := Except.ok.inj hset
    obtain ⟨hplain, rfl⟩ := appendAddressValue_eq_ok.1 hlist
    refine h.of_recipients (by rw [hkey]; decide) (by rw [hkey]; decide) ?_
      { hsafe with bcc := forall_mem_keptRecipients_append hsafe.bcc hplain }
    rw [requestOf_append, h.request]
    simp only [hvalues, hkey]
    simp [requestOf, keptRecipients]
  split at hset
  · next hto hcc hbcc hkey =>
    obtain ⟨_, hplain, hset⟩ := bind_eq_ok.1 hset
    obtain rfl := Except.ok.inj hset
    -- No subject has been seen, so this one is the first.
    have hnone : valuesNamed "subject" fields = [] := by
      by_contra hne
      exact absurd (h.subjectSeen.2 hne) (by rw [hkey.2]; decide)
    have hbody : toAsciiLowercase name ≠ "body".toList := by
      rw [hkey.1]
      decide
    refine ⟨?_, ?_, ?_, { hsafe with subject := ensureHeaderValueIsSafe_eq_ok.1 hplain }⟩
    · rw [requestOf_append, hnone]
      show { state.request with subject := value } = _
      rw [h.request]
      simp only [hvalues, hkey.1]
      simp [requestOf, keptRecipients]
    · rw [valuesNamed_concat_self hkey.1]
      simp
    · rw [valuesNamed_concat_of_ne hbody]
      exact h.bodySeen
  split at hset
  · next hto hcc hbcc hsubject hkey =>
    obtain ⟨_, hbody, hset⟩ := bind_eq_ok.1 hset
    obtain rfl := Except.ok.inj hset
    have hnone : valuesNamed "body" fields = [] := by
      by_contra hne
      exact absurd (h.bodySeen.2 hne) (by rw [hkey.2]; decide)
    have hne : toAsciiLowercase name ≠ "subject".toList := by
      rw [hkey.1]
      decide
    refine ⟨?_, ?_, ?_,
      { hsafe with body := isBodyText_normalize (ensureBodyValueIsSafe_eq_ok.1 hbody) }⟩
    · rw [requestOf_append, hnone]
      show { state.request with body := normalizeBodyLineBreaks value } = _
      rw [h.request]
      simp only [hvalues, hkey.1]
      simp [requestOf, keptRecipients]
    · rw [valuesNamed_concat_of_ne hne]
      exact h.subjectSeen
    · rw [valuesNamed_concat_self hkey.1]
      simp
  · next hto hcc hbcc hsubject hbody =>
    obtain rfl := Except.ok.inj hset
    have hsubjectSeen : toAsciiLowercase name = "subject".toList →
        valuesNamed "subject" fields ≠ [] := by
      intro hkey
      refine h.subjectSeen.1 ?_
      rw [← Bool.not_eq_false]
      exact fun hseen => hsubject ⟨hkey, hseen⟩
    have hbodySeen : toAsciiLowercase name = "body".toList → valuesNamed "body" fields ≠ [] := by
      intro hkey
      refine h.bodySeen.1 ?_
      rw [← Bool.not_eq_false]
      exact fun hseen => hbody ⟨hkey, hseen⟩
    -- A second subject or body is passed over, because the first one of its name is read.
    obtain ⟨hfirstSubject, hanySubject⟩ := later_values value hsubjectSeen
    obtain ⟨hfirstBody, hanyBody⟩ := later_values value hbodySeen
    refine ⟨?_, ?_, ?_, hsafe⟩
    · rw [requestOf_append, hfirstSubject, hfirstBody, h.request]
      simp only [hvalues, if_neg hto, if_neg hcc, if_neg hbcc]
      simp [requestOf, keptRecipients]
    · rw [hanySubject]
      exact h.subjectSeen
    · rw [hanyBody]
      exact h.bodySeen

/-- What a field may be given as: nothing where its name is passed over. -/
def IsSafeField (name value : Str) : Prop :=
  toAsciiLowercase name ∈ composerKeys →
    if toAsciiLowercase name = "body".toList then
      ∀ c ∈ value, isBodyBreak c = true ∨ isControl c = false
    else IsPlainText value

theorem IsSafeField.isPlainText {key : String} (h : IsSafeField name value)
    (hkey : toAsciiLowercase name = key.toList) (hmem : key.toList ∈ composerKeys)
    (hne : key.toList ≠ "body".toList) : IsPlainText value := by
  have hsafe := h (hkey ▸ hmem)
  rwa [if_neg (hkey ▸ hne)] at hsafe

variable (state) in
theorem setField_ok (h : IsSafeField name value) :
    ∃ state', setField state name value = .ok state' := by
  unfold setField
  split_ifs with hto hcc hbcc hsubject hbody
  · have hplain := h.isPlainText hto (by decide) (by decide)
    exact ⟨_, bind_eq_ok.2 ⟨_, appendAddressValue_eq_ok.2 ⟨hplain, rfl⟩, rfl⟩⟩
  · have hplain := h.isPlainText hcc (by decide) (by decide)
    exact ⟨_, bind_eq_ok.2 ⟨_, appendAddressValue_eq_ok.2 ⟨hplain, rfl⟩, rfl⟩⟩
  · have hplain := h.isPlainText hbcc (by decide) (by decide)
    exact ⟨_, bind_eq_ok.2 ⟨_, appendAddressValue_eq_ok.2 ⟨hplain, rfl⟩, rfl⟩⟩
  · have hplain := h.isPlainText hsubject.1 (by decide) (by decide)
    exact ⟨_, bind_eq_ok.2 ⟨(), ensureHeaderValueIsSafe_eq_ok.2 hplain, rfl⟩⟩
  · have hsafe := h (by rw [hbody.1]; decide)
    rw [if_pos hbody.1] at hsafe
    exact ⟨_, bind_eq_ok.2 ⟨(), ensureBodyValueIsSafe_eq_ok.2 hsafe, rfl⟩⟩
  · exact ⟨state, rfl⟩

/-! ## The query -/

theorem parseField_eq_ok {text : Str} :
    parseField state text = .ok state' ↔
      ∃ name value, decodeField text = .ok (name, value) ∧ setField state name value =
        .ok state' := by
  unfold parseField
  rw [bind_eq_ok]
  exact Prod.exists

theorem run_reads {texts : List Str} (h : state.Reads recipient fields)
    (hrun : texts.foldlM parseField state = .ok state') :
    ∃ more, List.Forall₂ (fun text field => decodeField text = .ok field) texts more ∧
      state'.Reads recipient (fields ++ more) := by
  induction texts generalizing state fields with
  | nil =>
    obtain rfl := Except.ok.inj hrun
    exact ⟨[], List.Forall₂.nil, by rwa [List.append_nil]⟩
  | cons text texts ih =>
    rw [List.foldlM_cons] at hrun
    obtain ⟨middle, hstep, hrun⟩ := bind_eq_ok.1 hrun
    obtain ⟨name, value, hdecode, hset⟩ := parseField_eq_ok.1 hstep
    obtain ⟨more, hmore, hreads⟩ := ih (setField_reads h hset) hrun
    refine ⟨(name, value) :: more, List.Forall₂.cons hdecode hmore, ?_⟩
    rwa [List.append_assoc] at hreads

variable (state) in
theorem run_ok {texts : List Str} {more : List (Str × Str)}
    (hmore : List.Forall₂ (fun text field => decodeField text = .ok field) texts more)
    (hsafe : ∀ field ∈ more, IsSafeField field.1 field.2) :
    ∃ state', texts.foldlM parseField state = .ok state' := by
  induction hmore generalizing state with
  | nil => exact ⟨state, rfl⟩
  | @cons text field texts more hdecode _ ih =>
    obtain ⟨middle, hset⟩ := setField_ok state (hsafe field List.mem_cons_self)
    obtain ⟨last, hlast⟩ := ih middle fun field hfield =>
      hsafe field (List.mem_cons_of_mem _ hfield)
    refine ⟨last, ?_⟩
    rw [List.foldlM_cons]
    exact bind_eq_ok.2 ⟨middle, parseField_eq_ok.2 ⟨field.1, field.2, hdecode, hset⟩, hlast⟩

theorem decodeField_unique :
    Relator.RightUnique fun (text : Str) (field : Str × Str) => decodeField text = .ok field := by
  intro text first second hfirst hsecond
  exact Except.ok.inj (hfirst.symm.trans hsecond)

/-! ## The link -/

/-- The texts that stand in a link: the recipients before the query and the fields of the query. -/
structure DecodesTo (uri recipient : Str) (fields : List (Str × Str)) : Prop where
  scheme : eqIgnoreAsciiCase (uri.take 7) "mailto:".toList = true
  authority : "//".toList.isPrefixOf (uri.drop 7) = false
  recipient : percentDecode (splitParts (uri.drop 7)).1 "recipient".toList = .ok recipient
  fields : List.Forall₂ (fun text field => decodeField text = .ok field)
    (queryFields (splitParts (uri.drop 7)).2) fields

variable {uri : Str} {request : MailtoRequest}

theorem isBodyText_nil : IsBodyText [] := fun _ hc => absurd hc List.not_mem_nil

/-- The state before the query. -/
theorem reads_recipient (h : IsPlainText recipient) :
    (MailtoState.start (keptRecipients [recipient])).Reads recipient [] where
  request := rfl
  subjectSeen := iff_of_false Bool.false_ne_true (fun h => h rfl)
  bodySeen := iff_of_false Bool.false_ne_true (fun h => h rfl)
  safe := {
    «to» := isPlainText_keptRecipients h
    cc := fun _ hmem => absurd hmem List.not_mem_nil
    bcc := fun _ hmem => absurd hmem List.not_mem_nil
    subject := fun _ hmem => absurd hmem List.not_mem_nil
    body := isBodyText_nil }

/-- A link is accepted with what it decodes to. -/
theorem parseMailtoUri_eq_ok (h : parseMailtoUri uri = .ok request) :
    ∃ recipient fields, DecodesTo uri recipient fields ∧ request = requestOf recipient fields ∧
      request.Safe := by
  obtain ⟨_, hscheme, h⟩ := bind_eq_ok.1 h
  obtain ⟨_, hauthority, h⟩ := bind_eq_ok.1 h
  obtain ⟨recipient, hrecipient, h⟩ := bind_eq_ok.1 h
  obtain ⟨list, hlist, h⟩ := bind_eq_ok.1 h
  obtain ⟨state, hrun, h⟩ := bind_eq_ok.1 h
  obtain rfl := Except.ok.inj h
  obtain ⟨hplain, rfl⟩ := appendAddressValue_eq_ok.1 hlist
  obtain ⟨fields, hfields, hreads⟩ := run_reads (reads_recipient hplain) hrun
  rw [Res.ensure_eq_ok] at hscheme hauthority
  exact ⟨recipient, fields, ⟨hscheme, by simpa using hauthority, hrecipient, hfields⟩,
    hreads.request, hreads.safe⟩

theorem parseMailtoUri_of_decodesTo (h : DecodesTo uri recipient fields)
    (hplain : IsPlainText recipient) (hsafe : ∀ field ∈ fields, IsSafeField field.1 field.2) :
    parseMailtoUri uri = .ok (requestOf recipient fields) := by
  obtain ⟨state, hrun⟩ :=
    run_ok (MailtoState.start (keptRecipients [recipient])) h.fields hsafe
  obtain ⟨more, hmore, hreads⟩ := run_reads (reads_recipient hplain) hrun
  obtain rfl : more = fields := List.right_unique_forall₂' decodeField_unique hmore h.fields
  unfold parseMailtoUri
  refine bind_eq_ok.2 ⟨(), Res.ensure_eq_ok.2 h.scheme, ?_⟩
  refine bind_eq_ok.2 ⟨(), Res.ensure_eq_ok.2 (by rw [h.authority]; rfl), ?_⟩
  refine bind_eq_ok.2 ⟨recipient, h.recipient, ?_⟩
  refine bind_eq_ok.2 ⟨_, appendAddressValue_eq_ok.2 ⟨hplain, rfl⟩, ?_⟩
  refine bind_eq_ok.2 ⟨state, hrun, ?_⟩
  rw [hreads.request, List.nil_append]

/-! ## Writing a link -/

theorem percentDecode_encoded {raw : Char → Prop} {text field : Str} (hraw : ∀ c, raw c → c ≠ '%')
    (h : Percent.Encoded raw value text) : percentDecode text field = .ok value := by
  unfold percentDecode
  simp only [Percent.decode_encoded hraw h, Utf8.decode_encode]

/-- An encoded text has no separator that must be encoded. -/
theorem not_mem_encoded {escaped : Str} {text : Str} {c : Char}
    (h : Percent.Encoded (· ∉ escaped) value text) (hc : c ∈ escaped) (hpercent : c ≠ '%')
    (halnum : isAsciiAlphanumeric c.toNat = false) : c ∉ text := by
  intro hmem
  rcases Percent.mem_encoded h hmem with hraw | heq | htrue
  · exact hraw hc
  · exact hpercent heq
  · exact Bool.false_ne_true (halnum.symm.trans htrue)

theorem validateHeaderName_of_key (h : toAsciiLowercase name ∈ composerKeys) :
    validateHeaderName name = .ok () := by
  have hletters : ∀ key ∈ composerKeys, key ≠ [] ∧ ∀ c ∈ key, 0x61 ≤ c.toNat ∧ c.toNat ≤ 0x7A := by
    simp [composerKeys]
  obtain ⟨hne, hall⟩ := hletters _ h
  refine Res.ensure_eq_ok.2 ?_
  have hname : name ≠ [] := by
    intro hnil
    exact hne (by rw [hnil]; rfl)
  have hbytes : (Utf8.encode name).all (fun byte => isAsciiGraphic byte.toNat && byte.toNat ≠ 58) =
      name.all fun c => isAsciiGraphic c.toNat && c.toNat ≠ 58 := by
    refine Utf8.all_encode (p := fun n => isAsciiGraphic n && n ≠ 58) (fun n hn => ?_) name
    rw [isAsciiGraphic_of_ge hn, Bool.false_and]
  rw [hbytes, decide_eq_true hname, Bool.true_and, List.all_eq_true]
  intro c hc
  have hlower := hall (asciiLower c) (List.mem_map_of_mem hc)
  have hletter : 0x41 ≤ c.toNat ∧ c.toNat ≤ 0x7A ∧ c.toNat ≠ 58 := by
    by_cases hupper : 0x41 ≤ c.toNat ∧ c.toNat ≤ 0x5A
    · omega
    · rw [asciiLower_of_not_upper hupper] at hlower
      omega
  unfold isAsciiGraphic
  simp only [Bool.and_eq_true, decide_eq_true_eq]
  omega

theorem decodeField_of_encodes {key : String} {text : Str} (hkey : key.toList ∈ composerKeys)
    (h : EncodesField key value text) :
    ∃ name, toAsciiLowercase name = key.toList ∧ decodeField text = .ok (name, value) := by
  obtain ⟨name, nameText, valueText, hname, hnameText, hvalueText, rfl⟩ := h
  refine ⟨name, hname, ?_⟩
  have hsplit : splitOnce (nameText ++ '=' :: valueText) '=' = some (nameText, valueText) :=
    splitOnce_append (not_mem_encoded hnameText (by decide) (by decide) (by decide))
  unfold decodeField
  rw [hsplit]
  refine bind_eq_ok.2
    ⟨name, percentDecode_encoded (fun c hc heq => hc (heq ▸ by decide)) hnameText, ?_⟩
  refine bind_eq_ok.2 ⟨(), validateHeaderName_of_key (hname ▸ hkey), ?_⟩
  exact bind_eq_ok.2
    ⟨value, percentDecode_encoded (fun c hc heq => hc (heq ▸ by decide)) hvalueText, rfl⟩

theorem fields_of_encodes {written : List (String × Str)} {texts : List Str}
    (hkeys : ∀ field ∈ written, field.1.toList ∈ composerKeys)
    (h : List.Forall₂ (fun field text => EncodesField field.1 field.2 text) written texts) :
    ∃ fields, List.Forall₂ (fun text field => decodeField text = .ok field) texts fields ∧
      List.Forall₂ (fun (read : Str × Str) (field : String × Str) =>
        toAsciiLowercase read.1 = field.1.toList ∧ read.2 = field.2) fields written := by
  induction h with
  | nil => exact ⟨[], List.Forall₂.nil, List.Forall₂.nil⟩
  | @cons field text written texts htext _ ih =>
    obtain ⟨fields, hdecode, hsame⟩ :=
      ih fun field hmem => hkeys field (List.mem_cons_of_mem _ hmem)
    obtain ⟨name, hname, hfield⟩ := decodeField_of_encodes (hkeys field List.mem_cons_self) htext
    exact ⟨(name, field.2) :: fields, List.Forall₂.cons hfield hdecode,
      List.Forall₂.cons ⟨hname, rfl⟩ hsame⟩

theorem valuesNamed_eq_valuesOf {written : List (String × Str)} {fields : List (Str × Str)}
    (h : List.Forall₂ (fun (read : Str × Str) (field : String × Str) =>
      toAsciiLowercase read.1 = field.1.toList ∧ read.2 = field.2) fields written) (key : String) :
    valuesNamed key fields = valuesOf key written := by
  induction h with
  | nil => rfl
  | @cons read field fields written hsame _ ih =>
    have hiff : (toAsciiLowercase read.1 = key.toList) = (field.1 = key) := by
      rw [hsame.1]
      exact propext String.toList_inj
    unfold valuesNamed valuesOf at ih ⊢
    rw [List.filter_cons, List.filter_cons]
    simp only [hiff]
    by_cases hkey : field.1 = key
    · simp only [hkey, decide_true, if_true, List.map_cons, hsame.2, ih]
    · simp only [hkey, decide_false, Bool.false_eq_true, if_false, ih]

/-- The separators of a link do not occur in what it encodes. -/
theorem not_mem_queryText {written : List (String × Str)} {texts : List Str} {c : Char}
    (h : List.Forall₂ (fun field text => EncodesField field.1 field.2 text) written texts)
    (hc : c ∈ "#&".toList) : ∀ text ∈ texts, c ∉ text := by
  have hescaped : c ∈ "%#&=".toList ∧ c ∈ "%#&".toList ∧ c ≠ '%' ∧ c ≠ '=' ∧
      isAsciiAlphanumeric c.toNat = false := by
    have hcases : c = '#' ∨ c = '&' := by simpa using hc
    rcases hcases with heq | heq
    · rw [heq]
      decide
    · rw [heq]
      decide
  obtain ⟨hname, hvalue, hpercent, hequals, halnum⟩ := hescaped
  intro text htext hmem
  obtain ⟨i, hi, rfl⟩ := List.mem_iff_getElem.1 htext
  obtain ⟨name, nameText, valueText, _, hnameText, hvalueText, heq⟩ :=
    h.get (by rw [h.length_eq]; exact hi) hi
  have hmem' : c ∈ nameText ++ '=' :: valueText := heq ▸ hmem
  rcases List.mem_append.1 hmem' with hin | hin
  · exact not_mem_encoded hnameText hname hpercent halnum hin
  rcases List.mem_cons.1 hin with heq | hin
  · exact hequals heq
  · exact not_mem_encoded hvalueText hvalue hpercent halnum hin

theorem queryFields_of_texts {texts : List Str} (hsep : ∀ text ∈ texts, '&' ∉ text)
    (hne : ∀ text ∈ texts, text ≠ []) (htexts : texts ≠ []) :
    queryFields (some (['&'].intercalate texts)) = texts := by
  show (((['&'].intercalate texts).splitOn '&').filter (· ≠ [])) = texts
  rw [List.splitOn_intercalate _ hsep htexts, List.filter_eq_self]
  intro text htext
  exact decide_eq_true (hne text htext)

theorem splitOnce_fragment {text fragment : Str} (htext : '#' ∉ text)
    (hfragment : fragment = [] ∨ ∃ rest, fragment = '#' :: rest) :
    ((splitOnce (text ++ fragment) '#').map Prod.fst).getD (text ++ fragment) = text := by
  rcases hfragment with rfl | ⟨rest, rfl⟩
  · rw [List.append_nil, splitOnce_of_not_mem htext]
    rfl
  · rw [splitOnce_append htext]
    rfl

theorem not_mem_intercalate {texts : List Str} {c : Char} (hc : c ≠ '&')
    (h : ∀ text ∈ texts, c ∉ text) : c ∉ ['&'].intercalate texts := by
  induction texts with
  | nil => exact List.not_mem_nil
  | cons text texts ih =>
    have hrest := ih fun text hmem => h text (List.mem_cons_of_mem _ hmem)
    cases texts with
    | nil =>
      rw [List.intercalate_singleton]
      exact h text List.mem_cons_self
    | cons next texts =>
      rw [List.intercalate_cons_cons]
      simp only [List.mem_append, List.mem_singleton]
      exact not_or.2 ⟨not_or.2 ⟨h text List.mem_cons_self, hc⟩, hrest⟩

theorem splitParts_written {pathText fragment : Str} {texts : List Str}
    (hpath : '#' ∉ pathText ∧ '?' ∉ pathText) (htexts : ∀ text ∈ texts, '#' ∉ text)
    (hfragment : fragment = [] ∨ ∃ rest, fragment = '#' :: rest) :
    splitParts (pathText ++ queryText texts ++ fragment) =
      (pathText, if texts = [] then none else some (['&'].intercalate texts)) := by
  have hquery : '#' ∉ queryText texts := by
    unfold queryText
    split
    · exact List.not_mem_nil
    · exact List.not_mem_cons_of_ne_of_not_mem (by decide)
        (not_mem_intercalate (by decide) htexts)
  have hmark : '#' ∉ pathText ++ queryText texts := by
    rw [List.mem_append]
    exact not_or.2 ⟨hpath.1, hquery⟩
  unfold splitParts
  rw [splitOnce_fragment hmark hfragment]
  unfold queryText
  split
  · simp only [List.append_nil, splitOnce_of_not_mem hpath.2]
  · simp only [splitOnce_append hpath.2]

/-! ## Requests -/

variable {path scheme pathText fragment : Str} {written : List (String × Str)} {texts : List Str}

theorem EncodesParts.drop_scheme
    (h : EncodesParts request uri path written scheme pathText fragment texts) :
    uri.take 7 = scheme ∧ uri.drop 7 = pathText ++ queryText texts ++ fragment := by
  have hlength : scheme.length = 7 := by
    have hcase : toAsciiLowercase scheme = toAsciiLowercase "mailto:".toList :=
      eq_of_beq h.schemeCase
    have hmap := congrArg List.length hcase
    unfold toAsciiLowercase at hmap
    rwa [List.length_map, List.length_map] at hmap
  rw [h.written, ← hlength]
  exact ⟨List.take_left, List.drop_left⟩

/-- An authority can only stand in the path. -/
theorem isPrefixOf_authority {rest : Str} (h : rest.head? ≠ some '/') :
    "//".toList.isPrefixOf (pathText ++ rest) = "//".toList.isPrefixOf pathText := by
  show ['/', '/'].isPrefixOf (pathText ++ rest) = ['/', '/'].isPrefixOf pathText
  cases rest with
  | nil => rw [List.append_nil]
  | cons c rest =>
    have hne : ('/' == c) = false := beq_eq_false_iff_ne.2 fun heq => h (heq ▸ rfl)
    match pathText with
    | [] => simp [List.isPrefixOf, hne]
    | [d] => simp [List.isPrefixOf, hne]
    | d :: e :: _ => rfl

theorem EncodesParts.no_authority
    (h : EncodesParts request uri path written scheme pathText fragment texts) :
    "//".toList.isPrefixOf (uri.drop 7) = false := by
  rw [h.drop_scheme.2, List.append_assoc, isPrefixOf_authority, h.authority]
  unfold queryText
  split
  · obtain hnone | ⟨rest, hrest⟩ := h.fragmentMark
    · rw [hnone]
      exact nofun
    · rw [hrest]
      show some '#' ≠ some '/'
      decide
  · show some '?' ≠ some '/'
    decide

theorem requestOf_eq_kept
    (h : EncodesParts request uri path written scheme pathText fragment texts)
    (hbody : IsBodyText request.body)
    (hsame : List.Forall₂ (fun (read : Str × Str) (field : String × Str) =>
      toAsciiLowercase read.1 = field.1.toList ∧ read.2 = field.2) fields written) :
    requestOf path fields = request.kept := by
  have hvalues := valuesNamed_eq_valuesOf hsame
  have hfirst : ∀ {values : List Str} {value : Str},
      (values = [value] ∨ (values = [] ∧ value = [])) → values.head?.getD [] = value := by
    rintro values value (rfl | ⟨rfl, rfl⟩)
    · rfl
    · rfl
  have hcr : '\r' ∉ request.body := by
    intro hmem
    exact absurd (hbody '\r' hmem) (by decide)
  unfold requestOf MailtoRequest.kept
  rw [hvalues, hvalues, hvalues, hvalues, hvalues, hfirst h.subject, hfirst h.body,
    normalizeBodyLineBreaks_of_not_mem hcr, h.«to», h.cc, h.bcc]
  split
  · next hempty =>
    rw [hempty]
    rfl
  · rfl

theorem EncodesParts.decodesTo
    (h : EncodesParts request uri path written scheme pathText fragment texts) :
    ∃ fields, DecodesTo uri path fields ∧
      List.Forall₂ (fun (read : Str × Str) (field : String × Str) =>
        toAsciiLowercase read.1 = field.1.toList ∧ read.2 = field.2) fields written := by
  obtain ⟨fields, hdecode, hsame⟩ := fields_of_encodes h.keys h.encodedFields
  have hpath : '#' ∉ pathText ∧ '?' ∉ pathText :=
    ⟨not_mem_encoded h.encodedPath (by decide) (by decide) (by decide),
      not_mem_encoded h.encodedPath (by decide) (by decide) (by decide)⟩
  -- Neither the fragment nor the query can begin inside of what is encoded.
  have hparts := splitParts_written hpath (not_mem_queryText h.encodedFields (by decide))
    h.fragmentMark
  rw [← h.drop_scheme.2] at hparts
  refine ⟨fields, ⟨?_, h.no_authority, ?_, ?_⟩, hsame⟩
  · rw [h.drop_scheme.1]
    exact h.schemeCase
  · rw [hparts]
    exact percentDecode_encoded (fun c hc heq => hc (heq ▸ by decide)) h.encodedPath
  · rw [hparts]
    by_cases hnone : texts = []
    · rw [if_pos hnone]
      rw [hnone] at hdecode
      exact hdecode
    · rw [if_neg hnone,
        queryFields_of_texts (not_mem_queryText h.encodedFields (by decide)) ?_ hnone]
      · exact hdecode
      -- Every field has its separator, so none is empty.
      · intro text htext hempty
        obtain ⟨i, hi, heq⟩ := List.mem_iff_getElem.1 htext
        obtain ⟨name, nameText, valueText, _, _, _, hwritten⟩ :=
          h.encodedFields.get (by rw [h.encodedFields.length_eq]; exact hi) hi
        have hnil : nameText ++ '=' :: valueText = [] := hwritten.symm.trans (heq.trans hempty)
        exact List.cons_ne_nil _ _ (List.append_eq_nil_iff.1 hnil).2

/-- The values of a safe request are safe in their fields. -/
theorem EncodesParts.safe_fields
    (h : EncodesParts request uri path written scheme pathText fragment texts)
    (hsafe : request.Safe)
    (hsame : List.Forall₂ (fun (read : Str × Str) (field : String × Str) =>
      toAsciiLowercase read.1 = field.1.toList ∧ read.2 = field.2) fields written) :
    ∀ field ∈ fields, IsSafeField field.1 field.2 := by
  intro field hfield hmem
  have hvalue : ∀ key : String, toAsciiLowercase field.1 = key.toList →
      field.2 ∈ valuesOf key written := by
    intro key hkey
    rw [← valuesNamed_eq_valuesOf hsame]
    exact List.mem_map_of_mem (List.mem_filter.2 ⟨hfield, decide_eq_true hkey⟩)
  -- A request has one subject and one body, so a field of that name has its value.
  have hone : ∀ {values : List Str} {value : Str}, (values = [value] ∨ (values = [] ∧ value = [])) →
      field.2 ∈ values → field.2 = value := by
    intro values value hvalues hin
    rcases hvalues with hvalues | ⟨hvalues, _⟩
    · exact List.mem_singleton.1 (hvalues ▸ hin)
    · exact absurd (hvalues ▸ hin) List.not_mem_nil
  split
  · next hbody =>
    rw [hone h.body (hvalue "body" hbody)]
    intro c hc
    rcases hsafe.body c hc with heq | heq | hplain
    · exact Or.inl (heq ▸ by decide)
    · exact Or.inl (heq ▸ by decide)
    · exact Or.inr hplain
  · next hbody =>
    unfold composerKeys at hmem
    simp only [List.mem_cons, List.not_mem_nil, or_false] at hmem
    rcases hmem with hkey | hkey | hkey | hkey | hkey
    · refine hsafe.«to» _ ?_
      rw [h.«to»]
      exact List.mem_append_right _ (hvalue "to" hkey)
    · exact hsafe.cc _ (h.cc ▸ hvalue "cc" hkey)
    · exact hsafe.bcc _ (h.bcc ▸ hvalue "bcc" hkey)
    · rw [hone h.subject (hvalue "subject" hkey)]
      exact hsafe.subject
    · exact absurd hkey hbody

theorem parseMailtoUri_of_encodes (h : Encodes request uri) (hsafe : request.Safe) :
    parseMailtoUri uri = .ok request.kept := by
  obtain ⟨path, written, scheme, pathText, fragment, texts, h⟩ := h
  obtain ⟨fields, hdecodes, hsame⟩ := h.decodesTo
  have hplain : IsPlainText path := by
    by_cases hpath : path = []
    · exact fun c hc => absurd (hpath ▸ hc) List.not_mem_nil
    · refine hsafe.«to» path ?_
      rw [h.«to», if_neg hpath]
      exact List.mem_cons_self
  rw [parseMailtoUri_of_decodesTo hdecodes hplain (h.safe_fields hsafe hsame),
    requestOf_eq_kept h hsafe.body hsame]

theorem keptRecipients_of_trimmed {values : List Str}
    (h : ∀ value ∈ values, trim value = value ∧ value ≠ []) :
    keptRecipients values = values := by
  unfold keptRecipients
  rw [List.map_congr_left fun value hvalue => (h value hvalue).1, List.map_id', List.filter_eq_self]
  exact fun value hvalue => decide_eq_true (h value hvalue).2

/-- Fields that the composer does not edit leave no trace. -/
theorem requestOf_filter (recipient : Str) (fields : List (Str × Str)) :
    requestOf recipient fields =
      requestOf recipient (fields.filter fun field => toAsciiLowercase field.1 ∈ composerKeys) := by
  have hvalues : ∀ key : String, key.toList ∈ composerKeys → valuesNamed key fields =
      valuesNamed key (fields.filter fun field => toAsciiLowercase field.1 ∈ composerKeys) := by
    intro key hkey
    unfold valuesNamed
    rw [List.filter_filter]
    congr 1
    refine List.filter_congr fun field _ => ?_
    by_cases heq : toAsciiLowercase field.1 = key.toList
    · rw [heq]
      simp [hkey]
    · simp [heq]
  unfold requestOf
  rw [hvalues "to" (by decide), hvalues "cc" (by decide), hvalues "bcc" (by decide),
    hvalues "subject" (by decide), hvalues "body" (by decide)]

/-- All recipients, in whatever field they are. -/
def MailtoRequest.recipients (request : MailtoRequest) : List Str :=
  request.«to» ++ request.cc ++ request.bcc

/-- **A link carries its request.** A link that is written for a safe request is read back as this
request, its recipients trimmed and blank ones left out; a request whose recipients are trimmed
already is read back as it is. And no link, whoever has written it, sets anything but the
recipients, the subject and the body, nor any of them to text with control characters in it. -/
theorem mailto_carries_request :
    (∀ request uri, Encodes request uri → request.Safe →
      parseMailtoUri uri = .ok request.kept ∧
        ((∀ recipient ∈ request.recipients, trim recipient = recipient ∧ recipient ≠ []) →
          parseMailtoUri uri = .ok request)) ∧
      ∀ uri request, parseMailtoUri uri = .ok request →
        request.Safe ∧ ∃ recipient fields, DecodesTo uri recipient fields ∧
          request = requestOf recipient
            (fields.filter fun field => toAsciiLowercase field.1 ∈ composerKeys) := by
  constructor
  · intro request uri hencodes hsafe
    have hparse := parseMailtoUri_of_encodes hencodes hsafe
    refine ⟨hparse, fun htrimmed => ?_⟩
    unfold MailtoRequest.recipients at htrimmed
    have hkept : request.kept = request := by
      unfold MailtoRequest.kept
      rw [keptRecipients_of_trimmed, keptRecipients_of_trimmed, keptRecipients_of_trimmed]
      · exact fun value hvalue => htrimmed value (List.mem_append_right _ hvalue)
      · exact fun value hvalue =>
          htrimmed value (List.mem_append_left _ (List.mem_append_right _ hvalue))
      · exact fun value hvalue =>
          htrimmed value (List.mem_append_left _ (List.mem_append_left _ hvalue))
    rw [hparse, hkept]
  · intro uri request hparse
    obtain ⟨recipient, fields, hdecodes, hrequest, hsafe⟩ := parseMailtoUri_eq_ok hparse
    exact ⟨hsafe, recipient, fields, hdecodes, hrequest.trans (requestOf_filter recipient fields)⟩

/-! ## Two links -/

def spacedRequest : MailtoRequest :=
  { «to» := [" ann@example.test".toList], cc := [], bcc := [], subject := [], body := [] }

theorem spacedRequest_encodes : Encodes spacedRequest "mailto:%20ann@example.test".toList := by
  refine ⟨" ann@example.test".toList, [], "mailto:".toList, "%20ann@example.test".toList,
    [], [], ?_⟩
  have hspace : Percent.EncodesByte 0x20 "%20".toList :=
    ⟨0x32, 0x30, by decide, by decide, by decide⟩
  have hrest : Percent.Encoded (· ∉ "%#?".toList) "ann@example.test".toList
      "ann@example.test".toList := Percent.encoded_self (by simp)
  exact {
    written := by decide
    schemeCase := by decide
    encodedPath := Percent.Encoded.percent (c := ' ')
      (List.Forall₂.cons hspace List.Forall₂.nil) hrest
    authority := by decide
    keys := fun _ hmem => absurd hmem List.not_mem_nil
    encodedFields := List.Forall₂.nil
    fragmentMark := Or.inl rfl
    «to» := by decide
    cc := rfl
    bcc := rfl
    subject := Or.inr ⟨rfl, rfl⟩
    body := Or.inr ⟨rfl, rfl⟩ }

theorem spacedRequest_safe : spacedRequest.Safe where
  «to» := by decide
  cc := fun _ hmem => absurd hmem List.not_mem_nil
  bcc := fun _ hmem => absurd hmem List.not_mem_nil
  subject := fun _ hmem => absurd hmem List.not_mem_nil
  body := isBodyText_nil

/-- The space before a recipient is trimmed. -/
theorem spaced_recipient_changes :
    ¬ ∀ request uri, Encodes request uri → request.Safe → parseMailtoUri uri = .ok request := by
  intro h
  have hsame := h _ _ spacedRequest_encodes spacedRequest_safe
  rw [parseMailtoUri_of_encodes spacedRequest_encodes spacedRequest_safe] at hsame
  exact absurd (Except.ok.inj hsame) (by decide)

/-- Two recipients and a subject. -/
theorem mailto_carries_request_example :
    parseMailtoUri "MAILTO:ann@example.test?To=bob@example.test&subject=Hi%21#top".toList =
      .ok { «to» := ["ann@example.test".toList, "bob@example.test".toList], cc := [], bcc := [],
            subject := "Hi!".toList, body := [] } := by
  have hmark : Percent.EncodesByte 0x21 "%21".toList :=
    ⟨0x32, 0x31, by decide, by decide, by decide⟩
  have hvalue : Percent.Encoded (· ∉ "%#&".toList) "Hi!".toList "Hi%21".toList :=
    Percent.Encoded.keep (c := 'H') (by simp) (Percent.Encoded.keep (c := 'i') (by simp)
      (Percent.Encoded.percent (c := '!') (List.Forall₂.cons hmark List.Forall₂.nil)
        Percent.Encoded.nil))
  refine ((mailto_carries_request.1 _ _ ⟨"ann@example.test".toList,
    [("to", "bob@example.test".toList), ("subject", "Hi!".toList)], "MAILTO:".toList,
    "ann@example.test".toList, "#top".toList,
      ["To=bob@example.test".toList, "subject=Hi%21".toList],
    ?_⟩ ?_).2 ?_)
  · exact {
      written := by decide
      schemeCase := by decide
      encodedPath := Percent.encoded_self (by simp)
      authority := by decide
      keys := by decide
      encodedFields := List.Forall₂.cons
        ⟨"To".toList, "To".toList, "bob@example.test".toList, by decide,
          Percent.encoded_self (by simp), Percent.encoded_self (by simp), by decide⟩
        (List.Forall₂.cons
          ⟨"subject".toList, "subject".toList, "Hi%21".toList, by decide,
            Percent.encoded_self (by simp), hvalue, by decide⟩
          List.Forall₂.nil)
      fragmentMark := Or.inr ⟨"top".toList, by decide⟩
      «to» := by decide
      cc := by decide
      bcc := by decide
      subject := Or.inl (by decide)
      body := Or.inr ⟨by decide, by decide⟩ }
  · exact {
      «to» := by decide
      cc := fun _ hmem => absurd hmem List.not_mem_nil
      bcc := fun _ hmem => absurd hmem List.not_mem_nil
      subject := by decide
      body := isBodyText_nil }
  · decide

end Notm.Mail
