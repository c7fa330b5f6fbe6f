import Notm.Lib.Percent

/-!
# Parameters of header fields

A header field such as `Content-Disposition` has a value and parameters after semicolons. A
parameter value is a token, a quoted string, or by RFC 2231 an extended value: percent-encoded text
of a character set, which may be divided over parameters that are numbered from zero. Below is how
a reader finds the value of a parameter in an unfolded header, and what it finds where a writer put
it into one quoted string or into numbered segments.

* `parameters_headerText` — the parameters of a header that is put together from parts.
* `decodeSegments_numbered` — numbered extended segments decode to the pieces that they encode.
* `decodeHeader_quoted` — a quoted string is read back.
* `decodeHeader_segments` — so is a value that is divided over numbered segments.
-/

namespace Rfc2231

open Rust

/-! ## Reading -/

/-- The parts of a header between semicolons, with the current part in `current`. A semicolon in a
quoted string does not count, nor does a quoted pair end the string. -/
def splitFrom (quoted escaped : Bool) (current : Str) : Str → List Str
  | [] => [current]
  | c :: rest =>
    if escaped = true then splitFrom quoted false (current ++ [c]) rest
    else if quoted = true ∧ c = '\\' then splitFrom true true (current ++ [c]) rest
    else if c = '"' then splitFrom (!quoted) false (current ++ [c]) rest
    else if quoted = false ∧ c = ';' then current :: splitFrom false false [] rest
    else splitFrom quoted false (current ++ [c]) rest

/-- The content of a quoted string. -/
def unquoteFrom (escaped : Bool) : Str → Str
  | [] => []
  | c :: rest =>
    if escaped = true then c :: unquoteFrom false rest
    else if c = '\\' then unquoteFrom true rest
    else if c = '"' then []
    else c :: unquoteFrom false rest

/-- A token or a quoted string. -/
def plainValue (value : Str) : Str :=
  if value.head? = some '"' then unquoteFrom false value.tail else value

/-- A parameter of a header, with its value as it is written. -/
structure Parameter where
  key : Str
  value : Str

/-- Attributes do not distinguish case. -/
def parseParameter (part : Str) : Option Parameter :=
  (splitOnce (part.dropWhile fun c => isBlank c.toNat) '=').map fun (key, value) =>
    ⟨toAsciiLowercase key, value⟩

/-- What stands between the semicolons that are not in quotes, behind the value of the header. -/
def parameters (header : Str) : List Parameter :=
  (splitFrom false false [] header).tail.filterMap parseParameter

/-- The first parameter of the name. -/
def find (parameters : List Parameter) (key : Str) : Option Str :=
  (parameters.find? fun parameter => parameter.key = key).map Parameter.value

/-- One of the parameters that a value is divided over. -/
structure Segment where
  extended : Bool
  text : Str

/-- The attribute of a segment that is not extended. -/
def sectionName (name : Str) (index : Nat) : Str := name ++ '*' :: natText index

/-- The section with an index, which is percent-encoded if its name ends with a star. -/
def segment (parameters : List Parameter) (name : Str) (index : Nat) : Option Segment :=
  match find parameters (sectionName name index ++ ['*']) with
  | some text => some ⟨true, text⟩
  | none => (find parameters (sectionName name index)).map fun value => ⟨false, plainValue value⟩

/-- The segments from `index` on, up to the first number that is missing. -/
def segmentsFrom (parameters : List Parameter) (name : Str) : Nat → Nat → List Segment
  | 0, _ => []
  | fuel + 1, index =>
    match segment parameters name index with
    | none => []
    | some found => found :: segmentsFrom parameters name fuel (index + 1)

/-- The bytes that a section stands for. -/
def Segment.bytes (segment : Segment) : Option Bytes :=
  if segment.extended = true then Percent.decode (Utf8.encode segment.text)
  else some (Utf8.encode segment.text)

/-- An extended value after its character set and language. -/
def withoutCharset (text : Str) : Option Str :=
  (splitOnce text '\x27').bind fun (charset, rest) =>
    if eqIgnoreAsciiCase charset "utf-8".toList = true then
      (splitOnce rest '\x27').map Prod.snd
    else none

/-- The charset stands in the first section, if that is an extended one. The bytes of all sections
are decoded together, since a character may be cut by the end of a section. -/
def decodeSegments : List Segment → Option Str
  | [] => none
  | first :: rest =>
    (if first.extended = true then withoutCharset first.text else some first.text).bind fun text =>
      (({ first with text } :: rest).mapM Segment.bytes).bind fun bytes =>
        Utf8.decode bytes.flatten

/-- The value of a parameter: an extended value, else its segments, else a plain value. -/
def decode (name : Str) (parameters : List Parameter) : Option Str :=
  match find parameters (name ++ ['*']) with
  | some text => decodeSegments [⟨true, text⟩]
  | none =>
    match segmentsFrom parameters name parameters.length 0 with
    | [] => (find parameters name).map plainValue
    | first :: rest => decodeSegments (first :: rest)

/-- The value of a parameter. -/
def decodeHeader (name header : Str) : Option Str := decode name (parameters header)

/-! ## Writing -/

/-- A header with its parameters. -/
def headerText (value : Str) (parameters : List Str) : Str :=
  value ++ parameters.flatMap fun parameter => ';' :: ' ' :: parameter

def quotedParameter (name value : Str) : Str := name ++ '=' :: '"' :: (value ++ ['"'])

/-- The value of a segment, where the first one names the character set. -/
def segmentValue (index : Nat) (text : Str) : Str :=
  if index = 0 then "utf-8\x27\x27".toList ++ text else text

def segmentParameter (name : Str) (index : Nat) (text : Str) : Str :=
  (sectionName name index ++ ['*']) ++ '=' :: segmentValue index text

/-- Text that can be passed over in looking for the end of a part. -/
def IsPart (text : Str) : Prop :=
  ∀ current rest, splitFrom false false current (text ++ rest) =
    splitFrom false false (current ++ text) rest

/-- An attribute as it is written: in lower case, starting with something that is no blank and
without the separators. -/
structure IsAttribute (name : Str) : Prop where
  lower : toAsciiLowercase name = name
  start : ∃ c rest, name = c :: rest ∧ isBlank c.toNat = false
  separators : ∀ c ∈ name, c ≠ '=' ∧ c ≠ '"' ∧ c ≠ ';'

variable {name value text : Str}

/-! ## Parts -/

theorem IsPart.append {first second : Str} (h : IsPart first) (h' : IsPart second) :
    IsPart (first ++ second) := by
  intro current rest
  rw [List.append_assoc, h, h', List.append_assoc]

theorem splitFrom_of_plain {c : Char}
    (hquote : c ≠ '"') (hsemicolon : c ≠ ';') (current rest : Str) :
    splitFrom false false current (c :: rest) = splitFrom false false (current ++ [c]) rest := by
  conv_lhs => unfold splitFrom
  rw [if_neg Bool.false_ne_true, if_neg fun h => Bool.false_ne_true h.1, if_neg hquote,
    if_neg fun h => hsemicolon h.2]

theorem isPart_of_plain (h : ∀ c ∈ text, c ≠ '"' ∧ c ≠ ';') : IsPart text := by
  induction text with
  | nil =>
    intro current rest
    rw [List.append_nil, List.nil_append]
  | cons c text ih =>
    intro current rest
    obtain ⟨hquote, hsemicolon⟩ := h c List.mem_cons_self
    have hrest := ih fun d hd => h d (List.mem_cons_of_mem c hd)
    rw [List.cons_append, splitFrom_of_plain hquote hsemicolon, hrest, List.append_assoc,
      List.singleton_append]

theorem splitFrom_quoted (h : ∀ c ∈ value, c ≠ '"' ∧ c ≠ '\\') (current rest : Str) :
    splitFrom true false current (value ++ rest) =
      splitFrom true false (current ++ value) rest := by
  induction value generalizing current with
  | nil => rw [List.append_nil, List.nil_append]
  | cons c value ih =>
    obtain ⟨hquote, hescape⟩ := h c List.mem_cons_self
    have hrest := ih fun d hd => h d (List.mem_cons_of_mem c hd)
    rw [List.cons_append]
    conv_lhs => unfold splitFrom
    rw [if_neg Bool.false_ne_true, if_neg fun h => hescape h.2, if_neg hquote,
      if_neg fun h => Bool.false_ne_true h.1.symm, hrest, List.append_assoc, List.singleton_append]

theorem isPart_quoted (h : ∀ c ∈ value, c ≠ '"' ∧ c ≠ '\\') : IsPart ('"' :: (value ++ ['"'])) := by
  intro current rest
  show splitFrom true false (current ++ ['"']) (value ++ ['"'] ++ rest) = _
  rw [List.append_assoc, splitFrom_quoted h]
  show splitFrom false false (current ++ ['"'] ++ value ++ ['"']) rest = _
  simp only [List.append_assoc, List.cons_append, List.nil_append]

theorem splitFrom_headerText {parts : List Str} (hvalue : IsPart value)
    (h : ∀ part ∈ parts, IsPart part) (current : Str) :
    splitFrom false false current (headerText value parts) =
      (current ++ value) :: parts.map (' ' :: ·) := by
  induction parts generalizing value current with
  | nil =>
    show splitFrom false false current (value ++ []) = [current ++ value]
    rw [hvalue]
    rfl
  | cons part parts ih =>
    have hspace : IsPart [' '] := isPart_of_plain (by simp)
    have hspaced : IsPart (' ' :: part) := hspace.append (h part List.mem_cons_self)
    have hrest := ih hspaced (fun part hpart => h part (List.mem_cons_of_mem _ hpart)) []
    show splitFrom false false current (value ++ ';' :: headerText (' ' :: part) parts) = _
    rw [hvalue]
    show (current ++ value) :: splitFrom false false [] (headerText (' ' :: part) parts) = _
    rw [hrest]
    rfl

/-! ## Attributes -/

theorem parseParameter_spaced (h : IsAttribute name) (value : Str) :
    parseParameter (' ' :: (name ++ '=' :: value)) = some ⟨name, value⟩ := by
  obtain ⟨c, rest, hname, hblank⟩ := h.start
  have hdrop : (' ' :: (name ++ '=' :: value)).dropWhile (fun c => isBlank c.toNat) =
      name ++ '=' :: value := by
    rw [List.dropWhile_cons_of_pos (by decide), hname, List.cons_append,
      List.dropWhile_cons_of_neg (by rw [hblank]; exact Bool.false_ne_true)]
  have hsplit : splitOnce (name ++ '=' :: value) '=' = some (name, value) :=
    splitOnce_append fun hmem => (h.separators '=' hmem).1 rfl
  unfold parseParameter
  rw [hdrop, hsplit, Option.map_some]
  show some (Parameter.mk (toAsciiLowercase name) value) = _
  rw [h.lower]

theorem isAttribute_sectionName (h : IsAttribute name) (index : Nat) :
    IsAttribute (sectionName name index ++ ['*']) := by
  -- The digits of the number are neither upper case nor separators.
  have hdigits : ∀ c ∈ natText index, asciiLower c = c ∧ c ≠ '=' ∧ c ≠ '"' ∧ c ≠ ';' := by
    intro c hc
    obtain ⟨hlow, hhigh⟩ := toNat_of_isDigit (isDigit_of_mem_natText hc)
    refine ⟨asciiLower_of_not_upper (by omega), ?_, ?_, ?_⟩
    · rintro rfl
      exact absurd hhigh (by decide)
    · rintro rfl
      exact absurd hlow (by decide)
    · rintro rfl
      exact absurd hhigh (by decide)
  constructor
  · have hmap : (natText index).map asciiLower = natText index :=
      (List.map_congr_left fun c hc => (hdigits c hc).1).trans (List.map_id' _)
    have hlower := h.lower
    unfold toAsciiLowercase at hlower ⊢
    unfold sectionName
    rw [List.map_append, List.map_append, List.map_cons, hlower, hmap]
    rfl
  · obtain ⟨c, rest, hname, hblank⟩ := h.start
    exact ⟨c, rest ++ '*' :: natText index ++ ['*'], by rw [sectionName, hname]; rfl, hblank⟩
  · intro c hc
    rcases List.mem_append.1 hc with hc | hc
    · rcases List.mem_append.1 hc with hc | hc
      · exact h.separators c hc
      · rcases List.mem_cons.1 hc with rfl | hc
        · decide
        · exact (hdigits c hc).2
    · obtain rfl := List.mem_singleton.1 hc
      decide

/-! ## Finding a parameter -/

variable {found : List Parameter} {texts : List Str}

theorem find_eq_none {key : Str} (h : ∀ parameter ∈ found, parameter.key ≠ key) :
    find found key = none := by
  unfold find
  rw [List.find?_eq_none.2 fun parameter hmem heq => h parameter hmem (of_decide_eq_true heq)]
  rfl

theorem sectionName_injective {i j : Nat} (h : sectionName name i = sectionName name j) :
    i = j := by
  unfold sectionName at h
  exact natText_injective (List.cons.inj (List.append_cancel_left h)).2

/-- The parameters of the segments. -/
def numbered (name : Str) (texts : List Str) : List Parameter :=
  texts.mapIdx fun index text => ⟨sectionName name index ++ ['*'], segmentValue index text⟩

theorem key_of_mem_numbered {parameter : Parameter} (h : parameter ∈ numbered name texts) :
    ∃ index, parameter.key = sectionName name index ++ ['*'] := by
  obtain ⟨index, _, rfl⟩ := List.mem_mapIdx.1 h
  exact ⟨index, rfl⟩

theorem find_numbered (index : Nat) :
    find (numbered name texts) (sectionName name index ++ ['*']) =
      texts[index]?.map (segmentValue index) := by
  by_cases hindex : index < texts.length
  · rw [List.getElem?_eq_getElem hindex, Option.map_some]
    unfold find
    have hfind : (numbered name texts).find?
        (fun parameter => parameter.key = sectionName name index ++ ['*']) =
        some ⟨sectionName name index ++ ['*'], segmentValue index texts[index]⟩ := by
      rw [List.find?_eq_some_iff_getElem]
      refine ⟨decide_eq_true rfl, index, by simpa [numbered] using hindex, ?_, ?_⟩
      · simp [numbered]
      · intro i hi
        have hne : sectionName name i ++ ['*'] ≠ sectionName name index ++ ['*'] := by
          intro heq
          have := sectionName_injective (List.append_cancel_right heq)
          omega
        simpa [numbered] using hne
    rw [hfind]
    rfl
  · rw [List.getElem?_eq_none (by omega), Option.map_none]
    refine find_eq_none fun parameter hmem heq => ?_
    obtain ⟨i, hi, rfl⟩ := List.mem_mapIdx.1 hmem
    have := sectionName_injective (List.append_cancel_right heq)
    omega

theorem segment_numbered (index : Nat) :
    segment (numbered name texts) name index =
      texts[index]?.map fun text => ⟨true, segmentValue index text⟩ := by
  have hplain : find (numbered name texts) (sectionName name index) = none := by
    refine find_eq_none fun parameter hmem heq => ?_
    obtain ⟨i, hkey⟩ := key_of_mem_numbered hmem
    -- The number would end in an asterisk.
    have hlast : natText i ++ ['*'] = natText index := by
      have hsame := hkey.symm.trans heq
      unfold sectionName at hsame
      rw [List.append_assoc] at hsame
      exact (List.cons.inj (List.append_cancel_left hsame)).2
    have hdigit : '*' ∈ natText index := by
      rw [← hlast]
      exact List.mem_append_right _ List.mem_cons_self
    exact absurd (isDigit_of_mem_natText hdigit) (by decide)
  unfold segment
  rw [find_numbered, hplain]
  cases texts[index]? <;> rfl

/-- The segments that are there are found, in their order: the reader counts up from `index` and
stops at the first number that is missing, which is the length of the list. -/
theorem segmentsFrom_eq {segments : List Segment} {fuel index : Nat}
    (h : ∀ i, segment found name (index + i) = segments[i]?) (hfuel : segments.length ≤ fuel) :
    segmentsFrom found name fuel index = segments := by
  induction segments generalizing fuel index with
  | nil =>
    cases fuel with
    | zero => rfl
    | succ fuel =>
      have hnone := h 0
      rw [Nat.add_zero] at hnone
      unfold segmentsFrom
      rw [hnone]
      rfl
  | cons first rest ih =>
    cases fuel with
    | zero => exact absurd hfuel (by simp)
    | succ fuel =>
      have hfirst := h 0
      rw [Nat.add_zero] at hfirst
      have hrest : segmentsFrom found name fuel (index + 1) = rest := by
        refine ih (fun i => ?_) (Nat.le_of_succ_le_succ hfuel)
        rw [Nat.add_assoc, Nat.add_comm 1 i]
        exact h (i + 1)
      unfold segmentsFrom
      rw [hfirst]
      show first :: segmentsFrom found name fuel (index + 1) = first :: rest
      rw [hrest]

/-! ## What is read -/

theorem unquoteFrom_quoted (h : ∀ c ∈ value, c ≠ '"' ∧ c ≠ '\\') :
    unquoteFrom false (value ++ ['"']) = value := by
  induction value with
  | nil => rfl
  | cons c value ih =>
    obtain ⟨hquote, hescape⟩ := h c List.mem_cons_self
    have hrest := ih fun d hd => h d (List.mem_cons_of_mem c hd)
    rw [List.cons_append]
    conv_lhs => unfold unquoteFrom
    rw [if_neg Bool.false_ne_true, if_neg hescape, if_neg hquote, hrest]

theorem sectionName_ne (index : Nat) : sectionName name index ++ ['*'] ≠ name ++ ['*'] := by
  intro h
  have hlength := congrArg List.length h
  unfold sectionName at hlength
  simp only [List.length_append, List.length_cons, List.length_nil] at hlength
  omega

theorem encode_flatten (pieces : List Str) :
    Utf8.encode pieces.flatten = (pieces.map Utf8.encode).flatten := by
  induction pieces with
  | nil => rfl
  | cons piece pieces ih =>
    rw [List.flatten_cons, Utf8.encode_append, ih, List.map_cons, List.flatten_cons]

/-- Segments decode to the pieces that they encode. -/
theorem decodeSegments_numbered {pieces : List Str} (hne : texts ≠ [])
    (h : List.Forall₂ (fun text piece => Percent.decode (Utf8.encode text) =
      some (Utf8.encode piece)) texts pieces) :
    decodeSegments (texts.mapIdx fun index text => ⟨true, segmentValue index text⟩) =
      some pieces.flatten := by
  -- Behind the first segment the numbers only count; every segment is percent-encoded by itself.
  have hbytes : ∀ {rest : List Str} {pieces : List Str} (k : Nat),
      List.Forall₂ (fun text piece => Percent.decode (Utf8.encode text) =
        some (Utf8.encode piece)) rest pieces →
      (rest.mapIdx fun index text => (⟨true, segmentValue (index + k + 1) text⟩ : Segment)).mapM
        Segment.bytes = some (pieces.map Utf8.encode) := by
    intro rest pieces k hrest
    induction hrest generalizing k with
    | nil => rfl
    | @cons text piece rest pieces htext _ ih =>
      have hshift : (fun index text => (⟨true, segmentValue (index + 1 + k + 1) text⟩ : Segment)) =
          fun index text => ⟨true, segmentValue (index + (k + 1) + 1) text⟩ := by
        funext index text
        rw [Nat.add_right_comm index 1 k]
        rfl
      rw [List.mapIdx_cons, List.mapM_cons, hshift, ih (k + 1)]
      show (Percent.decode (Utf8.encode text)).bind _ = _
      rw [htext]
      rfl
  cases h with
  | nil => exact absurd rfl hne
  | @cons text piece rest pieces htext hrest =>
    -- The first segment also names the character set and an empty language.
    have hcharset : withoutCharset (segmentValue 0 text) = some text := by
      have hfirst : splitOnce ("utf-8".toList ++ '\x27' :: '\x27' :: text) '\x27' =
          some ("utf-8".toList, '\x27' :: text) := splitOnce_append (by decide)
      have hsecond : splitOnce ('\x27' :: text) '\x27' = some ([], text) :=
        splitOnce_append (show '\x27' ∉ ([] : Str) from List.not_mem_nil)
      show (splitOnce ("utf-8".toList ++ '\x27' :: '\x27' :: text) '\x27').bind _ = some text
      rw [hfirst]
      show (if eqIgnoreAsciiCase "utf-8".toList "utf-8".toList = true then
        (splitOnce ('\x27' :: text) '\x27').map Prod.snd else none) = some text
      rw [if_pos (by decide), hsecond]
      rfl
    have hall : ((⟨true, text⟩ : Segment) ::
        rest.mapIdx fun index text => ⟨true, segmentValue (index + 1) text⟩).mapM Segment.bytes =
          some ((piece :: pieces).map Utf8.encode) := by
      rw [List.mapM_cons, hbytes 0 hrest]
      show (Percent.decode (Utf8.encode text)).bind _ = _
      rw [htext]
      rfl
    rw [List.mapIdx_cons]
    unfold decodeSegments
    simp only [if_true, hcharset, Option.bind_some, hall]
    rw [← encode_flatten, Utf8.decode_encode]

theorem isPart_parameter (h : IsAttribute name) (hvalue : IsPart value) :
    IsPart (name ++ '=' :: value) := by
  have hname : IsPart name := isPart_of_plain fun c hc => (h.separators c hc).2
  have hequals : IsPart ['='] := isPart_of_plain (by simp)
  exact hname.append (hequals.append hvalue)

theorem parameters_headerText {first : Str} {parts : List Str} (hfirst : IsPart first)
    (h : ∀ part ∈ parts, IsPart part) :
    parameters (headerText first parts) =
      parts.filterMap fun part => parseParameter (' ' :: part) := by
  unfold parameters
  rw [splitFrom_headerText hfirst h, List.nil_append, List.tail_cons, List.filterMap_map]
  rfl

theorem filterMap_mapIdx {α β γ : Type} {f : ℕ → α → β} {g : β → Option γ} {h : ℕ → α → γ}
    (hg : ∀ i a, g (f i a) = some (h i a)) {xs : List α} :
    (xs.mapIdx f).filterMap g = xs.mapIdx h := by
  induction xs generalizing f h with
  | nil => rfl
  | cons x xs ih =>
    rw [List.mapIdx_cons, List.mapIdx_cons, List.filterMap_cons_some (hg 0 x),
      ih fun i a => hg (i + 1) a]

/-- A quoted string is read back. -/
theorem decodeHeader_quoted {first : Str} (hfirst : IsPart first) (hname : IsAttribute name)
    (hvalue : ∀ c ∈ value, c ≠ '"' ∧ c ≠ '\\') :
    decodeHeader name (headerText first [quotedParameter name value]) = some value := by
  have hpart : IsPart (quotedParameter name value) := isPart_parameter hname (isPart_quoted hvalue)
  have hparameters : parameters (headerText first [quotedParameter name value]) =
      [⟨name, '"' :: (value ++ ['"'])⟩] := by
    rw [parameters_headerText hfirst fun part hmem => List.mem_singleton.1 hmem ▸ hpart]
    exact List.filterMap_cons_some (parseParameter_spaced hname _)
  have hother : ∀ key : Str, name ≠ key →
      find [⟨name, '"' :: (value ++ ['"'])⟩] key = none := by
    intro key hne
    exact find_eq_none fun parameter hmem => List.mem_singleton.1 hmem ▸ hne
  have hlonger : ∀ rest : Str, rest ≠ [] → name ≠ name ++ rest := by
    intro rest hrest heq
    exact hrest (List.self_eq_append_right.1 heq)
  -- No extended value and no segment is there, for their attributes are longer than the name.
  have hsection : segment [⟨name, '"' :: (value ++ ['"'])⟩] name 0 = none := by
    unfold segment sectionName
    rw [List.append_assoc, hother _ (hlonger _ (by simp)), hother _ (hlonger _ (by simp))]
    rfl
  have hfind : find [⟨name, '"' :: (value ++ ['"'])⟩] name = some ('"' :: (value ++ ['"'])) := by
    simp [find]
  unfold decodeHeader decode
  rw [hparameters, hother _ (hlonger _ (by simp))]
  show (match segmentsFrom _ name 1 0 with
    | [] => _
    | first :: rest => _) = _
  unfold segmentsFrom
  rw [hsection]
  show (find [⟨name, '"' :: (value ++ ['"'])⟩] name).map plainValue = _
  rw [hfind, Option.map_some]
  show some (unquoteFrom false (value ++ ['"'])) = _
  rw [unquoteFrom_quoted hvalue]

/-- Segments are put together again. -/
theorem decodeHeader_segments {first : Str} {pieces : List Str} (hfirst : IsPart first)
    (hname : IsAttribute name) (hne : texts ≠ [])
    (hplain : ∀ text ∈ texts, ∀ c ∈ text, c ≠ '"' ∧ c ≠ ';')
    (h : List.Forall₂ (fun text piece => Percent.decode (Utf8.encode text) =
      some (Utf8.encode piece)) texts pieces) :
    decodeHeader name (headerText first (texts.mapIdx (segmentParameter name))) =
      some pieces.flatten := by
  have hvalue : ∀ (index : Nat) (text : Str), text ∈ texts → IsPart (segmentValue index text) := by
    intro index text htext
    unfold segmentValue
    split
    · exact (isPart_of_plain (by simp)).append (isPart_of_plain (hplain text htext))
    · exact isPart_of_plain (hplain text htext)
  have hparts : ∀ part ∈ texts.mapIdx (segmentParameter name), IsPart part := by
    intro part hpart
    obtain ⟨index, hindex, rfl⟩ := List.mem_mapIdx.1 hpart
    exact isPart_parameter (isAttribute_sectionName hname index)
      (hvalue index _ (List.getElem_mem hindex))
  have hparameters : parameters (headerText first (texts.mapIdx (segmentParameter name))) =
      numbered name texts := by
    rw [parameters_headerText hfirst hparts]
    exact filterMap_mapIdx (f := segmentParameter name)
      (g := fun part => parseParameter (' ' :: part)) fun index text =>
        parseParameter_spaced (isAttribute_sectionName hname index) _
  have hsegments : segmentsFrom (numbered name texts) name (numbered name texts).length 0 =
      texts.mapIdx fun index text => ⟨true, segmentValue index text⟩ := by
    refine segmentsFrom_eq (fun i => ?_) ?_
    · rw [Nat.zero_add, segment_numbered, List.getElem?_mapIdx]
    · unfold numbered
      rw [List.length_mapIdx, List.length_mapIdx]
  have hwhole : find (numbered name texts) (name ++ ['*']) = none := by
    refine find_eq_none fun parameter hmem heq => ?_
    obtain ⟨index, hkey⟩ := key_of_mem_numbered hmem
    exact sectionName_ne index (hkey.symm.trans heq)
  unfold decodeHeader decode
  rw [hparameters, hwhole]
  simp only [hsegments]
  rw [← decodeSegments_numbered hne h]
  cases texts with
  | nil => exact absurd rfl hne
  | cons text texts => rw [List.mapIdx_cons]

end Rfc2231
