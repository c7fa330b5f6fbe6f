import Notm.Lib.Folding
import Notm.Mail.MessageId.MessageIdTokens

/-!
# Headers of tokens

`write_token_header` writes the date, the message identifiers, the encoded words of a subject and
the mailboxes of an address list. It puts each token on the current line where it fits and starts a
line with it where it does not.

* `Layout` — what has been written of some tokens: the lines that are closed and the current one.
* `writeToken_layout`, `run_layout` — a token joins the current line or starts one.
* `Layout.starts` — the first line starts with the name, the others with a space.
* `token_header_folds` — the lines of a header that is accepted, and how long they can be.
-/

namespace Notm.Mail

open Rust Folding

def recommendedHeaderLineLength : Nat := 78

def maxWireLineLength : Nat := 998

/-! ## The function -/

/-- One round of the loop, over the output and `line_length`. -/
def writeToken (name : Str) (state : Bytes × Nat) (token : Str) : Res (Bytes × Nat) := do
  validateHeaderText [.lit name] token
  Res.ensure (Utf8.len token < maxWireLineLength)
    ([.lit name] ++ lit " contains a token longer than the RFC 5322 line limit")
  if state.2 + 1 + Utf8.len token ≤ recommendedHeaderLineLength then
    .ok (state.1 ++ (0x20 :: Utf8.encode token), state.2 + 1 + Utf8.len token)
  else .ok (state.1 ++ (crlf ++ 0x20 :: Utf8.encode token), 1 + Utf8.len token)

/-- The tokens follow the name, with a new line wherever the present one would become longer than
recommended. -/
def writeTokenHeader (out : Bytes) (name : Str) (tokens : List Str) : Res Bytes :=
  let start := out ++ (Utf8.encode name ++ [0x3A])
  if tokens = [] then .ok (start ++ crlf)
  else do
    let state ← tokens.foldlM (writeToken name) (start, Utf8.len name + 1)
    .ok (state.1 ++ crlf)

/-! ## The lines of a header -/

/-- What a line starts with and the tokens on it. -/
structure TokenLine where
  start : Bytes
  tokens : List Str

/-- The tokens of a line, each behind a space. -/
def spaced (tokens : List Str) : Bytes := tokens.flatMap fun token => 0x20 :: Utf8.encode token

def TokenLine.bytes (line : TokenLine) : Bytes := line.start ++ spaced line.tokens

/-- The line with the name of the header. -/
def nameLine (name : Str) (tokens : List Str) : TokenLine := ⟨Utf8.encode name ++ [0x3A], tokens⟩

def foldedLine (tokens : List Str) : TokenLine := ⟨[], tokens⟩

/-- What has been written of some tokens: the lines that are finished and the current one. -/
inductive Layout (name : Str) : List Str → List TokenLine → TokenLine → Prop where
  | start : Layout name [] [] (nameLine name [])
  | same {tokens : List Str} {closed : List TokenLine} {current : TokenLine} {token : Str}
      (h : Layout name tokens closed current) (htext : IsHeaderText token)
      (hfits : current.bytes.length + 1 + Utf8.len token ≤ recommendedHeaderLineLength) :
      Layout name (tokens ++ [token]) closed ⟨current.start, current.tokens ++ [token]⟩
  | fold {tokens : List Str} {closed : List TokenLine} {current : TokenLine} {token : Str}
      (h : Layout name tokens closed current) (htext : IsHeaderText token)
      (hlimit : Utf8.len token < maxWireLineLength) :
      Layout name (tokens ++ [token]) (closed ++ [current]) (foldedLine [token])

/-- How long a line may be: a line that is too long for its tokens has one only, and a line
without tokens is the first. -/
structure TokenLine.Bounded (name : Str) (line : TokenLine) : Prop where
  recommended : line.bytes.length ≤ recommendedHeaderLineLength ∨ line = nameLine name [] ∨
    ∃ token, line = foldedLine [token] ∧ recommendedHeaderLineLength < 1 + Utf8.len token
  limit : line.bytes.length ≤ maxWireLineLength ∨ line = nameLine name []

variable {name : Str} {tokens : List Str} {closed : List TokenLine} {current line : TokenLine}

theorem spaced_append (first second : List Str) :
    spaced (first ++ second) = spaced first ++ spaced second := List.flatMap_append

theorem spaced_singleton (token : Str) : spaced [token] = 0x20 :: Utf8.encode token := by
  unfold spaced
  rw [List.flatMap_singleton]

theorem TokenLine.bytes_concat (line : TokenLine) (token : Str) :
    (TokenLine.mk line.start (line.tokens ++ [token])).bytes =
      line.bytes ++ 0x20 :: Utf8.encode token := by
  unfold TokenLine.bytes
  rw [spaced_append, spaced_singleton, List.append_assoc]

theorem foldedLine_bytes (token : Str) :
    (foldedLine [token]).bytes = 0x20 :: Utf8.encode token := by
  unfold foldedLine TokenLine.bytes
  rw [spaced_singleton, List.nil_append]

theorem nameLine_bytes_length (name : Str) :
    (nameLine name []).bytes.length = Utf8.len name + 1 := by
  unfold nameLine TokenLine.bytes spaced
  rw [List.flatMap_nil, List.append_nil, List.length_append, Utf8.length_encode]
  rfl

/-! ## One token -/

/-- One token joins the current line or starts a line. -/
theorem writeToken_layout {out text : Bytes} {token : Str} {state : Bytes × Nat}
    (h : Layout name tokens closed current)
    (hout : text = out ++ (joinLines (closed.map TokenLine.bytes) ++ current.bytes))
    (hwrite : writeToken name (text, current.bytes.length) token = .ok state) :
    ∃ closed' current', Layout name (tokens ++ [token]) closed' current' ∧
      state.1 = out ++ (joinLines (closed'.map TokenLine.bytes) ++ current'.bytes) ∧
      state.2 = current'.bytes.length := by
  obtain ⟨_, htext, hwrite⟩ := bind_eq_ok.1 hwrite
  obtain ⟨_, hlimit, hwrite⟩ := bind_eq_ok.1 hwrite
  have htext := validateHeaderText_eq_ok.1 htext
  have hlimit : Utf8.len token < maxWireLineLength := of_decide_eq_true (Res.ensure_eq_ok.1 hlimit)
  split at hwrite
  · next hfits =>
    obtain rfl := Except.ok.inj hwrite
    refine ⟨closed, _, Layout.same h htext hfits, ?_, ?_⟩
    · rw [TokenLine.bytes_concat, hout, List.append_assoc, List.append_assoc]
    · rw [TokenLine.bytes_concat, List.length_append, List.length_cons, Utf8.length_encode]
      show current.bytes.length + 1 + Utf8.len token = current.bytes.length + (Utf8.len token + 1)
      omega
  · obtain rfl := Except.ok.inj hwrite
    refine ⟨closed ++ [current], _, Layout.fold h htext hlimit, ?_, ?_⟩
    · rw [foldedLine_bytes, List.map_append, joinLines_append, List.map_singleton, joinLines_cons,
        joinLines_nil, List.append_nil, hout]
      simp only [List.append_assoc]
    · rw [foldedLine_bytes, List.length_cons, Utf8.length_encode]
      show 1 + Utf8.len token = Utf8.len token + 1
      omega

/-- All tokens. -/
theorem run_layout {out : Bytes} {more : List Str} {state last : Bytes × Nat}
    (h : Layout name tokens closed current)
    (hout : state.1 = out ++ (joinLines (closed.map TokenLine.bytes) ++ current.bytes))
    (hlength : state.2 = current.bytes.length)
    (hrun : more.foldlM (writeToken name) state = .ok last) :
    ∃ closed' current', Layout name (tokens ++ more) closed' current' ∧
      last.1 = out ++ (joinLines (closed'.map TokenLine.bytes) ++ current'.bytes) := by
  induction more generalizing state tokens closed current with
  | nil =>
    obtain rfl := Except.ok.inj hrun
    rw [List.append_nil]
    exact ⟨closed, current, h, hout⟩
  | cons token more ih =>
    rw [List.foldlM_cons] at hrun
    obtain ⟨middle, hstep, hrun⟩ := bind_eq_ok.1 hrun
    have hstate : state = (state.1, current.bytes.length) := by rw [← hlength]
    rw [hstate] at hstep
    obtain ⟨closed', current', hlayout, hout', hlength'⟩ := writeToken_layout h hout hstep
    have hnext := ih hlayout hout' hlength' hrun
    rwa [List.append_assoc, List.singleton_append] at hnext

/-! ## What the lines say -/

/-- No token is left out or written twice. -/
theorem Layout.flatMap_tokens (h : Layout name tokens closed current) :
    (closed ++ [current]).flatMap TokenLine.tokens = tokens := by
  induction h with
  | start => rfl
  | same _ _ _ ih =>
    rw [List.flatMap_append, List.flatMap_singleton] at ih ⊢
    rw [← ih, List.append_assoc]
  | fold _ _ _ ih =>
    rw [List.flatMap_append, ih, List.flatMap_singleton]
    rfl

/-- The first line starts with the name, the others with the space of their first token. -/
theorem Layout.starts (h : Layout name tokens closed current) :
    ∃ (first : List Str) (rest : List (List Str)),
      closed ++ [current] = nameLine name first :: rest.map foldedLine ∧ [] ∉ rest := by
  induction h with
  | start => exact ⟨[], [], rfl, List.not_mem_nil⟩
  | @same tokens closed current token _ _ _ ih =>
    obtain ⟨first, rest, hlines, hne⟩ := ih
    rcases List.eq_nil_or_concat rest with rfl | ⟨before, last, rfl⟩
    · have hsingle : closed ++ [current] = [] ++ [nameLine name first] := hlines
      obtain ⟨rfl, hcurrent⟩ := List.append_inj' hsingle rfl
      obtain rfl := (List.cons.inj hcurrent).1
      exact ⟨first ++ [token], [], rfl, List.not_mem_nil⟩
    · rw [List.concat_eq_append, List.map_append, ← List.cons_append] at hlines
      obtain ⟨rfl, hcurrent⟩ := List.append_inj' hlines rfl
      obtain rfl := (List.cons.inj hcurrent).1
      refine ⟨first, before ++ [last ++ [token]], ?_, ?_⟩
      · rw [List.map_append, ← List.cons_append]
        rfl
      · rw [List.concat_eq_append, List.mem_append] at hne
        rw [List.mem_append]
        exact not_or.2 ⟨(not_or.1 hne).1, by simp⟩
  | @fold tokens closed current token _ _ _ ih =>
    obtain ⟨first, rest, hlines, hne⟩ := ih
    refine ⟨first, rest ++ [[token]], ?_, ?_⟩
    · rw [hlines, List.map_append, ← List.cons_append]
      rfl
    · rw [List.mem_append]
      exact not_or.2 ⟨hne, by simp⟩

theorem Layout.bounded (h : Layout name tokens closed current) :
    ∀ line ∈ closed ++ [current], line.Bounded name := by
  induction h with
  | start =>
    intro line hline
    obtain rfl := List.mem_singleton.1 hline
    exact ⟨Or.inr (Or.inl rfl), Or.inr rfl⟩
  | @same tokens closed current token _ _ hfits ih =>
    refine List.forall_mem_append.2 ⟨fun line hline => ih line (List.mem_append_left _ hline), ?_⟩
    intro line hline
    obtain rfl := List.mem_singleton.1 hline
    have hlength : (TokenLine.mk current.start (current.tokens ++ [token])).bytes.length ≤
        recommendedHeaderLineLength := by
      rw [TokenLine.bytes_concat, List.length_append, List.length_cons, Utf8.length_encode]
      omega
    exact ⟨Or.inl hlength, Or.inl (hlength.trans (by decide))⟩
  | @fold tokens closed current token _ _ hlimit ih =>
    refine List.forall_mem_append.2 ⟨ih, ?_⟩
    intro line hline
    obtain rfl := List.mem_singleton.1 hline
    have hlength : (foldedLine [token]).bytes.length = 1 + Utf8.len token := by
      rw [foldedLine_bytes, List.length_cons, Utf8.length_encode]
      omega
    refine ⟨?_, Or.inl ?_⟩
    · by_cases hlong : recommendedHeaderLineLength < 1 + Utf8.len token
      · exact Or.inr (Or.inr ⟨token, rfl, hlong⟩)
      · exact Or.inl (by omega)
    · unfold maxWireLineLength at hlimit ⊢
      omega

theorem Layout.isHeaderText (h : Layout name tokens closed current) :
    ∀ token ∈ tokens, IsHeaderText token := by
  induction h with
  | start => exact fun token hmem => absurd hmem List.not_mem_nil
  | same _ htext _ ih =>
    exact List.forall_mem_append.2 ⟨ih, fun token hmem => List.mem_singleton.1 hmem ▸ htext⟩
  | fold _ htext _ ih =>
    exact List.forall_mem_append.2 ⟨ih, fun token hmem => List.mem_singleton.1 hmem ▸ htext⟩

/-! ## The header -/

theorem not_mem_encode {text : Str} (h : '\r' ∉ text) : 0x0D ∉ Utf8.encode text := by
  intro hmem
  obtain ⟨c, hc, hcode⟩ := Utf8.mem_encode_ascii hmem (by decide)
  obtain rfl : c = '\r' := Char.toNat_inj.1 hcode
  exact h hc

theorem not_mem_of_isHeaderText {text : Str} (h : IsHeaderText text) : '\r' ∉ text := by
  intro hmem
  exact absurd (h '\r' hmem) (by decide)

theorem not_mem_spaced (h : ∀ token ∈ tokens, IsHeaderText token) : 0x0D ∉ spaced tokens := by
  intro hmem
  obtain ⟨token, htoken, hmem⟩ := List.mem_flatMap.1 hmem
  rcases List.mem_cons.1 hmem with heq | hmem
  · exact absurd heq (by decide)
  · exact not_mem_encode (not_mem_of_isHeaderText (h token htoken)) hmem

theorem spaced_eq_encode (tokens : List Str) :
    spaced tokens = Utf8.encode (tokens.flatMap (' ' :: ·)) := by
  induction tokens with
  | nil => rfl
  | cons token tokens ih =>
    show 0x20 :: Utf8.encode token ++ spaced tokens = _
    rw [ih, List.flatMap_cons, Utf8.encode_append, Utf8.encode_cons_ascii (by decide)]
    rfl

theorem spaced_flatten (groups : List (List Str)) :
    (groups.map fun group => (foldedLine group).bytes).flatten = spaced groups.flatten := by
  induction groups with
  | nil => rfl
  | cons group groups ih =>
    rw [List.map_cons, List.flatten_cons, ih, List.flatten_cons, spaced_append]
    rfl

/-- A header that is accepted, as its lines. -/
theorem writeTokenHeader_layout {out written : Bytes}
    (h : writeTokenHeader out name tokens = .ok written) :
    ∃ closed current, Layout name tokens closed current ∧
      written = out ++ joinLines ((closed ++ [current]).map TokenLine.bytes) := by
  have hstart : out ++ (Utf8.encode name ++ [0x3A]) =
      out ++ (joinLines (([] : List TokenLine).map TokenLine.bytes) ++
        (nameLine name []).bytes) := by
    show _ = out ++ ([] ++ (Utf8.encode name ++ [0x3A] ++ []))
    rw [List.nil_append, List.append_nil]
  have hend : ∀ (closed : List TokenLine) (current : TokenLine),
      out ++ (joinLines (closed.map TokenLine.bytes) ++ current.bytes) ++ crlf =
        out ++ joinLines ((closed ++ [current]).map TokenLine.bytes) := by
    intro closed current
    rw [List.map_append, joinLines_append, List.map_singleton, joinLines_cons, joinLines_nil,
      List.append_nil, List.append_assoc, List.append_assoc]
  unfold writeTokenHeader at h
  split at h
  · next hnone =>
    obtain rfl := Except.ok.inj h
    subst hnone
    exact ⟨[], nameLine name [], Layout.start, by rw [hstart, hend]⟩
  · obtain ⟨state, hrun, h⟩ := bind_eq_ok.1 h
    obtain rfl := Except.ok.inj h
    obtain ⟨closed, current, hlayout, hout⟩ :=
      run_layout Layout.start hstart (nameLine_bytes_length name).symm hrun
    exact ⟨closed, current, hlayout, by rw [hout, hend]⟩

/-- **Folding a header.** The tokens stand on the lines of the header in their order, and unfolding
the header gives the name and the tokens with single spaces before them. Only a line with one token
and the line of a long name are too long: the name stays alone where the first token does not fit
behind it. -/
theorem token_header_folds (out : Bytes) (name : Str) (tokens : List Str) (written : Bytes)
    (hname : '\r' ∉ name) (h : writeTokenHeader out name tokens = .ok written) :
    ∃ (header : Bytes) (first : List Str) (rest : List (List Str)), written = out ++ header ∧
      unfold header = Utf8.encode (name ++ ':' :: tokens.flatMap (' ' :: ·)) ++ crlf ∧
      first ++ rest.flatten = tokens ∧ [] ∉ rest ∧
      wireLines header = (nameLine name first :: rest.map foldedLine).map TokenLine.bytes ∧
      ∀ line ∈ nameLine name first :: rest.map foldedLine, line.Bounded name := by
  obtain ⟨closed, current, hlayout, hwritten⟩ := writeTokenHeader_layout h
  obtain ⟨first, rest, hlines, hne⟩ := hlayout.starts
  have htokens : first ++ rest.flatten = tokens := by
    rw [← hlayout.flatMap_tokens, hlines, List.flatMap_cons, List.flatMap_map]
    exact congrArg (first ++ ·) List.flatMap_id.symm
  -- Every token was checked when it was written, so no line has a CR of its own.
  have htext := hlayout.isHeaderText
  rw [← htokens] at htext
  have hfirst : 0x0D ∉ (nameLine name first).bytes := by
    -- The further lines start with the space before their first token: that is what folding means.
    have hspaced := not_mem_spaced fun token htoken => htext token (List.mem_append_left _ htoken)
    have hcode := not_mem_encode hname
    unfold nameLine TokenLine.bytes
    simp only [List.mem_append, List.mem_singleton]
    exact not_or.2 ⟨not_or.2 ⟨hcode, by decide⟩, hspaced⟩
  have hrest : ∀ line ∈ rest.map fun group => (foldedLine group).bytes, 0x0D ∉ line := by
    intro line hline
    obtain ⟨group, hgroup, rfl⟩ := List.mem_map.1 hline
    exact not_mem_spaced fun token htoken =>
      htext token (List.mem_append_right _ (List.mem_flatten.2 ⟨group, hgroup, htoken⟩))
  have hspace : ∀ line ∈ rest.map fun group => (foldedLine group).bytes,
      line.head? = some 0x20 ∨ line.head? = some 0x09 := by
    intro line hline
    obtain ⟨group, hgroup, rfl⟩ := List.mem_map.1 hline
    cases group with
    | nil => exact absurd hgroup hne
    | cons token group => exact Or.inl rfl
  have hbytes : (nameLine name first :: rest.map foldedLine).map TokenLine.bytes =
      (nameLine name first).bytes :: rest.map fun group => (foldedLine group).bytes := by
    rw [List.map_cons, List.map_map]
    rfl
  rw [hlines, hbytes] at hwritten
  refine ⟨_, first, rest, hwritten, ?_, htokens, hne, ?_, hlines ▸ hlayout.bounded⟩
  · rw [unfold_joinLines_cons hfirst hrest hspace, spaced_flatten, ← htokens, Utf8.encode_append,
      Utf8.encode_cons_ascii (by decide), ← spaced_eq_encode, spaced_append]
    show Utf8.encode name ++ [0x3A] ++ spaced first ++ (spaced rest.flatten ++ crlf) =
      Utf8.encode name ++ (0x3A :: (spaced first ++ spaced rest.flatten)) ++ crlf
    simp only [List.append_assoc, List.cons_append, List.nil_append]
  · rw [hbytes]
    exact wireLines_joinLines (List.forall_mem_cons.2 ⟨hfirst, hrest⟩)

def longName : Str := List.replicate 78 'X'

/-- The name of a header is on a line of its own where nothing fits after it, however long. -/
theorem long_name_line :
    ¬ ∀ (name : Str) (tokens : List Str) (written : Bytes), '\r' ∉ name →
      writeTokenHeader [] name tokens = .ok written →
      ∀ line ∈ wireLines written, line.length ≤ 78 ∨
        ∃ token ∈ tokens, line = 0x20 :: Utf8.encode token := by
  intro h
  have hwritten : writeTokenHeader [] longName [['a']] =
      .ok (List.replicate 78 0x58 ++ [0x3A, 0x0D, 0x0A, 0x20, 0x61, 0x0D, 0x0A]) := by rfl
  have hline : List.replicate 78 0x58 ++ [0x3A] ∈
      wireLines (List.replicate 78 0x58 ++ [0x3A, 0x0D, 0x0A, 0x20, 0x61, 0x0D, 0x0A]) := by
    decide +kernel
  rcases h longName [['a']] _ (by decide +kernel) hwritten _ hline with hlength | ⟨token, _, heq⟩
  · exact absurd hlength (by decide)
  · exact absurd (congrArg List.head? heq) (by simp [List.replicate])

theorem token_header_folds_subject :
    ∃ (header : Bytes) (first : List Str) (rest : List (List Str)),
      Utf8.encode "Subject: a bc\r\n".toList = [] ++ header ∧
      unfold header = Utf8.encode ("Subject".toList ++ ':' ::
        ["a".toList, "bc".toList].flatMap (' ' :: ·)) ++ crlf ∧
      first ++ rest.flatten = ["a".toList, "bc".toList] ∧ [] ∉ rest ∧
      wireLines header =
        (nameLine "Subject".toList first :: rest.map foldedLine).map TokenLine.bytes ∧
      ∀ line ∈ nameLine "Subject".toList first :: rest.map foldedLine,
        line.Bounded "Subject".toList :=
  token_header_folds [] "Subject".toList ["a".toList, "bc".toList] _ (by decide) (by rfl)

end Notm.Mail
