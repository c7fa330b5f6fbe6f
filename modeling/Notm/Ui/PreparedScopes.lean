import Notm.Mail.CidScopes
import Notm.Mail.Message
import Notm.Mail.ReferenceCrates

/-!
# The HTML scopes that the loader prepares

`prepared_html_cid_part_scopes` checks the scopes of a parsed message against its HTML body
before it sanitizes the body scope by scope, and falls back to one scope without candidates when
they do not fit. For a message that `parse_rfc5322` returns they always fit.

* `foldlM_checkScope` — scopes that cover the text pass the check.
* `ScopeProvenance` — where a scope comes from: one leaf of the message, with its related parts.
* `htmlCidPartScopes_cover` — the scopes of a parsed message.
-/

namespace Notm.Ui

open Rust Mail

/-- `PreparedHtmlCidPartScope`. -/
structure PreparedHtmlCidPartScope where
  start : Nat
  stop : Nat
  partIndexes : Option (List Nat)
  deriving DecidableEq, Repr

/-- One step of the `try_fold` of `prepared_html_cid_part_scopes`. -/
def checkScope (html : Str) (expectedStart : Nat) (scope : HtmlCidPartScope) : Option Nat :=
  if scope.start = expectedStart ∧ scope.start ≤ scope.stop ∧ scope.stop ≤ Utf8.len html ∧
      Utf8.isCharBoundary html scope.start ∧ Utf8.isCharBoundary html scope.stop then
    some scope.stop
  else none

/-- `valid_scopes` of `prepared_html_cid_part_scopes`. -/
def validScopes (html : Str) (scopes : List HtmlCidPartScope) : Bool :=
  decide (scopes ≠ []) && scopes.foldlM (checkScope html) 0 == some (Utf8.len html)

/-- `prepared_html_cid_part_scopes`. -/
def preparedHtmlCidPartScopes (html : Str) (scopes : List HtmlCidPartScope) :
    List PreparedHtmlCidPartScope :=
  if validScopes html scopes then
    scopes.map fun scope => ⟨scope.start, scope.stop, scope.partIndexes⟩
  else [⟨0, Utf8.len html, if scopes ≠ [] then some [] else none⟩]

/-- Scopes that cover the text from `offset` on pass the check. -/
theorem foldlM_checkScope {html : Str} {offset : Nat} {scopes : List HtmlCidPartScope}
    (h : Covers html offset scopes) :
    scopes.foldlM (checkScope html) offset = some (Utf8.len html) ∧ offset ≤ Utf8.len html := by
  induction scopes generalizing offset with
  | nil => exact ⟨congrArg some h, Nat.le_of_eq h⟩
  | cons scope scopes ih =>
    obtain ⟨hstart, hle, hfirst, hlast, hrest⟩ := h
    obtain ⟨hfold, hstop⟩ := ih hrest
    refine ⟨?_, by omega⟩
    rw [List.foldlM_cons, checkScope, if_pos ⟨hstart, hle, hstop, hfirst, hlast⟩]
    exact hfold

/-- The provenance of a scope of a parsed message: it holds the text of an HTML leaf, and looks
up the attachments beside the root of the `multipart/related` around the leaf, nearest first. -/
structure ScopeProvenance (crates : Crates) (parsed : ParsedMail) (message : ParsedMessage)
    (html : Str) (scope : HtmlCidPartScope) : Prop where
  leaf : ∃ body groups, HtmlBelow crates parsed false 0 body groups ∧
    HoldsFragment html scope ⟨body, lookupIndexes groups⟩
  nodup : ∀ indexes, scope.partIndexes = some indexes → indexes.Nodup
  attachments : ∀ indexes, scope.partIndexes = some indexes → ∀ n ∈ indexes,
    ∃ attachment ∈ message.attachments, attachment.partIndex = n

variable {crates : Crates}

/-- **The scopes of a parsed message** lie end to end over its HTML body on character boundaries,
each with the provenance of one HTML leaf, and the loader takes them as they are. -/
theorem htmlCidPartScopes_cover {bytes : Bytes} {limits : MimeLimits} {message : ParsedMessage}
    (h : parseRfc5322WithLimits crates bytes limits = .ok message) :
    (message.htmlBody = none → message.htmlCidPartScopes = []) ∧
    ∀ html, message.htmlBody = some html →
      message.htmlCidPartScopes ≠ [] ∧ Covers html 0 message.htmlCidPartScopes ∧
      (∃ parsed, crates.parseMail bytes = .ok parsed ∧
        ∀ scope ∈ message.htmlCidPartScopes, ScopeProvenance crates parsed message html scope) ∧
      preparedHtmlCidPartScopes html message.htmlCidPartScopes =
        message.htmlCidPartScopes.map fun scope =>
          ⟨scope.start, scope.stop, scope.partIndexes⟩ := by
  obtain ⟨parsed, selection, state, hparse, hwalk, hhtml, hscopes, hattachments⟩ :=
    parseRfc5322WithLimits_eq_ok h
  obtain ⟨⟨fs, hfs, hjoined, hfrom⟩, hnext, hindexes⟩ := walkPart_assembled parsed hwalk
  rw [hhtml, hscopes, hjoined, hfrom]
  constructor
  · -- Without a body there was no fragment, and so there is no scope.
    intro hnone
    have hnil : fs = [] := by
      by_contra hne
      rw [htmlOf_of_ne_nil hne] at hnone
      exact absurd hnone (by simp)
    rw [hnil]
    rfl
  · intro html hsome
    have hne : fs ≠ [] := by
      rintro rfl
      exact absurd hsome (by simp)
    rw [htmlOf_of_ne_nil hne, Option.some.injEq] at hsome
    subst hsome
    have hcovers := covers_scopesFrom [] hne
    rw [List.nil_append, Utf8.len_nil] at hcovers
    refine ⟨scopesFrom_ne_nil hne, hcovers,
      ⟨parsed, (parseStructure_eq_ok hparse).2.2, fun scope hscope => ?_⟩, ?_⟩
    · -- A scope is that of one fragment, and its parts are those of the groups around that
      -- fragment.
      obtain ⟨f, hf, hholds⟩ := exists_fragment_of_mem_scopesFrom [] hscope
      obtain ⟨groups, hbelow, hlookup⟩ := hfs f hf
      rw [List.nil_append] at hholds
      have hgroups : ∀ indexes, scope.partIndexes = some indexes → indexes = groups.flatten := by
        intro indexes hsome
        rw [hholds.1, hlookup, lookupIndexes] at hsome
        split at hsome
        · exact absurd hsome (by simp)
        · exact (Option.some.inj hsome).symm
      refine ⟨⟨f.body, groups, hbelow, hlookup ▸ hholds⟩, fun indexes hsome => ?_,
        fun indexes hsome n hn => ?_⟩
      · rw [hgroups indexes hsome]
        exact hbelow.indexes.1
      · rw [hgroups indexes hsome] at hn
        have hbounds := hbelow.indexes.2 n hn
        have hmem : n ∈ state.attachments.map (·.partIndex) := by
          rw [hindexes, ParseState.new, List.map_nil, List.nil_append, List.mem_range'_1]
          exact hbounds
        obtain ⟨attachment, hattachment, hindex⟩ := List.mem_map.mp hmem
        exact ⟨attachment, hattachments ▸ hattachment, hindex⟩
    · have hvalid : validScopes (joinBodies fs) (scopesFrom 0 fs) = true := by
        rw [validScopes, (foldlM_checkScope hcovers).1, decide_eq_true (scopesFrom_ne_nil hne)]
        exact beq_self_eq_true _
      rw [preparedHtmlCidPartScopes, if_pos hvalid]

/-- An HTML body with an image beside it. -/
def relatedMessage : Bytes :=
  Utf8.encode ("Content-Type: multipart/related; boundary=x\r\n\r\n" ++
    "--x\r\nContent-Type: text/html\r\n\r\n<img src=cid:a>\r\n" ++
    "--x\r\nContent-Type: image/png\r\nContent-ID: <a>\r\n\r\nAAA\r\n--x--\r\n").toList

theorem htmlCidPartScopes_cover_relatedMessage :
    ∃ message, parseRfc5322WithLimits Reference.crates relatedMessage .default = .ok message ∧
      message.htmlCidPartScopes = [⟨0, 15, some [0]⟩] ∧
      ∀ html, message.htmlBody = some html → Covers html 0 message.htmlCidPartScopes := by
  obtain ⟨message, hmessage⟩ := exists_eq_ok
    (x := parseRfc5322WithLimits Reference.crates relatedMessage .default) (by decide +kernel)
  have hscopes : (parseRfc5322WithLimits Reference.crates relatedMessage .default).toOption.map
      (·.htmlCidPartScopes) = some [⟨0, 15, some [0]⟩] := by decide +kernel
  rw [hmessage] at hscopes
  exact ⟨message, hmessage, Option.some.inj hscopes,
    fun html hhtml => ((htmlCidPartScopes_cover hmessage).2 html hhtml).2.1⟩

end Notm.Ui
