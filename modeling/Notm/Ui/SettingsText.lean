import Notm.Lib.BTreeMap
import Notm.Lib.Rust

/-!
# Lists and maps in the entries of the settings dialog

The dialog shows a list of strings or a map of them in one entry, with a comma between its elements,
and reads the entry back by splitting it at commas and line ends. Nothing is escaped, so that an
element comes back as it was only when it is free of these and of white space around it.

* `Plain`, `PlainEnvEntry` — the elements that an entry of the dialog gives back.
* `splitOnP_joinStringList` — a joined list is split into its elements when none has a separator.
* `mem_parseStringList_iff` — and only then.
-/

namespace Notm.Ui

open Rust

def joinStringList (values : List Str) : Str := List.intercalate ", ".toList values

/-- What an entry is split at. -/
def isSeparator (c : Char) : Bool := c == ',' || c == '\n'

/-- The items of a list, separated by commas or line breaks; blanks around them and empty items are
dropped. -/
def parseStringList (value : Str) : List Str :=
  ((value.splitOnP isSeparator).map trim).filter (!·.isEmpty)

/-- `key=value`. -/
def formatEnvEntry (entry : Str × Str) : Str := entry.1 ++ '=' :: entry.2

/-- The variables in the order of their names. -/
def formatEnvMap (values : BTreeMap Str Str) : Str :=
  joinStringList (values.entries.map formatEnvEntry)

/-- An item without an equals sign is dropped. -/
def parseEnvItem (item : Str) : Option (Str × Str) :=
  (splitOnce (trim item) '=').map fun entry => (trim entry.1, trim entry.2)

/-- A name that stands twice has the later value, and a variable without a name is dropped. -/
def parseEnvMap (value : Str) : BTreeMap Str Str :=
  .ofList (((value.splitOnP isSeparator).filterMap parseEnvItem).filter (!·.1.isEmpty))

/-! ## Trimmed texts -/

theorem trim_eq_self_iff {s : Str} :
    trim s = s ↔ (∀ c, s.head? = some c → isWhitespace c = false) ∧
      ∀ c, s.getLast? = some c → isWhitespace c = false := by
  unfold trim trimEnd trimStart
  constructor
  · intro h
    have hstart : s.dropWhile isWhitespace = s := by
      apply (List.dropWhile_suffix isWhitespace).eq_of_length_le
      calc s.length = ((s.dropWhile isWhitespace).rdropWhile isWhitespace).length := by rw [h]
        _ ≤ (s.dropWhile isWhitespace).length := (List.rdropWhile_prefix isWhitespace _).length_le
    rw [hstart, List.rdropWhile_eq_self_iff] at h
    rw [List.dropWhile_eq_self_iff] at hstart
    constructor
    · intro c hc
      obtain ⟨rest, rfl⟩ := List.head?_eq_some_iff.1 hc
      simpa using hstart (Nat.succ_pos _)
    · intro c hc
      obtain ⟨before, rfl⟩ := List.getLast?_eq_some_iff.1 hc
      simpa using h (by simp)
  · rintro ⟨hhead, hlast⟩
    have hstart : s.dropWhile isWhitespace = s := by
      cases s with
      | nil => rfl
      | cons c rest =>
        rw [List.dropWhile_cons_of_neg]
        simp [hhead c rfl]
    rw [hstart, List.rdropWhile_eq_self_iff]
    intro hne
    simp [hlast _ (List.getLast?_eq_some_getLast hne)]

/-- No white space is at either end. -/
def isTrimmed (s : Str) : Bool :=
  s.head?.all (!isWhitespace ·) && s.getLast?.all (!isWhitespace ·)

theorem isTrimmed_iff {s : Str} : isTrimmed s = true ↔ trim s = s := by
  unfold isTrimmed
  rw [trim_eq_self_iff, Bool.and_eq_true]
  cases s.head? <;> cases s.getLast? <;> simp

theorem trim_trim (s : Str) : trim (trim s) = trim s := by
  rw [trim_eq_self_iff]
  constructor
  · intro c hc
    -- the text after `trimStart` begins with this character
    have hearlier : trim s <+: trimStart s := List.rdropWhile_prefix isWhitespace _
    obtain ⟨rest, hrest⟩ := List.head?_eq_some_iff.1 hc
    obtain ⟨suffix, hsuffix⟩ := hearlier
    rw [hrest] at hsuffix
    have hne : trimStart s ≠ [] := by
      rw [← hsuffix]
      exact List.cons_ne_nil _ _
    have hnot := List.head_dropWhile_not isWhitespace hne
    have hhead : (trimStart s).head hne = c := by
      simp only [← hsuffix, List.cons_append, List.head_cons]
    unfold trimStart at hhead
    rwa [hhead] at hnot
  · intro c hc
    have hne : trim s ≠ [] := by
      intro hnil
      rw [hnil] at hc
      cases hc
    have hnot := List.rdropWhile_last_not isWhitespace (trimStart s) hne
    rw [List.getLast?_eq_some_getLast hne] at hc
    obtain rfl := Option.some.inj hc
    simpa [trim, trimEnd] using hnot

theorem trim_cons_of_whitespace {c : Char} (h : isWhitespace c = true) (s : Str) :
    trim (c :: s) = trim s := by
  unfold trim trimStart
  rw [List.dropWhile_cons_of_pos h]

theorem mem_of_mem_trim {c : Char} {s : Str} (h : c ∈ trim s) : c ∈ s :=
  (infix_of_trim s).subset h

/-! ## Splitting -/

/-- No piece has a separator. -/
theorem not_separator_of_mem_split {value piece : Str} (h : piece ∈ value.splitOnP isSeparator) :
    ∀ c ∈ piece, isSeparator c = false := by
  induction value generalizing piece with
  | nil =>
    obtain rfl := List.mem_singleton.1 h
    exact fun c hmem => nomatch hmem
  | cons first rest ih =>
    rw [List.splitOnP_cons_eq_if_modifyHead] at h
    split at h
    · rcases List.mem_cons.1 h with rfl | h
      · exact fun c hmem => nomatch hmem
      · exact ih h
    · rename_i hfirst
      obtain ⟨head, tail, hsplit⟩ :=
        List.exists_cons_of_ne_nil (List.splitOnP_ne_nil isSeparator rest)
      rw [hsplit, List.modifyHead_cons] at h
      rw [hsplit] at ih
      rcases List.mem_cons.1 h with rfl | h
      · intro c hmem
        rcases List.mem_cons.1 hmem with rfl | hmem
        · exact Bool.not_eq_true _ ▸ hfirst
        · exact ih List.mem_cons_self c hmem
      · exact ih (List.mem_cons_of_mem _ h)

/-- A joined list is split into its elements when none of them has a separator; the space behind a
comma stays. -/
theorem splitOnP_joinStringList {first : Str} {rest : List Str}
    (h : ∀ item ∈ first :: rest, ∀ c ∈ item, isSeparator c = false) :
    (joinStringList (first :: rest)).splitOnP isSeparator = first :: rest.map (' ' :: ·) := by
  induction rest generalizing first with
  | nil =>
    have hjoin : joinStringList [first] = first := by simp [joinStringList]
    rw [hjoin, List.splitOnP_eq_singleton (h first List.mem_cons_self)]
    rfl
  | cons second rest ih =>
    have hjoin : joinStringList (first :: second :: rest) =
        first ++ ',' :: ' ' :: joinStringList (second :: rest) := by
      simp [joinStringList, List.intercalate_cons_cons]
    have htail := ih fun item hmem => h item (List.mem_cons_of_mem _ hmem)
    rw [hjoin, List.splitOnP_append_cons_of_forall_mem (h first List.mem_cons_self) ',' rfl,
      List.splitOnP_cons_eq_if_modifyHead, if_neg (by decide), htail]
    rfl

/-! ## Lists -/

/-- A text that an entry of the dialog gives back. -/
structure Plain (item : Str) : Prop where
  ne_nil : item ≠ []
  trimmed : trim item = item
  unseparated : ∀ c ∈ item, isSeparator c = false

theorem all_unseparated {s : Str} :
    s.all (!isSeparator ·) = true ↔ ∀ c ∈ s, isSeparator c = false := by
  simp only [List.all_eq_true, Bool.not_eq_true']

instance (item : Str) : Decidable (Plain item) :=
  decidable_of_iff (item ≠ [] ∧ isTrimmed item = true ∧ item.all (!isSeparator ·) = true)
    ⟨fun h => ⟨h.1, isTrimmed_iff.1 h.2.1, all_unseparated.1 h.2.2⟩,
      fun h => ⟨h.ne_nil, isTrimmed_iff.2 h.trimmed, all_unseparated.2 h.unseparated⟩⟩

theorem plain_of_mem_parseStringList {value item : Str} (h : item ∈ parseStringList value) :
    Plain item := by
  obtain ⟨hmem, hne⟩ := List.mem_filter.1 h
  obtain ⟨piece, hpiece, rfl⟩ := List.mem_map.1 hmem
  refine ⟨by simpa using hne, trim_trim piece, fun c hc => ?_⟩
  exact not_separator_of_mem_split hpiece c (mem_of_mem_trim hc)

theorem trim_pieces {first : Str} {rest : List Str} :
    (first :: rest.map (' ' :: ·)).map trim = (first :: rest).map trim := by
  have hspace : ∀ item : Str, trim (' ' :: item) = trim item :=
    trim_cons_of_whitespace (by decide)
  simp [hspace]

theorem parseStringList_joinStringList {values : List Str} (h : ∀ item ∈ values, Plain item) :
    parseStringList (joinStringList values) = values := by
  cases values with
  | nil => rfl
  | cons first rest =>
    unfold parseStringList
    rw [splitOnP_joinStringList fun item hmem => (h item hmem).unseparated, trim_pieces]
    have htrim : (first :: rest).map trim = first :: rest :=
      (List.map_congr_left fun item hmem => (h item hmem).trimmed).trans (List.map_id' _)
    rw [htrim, List.filter_eq_self]
    intro item hmem
    simpa using (h item hmem).ne_nil

/-- The elements that come back are those of the list exactly when all of these are plain, also when
neither their order nor repetitions count. -/
theorem mem_parseStringList_iff {values : List Str} :
    (∀ item, item ∈ parseStringList (joinStringList values) ↔ item ∈ values) ↔
      ∀ item ∈ values, Plain item := by
  constructor
  · exact fun h item hmem => plain_of_mem_parseStringList ((h item).2 hmem)
  · intro h item
    rw [parseStringList_joinStringList h]

theorem parseStringList_joinStringList_iff {values : List Str} :
    parseStringList (joinStringList values) = values ↔ ∀ item ∈ values, Plain item := by
  constructor
  · intro h
    apply mem_parseStringList_iff.1
    intro item
    rw [h]
  · exact parseStringList_joinStringList

/-! ## Maps -/

/-- An entry of the environment that the dialog gives back. -/
structure PlainEnvEntry (entry : Str × Str) : Prop where
  key_ne_nil : entry.1 ≠ []
  key_trimmed : trim entry.1 = entry.1
  key_unseparated : ∀ c ∈ entry.1, isSeparator c = false
  key_assigned : '=' ∉ entry.1
  value_trimmed : trim entry.2 = entry.2
  value_unseparated : ∀ c ∈ entry.2, isSeparator c = false

instance (entry : Str × Str) : Decidable (PlainEnvEntry entry) :=
  decidable_of_iff (entry.1 ≠ [] ∧ isTrimmed entry.1 = true ∧
      entry.1.all (!isSeparator ·) = true ∧ '=' ∉ entry.1 ∧ isTrimmed entry.2 = true ∧
      entry.2.all (!isSeparator ·) = true)
    ⟨fun h => ⟨h.1, isTrimmed_iff.1 h.2.1, all_unseparated.1 h.2.2.1, h.2.2.2.1,
        isTrimmed_iff.1 h.2.2.2.2.1, all_unseparated.1 h.2.2.2.2.2⟩,
      fun h => ⟨h.key_ne_nil, isTrimmed_iff.2 h.key_trimmed, all_unseparated.2 h.key_unseparated,
        h.key_assigned, isTrimmed_iff.2 h.value_trimmed, all_unseparated.2 h.value_unseparated⟩⟩

theorem plain_of_mem_parseEnvMap {value : Str} {entry : Str × Str}
    (h : entry ∈ (parseEnvMap value).entries) : PlainEnvEntry entry := by
  obtain ⟨hmem, hne⟩ := List.mem_filter.1 (BTreeMap.mem_of_mem_ofList h)
  obtain ⟨piece, hpiece, hitem⟩ := List.mem_filterMap.1 hmem
  obtain ⟨⟨key, value⟩, hsplit, rfl⟩ := Option.map_eq_some_iff.1 hitem
  have hunseparated : ∀ c ∈ trim piece, isSeparator c = false := fun c hc =>
    not_separator_of_mem_split hpiece c (mem_of_mem_trim hc)
  unfold splitOnce at hsplit
  split at hsplit
  · obtain ⟨rfl, rfl⟩ := Prod.mk.inj (Option.some.inj hsplit)
    refine ⟨by simpa using hne, trim_trim _, fun c hc => ?_, fun hc => ?_, trim_trim _,
      fun c hc => ?_⟩
    · exact hunseparated c ((List.takeWhile_sublist _).subset (mem_of_mem_trim hc))
    · simpa using List.mem_takeWhile_imp (mem_of_mem_trim hc)
    · apply hunseparated c
      exact (List.dropWhile_suffix _).subset ((List.tail_subset _) (mem_of_mem_trim hc))
  · cases hsplit

variable {entry : Str × Str}

theorem PlainEnvEntry.unseparated (h : PlainEnvEntry entry) :
    ∀ c ∈ formatEnvEntry entry, isSeparator c = false := by
  intro c hc
  rcases List.mem_append.1 hc with hc | hc
  · exact h.key_unseparated c hc
  · rcases List.mem_cons.1 hc with rfl | hc
    · rfl
    · exact h.value_unseparated c hc

theorem PlainEnvEntry.trimmed (h : PlainEnvEntry entry) :
    trim (formatEnvEntry entry) = formatEnvEntry entry := by
  obtain ⟨key, value⟩ := entry
  obtain ⟨first, rest, rfl⟩ := List.exists_cons_of_ne_nil h.key_ne_nil
  rw [trim_eq_self_iff]
  constructor
  · intro c hc
    exact (trim_eq_self_iff.1 h.key_trimmed).1 c hc
  · intro c hc
    have hlast : (first :: rest ++ '=' :: value).getLast? = ('=' :: value).getLast? := by
      rw [List.getLast?_append, List.getLast?_cons]
      rfl
    rw [formatEnvEntry, hlast] at hc
    cases value with
    | nil =>
      obtain rfl := Option.some.inj hc
      rfl
    | cons second value =>
      rw [List.getLast?_cons_cons] at hc
      exact (trim_eq_self_iff.1 h.value_trimmed).2 c hc

theorem PlainEnvEntry.parse (h : PlainEnvEntry entry) :
    parseEnvItem (formatEnvEntry entry) = some entry := by
  have hsplit : splitOnce (formatEnvEntry entry) '=' = some entry := by
    have hall : ∀ c ∈ entry.1, decide (c ≠ '=') = true := by
      intro c hc
      have hne : c ≠ '=' := by
        rintro rfl
        exact h.key_assigned hc
      exact decide_eq_true hne
    unfold splitOnce formatEnvEntry
    rw [if_pos (by simp), List.takeWhile_append_of_pos hall, List.dropWhile_append_of_pos hall]
    simp
  unfold parseEnvItem
  rw [h.trimmed, hsplit]
  show some (trim entry.1, trim entry.2) = some entry
  rw [h.key_trimmed, h.value_trimmed]

theorem parseEnvItem_space (item : Str) : parseEnvItem (' ' :: item) = parseEnvItem item := by
  unfold parseEnvItem
  rw [trim_cons_of_whitespace (by decide)]

theorem parseEnvMap_formatEnvMap {values : BTreeMap Str Str}
    (h : ∀ entry ∈ values.entries, PlainEnvEntry entry) :
    parseEnvMap (formatEnvMap values) = values := by
  have hitems : ((formatEnvMap values).splitOnP isSeparator).filterMap parseEnvItem =
      values.entries := by
    unfold formatEnvMap
    cases hentries : values.entries with
    | nil => rfl
    | cons first rest =>
      rw [hentries] at h
      have hunseparated : ∀ item ∈ (first :: rest).map formatEnvEntry, ∀ c ∈ item,
          isSeparator c = false := by
        intro item hmem
        obtain ⟨entry, hentry, rfl⟩ := List.mem_map.1 hmem
        exact (h entry hentry).unseparated
      rw [List.map_cons] at hunseparated ⊢
      rw [splitOnP_joinStringList hunseparated, List.filterMap_cons,
        (h first List.mem_cons_self).parse]
      show first :: ((rest.map formatEnvEntry).map (' ' :: ·)).filterMap parseEnvItem =
        first :: rest
      rw [List.map_map, List.filterMap_map]
      congr 1
      calc rest.filterMap (parseEnvItem ∘ ((' ' :: ·) ∘ formatEnvEntry))
          = rest.filterMap some := by
            apply List.filterMap_congr
            intro entry hmem
            show parseEnvItem (' ' :: formatEnvEntry entry) = some entry
            rw [parseEnvItem_space, (h entry (List.mem_cons_of_mem _ hmem)).parse]
        _ = rest := List.filterMap_some
  unfold parseEnvMap
  have hkeys : values.entries.filter (!·.1.isEmpty) = values.entries := by
    rw [List.filter_eq_self]
    intro entry hmem
    simpa using (h entry hmem).key_ne_nil
  rw [hitems, hkeys, BTreeMap.ofList_entries]

theorem parseEnvMap_formatEnvMap_iff {values : BTreeMap Str Str} :
    parseEnvMap (formatEnvMap values) = values ↔ ∀ entry ∈ values.entries, PlainEnvEntry entry := by
  constructor
  · intro h entry hmem
    rw [← h] at hmem
    exact plain_of_mem_parseEnvMap hmem
  · exact parseEnvMap_formatEnvMap

end Notm.Ui
