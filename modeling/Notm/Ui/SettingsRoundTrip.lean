import Notm.Lib.Except
import Notm.Ui.SettingsDialog

/-!
# Saving the settings without an edit

A dialog that is saved as it was opened leaves the lists and maps of the configuration as they are
exactly when each of their elements is one that the entries give back. Everything else about saving
holds for every configuration: it succeeds, the file is accepted again and no other key changes.

* `SameLists` — the settings that pass through the texts of the dialog are the same.
* `plainLists_of_sameLists` — the reread lists are what the entries give back.
* `valid_reread`, `get?_savedRoot_unmanaged` — what holds for every configuration.
* `settings_round_trip_iff` — when an unchanged dialog changes nothing.
-/

namespace Notm.Ui

open Rust

/-! ## Numbers -/

theorem isDigit_digitChar {n : Nat} (h : n < 10) : isDigit n.digitChar = true := by
  unfold isDigit isAsciiDigit
  rw [Nat.toNat_digitChar_of_lt_ten h]
  simp only [Bool.and_eq_true, decide_eq_true_eq]
  omega

theorem natText_eq (n : Nat) : natText n = Nat.toDigits 10 n := Nat.toList_repr

theorem digits_natText (n : Nat) :
    (natText n).all isDigit = true ∧
      (natText n).foldl (fun value digit => value * 10 + (digit.toNat - 48)) 0 = n := by
  rw [natText_eq]
  induction n using Nat.strongRecOn with
  | ind n ih =>
    rw [Nat.toDigits_eq_if (by decide)]
    split
    · rename_i hlt
      simp only [List.all_cons, List.all_nil, Bool.and_true, List.foldl_cons, List.foldl_nil]
      exact ⟨isDigit_digitChar hlt, by rw [Nat.toNat_digitChar_of_lt_ten hlt]; omega⟩
    · rename_i hge
      have hlt : n % 10 < 10 := Nat.mod_lt n (by decide)
      obtain ⟨hall, hvalue⟩ := ih (n / 10) (Nat.div_lt_self (by omega) (by decide))
      rw [List.all_append, List.foldl_append, hvalue, hall]
      simp only [List.all_cons, List.all_nil, Bool.and_true, List.foldl_cons, List.foldl_nil,
        Bool.true_and]
      exact ⟨isDigit_digitChar hlt, by rw [Nat.toNat_digitChar_of_lt_ten hlt]; omega⟩

theorem natText_ne_nil (n : Nat) : natText n ≠ [] := by
  rw [natText_eq]
  exact Nat.toDigits_ne_nil

theorem not_whitespace_of_isDigit {c : Char} (h : isDigit c = true) : isWhitespace c = false := by
  unfold isDigit isAsciiDigit at h
  simp only [Bool.and_eq_true, decide_eq_true_eq] at h
  unfold isWhitespace
  simp only [Bool.or_eq_false_iff, Bool.and_eq_false_iff, decide_eq_false_iff_not,
    beq_eq_false_iff_ne, ne_eq]
  omega

theorem trim_natText (n : Nat) : trim (natText n) = natText n := by
  have hall := List.all_eq_true.1 (digits_natText n).1
  rw [trim_eq_self_iff]
  constructor
  · exact fun c hc => not_whitespace_of_isDigit (hall c (List.mem_of_mem_head? hc))
  · exact fun c hc => not_whitespace_of_isDigit (hall c (List.mem_of_mem_getLast? hc))

/-- A printed number is read back. -/
theorem parseUnsigned_natText {n : Nat} (h : n < 2 ^ 64) :
    parseUnsigned (trim (natText n)) = some n := by
  obtain ⟨hall, hvalue⟩ := digits_natText n
  rw [trim_natText]
  have hsign : (natText n).head? ≠ some '+' := by
    intro hc
    have hdigit := List.all_eq_true.1 hall '+' (List.mem_of_mem_head? hc)
    exact absurd hdigit (by decide)
  unfold parseUnsigned
  rw [if_neg hsign]
  simp only [hall, List.isEmpty_eq_false_iff.2 (natText_ne_nil n), hvalue, Bool.not_true,
    Bool.or_self, Bool.false_eq_true, if_false, if_pos h]

/-! ## Values of the written types -/

@[simp] theorem asStrings_array (values : List Str) :
    (TomlValue.array (values.map .string)).asStrings = some values := by
  show (values.map TomlValue.string).mapM TomlValue.asString = some values
  induction values with
  | nil => rfl
  | cons value rest ih =>
    rw [List.map_cons, List.mapM_cons, ih]
    rfl

@[simp] theorem asStringMap_table (values : BTreeMap Str Str) :
    (TomlValue.table (values.entries.map fun entry =>
      (String.ofList entry.1, .string entry.2))).asStringMap = some values := by
  have hentries : ∀ entries : List (Str × Str),
      (entries.map fun entry => (String.ofList entry.1, TomlValue.string entry.2)).mapM
        (fun (entry : String × TomlValue) => entry.2.asString.map (entry.1.toList, ·)) =
          some entries := by
    intro entries
    induction entries with
    | nil => rfl
    | cons entry rest ih =>
      rw [List.map_cons, List.mapM_cons, ih]
      simp [TomlValue.asString]
  show Option.map BTreeMap.ofList ((values.entries.map _).mapM _) = some values
  rw [hentries]
  simp

/-! ## What the writes do -/

theorem section?_insert (root entries : Table) (name other : String) :
    (root.insert name (.table entries)).section? other =
      if name = other then entries else root.section? other := by
  unfold Table.section?
  rw [Table.get?_insert]
  by_cases heq : name = other
  · rw [if_pos heq, if_pos heq]
  · rw [if_neg heq, if_neg heq]

theorem get?_apply (table : Table) (write : KeyWrite) (key : String) :
    (write.apply table).get? key = if write.key = key then write.value else table.get? key := by
  obtain ⟨name, value⟩ := write
  cases value with
  | none => exact Table.get?_remove
  | some value => exact Table.get?_insert

/-- The writes of a section change this section, one after the other. -/
theorem section?_applySection (root : Table) (name : String) (writes : List KeyWrite)
    (other : String) :
    (applySection root (name, writes)).section? other =
      if name = other then writes.foldl (fun table write => write.apply table)
        (root.section? name)
      else root.section? other := by
  unfold applySection
  induction writes generalizing root with
  | nil =>
    show root.section? other = if name = other then root.section? name else _
    split
    · rename_i heq
      rw [heq]
    · rfl
  | cons write rest ih =>
    rw [List.foldl_cons, ih, section?_insert, section?_insert, if_pos rfl]
    split
    · rfl
    · rfl

/-- The value of a key after the writes of its section: that of the last write to it. -/
def written (writes : List KeyWrite) (table : Table) (key : String) : Option TomlValue :=
  writes.foldl (fun value write => if write.key = key then write.value else value)
    (table.get? key)

theorem get?_foldl_apply (writes : List KeyWrite) (table : Table) (key : String) :
    (writes.foldl (fun table write => write.apply table) table).get? key =
      written writes table key := by
  unfold written
  induction writes generalizing table with
  | nil => rfl
  | cons write rest ih => rw [List.foldl_cons, ih, get?_apply, List.foldl_cons]

theorem written_of_not_mem {writes : List KeyWrite} {table : Table} {key : String}
    (h : key ∉ writes.map (·.key)) : written writes table key = table.get? key := by
  unfold written
  generalize table.get? key = value
  induction writes generalizing value with
  | nil => rfl
  | cons write rest ih =>
    rw [List.map_cons, List.mem_cons, not_or] at h
    rw [List.foldl_cons, if_neg (Ne.symm h.1)]
    exact ih h.2 value

variable (root : Table) (values : SettingsValues)

/-- The written file. -/
def savedRoot : Table := (settingsWrites values).foldl applySection root

theorem get?_savedRoot (name key : String) :
    ((savedRoot root values).section? name).get? key =
      match (settingsWrites values).find? (·.1 = name) with
      | some (_, writes) => written writes (root.section? name) key
      | none => (root.section? name).get? key := by
  have hfold : ∀ (sections : List (String × List KeyWrite)) (root : Table),
      (sections.map (·.1)).Nodup →
        ((sections.foldl applySection root).section? name).get? key =
          match sections.find? (·.1 = name) with
          | some (_, writes) => written writes (root.section? name) key
          | none => (root.section? name).get? key := by
    intro sections
    induction sections with
    | nil => exact fun root _ => rfl
    | cons first rest ih =>
      intro root hnodup
      obtain ⟨section', writes⟩ := first
      obtain ⟨hnot, hrest⟩ := List.nodup_cons.1 hnodup
      rw [List.foldl_cons, ih _ hrest, section?_applySection]
      by_cases heq : section' = name
      · subst heq
        have hnone : rest.find? (·.1 = section') = none := by
          rw [List.find?_eq_none]
          intro entry hmem hname
          exact hnot (List.mem_map.2 ⟨entry, hmem, by simpa using hname⟩)
        rw [hnone, List.find?_cons_of_pos (by simp), if_pos rfl]
        exact get?_foldl_apply writes _ key
      · rw [List.find?_cons_of_neg (by simpa using heq), if_neg heq]
  exact hfold _ root (by simp [settingsWrites])

/-! ## The written file is accepted -/

/-- The write sets its key, if it does, to a value of the type of the key. -/
def KeyWrite.Fits (keys : KeyTypes) (write : KeyWrite) : Prop :=
  ∀ value, write.value = some value → entryAccepted keys (write.key, value) = true

section Fits

variable {keys : KeyTypes} {key : String}

theorem fits_of_type {type : ValueType} {value : TomlValue} (h : keys.lookup key = some type)
    (haccepts : type.accepts value = true) : KeyWrite.Fits keys ⟨key, some value⟩ := by
  intro value' hvalue
  obtain rfl := Option.some.inj hvalue
  unfold entryAccepted
  rw [h]
  exact haccepts

theorem fits_setString (h : keys.lookup key = some .string) (value : Str) :
    (setString key value).Fits keys := fits_of_type h rfl

theorem fits_setOptionalString (h : keys.lookup key = some .string) (value : Str) :
    (setOptionalString key value).Fits keys := by
  unfold setOptionalString
  split
  · intro value' hvalue
    cases hvalue
  · exact fits_of_type h rfl

theorem fits_setBool (h : keys.lookup key = some .boolean) (value : Bool) :
    (setBool key value).Fits keys := fits_of_type h rfl

theorem asUnsigned_natCast (value : Nat) : (TomlValue.integer value).asUnsigned = some value := by
  show (if (0 : Int) ≤ value then some (value : Int).toNat else none) = some value
  rw [if_pos (Int.natCast_nonneg value), Int.toNat_natCast]

theorem fits_setInt (h : keys.lookup key = some .unsigned) (value : Nat) :
    (setInt key value).Fits keys :=
  fits_of_type h (by simp [ValueType.accepts, asUnsigned_natCast])

theorem fits_setStringArray (h : keys.lookup key = some .strings) (values : List Str) :
    (setStringArray key values).Fits keys := fits_of_type h (by simp [ValueType.accepts])

theorem fits_setStringMap (h : keys.lookup key = some .stringMap) (values : BTreeMap Str Str) :
    (setStringMap key values).Fits keys := by
  unfold setStringMap
  split
  · intro value' hvalue
    cases hvalue
  · exact fits_of_type h (by simp [ValueType.accepts])

theorem fits_removeKey : (removeKey key).Fits keys := by
  intro value hvalue
  cases hvalue

theorem accepted_apply {table : Table} {write : KeyWrite} (hfits : write.Fits keys)
    (h : table.all (entryAccepted keys) = true) :
    (write.apply table).all (entryAccepted keys) = true := by
  rw [List.all_eq_true] at h ⊢
  intro entry hmem
  unfold KeyWrite.apply at hmem
  cases hvalue : write.value with
  | none =>
    rw [hvalue] at hmem
    exact h entry (List.mem_of_mem_filter hmem)
  | some value =>
    rw [hvalue] at hmem
    rcases Table.mem_insert hmem with rfl | hmem
    · exact hfits value hvalue
    · exact h entry hmem

end Fits

/-- All writes to a section fit it. -/
def SectionFits (writes : String × List KeyWrite) : Prop :=
  ∃ keys, sectionKeys.lookup writes.1 = some keys ∧ ∀ write ∈ writes.2, write.Fits keys

theorem settingsWrites_fit : ∀ writes ∈ settingsWrites values, SectionFits writes := by
  unfold settingsWrites
  simp only [List.forall_mem_cons, List.not_mem_nil, false_imp_iff, implies_true, and_true]
  refine ⟨⟨notmuchKeys, rfl, ?_⟩, ⟨identityKeys, rfl, ?_⟩, ⟨uiKeys, rfl, ?_⟩, ⟨sendKeys, rfl, ?_⟩,
    ⟨draftsKeys, rfl, ?_⟩, ⟨syncKeys, rfl, ?_⟩, ⟨automationKeys, rfl, ?_⟩⟩
  all_goals
    simp only [notmuchWrites, identityWrites, uiWrites, sendWrites, draftsWrites, syncWrites,
      automationWrites, List.forall_mem_cons, List.not_mem_nil, false_imp_iff, implies_true,
      and_true]
    and_intros
  all_goals
    first
    | exact fits_setBool rfl _
    | exact fits_setString rfl _
    | exact fits_setOptionalString rfl _
    | exact fits_setStringArray rfl _
    | exact fits_setInt rfl _
    | exact fits_setStringMap rfl _
    | exact fits_removeKey

theorem accepted_section? {root : Table} {name : String} {keys : KeyTypes}
    (h : root.all sectionAccepted = true) (hkeys : sectionKeys.lookup name = some keys) :
    (root.section? name).all (entryAccepted keys) = true := by
  unfold Table.section?
  split
  · rename_i entries hget
    have haccepted := List.all_eq_true.1 h _ (Table.mem_of_get? hget)
    unfold sectionAccepted at haccepted
    rw [hkeys] at haccepted
    exact haccepted
  · rfl

theorem accepted_applySection {root : Table} {writes : String × List KeyWrite}
    (hfits : SectionFits writes) (h : root.all sectionAccepted = true) :
    (applySection root writes).all sectionAccepted = true := by
  obtain ⟨name, writes⟩ := writes
  obtain ⟨keys, hkeys, hfits⟩ := hfits
  unfold applySection
  induction writes generalizing root with
  | nil => exact h
  | cons write rest ih =>
    rw [List.foldl_cons]
    refine ih ?_ hkeys fun write' hmem => hfits write' (List.mem_cons_of_mem _ hmem)
    rw [List.all_eq_true]
    intro entry hmem
    rcases Table.mem_insert hmem with rfl | hmem
    · unfold sectionAccepted
      dsimp only
      rw [hkeys]
      exact accepted_apply (hfits write List.mem_cons_self) (accepted_section? h hkeys)
    · exact List.all_eq_true.1 h entry hmem

theorem accepted_savedRoot {root : Table} (h : root.all sectionAccepted = true) :
    (savedRoot root values).all sectionAccepted = true := by
  have hfits := settingsWrites_fit values
  unfold savedRoot
  revert hfits h
  generalize settingsWrites values = sections
  induction sections generalizing root with
  | nil => exact fun h _ => h
  | cons first rest ih =>
    intro h hfits
    exact ih (accepted_applySection (hfits first List.mem_cons_self) h)
      fun writes hmem => hfits writes (List.mem_cons_of_mem _ hmem)

/-! ## The configuration that the written file gives -/

section Reread

variable {root : Table} {values : SettingsValues}

theorem get?_savedRoot_of_mem {name key : String} {writes : List KeyWrite}
    (h : (settingsWrites values).find? (·.1 = name) = some (name, writes)) :
    ((savedRoot root values).section? name).get? key =
      written writes (root.section? name) key := by
  rw [get?_savedRoot, h]

/-- The configuration that is read from the written file. -/
def rereadConfig (root : Table) (values : SettingsValues) : AppConfig :=
  .ofTable (savedRoot root values)

theorem get?_saved_notmuch (key : String) :
    ((savedRoot root values).section? "notmuch").get? key =
      written (notmuchWrites values) (root.section? "notmuch") key := by
  apply get?_savedRoot_of_mem
  simp [settingsWrites]

theorem get?_saved_identity (key : String) :
    ((savedRoot root values).section? "identity").get? key =
      written (identityWrites values) (root.section? "identity") key := by
  apply get?_savedRoot_of_mem
  simp [settingsWrites]

theorem get?_saved_ui (key : String) :
    ((savedRoot root values).section? "ui").get? key =
      written (uiWrites values) (root.section? "ui") key := by
  apply get?_savedRoot_of_mem
  simp [settingsWrites]

theorem get?_saved_send (key : String) :
    ((savedRoot root values).section? "send").get? key =
      written (sendWrites values) (root.section? "send") key := by
  apply get?_savedRoot_of_mem
  simp [settingsWrites]

theorem get?_saved_drafts (key : String) :
    ((savedRoot root values).section? "drafts").get? key =
      written (draftsWrites values) (root.section? "drafts") key := by
  apply get?_savedRoot_of_mem
  simp [settingsWrites]

theorem get?_saved_sync (key : String) :
    ((savedRoot root values).section? "sync").get? key =
      written (syncWrites values) (root.section? "sync") key := by
  apply get?_savedRoot_of_mem
  simp [settingsWrites]

theorem reread_excludedTags :
    (rereadConfig root values).notmuch.excludedTags = parseStringList values.excludedTags := by
  simp only [rereadConfig, AppConfig.ofTable, NotmuchConfig.ofTable, Table.stringsOr,
    get?_saved_notmuch]
  simp [written, notmuchWrites, setOptionalString, setString, setStringArray, setBool]

theorem reread_openReadwriteOnlyForMutations :
    (rereadConfig root values).notmuch.openReadwriteOnlyForMutations = true := by
  simp only [rereadConfig, AppConfig.ofTable, NotmuchConfig.ofTable, Table.boolOr,
    get?_saved_notmuch]
  simp [written, notmuchWrites, setOptionalString, setString, setStringArray, setBool,
    TomlValue.asBool]

theorem reread_otherEmail :
    (rereadConfig root values).identity.otherEmail = parseStringList values.otherEmail := by
  simp only [rereadConfig, AppConfig.ofTable, IdentityConfig.ofTable, Table.stringsOr,
    get?_saved_identity]
  simp [written, identityWrites, setOptionalString, setStringArray]

theorem reread_theme : (rereadConfig root values).ui.theme = values.theme.asStr := by
  simp only [rereadConfig, AppConfig.ofTable, UiConfig.ofTable, Table.stringOr, get?_saved_ui]
  simp [written, uiWrites, setString, setStringArray, setBool, setInt, TomlValue.asString]

theorem reread_pageSize : (rereadConfig root values).ui.pageSize = values.pageSize := by
  simp only [rereadConfig, AppConfig.ofTable, UiConfig.ofTable, Table.unsignedOr, get?_saved_ui]
  simp [written, uiWrites, setString, setStringArray, setBool, setInt, asUnsigned_natCast]

theorem reread_threadPreviewLines :
    (rereadConfig root values).ui.threadPreviewLines = values.threadPreviewLines := by
  simp only [rereadConfig, AppConfig.ofTable, UiConfig.ofTable, Table.unsignedOr, get?_saved_ui]
  simp [written, uiWrites, setString, setStringArray, setBool, setInt, asUnsigned_natCast]

theorem reread_layout : (rereadConfig root values).ui.layout =
    layoutPreferenceName (parseLayoutPreference values.layout) := by
  simp only [rereadConfig, AppConfig.ofTable, UiConfig.ofTable, Table.stringOr, get?_saved_ui]
  simp [written, uiWrites, setString, setStringArray, setBool, setInt, TomlValue.asString]

theorem reread_htmlMode : (rereadConfig root values).ui.htmlMode = values.htmlMode := by
  simp only [rereadConfig, AppConfig.ofTable, UiConfig.ofTable, Table.stringOr, get?_saved_ui]
  simp [written, uiWrites, setString, setStringArray, setBool, setInt, TomlValue.asString]

theorem reread_hiddenTagSearches : (rereadConfig root values).ui.hiddenTagSearches =
    parseStringList values.hiddenTagSearches := by
  simp only [rereadConfig, AppConfig.ofTable, UiConfig.ofTable, Table.stringsOr, get?_saved_ui]
  simp [written, uiWrites, setString, setStringArray, setBool, setInt]

theorem reread_transport : (rereadConfig root values).send.transport = values.sendTransport := by
  simp only [rereadConfig, AppConfig.ofTable, SendConfig.ofTable, Table.stringOr, get?_saved_send]
  simp [written, sendWrites, setString, setOptionalString, setStringArray, setStringMap, setBool,
    setInt, removeKey, TomlValue.asString]

theorem reread_mode : (rereadConfig root values).send.mode = values.sendMode := by
  simp only [rereadConfig, AppConfig.ofTable, SendConfig.ofTable, Table.stringOr, get?_saved_send]
  simp [written, sendWrites, setString, setOptionalString, setStringArray, setStringMap, setBool,
    setInt, removeKey, TomlValue.asString]

theorem reread_args :
    (rereadConfig root values).send.args = parseStringList values.sendArgs := by
  simp only [rereadConfig, AppConfig.ofTable, SendConfig.ofTable, Table.stringsOr, get?_saved_send]
  simp [written, sendWrites, setString, setOptionalString, setStringArray, setStringMap, setBool,
    setInt, removeKey]

theorem reread_sentTags :
    (rereadConfig root values).send.sentTags = parseStringList values.sentTags := by
  simp only [rereadConfig, AppConfig.ofTable, SendConfig.ofTable, Table.stringsOr, get?_saved_send]
  simp [written, sendWrites, setString, setOptionalString, setStringArray, setStringMap, setBool,
    setInt, removeKey]

theorem reread_timeoutSeconds :
    (rereadConfig root values).send.timeoutSeconds = values.sendTimeoutSeconds := by
  simp only [rereadConfig, AppConfig.ofTable, SendConfig.ofTable, Table.unsignedOr,
    get?_saved_send]
  simp [written, sendWrites, setString, setOptionalString, setStringArray, setStringMap, setBool,
    setInt, removeKey, asUnsigned_natCast]

theorem reread_env : (rereadConfig root values).send.env = parseEnvMap values.sendEnv := by
  have hvalue : written (sendWrites values) (root.section? "send") "env" =
      (setStringMap "env" (parseEnvMap values.sendEnv)).value := by
    simp [written, sendWrites, setString, setOptionalString, setStringArray, setStringMap,
      setBool, setInt, removeKey]
  simp only [rereadConfig, AppConfig.ofTable, SendConfig.ofTable, Table.stringMap,
    get?_saved_send, hvalue]
  unfold setStringMap
  split
  · rename_i hempty
    exact (BTreeMap.ext (List.isEmpty_iff.1 hempty)).symm
  · simp only [Option.bind_some, asStringMap_table, Option.getD_some]

theorem reread_draftTags :
    (rereadConfig root values).drafts.tags = parseStringList values.draftTags := by
  simp only [rereadConfig, AppConfig.ofTable, DraftsConfig.ofTable, Table.stringsOr,
    get?_saved_drafts]
  simp [written, draftsWrites, setOptionalString, setStringArray, setBool]

/-- The dialog has no entry for the timeout of a synchronization. -/
theorem reread_syncTimeoutSeconds : (rereadConfig root values).sync.timeoutSeconds =
    (AppConfig.ofTable root).sync.timeoutSeconds := by
  simp only [rereadConfig, AppConfig.ofTable, SyncConfig.ofTable, Table.unsignedOr,
    get?_saved_sync]
  simp [written, syncWrites, setString, setBool, removeKey]

end Reread

/-! ## Valid configurations -/

theorem require_eq_ok {condition : Bool} {message : Text} {done : Unit} :
    require condition message = .ok done ↔ condition = true := by
  unfold require
  cases condition with
  | true => exact ⟨fun _ => rfl, fun _ => rfl⟩
  | false => exact ⟨fun hok => (nomatch hok), fun htrue => (nomatch htrue)⟩

theorem validateSendTimeoutSeconds_eq_ok {seconds result : Nat} :
    validateSendTimeoutSeconds seconds = .ok result ↔
      (0 < seconds ∧ seconds ≤ maxSendTimeoutSeconds) ∧ seconds = result := by
  unfold validateSendTimeoutSeconds
  simp only [bind_eq_ok, require_eq_ok, decide_eq_true_eq, pure_eq_ok, exists_const]
  tauto

structure AppConfig.Valid (config : AppConfig) : Prop where
  readOnly : config.notmuch.openReadwriteOnlyForMutations = true
  pageSize : 1 ≤ config.ui.pageSize ∧ config.ui.pageSize ≤ maxSearchPageSize
  theme : (ThemePreference.fromStr config.ui.theme).isSome = true
  previewLines : 1 ≤ config.ui.threadPreviewLines ∧
    config.ui.threadPreviewLines ≤ maxThreadPreviewLines
  layout : isSupportedLayout config.ui.layout = true
  htmlMode : isHtmlMode config.ui.htmlMode = true
  transport : config.send.transport = "external".toList
  mode : isSendMode config.send.mode = true
  fileArgument : hasFileArgument config.send.mode config.send.args = true
  sendTimeout : 0 < config.send.timeoutSeconds ∧
    config.send.timeoutSeconds ≤ maxSendTimeoutSeconds
  syncTimeout : 0 < config.sync.timeoutSeconds

theorem AppConfig.validate_eq_ok {config : AppConfig} :
    config.validate = .ok () ↔ config.Valid := by
  unfold AppConfig.validate
  simp only [bind_eq_ok, require_eq_ok, validateSendTimeoutSeconds_eq_ok, Bool.and_eq_true,
    decide_eq_true_eq, exists_const]
  constructor
  · rintro ⟨h1, h2, h3, h4, h5, h6, h7, h8, h9, _, ⟨h10, -⟩, h11⟩
    exact ⟨h1, h2, h3, h4, h5, h6, h7, h8, h9, h10, h11⟩
  · rintro ⟨h1, h2, h3, h4, h5, h6, h7, h8, h9, h10, h11⟩
    exact ⟨h1, h2, h3, h4, h5, h6, h7, h8, h9, _, ⟨h10, rfl⟩, h11⟩

theorem loadAppConfig_eq_ok {explicitPath : Bool} {file : Option Table} {config : AppConfig} :
    loadAppConfig explicitPath file = .ok config ↔
      (explicitPath = true → file.isSome = true) ∧
        (file.getD []).all sectionAccepted = true ∧
        (AppConfig.ofTable (file.getD [])).Valid ∧ AppConfig.ofTable (file.getD []) = config := by
  unfold loadAppConfig
  rw [← AppConfig.validate_eq_ok]
  have hthere : (explicitPath && file.isNone) = true ↔
      ¬ (explicitPath = true → file.isSome = true) := by
    cases file <;> simp
  by_cases hmissing : (explicitPath && file.isNone) = true
  · rw [if_pos hmissing]
    exact ⟨fun h => (nomatch h), fun h => absurd h.1 (hthere.1 hmissing)⟩
  · rw [if_neg hmissing]
    have hpath := not_not.1 (mt hthere.2 hmissing)
    by_cases haccepted : (file.getD []).all sectionAccepted = true
    · simp only [haccepted, if_true]
      cases hvalid : (AppConfig.ofTable (file.getD [])).validate with
      | ok done =>
        exact ⟨fun h => ⟨hpath, trivial, rfl, Except.ok.inj h⟩, fun h => congrArg _ h.2.2.2⟩
      | error message => exact ⟨fun h => (nomatch h), fun h => (nomatch h.2.2.1)⟩
    · simp only [haccepted]
      exact ⟨fun h => (nomatch h), fun h => (nomatch h.2.1)⟩

/-! ## The values of an unchanged dialog -/

theorem fromStr_asStr (theme : ThemePreference) :
    ThemePreference.fromStr theme.asStr = some theme := by
  cases theme <;> rfl

theorem transportModeName_transportMode {mode : Str} (h : isSendMode mode = true) :
    transportModeName (transportMode mode) = mode := by
  unfold isSendMode at h
  simp only [List.mem_cons, List.not_mem_nil, or_false, decide_eq_true_eq] at h
  rcases h with rfl | rfl | rfl | rfl
  · rfl
  · rfl
  · rfl
  · rfl

theorem comboActiveId_of_mem {options : List Str} {active : Str} (h : active ∈ options) :
    comboActiveId options active = active := by
  unfold comboActiveId
  rw [if_pos]
  simp [h]

theorem isSupportedLayout_name (layout : LayoutPreference) :
    isSupportedLayout (layoutPreferenceName layout) = true := by
  cases layout <;> decide +kernel

theorem transport_ofTable (root : Table) : (root.section? "send").stringOr "transport" "external" =
    (AppConfig.ofTable root).send.transport := by
  simp only [AppConfig.ofTable, SendConfig.ofTable]

/-- What the rest of the proof needs of the values. -/
structure Shown (config : AppConfig) (values : SettingsValues) : Prop where
  excludedTags : values.excludedTags = joinStringList config.notmuch.excludedTags
  otherEmail : values.otherEmail = joinStringList config.identity.otherEmail
  hiddenTagSearches : values.hiddenTagSearches =
    joinStringList (BTreeSet.ofList config.ui.hiddenTagSearches).toList
  sendArgs : values.sendArgs = joinStringList config.send.args
  sendEnv : values.sendEnv = formatEnvMap config.send.env
  sentTags : values.sentTags = joinStringList config.send.sentTags
  draftTags : values.draftTags = joinStringList config.drafts.tags
  pageSize : values.pageSize = config.ui.pageSize
  previewLines : values.threadPreviewLines = config.ui.threadPreviewLines
  sendTimeout : values.sendTimeoutSeconds = config.send.timeoutSeconds
  transport : values.sendTransport = "external".toList
  mode : values.sendMode = config.send.mode
  layout : values.layout ∈ layoutOptions
  htmlMode : values.htmlMode ∈ htmlModeOptions

theorem parseSettingsPageSize_natText {pageSize : Nat}
    (h : 1 ≤ pageSize ∧ pageSize ≤ maxSearchPageSize) :
    parseSettingsPageSize (natText pageSize) = .ok pageSize := by
  have hlt : pageSize < 2 ^ 64 := by
    unfold maxSearchPageSize at h
    omega
  unfold parseSettingsPageSize validatePageSize
  rw [parseUnsigned_natText hlt]
  simp [require, h, pure, bind, Except.bind, Except.pure]

theorem parseSettingsThreadPreviewLines_natText {lines : Nat}
    (h : 1 ≤ lines ∧ lines ≤ maxThreadPreviewLines) :
    parseSettingsThreadPreviewLines (natText lines) = .ok lines := by
  have hlt : lines < 9223372036854775808 := by
    unfold maxThreadPreviewLines at h
    omega
  unfold parseSettingsThreadPreviewLines validateThreadPreviewLines
  rw [parseUnsigned_natText (hlt.trans (by decide))]
  simp [require, h, hlt, pure, bind, Except.bind, Except.pure]

theorem parseSendTimeoutSeconds_natText {seconds : Nat}
    (h : 0 < seconds ∧ seconds ≤ maxSendTimeoutSeconds) :
    parseSendTimeoutSeconds (natText seconds) = .ok seconds := by
  have hlt : seconds < 2 ^ 64 := by
    unfold maxSendTimeoutSeconds at h
    omega
  unfold parseSendTimeoutSeconds
  rw [parseUnsigned_natText hlt]
  exact validateSendTimeoutSeconds_eq_ok.2 ⟨h, rfl⟩

theorem unchangedValues_eq_ok {config : AppConfig} {existing : Table} (hvalid : config.Valid)
    (htransport : (existing.section? "send").stringOr "transport" "external" =
      config.send.transport) :
    ∃ values, unchangedValues config existing = .ok values ∧ Shown config values := by
  obtain ⟨theme, htheme⟩ := Option.isSome_iff_exists.1 hvalid.theme
  have hpageSize : max 1 (min config.ui.pageSize maxSearchPageSize) = config.ui.pageSize := by
    rw [min_eq_left hvalid.pageSize.2, max_eq_right hvalid.pageSize.1]
  have hoptions : theme.asStr ∈ themeOptions := by
    cases theme <;> decide
  have hparsed : parseSettingsTheme (comboActiveId themeOptions theme.asStr) = .ok theme := by
    rw [comboActiveId_of_mem hoptions]
    unfold parseSettingsTheme
    rw [fromStr_asStr]
  have hmode : config.send.mode ∈ sendModeOptions := by
    have hmode := hvalid.mode
    unfold isSendMode at hmode
    exact of_decide_eq_true hmode
  unfold unchangedValues
  rw [htheme, Option.getD_some, hpageSize]
  simp only [parseSettingsPageSize_natText hvalid.pageSize, hparsed,
    parseSettingsThreadPreviewLines_natText hvalid.previewLines,
    parseSendTimeoutSeconds_natText hvalid.sendTimeout]
  refine ⟨_, rfl, ?_⟩
  -- What each field of the dialog shows is what it has been given, its options included.
  constructor
  case transport =>
    show comboActiveId _ _ = _
    rw [htransport, hvalid.transport]
    exact comboActiveId_of_mem (List.mem_singleton.2 rfl)
  case mode =>
    show comboActiveId _ _ = _
    rw [transportModeName_transportMode hvalid.mode]
    exact comboActiveId_of_mem hmode
  case layout =>
    show comboActiveId _ _ ∈ _
    cases parseLayoutPreference config.ui.layout <;> decide
  case htmlMode =>
    show comboActiveId _ _ ∈ _
    split
    · decide
    · decide
  all_goals rfl

/-! ## The round trip -/

/-- The settings that pass through the texts of the dialog. The hidden tag searches are a set. -/
structure SameLists (config config' : AppConfig) : Prop where
  args : config'.send.args = config.send.args
  env : config'.send.env = config.send.env
  excludedTags : config'.notmuch.excludedTags = config.notmuch.excludedTags
  hiddenTagSearches : ∀ tag, tag ∈ config'.ui.hiddenTagSearches ↔ tag ∈ config.ui.hiddenTagSearches
  sentTags : config'.send.sentTags = config.send.sentTags
  draftTags : config'.drafts.tags = config.drafts.tags
  otherEmail : config'.identity.otherEmail = config.identity.otherEmail

/-- Every element of the lists and of the environment is one that the dialog gives back. -/
structure AppConfig.PlainLists (config : AppConfig) : Prop where
  args : ∀ arg ∈ config.send.args, Plain arg
  env : ∀ entry ∈ config.send.env.entries, PlainEnvEntry entry
  excludedTags : ∀ tag ∈ config.notmuch.excludedTags, Plain tag
  hiddenTagSearches : ∀ tag ∈ config.ui.hiddenTagSearches, Plain tag
  sentTags : ∀ tag ∈ config.send.sentTags, Plain tag
  draftTags : ∀ tag ∈ config.drafts.tags, Plain tag
  otherEmail : ∀ address ∈ config.identity.otherEmail, Plain address

/-- The keys of a section that the dialog manages. -/
def managedKeys (values : SettingsValues) (name : String) : List String :=
  (((settingsWrites values).find? (·.1 = name)).map fun writes => writes.2.map (·.key)).getD []

/-- Saving the unchanged dialog succeeds, the file is accepted, has the same lists and maps and the
same value for every key that the dialog does not manage. -/
def RoundTrips (explicitPath : Bool) (file : Option Table) (config : AppConfig) : Prop :=
  ∃ values saved config', unchangedValues config (file.getD []) = .ok values ∧
    persistSettingsValues (some file) values = .ok saved ∧
    loadAppConfig explicitPath (some saved) = .ok config' ∧ SameLists config config' ∧
    ∀ name key, key ∉ managedKeys values name →
      (saved.section? name).get? key = ((file.getD []).section? name).get? key

section RoundTrip

variable {explicitPath : Bool} {file : Option Table} {config : AppConfig}
  {values : SettingsValues}

theorem persistSettingsValues_eq_ok {saved : Table}
    (h : persistSettingsValues (some file) values = .ok saved) :
    saved = savedRoot (file.getD []) values := by
  unfold persistSettingsValues at h
  obtain ⟨_, -, h⟩ := bind_eq_ok.1 h
  obtain ⟨_, -, h⟩ := bind_eq_ok.1 h
  obtain ⟨_, -, h⟩ := bind_eq_ok.1 h
  obtain ⟨_, -, h⟩ := bind_eq_ok.1 h
  obtain ⟨_, -, h⟩ := bind_eq_ok.1 h
  exact (pure_eq_ok.1 h).symm

theorem persist_of_shown (hvalid : config.Valid) (hshown : Shown config values)
    (hargs : ∀ arg ∈ config.send.args, Plain arg) :
    persistSettingsValues (some file) values = .ok (savedRoot (file.getD []) values) := by
  have hpage : validatePageSize values.pageSize = .ok values.pageSize := by
    rw [hshown.pageSize]
    unfold validatePageSize
    simp [require, hvalid.pageSize, pure, bind, Except.bind, Except.pure]
  have hlines : validateThreadPreviewLines values.threadPreviewLines =
      .ok values.threadPreviewLines := by
    rw [hshown.previewLines]
    have hbound := hvalid.previewLines
    have hlt : config.ui.threadPreviewLines < 9223372036854775808 := by
      unfold maxThreadPreviewLines at hbound
      omega
    unfold validateThreadPreviewLines
    simp [require, hbound, hlt, pure, bind, Except.bind, Except.pure]
  have htimeout : validateSendTimeoutSeconds values.sendTimeoutSeconds =
      .ok values.sendTimeoutSeconds := by
    rw [hshown.sendTimeout]
    exact validateSendTimeoutSeconds_eq_ok.2 ⟨hvalid.sendTimeout, rfl⟩
  have hfits : values.sendTimeoutSeconds < 2 ^ 63 := by
    have hbound := hvalid.sendTimeout.2
    rw [hshown.sendTimeout]
    unfold maxSendTimeoutSeconds at hbound
    omega
  have hsettings : validateSendSettings values.sendMode (parseStringList values.sendArgs) =
      .ok () := by
    rw [hshown.sendArgs, hshown.mode, parseStringList_joinStringList hargs]
    exact require_eq_ok.2 hvalid.fileArgument
  unfold persistSettingsValues
  simp only [hpage, hlines, htimeout, hsettings]
  have hstored : require (decide (values.sendTimeoutSeconds < 2 ^ 63))
      (lit "send.timeout_seconds is too large to store") = .ok () :=
    require_eq_ok.2 (decide_eq_true hfits)
  show (require _ _ >>= fun _ => _) = _
  rw [hstored]
  rfl

/-- The reread lists are what the entries give back. -/
theorem plainLists_of_sameLists {root : Table} (hshown : Shown config values)
    (h : SameLists config (rereadConfig root values)) : config.PlainLists where
  args := by
    have hargs := h.args
    rw [reread_args, hshown.sendArgs] at hargs
    exact parseStringList_joinStringList_iff.1 hargs
  env := by
    have henv := h.env
    rw [reread_env, hshown.sendEnv] at henv
    exact parseEnvMap_formatEnvMap_iff.1 henv
  excludedTags := by
    have htags := h.excludedTags
    rw [reread_excludedTags, hshown.excludedTags] at htags
    exact parseStringList_joinStringList_iff.1 htags
  hiddenTagSearches := by
    intro tag hmem
    have htag := (h.hiddenTagSearches tag).2 hmem
    rw [reread_hiddenTagSearches] at htag
    exact plain_of_mem_parseStringList htag
  sentTags := by
    have htags := h.sentTags
    rw [reread_sentTags, hshown.sentTags] at htags
    exact parseStringList_joinStringList_iff.1 htags
  draftTags := by
    have htags := h.draftTags
    rw [reread_draftTags, hshown.draftTags] at htags
    exact parseStringList_joinStringList_iff.1 htags
  otherEmail := by
    have haddresses := h.otherEmail
    rw [reread_otherEmail, hshown.otherEmail] at haddresses
    exact parseStringList_joinStringList_iff.1 haddresses

theorem sameLists_of_plainLists {root : Table} (hshown : Shown config values)
    (h : config.PlainLists) : SameLists config (rereadConfig root values) where
  args := by rw [reread_args, hshown.sendArgs, parseStringList_joinStringList h.args]
  env := by rw [reread_env, hshown.sendEnv, parseEnvMap_formatEnvMap h.env]
  excludedTags := by
    rw [reread_excludedTags, hshown.excludedTags, parseStringList_joinStringList h.excludedTags]
  hiddenTagSearches := by
    intro tag
    have hplain : ∀ tag ∈ (BTreeSet.ofList config.ui.hiddenTagSearches).toList, Plain tag := by
      intro tag hmem
      exact h.hiddenTagSearches tag (BTreeSet.mem_ofList.1 hmem)
    rw [reread_hiddenTagSearches, hshown.hiddenTagSearches, parseStringList_joinStringList hplain]
    exact BTreeSet.mem_ofList
  sentTags := by
    rw [reread_sentTags, hshown.sentTags, parseStringList_joinStringList h.sentTags]
  draftTags := by
    rw [reread_draftTags, hshown.draftTags, parseStringList_joinStringList h.draftTags]
  otherEmail := by
    rw [reread_otherEmail, hshown.otherEmail, parseStringList_joinStringList h.otherEmail]

/-- The reread configuration is valid: what the dialog writes is, and the timeout of a
synchronization has not changed. -/
theorem valid_reread {root : Table} (hvalid : config.Valid) (hroot : .ofTable root = config)
    (hshown : Shown config values) (hsame : SameLists config (rereadConfig root values)) :
    (rereadConfig root values).Valid where
  readOnly := reread_openReadwriteOnlyForMutations
  pageSize := by
    rw [reread_pageSize, hshown.pageSize]
    exact hvalid.pageSize
  theme := by
    rw [reread_theme, fromStr_asStr]
    rfl
  previewLines := by
    rw [reread_threadPreviewLines, hshown.previewLines]
    exact hvalid.previewLines
  layout := by
    rw [reread_layout]
    exact isSupportedLayout_name _
  htmlMode := by
    rw [reread_htmlMode]
    have hmem := hshown.htmlMode
    unfold htmlModeOptions at hmem
    unfold isHtmlMode
    simp only [List.mem_cons, List.not_mem_nil, or_false] at hmem
    simp only [Bool.or_eq_true, decide_eq_true_eq]
    exact hmem
  transport := by rw [reread_transport, hshown.transport]
  mode := by
    rw [reread_mode, hshown.mode]
    exact hvalid.mode
  fileArgument := by
    rw [hsame.args, reread_mode, hshown.mode]
    exact hvalid.fileArgument
  sendTimeout := by
    rw [reread_timeoutSeconds, hshown.sendTimeout]
    exact hvalid.sendTimeout
  syncTimeout := by
    rw [reread_syncTimeoutSeconds, hroot]
    exact hvalid.syncTimeout

/-- Keys that the dialog does not manage keep their values. -/
theorem get?_savedRoot_unmanaged {root : Table} {name key : String}
    (h : key ∉ managedKeys values name) :
    ((savedRoot root values).section? name).get? key = (root.section? name).get? key := by
  rw [get?_savedRoot]
  unfold managedKeys at h
  cases hfind : (settingsWrites values).find? (·.1 = name) with
  | none => rfl
  | some writes =>
    rw [hfind] at h
    exact written_of_not_mem h

theorem shown_of_unchangedValues (hload : loadAppConfig explicitPath file = .ok config)
    (h : unchangedValues config (file.getD []) = .ok values) : Shown config values := by
  obtain ⟨-, -, hvalid, rfl⟩ := loadAppConfig_eq_ok.1 hload
  obtain ⟨values', hvalues, hshown⟩ := unchangedValues_eq_ok hvalid (transport_ofTable _)
  obtain rfl := Except.ok.inj (h.symm.trans hvalues)
  exact hshown

theorem plainLists_of_roundTrips (hload : loadAppConfig explicitPath file = .ok config)
    (h : RoundTrips explicitPath file config) : config.PlainLists := by
  obtain ⟨values, saved, config', hvalues, hpersist, hreload, hsame, -⟩ := h
  have hsaved := persistSettingsValues_eq_ok hpersist
  have hreread := (loadAppConfig_eq_ok.1 hreload).2.2.2
  rw [Option.getD_some, hsaved] at hreread
  rw [← hreread] at hsame
  exact plainLists_of_sameLists (shown_of_unchangedValues hload hvalues) hsame

theorem roundTrips_of_plainLists (hload : loadAppConfig explicitPath file = .ok config)
    (h : config.PlainLists) : RoundTrips explicitPath file config := by
  obtain ⟨hpath, haccepted, hvalid, rfl⟩ := loadAppConfig_eq_ok.1 hload
  obtain ⟨values, hvalues, hshown⟩ := unchangedValues_eq_ok hvalid (transport_ofTable _)
  have hsame : SameLists _ (rereadConfig (file.getD []) values) :=
    sameLists_of_plainLists hshown h
  refine ⟨values, savedRoot (file.getD []) values, rereadConfig (file.getD []) values, hvalues,
    persist_of_shown hvalid hshown h.args, ?_, hsame, fun name key hkey =>
      get?_savedRoot_unmanaged hkey⟩
  rw [loadAppConfig_eq_ok, Option.getD_some]
  exact ⟨fun _ => rfl, accepted_savedRoot values haccepted, valid_reread hvalid rfl hshown hsame,
    rfl⟩

/-- **Saving without an edit.** Saving an unchanged dialog keeps the settings if and only if every
element of the lists and of the environment is one that the entries of the dialog give back. -/
theorem settings_round_trip_iff (hload : loadAppConfig explicitPath file = .ok config) :
    RoundTrips explicitPath file config ↔ config.PlainLists :=
  ⟨plainLists_of_roundTrips hload, roundTrips_of_plainLists hload⟩

/-- A file with nothing but arguments and an environment for the send command. -/
def sendFile (args : List Str) (env : BTreeMap Str Str) : Table :=
  [("send", .table
    [("args", .array (args.map .string)),
      ("env", .table (env.entries.map fun entry => (String.ofList entry.1, .string entry.2)))])]

section SendFile

variable (args : List Str) (env : BTreeMap Str Str)

theorem send_sendFile : (AppConfig.ofTable (sendFile args env)).send =
    { SendConfig.ofTable [] with args := args, env := env } := by
  simp [AppConfig.ofTable, SendConfig.ofTable, sendFile, Table.section?, Table.get?,
    Table.stringsOr, Table.stringOr, Table.string?, Table.boolOr, Table.unsignedOr,
    Table.stringMap]

theorem otherSections_sendFile : AppConfig.ofTable (sendFile args env) =
    { AppConfig.ofTable [] with send := (AppConfig.ofTable (sendFile args env)).send } := by
  simp [AppConfig.ofTable, sendFile, Table.section?, Table.get?]

theorem load_sendFile :
    loadAppConfig true (some (sendFile args env)) = .ok (.ofTable (sendFile args env)) := by
  rw [loadAppConfig_eq_ok, Option.getD_some]
  refine ⟨fun _ => rfl, ?_, ?_, rfl⟩
  · have hargs : ValueType.strings.accepts (.array (args.map .string)) = true := by
      simp [ValueType.accepts]
    have henv : ValueType.stringMap.accepts (.table (env.entries.map fun entry =>
        (String.ofList entry.1, .string entry.2))) = true := by
      simp [ValueType.accepts]
    show ((ValueType.strings.accepts _ && (ValueType.stringMap.accepts _ && true)) && true) = true
    rw [hargs, henv]
    rfl
  · rw [otherSections_sendFile, send_sendFile]
    constructor
    case pageSize =>
      show 1 ≤ 100 ∧ 100 ≤ 1000
      decide
    case previewLines =>
      show 1 ≤ 2 ∧ 2 ≤ 20
      decide
    case sendTimeout =>
      show 0 < 120 ∧ 120 ≤ 30 * 365 * 24 * 60 * 60
      decide
    case syncTimeout =>
      show 0 < 300
      decide
    all_goals rfl

/-- The settings of such a file are kept when its arguments and variables are plain. -/
theorem plainLists_sendFile (hargs : ∀ arg ∈ args, Plain arg)
    (henv : ∀ entry ∈ env.entries, PlainEnvEntry entry) :
    (AppConfig.ofTable (sendFile args env)).PlainLists := by
  rw [otherSections_sendFile, send_sendFile]
  constructor
  case args => exact hargs
  case env => exact henv
  case excludedTags =>
    show ∀ tag ∈ ["trash".toList, "spam".toList], Plain tag
    decide
  case sentTags =>
    show ∀ tag ∈ ["sent".toList], Plain tag
    decide
  case draftTags =>
    show ∀ tag ∈ ["draft".toList], Plain tag
    decide
  all_goals exact fun tag hmem => (nomatch hmem)

end SendFile

/-- A file with two arguments and a variable for the send command. -/
theorem settings_round_trip_plain_arguments :
    let file := sendFile ["-t".toList, "-oi".toList] (.ofList [("LANG".toList, "C".toList)])
    RoundTrips true (some file) (.ofTable file) := by
  apply (settings_round_trip_iff (load_sendFile _ _)).2
  apply plainLists_sendFile
  · decide
  · decide

/-- A file whose argument has a comma: the saved file has two arguments in its place. -/
theorem argument_with_comma_is_split :
    let file := sendFile ["-o,x".toList] .empty
    loadAppConfig true (some file) = .ok (.ofTable file) ∧
      ¬ RoundTrips true (some file) (.ofTable file) := by
  refine ⟨load_sendFile _ _, fun h => ?_⟩
  have hplain := (plainLists_of_roundTrips (load_sendFile _ _) h).args "-o,x".toList
  rw [send_sendFile] at hplain
  exact absurd (hplain List.mem_cons_self) (by decide)

end RoundTrip

end Notm.Ui
