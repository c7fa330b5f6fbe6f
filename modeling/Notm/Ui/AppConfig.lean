import Notm.Lib.BTreeMap
import Notm.Lib.Rust
import Notm.Ui.SettingsText

/-!
# The configuration file

The file is modelled by the table that its text prints; the toml crate parses what it has printed
back. Reading it checks every key and the type of its value, fills the keys that it leaves out with
defaults and validates the values.

A section is a table here. The `Deserialize` that serde derives for a struct accepts it as an array
of its fields in their order as well; that form of a section, and of the whole file, is left out.
The settings dialog edits and writes tables only.
-/

namespace Notm.Ui

open Rust

/-! ## Toml -/

/-- A value of the file. Floats and dates are read by no key, so that they are kept as their bits
and their text. -/
inductive TomlValue where
  | string (value : Str)
  | integer (value : Int)
  | float (bits : BitVec 64)
  | boolean (value : Bool)
  | datetime (text : Str)
  | array (values : List TomlValue)
  | table (entries : List (String × TomlValue))

/-- `toml::map::Map`. The order of the entries does not matter. -/
abbrev Table := List (String × TomlValue)

namespace Table

def get? : Table → String → Option TomlValue
  | [], _ => none
  | (name, value) :: rest, key => if name = key then some value else get? rest key

/-- An entry keeps its place when its value changes. -/
def insert (key : String) (value : TomlValue) : Table → Table
  | [] => [(key, value)]
  | (name, old) :: rest =>
    if name = key then (key, value) :: rest else (name, old) :: insert key value rest

def remove (key : String) (table : Table) : Table := table.filter (·.1 ≠ key)

/-- The table under a key, empty when there is none. -/
def section? (root : Table) (name : String) : Table :=
  match root.get? name with
  | some (.table entries) => entries
  | _ => []

variable {table : Table} {key name : String} {value : TomlValue}

theorem get?_insert :
    get? (insert key value table) name = if key = name then some value else get? table name := by
  induction table with
  | nil => rfl
  | cons entry rest ih =>
    obtain ⟨first, old⟩ := entry
    unfold insert
    split
    · rename_i heq
      subst heq
      show (if first = name then some value else get? rest name) =
        if first = name then some value else if first = name then some old else get? rest name
      split
      · rfl
      · rfl
    · rename_i hne
      show (if first = name then some old else get? (insert key value rest) name) =
        if key = name then some value else if first = name then some old else get? rest name
      rw [ih]
      by_cases hfirst : first = name
      · have hkey : key ≠ name := fun heq => hne (hfirst.trans heq.symm)
        rw [if_pos hfirst, if_neg hkey, if_pos hfirst]
      · rw [if_neg hfirst, if_neg hfirst]

theorem get?_remove :
    get? (remove key table) name = if key = name then none else get? table name := by
  induction table with
  | nil => exact (ite_self none).symm
  | cons entry rest ih =>
    obtain ⟨first, old⟩ := entry
    unfold remove at ih ⊢
    by_cases hfirst : first = key
    · rw [List.filter_cons_of_neg (by simpa using hfirst), ih]
      by_cases hkey : key = name
      · rw [if_pos hkey, if_pos hkey]
      · rw [if_neg hkey, if_neg hkey]
        show _ = if first = name then some old else get? rest name
        rw [if_neg (hfirst.trans_ne hkey)]
    · rw [List.filter_cons_of_pos (by simpa using hfirst)]
      show (if first = name then some old else get? (rest.filter (·.1 ≠ key)) name) =
        if key = name then none else if first = name then some old else get? rest name
      rw [ih]
      by_cases hname : first = name
      · have hkey : key ≠ name := fun heq => hfirst (hname.trans heq.symm)
        rw [if_pos hname, if_neg hkey, if_pos hname]
      · rw [if_neg hname, if_neg hname]

theorem mem_of_get? (h : get? table name = some value) : (name, value) ∈ table := by
  induction table with
  | nil => cases h
  | cons first rest ih =>
    obtain ⟨key, old⟩ := first
    change (if key = name then some old else get? rest name) = some value at h
    split at h
    · rename_i heq
      obtain rfl := Option.some.inj h
      exact heq ▸ List.mem_cons_self
    · exact List.mem_cons_of_mem _ (ih h)

theorem mem_insert {entry : String × TomlValue} (h : entry ∈ insert key value table) :
    entry = (key, value) ∨ entry ∈ table := by
  induction table with
  | nil => exact Or.inl (List.mem_singleton.1 h)
  | cons first rest ih =>
    obtain ⟨name, old⟩ := first
    unfold insert at h
    split at h
    · exact (List.mem_cons.1 h).imp_right (List.mem_cons_of_mem _)
    · rcases List.mem_cons.1 h with rfl | h
      · exact Or.inr List.mem_cons_self
      · exact (ih h).imp_right (List.mem_cons_of_mem _)

end Table

/-! ## Types of values -/

/-- The types that serde reads the values of the keys as. -/
inductive ValueType where
  | string
  | boolean
  | unsigned
  | strings
  | stringMap
  | viewPreferences
  | savedSearches

def TomlValue.asString : TomlValue → Option Str
  | .string value => some value
  | _ => none

def TomlValue.asBool : TomlValue → Option Bool
  | .boolean value => some value
  | _ => none

/-- A negative number is none. -/
def TomlValue.asUnsigned : TomlValue → Option Nat
  | .integer value => if 0 ≤ value then some value.toNat else none
  | _ => none

/-- All items have to be strings. -/
def TomlValue.asStrings : TomlValue → Option (List Str)
  | .array values => values.mapM TomlValue.asString
  | _ => none

/-- A table of strings, as a `BTreeMap<String, String>`. -/
def TomlValue.asStringMap : TomlValue → Option (BTreeMap Str Str)
  | .table entries =>
    (entries.mapM fun (entry : String × TomlValue) =>
      entry.2.asString.map (entry.1.toList, ·)).map BTreeMap.ofList
  | _ => none

/-- The names of `MessageViewPreference`. -/
def viewPreferenceNames : List Str :=
  ["text".toList, "visual_html".toList, "full_headers".toList, "raw_source".toList]

/-- A table that serde reads as a `SavedSearchConfig`. -/
def isSavedSearch : TomlValue → Bool
  | .table entries =>
    (entries.all fun entry => entry.1 = "name" || entry.1 = "query") &&
      (Table.get? entries "name").any (·.asString.isSome) &&
      (Table.get? entries "query").any (·.asString.isSome)
  | _ => false

/-- The values that a key of the type takes. -/
def ValueType.accepts : ValueType → TomlValue → Bool
  | .string, value => value.asString.isSome
  | .boolean, value => value.asBool.isSome
  | .unsigned, value => value.asUnsigned.isSome
  | .strings, value => value.asStrings.isSome
  | .stringMap, value => value.asStringMap.isSome
  | .viewPreferences, .table entries =>
    entries.all fun entry => entry.2.asString.any (· ∈ viewPreferenceNames)
  | .savedSearches, .array values => values.all isSavedSearch
  | _, _ => false

/-! ## Keys

Every other key is refused. -/

abbrev KeyTypes := List (String × ValueType)

def notmuchKeys : KeyTypes :=
  [("database_path", .string), ("config_path", .string), ("profile", .string),
    ("default_query", .string), ("excluded_tags", .strings),
    ("open_readwrite_only_for_mutations", .boolean),
    ("sync_maildir_flags_after_tag_change", .boolean)]

def identityKeys : KeyTypes :=
  [("name", .string), ("primary_email", .string), ("other_email", .strings)]

def uiKeys : KeyTypes :=
  [("theme", .string), ("page_size", .unsigned), ("thread_preview_lines", .unsigned),
    ("layout", .string), ("show_thread_numbers", .boolean), ("show_thread_dates", .boolean),
    ("show_thread_tags", .boolean), ("show_thread_preview", .boolean),
    ("show_keybind_hints", .boolean), ("remote_images", .boolean),
    ("html_dark_background", .boolean), ("trusted_image_senders", .strings),
    ("html_mode", .string), ("message_view_preferences", .viewPreferences),
    ("sender_view_preferences", .viewPreferences), ("start_maximized", .boolean),
    ("show_sidebar", .boolean), ("show_message_list", .boolean), ("show_message_view", .boolean),
    ("show_debug_panel", .boolean), ("custom_saved_searches", .savedSearches),
    ("hidden_tag_searches", .strings), ("confirm_destructive_tag_actions", .boolean)]

def sendKeys : KeyTypes :=
  [("enabled", .boolean), ("transport", .string), ("command", .string), ("args", .strings),
    ("mode", .string), ("working_dir", .string), ("env", .stringMap),
    ("timeout_seconds", .unsigned), ("save_sent", .boolean), ("sent_maildir", .string),
    ("sent_tags", .strings), ("index_sent_after_send", .boolean),
    ("one_live_self_test_per_run", .boolean)]

def draftsKeys : KeyTypes :=
  [("save_maildir", .boolean), ("maildir", .string), ("tags", .strings),
    ("index_after_save", .boolean)]

def syncKeys : KeyTypes :=
  [("enabled", .boolean), ("manual_action_label", .string), ("timeout_seconds", .unsigned),
    ("notmuch_database_update_enabled", .boolean),
    ("notmuch_database_update_on_startup", .boolean),
    ("notmuch_database_update_command", .string), ("external_receive_enabled", .boolean),
    ("external_receive_on_startup", .boolean), ("external_receive_command", .string),
    ("show_manual_sync_button", .boolean)]

def automationKeys : KeyTypes :=
  [("enabled", .boolean), ("socket_path", .string), ("token", .string),
    ("screenshot_dir", .string), ("allow_live_send_test", .boolean),
    ("allow_live_tag_test", .boolean)]

def sectionKeys : List (String × KeyTypes) :=
  [("notmuch", notmuchKeys), ("identity", identityKeys), ("ui", uiKeys), ("send", sendKeys),
    ("drafts", draftsKeys), ("sync", syncKeys), ("automation", automationKeys)]

/-- The entry has a key of the section and a value of its type. -/
def entryAccepted (keys : KeyTypes) (entry : String × TomlValue) : Bool :=
  (keys.lookup entry.1).any (·.accepts entry.2)

/-- Every section is known, and so are the keys in it. -/
def sectionAccepted (entry : String × TomlValue) : Bool :=
  match sectionKeys.lookup entry.1, entry.2 with
  | some keys, .table entries => entries.all (entryAccepted keys)
  | _, _ => false

/-! ## The configuration -/

/-- The default stands in for a key that is left out. Keys of another type have been refused before.
-/
def Table.stringOr (table : Table) (key : String) (default : String) : Str :=
  ((table.get? key).bind (·.asString)).getD default.toList

def Table.string? (table : Table) (key : String) : Option Str :=
  (table.get? key).bind (·.asString)

def Table.boolOr (table : Table) (key : String) (default : Bool) : Bool :=
  ((table.get? key).bind (·.asBool)).getD default

def Table.unsignedOr (table : Table) (key : String) (default : Nat) : Nat :=
  ((table.get? key).bind (·.asUnsigned)).getD default

def Table.stringsOr (table : Table) (key : String) (default : List String) : List Str :=
  ((table.get? key).bind (·.asStrings)).getD (default.map (·.toList))

def Table.stringMap (table : Table) (key : String) : BTreeMap Str Str :=
  ((table.get? key).bind (·.asStringMap)).getD .empty

structure NotmuchConfig where
  databasePath : Option Str
  configPath : Option Str
  profile : Option Str
  defaultQuery : Str
  excludedTags : List Str
  openReadwriteOnlyForMutations : Bool
  syncMaildirFlagsAfterTagChange : Bool

/-- `[notmuch]` with the defaults of the source. -/
def NotmuchConfig.ofTable (table : Table) : NotmuchConfig where
  databasePath := table.string? "database_path"
  configPath := table.string? "config_path"
  profile := table.string? "profile"
  defaultQuery := table.stringOr "default_query" "tag:inbox and not tag:trash and not tag:spam"
  excludedTags := table.stringsOr "excluded_tags" ["trash", "spam"]
  openReadwriteOnlyForMutations := table.boolOr "open_readwrite_only_for_mutations" true
  syncMaildirFlagsAfterTagChange := table.boolOr "sync_maildir_flags_after_tag_change" true

structure IdentityConfig where
  name : Option Str
  primaryEmail : Option Str
  otherEmail : List Str

/-- `[identity]`, which is empty by default. -/
def IdentityConfig.ofTable (table : Table) : IdentityConfig where
  name := table.string? "name"
  primaryEmail := table.string? "primary_email"
  otherEmail := table.stringsOr "other_email" []

structure UiConfig where
  theme : Str
  pageSize : Nat
  threadPreviewLines : Nat
  layout : Str
  showThreadNumbers : Bool
  showThreadDates : Bool
  showThreadTags : Bool
  showThreadPreview : Bool
  showKeybindHints : Bool
  remoteImages : Bool
  htmlDarkBackground : Bool
  htmlMode : Str
  startMaximized : Bool
  showSidebar : Bool
  showMessageList : Bool
  showMessageView : Bool
  showDebugPanel : Bool
  hiddenTagSearches : List Str

/-- `[ui]` with the defaults of the source. -/
def UiConfig.ofTable (table : Table) : UiConfig where
  theme := table.stringOr "theme" "system"
  pageSize := table.unsignedOr "page_size" 100
  threadPreviewLines := table.unsignedOr "thread_preview_lines" 2
  layout := table.stringOr "layout" "auto"
  showThreadNumbers := table.boolOr "show_thread_numbers" true
  showThreadDates := table.boolOr "show_thread_dates" true
  showThreadTags := table.boolOr "show_thread_tags" true
  showThreadPreview := table.boolOr "show_thread_preview" true
  showKeybindHints := table.boolOr "show_keybind_hints" true
  remoteImages := table.boolOr "remote_images" false
  htmlDarkBackground := table.boolOr "html_dark_background" false
  htmlMode := table.stringOr "html_mode" "sanitize_then_render_text_fallback"
  startMaximized := table.boolOr "start_maximized" false
  showSidebar := table.boolOr "show_sidebar" true
  showMessageList := table.boolOr "show_message_list" true
  showMessageView := table.boolOr "show_message_view" true
  showDebugPanel := table.boolOr "show_debug_panel" false
  hiddenTagSearches := table.stringsOr "hidden_tag_searches" []

structure SendConfig where
  enabled : Bool
  transport : Str
  command : Option Str
  args : List Str
  mode : Str
  workingDir : Option Str
  env : BTreeMap Str Str
  timeoutSeconds : Nat
  saveSent : Bool
  sentMaildir : Option Str
  sentTags : List Str
  indexSentAfterSend : Bool

/-- `[send]` with the defaults of the source. -/
def SendConfig.ofTable (table : Table) : SendConfig where
  enabled := table.boolOr "enabled" true
  transport := table.stringOr "transport" "external"
  command := table.string? "command"
  args := table.stringsOr "args" []
  mode := table.stringOr "mode" "auto"
  workingDir := table.string? "working_dir"
  env := table.stringMap "env"
  timeoutSeconds := table.unsignedOr "timeout_seconds" 120
  saveSent := table.boolOr "save_sent" false
  sentMaildir := table.string? "sent_maildir"
  sentTags := table.stringsOr "sent_tags" ["sent"]
  indexSentAfterSend := table.boolOr "index_sent_after_send" false

structure DraftsConfig where
  saveMaildir : Bool
  maildir : Option Str
  tags : List Str
  indexAfterSave : Bool

/-- `[drafts]` with the defaults of the source. -/
def DraftsConfig.ofTable (table : Table) : DraftsConfig where
  saveMaildir := table.boolOr "save_maildir" true
  maildir := table.string? "maildir"
  tags := table.stringsOr "tags" ["draft"]
  indexAfterSave := table.boolOr "index_after_save" true

structure SyncConfig where
  enabled : Bool
  manualActionLabel : Str
  timeoutSeconds : Nat
  notmuchDatabaseUpdateEnabled : Bool
  notmuchDatabaseUpdateOnStartup : Bool
  notmuchDatabaseUpdateCommand : Str
  externalReceiveEnabled : Bool
  externalReceiveOnStartup : Bool
  externalReceiveCommand : Str

/-- `[sync]` with the defaults of the source. -/
def SyncConfig.ofTable (table : Table) : SyncConfig where
  enabled := table.boolOr "enabled" false
  manualActionLabel := table.stringOr "manual_action_label" "Sync"
  timeoutSeconds := table.unsignedOr "timeout_seconds" 300
  notmuchDatabaseUpdateEnabled := table.boolOr "notmuch_database_update_enabled" false
  notmuchDatabaseUpdateOnStartup := table.boolOr "notmuch_database_update_on_startup" false
  notmuchDatabaseUpdateCommand := table.stringOr "notmuch_database_update_command" ""
  externalReceiveEnabled := table.boolOr "external_receive_enabled" false
  externalReceiveOnStartup := table.boolOr "external_receive_on_startup" false
  externalReceiveCommand := table.stringOr "external_receive_command" ""

structure AutomationConfig where
  enabled : Bool
  socketPath : Option Str
  token : Option Str
  screenshotDir : Str
  allowLiveSendTest : Bool
  allowLiveTagTest : Bool

/-- `[automation]` with the defaults of the source. -/
def AutomationConfig.ofTable (table : Table) : AutomationConfig where
  enabled := table.boolOr "enabled" false
  socketPath := table.string? "socket_path"
  token := table.string? "token"
  screenshotDir := table.stringOr "screenshot_dir" "artifacts/screenshots"
  allowLiveSendTest := table.boolOr "allow_live_send_test" false
  allowLiveTagTest := table.boolOr "allow_live_tag_test" false

structure AppConfig where
  notmuch : NotmuchConfig
  identity : IdentityConfig
  ui : UiConfig
  send : SendConfig
  drafts : DraftsConfig
  sync : SyncConfig
  automation : AutomationConfig

/-- The configuration without a check of the keys; `AppConfig::default` is that of the empty
table. -/
def AppConfig.ofTable (root : Table) : AppConfig where
  notmuch := .ofTable (root.section? "notmuch")
  identity := .ofTable (root.section? "identity")
  ui := .ofTable (root.section? "ui")
  send := .ofTable (root.section? "send")
  drafts := .ofTable (root.section? "drafts")
  sync := .ofTable (root.section? "sync")
  automation := .ofTable (root.section? "automation")

/-! ## Validation -/

def maxSearchPageSize : Nat := 1000

def maxThreadPreviewLines : Nat := 20

def maxSendTimeoutSeconds : Nat := 30 * 365 * 24 * 60 * 60

inductive ThemePreference where
  | system
  | light
  | dark

def ThemePreference.asStr : ThemePreference → Str
  | .system => "system".toList
  | .light => "light".toList
  | .dark => "dark".toList

/-- `from_str`. -/
def ThemePreference.fromStr (value : Str) : Option ThemePreference :=
  if value = "system".toList then some .system
  else if value = "light".toList then some .light
  else if value = "dark".toList then some .dark
  else none

inductive LayoutPreference where
  | auto
  | threePane
  | stacked
deriving DecidableEq

/-- `str::to_lowercase`, for a text that is compared with ASCII texts: of the characters outside
ASCII only the Kelvin sign becomes an ASCII one. -/
def toLowercase (value : Str) : Str :=
  value.map fun c => if c = '\u212A' then 'k' else asciiLower c

def autoLayoutNames : List Str := ["".toList, "auto".toList]

def threePaneLayoutNames : List Str :=
  ["three".toList, "three_pane".toList, "threepane".toList, "3pane".toList, "3_pane".toList,
    "column".toList, "columns".toList, "side_by_side".toList, "sidebyside".toList,
    "side_by_side_columns".toList]

def stackedLayoutNames : List Str :=
  ["stacked".toList, "stack".toList, "top".toList, "top_stack".toList,
    "list_above_message".toList, "sidebar_list_top".toList]

/-- Layouts are compared without regard to case, and a hyphen counts as an underscore. -/
def normalizedLayout (value : Str) : Str := toLowercase (replace (trim value) '-' ['_'])

/-- One of the names of the three layouts. -/
def isSupportedLayout (value : Str) : Bool :=
  normalizedLayout value ∈ autoLayoutNames ++ threePaneLayoutNames ++ stackedLayoutNames

def require (condition : Bool) (message : Text) : Except Text Unit :=
  if condition then .ok () else .error message

/-- A message about a value that is not accepted. -/
def gotMessage (message : String) (value : Piece) : Text := [.lit message.toList, value]

def boundMessage (message : String) (bound : Nat) (value : Nat) : Text :=
  [.lit message.toList, .lit (natText bound), .lit "; got ".toList, .lit (natText value)]

/-- The monotonic timer represents every deadline within the limit. -/
def validateSendTimeoutSeconds (seconds : Nat) : Except Text Nat := do
  require (0 < seconds) (lit "send.timeout_seconds must be greater than zero")
  require (seconds ≤ maxSendTimeoutSeconds)
    (gotMessage "send.timeout_seconds must not exceed " (.lit (natText maxSendTimeoutSeconds)))
  return seconds

def isHtmlMode (value : Str) : Bool :=
  value = "sanitize_then_render_text_fallback".toList || value = "visual_html_preferred".toList

def isSendMode (value : Str) : Bool :=
  value ∈ ["auto".toList, "stdin_rfc5322".toList, "file_arg".toList, "command_template".toList]

/-- The arguments have a place for the file when the mode needs one. -/
def hasFileArgument (mode : Str) (args : List Str) : Bool :=
  mode ≠ "command_template".toList || args.any (contains · "{file}".toList)

/-- The checks in the order of the source, each with its own message. -/
def AppConfig.validate (config : AppConfig) : Except Text Unit := do
  require config.notmuch.openReadwriteOnlyForMutations
    (lit ("notmuch.open_readwrite_only_for_mutations must be true; notm always opens searches "
      ++ "and message views read-only"))
  require (1 ≤ config.ui.pageSize && config.ui.pageSize ≤ maxSearchPageSize)
    (boundMessage "ui.page_size must be between 1 and " maxSearchPageSize config.ui.pageSize)
  require (ThemePreference.fromStr config.ui.theme).isSome
    (gotMessage "ui.theme must be exactly one of system, light, or dark; got "
      (.debug config.ui.theme))
  require (1 ≤ config.ui.threadPreviewLines && config.ui.threadPreviewLines ≤ maxThreadPreviewLines)
    (boundMessage "ui.thread_preview_lines must be between 1 and " maxThreadPreviewLines
      config.ui.threadPreviewLines)
  require (isSupportedLayout config.ui.layout)
    (gotMessage "ui.layout must be one of auto, three_pane (or columns), or stacked; got "
      (.debug config.ui.layout))
  require (isHtmlMode config.ui.htmlMode)
    (gotMessage ("ui.html_mode must be one of sanitize_then_render_text_fallback or "
      ++ "visual_html_preferred; got ")
      (.debug config.ui.htmlMode))
  require (config.send.transport = "external".toList)
    (gotMessage "send.transport must be external; got " (.debug config.send.transport))
  require (isSendMode config.send.mode)
    (gotMessage "send.mode must be one of auto, stdin_rfc5322, file_arg, or command_template; got "
      (.debug config.send.mode))
  require (hasFileArgument config.send.mode config.send.args)
    (lit ("send.args must include an entry containing \x7bfile\x7d when send.mode is "
      ++ "command_template"))
  let _ ← validateSendTimeoutSeconds config.send.timeoutSeconds
  require (0 < config.sync.timeoutSeconds)
    (lit "sync.timeout_seconds must be greater than zero")

/-- Why a file is not accepted. -/
inductive ConfigError where
  | missing
  | deserialize
  | invalid (message : Text)

/-- A configuration file that the user names must be there. -/
def loadAppConfig (explicitPath : Bool) (file : Option Table) : Except ConfigError AppConfig :=
  if explicitPath && file.isNone then .error .missing
  else
    let root := file.getD []
    if root.all sectionAccepted then
      match (AppConfig.ofTable root).validate with
      | .ok () => .ok (.ofTable root)
      | .error message => .error (.invalid message)
    else .error .deserialize

end Notm.Ui
