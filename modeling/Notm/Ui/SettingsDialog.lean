import Notm.Lib.BTreeSet
import Notm.Ui.AppConfig

/-!
# The settings dialog

The dialog shows the settings that the program was started with in its entries, reads the entries
when it is saved and writes them into the configuration file key by key.

* `SettingsValues` — the texts and switches of the dialog, and how they are made from a
  configuration.
* `KeyWrite` — what saving writes, key by key.
-/

namespace Notm.Ui

open Rust

/-! ## Parsing the entries -/

def isDigit (c : Char) : Bool := isAsciiDigit c.toNat

/-- `str::parse` for `usize` and `u64`. -/
def parseUnsigned (s : Str) : Option Nat :=
  let digits := if s.head? = some '+' then s.tail else s
  if digits.isEmpty || !digits.all isDigit then none
  else
    let value := digits.foldl (fun value digit => value * 10 + (digit.toNat - 48)) 0
    if value < 2 ^ 64 then some value else none

def validatePageSize (pageSize : Nat) : Except Text Nat := do
  require (1 ≤ pageSize && pageSize ≤ maxSearchPageSize)
    (gotMessage "page size must be between 1 and " (.lit (natText maxSearchPageSize)))
  return pageSize

def validateThreadPreviewLines (lines : Nat) : Except Text Nat := do
  require (1 ≤ lines && lines ≤ maxThreadPreviewLines)
    (gotMessage "thread preview lines must be between 1 and "
      (.lit (natText maxThreadPreviewLines)))
  require (lines < 2 ^ 63)
    (lit "thread preview line count is too large to store in configuration")
  return lines

/-- The text of the entry without the blanks around it, and then the check of the configuration
file. -/
def parseSettingsPageSize (value : Str) : Except Text Nat :=
  match parseUnsigned (trim value) with
  | none => .error (lit "page size must be a positive whole number")
  | some pageSize => validatePageSize pageSize

/-- The combo box gives one of its options, but the text is checked all the same. -/
def parseSettingsTheme (value : Str) : Except Text ThemePreference :=
  match ThemePreference.fromStr value with
  | none =>
    .error (gotMessage "theme must be exactly one of system, light, or dark; got " (.debug value))
  | some theme => .ok theme

/-- A number that does not parse and one that is out of range are told apart. -/
def parseSettingsThreadPreviewLines (value : Str) : Except Text Nat :=
  match parseUnsigned (trim value) with
  | none => .error (lit "thread preview lines must be a whole number from 1 to 20")
  | some lines => validateThreadPreviewLines lines

/-- As for the preview lines, with the bounds of the send timeout. -/
def parseSendTimeoutSeconds (value : Str) : Except Text Nat :=
  match parseUnsigned (trim value) with
  | none =>
    .error (gotMessage "send.timeout_seconds must be a whole number from 1 through "
      (.lit (natText maxSendTimeoutSeconds)))
  | some seconds => validateSendTimeoutSeconds seconds

/-- A template needs a place for the file. -/
def validateSendSettings (mode : Str) (args : List Str) : Except Text Unit :=
  require (hasFileArgument mode args)
    (lit "send arguments must include \x7bfile\x7d when send mode is command_template")

/-! ## The dialog -/

inductive TransportMode where
  | auto
  | stdinRfc5322
  | fileArg
  | commandTemplate

/-- Any other text is `auto`. -/
def transportMode (value : Str) : TransportMode :=
  if value = "stdin_rfc5322".toList then .stdinRfc5322
  else if value = "file_arg".toList then .fileArg
  else if value = "command_template".toList then .commandTemplate
  else .auto

def transportModeName : TransportMode → Str
  | .auto => "auto".toList
  | .stdinRfc5322 => "stdin_rfc5322".toList
  | .fileArg => "file_arg".toList
  | .commandTemplate => "command_template".toList

def parseLayoutPreference (value : Str) : LayoutPreference :=
  if normalizedLayout value ∈ threePaneLayoutNames then .threePane
  else if normalizedLayout value ∈ stackedLayoutNames then .stacked
  else .auto

def layoutPreferenceName : LayoutPreference → Str
  | .auto => "auto".toList
  | .threePane => "three_pane".toList
  | .stacked => "stacked".toList

/-- What `combo_active_id` returns for a row that `settings_combo_row` has made. -/
def comboActiveId (options : List Str) (active : Str) : Str :=
  if active ∈ options || !(trim active).isEmpty then active else options.headD []

/-- The texts and switches of the dialog. -/
structure SettingsValues where
  databasePath : Str
  notmuchConfigPath : Str
  notmuchProfile : Str
  defaultQuery : Str
  excludedTags : Str
  syncMaildirFlagsAfterTagChange : Bool
  identityName : Str
  primaryEmail : Str
  otherEmail : Str
  theme : ThemePreference
  pageSize : Nat
  threadPreviewLines : Nat
  showThreadNumbers : Bool
  showThreadDates : Bool
  showThreadTags : Bool
  showThreadPreview : Bool
  showKeybindHints : Bool
  layout : Str
  showSidebar : Bool
  showMessageList : Bool
  showMessageView : Bool
  htmlMode : Str
  startMaximized : Bool
  showDebugPanel : Bool
  remoteImages : Bool
  htmlDarkBackground : Bool
  hiddenTagSearches : Str
  sendEnabled : Bool
  sendTransport : Str
  sendCommand : Str
  sendArgs : Str
  sendMode : Str
  sendWorkingDir : Str
  sendEnv : Str
  sendTimeoutSeconds : Nat
  saveSent : Bool
  sentMaildir : Str
  sentTags : Str
  indexSentAfterSend : Bool
  saveDraftsToMaildir : Bool
  draftMaildir : Str
  draftTags : Str
  indexDraftAfterSave : Bool
  syncEnabled : Bool
  manualSyncLabel : Str
  notmuchDatabaseUpdateEnabled : Bool
  notmuchDatabaseUpdateOnStartup : Bool
  notmuchDatabaseUpdateCommand : Str
  externalReceiveEnabled : Bool
  externalReceiveOnStartup : Bool
  externalReceiveCommand : Str
  automationEnabled : Bool
  automationSocket : Str
  automationToken : Str
  screenshotDir : Str
  allowLiveSendTest : Bool
  allowLiveTagTest : Bool

/-- A value that is not set is shown as an empty entry. -/
def optionText (value : Option Str) : Str := value.getD []

def themeOptions : List Str := ["system".toList, "light".toList, "dark".toList]

def layoutOptions : List Str := ["auto".toList, "three_pane".toList, "stacked".toList]

def htmlModeOptions : List Str :=
  ["sanitize_then_render_text_fallback".toList, "visual_html_preferred".toList]

def sendModeOptions : List Str :=
  ["auto".toList, "stdin_rfc5322".toList, "file_arg".toList, "command_template".toList]

/-- The values of a dialog that is seeded from the configuration (`launch_options`, the state of the
window that is started with them, `settings_dialog_seed`) and saved as it is. `existing` is the file
when the dialog opens. -/
def unchangedValues (config : AppConfig) (existing : Table) : Except Text SettingsValues := do
  let theme := (ThemePreference.fromStr config.ui.theme).getD .system
  let preferHtmlView := decide (config.ui.htmlMode = "visual_html_preferred".toList)
  -- the window keeps the hidden tag searches as a set
  let hiddenTagSearches := (BTreeSet.ofList config.ui.hiddenTagSearches).toList
  let pageSize ← parseSettingsPageSize
    (natText (max 1 (min config.ui.pageSize maxSearchPageSize)))
  let theme ← parseSettingsTheme (comboActiveId themeOptions theme.asStr)
  let threadPreviewLines ← parseSettingsThreadPreviewLines
    (natText config.ui.threadPreviewLines)
  let sendTimeoutSeconds ← parseSendTimeoutSeconds (natText config.send.timeoutSeconds)
  return {
    databasePath := optionText config.notmuch.databasePath
    notmuchConfigPath := optionText config.notmuch.configPath
    notmuchProfile := optionText config.notmuch.profile
    defaultQuery := config.notmuch.defaultQuery
    excludedTags := joinStringList config.notmuch.excludedTags
    syncMaildirFlagsAfterTagChange := config.notmuch.syncMaildirFlagsAfterTagChange
    identityName := optionText config.identity.name
    primaryEmail := optionText config.identity.primaryEmail
    otherEmail := joinStringList config.identity.otherEmail
    theme := theme
    pageSize := pageSize
    threadPreviewLines := threadPreviewLines
    showThreadNumbers := config.ui.showThreadNumbers
    showThreadDates := config.ui.showThreadDates
    showThreadTags := config.ui.showThreadTags
    showThreadPreview := config.ui.showThreadPreview
    showKeybindHints := config.ui.showKeybindHints
    layout := comboActiveId layoutOptions
      (layoutPreferenceName (parseLayoutPreference config.ui.layout))
    showSidebar := config.ui.showSidebar
    showMessageList := config.ui.showMessageList
    showMessageView := config.ui.showMessageView
    htmlMode := comboActiveId htmlModeOptions
      (if preferHtmlView then "visual_html_preferred".toList
        else "sanitize_then_render_text_fallback".toList)
    startMaximized := config.ui.startMaximized
    showDebugPanel := config.ui.showDebugPanel
    remoteImages := config.ui.remoteImages
    htmlDarkBackground := config.ui.htmlDarkBackground
    hiddenTagSearches := joinStringList hiddenTagSearches
    sendEnabled := config.send.enabled
    sendTransport := comboActiveId ["external".toList]
      ((existing.section? "send").stringOr "transport" "external")
    sendCommand := optionText config.send.command
    sendArgs := joinStringList config.send.args
    sendMode := comboActiveId sendModeOptions (transportModeName (transportMode config.send.mode))
    sendWorkingDir := optionText config.send.workingDir
    sendEnv := formatEnvMap config.send.env
    sendTimeoutSeconds := sendTimeoutSeconds
    saveSent := config.send.saveSent
    sentMaildir := optionText config.send.sentMaildir
    sentTags := joinStringList config.send.sentTags
    indexSentAfterSend := config.send.indexSentAfterSend
    saveDraftsToMaildir := config.drafts.saveMaildir
    draftMaildir := optionText config.drafts.maildir
    draftTags := joinStringList config.drafts.tags
    indexDraftAfterSave := config.drafts.indexAfterSave
    syncEnabled := config.sync.enabled
    manualSyncLabel := config.sync.manualActionLabel
    notmuchDatabaseUpdateEnabled := config.sync.notmuchDatabaseUpdateEnabled
    notmuchDatabaseUpdateOnStartup := config.sync.notmuchDatabaseUpdateOnStartup
    notmuchDatabaseUpdateCommand := config.sync.notmuchDatabaseUpdateCommand
    externalReceiveEnabled := config.sync.externalReceiveEnabled
    externalReceiveOnStartup := config.sync.externalReceiveOnStartup
    externalReceiveCommand := config.sync.externalReceiveCommand
    automationEnabled := config.automation.enabled
    automationSocket := optionText config.automation.socketPath
    automationToken := optionText config.automation.token
    screenshotDir := config.automation.screenshotDir
    allowLiveSendTest := (existing.section? "automation").boolOr "allow_live_send_test" false
    allowLiveTagTest := (existing.section? "automation").boolOr "allow_live_tag_test" false }

/-! ## Writing the file -/

/-- One key of a section is set or, without a value, removed. -/
structure KeyWrite where
  key : String
  value : Option TomlValue

def setString (key : String) (value : Str) : KeyWrite := ⟨key, some (.string value)⟩

/-- An entry of blanks removes the key. -/
def setOptionalString (key : String) (value : Str) : KeyWrite :=
  ⟨key, if (trim value).isEmpty then none else some (.string (trim value))⟩

def setBool (key : String) (value : Bool) : KeyWrite := ⟨key, some (.boolean value)⟩

def setInt (key : String) (value : Int) : KeyWrite := ⟨key, some (.integer value)⟩

def setStringArray (key : String) (values : List Str) : KeyWrite :=
  ⟨key, some (.array (values.map .string))⟩

/-- An empty map removes the key. -/
def setStringMap (key : String) (values : BTreeMap Str Str) : KeyWrite :=
  ⟨key, if values.entries.isEmpty then none
    else some (.table (values.entries.map fun entry => (String.ofList entry.1, .string entry.2)))⟩

def removeKey (key : String) : KeyWrite := ⟨key, none⟩

/-- A write without a value removes the key. -/
def KeyWrite.apply (table : Table) (write : KeyWrite) : Table :=
  match write.value with
  | none => table.remove write.key
  | some value => table.insert write.key value

/-- The keys of `[notmuch]`, in the order in which the dialog writes them. -/
def notmuchWrites (values : SettingsValues) : List KeyWrite :=
  [setOptionalString "database_path" values.databasePath,
    setOptionalString "config_path" values.notmuchConfigPath,
    setOptionalString "profile" values.notmuchProfile,
    setString "default_query" values.defaultQuery,
    setStringArray "excluded_tags" (parseStringList values.excludedTags),
    setBool "open_readwrite_only_for_mutations" true,
    setBool "sync_maildir_flags_after_tag_change" values.syncMaildirFlagsAfterTagChange]

/-- The keys of `[identity]`. -/
def identityWrites (values : SettingsValues) : List KeyWrite :=
  [setOptionalString "name" values.identityName,
    setOptionalString "primary_email" values.primaryEmail,
    setStringArray "other_email" (parseStringList values.otherEmail)]

/-- The keys of `[ui]`. -/
def uiWrites (values : SettingsValues) : List KeyWrite :=
  [setString "theme" values.theme.asStr,
    setInt "page_size" values.pageSize,
    setInt "thread_preview_lines" values.threadPreviewLines,
    setBool "show_thread_numbers" values.showThreadNumbers,
    setBool "show_thread_dates" values.showThreadDates,
    setBool "show_thread_tags" values.showThreadTags,
    setBool "show_thread_preview" values.showThreadPreview,
    setBool "show_keybind_hints" values.showKeybindHints,
    setString "layout" (layoutPreferenceName (parseLayoutPreference values.layout)),
    setBool "show_sidebar" values.showSidebar,
    setBool "show_message_list" values.showMessageList,
    setBool "show_message_view" values.showMessageView,
    setString "html_mode" values.htmlMode,
    setBool "start_maximized" values.startMaximized,
    setBool "show_debug_panel" values.showDebugPanel,
    setBool "remote_images" values.remoteImages,
    setBool "html_dark_background" values.htmlDarkBackground,
    setStringArray "hidden_tag_searches" (parseStringList values.hiddenTagSearches)]

/-- The keys of `[send]`. -/
def sendWrites (values : SettingsValues) : List KeyWrite :=
  [setBool "enabled" values.sendEnabled,
    setString "transport" values.sendTransport,
    setOptionalString "command" values.sendCommand,
    setStringArray "args" (parseStringList values.sendArgs),
    setString "mode" values.sendMode,
    setOptionalString "working_dir" values.sendWorkingDir,
    setStringMap "env" (parseEnvMap values.sendEnv),
    setInt "timeout_seconds" values.sendTimeoutSeconds,
    setBool "save_sent" values.saveSent,
    setOptionalString "sent_maildir" values.sentMaildir,
    setStringArray "sent_tags" (parseStringList values.sentTags),
    setBool "index_sent_after_send" values.indexSentAfterSend,
    removeKey "one_live_self_test_per_run"]

/-- The keys of `[drafts]`. -/
def draftsWrites (values : SettingsValues) : List KeyWrite :=
  [setBool "save_maildir" values.saveDraftsToMaildir,
    setOptionalString "maildir" values.draftMaildir,
    setStringArray "tags" (parseStringList values.draftTags),
    setBool "index_after_save" values.indexDraftAfterSave]

/-- The keys of `[sync]`. An old key that is no longer read is removed. -/
def syncWrites (values : SettingsValues) : List KeyWrite :=
  [setBool "enabled" values.syncEnabled,
    setString "manual_action_label" values.manualSyncLabel,
    removeKey "show_manual_sync_button",
    setBool "notmuch_database_update_enabled" values.notmuchDatabaseUpdateEnabled,
    setBool "notmuch_database_update_on_startup" values.notmuchDatabaseUpdateOnStartup,
    setString "notmuch_database_update_command" values.notmuchDatabaseUpdateCommand,
    setBool "external_receive_enabled" values.externalReceiveEnabled,
    setBool "external_receive_on_startup" values.externalReceiveOnStartup,
    setString "external_receive_command" values.externalReceiveCommand]

/-- The keys of `[automation]`. -/
def automationWrites (values : SettingsValues) : List KeyWrite :=
  [setBool "enabled" values.automationEnabled,
    setOptionalString "socket_path" values.automationSocket,
    setOptionalString "token" values.automationToken,
    setString "screenshot_dir" values.screenshotDir,
    setBool "allow_live_send_test" values.allowLiveSendTest,
    setBool "allow_live_tag_test" values.allowLiveTagTest]

/-- The keys that a saved dialog writes, section by section. -/
def settingsWrites (values : SettingsValues) : List (String × List KeyWrite) :=
  [("notmuch", notmuchWrites values), ("identity", identityWrites values),
    ("ui", uiWrites values), ("send", sendWrites values), ("drafts", draftsWrites values),
    ("sync", syncWrites values), ("automation", automationWrites values)]

/-- `table_entry`: the section becomes a table when it is none. -/
def applySection (root : Table) (writes : String × List KeyWrite) : Table :=
  writes.2.foldl
    (fun root write => root.insert writes.1 (.table (write.apply (root.section? writes.1)))) root

/-- `file` is what the path has, when one is configured. -/
def persistSettingsValues (file : Option (Option Table)) (values : SettingsValues) :
    Except Text Table := do
  let _ ← validatePageSize values.pageSize
  let _ ← validateThreadPreviewLines values.threadPreviewLines
  let sendTimeoutSeconds ← validateSendTimeoutSeconds values.sendTimeoutSeconds
  require (sendTimeoutSeconds < 2 ^ 63) (lit "send.timeout_seconds is too large to store")
  validateSendSettings values.sendMode (parseStringList values.sendArgs)
  match file with
  | none => .error (lit "app config path is not configured")
  | some contents => return (settingsWrites values).foldl applySection (contents.getD [])

end Notm.Ui
