import Notm.Lib.Transition
import Notm.Notmuch.Message
import Notm.Ui.StandaloneMessage

/-!
# The message windows and what happens to them

`StandaloneMessageController` keeps the open windows. Users act in a window; tag changes, the
remote-image setting and the permissions of senders reach all of them. What the render callbacks
of a window give can change at any time.

* `Event` — what users do, and what reaches all windows.
* `handle` — one event, window by window.
-/

namespace Notm.Ui

open Rust Mail Notmuch Transition

/-- What the main window hands over when it opens a message in a window of its own. -/
structure StandaloneOpenOptions where
  messages : List MessageSummary
  selectedIndex : Nat
  preparedRetainedBytes : Nat
  messageHasHtml : Str → Bool
  renderers : Renderers
  collapseQuotes : Bool
  responseSensitive : Bool

/-- The last change of a message counts; none where its tags and files stay as they are. -/
def changedMessage (changes : List AppliedTagChange) (message : MessageSummary) :
    Option MessageSummary :=
  (changes.reverse.find? fun change => change.messageId = message.messageId).bind fun change =>
    if message.tags = change.tags && message.filenames = change.filenames then none
    else some { message with tags := change.tags, filenames := change.filenames }

namespace StandaloneMessageWindow

variable (crates : Crates) (permissions : ImagePermissions) (preferences : ViewPreferences)

/-- A new window: its text buffer and its document are empty, and images load as configured. -/
def created (options : StandaloneOpenOptions) (message : MessageSummary) (selectedIndex : Nat)
    (view : MessageViewKind) : StandaloneMessageWindow where
  preparedRetainedBytes := options.preparedRetainedBytes
  messageHasHtml := options.messageHasHtml
  renderers := options.renderers
  pathActionsSensitive := options.responseSensitive
  messageHtmlById := .empty
  messages := options.messages
  selectedIndex := selectedIndex
  view := view
  collapseQuotes := options.collapseQuotes
  imagePolicy := .config
  title := standaloneMessageWindowTitle message
  messageHeader := none
  visibleChild := .text
  textBuffer := none
  htmlDocument := none
  autoLoadImages := permissions.remoteImages
  loadsAsked := []

/-- `preferred_view`, before there is a window. -/
def initialView (options : StandaloneOpenOptions) (message : MessageSummary) : MessageViewKind :=
  .fromPreference
    (messageViewPreference crates preferences message (options.messageHasHtml message.messageId))

def «open» (options : StandaloneOpenOptions) (message : MessageSummary) (selectedIndex : Nat) :
    StandaloneMessageWindow :=
  let view := initialView crates preferences options message
  ((created permissions options message selectedIndex view).showMessageView crates permissions
    view).1

/-- The buttons follow the message that is selected, not the document that is shown. -/
def updateCurrentMessageButtons (w : StandaloneMessageWindow) : StandaloneMessageWindow :=
  match w.currentMessage with
  | none => w
  | some message => w.updateMessageButtons message

def setPathActionsSensitive (w : StandaloneMessageWindow) (sensitive : Bool) :
    StandaloneMessageWindow :=
  let w := { w with pathActionsSensitive := sensitive }
  if sensitive then w.updateCurrentMessageButtons else w

/-- `apply_authoritative_changes_to_messages`, and the refresh where the selected message is among
the changed ones. -/
def applyAuthoritativeTagChanges (w : StandaloneMessageWindow)
    (changes : List AppliedTagChange) : StandaloneMessageWindow :=
  let selectedAffected := (w.currentMessage.bind (changedMessage changes)).isSome
  let w :=
    { w with
      messages := w.messages.map fun message => (changedMessage changes message).getD message }
  if selectedAffected then
    match w.currentMessage with
    | none => w
    | some message =>
      { w with title := standaloneMessageWindowTitle message }.refreshMessageHeader message
  else w

/-- `stop_loading`, and no images. -/
def stopImages (w : StandaloneMessageWindow) : StandaloneMessageWindow :=
  { w with autoLoadImages := false }

/-- The document is stopped before it is rendered again. One that is not visible is stopped as well
if images are no longer allowed, and is not rendered. -/
def refreshRemoteImagePolicy (w : StandaloneMessageWindow) (current : Bool) :
    StandaloneMessageWindow :=
  let w := { w with imagePolicy := .config }
  let htmlVisible := w.view = .html
  let w := if htmlVisible || !current then w.stopImages else w
  if htmlVisible then (w.showMessageView crates permissions .html).1
  else w.updateCurrentMessageButtons

/-- The selected message is of this sender. -/
def showsSender (w : StandaloneMessageWindow) (sender : Str) : Bool :=
  (w.currentMessage.bind (messageImageSender crates)) = some sender

def refreshSenderImagePolicy (w : StandaloneMessageWindow) (sender : Str) :
    StandaloneMessageWindow :=
  if w.showsSender crates sender then
    let w := { w with imagePolicy := .config }
    if w.view = .html then (w.stopImages.showMessageView crates permissions .html).1
    else w.updateCurrentMessageButtons
  else w

end StandaloneMessageWindow

/-! ## Eviction -/

def standaloneMessageWindowLimit : Nat := 4

def standalonePreparedBytesLimit : Nat := 128 * 1024 * 1024

/-- Windows leave, the oldest first, until the content of the others fits. -/
def evictRetained (retained evicted : Nat) : List Nat → Nat
  | [] => evicted
  | bytes :: rest =>
    if standalonePreparedBytesLimit < retained then
      evictRetained (retained - bytes) (evicted + 1) rest
    else evicted

/-- How many of the oldest windows have to go before another one: those above the number of windows,
and then as many as its prepared bytes need. -/
def standaloneWindowEvictionCount (currentBytes : List Nat) (incomingBytes : Nat) : Nat :=
  let evicted := saturatingAdd currentBytes.length 1 - standaloneMessageWindowLimit
  let kept := currentBytes.drop evicted
  evictRetained (kept.foldl saturatingAdd incomingBytes) evicted kept

/-! ## The windows together -/

/-- The controller: the open windows in the order of their opening, with the permissions and the
view preferences that all of them read. -/
structure StandaloneController where
  windows : List StandaloneMessageWindow
  permissions : ImagePermissions
  preferences : ViewPreferences

namespace StandaloneController

variable (crates : Crates) (c : StandaloneController)

/-- A thread without messages opens no window. -/
def «open» (options : StandaloneOpenOptions) : StandaloneController :=
  let selectedIndex := min options.selectedIndex (options.messages.length - 1)
  match options.messages[selectedIndex]? with
  | none => c
  | some message =>
    let evictCount :=
      standaloneWindowEvictionCount (c.windows.map (·.preparedRetainedBytes))
        options.preparedRetainedBytes
    { c with
      windows := c.windows.drop evictCount ++
        [.open crates c.permissions c.preferences options message selectedIndex] }

def setPathActionsSensitive (sensitive : Bool) : StandaloneController :=
  { c with windows := c.windows.map (·.setPathActionsSensitive sensitive) }

def applyAuthoritativeTagChanges (changes : List AppliedTagChange) : StandaloneController :=
  { c with windows := c.windows.map (·.applyAuthoritativeTagChanges changes) }

/-- The settings are applied: the windows are refreshed when the setting is another. -/
def applyRemoteImages (value : Bool) : StandaloneController :=
  if c.permissions.remoteImages = value then c
  else
    let permissions := { c.permissions with remoteImages := value }
    { c with
      permissions := permissions
      windows := c.windows.map (·.refreshRemoteImagePolicy crates permissions value) }

def refreshSenderImagePolicy (sender : Str) : StandaloneController :=
  let sender := normalizeSender sender
  if sender = [] then c
  else
    { c with
      windows := c.windows.map (·.refreshSenderImagePolicy crates c.permissions sender) }

/-- `apply_sender_image_trust`; `persisted` says whether the permission could be written. -/
def applySenderImageTrust (sender : Str) (enabled persisted : Bool) : StandaloneController :=
  match changedSenders crates c.permissions sender enabled with
  | none => c
  | some (sender, next) =>
    if persisted then
      { c with permissions := { c.permissions with trustedImageSenders := next }
        }.refreshSenderImagePolicy crates sender
    else c

/-! ## Events -/

/-- What the user and the main window do to the windows. -/
inductive Event where
  | open (options : StandaloneOpenOptions)
  | close (window : Nat)
  | act (window : Nat) (action : StandaloneMessageWindow.Action)
  /-- From here on the render callbacks of the window give something else. -/
  | render (window : Nat) (renderers : Renderers)
  | setPreferences (preferences : ViewPreferences)
  | setPathActionsSensitive (sensitive : Bool)
  | applyTagChanges (changes : List AppliedTagChange)
  | applyRemoteImages (value : Bool)
  /-- The main window sets the permission of a sender. -/
  | trustSender (sender : Str) (enabled persisted : Bool)
  /-- A message window sets the permission of the sender of its message. -/
  | trustMessage (window : Nat) (enabled persisted : Bool)

/-- One step. It never fails: an index without a window does nothing. -/
def handle : Event → StandaloneController
  | .open options => c.open crates options
  | .close i => { c with windows := c.windows.eraseIdx i }
  | .act i action =>
    { c with windows := c.windows.modify i (·.act crates c.permissions c.preferences action) }
  | .render i renderers =>
    { c with windows := c.windows.modify i fun w => { w with renderers := renderers } }
  | .setPreferences preferences => { c with preferences := preferences }
  | .setPathActionsSensitive sensitive => c.setPathActionsSensitive sensitive
  | .applyTagChanges changes => c.applyAuthoritativeTagChanges changes
  | .applyRemoteImages value => c.applyRemoteImages crates value
  | .trustSender sender enabled persisted => c.applySenderImageTrust crates sender enabled persisted
  | .trustMessage i enabled persisted =>
    match c.windows[i]?.bind (·.senderTrustRequest crates) with
    | none => c
    | some sender => c.applySenderImageTrust crates sender enabled persisted

/-- The program starts without message windows. -/
def launched (permissions : ImagePermissions) (preferences : ViewPreferences) :
    StandaloneController := ⟨[], permissions, preferences⟩

/-- A step as a relation, for the runs. -/
def Steps (c : StandaloneController) (event : Event) (c' : StandaloneController) : Prop :=
  c.handle crates event = c'

end StandaloneController

end Notm.Ui
