import Notm.Lib.Counter
import Notm.Ui.ImageSenders

/-!
# A message window

`standalone_message.rs`: a window shows one message of a thread at a time. Selection, title,
header, view and body are separate pieces of its state. The body is the page of a stack that is
visible, a text buffer or the document of a web view; a render callback gives its content, and
where the callback fails only the status line changes.

A body is kept with the message that it was rendered from. The window also keeps a log of the
messages for which the user asked to load the images once. No code reads either.

* `StandaloneMessageWindow` — selection, title, header, view and body as separate pieces.
* `showMessageView` and the views below it — a render callback that fails leaves the body.
* `showing_showMessageView` — the ways a view can be shown.
-/

namespace Notm.Ui

open Rust Mail

/-! ## What a window is made of -/

/-- The four ways in which a window shows its message. -/
inductive MessageViewKind where
  | text
  | html
  | headers
  | raw
deriving DecidableEq

namespace MessageViewKind

def preference : MessageViewKind → MessageViewPreference
  | text => .text
  | html => .visualHtml
  | headers => .fullHeaders
  | raw => .rawSource

def fromPreference : MessageViewPreference → MessageViewKind
  | .text => text
  | .visualHtml => html
  | .fullHeaders => headers
  | .rawSource => raw

theorem fromPreference_eq_html {preference : MessageViewPreference} :
    fromPreference preference = html ↔ preference = .visualHtml := by
  cases preference <;> decide

end MessageViewKind

/-- Whether the next HTML view loads remote images by the configuration, or once because the user
has asked for it. -/
inductive StandaloneImagePolicy where
  | config
  | once
deriving DecidableEq

/-- The pages of the message stack. -/
inductive StackPage where
  | text
  | html
deriving DecidableEq

/-- What a render callback gave, and the message that it was asked for. -/
structure MessageBody where
  message : MessageSummary
  content : Str
deriving DecidableEq

/-- The header box is built from these. -/
structure MessageHeader where
  message : MessageSummary
  index : Nat
  total : Nat
deriving DecidableEq

/-- The render callbacks. They read the prepared content of a message, and fail where it is not
there or too large for its view. -/
structure Renderers where
  text : MessageSummary → Bool → Except Str Str
  headers : MessageSummary → Except Str Str
  raw : MessageSummary → Except Str Str
  html : MessageSummary → Bool → Except Str Str

/-- The answers of `message_has_html`, by message id. -/
structure HtmlAnswers (hasHtml : Str → Bool) where
  answers : BTreeMap Str Bool
  agrees : ∀ entry ∈ answers.entries, entry.2 = hasHtml entry.1

namespace HtmlAnswers

variable {hasHtml : Str → Bool}

/-- Nothing has been asked yet. -/
def empty : HtmlAnswers hasHtml := ⟨.empty, fun _ h => absurd h List.not_mem_nil⟩

/-- Keep the answer for a message. -/
def insert (cache : HtmlAnswers hasHtml) (messageId : Str) : HtmlAnswers hasHtml where
  answers := cache.answers.insert messageId (hasHtml messageId)
  agrees entry hentry := by
    rcases key_of_mem_insertEntry hentry with rfl | hentry
    · rfl
    · exact cache.agrees entry hentry

theorem get?_eq {cache : HtmlAnswers hasHtml} {messageId : Str} {answer : Bool}
    (h : cache.answers.get? messageId = some answer) : answer = hasHtml messageId :=
  cache.agrees _ (BTreeMap.mem_of_get? h)

end HtmlAnswers

/-- The window: its messages, the one that is selected, what is shown of it, and whether its HTML
view may load remote images. The renderers are the callbacks that read a message from disk, so that
their answers may change. -/
structure StandaloneMessageWindow where
  preparedRetainedBytes : Nat
  messageHasHtml : Str → Bool
  renderers : Renderers
  pathActionsSensitive : Bool
  messageHtmlById : HtmlAnswers messageHasHtml
  messages : List MessageSummary
  selectedIndex : Nat
  view : MessageViewKind
  collapseQuotes : Bool
  imagePolicy : StandaloneImagePolicy
  title : Str
  messageHeader : Option MessageHeader
  visibleChild : StackPage
  textBuffer : Option MessageBody
  htmlDocument : Option MessageBody
  autoLoadImages : Bool
  loadsAsked : List Str

/-- A value of blanks alone counts as empty. -/
def nonEmptyOr (value fallback : Str) : Str := if trim value = [] then fallback else value

/-- The ellipsis takes the place of the last character. -/
def truncateStatusText (value : Str) (maxChars : Nat) : Str :=
  if value.length ≤ maxChars then value else value.take (maxChars - 1) ++ ['…']

def standaloneMessageWindowTitle (message : MessageSummary) : Str :=
  "notm: ".toList ++ truncateStatusText (nonEmptyOr message.subject "(no subject)".toList) 80

/-- The message that `delta` leads to; indices stop at the ends. -/
def relativeMessageIndex (current total : Nat) (delta : Int) : Option Nat :=
  if total = 0 then none
  else if 0 ≤ delta then some (min (saturatingAdd current delta.toNat) (total - 1))
  else some (current - delta.natAbs)

namespace StandaloneMessageWindow

/-- The body on the visible page of the stack. -/
def shownBody (w : StandaloneMessageWindow) : Option MessageBody :=
  match w.visibleChild with
  | .text => w.textBuffer
  | .html => w.htmlDocument

/-- The message at the selected index. -/
def currentMessage (w : StandaloneMessageWindow) : Option MessageSummary :=
  w.messages[w.selectedIndex]?

/-- The callback is asked once for each message, and its answer is kept. -/
def cachedMessageHasHtml (w : StandaloneMessageWindow) (message : MessageSummary) :
    Bool × StandaloneMessageWindow :=
  match w.messageHtmlById.answers.get? message.messageId with
  | some hasHtml => (hasHtml, w)
  | none =>
    (w.messageHasHtml message.messageId,
      { w with messageHtmlById := w.messageHtmlById.insert message.messageId })

/-- Of what the buttons show only the cached answer is kept. -/
def updateMessageButtons (w : StandaloneMessageWindow) (message : MessageSummary) :
    StandaloneMessageWindow :=
  (w.cachedMessageHasHtml message).2

/-- The place of the message is counted from one. -/
def refreshMessageHeader (w : StandaloneMessageWindow) (message : MessageSummary) :
    StandaloneMessageWindow :=
  { w with messageHeader := some ⟨message, w.selectedIndex + 1, max w.messages.length 1⟩ }

/-! ## Rendering -/

/-- Leaving the HTML view takes the permission to load images with it. -/
def setActiveMessageView (w : StandaloneMessageWindow) (active : MessageViewKind) :
    StandaloneMessageWindow :=
  { w with
    autoLoadImages := if active = .html then w.autoLoadImages else false
    visibleChild := if active = .html then .html else .text
    view := active }

/-- `show_text_message`, `show_headers` and `show_raw` with the result of their callback. -/
def showInTextView (w : StandaloneMessageWindow) (view : MessageViewKind)
    (message : MessageSummary) (rendered : Except Str Str) : StandaloneMessageWindow × Bool :=
  match rendered with
  | .ok content =>
    ({ w.setActiveMessageView view with textBuffer := some ⟨message, content⟩ }, true)
  | .error _ => (w, false)

/-- The text view, with the quoted lines collapsed or not. -/
def showTextMessage (w : StandaloneMessageWindow) (message : MessageSummary) :
    StandaloneMessageWindow × Bool :=
  w.showInTextView .text message (w.renderers.text message w.collapseQuotes)

def showHeaders (w : StandaloneMessageWindow) (message : MessageSummary) :
    StandaloneMessageWindow × Bool :=
  w.showInTextView .headers message (w.renderers.headers message)

def showRaw (w : StandaloneMessageWindow) (message : MessageSummary) :
    StandaloneMessageWindow × Bool :=
  w.showInTextView .raw message (w.renderers.raw message)

/-- The permission for one load is used up by the next render. -/
def takeImagePolicyForRender (w : StandaloneMessageWindow) :
    StandaloneImagePolicy × StandaloneMessageWindow :=
  (w.imagePolicy, { w with imagePolicy := .config })

variable (crates : Crates) (permissions : ImagePermissions) (preferences : ViewPreferences)

/-- `render_visual_html_for_message`: whether a document is rendered with its remote images. -/
def allowRemoteImages (policy : StandaloneImagePolicy) (message : MessageSummary) : Bool :=
  match policy with
  | .config => permissions.messageAllowsImages crates message
  | .once => true

/-- The document and the permission change together, and only if the message could be rendered. A
message that cannot be leaves both as they are. -/
def showHtmlMessage (w : StandaloneMessageWindow) (message : MessageSummary) :
    StandaloneMessageWindow × Bool :=
  let (policy, w) := w.takeImagePolicyForRender
  let allow := allowRemoteImages crates permissions policy message
  match w.renderers.html message allow with
  | .ok document =>
    let w := { w with autoLoadImages := allow, htmlDocument := some ⟨message, document⟩ }
    (w.setActiveMessageView .html, true)
  | .error _ => (w, false)

/-- A message without HTML has no HTML view. The answer says whether the view was shown, for the
callers that fall back to the text. -/
def showMessageView (w : StandaloneMessageWindow) (view : MessageViewKind) :
    StandaloneMessageWindow × Bool :=
  match w.currentMessage with
  | none => (w, false)
  | some message =>
    let (hasHtml, w) := if view = .html then w.cachedMessageHasHtml message else (true, w)
    if hasHtml then
      let w := { w with title := standaloneMessageWindowTitle message }.refreshMessageHeader message
      let (w, shown) :=
        match view with
        | .text => w.showTextMessage message
        | .html => w.showHtmlMessage crates permissions message
        | .headers => w.showHeaders message
        | .raw => w.showRaw message
      (w.updateMessageButtons message, shown)
    else (w, false)

/-! ## What the user can do -/

/-- `preferred_view`. -/
def preferredView (w : StandaloneMessageWindow) (message : MessageSummary) : MessageViewKind :=
  .fromPreference
    (messageViewPreference crates preferences message (w.messageHasHtml message.messageId))

/-- The new message is shown in its preferred view. The permission for one load does not go with it.
-/
def selectMessage (w : StandaloneMessageWindow) (index : Nat) : StandaloneMessageWindow :=
  if w.pathActionsSensitive then
    match w.messages[index]? with
    | none => w
    | some message =>
      let w := { w with selectedIndex := index, imagePolicy := .config }
      (w.showMessageView crates permissions (w.preferredView crates preferences message)).1
  else w

/-- At either end of the list the selection stays. -/
def selectRelativeMessage (w : StandaloneMessageWindow) (delta : Int) : StandaloneMessageWindow :=
  match relativeMessageIndex w.selectedIndex w.messages.length delta with
  | none => w
  | some target =>
    if target = w.selectedIndex then w else w.selectMessage crates permissions preferences target

/-- Remembering the choice, where it fails, changes the status line only. -/
def chooseMessageView (w : StandaloneMessageWindow) (view : MessageViewKind) :
    StandaloneMessageWindow :=
  if w.pathActionsSensitive then
    match w.currentMessage with
    | none => w
    | some message =>
      let (hasHtml, w) := if view = .html then w.cachedMessageHasHtml message else (true, w)
      if hasHtml then (w.showMessageView crates permissions view).1 else w
  else w

/-- Folding the quotes shows the text view, whichever was shown. -/
def toggleQuoteCollapse (w : StandaloneMessageWindow) : StandaloneMessageWindow :=
  if w.pathActionsSensitive then
    ({ w with collapseQuotes := !w.collapseQuotes }.showMessageView crates permissions .text).1
  else w

/-- Nothing is done where the images are loaded already, by the configuration or by an earlier
request. -/
def activateLoadImagesOnce (w : StandaloneMessageWindow) : StandaloneMessageWindow :=
  if w.pathActionsSensitive then
    match w.currentMessage with
    | none => w
    | some message =>
      if windowAllowsImages crates permissions message then w.updateMessageButtons message
      else if w.view = .html && w.autoLoadImages then w.updateMessageButtons message
      else ({ w with imagePolicy := .once }.showMessageView crates permissions .html).1
  else w

/-- `start_link_hint_mode` and `open_image_policy_menu`: both need the HTML view. -/
def revealHtml (w : StandaloneMessageWindow) : StandaloneMessageWindow :=
  if w.pathActionsSensitive then
    match w.currentMessage with
    | none => w
    | some message =>
      let (hasHtml, w) := w.cachedMessageHasHtml message
      if hasHtml && w.view ≠ .html then (w.showMessageView crates permissions .html).1 else w
  else w

/-- The sender whose permission the check button of the window sets. -/
def senderTrustRequest (w : StandaloneMessageWindow) : Option Str :=
  if w.pathActionsSensitive then
    w.currentMessage.bind fun message =>
      if (messageImageSender crates message).isSome then
        normalizeImageSender crates message.fromHeader
      else none
  else none

/-- What a user can do in a window. -/
inductive Action where
  | selectMessage (index : Nat)
  | selectRelativeMessage (delta : Int)
  | chooseMessageView (view : MessageViewKind)
  | toggleQuoteCollapse
  | activateLoadImagesOnce
  | startLinkHintMode
  | openImagePolicyMenu

/-- The log grows where the action is not refused. -/
def logLoad (w : StandaloneMessageWindow) : StandaloneMessageWindow :=
  if w.pathActionsSensitive then
    match w.currentMessage with
    | none => w
    | some message => { w with loadsAsked := message.messageId :: w.loadsAsked }
  else w

/-- What the user can do in the window. -/
def act (w : StandaloneMessageWindow) : Action → StandaloneMessageWindow
  | .selectMessage index => w.selectMessage crates permissions preferences index
  | .selectRelativeMessage delta => w.selectRelativeMessage crates permissions preferences delta
  | .chooseMessageView view => w.chooseMessageView crates permissions view
  | .toggleQuoteCollapse => w.toggleQuoteCollapse crates permissions
  | .activateLoadImagesOnce => w.logLoad.activateLoadImagesOnce crates permissions
  | .startLinkHintMode => w.revealHtml crates permissions
  | .openImagePolicyMenu => w.revealHtml crates permissions

/-! ## What showing a view can do -/

/-- What the render callback of a view gives for a message. -/
def renderView (w : StandaloneMessageWindow) (view : MessageViewKind) (message : MessageSummary) :
    Except Str Str :=
  match view with
  | .text => w.renderers.text message w.collapseQuotes
  | .html =>
    w.renderers.html message (allowRemoteImages crates permissions w.imagePolicy message)
  | .headers => w.renderers.headers message
  | .raw => w.renderers.raw message

/-- The window after its title and its header were set for a view of a message. Only the HTML
view uses up the image policy. -/
def headed (w : StandaloneMessageWindow) (view : MessageViewKind) (message : MessageSummary)
    (cache : HtmlAnswers w.messageHasHtml) : StandaloneMessageWindow :=
  { w with
    messageHtmlById := cache
    title := standaloneMessageWindowTitle message
    messageHeader := some ⟨message, w.selectedIndex + 1, max w.messages.length 1⟩
    imagePolicy := if view = .html then .config else w.imagePolicy }

/-- The windows that `show_message_view` can lead to from one in which `message` is selected. -/
inductive Showing (w : StandaloneMessageWindow) (view : MessageViewKind)
    (message : MessageSummary) : StandaloneMessageWindow → Prop where
  | noHtml (cache : HtmlAnswers w.messageHasHtml) (hview : view = .html)
      (hnone : w.messageHasHtml message.messageId = false) :
      Showing w view message { w with messageHtmlById := cache }
  | failed (cache : HtmlAnswers w.messageHasHtml) (error : Str)
      (hrender : w.renderView crates permissions view message = .error error) :
      Showing w view message (w.headed view message cache)
  | text (cache : HtmlAnswers w.messageHasHtml) (content : Str) (hview : view ≠ .html)
      (hrender : w.renderView crates permissions view message = .ok content) :
      Showing w view message
        { w.headed view message cache with
          view := view
          visibleChild := .text
          autoLoadImages := false
          textBuffer := some ⟨message, content⟩ }
  | html (cache : HtmlAnswers w.messageHasHtml) (content : Str) (hview : view = .html)
      (hrender : w.renderView crates permissions view message = .ok content) :
      Showing w view message
        { w.headed view message cache with
          view := .html
          visibleChild := .html
          autoLoadImages := allowRemoteImages crates permissions w.imagePolicy message
          htmlDocument := some ⟨message, content⟩ }

variable {crates permissions} {w : StandaloneMessageWindow} {message : MessageSummary}

theorem cachedMessageHasHtml_eq (w : StandaloneMessageWindow) (message : MessageSummary) :
    ∃ cache, w.cachedMessageHasHtml message =
      (w.messageHasHtml message.messageId, { w with messageHtmlById := cache }) := by
  unfold cachedMessageHasHtml
  split
  · next hasHtml hget =>
    refine ⟨w.messageHtmlById, ?_⟩
    rw [HtmlAnswers.get?_eq hget]
  · exact ⟨_, rfl⟩

theorem updateMessageButtons_eq (w : StandaloneMessageWindow) (message : MessageSummary) :
    ∃ cache, w.updateMessageButtons message = { w with messageHtmlById := cache } := by
  obtain ⟨cache, hcache⟩ := cachedMessageHasHtml_eq w message
  refine ⟨cache, ?_⟩
  unfold updateMessageButtons
  rw [hcache]

/-- The three views of the text buffer. -/
theorem showing_of_showInTextView {view : MessageViewKind} {rendered : Except Str Str}
    (cache : HtmlAnswers w.messageHasHtml) (hview : view ≠ .html)
    (hrender : w.renderView crates permissions view message = rendered) :
    Showing crates permissions w view message
      (((w.headed view message cache).showInTextView view message rendered).1.updateMessageButtons
        message) := by
  cases rendered with
  | error error =>
    obtain ⟨cache', hcache'⟩ := updateMessageButtons_eq (w.headed view message cache) message
    show Showing crates permissions w view message
      ((w.headed view message cache).updateMessageButtons message)
    rw [hcache']
    exact .failed (w := w) cache' error hrender
  | ok content =>
    unfold showInTextView setActiveMessageView
    dsimp only
    rw [if_neg hview, if_neg hview]
    obtain ⟨cache', hcache'⟩ := updateMessageButtons_eq
      { w.headed view message cache with
        view := view, visibleChild := .text, autoLoadImages := false
        textBuffer := some ⟨message, content⟩ } message
    rw [hcache']
    exact .text (w := w) cache' content hview hrender

theorem showing_of_showHtmlMessage (cache : HtmlAnswers w.messageHasHtml) :
    Showing crates permissions w .html message
      ((({ w.headed .text message cache with imagePolicy := w.imagePolicy }).showHtmlMessage
        crates permissions message).1.updateMessageButtons message) := by
  unfold showHtmlMessage takeImagePolicyForRender
  dsimp only
  have hsame : ({ w.headed .text message cache with imagePolicy := w.imagePolicy }).renderers =
      w.renderers := rfl
  cases hrender : w.renderView crates permissions .html message with
  | error error =>
    have hcall : w.renderers.html message
        (allowRemoteImages crates permissions w.imagePolicy message) = .error error := hrender
    rw [hsame, hcall]
    obtain ⟨cache', hcache'⟩ := updateMessageButtons_eq (w.headed .html message cache) message
    show Showing crates permissions w .html message
      ((w.headed .html message cache).updateMessageButtons message)
    rw [hcache']
    exact .failed (w := w) cache' error hrender
  | ok content =>
    have hcall : w.renderers.html message
        (allowRemoteImages crates permissions w.imagePolicy message) = .ok content := hrender
    rw [hsame, hcall]
    obtain ⟨cache', hcache'⟩ := updateMessageButtons_eq
      { w.headed .html message cache with
        view := .html, visibleChild := .html
        autoLoadImages := allowRemoteImages crates permissions w.imagePolicy message
        htmlDocument := some ⟨message, content⟩ } message
    show Showing crates permissions w .html message
      (StandaloneMessageWindow.updateMessageButtons
        { w.headed .html message cache with
          view := .html, visibleChild := .html
          autoLoadImages := allowRemoteImages crates permissions w.imagePolicy message
          htmlDocument := some ⟨message, content⟩ } message)
    rw [hcache']
    exact .html (w := w) cache' content rfl hrender

/-- Showing a view does one of these things. -/
theorem showing_showMessageView (view : MessageViewKind) (h : w.currentMessage = some message) :
    Showing crates permissions w view message (w.showMessageView crates permissions view).1 := by
  unfold showMessageView
  rw [h]
  cases view with
  | text => exact showing_of_showInTextView w.messageHtmlById (by decide) rfl
  | headers => exact showing_of_showInTextView w.messageHtmlById (by decide) rfl
  | raw => exact showing_of_showInTextView w.messageHtmlById (by decide) rfl
  | html =>
    obtain ⟨cache, hcache⟩ := cachedMessageHasHtml_eq w message
    dsimp only
    rw [if_pos rfl, hcache]
    dsimp only
    cases hhtml : w.messageHasHtml message.messageId with
    | false => exact .noHtml cache rfl hhtml
    | true => exact showing_of_showHtmlMessage cache

/-- Without a selected message nothing is shown. -/
theorem showMessageView_of_none (view : MessageViewKind) (h : w.currentMessage = none) :
    (w.showMessageView crates permissions view).1 = w := by
  unfold showMessageView
  rw [h]

end StandaloneMessageWindow

end Notm.Ui
