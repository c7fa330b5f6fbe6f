import Notm.Mail.ReferenceCrates
import Notm.Ui.StandaloneController

/-!
# The body of a message window is of the selected message

Selecting a message moves the selection, the title and the header before the message is rendered.
Where the rendering fails the earlier body stays: it is then of another message than the window
says. Nothing else parts body and selection, so along a run they agree in every state exactly
when each selection renders the view in which its message opens, or finds no body of another
message to leave behind.

* `Presents` — selection, title, header and body are of one message.
* `presents_selectMessage_iff` — when a selection leads to such a window.
* `presentsSelected_handle_iff` — one event of the controller.
* `shown_body_follows_selection` — all states of a run.
-/

namespace Notm.Ui

open Rust Mail Notmuch Transition

variable {crates : Crates} {permissions : ImagePermissions} {preferences : ViewPreferences}

namespace StandaloneMessageWindow

variable {w w' : StandaloneMessageWindow} {message : MessageSummary}

/-- The window is about one message: title, header and visible body are of the selected one. -/
structure Presents (w : StandaloneMessageWindow) (message : MessageSummary) : Prop where
  selected : w.currentMessage = some message
  title : w.title = standaloneMessageWindowTitle message
  header : w.messageHeader = some ⟨message, w.selectedIndex + 1, max w.messages.length 1⟩
  body : ∀ body, w.shownBody = some body → body.message.messageId = message.messageId

/-- The message at `index` renders in the view in which it opens, or there is no body of another
message that it would leave on the page. -/
def SelectionRenders (crates : Crates) (permissions : ImagePermissions)
    (preferences : ViewPreferences) (w : StandaloneMessageWindow) (index : Nat) : Prop :=
  w.pathActionsSensitive = true → ∀ message, w.messages[index]? = some message →
    (∃ content, { w with imagePolicy := .config }.renderView crates permissions
      (w.preferredView crates preferences message) message = .ok content) ∨
    ∀ body, w.shownBody = some body → body.message.messageId = message.messageId

/-! ## Steps that keep the selection -/

theorem Presents.showing {view : MessageViewKind} (h : Presents w message)
    (hshow : Showing crates permissions w view message w') : Presents w' message := by
  cases hshow with
  | noHtml cache _ _ => exact ⟨h.selected, h.title, h.header, h.body⟩
  | failed cache error _ => exact ⟨h.selected, rfl, rfl, h.body⟩
  | text cache content _ _ =>
    refine ⟨h.selected, rfl, rfl, fun body hbody => ?_⟩
    obtain rfl := Option.some.inj hbody
    rfl
  | html cache content _ _ =>
    refine ⟨h.selected, rfl, rfl, fun body hbody => ?_⟩
    obtain rfl := Option.some.inj hbody
    rfl

theorem Presents.showMessageView (h : Presents w message) (view : MessageViewKind) :
    Presents (w.showMessageView crates permissions view).1 message :=
  h.showing (showing_showMessageView view h.selected)

theorem Presents.updateMessageButtons (h : Presents w message) (other : MessageSummary) :
    Presents (w.updateMessageButtons other) message := by
  obtain ⟨cache, hcache⟩ := updateMessageButtons_eq w other
  rw [hcache]
  exact ⟨h.selected, h.title, h.header, h.body⟩

theorem Presents.updateCurrentMessageButtons (h : Presents w message) :
    Presents w.updateCurrentMessageButtons message := by
  unfold StandaloneMessageWindow.updateCurrentMessageButtons
  rw [h.selected]
  exact h.updateMessageButtons message

theorem Presents.chooseMessageView (h : Presents w message) (view : MessageViewKind) :
    Presents (w.chooseMessageView crates permissions view) message := by
  unfold StandaloneMessageWindow.chooseMessageView
  split
  · rw [h.selected]
    obtain ⟨cache, hcache⟩ := cachedMessageHasHtml_eq w message
    have hcached : Presents { w with messageHtmlById := cache } message :=
      ⟨h.selected, h.title, h.header, h.body⟩
    dsimp only
    split
    · rw [hcache]
      dsimp only
      split
      · exact hcached.showMessageView view
      · exact hcached
    · exact h.showMessageView view
  · exact h

theorem Presents.toggleQuoteCollapse (h : Presents w message) :
    Presents (w.toggleQuoteCollapse crates permissions) message := by
  unfold StandaloneMessageWindow.toggleQuoteCollapse
  split
  · have htoggled : Presents { w with collapseQuotes := !w.collapseQuotes } message :=
      ⟨h.selected, h.title, h.header, h.body⟩
    exact htoggled.showMessageView .text
  · exact h

theorem Presents.activateLoadImagesOnce (h : Presents w message) :
    Presents (w.activateLoadImagesOnce crates permissions) message := by
  unfold StandaloneMessageWindow.activateLoadImagesOnce
  split
  · rw [h.selected]
    dsimp only
    split
    · exact h.updateMessageButtons message
    · split
      · exact h.updateMessageButtons message
      · have honce : Presents { w with imagePolicy := .once } message :=
          ⟨h.selected, h.title, h.header, h.body⟩
        exact honce.showMessageView .html
  · exact h

theorem Presents.logLoad (h : Presents w message) : Presents w.logLoad message := by
  unfold StandaloneMessageWindow.logLoad
  split
  · rw [h.selected]
    exact ⟨h.selected, h.title, h.header, h.body⟩
  · exact h

theorem Presents.revealHtml (h : Presents w message) :
    Presents (w.revealHtml crates permissions) message := by
  unfold StandaloneMessageWindow.revealHtml
  split
  · rw [h.selected]
    obtain ⟨cache, hcache⟩ := cachedMessageHasHtml_eq w message
    have hcached : Presents { w with messageHtmlById := cache } message :=
      ⟨h.selected, h.title, h.header, h.body⟩
    dsimp only
    rw [hcache]
    dsimp only
    split
    · exact hcached.showMessageView .html
    · exact hcached
  · exact h

theorem Presents.setPathActionsSensitive (h : Presents w message) (sensitive : Bool) :
    Presents (w.setPathActionsSensitive sensitive) message := by
  have hset : Presents { w with pathActionsSensitive := sensitive } message :=
    ⟨h.selected, h.title, h.header, h.body⟩
  unfold StandaloneMessageWindow.setPathActionsSensitive
  dsimp only
  split
  · exact hset.updateCurrentMessageButtons
  · exact hset

theorem Presents.refreshRemoteImagePolicy (h : Presents w message) (current : Bool) :
    Presents (w.refreshRemoteImagePolicy crates permissions current) message := by
  have hconfig : Presents { w with imagePolicy := .config } message :=
    ⟨h.selected, h.title, h.header, h.body⟩
  have hstopped : Presents { w with imagePolicy := .config }.stopImages message :=
    ⟨h.selected, h.title, h.header, h.body⟩
  unfold StandaloneMessageWindow.refreshRemoteImagePolicy
  dsimp only
  split <;> split
  · exact hstopped.showMessageView .html
  · exact hconfig.showMessageView .html
  · exact hstopped.updateCurrentMessageButtons
  · exact hconfig.updateCurrentMessageButtons

theorem Presents.refreshSenderImagePolicy (h : Presents w message) (sender : Str) :
    Presents (w.refreshSenderImagePolicy crates permissions sender) message := by
  have hconfig : Presents { w with imagePolicy := .config } message :=
    ⟨h.selected, h.title, h.header, h.body⟩
  unfold StandaloneMessageWindow.refreshSenderImagePolicy
  dsimp only
  split
  · split
    · have hstopped : Presents { w with imagePolicy := .config }.stopImages message :=
        ⟨h.selected, h.title, h.header, h.body⟩
      exact hstopped.showMessageView .html
    · exact hconfig.updateCurrentMessageButtons
  · exact h

/-! ## Changed tags -/

theorem messageId_of_changedMessage {changes : List AppliedTagChange} {changed : MessageSummary}
    (h : changedMessage changes message = some changed) : changed.messageId =
      message.messageId := by
  obtain ⟨change, _, hchange⟩ := Option.bind_eq_some_iff.1 h
  split at hchange
  · cases hchange
  · obtain rfl := Option.some.inj hchange
    rfl

/-- The selected message may get other tags and files; its title and header are set anew then. -/
theorem Presents.applyAuthoritativeTagChanges (h : Presents w message)
    (changes : List AppliedTagChange) :
    Presents (w.applyAuthoritativeTagChanges changes)
      ((changedMessage changes message).getD message) := by
  have hselected : (w.messages.map fun message =>
      (changedMessage changes message).getD message)[w.selectedIndex]? =
        some ((changedMessage changes message).getD message) := by
    rw [List.getElem?_map]
    have hmessage : w.messages[w.selectedIndex]? = some message := h.selected
    rw [hmessage]
    rfl
  unfold StandaloneMessageWindow.applyAuthoritativeTagChanges
  rw [h.selected]
  dsimp only
  cases hchanged : changedMessage changes message with
  | none =>
    have hnot : ((some message).bind (changedMessage changes)).isSome = false := by
      rw [Option.bind_some, hchanged]
      rfl
    rw [hnot, if_neg Bool.false_ne_true]
    rw [hchanged] at hselected
    refine ⟨hselected, h.title, ?_, h.body⟩
    show w.messageHeader = _
    rw [h.header, List.length_map]
    rfl
  | some changed =>
    have haffected : ((some message).bind (changedMessage changes)).isSome = true := by
      rw [Option.bind_some, hchanged]
      rfl
    rw [haffected, if_pos rfl]
    rw [hchanged] at hselected
    have hcurrent : StandaloneMessageWindow.currentMessage
        { w with messages := w.messages.map fun message =>
            (changedMessage changes message).getD message } = some changed := hselected
    rw [hcurrent]
    refine ⟨hselected, rfl, rfl, fun body hbody => ?_⟩
    exact (h.body body hbody).trans (messageId_of_changedMessage hchanged).symm

/-! ## Selecting -/

theorem preferredView_html (h : w.preferredView crates preferences message = .html) :
    w.messageHasHtml message.messageId = true :=
  hasHtml_of_messageViewPreference (MessageViewKind.fromPreference_eq_html.1 h)

theorem selectMessage_of_some {index : Nat} (hsensitive : w.pathActionsSensitive = true)
    (hindex : w.messages[index]? = some message) :
    w.selectMessage crates permissions preferences index =
      ({ w with selectedIndex := index, imagePolicy := .config }.showMessageView crates permissions
        (w.preferredView crates preferences message)).1 := by
  unfold StandaloneMessageWindow.selectMessage
  rw [if_pos hsensitive, hindex]
  rfl

/-- Selection, title and header follow; the body does where the message renders, and where there
was none or one of the same message. -/
theorem presents_showing_selected_iff {index : Nat} {view : MessageViewKind}
    (hindex : w.messages[index]? = some message)
    (hhtml : view = .html → w.messageHasHtml message.messageId = true)
    (hshow : Showing crates permissions { w with selectedIndex := index, imagePolicy := .config }
      view message w') :
    (∃ message', Presents w' message') ↔
      (∃ content, { w with imagePolicy := .config }.renderView crates permissions view message =
        .ok content) ∨
      ∀ body, w.shownBody = some body → body.message.messageId = message.messageId := by
  cases hshow with
  | noHtml cache hview hnone => exact absurd ((hhtml hview).symm.trans hnone) (by decide)
  | failed cache error hrender =>
    have hfails : { w with imagePolicy := .config }.renderView crates permissions view message =
        .error error := hrender
    constructor
    · intro hpresents
      obtain ⟨message', hpresents⟩ := hpresents
      have hsame : message' = message := Option.some.inj (hpresents.selected.symm.trans hindex)
      rw [hsame] at hpresents
      exact Or.inr hpresents.body
    · intro hrenders
      rcases hrenders with ⟨content, hcontent⟩ | hsame
      · rw [hfails] at hcontent
        cases hcontent
      · exact ⟨message, hindex, rfl, rfl, hsame⟩
  | text cache content hview hrender =>
    refine iff_of_true ⟨message, hindex, rfl, rfl, fun body hbody => ?_⟩ (Or.inl ⟨content, hrender⟩)
    have hnew : (⟨message, content⟩ : MessageBody) = body := Option.some.inj hbody
    rw [← hnew]
  | html cache content hview hrender =>
    refine iff_of_true ⟨message, hindex, rfl, rfl, fun body hbody => ?_⟩ (Or.inl ⟨content, hrender⟩)
    have hnew : (⟨message, content⟩ : MessageBody) = body := Option.some.inj hbody
    rw [← hnew]

/-- A selection leads to a window about one message exactly when the new message renders, or no
body of another message is on the page. -/
theorem presents_selectMessage_iff {index : Nat} (h : Presents w message) :
    (∃ message', Presents (w.selectMessage crates permissions preferences index) message') ↔
      SelectionRenders crates permissions preferences w index := by
  unfold SelectionRenders
  by_cases hsensitive : w.pathActionsSensitive = true
  · cases hindex : w.messages[index]? with
    | none =>
      have hstays : w.selectMessage crates permissions preferences index = w := by
        unfold StandaloneMessageWindow.selectMessage
        rw [if_pos hsensitive, hindex]
      rw [hstays]
      refine iff_of_true ⟨message, h⟩ ?_
      intro _ target htarget
      cases htarget
    | some target =>
      rw [selectMessage_of_some hsensitive hindex,
        presents_showing_selected_iff hindex preferredView_html
          (showing_showMessageView (w.preferredView crates preferences target) hindex)]
      constructor
      · intro hrenders _ target' htarget'
        obtain rfl := Option.some.inj htarget'
        exact hrenders
      · intro hrenders
        exact hrenders hsensitive target rfl
  · have hstays : w.selectMessage crates permissions preferences index = w := by
      unfold StandaloneMessageWindow.selectMessage
      rw [if_neg hsensitive]
    rw [hstays]
    exact iff_of_true ⟨message, h⟩ fun htrue => absurd htrue hsensitive

/-- The steps of a selection by the keys for the next and the previous message. -/
def RelativeSelectionRenders (crates : Crates) (permissions : ImagePermissions)
    (preferences : ViewPreferences) (w : StandaloneMessageWindow) (delta : Int) : Prop :=
  ∀ target, relativeMessageIndex w.selectedIndex w.messages.length delta = some target →
    target ≠ w.selectedIndex → SelectionRenders crates permissions preferences w target

theorem presents_selectRelativeMessage_iff {delta : Int} (h : Presents w message) :
    (∃ message', Presents (w.selectRelativeMessage crates permissions preferences delta) message') ↔
      RelativeSelectionRenders crates permissions preferences w delta := by
  unfold StandaloneMessageWindow.selectRelativeMessage RelativeSelectionRenders
  cases htarget : relativeMessageIndex w.selectedIndex w.messages.length delta with
  | none =>
    refine iff_of_true ⟨message, h⟩ ?_
    intro target hnone
    cases hnone
  | some target =>
    dsimp only
    split
    · next hsame =>
      refine iff_of_true ⟨message, h⟩ ?_
      intro target' hsome hne
      obtain rfl := Option.some.inj hsome
      exact absurd hsame hne
    · next hne =>
      rw [presents_selectMessage_iff h]
      constructor
      · intro hrenders target' hsome _
        obtain rfl := Option.some.inj hsome
        exact hrenders
      · intro hrenders
        exact hrenders target rfl hne

/-- The condition under which an action leaves the window about one message. -/
def ActionRenders (crates : Crates) (permissions : ImagePermissions)
    (preferences : ViewPreferences) (w : StandaloneMessageWindow) : Action → Prop
  | .selectMessage index => SelectionRenders crates permissions preferences w index
  | .selectRelativeMessage delta => RelativeSelectionRenders crates permissions preferences w delta
  | _ => True

theorem presents_act_iff {action : Action} (h : Presents w message) :
    (∃ message', Presents (w.act crates permissions preferences action) message') ↔
      ActionRenders crates permissions preferences w action := by
  cases action with
  | selectMessage index => exact presents_selectMessage_iff h
  | selectRelativeMessage delta => exact presents_selectRelativeMessage_iff h
  | chooseMessageView view => exact iff_of_true ⟨message, h.chooseMessageView view⟩ trivial
  | toggleQuoteCollapse => exact iff_of_true ⟨message, h.toggleQuoteCollapse⟩ trivial
  | activateLoadImagesOnce =>
    exact iff_of_true ⟨message, h.logLoad.activateLoadImagesOnce⟩ trivial
  | startLinkHintMode => exact iff_of_true ⟨message, h.revealHtml⟩ trivial
  | openImagePolicyMenu => exact iff_of_true ⟨message, h.revealHtml⟩ trivial

/-- A new window is about the message that it was opened for. -/
theorem presents_open {options : StandaloneOpenOptions} {index : Nat}
    (h : options.messages[index]? = some message) :
    Presents (.open crates permissions preferences options message index) message := by
  unfold StandaloneMessageWindow.«open»
  dsimp only
  have hhtml : initialView crates preferences options message = .html →
      options.messageHasHtml message.messageId = true := fun hview =>
    hasHtml_of_messageViewPreference (MessageViewKind.fromPreference_eq_html.1 hview)
  generalize initialView crates preferences options message = view at hhtml
  have hshow := @showing_showMessageView crates permissions
    (created permissions options message index view) message view h
  generalize (StandaloneMessageWindow.showMessageView crates permissions
    (created permissions options message index view) view).1 = w' at hshow
  cases hshow with
  | noHtml cache hview hnone => exact absurd ((hhtml hview).symm.trans hnone) (by decide)
  | failed cache error hrender =>
    refine ⟨h, rfl, rfl, fun body hbody => ?_⟩
    cases hbody
  | text cache content hview hrender =>
    refine ⟨h, rfl, rfl, fun body hbody => ?_⟩
    have hnew : (⟨message, content⟩ : MessageBody) = body := Option.some.inj hbody
    rw [← hnew]
  | html cache content hview hrender =>
    refine ⟨h, rfl, rfl, fun body hbody => ?_⟩
    have hnew : (⟨message, content⟩ : MessageBody) = body := Option.some.inj hbody
    rw [← hnew]

end StandaloneMessageWindow

/-! ## All windows, along a run -/

namespace StandaloneController

variable {c : StandaloneController}

/-- Every window is about one message: the selected one, and its body if it shows a body. -/
def PresentsSelected (c : StandaloneController) : Prop :=
  ∀ w ∈ c.windows, ∃ message, w.Presents message

/-- An event that selects a message in a window finds it rendering there, or finds no body of
another message. -/
def SelectionRenders (crates : Crates) (c : StandaloneController) : Event → Prop
  | .act i action =>
    ∀ w, c.windows[i]? = some w → w.ActionRenders crates c.permissions c.preferences action
  | _ => True

theorem PresentsSelected.map (h : c.PresentsSelected)
    {f : StandaloneMessageWindow → StandaloneMessageWindow}
    (hf : ∀ w message, w.Presents message → ∃ message', (f w).Presents message') :
    ∀ w ∈ c.windows.map f, ∃ message, w.Presents message := by
  intro w hw
  obtain ⟨w', hw', rfl⟩ := List.mem_map.1 hw
  obtain ⟨message, hmessage⟩ := h w' hw'
  exact hf w' message hmessage

theorem PresentsSelected.open (h : c.PresentsSelected) (options : StandaloneOpenOptions) :
    (c.open crates options).PresentsSelected := by
  unfold StandaloneController.«open»
  dsimp only
  split
  · exact h
  · next message hmessage =>
    intro w hw
    rcases List.mem_append.1 hw with hw | hw
    · exact h w (List.mem_of_mem_drop hw)
    · obtain rfl := List.mem_singleton.1 hw
      exact ⟨message, StandaloneMessageWindow.presents_open hmessage⟩

theorem PresentsSelected.applyRemoteImages (h : c.PresentsSelected) (value : Bool) :
    (c.applyRemoteImages crates value).PresentsSelected := by
  unfold StandaloneController.applyRemoteImages
  split
  · exact h
  · exact h.map fun w message hw => ⟨message, hw.refreshRemoteImagePolicy value⟩

theorem PresentsSelected.applySenderImageTrust (h : c.PresentsSelected) (sender : Str)
    (enabled persisted : Bool) :
    (c.applySenderImageTrust crates sender enabled persisted).PresentsSelected := by
  unfold StandaloneController.applySenderImageTrust
  split
  · exact h
  · split
    · unfold StandaloneController.refreshSenderImagePolicy
      dsimp only
      split
      · exact h
      · exact h.map fun w message hw => ⟨message, hw.refreshSenderImagePolicy _⟩
    · exact h

/-- One step: only a selection can part body and selection, and it does exactly when its message
does not render and leaves the body of another one. -/
theorem presentsSelected_handle_iff (h : c.PresentsSelected) (event : Event) :
    (c.handle crates event).PresentsSelected ↔ c.SelectionRenders crates event := by
  cases event with
  | «open» options => exact iff_of_true (h.open options) trivial
  | close i => exact iff_of_true (fun w hw => h w (List.mem_of_mem_eraseIdx hw)) trivial
  | act i action =>
    refine (forall_mem_modify i h).trans (forall₂_congr fun w hw => ?_)
    obtain ⟨message, hmessage⟩ := h w (List.mem_iff_getElem?.2 ⟨i, hw⟩)
    exact StandaloneMessageWindow.presents_act_iff hmessage
  | render i renderers =>
    refine iff_of_true ((forall_mem_modify i h).2 fun w hw => ?_) trivial
    obtain ⟨message, hmessage⟩ := h w (List.mem_iff_getElem?.2 ⟨i, hw⟩)
    exact ⟨message, hmessage.selected, hmessage.title, hmessage.header, hmessage.body⟩
  | setPreferences preferences => exact iff_of_true h trivial
  | setPathActionsSensitive sensitive =>
    exact iff_of_true
      (h.map fun w message hw => ⟨message, hw.setPathActionsSensitive sensitive⟩) trivial
  | applyTagChanges changes =>
    exact iff_of_true (h.map fun w message hw => ⟨_, hw.applyAuthoritativeTagChanges changes⟩)
      trivial
  | applyRemoteImages value => exact iff_of_true (h.applyRemoteImages value) trivial
  | trustSender sender enabled persisted =>
    exact iff_of_true (h.applySenderImageTrust sender enabled persisted) trivial
  | trustMessage i enabled persisted =>
    refine iff_of_true ?_ trivial
    unfold handle
    dsimp only
    split
    · exact h
    · exact h.applySenderImageTrust _ enabled persisted

/-- **The body follows the selection.** In every state of a run each window is about its selected
message, exactly when the events of the run select only messages that render, or leave no body of
another message on the page. -/
theorem shown_body_follows_selection {trace : List (StandaloneController × Event)}
    (h : Run (Steps crates) (launched permissions preferences) trace c) :
    (c.PresentsSelected ∧ ∀ p ∈ trace, p.1.PresentsSelected) ↔
      ∀ p ∈ trace, p.1.SelectionRenders crates p.2 := by
  refine Run.forall_states_iff ?_ ?_ h
  · exact fun w hw => absurd hw List.not_mem_nil
  · intro t event u _ ht hstep
    rw [← show t.handle crates event = u from hstep]
    exact presentsSelected_handle_iff ht event

end StandaloneController

/-! ## A message that does not render -/

namespace StandaloneExample

def messageFrom (messageId sender : String) : MessageSummary where
  messageId := messageId.toList
  threadId := "thread".toList
  date := 0
  fromHeader := sender.toList
  toHeader := []
  cc := []
  subject := messageId.toList
  tags := []
  filenames := []

/-- The text of every message but `large`, and the document of every message. -/
def renderers : Renderers where
  text message _ :=
    if message.messageId = "large".toList then .error "rendered text is too large".toList
    else .ok message.messageId
  headers message := .ok message.messageId
  raw message := .ok message.messageId
  html message _ := .ok message.messageId

def options (messages : List MessageSummary) (messageHasHtml : Str → Bool) :
    StandaloneOpenOptions where
  messages := messages
  selectedIndex := 0
  preparedRetainedBytes := 0
  messageHasHtml := messageHasHtml
  renderers := renderers
  collapseQuotes := false
  responseSensitive := true

def viewPreferences (preferHtmlView : Bool) : ViewPreferences := ⟨preferHtmlView, .empty, .empty⟩

def noPermissions : ImagePermissions := ⟨false, .empty⟩

/-- A thread of two messages is opened at its first one. -/
def openThread (first second : String) : StandaloneController.Event :=
  .open (options [messageFrom first "ann@example.test", messageFrom second "bob@example.test"]
    fun _ => false)

def start : StandaloneController := .launched noPermissions (viewPreferences false)

end StandaloneExample

open StandaloneExample

/-- The second message of a thread is selected, and renders. -/
theorem second_message_selected :
    ([openThread "first" "second", .act 0 (.selectMessage 1)].foldl
      (StandaloneController.handle Reference.crates) start).PresentsSelected := by
  refine ((StandaloneController.shown_body_follows_selection (run_foldl _ _ _)).2 ?_).1
  intro p hp
  rcases List.mem_cons.1 hp with rfl | hp
  · trivial
  · obtain rfl := List.mem_singleton.1 hp
    intro w hw
    obtain rfl := Option.some.inj hw
    intro _ message hmessage
    obtain rfl := Option.some.inj hmessage
    exact Or.inl ⟨_, rfl⟩

/-- The second message of a thread is selected and is too large for the text view: the window has
its title and its header, and shows the text of the first message. -/
theorem large_message_selected :
    ∃ trace c,
      Run (StandaloneController.Steps Reference.crates) start trace c ∧
      ∃ w ∈ c.windows, ∃ body message,
        w.shownBody = some body ∧ w.currentMessage = some message ∧
        w.title = standaloneMessageWindowTitle message ∧
        w.messageHeader.map MessageHeader.message = some message ∧
        body.message.messageId ≠ message.messageId := by
  refine ⟨_, _, run_foldl _ _ [openThread "first" "large", .act 0 (.selectMessage 1)], _,
    List.mem_singleton_self _, ⟨messageFrom "first" "ann@example.test", "first".toList⟩,
    messageFrom "large" "bob@example.test", ?_, ?_, ?_, ?_, ?_⟩
  · rfl
  · rfl
  · rfl
  · rfl
  · decide

end Notm.Ui
