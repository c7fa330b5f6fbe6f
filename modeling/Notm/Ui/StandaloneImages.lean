import Notm.Ui.StandaloneBody

/-!
# Remote images in the message windows

Whether a document is loaded with its remote images is decided when it is rendered, and kept as a
flag of the web view. The global setting, when it is turned off, reaches every window. A removed
sender reaches the windows whose selected message is of that sender; a window whose last selection
did not render has the document of another message loaded. So every flag stands for a permission
in force exactly as long as each removal of a sender finds the windows with a document of that
sender.

* `ImagesSound` — images load under a permission in force, and one load is for the selected message.
* `ImagesSound.refreshSenderImagePolicy` — a window that a change reaches is sound again.
* `afterChange_of_not_refreshed` — one that it does not reach stays as it is.
* `revocationDisables_handle_iff` — one event.
* `images_load_only_permitted` — a whole run.
-/

namespace Notm.Ui

open Rust Mail Notmuch Transition

variable {crates : Crates} {permissions permissions' : ImagePermissions}
  {preferences : ViewPreferences}

namespace StandaloneMessageWindow

variable {w w' : StandaloneMessageWindow} {message : MessageSummary}

/-- Where images load, the global setting is on, or the sender of the loaded document is trusted,
or the user asked to load the images of that message. -/
def ImagesPermitted (crates : Crates) (permissions : ImagePermissions)
    (w : StandaloneMessageWindow) : Prop :=
  w.autoLoadImages = true → permissions.remoteImages = true ∨
    ∃ document, w.htmlDocument = some document ∧
      (permissions.trusts crates document.message = true ∨
        document.message.messageId ∈ w.loadsAsked)

/-- The permission for one load is for the selected message; images load only in a visible
document, or before there is one. -/
structure ImageInvariant (w : StandaloneMessageWindow) : Prop where
  once : w.imagePolicy = .once →
    ∃ message, w.currentMessage = some message ∧ message.messageId ∈ w.loadsAsked
  visible : w.autoLoadImages = true → w.htmlDocument ≠ none → w.view = .html

/-- The invariant together with the permissions that it is about. -/
structure ImagesSound (crates : Crates) (permissions : ImagePermissions)
    (w : StandaloneMessageWindow) : Prop extends ImageInvariant w where
  permitted : w.ImagesPermitted crates permissions

/-! ## What a window does on its own -/

theorem once_permitted (h : ImageInvariant w) (hselected : w.currentMessage = some message)
    (hallow : allowRemoteImages crates permissions w.imagePolicy message = true) :
    permissions.remoteImages = true ∨
      (permissions.trusts crates message = true ∨ message.messageId ∈ w.loadsAsked) := by
  cases hpolicy : w.imagePolicy with
  | config =>
    rw [hpolicy] at hallow
    have hor : (permissions.remoteImages || permissions.trusts crates message) = true := hallow
    exact (Bool.or_eq_true_iff.1 hor).imp_right Or.inl
  | once =>
    obtain ⟨asked, hasked, hmem⟩ := h.once hpolicy
    obtain rfl := Option.some.inj (hasked.symm.trans hselected)
    exact Or.inr (Or.inr hmem)

theorem ImagesSound.showing {view : MessageViewKind} (h : ImagesSound crates permissions w)
    (hselected : w.currentMessage = some message)
    (hshow : Showing crates permissions w view message w') : ImagesSound crates permissions w' := by
  cases hshow with
  | noHtml cache _ _ => exact ⟨⟨h.once, h.visible⟩, h.permitted⟩
  | failed cache error _ =>
    refine ⟨⟨fun honce => ?_, h.visible⟩, h.permitted⟩
    refine h.once ?_
    have hpolicy : (if view = .html then .config else w.imagePolicy) = .once := honce
    split at hpolicy
    · cases hpolicy
    · exact hpolicy
  | text cache content hview _ =>
    refine ⟨⟨fun honce => ?_, fun hloads => ?_⟩, fun hloads => ?_⟩
    · have hpolicy : (if view = .html then .config else w.imagePolicy) = .once := honce
      rw [if_neg hview] at hpolicy
      exact h.once hpolicy
    · cases hloads
    · cases hloads
  | html cache content hview _ =>
    refine ⟨⟨fun honce => ?_, fun _ _ => rfl⟩, fun hloads => ?_⟩
    · have hpolicy : (if view = .html then .config else w.imagePolicy) = .once := honce
      rw [if_pos hview] at hpolicy
      cases hpolicy
    · exact (once_permitted h.toImageInvariant hselected hloads).imp_right fun hpermit =>
        ⟨⟨message, content⟩, rfl, hpermit⟩

theorem ImagesSound.showMessageView (h : ImagesSound crates permissions w)
    (view : MessageViewKind) :
    ImagesSound crates permissions (w.showMessageView crates permissions view).1 := by
  cases hselected : w.currentMessage with
  | none =>
    rw [showMessageView_of_none view hselected]
    exact h
  | some message => exact h.showing hselected (showing_showMessageView view hselected)

/-- The cached answers are no part of it. -/
theorem ImagesSound.cached (h : ImagesSound crates permissions w)
    (cache : HtmlAnswers w.messageHasHtml) :
    ImagesSound crates permissions { w with messageHtmlById := cache } :=
  ⟨⟨h.once, h.visible⟩, h.permitted⟩

theorem ImagesSound.updateMessageButtons (h : ImagesSound crates permissions w)
    (message : MessageSummary) :
    ImagesSound crates permissions (w.updateMessageButtons message) := by
  obtain ⟨cache, hcache⟩ := updateMessageButtons_eq w message
  rw [hcache]
  exact h.cached cache

theorem ImagesSound.updateCurrentMessageButtons (h : ImagesSound crates permissions w) :
    ImagesSound crates permissions w.updateCurrentMessageButtons := by
  unfold StandaloneMessageWindow.updateCurrentMessageButtons
  split
  · exact h
  · exact h.updateMessageButtons _

/-- The one load that was asked for is not asked for of another message. -/
theorem ImagesSound.selecting (h : ImagesSound crates permissions w) (index : Nat) :
    ImagesSound crates permissions { w with selectedIndex := index, imagePolicy := .config } := by
  refine ⟨⟨fun honce => ?_, h.visible⟩, h.permitted⟩
  cases honce

theorem ImagesSound.selectMessage (h : ImagesSound crates permissions w) (index : Nat) :
    ImagesSound crates permissions (w.selectMessage crates permissions preferences index) := by
  unfold StandaloneMessageWindow.selectMessage
  split
  · split
    · exact h
    · exact (h.selecting index).showMessageView _
  · exact h

theorem ImagesSound.selectRelativeMessage (h : ImagesSound crates permissions w) (delta : Int) :
    ImagesSound crates permissions
      (w.selectRelativeMessage crates permissions preferences delta) := by
  unfold StandaloneMessageWindow.selectRelativeMessage
  split
  · exact h
  · split
    · exact h
    · exact h.selectMessage _

theorem ImagesSound.chooseMessageView (h : ImagesSound crates permissions w)
    (view : MessageViewKind) :
    ImagesSound crates permissions (w.chooseMessageView crates permissions view) := by
  unfold StandaloneMessageWindow.chooseMessageView
  split
  · split
    · exact h
    · next message _ =>
      obtain ⟨cache, hcache⟩ := cachedMessageHasHtml_eq w message
      dsimp only
      split
      · rw [hcache]
        dsimp only
        split
        · exact (h.cached cache).showMessageView view
        · exact h.cached cache
      · exact h.showMessageView view
  · exact h

theorem ImagesSound.toggleQuoteCollapse (h : ImagesSound crates permissions w) :
    ImagesSound crates permissions (w.toggleQuoteCollapse crates permissions) := by
  unfold StandaloneMessageWindow.toggleQuoteCollapse
  split
  · have htoggled : ImagesSound crates permissions
        { w with collapseQuotes := !w.collapseQuotes } := ⟨⟨h.once, h.visible⟩, h.permitted⟩
    exact htoggled.showMessageView .text
  · exact h

/-- Asking to load the images once permits it for the selected message. -/
theorem ImagesSound.loadImagesOnce (h : ImagesSound crates permissions w) :
    ImagesSound crates permissions (w.logLoad.activateLoadImagesOnce crates permissions) := by
  unfold StandaloneMessageWindow.logLoad
  by_cases hsensitive : w.pathActionsSensitive = true
  · rw [if_pos hsensitive]
    unfold StandaloneMessageWindow.activateLoadImagesOnce
    cases hselected : w.currentMessage with
    | none =>
      dsimp only
      rw [if_pos hsensitive, hselected]
      exact h
    | some message =>
      dsimp only
      rw [if_pos hsensitive]
      -- The message is recorded before anything is shown of it.
      have hlogged : ImagesSound crates permissions
          { w with loadsAsked := message.messageId :: w.loadsAsked } := by
        refine ⟨⟨fun honce => ?_, h.visible⟩, fun hloads => ?_⟩
        · obtain ⟨asked, hasked, hmem⟩ := h.once honce
          exact ⟨asked, hasked, List.mem_cons_of_mem _ hmem⟩
        · refine (h.permitted hloads).imp_right fun hpermit => ?_
          obtain ⟨document, hdocument, hpermit⟩ := hpermit
          exact ⟨document, hdocument, hpermit.imp_right (List.mem_cons_of_mem _)⟩
      have hsame : StandaloneMessageWindow.currentMessage
          { w with loadsAsked := message.messageId :: w.loadsAsked } = some message := hselected
      rw [hsame]
      dsimp only
      split
      · exact hlogged.updateMessageButtons message
      · split
        · exact hlogged.updateMessageButtons message
        · have honce : ImagesSound crates permissions
              { w with loadsAsked := message.messageId :: w.loadsAsked, imagePolicy := .once } :=
            ⟨⟨fun _ => ⟨message, hselected, List.mem_cons_self⟩, hlogged.visible⟩,
              hlogged.permitted⟩
          exact honce.showMessageView .html
  · rw [if_neg hsensitive]
    unfold StandaloneMessageWindow.activateLoadImagesOnce
    rw [if_neg hsensitive]
    exact h

theorem ImagesSound.revealHtml (h : ImagesSound crates permissions w) :
    ImagesSound crates permissions (w.revealHtml crates permissions) := by
  unfold StandaloneMessageWindow.revealHtml
  split
  · split
    · exact h
    · next message _ =>
      obtain ⟨cache, hcache⟩ := cachedMessageHasHtml_eq w message
      dsimp only
      rw [hcache]
      dsimp only
      split
      · exact (h.cached cache).showMessageView .html
      · exact h.cached cache
  · exact h

theorem ImagesSound.act (h : ImagesSound crates permissions w) (action : Action) :
    ImagesSound crates permissions (w.act crates permissions preferences action) := by
  cases action with
  | selectMessage index => exact h.selectMessage index
  | selectRelativeMessage delta => exact h.selectRelativeMessage delta
  | chooseMessageView view => exact h.chooseMessageView view
  | toggleQuoteCollapse => exact h.toggleQuoteCollapse
  | activateLoadImagesOnce => exact h.loadImagesOnce
  | startLinkHintMode => exact h.revealHtml
  | openImagePolicyMenu => exact h.revealHtml

/-- Before its first document a window loads images only under the global setting. -/
theorem imagesSound_open {options : StandaloneOpenOptions} {index : Nat} :
    ImagesSound crates permissions
      (.open crates permissions preferences options message index) := by
  unfold StandaloneMessageWindow.«open»
  have hcreated : ImagesSound crates permissions
      (created permissions options message index
        (initialView crates preferences options message)) := by
    refine ⟨⟨fun honce => ?_, fun _ hdocument => absurd rfl hdocument⟩, fun hloads => Or.inl hloads⟩
    cases honce
  exact hcreated.showMessageView _

theorem ImagesSound.setPathActionsSensitive (h : ImagesSound crates permissions w)
    (sensitive : Bool) :
    ImagesSound crates permissions (w.setPathActionsSensitive sensitive) := by
  have hset : ImagesSound crates permissions { w with pathActionsSensitive := sensitive } :=
    ⟨⟨h.once, h.visible⟩, h.permitted⟩
  unfold StandaloneMessageWindow.setPathActionsSensitive
  dsimp only
  split
  · exact hset.updateCurrentMessageButtons
  · exact hset

theorem ImagesSound.applyAuthoritativeTagChanges (h : ImagesSound crates permissions w)
    (changes : List AppliedTagChange) :
    ImagesSound crates permissions (w.applyAuthoritativeTagChanges changes) := by
  have hmapped : ImagesSound crates permissions
      { w with messages := w.messages.map fun message =>
          (changedMessage changes message).getD message } := by
    refine ⟨⟨fun honce => ?_, h.visible⟩, h.permitted⟩
    obtain ⟨asked, hasked, hmem⟩ := h.once honce
    refine ⟨(changedMessage changes asked).getD asked, ?_, ?_⟩
    · show (w.messages.map fun message =>
        (changedMessage changes message).getD message)[w.selectedIndex]? = _
      have hget : w.messages[w.selectedIndex]? = some asked := hasked
      rw [List.getElem?_map, hget]
      rfl
    · cases hchanged : changedMessage changes asked with
      | none => exact hmem
      | some changed =>
        show changed.messageId ∈ w.loadsAsked
        rw [messageId_of_changedMessage hchanged]
        exact hmem
  unfold StandaloneMessageWindow.applyAuthoritativeTagChanges
  dsimp only
  split
  · split
    · exact hmapped
    · exact ⟨⟨hmapped.once, hmapped.visible⟩, hmapped.permitted⟩
  · exact hmapped

/-! ## Changes of the permissions -/

/-- With the images stopped a window is sound under any permissions. -/
theorem imagesSound_stopped (w : StandaloneMessageWindow) :
    ImagesSound crates permissions { w with imagePolicy := .config }.stopImages := by
  refine ⟨⟨fun honce => ?_, fun hloads => ?_⟩, fun hloads => ?_⟩
  · cases honce
  · cases hloads
  · cases hloads

/-- After the images were stopped they load only in a document that a permission covers. -/
theorem allowed_of_stopped (view : MessageViewKind)
    (hloads : ({ w with imagePolicy := .config }.stopImages.showMessageView crates permissions
      view).1.autoLoadImages = true) :
    ∃ document, ({ w with imagePolicy := .config }.stopImages.showMessageView crates permissions
      view).1.htmlDocument = some document ∧
        permissions.messageAllowsImages crates document.message = true := by
  cases hselected : { w with imagePolicy := .config }.stopImages.currentMessage with
  | none =>
    rw [showMessageView_of_none view hselected] at hloads
    cases hloads
  | some message =>
    have hshow := @showing_showMessageView crates permissions _ message view hselected
    generalize ({ w with imagePolicy := .config }.stopImages.showMessageView crates permissions
      view).1 = w' at hshow hloads
    cases hshow with
    | noHtml cache _ _ => cases hloads
    | failed cache error _ => cases hloads
    | text cache content _ _ => cases hloads
    | html cache content _ _ => exact ⟨⟨message, content⟩, rfl, hloads⟩

theorem refreshRemoteImagePolicy_of_html (current : Bool) (hview : w.view = .html) :
    w.refreshRemoteImagePolicy crates permissions current =
      ({ w with imagePolicy := .config }.stopImages.showMessageView crates permissions
        .html).1 := by
  unfold StandaloneMessageWindow.refreshRemoteImagePolicy
  simp only [hview, decide_true, Bool.true_or, if_true]

/-- A change of the global setting leaves every window with permissions that are in force. -/
theorem imagesSound_refreshRemoteImagePolicy {current : Bool} (h : ImageInvariant w)
    (hcurrent : permissions.remoteImages = current) :
    ImagesSound crates permissions (w.refreshRemoteImagePolicy crates permissions current) := by
  have hstopped := @imagesSound_stopped crates permissions w
  by_cases hview : w.view = .html
  · rw [refreshRemoteImagePolicy_of_html current hview]
    exact hstopped.showMessageView .html
  · unfold StandaloneMessageWindow.refreshRemoteImagePolicy
    simp only [hview, decide_false, Bool.false_or, if_false]
    cases current with
    | false => exact hstopped.updateCurrentMessageButtons
    | true =>
      have hconfig : ImagesSound crates permissions { w with imagePolicy := .config } := by
        refine ⟨⟨fun honce => ?_, h.visible⟩, fun _ => Or.inl hcurrent⟩
        cases honce
      exact hconfig.updateCurrentMessageButtons

theorem updateCurrentMessageButtons_images (w : StandaloneMessageWindow) :
    w.updateCurrentMessageButtons.autoLoadImages = w.autoLoadImages := by
  unfold StandaloneMessageWindow.updateCurrentMessageButtons
  split
  · rfl
  · next message _ =>
    obtain ⟨cache, hcache⟩ := updateMessageButtons_eq w message
    rw [hcache]

/-- After the setting was turned off images load only in a document of a trusted sender. -/
theorem allowed_of_refreshRemoteImagePolicy
    (hloads : (w.refreshRemoteImagePolicy crates permissions false).autoLoadImages = true) :
    ∃ document,
      (w.refreshRemoteImagePolicy crates permissions false).htmlDocument = some document ∧
        permissions.messageAllowsImages crates document.message = true := by
  by_cases hview : w.view = .html
  · rw [refreshRemoteImagePolicy_of_html false hview] at hloads ⊢
    exact allowed_of_stopped .html hloads
  · unfold StandaloneMessageWindow.refreshRemoteImagePolicy at hloads
    simp only [hview, decide_false, Bool.false_or, if_false, Bool.not_false, if_true] at hloads
    rw [updateCurrentMessageButtons_images] at hloads
    cases hloads

/-- The document of the window loses its permission. -/
def LosesPermission (crates : Crates) (permissions permissions' : ImagePermissions)
    (w : StandaloneMessageWindow) : Prop :=
  w.autoLoadImages = true ∧ ∃ document, w.htmlDocument = some document ∧
    permissions.messageAllowsImages crates document.message = true ∧
    permissions'.messageAllowsImages crates document.message = false

/-- A window that a removal of `sender` reaches. -/
def Refreshed (crates : Crates) (sender : Str) (w : StandaloneMessageWindow) : Prop :=
  normalizeSender sender ≠ [] ∧ w.showsSender crates (normalizeSender sender) = true

theorem refreshSenderImagePolicy_of_html {sender : Str} (hview : w.view = .html)
    (hshows : w.showsSender crates sender = true) :
    w.refreshSenderImagePolicy crates permissions sender =
      ({ w with imagePolicy := .config }.stopImages.showMessageView crates permissions
        .html).1 := by
  unfold StandaloneMessageWindow.refreshSenderImagePolicy
  rw [if_pos hshows]
  dsimp only
  rw [if_pos hview]

theorem refreshSenderImagePolicy_of_not_shows {sender : Str}
    (hshows : ¬ w.showsSender crates sender = true) :
    w.refreshSenderImagePolicy crates permissions sender = w := by
  unfold StandaloneMessageWindow.refreshSenderImagePolicy
  rw [if_neg hshows]

/-- A window that the change does not reach is sound under the new permissions unless its
document loses its permission. -/
theorem ImagesSound.of_keeps (h : ImagesSound crates permissions w)
    (hremote : permissions'.remoteImages = permissions.remoteImages)
    (hkeeps : ¬ LosesPermission crates permissions permissions' w) :
    ImagesSound crates permissions' w := by
  refine ⟨h.toImageInvariant, fun hloads => ?_⟩
  rcases h.permitted hloads with hglobal | ⟨document, hdocument, htrusted | hasked⟩
  · exact Or.inl (hremote.trans hglobal)
  · have hbefore : permissions.messageAllowsImages crates document.message = true :=
      Bool.or_eq_true_iff.2 (Or.inr htrusted)
    have hafter : permissions'.messageAllowsImages crates document.message = true := by
      by_contra hlost
      exact hkeeps ⟨hloads, document, hdocument, hbefore, Bool.eq_false_iff.2 hlost⟩
    exact (Bool.or_eq_true_iff.1 hafter).imp_right fun htrust =>
      ⟨document, hdocument, Or.inl htrust⟩
  · exact Or.inr ⟨document, hdocument, Or.inr hasked⟩

/-- A change of a sender's permission leaves a window sound that it reaches. -/
theorem ImagesSound.refreshSenderImagePolicy {sender : Str}
    (h : ImagesSound crates permissions w)
    (hremote : permissions'.remoteImages = permissions.remoteImages)
    (hshows : w.showsSender crates sender = true) :
    ImagesSound crates permissions'
      (w.refreshSenderImagePolicy crates permissions' sender) := by
  by_cases hview : w.view = .html
  · rw [refreshSenderImagePolicy_of_html hview hshows]
    exact (imagesSound_stopped w).showMessageView .html
  · unfold StandaloneMessageWindow.refreshSenderImagePolicy
    rw [if_pos hshows]
    dsimp only
    rw [if_neg hview]
    -- images load without a visible document only before the first one
    have hconfig : ImagesSound crates permissions' { w with imagePolicy := .config } := by
      refine ⟨⟨fun honce => ?_, h.visible⟩, fun hloads => ?_⟩
      · cases honce
      · refine (h.permitted hloads).imp (fun hglobal => hremote.trans hglobal) fun hpermit => ?_
        obtain ⟨document, hdocument, _⟩ := hpermit
        refine absurd (h.visible hloads ?_) hview
        rw [hdocument]
        exact Option.some_ne_none document
    exact hconfig.updateCurrentMessageButtons

end StandaloneMessageWindow

/-! ## All windows, along a run -/

namespace StandaloneController

variable {c c' : StandaloneController}

def ImagesPermitted (crates : Crates) (c : StandaloneController) : Prop :=
  ∀ w ∈ c.windows, w.ImagesPermitted crates c.permissions

/-- Where a step takes the permission from a loaded document, images no longer load in its
window, or load in a document that a permission in force covers. -/
def RevocationDisables (crates : Crates) (c c' : StandaloneController) : Prop :=
  ∀ (i : Nat) (w w' : StandaloneMessageWindow),
    c.windows[i]? = some w → c'.windows[i]? = some w' →
    w.LosesPermission crates c.permissions c'.permissions → w'.autoLoadImages = true →
    ∃ document, w'.htmlDocument = some document ∧
      c'.permissions.messageAllowsImages crates document.message = true

/-- A written change of a sender's permission reaches every window whose loaded document loses
its permission by it: the selected message of the window is of that sender. -/
def ChangeReaches (crates : Crates) (c : StandaloneController) (sender : Str)
    (enabled persisted : Bool) : Prop :=
  persisted = true → ∀ changed, changedSenders crates c.permissions sender enabled = some changed →
    ∀ w ∈ c.windows,
      w.LosesPermission crates c.permissions
        { c.permissions with trustedImageSenders := changed.2 } →
      w.Refreshed crates changed.1

/-- The condition on an event: where it changes the permission of a sender and the change is written
to the disk, it reaches each window whose loaded document loses its permission by it. All other
events meet it. -/
def RevocationReaches (crates : Crates) (c : StandaloneController) : Event → Prop
  | .trustSender sender enabled persisted => c.ChangeReaches crates sender enabled persisted
  | .trustMessage i enabled persisted =>
    ∀ sender, c.windows[i]?.bind (·.senderTrustRequest crates) = some sender →
      c.ChangeReaches crates sender enabled persisted
  | _ => True

def ImagesSound (crates : Crates) (c : StandaloneController) : Prop :=
  ∀ w ∈ c.windows, w.ImagesSound crates c.permissions

theorem ImagesSound.map (h : c.ImagesSound crates)
    {f : StandaloneMessageWindow → StandaloneMessageWindow} {permissions : ImagePermissions}
    (hf : ∀ w ∈ c.windows, w.ImagesSound crates c.permissions →
      (f w).ImagesSound crates permissions) :
    ∀ w ∈ c.windows.map f, w.ImagesSound crates permissions := by
  intro w hw
  obtain ⟨w', hw', rfl⟩ := List.mem_map.1 hw
  exact hf w' hw' (h w' hw')

theorem ImagesSound.permitted (h : c.ImagesSound crates) : c.ImagesPermitted crates :=
  fun w hw => (h w hw).permitted

/-! ### Steps that leave the permissions as they are -/

theorem ImagesSound.open (h : c.ImagesSound crates) (options : StandaloneOpenOptions) :
    (c.open crates options).ImagesSound crates := by
  unfold StandaloneController.«open»
  dsimp only
  split
  · exact h
  · intro w hw
    rcases List.mem_append.1 hw with hw | hw
    · exact h w (List.mem_of_mem_drop hw)
    · obtain rfl := List.mem_singleton.1 hw
      exact StandaloneMessageWindow.imagesSound_open

theorem revocationDisables_of_permissions (h : c'.permissions = c.permissions) :
    RevocationDisables crates c c' := by
  intro i w w' _ _ hloses _
  obtain ⟨_, document, _, hbefore, hafter⟩ := hloses
  rw [h, hbefore] at hafter
  cases hafter

/-! ### Changes of the permissions -/

theorem revocationDisables_of_map {f : StandaloneMessageWindow → StandaloneMessageWindow}
    (hwindows : c'.windows = c.windows.map f)
    (hf : ∀ w ∈ c.windows, w.LosesPermission crates c.permissions c'.permissions →
      (f w).autoLoadImages = true → ∃ document, (f w).htmlDocument = some document ∧
        c'.permissions.messageAllowsImages crates document.message = true) :
    RevocationDisables crates c c' := by
  intro i w w' hw hw' hloses hloads
  rw [hwindows, List.getElem?_map, hw] at hw'
  obtain rfl := Option.some.inj hw'
  exact hf w (List.mem_iff_getElem?.2 ⟨i, hw⟩) hloses hloads

theorem ImagesSound.applyRemoteImages (h : c.ImagesSound crates) (value : Bool) :
    (c.applyRemoteImages crates value).ImagesSound crates := by
  unfold StandaloneController.applyRemoteImages
  split
  · exact h
  · exact h.map fun w _ hw =>
      StandaloneMessageWindow.imagesSound_refreshRemoteImagePolicy hw.toImageInvariant rfl

/-- Turning the setting off reaches every window; turning it on takes nothing. -/
theorem revocationDisables_applyRemoteImages (c : StandaloneController) (value : Bool) :
    RevocationDisables crates c (c.applyRemoteImages crates value) := by
  unfold StandaloneController.applyRemoteImages
  split
  · exact revocationDisables_of_permissions rfl
  · refine revocationDisables_of_map rfl fun w _ hloses hloads => ?_
    cases value with
    | true =>
      obtain ⟨_, document, _, _, hafter⟩ := hloses
      cases hafter
    | false => exact StandaloneMessageWindow.allowed_of_refreshRemoteImagePolicy hloads

variable {sender : Str} {enabled persisted : Bool}

/-- The window after a written change for a sender. -/
def afterChange (crates : Crates) (permissions : ImagePermissions) (sender : Str)
    (w : StandaloneMessageWindow) : StandaloneMessageWindow :=
  if normalizeSender sender = [] then w
  else w.refreshSenderImagePolicy crates permissions (normalizeSender sender)

theorem applySenderImageTrust_of_changed {changed : Str × BTreeSet Str}
    (hpersisted : persisted = true)
    (hchanged : changedSenders crates c.permissions sender enabled = some changed) :
    c.applySenderImageTrust crates sender enabled persisted =
      { c with
        permissions := { c.permissions with trustedImageSenders := changed.2 }
        windows := c.windows.map (afterChange crates
          { c.permissions with trustedImageSenders := changed.2 } changed.1) } := by
  unfold StandaloneController.applySenderImageTrust StandaloneController.refreshSenderImagePolicy
  rw [hchanged]
  dsimp only
  rw [if_pos hpersisted]
  unfold afterChange
  split
  · simp only [List.map_id']
  · rfl

theorem applySenderImageTrust_of_not
    (h : ¬ (persisted = true ∧
      ∃ changed, changedSenders crates c.permissions sender enabled = some changed)) :
    c.applySenderImageTrust crates sender enabled persisted = c := by
  unfold StandaloneController.applySenderImageTrust
  split
  · rfl
  · next key next hchanged =>
    exact if_neg fun hpersisted => h ⟨hpersisted, _, hchanged⟩

/-- A window that the change does not reach stays as it is. -/
theorem afterChange_of_not_refreshed {w : StandaloneMessageWindow}
    (h : ¬ w.Refreshed crates sender) : afterChange crates permissions sender w = w := by
  unfold afterChange
  split
  · rfl
  · next hne =>
    exact StandaloneMessageWindow.refreshSenderImagePolicy_of_not_shows fun hshows =>
      h ⟨hne, hshows⟩

theorem ImagesSound.applySenderImageTrust (h : c.ImagesSound crates)
    (hreaches : c.ChangeReaches crates sender enabled persisted) :
    (c.applySenderImageTrust crates sender enabled persisted).ImagesSound crates := by
  by_cases heffect : persisted = true ∧
      ∃ changed, changedSenders crates c.permissions sender enabled = some changed
  · obtain ⟨hpersisted, changed, hchanged⟩ := heffect
    rw [applySenderImageTrust_of_changed hpersisted hchanged]
    refine h.map fun w hw hsound => ?_
    by_cases hrefreshed : w.Refreshed crates changed.1
    · unfold afterChange
      rw [if_neg hrefreshed.1]
      exact hsound.refreshSenderImagePolicy rfl hrefreshed.2
    · rw [afterChange_of_not_refreshed hrefreshed]
      exact hsound.of_keeps rfl fun hloses =>
        hrefreshed (hreaches hpersisted changed hchanged w hw hloses)
  · rw [applySenderImageTrust_of_not heffect]
    exact h

/-- A change takes the images from every document that loses its permission exactly when it
reaches the windows of these documents. -/
theorem revocationDisables_applySenderImageTrust_iff (h : c.ImagesSound crates) :
    RevocationDisables crates c (c.applySenderImageTrust crates sender enabled persisted) ↔
      c.ChangeReaches crates sender enabled persisted := by
  constructor
  · intro hdisables hpersisted changed hchanged w hw hloses
    rw [applySenderImageTrust_of_changed hpersisted hchanged] at hdisables
    by_contra hnot
    -- the window stays as it is, with a document that no permission covers
    obtain ⟨i, hi⟩ := List.mem_iff_getElem?.1 hw
    have hstays : (c.windows.map (afterChange crates
        { c.permissions with trustedImageSenders := changed.2 } changed.1))[i]? = some w := by
      rw [List.getElem?_map, hi, Option.map_some, afterChange_of_not_refreshed hnot]
    obtain ⟨document, hdocument, hafter⟩ := hdisables i w w hi hstays hloses hloses.1
    obtain ⟨_, document', hdocument', _, hlost⟩ := hloses
    obtain rfl := Option.some.inj (hdocument'.symm.trans hdocument)
    exact absurd (hafter.symm.trans hlost) (by decide)
  · intro hreaches
    by_cases heffect : persisted = true ∧
        ∃ changed, changedSenders crates c.permissions sender enabled = some changed
    · obtain ⟨hpersisted, changed, hchanged⟩ := heffect
      rw [applySenderImageTrust_of_changed hpersisted hchanged]
      refine revocationDisables_of_map rfl fun w hw hloses hloads => ?_
      obtain ⟨hne, hshows⟩ := hreaches hpersisted changed hchanged w hw hloses
      obtain ⟨hbefore, document, hdocument, _, _⟩ := hloses
      have hview : w.view = .html := by
        refine (h w hw).visible hbefore ?_
        rw [hdocument]
        exact Option.some_ne_none document
      have hrefresh : afterChange crates { c.permissions with trustedImageSenders := changed.2 }
          changed.1 w = ({ w with imagePolicy := .config }.stopImages.showMessageView crates
            { c.permissions with trustedImageSenders := changed.2 } .html).1 := by
        unfold afterChange
        rw [if_neg hne]
        exact StandaloneMessageWindow.refreshSenderImagePolicy_of_html hview hshows
      rw [hrefresh] at hloads ⊢
      exact StandaloneMessageWindow.allowed_of_stopped .html hloads
    · rw [applySenderImageTrust_of_not heffect]
      exact revocationDisables_of_permissions rfl

/-! ### Steps and runs -/

theorem ImagesSound.handle {event : Event} (h : c.ImagesSound crates)
    (hreaches : c.RevocationReaches crates event) : (c.handle crates event).ImagesSound crates := by
  cases event with
  | «open» options => exact h.open options
  | close i => exact fun w hw => h w (List.mem_of_mem_eraseIdx hw)
  | act i action =>
    exact (forall_mem_modify i h).2 fun w hw =>
      (h w (List.mem_iff_getElem?.2 ⟨i, hw⟩)).act action
  | render i renderers =>
    refine (forall_mem_modify i h).2 fun w hw => ?_
    have hsound := h w (List.mem_iff_getElem?.2 ⟨i, hw⟩)
    exact ⟨⟨hsound.once, hsound.visible⟩, hsound.permitted⟩
  | setPreferences preferences => exact h
  | setPathActionsSensitive sensitive =>
    exact h.map fun w _ hw => hw.setPathActionsSensitive sensitive
  | applyTagChanges changes => exact h.map fun w _ hw => hw.applyAuthoritativeTagChanges changes
  | applyRemoteImages value => exact h.applyRemoteImages value
  | trustSender sender enabled persisted => exact h.applySenderImageTrust hreaches
  | trustMessage i enabled persisted =>
    unfold StandaloneController.handle
    dsimp only
    split
    · exact h
    · next sender hsender => exact h.applySenderImageTrust (hreaches sender hsender)

/-- One step takes the images from every document that loses its permission exactly when the
change reaches the windows of these documents. -/
theorem revocationDisables_handle_iff (h : c.ImagesSound crates) (event : Event) :
    RevocationDisables crates c (c.handle crates event) ↔ c.RevocationReaches crates event := by
  cases event with
  | «open» options =>
    refine iff_of_true (revocationDisables_of_permissions ?_) trivial
    unfold StandaloneController.handle StandaloneController.«open»
    dsimp only
    split <;> rfl
  | close i => exact iff_of_true (revocationDisables_of_permissions rfl) trivial
  | act i action => exact iff_of_true (revocationDisables_of_permissions rfl) trivial
  | render i renderers => exact iff_of_true (revocationDisables_of_permissions rfl) trivial
  | setPreferences preferences => exact iff_of_true (revocationDisables_of_permissions rfl) trivial
  | setPathActionsSensitive sensitive =>
    exact iff_of_true (revocationDisables_of_permissions rfl) trivial
  | applyTagChanges changes => exact iff_of_true (revocationDisables_of_permissions rfl) trivial
  | applyRemoteImages value =>
    exact iff_of_true (revocationDisables_applyRemoteImages c value) trivial
  | trustSender sender enabled persisted => exact revocationDisables_applySenderImageTrust_iff h
  | trustMessage i enabled persisted =>
    unfold StandaloneController.handle RevocationReaches
    dsimp only
    cases hsender : c.windows[i]?.bind (·.senderTrustRequest crates) with
    | none =>
      refine iff_of_true (revocationDisables_of_permissions rfl) ?_
      intro sender hnone
      cases hnone
    | some sender =>
      rw [revocationDisables_applySenderImageTrust_iff h]
      constructor
      · intro hreaches sender' hsome
        obtain rfl := Option.some.inj hsome
        exact hreaches
      · intro hreaches
        exact hreaches sender rfl

theorem imagesSound_of_run {trace : List (StandaloneController × Event)}
    (h : Run (Steps crates) (launched permissions preferences) trace c)
    (hreaches : ∀ p ∈ trace, p.1.RevocationReaches crates p.2) : c.ImagesSound crates := by
  refine h.invariant_of_steps (I := ImagesSound crates) (G := RevocationReaches crates)
    ?_ ?_ hreaches
  · intro t event u ht hreach hstep
    rw [← show t.handle crates event = u from hstep]
    exact ht.handle hreach
  · exact fun w hw => absurd hw List.not_mem_nil

/-- A run whose steps take the images from the documents that lose their permission is one whose
changes reach their windows: up to the first that does not, all windows are sound. -/
theorem reaches_of_disables {trace : List (StandaloneController × Event)}
    (h : Run (Steps crates) (launched permissions preferences) trace c)
    (hdisables : ∀ p ∈ trace, RevocationDisables crates p.1 (p.1.handle crates p.2)) :
    ∀ p ∈ trace, p.1.RevocationReaches crates p.2 := by
  induction h with
  | nil => exact fun p hp => absurd hp List.not_mem_nil
  | @snoc trace t event u hrun hlast ih =>
    have hearlier := ih fun p hp => hdisables p (List.mem_append_left _ hp)
    intro p hp
    rcases List.mem_append.1 hp with hp | hp
    · exact hearlier p hp
    · obtain rfl := List.mem_singleton.1 hp
      have hsound := imagesSound_of_run hrun hearlier
      exact (revocationDisables_handle_iff hsound event).1
        (hdisables _ (List.mem_append_right _ hp))

/-- **Remote images.** Along a run, in every state images load only under a permission in force, and
every step that takes a permission takes the images from the documents that it covered, exactly when
every written change of a sender's permission reaches the windows in which a document of the sender
is loaded. A change reaches a window by its selected message, which is not always the one that is
loaded. -/
theorem images_load_only_permitted {trace : List (StandaloneController × Event)}
    (h : Run (Steps crates) (launched permissions preferences) trace c) :
    ((c.ImagesPermitted crates ∧ ∀ p ∈ trace, p.1.ImagesPermitted crates) ∧
      ∀ p ∈ trace, RevocationDisables crates p.1 (p.1.handle crates p.2)) ↔
      ∀ p ∈ trace, p.1.RevocationReaches crates p.2 := by
  constructor
  · intro hrun
    exact reaches_of_disables h hrun.2
  · intro hreaches
    -- Every state before an event is that of a shorter run.
    have hsound : ∀ p ∈ trace, p.1.ImagesSound crates := by
      intro p hp
      obtain ⟨before, after, htrace, hbefore⟩ := h.prefix_of_mem hp
      refine imagesSound_of_run hbefore fun q hq => hreaches q ?_
      rw [htrace]
      exact List.mem_append_left _ hq
    refine ⟨⟨(imagesSound_of_run h hreaches).permitted, fun p hp => (hsound p hp).permitted⟩, ?_⟩
    intro p hp
    exact (revocationDisables_handle_iff (hsound p hp) p.2).2 (hreaches p hp)

end StandaloneController

/-! ## A trusted document under another selection -/

namespace StandaloneExample

def annTrusted : ImagePermissions := ⟨false, .ofList ["ann@example.test".toList]⟩

/-- The first message of the thread has HTML. -/
def openHtmlThread (first second : String) : StandaloneController.Event :=
  .open (options [messageFrom first "ann@example.test", messageFrom second "bob@example.test"]
    fun messageId => messageId = first.toList)

def htmlStart : StandaloneController := .launched annTrusted (viewPreferences true)

end StandaloneExample

open StandaloneExample

/-- A sender is removed whose message is selected: its images no longer load. -/
theorem selected_sender_removed :
    ([openHtmlThread "first" "second", .trustSender "ann@example.test".toList false true].foldl
      (StandaloneController.handle Reference.crates) htmlStart).ImagesPermitted
        Reference.crates := by
  refine ((StandaloneController.images_load_only_permitted (run_foldl _ _ _)).2 ?_).1.1
  intro p hp
  rcases List.mem_cons.1 hp with rfl | hp
  · trivial
  · obtain rfl := List.mem_singleton.1 hp
    intro _ changed hchanged w hw _
    obtain rfl := List.mem_singleton.1 hw
    obtain rfl := Option.some.inj hchanged
    exact ⟨by decide, by decide⟩

/-- A thread is opened at a message of a trusted sender, the next message is selected and does not
render, and the sender is removed: the document of the first message still loads its images, and
nothing permits it. -/
theorem unselected_sender_removed :
    ∃ trace c,
      Run (StandaloneController.Steps Reference.crates) htmlStart trace c ∧
      c.permissions.remoteImages = false ∧
      ∃ w ∈ c.windows, w.autoLoadImages = true ∧ ∃ document, w.htmlDocument = some document ∧
        c.permissions.trusts Reference.crates document.message = false ∧ w.loadsAsked = [] := by
  refine ⟨_, _, run_foldl _ _ [openHtmlThread "first" "large", .act 0 (.selectMessage 1),
    .trustSender "ann@example.test".toList false true], ?_, _, List.mem_singleton_self _, ?_,
    ⟨messageFrom "first" "ann@example.test", "first".toList⟩, ?_, ?_, ?_⟩
  · decide
  · decide
  · decide
  · decide
  · decide

end Notm.Ui
