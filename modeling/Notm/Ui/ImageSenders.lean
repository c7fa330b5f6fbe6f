import Notm.Lib.BTreeMap
import Notm.Lib.BTreeSet
import Notm.Mail.Address

/-!
# Senders: who may load remote images, and in which view a message opens

Both are decided by the `From` header of a message. An image permission needs the one mailbox of
the header; a view preference takes the first.

* `ImagePermissions` — what lets a message load remote images: the setting and the senders.
* `messageViewPreference` — the view in which a message opens.
-/

namespace Notm.Ui

open Rust Mail

/-- What the lists and windows know of a message. -/
structure MessageSummary where
  messageId : Str
  threadId : Str
  date : Int
  fromHeader : Str
  toHeader : Str
  cc : Str
  subject : Str
  tags : List Str
  filenames : List Str
deriving DecidableEq

/-- Senders are compared without regard to case. -/
def normalizeSender (sender : Str) : Str := toAsciiLowercase (trim sender)

/-! ## Image permissions -/

/-- The sender under which a permission is kept. -/
def normalizeImageSender (crates : Crates) (value : Str) : Option Str :=
  (parseOne crates value).bind fun address =>
    let sender := normalizeSender address.email
    if sender = [] then none else some sender

/-- The vector is sorted and has no duplicates. -/
def normalizeSenderList (crates : Crates) (senders : List Str) : BTreeSet Str :=
  .ofList (senders.filterMap (normalizeImageSender crates))

/-- What lets a message load remote images: the global setting, and the trusted senders. -/
structure ImagePermissions where
  remoteImages : Bool
  trustedImageSenders : BTreeSet Str

namespace ImagePermissions

variable (crates : Crates) (permissions : ImagePermissions)

/-- `message_image_sender_email` of the message is a trusted sender. -/
def trusts (message : MessageSummary) : Bool :=
  ((normalizeImageSender crates message.fromHeader).bind (normalizeImageSender crates)).any
    permissions.trustedImageSenders.contains

/-- `message_allows_images` of the main window, which decides when a message is rendered. -/
def messageAllowsImages (message : MessageSummary) : Bool :=
  permissions.remoteImages || permissions.trusts crates message

end ImagePermissions

/-- `message_image_sender` of a message window. -/
def messageImageSender (crates : Crates) (message : MessageSummary) : Option Str :=
  (parseOne crates message.fromHeader).map fun address => normalizeSender address.email

/-- `message_allows_images` of a message window, which decides what its controls offer. -/
def windowAllowsImages (crates : Crates) (permissions : ImagePermissions)
    (message : MessageSummary) : Bool :=
  permissions.remoteImages ||
    (messageImageSender crates message).any fun sender =>
      permissions.trustedImageSenders.toList.any fun trusted =>
        normalizeSender trusted = normalizeSender sender

/-- The trusted senders after `apply_sender_image_trust`, with the sender whose windows are
refreshed; none where nothing changes. -/
def changedSenders (crates : Crates) (permissions : ImagePermissions) (sender : Str)
    (enabled : Bool) : Option (Str × BTreeSet Str) :=
  (normalizeImageSender crates sender).bind fun sender =>
    let current := normalizeSenderList crates permissions.trustedImageSenders.toList
    if current.contains sender = enabled then none
    else some (sender, if enabled then current.insert sender else current.remove sender)

/-! ## View preferences -/

inductive MessageViewPreference where
  | text
  | visualHtml
  | fullHeaders
  | rawSource
deriving DecidableEq

/-- The views that were chosen for single messages and for senders. -/
structure ViewPreferences where
  preferHtmlView : Bool
  messageViewPreferences : BTreeMap Str MessageViewPreference
  senderViewPreferences : BTreeMap Str MessageViewPreference

def normalizeMessageId (messageId : Str) : Str := trim messageId

/-- The preference of the message, else that of the sender, else that of all messages. -/
def ViewPreferences.stored (preferences : ViewPreferences) (messageId : Str)
    (sender : Option Str) : MessageViewPreference :=
  ((preferences.messageViewPreferences.get? (normalizeMessageId messageId)).or
    ((sender.map normalizeSender).bind preferences.senderViewPreferences.get?)).getD
    (if preferences.preferHtmlView then .visualHtml else .text)

/-- A message without HTML is shown as text where HTML was preferred. -/
def resolveMessageViewPreference (preferences : ViewPreferences) (messageId : Str)
    (sender : Option Str) (hasHtml : Bool) : MessageViewPreference :=
  let preference := preferences.stored messageId sender
  if preference = .visualHtml && !hasHtml then .text else preference

/-- The first address of the header. -/
def messageSenderEmail (crates : Crates) (message : MessageSummary) : Option Str :=
  (parseAddressList crates message.fromHeader).head?.map fun address =>
    normalizeSender address.email

/-- The view in which a message is opened. -/
def messageViewPreference (crates : Crates) (preferences : ViewPreferences)
    (message : MessageSummary) (hasHtml : Bool) : MessageViewPreference :=
  resolveMessageViewPreference preferences message.messageId (messageSenderEmail crates message)
    hasHtml

/-- The view of a message without HTML is another than visual HTML. -/
theorem hasHtml_of_messageViewPreference {crates : Crates} {preferences : ViewPreferences}
    {message : MessageSummary} {hasHtml : Bool}
    (h : messageViewPreference crates preferences message hasHtml = .visualHtml) :
    hasHtml = true := by
  unfold messageViewPreference resolveMessageViewPreference at h
  dsimp only at h
  split at h
  · cases h
  · next hnot =>
    rw [h] at hnot
    simpa using hnot

end Notm.Ui
