import Notm.Lib.Rfc5322
import Notm.Mail.Base64Length
import Notm.Mail.Mailto
import Notm.Mail.MessageHeaders
import Notm.Mail.MessageId.Boundaries
import Notm.Mail.ReplyText
import Notm.Mail.SaveAttachment
import Notm.Mail.SelectedParts
import Notm.Notmuch.MaildirFlags
import Notm.Ui.AttachmentBudget
import Notm.Ui.CidSelection
import Notm.Ui.ComposerCacheLeases
import Notm.Ui.ComposerDescent
import Notm.Ui.DraftAutosaveRuns
import Notm.Ui.DraftIoCoordinator
import Notm.Ui.DraftSaveLaw
import Notm.Ui.ExternalRefreshProgress
import Notm.Ui.HeaderBlock
import Notm.Ui.HeaderReader
import Notm.Ui.HtmlViewGenerations
import Notm.Ui.HtmlViewLifecycle
import Notm.Ui.LinkHints
import Notm.Ui.MessageSource
import Notm.Ui.PreparedScopes
import Notm.Ui.RecipientCompletion
import Notm.Ui.SearchCachesFresh
import Notm.Ui.SearchWorkerLaw
import Notm.Ui.SettingsRoundTrip
import Notm.Ui.StandaloneImages
import Notm.Ui.ThreadListRefresh
import Notm.Ui.ThreadListSettled
import Notm.Ui.ThreadLoader
import Notm.Ui.ThreadWindow
import Notm.Ui.UndoDialog
import Notm.Ui.VisualSelection
