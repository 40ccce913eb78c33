import MailServer.Cache.Messages
import MailServer.Config.IpMask
import MailServer.Config.PublicSuffix
import MailServer.Dav.FileAccess
import MailServer.Dav.FilePaths
import MailServer.Dav.FileSync
import MailServer.Dav.FreeBusy
import MailServer.Dav.IfHeader
import MailServer.Dav.LockRuns
import MailServer.Dav.Sharing
import MailServer.Delivery.DsnOnce
import MailServer.Delivery.Outcome
import MailServer.Delivery.QuotaLimits
import MailServer.Delivery.Transparency
import MailServer.Delivery.Workers
import MailServer.Directory.EffectivePermissions
import MailServer.Imap.ClientView
import MailServer.Imap.CopyMove
import MailServer.Imap.RequestStream
import MailServer.Imap.SearchGrammar
import MailServer.Imap.SearchReturn
import MailServer.Imap.SentStrings
import MailServer.Jmap.QuerySplice
import MailServer.Jmap.References
import MailServer.Mailboxes.SetTree
import MailServer.Message.Deletion
import MailServer.Milter.Frames
import MailServer.Scheduling.Requests
import MailServer.Scheduling.Updates
import MailServer.Search.QueryMeaning
import MailServer.Search.Ranges
import MailServer.Smtp.MailSession
import MailServer.Spool.ManagerRun
import MailServer.Store.Archive
import MailServer.Store.BatchEmptiness
import MailServer.Store.BatchSplit
import MailServer.Store.Bitpack
import MailServer.Store.Blobs
import MailServer.Store.ChunkedMap
import MailServer.Store.Lock
import MailServer.Tasks.Index
import MailServer.Tls.StartTls
