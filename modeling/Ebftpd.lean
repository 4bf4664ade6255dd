import Ebftpd.Lib.Run
import Ebftpd.Lib.Cells
import Ebftpd.Lib.Parties
import Ebftpd.Lib.Segments
import Ebftpd.Lib.Table
import Ebftpd.Lib.Replica
import Ebftpd.Lib.Tally
import Ebftpd.Lib.Framing
import Ebftpd.Util.String
import Ebftpd.Util.Error
import Ebftpd.Util.Double
import Ebftpd.Util.Path
import Ebftpd.Acl.Acl
import Ebftpd.Acl.User
import Ebftpd.Acl.Group
import Ebftpd.Cfg.Config
import Ebftpd.Fs.Path
import Ebftpd.Acl.Path
import Ebftpd.Fs.Directory
import Ebftpd.Fs.File
import Ebftpd.Fs.Rename
import Ebftpd.Cmd.Cwd
import Ebftpd.Db.Credits
import Ebftpd.Db.User
import Ebftpd.Db.CreditTasks
import Ebftpd.Db.Stats
import Ebftpd.Db.Database
import Ebftpd.Db.Connection
import Ebftpd.Fs.Owner
import Ebftpd.Db.Caches
import Ebftpd.Db.Replicator
import Ebftpd.Cfg.Util
import Ebftpd.Acl.Misc
import Ebftpd.Cmd.Give
import Ebftpd.Stats.Util
import Ebftpd.Cmd.Retr
import Ebftpd.Cmd.Nuking
import Ebftpd.Cmd.Stor
import Ebftpd.Cmd.Ledger
import Ebftpd.Ftp.LoginCounter
import Ebftpd.Util.Passwd
import Ebftpd.Ftp.Client
import Ebftpd.Ftp.Login
import Ebftpd.Ftp.UserUpdate
import Ebftpd.Ftp.Profile
import Ebftpd.Ftp.Session
import Ebftpd.Ftp.Server
import Ebftpd.Cmd.SiteUser
import Ebftpd.Cmd.Gadmin
import Ebftpd.Cmd.Slots
import Ebftpd.Ftp.Reply
import Ebftpd.Ftp.Control
import Ebftpd.Ftp.Data
import Ebftpd.Cmd.Channel
import Ebftpd.Cmd.Restart
import Ebftpd.Cmd.Resume
import Ebftpd.Cmd.Overwrite
import Ebftpd.Ftp.Transfer
import Ebftpd.Ftp.TransferCounter
import Ebftpd.Ftp.SpeedCounter
import Ebftpd.Cfg.Setting
import Ebftpd.Ftp.PortAllocator
import Ebftpd.Acl.Flags
import Ebftpd.Acl.Membership
import Ebftpd.Lib.Transaction
import Ebftpd.Acl.Setters
import Ebftpd.Cmd.Change
import Ebftpd.Ftp.SpeedControl
import Ebftpd.Ftp.Util
import Ebftpd.Lib.Wildcard
import Ebftpd.Util.Fnmatch
import Ebftpd.Acl.IPMask
import Ebftpd.Util.Cast
import Ebftpd.Util.Net.Endpoint
import Ebftpd.Util.Net.Ftp
import Ebftpd.Util.Net.Grammar
import Ebftpd.Lib.Ring
import Ebftpd.Util.AsyncCRC32
import Ebftpd.Lib.Calendar
import Ebftpd.Stats.Date
import Ebftpd.Db.Serialization
import Ebftpd.Lib.Document
import Ebftpd.Db.Documents
import Ebftpd.Db.Nuking
import Ebftpd.Lib.Collection
import Ebftpd.Db.Mail
import Ebftpd.Cmd.Msg
import Ebftpd.Lib.LoadSave
import Ebftpd.Acl.Concurrent
import Ebftpd.Lib.Substitute
import Ebftpd.Text.TemplateSection
import Ebftpd.Text.Parser
import Ebftpd.Cmd.Allotment
import Ebftpd.Lib.FileTree
import Ebftpd.Fs.Tree
import Ebftpd.Cmd.DirectoryList
import Ebftpd.Cmd.Hidden
import Ebftpd.Util.ProcessReader
import Ebftpd.Ftp.Task
import Ebftpd.Lib.FirstMatch
import Ebftpd.Acl.Private
import Ebftpd.Lib.Replace
import Ebftpd.Acl.Rights
import Ebftpd.Ftp.Address
import Ebftpd.Fs.Attribute
import Ebftpd.Cmd.SiteAlias
import Ebftpd.Cmd.ListedTree
import Ebftpd.Fs.GlobIterator
import Ebftpd.Lib.Pruning
import Ebftpd.Cmd.Wipe
import Ebftpd.Fs.Removal
import Ebftpd.Cmd.SiteDispatch
import Ebftpd.Cmd.ChangeText
import Ebftpd.Cmd.Delip
import Ebftpd.Ftp.Xdupe
import Ebftpd.Stats.Compile
import Ebftpd.Db.GroupStats
import Ebftpd.Cmd.NukeOwners
import Ebftpd.Lib.Chmod
import Ebftpd.Fs.Mode
import Ebftpd.Db.Xfertime
import Ebftpd.Cmd.Limits
import Ebftpd.Fs.Relative
import Ebftpd.Lib.Pieces
import Ebftpd.Util.Whitespace
import Ebftpd.Cmd.Confirm
import Ebftpd.Acl.Password
import Ebftpd.Cmd.Arguments
import Ebftpd.Acl.IPStrength
import Ebftpd.Util.ReverseLogReader
import Ebftpd.Text.Include
import Ebftpd.Lib.Positional
import Ebftpd.Cfg.Keyword
import Ebftpd.Cfg.Parse
import Ebftpd.Util.Net.IPAddress
import Ebftpd.Ftp.Remote
import Ebftpd.Lib.Rows
import Ebftpd.Cmd.Accounts
import Ebftpd.Cmd.AccountEdits
import Ebftpd.Cmd.AccountSettings
import Ebftpd.Cmd.AccountRuns
import Ebftpd.Cmd.AccountRefusals
import Ebftpd.Cmd.Startup
import Ebftpd.Cfg.Get
import Ebftpd.Ftp.Idle
import Ebftpd.Exec.Cscript
import Ebftpd.Cfg.Load
import Ebftpd.Lib.Crc
import Ebftpd.Util.SliceBy8
import Ebftpd.Lib.Round
import Ebftpd.Ftp.Passive
import Ebftpd.Ftp.Secure
import Ebftpd.Lib.Deferred
import Ebftpd.Cmd.Indexing
import Ebftpd.Util.Time
import Ebftpd.Cmd.FileTimes
import Ebftpd.Cmd.MailText
import Ebftpd.Ftp.Idnt
