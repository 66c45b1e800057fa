import SekurIRCd.Accept.AddressCounts
import SekurIRCd.Accept.Admission
import SekurIRCd.Accept.Classes
import SekurIRCd.Accept.Login
import SekurIRCd.Accept.Privilege
import SekurIRCd.Accept.ProxyV2
import SekurIRCd.Accept.Register
import SekurIRCd.Accept.ScanStream
import SekurIRCd.Accept.Scanner
import SekurIRCd.Accept.Worker
import SekurIRCd.Address
import SekurIRCd.BanCache
import SekurIRCd.BanExpiry
import SekurIRCd.Channel
import SekurIRCd.ChatHistory
import SekurIRCd.Client
import SekurIRCd.ContentModes
import SekurIRCd.Delivery
import SekurIRCd.Dispatch
import SekurIRCd.Enforce
import SekurIRCd.Flood
import SekurIRCd.Glob
import SekurIRCd.GrownLists
import SekurIRCd.History
import SekurIRCd.HistoryFile
import SekurIRCd.HistoryReplay
import SekurIRCd.HistoryTargets
import SekurIRCd.Iso8601
import SekurIRCd.Kline
import SekurIRCd.Lib.BinarySearch
import SekurIRCd.Lib.BitPrefix
import SekurIRCd.Lib.Buckets
import SekurIRCd.Lib.ByteQueue
import SekurIRCd.Lib.CString
import SekurIRCd.Lib.Calendar
import SekurIRCd.Lib.Cascade
import SekurIRCd.Lib.Chunks
import SekurIRCd.Lib.Disk
import SekurIRCd.Lib.ExchangeSort
import SekurIRCd.Lib.Generation
import SekurIRCd.Lib.HashIndex
import SekurIRCd.Lib.Incidence
import SekurIRCd.Lib.Json
import SekurIRCd.Lib.JsonPrint
import SekurIRCd.Lib.LazyArray
import SekurIRCd.Lib.Newest
import SekurIRCd.Lib.OldestOut
import SekurIRCd.Lib.Paging
import SekurIRCd.Lib.ParentTree
import SekurIRCd.Lib.Presence
import SekurIRCd.Lib.RefreshRing
import SekurIRCd.Lib.Register
import SekurIRCd.Lib.Relay
import SekurIRCd.Lib.Runs
import SekurIRCd.Lib.SendBuffer
import SekurIRCd.Lib.SignedLetters
import SekurIRCd.Lib.Tally
import SekurIRCd.Lib.Wildcard
import SekurIRCd.Lib.WindowRing
import SekurIRCd.Mask
import SekurIRCd.Message
import SekurIRCd.Mode.Announce
import SekurIRCd.Mode.Authority
import SekurIRCd.Mode.Buffers
import SekurIRCd.Mode.Change
import SekurIRCd.Mode.Command
import SekurIRCd.Mode.FloodTimer
import SekurIRCd.Mode.Respell
import SekurIRCd.Mode.Wire
import SekurIRCd.Net.Batches
import SekurIRCd.Net.Burst
import SekurIRCd.Net.Channels
import SekurIRCd.Net.ClientRead
import SekurIRCd.Net.Clients
import SekurIRCd.Net.Collision
import SekurIRCd.Net.DelayedJoin
import SekurIRCd.Net.Existence
import SekurIRCd.Net.JoinGate
import SekurIRCd.Net.Labelled
import SekurIRCd.Net.Lines
import SekurIRCd.Net.LinkRead
import SekurIRCd.Net.Members
import SekurIRCd.Net.Membership
import SekurIRCd.Net.Merge
import SekurIRCd.Net.ModeString
import SekurIRCd.Net.Monitor
import SekurIRCd.Net.Multiline
import SekurIRCd.Net.MultilinePath
import SekurIRCd.Net.NickTable
import SekurIRCd.Net.PassOn
import SekurIRCd.Net.Queries
import SekurIRCd.Net.Rename
import SekurIRCd.Net.SendQueue
import SekurIRCd.Net.State
import SekurIRCd.Net.Topic
import SekurIRCd.Net.Tree
import SekurIRCd.Net.UserCopies
import SekurIRCd.Net.UserLines
import SekurIRCd.Net.WatchIndex
import SekurIRCd.Notices
import SekurIRCd.Proto
import SekurIRCd.Services.AccountFile
import SekurIRCd.Services.AccountIndex
import SekurIRCd.Services.AccountStore
import SekurIRCd.Services.ChanRegistry
import SekurIRCd.Services.ChanRights
import SekurIRCd.Services.Incarnation
import SekurIRCd.Services.Mlock
import SekurIRCd.Services.MlockApply
import SekurIRCd.Services.MlockWatch
import SekurIRCd.Services.NickIndex
import SekurIRCd.Services.NickServ
import SekurIRCd.Services.Replication
import SekurIRCd.Services.Reset
import SekurIRCd.Services.SecureOps
import SekurIRCd.Services.Sweep
import SekurIRCd.ShunCache
import SekurIRCd.Spam
import SekurIRCd.SpamTrack
import SekurIRCd.Throttle
import SekurIRCd.TimeTag
import SekurIRCd.Utf8
import SekurIRCd.Utf8Only
import SekurIRCd.Utf8Text
import SekurIRCd.Ws.Forwarded
import SekurIRCd.Ws.Frame
import SekurIRCd.Ws.Header
import SekurIRCd.Ws.Read
