import Dsip.Messaging.HubOutage
import Dsip.Messaging.Resume
import Dsip.Lib.FoldEmit
import Dsip.Messaging.Hub
import Dsip.Messaging.HubNumbering
import Dsip.Messaging.HubFanout
import Dsip.Lib.PyInt
import Dsip.Messaging.Mailbox
import Dsip.Messaging.MailboxOnce
import Dsip.Registry
import Dsip.Engine.Contacts
import Dsip.Engine.Endpoint
import Dsip.Engine.Clock
import Dsip.Engine.Inbound
import Dsip.Engine.Owner
import Dsip.Engine.Machine
import Dsip.Engine.Table
import Dsip.Engine.Waits
import Dsip.Engine.Records
import Dsip.Engine.Parties
import Dsip.Lib.Duplex
import Dsip.Lib.Crossing
import Dsip.Engine.Glare
import Dsip.Engine.GlareRuns
import Dsip.Engine.Handshake
import Dsip.Engine.Solo
import Dsip.Engine.Call
import Dsip.Routing.Relay
import Dsip.Routing.Steps
import Dsip.Routing.Attempts
import Dsip.Routing.Inbox
import Dsip.Routing.Completion
import Dsip.Routing.Conservation
import Dsip.Lib.KeySort
import Dsip.Routing.RelayTs
import Dsip.Routing.Lockstep
import Dsip.Routing.Parity
import Dsip.Messaging.HubTs
import Dsip.Messaging.HubParity
import Dsip.Messaging.HubAgree
import Dsip.Engine.Keys
import Dsip.Engine.KeyMoves
import Dsip.Engine.KeyRuns
import Dsip.Engine.KeyRefine
import Dsip.Messaging.Gap
import Dsip.Messaging.GapOrder
import Dsip.Messaging.Cursor
import Dsip.Messaging.MailboxItems
import Dsip.Messaging.MailboxRetention
import Dsip.Messaging.MailboxPaging
import Dsip.Lib.TwoRuns
import Dsip.Messaging.MailboxTs
import Dsip.Messaging.MailboxSilence
import Dsip.Messaging.OutboxLedger
import Dsip.Messaging.History
import Dsip.Messaging.HistoryGate
import Dsip.Messaging.HistoryOrder
import Dsip.Lib.Encodings
import Dsip.Lib.Lowest
import Dsip.Messaging.Successor
import Dsip.Messaging.SuccessorRuns
import Dsip.Messaging.HubCommits
import Dsip.Broadcast.Authority
import Dsip.Broadcast.Notify
import Dsip.Broadcast.Course
import Dsip.Broadcast.Expiry
import Dsip.Broadcast.Steps
import Dsip.Broadcast.Invariants
import Dsip.Broadcast.Subscriber
import Dsip.Broadcast.Life
import Dsip.Broadcast.AuthorityTs
import Dsip.Broadcast.StepsTs
import Dsip.Broadcast.Owners
import Dsip.Broadcast.Shares
import Dsip.Broadcast.SharesTs
import Dsip.Gateway.Reasons
import Dsip.Gateway.Call
import Dsip.Gateway.CallTs
import Dsip.Gateway.Legs
import Dsip.Gateway.Ending
import Dsip.Gateway.EndingTs
import Dsip.Events.Ber
import Dsip.Events.SnmpV3
import Dsip.Events.SnmpV3Ts
import Dsip.Events.Usm
import Dsip.Events.UsmTs
import Dsip.Events.Grammar
import Dsip.Events.Messages
import Dsip.Events.UsmAgree
import Dsip.Events.Window
import Dsip.Events.Replay
import Dsip.Lib.Json
import Dsip.Lib.Base58
import Dsip.Webvh.Jcs
import Dsip.Webvh.Log
import Dsip.Lib.HashChain
import Dsip.Webvh.Resolve
import Dsip.Webvh.History
import Dsip.Binding.Candidates
import Dsip.Events.AlarmList
import Dsip.Events.AlarmListTs
import Dsip.Events.AlarmsAgree
import Dsip.Messaging.Client
import Dsip.Messaging.ClientTs
import Dsip.Messaging.ClientAgree
import Dsip.Messaging.Heard
import Dsip.Messaging.Watermarks
import Dsip.Messaging.ReceiptsOnce
import Dsip.Lib.Weight
import Dsip.Engine.Advance
import Dsip.Binding.Sdp
import Dsip.Binding.SdpTs
import Dsip.Binding.SdpRead
import Dsip.Binding.SdpAgree
import Dsip.Lib.BigEndian
import Dsip.Events.BerWrite
import Dsip.Events.Framing
import Dsip.Events.Password
import Dsip.Events.Timeliness
import Dsip.Lib.SlidingWindow
import Dsip.Messaging.MailboxBudget
import Dsip.Messaging.ResumeCrash
import Dsip.Events.Embed
import Dsip.Events.Answer
import Dsip.Events.AnswerRead
import Dsip.Events.AnswerScoped
import Dsip.Events.AnswerUsm
import Dsip.Events.AnswerAuthentic
import Dsip.Lib.Utf8Replace
import Dsip.Events.Syslog
import Dsip.Events.SignedBlock
import Dsip.Events.SyslogScan
import Dsip.Events.SignedBytes
import Dsip.Lib.JsValue
import Dsip.Lib.JsonSchema
import Dsip.Messaging.Schemas
import Dsip.Messaging.Message
import Dsip.Messaging.Object
import Dsip.Messaging.Verdicts
import Dsip.Messaging.Extension
import Dsip.Transparency.SearchTree
import Dsip.Transparency.Ladder
import Dsip.Lib.HashTree
import Dsip.Transparency.LogTree
import Dsip.Transparency.PrefixTree
import Dsip.Transparency.Roots
import Dsip.Pkarr.KeyText
import Dsip.Lib.Loop
import Dsip.Pkarr.Names
import Dsip.Pkarr.NamesAgree
import Dsip.Pkarr.Carry
import Dsip.Pkarr.CarryTs
import Dsip.Pkarr.CarryAgree
import Dsip.Pkarr.CarryAgain
import Dsip.Messaging.Timeline
import Dsip.Lib.PyJson
import Dsip.Webvh.IJson
import Dsip.Webvh.JcsRead
import Dsip.Lib.Safe
import Dsip.Lib.Substitute
import Dsip.Webvh.Host
import Dsip.Webvh.ScidText
import Dsip.Webvh.Guarded
import Dsip.Webvh.GuardedParams
import Dsip.Webvh.GuardedEntry
import Dsip.Webvh.Outcomes
import Dsip.Lib.Radix
import Dsip.Messaging.Ulid
import Dsip.Lib.Timers
import Dsip.Events.HoldDown
import Dsip.Events.Escalation
import Dsip.Recording.Consent
import Dsip.Recording.ConsentTs
import Dsip.Lib.Newest
import Dsip.Lib.Encoders
import Dsip.Tn.Jws
import Dsip.Tn.Path
import Dsip.Tn.Binding
import Dsip.Tn.Compact
import Dsip.Tn.Anchors
import Dsip.Tn.Passport
import Dsip.Tn.IdentityHeader
import Dsip.Tn.Gateway
import Dsip.Tn.GatewayPair
import Dsip.Tn.Store
import Dsip.Tn.Held
import Dsip.Lib.Since
import Dsip.Wake.Waker
import Dsip.Wake.WakerRuns
import Dsip.Messaging.CursorIssued
import Dsip.Lib.Der
import Dsip.Tn.TnAuth
import Dsip.Lib.Fields
import Dsip.Transparency.Encoding
import Dsip.Tn.Vouched
import Dsip.Broadcast.Sealed
