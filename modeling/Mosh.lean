import Mosh.Library.Run
import Mosh.Group.Chain
import Mosh.Group.Session
import Mosh.Group.TransitionExchange
import Mosh.Group.Gap
import Mosh.Library.Sampling
import Mosh.Group.Admin
import Mosh.Group.Departure
import Mosh.Group.OrgGate
import Mosh.Group.Names
import Mosh.Conversation.Message
import Mosh.DeviceLink.Roster
import Mosh.Conversation.MessageLog
import Mosh.Deletion.Journal
import Mosh.Deletion.Target
import Mosh.Deletion.Guard
import Mosh.Deletion.Application
import Mosh.DeviceLink.Revocation
import Mosh.Conversation.ChatNames
import Mosh.Attachment.Runtime
import Mosh.Attachment.Delivery
import Mosh.Attachment.Slots
import Mosh.Attachment.Transfer
import Mosh.Attachment.Together
import Mosh.Conversation.Outbound
import Mosh.Conversation.ReadMarks
import Mosh.Conversation.Unread
import Mosh.DmDevices.Topology
import Mosh.DmDevices.Membership
import Mosh.DmDevices.Session
import Mosh.DmDevices.Effects
import Mosh.DmDevices.Evidence
import Mosh.DmDevices.Bound
import Mosh.DmDevices.Removal
import Mosh.DmDevices.Rollback
import Mosh.Calls.State
import Mosh.Calls.Session
import Mosh.Calls.Effects
import Mosh.Calls.Selection
import Mosh.Calls.Ledger
import Mosh.Calls.Closed
import Mosh.Calls.Outsiders
import Mosh.Calls.Cross
import Mosh.Deletion.Keys
import Mosh.Deletion.Index
import Mosh.Deletion.Tombstones
import Mosh.Deletion.Fragments
import Mosh.Conversation.Writes
import Mosh.Conversation.Retained
import Mosh.Group.HistoryImport
import Mosh.Group.Intervals
import Mosh.Library.Base64
import Mosh.Library.Base64Url
import Mosh.Library.Hex
import Mosh.Library.Joining
import Mosh.Library.Trim
import Mosh.Library.Eviction
import Mosh.Library.Paging
import Mosh.Attachment.FileNames
import Mosh.Recovery.Coordinator
import Mosh.Plus.Coverage
import Mosh.Invite.Links
import Mosh.Invite.Urls
import Mosh.Invite.Lossless
import Mosh.Recovery.Fragment
import Mosh.Recovery.Pages
import Mosh.Recovery.Journal
import Mosh.Org.Acceptances
import Mosh.Org.Agreement
import Mosh.Org.Offers
import Mosh.Org.Roster
import Mosh.DeviceLink.Wire
import Mosh.DeviceLink.Identity
import Mosh.DeviceLink.Runtime
import Mosh.DeviceLink.Effects
import Mosh.DeviceLink.Plain
import Mosh.DeviceLink.Reopen
import Mosh.DeviceLink.Notices
import Mosh.Attachment.Window
import Mosh.Attachment.Playback
import Mosh.Attachment.Checkpoints
import Mosh.Background.Calls
import Mosh.Background.Transfers
import Mosh.Library.Upsert
import Mosh.Library.Padded
import Mosh.Conversation.Replay
import Mosh.Conversation.Restart
import Mosh.Library.Decimal
import Mosh.Recovery.Reassembly
import Mosh.Plus.Orders
import Mosh.Group.Refusals
import Mosh.PrivateDm.Session
import Mosh.PrivateDm.Delivery
import Mosh.PrivateDm.Delivered
import Mosh.PrivateDm.Receipts
import Mosh.DeviceLink.Forks
import Mosh.Conversation.NamePages
import Mosh.DeviceLink.NameWriters
import Mosh.Plus.Forward
import Mosh.Plus.Bootstrap
import Mosh.Plus.Devices
import Mosh.Plus.Pull
import Mosh.Plus.Series
import Mosh.Plus.Visibility
import Mosh.Plus.Quiet
import Mosh.DeviceLink.Pairing
import Mosh.Channel.Delivery
