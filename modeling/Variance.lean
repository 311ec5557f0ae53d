import Variance.Lib.Run
import Variance.Lib.Codec
import Variance.Lib.SlotLog
import Variance.Lib.KeyPool
import Variance.Lib.Directory
import Variance.Lib.Text
import Variance.Lib.Paging
import Variance.Spec.Groups
import Variance.Spec.InviteWorld
import Variance.Spec.Direct
import Variance.Spec.PeerPair
import Variance.Spec.FirstContact
import Variance.Spec.JoinWorld
import Variance.Spec.NameWorld
import Variance.Spec.Reinit
import Variance.Spec.Mls
import Variance.Spec.Relay
import Variance.Sanity.Trees
import Variance.Sanity.Slot
import Variance.Sanity.GroupInbound
import Variance.Sanity.Writes
import Variance.Sanity.InviteSteps
import Variance.Sanity.Frees
import Variance.Sanity.Sessions
import Variance.Sanity.Conversation
import Variance.Sanity.InviteTraffic
import Variance.Sanity.IdealMls
import Variance.Sanity.IdealRoster
import Variance.Sanity.IdealWire
import Variance.Sanity.IdealOlm
import Variance.Sanity.Names
import Variance.Proofs.InviteAgreement
import Variance.Proofs.DmAuthenticity
import Variance.Proofs.SessionAgreement
import Variance.Proofs.FirstContact
import Variance.Proofs.RemoteAuthority
import Variance.Proofs.SyncRefinement
import Variance.Proofs.GroupAttribution
import Variance.Proofs.InviteProvenance
import Variance.Proofs.AdminSuccession
import Variance.Proofs.NameAuthority
import Variance.Proofs.Reinitialisation
import Variance.Sanity.Calls
import Variance.Sanity.Handshakes
import Variance.Spec.Membership
import Variance.Sanity.Listed
import Variance.Proofs.KeyPackageBinding
import Variance.Spec.History
import Variance.Sanity.Filed
import Variance.Proofs.MemberMirror
import Variance.Proofs.HistoryIntegrity
import Variance.Proofs.RelayPaging
import Variance.Proofs.HistoryPaging
import Variance.Spec.Sync
import Variance.Sanity.Since
import Variance.Sanity.Synced
import Variance.Proofs.SyncRounds
import Variance.Proofs.SyncAccess
import Variance.Spec.Signaling
import Variance.Proofs.SignalingGuard
import Variance.Spec.Resolve
import Variance.Proofs.ResolveOnce
import Variance.Spec.PeerMap
import Variance.Proofs.PeerProvenance
import Variance.Proofs.MetadataSerial
import Variance.Spec.Clients
import Variance.Sanity.Clients
import Variance.Spec.MetadataTasks
import Variance.Proofs.FrozenGroup
import Variance.Spec.CrashWorld
import Variance.Sanity.Ratchets
import Variance.Proofs.CrashConsistency
import Variance.Spec.Subscriptions
import Variance.Proofs.Subscriptions
import Variance.Sanity.IdealRatchet
import Variance.Proofs.RelayAccounting
import Variance.Proofs.RegistryBijection
import Variance.Lib.Alternation
import Variance.Spec.Presence
import Variance.Proofs.PresenceTracking
import Variance.Spec.CallTable
import Variance.Proofs.CallLifecycle
import Variance.Lib.Arrivals
import Variance.Spec.MessageIndex
import Variance.Spec.Receipts
import Variance.Sanity.Receipts
import Variance.Proofs.ReceiptOrder
import Variance.Proofs.ReceiptAuthenticity
import Variance.Proofs.ReceiptDelivery
import Variance.Lib.CacheCover
import Variance.Spec.Retention
import Variance.Proofs.PlaintextLifetime
import Variance.Proofs.IndexExactness
import Variance.Spec.Mailboxes
import Variance.Proofs.MailboxLimits
import Variance.Spec.DmQueue
import Variance.Proofs.DmCustody
import Variance.Lib.Broadcast
import Variance.Spec.DmIntake
import Variance.Proofs.AckCustody
import Variance.Proofs.SignatureCoverage
import Variance.Lib.Notify
import Variance.Spec.MlsPersister
import Variance.Proofs.PersistRequests
import Variance.Lib.Streak
import Variance.Spec.Desync
import Variance.Sanity.Silent
import Variance.Proofs.DesyncNotice
import Variance.Lib.Protobuf
import Variance.Lib.ProtoSchema
import Variance.Spec.MessagingProto
import Variance.Spec.WireCodecs
import Variance.Proofs.CodecFidelity
import Variance.Spec.PageSize
import Variance.Proofs.PageSize
import Variance.Proofs.OfflineDelivery
import Variance.Spec.SendPaths
import Variance.Proofs.SendPaths
import Variance.Spec.Startup
import Variance.Sanity.Holding
import Variance.Proofs.Startup
import Variance.Proofs.SignalingReplay
import Variance.Proofs.ProvenIds
import Variance.Lib.ProtoMap
import Variance.Spec.DidDocument
import Variance.Proofs.DocumentTransport
import Variance.Lib.Metering
import Variance.Spec.RateLimiter
import Variance.Proofs.RateLimits
import Variance.Spec.IdentityCache
import Variance.Proofs.CacheFreshness
import Variance.Proofs.CacheRemoval
import Variance.Lib.Overflow
import Variance.Spec.Freshness
import Variance.Proofs.Freshness
import Variance.Spec.KeyOrder
import Variance.Proofs.KeyOrder
import Variance.Proofs.MailboxOrder
import Variance.Proofs.NameSearch
import Variance.Proofs.RoleChange
import Variance.Proofs.Discovery
import Variance.Spec.IdentityStorage
import Variance.Proofs.PublishedNames
import Variance.Spec.Typing
import Variance.Proofs.TypingStatus
import Variance.Proofs.TypingRaces
import Variance.Spec.Conversations
import Variance.Lib.Maxima
import Variance.Proofs.Conversations
import Variance.Proofs.UnreadFlags
import Variance.Spec.MlsState
import Variance.Sanity.Stored
import Variance.Sanity.IdealKeyStore
import Variance.Proofs.MlsState
import Variance.Spec.SessionRaces
import Variance.Proofs.OneSession
import Variance.Spec.IdentityFile
import Variance.Sanity.IdentityFile
import Variance.Sanity.IdealCrypto
import Variance.Proofs.IdentityFile
import Variance.Spec.Registration
import Variance.Proofs.Registration
import Variance.Proofs.MailboxAccess
import Variance.Spec.WebSocketClient
import Variance.Proofs.WebSocketClient
import Variance.Lib.InsertionMap
import Variance.Proofs.Reactions
import Variance.Proofs.HttpLimiter
import Variance.Spec.MessagingStore
import Variance.Proofs.MessagingStore
import Variance.Proofs.InviteLedger
import Variance.Spec.InviteLedger
import Variance.Proofs.NameForms
import Variance.Spec.HistoryView
import Variance.Proofs.HistoryView
import Variance.Lib.Replay
import Variance.Spec.Hub
import Variance.Proofs.Hub
import Variance.Spec.TypingSender
import Variance.Proofs.TypingSender
import Variance.Proofs.HistoryAgreement
import Variance.Spec.SwarmQueries
import Variance.Proofs.SwarmQueries
import Variance.Spec.Notifications
import Variance.Proofs.Notifications
