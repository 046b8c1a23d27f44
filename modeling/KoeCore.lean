import KoeCore.Library.Wire
import KoeCore.Protocol.Crypto
import KoeCore.Protocol.Packet
import KoeCore.Protocol.PacketRoundTrip
import KoeCore.Messaging.Delivery
import KoeCore.Handshake.Record
import KoeCore.Handshake.Agreement
import KoeCore.Library.Slots
import KoeCore.Session.Table
import KoeCore.Context.Handshake
import KoeCore.Library.Runs
import KoeCore.Context.Secrecy
import KoeCore.Context.Agreement
import KoeCore.Library.Table
import KoeCore.Queue.Store
import KoeCore.Queue.Accounting
import KoeCore.Messaging.Builders
import KoeCore.Messaging.Media
import KoeCore.Messaging.HeaderIndependence
import KoeCore.Context.Send
import KoeCore.Context.SendKey
import KoeCore.Session.Map
import KoeCore.Library.Pieces
import KoeCore.Protocol.Fragment
import KoeCore.Protocol.Reassembly
import KoeCore.Protocol.FragmentDelivery
import KoeCore.Library.Segments
import KoeCore.Transport.Tcp
import KoeCore.Event.Ring
import KoeCore.Messaging.Acceptance
import KoeCore.Handshake.Finality
import KoeCore.Handshake.Network
import KoeCore.Messaging.ChannelPosts
import KoeCore.Queue.History
import KoeCore.Queue.Order
import KoeCore.Context.SendStored
import KoeCore.Store.Messages
import KoeCore.Identity.Contacts
import KoeCore.Account.Registry
import KoeCore.Context.Lifecycle
import KoeCore.Context.Rotation
import KoeCore.Backup.Archive
import KoeCore.Library.Directory
import KoeCore.Backup.Restore
import KoeCore.Library.Crc
import KoeCore.Protocol.Checksum
import KoeCore.Session.Representation
import KoeCore.Queue.Depth
import KoeCore.Transport.WebSocket
import KoeCore.Transport.Validation
import KoeCore.Messaging.Subscribers
import KoeCore.Account.Device
import KoeCore.Account.Mirror
import KoeCore.Messaging.Transfer
import KoeCore.Protocol.PacketCanonical
import KoeCore.Protocol.HostileFragments
import KoeCore.Session.Retention
import KoeCore.Library.Loops
import KoeCore.Library.Windows
import KoeCore.Presence.Table
import KoeCore.Presence.History
import KoeCore.Event.Listeners
import KoeCore.Event.Bounded
import KoeCore.Identity.ShortId
import KoeCore.Identity.Tamper
import KoeCore.Account.Passphrase
import KoeCore.Store.Receipts
import KoeCore.Queue.Faults
import KoeCore.Event.Interleaving
import KoeCore.Queue.Expiry
import KoeCore.Backup.Strictness
import KoeCore.Backup.Containment
import KoeCore.Messaging.Chunks
import KoeCore.Messaging.Replies
import KoeCore.Messaging.RevocationAuthenticity
import KoeCore.Library.Json
import KoeCore.Transport.Discovery
import KoeCore.Library.JsonFlat
import KoeCore.Matrix.Fields
import KoeCore.Matrix.Rooms
import KoeCore.Context.Receive
import KoeCore.Context.Conversation
import KoeCore.Queue.Backlog
import KoeCore.Context.Pipeline
import KoeCore.Plugin.Dispatch
import KoeCore.Plugin.Lifecycle
import KoeCore.Context.Restart
import KoeCore.Library.LastWrites
import KoeCore.Call.Audio
import KoeCore.Library.Descriptors
import KoeCore.Transport.Connections
import KoeCore.Transport.Echoes
import KoeCore.Matrix.Http
import KoeCore.Matrix.Sync
import KoeCore.Library.Transducer
import KoeCore.Plugin.Screening
import KoeCore.Matrix.Login
import KoeCore.Matrix.Tokens
import KoeCore.Library.Keyed
import KoeCore.Identity.ContactMaps
import KoeCore.Privacy.Ghost
import KoeCore.Store.Life
import KoeCore.Messaging.Confusion
import KoeCore.Context.Peers
import KoeCore.Account.KeyFiles
