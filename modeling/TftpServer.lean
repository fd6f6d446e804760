import TftpServer.BlockPosition
import TftpServer.CommandLine.Config
import TftpServer.CommandLine.Program
import TftpServer.Endpoint.Basic
import TftpServer.Endpoint.Numeric
import TftpServer.Endpoint.SocketAddress
import TftpServer.Endpoint.Text
import TftpServer.FileTree
import TftpServer.Log
import TftpServer.Main
import TftpServer.Negotiation
import TftpServer.Network.Buffer
import TftpServer.Network.Candidates
import TftpServer.Network.Host
import TftpServer.Network.Script
import TftpServer.Network.Sink
import TftpServer.Network.Snapshot
import TftpServer.Network.Socket
import TftpServer.Network.SocketPool
import TftpServer.Network.StopSignals
import TftpServer.Network.View
import TftpServer.Octets
import TftpServer.Packet.Decode
import TftpServer.Packet.Encode
import TftpServer.Packet.FieldAt
import TftpServer.Packet.Message
import TftpServer.Packet.Reader
import TftpServer.Path
import TftpServer.Proofs.BlockPosition.Numbering
import TftpServer.Proofs.BlockPosition.Tiling
import TftpServer.Proofs.CommandLine.Arguments
import TftpServer.Proofs.Endpoint.Numeric
import TftpServer.Proofs.Endpoint.SocketAddress
import TftpServer.Proofs.Endpoint.Text
import TftpServer.Proofs.Log.Lines
import TftpServer.Proofs.Negotiation.Agreement
import TftpServer.Proofs.Negotiation.Announcement
import TftpServer.Proofs.Negotiation.Bounds
import TftpServer.Proofs.Negotiation.Legality
import TftpServer.Proofs.Negotiation.Occurrence
import TftpServer.Proofs.Negotiation.Resolution
import TftpServer.Proofs.Negotiation.Stability
import TftpServer.Proofs.Network.Candidates
import TftpServer.Proofs.Network.Observation
import TftpServer.Proofs.Network.Ownership
import TftpServer.Proofs.Network.StopSignals
import TftpServer.Proofs.Network.View
import TftpServer.Proofs.Packet.FieldAt
import TftpServer.Proofs.Packet.Fields
import TftpServer.Proofs.Packet.Grammar
import TftpServer.Proofs.Packet.NormalForm
import TftpServer.Proofs.Packet.Readback
import TftpServer.Proofs.Packet.RoundTrip
import TftpServer.Proofs.Packet.WireForm
import TftpServer.Proofs.Path.Resolution
import TftpServer.Proofs.Service.Parts
import TftpServer.Proofs.Service.Stopping
import TftpServer.Proofs.Service.Turns
import TftpServer.Proofs.Service.Wait
import TftpServer.Proofs.Sessions.Actions
import TftpServer.Proofs.Sessions.Calls
import TftpServer.Proofs.Sessions.Confinement
import TftpServer.Proofs.Sessions.Entries
import TftpServer.Proofs.Sessions.FailedRead
import TftpServer.Proofs.Sessions.Faultless
import TftpServer.Proofs.Sessions.History
import TftpServer.Proofs.Sessions.Isolation
import TftpServer.Proofs.Sessions.Keeping
import TftpServer.Proofs.Sessions.LogIntegrity
import TftpServer.Proofs.Sessions.Membership
import TftpServer.Proofs.Sessions.Restraint
import TftpServer.Proofs.Sessions.Server
import TftpServer.Proofs.Sessions.Settling
import TftpServer.Proofs.Sessions.Table
import TftpServer.Proofs.Sessions.Ticks
import TftpServer.Proofs.Sessions.View
import TftpServer.Proofs.Store.Alike
import TftpServer.Proofs.Store.Buffers
import TftpServer.Proofs.Store.Confinement
import TftpServer.Proofs.Store.Details
import TftpServer.Proofs.Store.MemoryTable
import TftpServer.Proofs.Store.OpenFile
import TftpServer.Proofs.Store.Recorded
import TftpServer.Proofs.Store.Serving
import TftpServer.Proofs.Store.Steady
import TftpServer.Proofs.Store.View
import TftpServer.Proofs.Text.Decimal
import TftpServer.Proofs.Text.Escape
import TftpServer.Proofs.Text.Hexadecimal
import TftpServer.Proofs.Text.Printable
import TftpServer.Proofs.Text.Split
import TftpServer.Proofs.Transfer.Acknowledgement
import TftpServer.Proofs.Transfer.Awaiting
import TftpServer.Proofs.Transfer.Blocks
import TftpServer.Proofs.Transfer.Conduct
import TftpServer.Proofs.Transfer.Consistency
import TftpServer.Proofs.Transfer.Delivery
import TftpServer.Proofs.Transfer.Demand
import TftpServer.Proofs.Transfer.FailedRead
import TftpServer.Proofs.Transfer.Faithful
import TftpServer.Proofs.Transfer.Feed
import TftpServer.Proofs.Transfer.LineEnds
import TftpServer.Proofs.Transfer.Live
import TftpServer.Proofs.Transfer.Losses
import TftpServer.Proofs.Transfer.LossyPath
import TftpServer.Proofs.Transfer.Oblivious
import TftpServer.Proofs.Transfer.OfContent
import TftpServer.Proofs.Transfer.Portions
import TftpServer.Proofs.Transfer.Presentable
import TftpServer.Proofs.Transfer.Reaction
import TftpServer.Proofs.Transfer.Repetition
import TftpServer.Proofs.Transfer.Restraint
import TftpServer.Proofs.Transfer.Run
import TftpServer.Proofs.Transfer.Sendings
import TftpServer.Proofs.Transfer.Translation
import TftpServer.Proofs.Transfer.Truthful
import TftpServer.Proofs.Transfer.Twins
import TftpServer.Proofs.Transfer.View
import TftpServer.Service
import TftpServer.Sessions.Action
import TftpServer.Sessions.Basic
import TftpServer.Sessions.Peer
import TftpServer.Sessions.Table
import TftpServer.Store.Basic
import TftpServer.Store.File
import TftpServer.Store.Memory
import TftpServer.Store.Mixed
import TftpServer.Store.Netascii
import TftpServer.Store.Scripted
import TftpServer.Store.Sequential
import TftpServer.Text.Ascii
import TftpServer.Text.Decimal
import TftpServer.Text.LogEscape
import TftpServer.Text.Split
import TftpServer.Time
import TftpServer.Transfer.Basic
import TftpServer.Transfer.Events
import TftpServer.Transfer.Peer
