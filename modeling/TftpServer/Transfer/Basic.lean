import TftpServer.BlockPosition
import TftpServer.Endpoint.Basic
import TftpServer.Negotiation
import TftpServer.Packet.Encode
import TftpServer.Store.Basic
import TftpServer.Time

/-! # Transfers

A transfer serves one read request to one peer: an option acknowledgement if
any option was accepted, then one DATA block at a time until the short block is
acknowledged. This is its state; what moves it is in `Transfer.Events`.
-/

namespace TftpServer

inductive Phase where
  | awaitingOptionAck
  | sendingData
  | awaitingAck
  | complete
  | failed
  deriving DecidableEq, Repr

/-- The name of a phase, as it appears in failure texts. -/
def Phase.name : Phase → Octets
  | .awaitingOptionAck => ascii "awaiting-oack-ack"
  | .sendingData => ascii "sending-data"
  | .awaitingAck => ascii "awaiting-ack"
  | .complete => ascii "complete"
  | .failed => ascii "failed"

/-- A transfer: its peer, the stream it reads, the options still to be
announced, its settings, the block it stands at, the datagram it may have to
repeat, and its bookkeeping. -/
structure Transfer (σ : Type) where
  peer : Endpoint
  source : Option σ
  options : List OptionField
  settings : Settings
  position : BlockPosition := .first
  inFlight : Octets := []
  deadline : Option Time := none
  detail : Octets := []
  bytesSent : UInt64 := 0
  retries : UInt32 := 0
  phase : Phase := .sendingData
  finalBlock : Bool := false

/-- What must not happen inside a step: a message without a wire form, a
payload that does not fit its opcode, a read after the stream was released, or one
that is broken off. -/
inductive Fault where
  | encoding (error : EncodeError)
  | wrongPayload
  | noSource
  | brokenOff (error : LengthError)
  deriving DecidableEq, Repr

/-- The outcome of a step: the new state and world, the datagrams handed to the
sink in order, and the fault that cut the step short, if one did. -/
structure Step (ω σ : Type) where
  transfer : Transfer σ
  world : ω
  sent : List Octets := []
  fault : Option Fault := none

namespace Transfer

variable {ω σ : Type}

/-- A transfer that has not started yet. -/
def create (peer : Endpoint) (source : σ) (accepted : Acceptance) (settings : Settings) : Transfer σ where
  peer := peer
  source := some source
  options := accepted.entries
  settings := settings

def isTerminal (transfer : Transfer σ) : Bool :=
  transfer.phase = .complete || transfer.phase = .failed

end Transfer

end TftpServer
