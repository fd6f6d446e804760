import TftpServer.Endpoint.Text
import TftpServer.Log
import TftpServer.Network.Sink
import TftpServer.Packet.Message
import TftpServer.Text.Decimal

/-! # Actions

What a call on the sessions does to the outside is a list of actions, in order:
messages for the log and datagrams for the sink. None of the decisions depends
on how the sink fares; a lost reply to a peer without a transfer is noted in the
log.
-/

namespace TftpServer

inductive Action where
  | note (level : LogLevel) (text : Octets)
  /-- A datagram of a transfer. Losing it is made up for by the timer. -/
  | send (peer : Endpoint) (datagram : Octets)
  /-- An ERROR to a peer without a transfer. Losing it is noted in the log. -/
  | reply (peer : Endpoint) (code : ErrorCode) (datagram : Octets)
  deriving DecidableEq

namespace Action

variable {κ : Type}

/-- Carries out one action, and gives the octets for the log. -/
def perform (sink : Sink κ) (logger : Logger) (action : Action) (state : κ) : Octets × κ :=
  match action with
  | .note level text => (logger.line level text, state)
  | .send peer datagram => ([], (sink peer datagram state).2)
  | .reply peer code datagram =>
    match sink peer datagram state with
    | (.ok, state) => ([], state)
    | (_, state) =>
      (logger.line .warning
        (ascii "could not send ERROR " ++ Text.decimal code.value.toNat ++ ascii " to " ++ peer.text),
        state)

def performAll (sink : Sink κ) (logger : Logger) : List Action → κ → Octets × κ
  | [], state => ([], state)
  | action :: rest, state =>
    let (line, state) := action.perform sink logger state
    let (lines, state) := performAll sink logger rest state
    (line ++ lines, state)

end Action

end TftpServer
