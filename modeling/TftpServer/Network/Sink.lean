import TftpServer.Endpoint.Basic

/-! # Sinks

A sink is where datagrams go. It says how it took each of them, and keeps a state
of its own.
-/

namespace TftpServer

/-- How a sink took a datagram, or what waiting for one came to. -/
inductive SocketStatus where
  | ok
  | invalidArgs
  | timedOut
  | pipeClosed
  deriving DecidableEq, Repr

abbrev Sink (κ : Type) := Endpoint → Octets → κ → SocketStatus × κ

end TftpServer
