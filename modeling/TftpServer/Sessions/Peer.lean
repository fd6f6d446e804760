import TftpServer.Sessions.Basic
import TftpServer.Transfer.Peer

/-! # Sessions of cooperating peers

A cooperating peer sends the acknowledgement that its transfer is waiting for,
as a datagram like any other, for as long as it has a transfer.
-/

namespace TftpServer.Sessions

variable {ω σ : Type}

/-- The datagram that a transfer is waiting for. -/
def expectedDatagram (transfer : Transfer σ) : Octets :=
  (encode transfer.expectedAck).toOption.getD []

/-- Goes on acknowledging after `acks` acknowledgements, which asked for the
actions `done`, last first. -/
def cooperateFrom (store : Store ω σ) (config : EngineConfig) (peer : Endpoint) (now : Time)
    (acks : Nat) (done : List Action) (sessions : Sessions ω σ) : Nat → Outcome ω σ × Nat
  | 0 => ({ sessions, actions := done.reverse }, acks)
  | limit + 1 =>
    match sessions.table.find? peer with
    | none => ({ sessions, actions := done.reverse }, acks)
    | some transfer =>
      let outcome := sessions.receive store config (expectedDatagram transfer) peer now
      let done := outcome.actions.reverse ++ done
      match outcome.fault with
      | some _ => ({ outcome with actions := done.reverse }, acks)
      | none => cooperateFrom store config peer now (acks + 1) done outcome.sessions limit

/-- Lets a peer acknowledge up to `limit` times, while it has a transfer: all of
it as one call, and the number of acknowledgements that were taken without a
fault. -/
def cooperate (sessions : Sessions ω σ) (store : Store ω σ) (config : EngineConfig) (peer : Endpoint)
    (now : Time) (limit : Nat) : Outcome ω σ × Nat :=
  cooperateFrom store config peer now 0 [] sessions limit

end TftpServer.Sessions
