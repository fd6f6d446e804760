import TftpServer.Network.Host

/-! # Snapshots

On a machine a service runs turn by turn. What a turn is going to meet is observed
before it: the time, how the wait ends, the datagram that came in. The turn then
runs on this snapshot alone, and what it hands out is sent afterwards. A start
works the same way, on the candidates that were found and on those of them that
could not be bound.
-/

namespace TftpServer

/-- What was observed before a start or a turn, and what the turn hands out. -/
structure Snapshot where
  /-- The time before the wait, and the time after it. -/
  clock : Time := 0
  wake : Time := 0
  report : PollReport := .quiet
  arrival : Option (SocketAddress × Octets) := none
  stopped : Bool := false
  signalsRouted : Bool := true
  candidates : Except Octets (List Endpoint) := .ok []
  /-- The candidates that could not be bound, with the reasons. -/
  refusals : List (Endpoint × Octets) := []
  /-- The datagrams to be sent, newest first. -/
  outgoing : List (SocketAddress × Octets) := []

namespace Snapshot

/-- The descriptor that stands for the one socket of a snapshot. -/
def descriptor : Descriptor := 0

/-- Snapshots as hosts. Every datagram counts as sent; a machine that fails to
send one has lost it on the way. -/
def calls : Host Snapshot where
  now snapshot := (snapshot.clock, snapshot)
  poll _ _ snapshot := (snapshot.report, { snapshot with clock := snapshot.wake })
  receive _ room snapshot :=
    (snapshot.arrival.map fun (origin, octets) => (origin, octets.take room),
      { snapshot with arrival := none })
  send _ peer octets snapshot :=
    (some octets.length, { snapshot with outgoing := (peer, octets) :: snapshot.outgoing })
  close _ snapshot := snapshot
  lookup _ _ snapshot := snapshot.candidates
  create _ snapshot := (.ok descriptor, snapshot)
  bind _ candidate snapshot :=
    match snapshot.refusals.lookup candidate with
    | some reason => (.error reason, snapshot)
    | none => (.ok (), snapshot)
  bindStopSignals _ snapshot := (snapshot.signalsRouted, snapshot)
  stopRequested _ snapshot := snapshot.stopped

end Snapshot

end TftpServer
