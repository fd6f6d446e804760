import TftpServer.Endpoint.SocketAddress
import TftpServer.Network.StopSignals
import TftpServer.Store.Basic
import TftpServer.Time

/-! # Hosts

A host is what the server runs on: a clock, sockets, address lookup and signal
delivery. Each call acts on a world, so a host can be a machine with a network
as well as a script. Nothing is assumed about how its calls turn out.
-/

namespace TftpServer

abbrev Descriptor := Int

/-- The descriptor that stands for no socket. -/
def noDescriptor : Descriptor := -1

/-- What a wait for a datagram reports of the descriptor. -/
structure PollFlags where
  readable : Bool := false
  error : Bool := false
  invalid : Bool := false
  hangup : Bool := false
  deriving DecidableEq, Repr

inductive PollReport where
  | ready (flags : PollFlags)
  | quiet
  | interrupted
  | failed
  deriving DecidableEq, Repr

/-- The calls that a server makes. Failing calls say why in the words of the
system; a failed transmission gives no count. -/
structure Host (ω : Type) where
  now : ω → Time × ω
  poll : Descriptor → Nat → ω → PollReport × ω
  receive : Descriptor → Nat → ω → Option (SocketAddress × Octets) × ω
  send : Descriptor → SocketAddress → Octets → ω → Option Nat × ω
  close : Descriptor → ω → ω
  lookup : Octets → Octets → ω → Except Octets (List Endpoint)
  create : Family → ω → Except Octets Descriptor × ω
  bind : Descriptor → Endpoint → ω → Except Octets Unit × ω
  bindStopSignals : Option ServerId → ω → Bool × ω
  stopRequested : ServerId → ω → Bool

/-- A host on the first part of a world. -/
def Host.onFirst {ω τ : Type} (host : Host ω) : Host (ω × τ) :=
  let lift {α : Type} (call : ω → α × ω) (world : ω × τ) : α × (ω × τ) :=
    let (result, first) := call world.1
    (result, (first, world.2))
  { now := lift host.now
    poll := fun descriptor wait => lift (host.poll descriptor wait)
    receive := fun descriptor room => lift (host.receive descriptor room)
    send := fun descriptor peer octets => lift (host.send descriptor peer octets)
    close := fun descriptor world => (host.close descriptor world.1, world.2)
    lookup := fun name port world => host.lookup name port world.1
    create := fun family => lift (host.create family)
    bind := fun descriptor address => lift (host.bind descriptor address)
    bindStopSignals := fun target => lift (host.bindStopSignals target)
    stopRequested := fun server world => host.stopRequested server world.1 }

/-- A store on the second part of a world. -/
def Store.onSecond {ω τ σ : Type} (store : Store τ σ) : Store (ω × τ) σ where
  read stream offset count world :=
    let (reply, stream, second) := store.read stream offset count world.2
    (reply, stream, (world.1, second))
  length stream world := store.length stream world.2
  openStream name mode world :=
    let (opened, second) := store.openStream name mode world.2
    (opened, (world.1, second))

end TftpServer
