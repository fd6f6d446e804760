import TftpServer.Network.Buffer
import TftpServer.Network.Host
import TftpServer.Sessions.Basic

/-! # Sockets

A socket owns a descriptor. Ownership moves from one socket to another and is
never shared: a socket that gave its descriptor away is unusable, and a
descriptor is closed when its owner goes away or takes over another one.
-/

namespace TftpServer

/-- A socket: its descriptor, whether it was ready for use, and whether it is
closed. -/
structure Socket where
  descriptor : Descriptor := noDescriptor
  ready : Bool := false
  closed : Bool := true
  deriving DecidableEq, Repr

namespace Socket

variable {ω : Type}

/-- The socket that holds no descriptor. -/
def unbound : Socket := {}

/-- The socket that takes charge of a descriptor. -/
def ofDescriptor (descriptor : Descriptor) : Socket :=
  let ready := descriptor != noDescriptor
  ⟨descriptor, ready, !ready⟩

def isUsable (socket : Socket) : Bool := !socket.closed && socket.ready

/-- Moves a descriptor out of a socket: first the new owner, then what is left. -/
def moveOut (socket : Socket) : Socket × Socket := (socket, unbound)

/-- Ends the life of a socket. The descriptor to be closed is reported. -/
def destroy (socket : Socket) : Socket × Option Descriptor :=
  if !socket.ready || socket.closed then (socket, none)
  else ({ socket with closed := true }, some socket.descriptor)

/-- Lets `target` take over the descriptor of `source`: the new target, the new
source, and the descriptor that the target had to close. -/
def takeOver (target source : Socket) : Socket × Socket × Option Descriptor :=
  let released :=
    if target.descriptor ≠ noDescriptor ∧ target.closed = false then some target.descriptor else none
  (source, unbound, released)

/-- Waits up to `wait` milliseconds for a datagram; a negative wait does not
wait. An interrupted wait counts as timed out, so that stop requests are
noticed. -/
def waitReadable (host : Host ω) (socket : Socket) (wait : Int) (world : ω) : SocketStatus × ω :=
  if socket.isUsable then
    let (report, world) := host.poll socket.descriptor wait.toNat world
    let status := match report with
      | .failed => SocketStatus.pipeClosed
      | .interrupted => .timedOut
      | .quiet => .timedOut
      | .ready flags => if flags.error || flags.invalid then .pipeClosed else .ok
    (status, world)
  else (.pipeClosed, world)

/-- Sends a datagram. It counts as sent only when all of it was. -/
def send (host : Host ω) (socket : Socket) (peer : Endpoint) (octets : Octets) (world : ω) :
    SocketStatus × ω :=
  if !socket.isUsable then (.pipeClosed, world)
  else if octets = [] then (.invalidArgs, world)
  else
    match host.send socket.descriptor (SocketAddress.ofEndpoint peer) octets world with
    | (some count, world) => (if count = octets.length then .ok else .pipeClosed, world)
    | (none, world) => (.pipeClosed, world)

/-- Receives a datagram into a buffer: the peer when all went well, the status,
and the buffer. A datagram from a family without endpoints is not shown. -/
def receive (host : Host ω) (socket : Socket) (buffer : ReceiveBuffer) (world : ω) :
    Option Endpoint × SocketStatus × ReceiveBuffer × ω :=
  if socket.isUsable then
    let buffer := buffer.reset
    match host.receive socket.descriptor buffer.capacity world with
    | (none, world) => (none, .pipeClosed, buffer, world)
    | (some (address, octets), world) =>
      let buffer := buffer.fill octets
      match SocketAddress.toEndpoint? address with
      | none => (none, .invalidArgs, buffer, world)
      | some peer => (some peer, .ok, buffer.mark octets.length, world)
  else (none, .pipeClosed, buffer, world)

def sink (host : Host ω) (socket : Socket) : Sink ω := socket.send host

end Socket

end TftpServer
