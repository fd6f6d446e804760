import TftpServer.Endpoint.Numeric
import TftpServer.Network.Host

/-! # Scripted hosts

A scripted host plays a list of timed events. Its clock stands still except
while the server waits: a wait takes the next event if that is due within it,
and otherwise passes in full. When no events are left the server is stopped.
Everything that the server does is recorded, newest first.
-/

namespace TftpServer

inductive Happening where
  | arrival (origin : SocketAddress) (octets : Octets)
  /-- The descriptor is reported readable, but receiving fails. -/
  | receiveFails
  /-- The wait ends with a report and nothing else. -/
  | report (report : PollReport)
  | signal
  | request
  deriving DecidableEq, Repr

structure ScriptedEvent where
  time : Time := 0
  happening : Happening
  deriving DecidableEq, Repr

structure Arrival where
  descriptor : Descriptor
  origin : SocketAddress
  octets : Octets
  deriving DecidableEq, Repr

structure Transmission where
  time : Time
  peer : Endpoint
  octets : Octets
  deriving DecidableEq

/-- How the server is asked to stop: directly, or by a signal. -/
inductive StopWay where
  | direct (server : ServerId)
  | signal
  deriving DecidableEq, Repr

/-- The settings and the state of a scripted host. -/
structure ScriptedHost where
  /-- Host names with the numeric addresses that they stand for. -/
  names : List (Octets × List Octets) := []
  /-- Local addresses that are in use already. -/
  taken : List Endpoint := []
  withoutIpv6 : Bool := false
  /-- Peers to which sending fails. -/
  unreachable : List Endpoint := []
  /-- Peers to which the last octet of a datagram is lost. -/
  cutShort : List Endpoint := []
  allUnreachable : Bool := false
  allCutShort : Bool := false
  signalsFail : Bool := false
  stopWay : StopWay := .signal
  /-- What happens when no events are left; nothing if absent. -/
  atEnd : Option Happening := none
  clock : Time := 0
  events : List ScriptedEvent := []
  /-- Datagrams that have arrived and were not received yet. -/
  waiting : List Arrival := []
  nextReceiveFails : Bool := false
  pollsFail : Bool := false
  /-- Descriptors that are open, and those among them that cannot send. -/
  opened : List Descriptor := []
  mute : List Descriptor := []
  nextDescriptor : Descriptor := 3
  bound : List Endpoint := []
  sent : List Transmission := []
  waits : List (Nat × Nat) := []
  signals : StopSignals := {}

namespace ScriptedHost

/-- A datagram longer than this cannot be sent. -/
def maxPayload : Nat := 65507

/-- The text of a failed lookup. -/
def unknownName : Octets := ascii "Name or service not known"

/-- A socket address of a family without endpoints, that of local sockets. -/
def localAddress : SocketAddress := [1, 0]

/-- Adds a datagram to those that wait at a descriptor. -/
def deliver (host : ScriptedHost) (descriptor : Descriptor) (origin : SocketAddress)
    (octets : Octets) : ScriptedHost :=
  { host with waiting := host.waiting ++ [{ descriptor, origin, octets }] }

/-- Raises a stop signal. A host on which signals fail answers every later wait
with a failure instead. -/
def raiseSignal (host : ScriptedHost) : ScriptedHost :=
  if host.signalsFail then { host with pollsFail := true }
  else { host with signals := host.signals.deliver }

/-- Asks the server to stop in the way of this host. -/
def requestStop (host : ScriptedHost) : ScriptedHost :=
  match host.stopWay with
  | .direct server => { host with signals := host.signals.request server }
  | .signal => host.raiseSignal

def happen (host : ScriptedHost) (descriptor : Descriptor) : Happening → PollReport × ScriptedHost
  | .arrival origin octets =>
    (.ready { readable := true }, host.deliver descriptor origin octets)
  | .receiveFails => (.ready { readable := true }, { host with nextReceiveFails := true })
  | .report report => (report, host)
  | .signal => (.interrupted, host.raiseSignal)
  | .request => (.interrupted, host.requestStop)

/-- Records a wait, counting equal ones in a row. -/
def recordWait (host : ScriptedHost) (wait : Nat) : ScriptedHost :=
  { host with waits := match host.waits with
      | (last, count) :: rest =>
        if last = wait then (last, count + 1) :: rest else (wait, 1) :: host.waits
      | [] => [(wait, 1)] }

def poll (descriptor : Descriptor) (wait : Nat) (host : ScriptedHost) : PollReport × ScriptedHost :=
  let host := host.recordWait wait
  let due := host.clock + milliseconds wait
  if host.pollsFail then (.failed, host)
  else if !host.opened.contains descriptor then (.ready { invalid := true }, host)
  else if host.waiting.any (·.descriptor = descriptor) then (.ready { readable := true }, host)
  else
    match host.events with
    | event :: rest =>
      if event.time ≤ due then
        { host with events := rest, clock := max host.clock event.time }.happen descriptor event.happening
      else (.quiet, { host with clock := due })
    | [] =>
      match host.atEnd with
      | some happening => host.happen descriptor happening
      | none => (.quiet, { host with clock := due })

/-- Receives the first waiting datagram, cut to the room there is. -/
def receive (descriptor : Descriptor) (room : Nat) (host : ScriptedHost) :
    Option (SocketAddress × Octets) × ScriptedHost :=
  if host.nextReceiveFails then (none, { host with nextReceiveFails := false })
  else
    match host.waiting.find? (·.descriptor = descriptor) with
    | none => (none, host)
    | some arrival =>
      (some (arrival.origin, arrival.octets.take room),
        { host with waiting := host.waiting.eraseP (·.descriptor = descriptor) })

def send (descriptor : Descriptor) (address : SocketAddress) (octets : Octets) (host : ScriptedHost) :
    Option Nat × ScriptedHost :=
  match SocketAddress.toEndpoint? address with
  | none => (none, host)
  | some peer =>
    if !host.opened.contains descriptor || host.mute.contains descriptor
        || decide (maxPayload < octets.length) || host.allUnreachable || host.unreachable.contains peer then
      (none, host)
    else
      let passed := if host.allCutShort || host.cutShort.contains peer then octets.dropLast else octets
      (some passed.length, { host with sent := ⟨host.clock, peer, passed⟩ :: host.sent })

def close (descriptor : Descriptor) (host : ScriptedHost) : ScriptedHost :=
  { host with opened := host.opened.filter (· ≠ descriptor) }

def openDescriptor (host : ScriptedHost) : Descriptor × ScriptedHost :=
  (host.nextDescriptor,
    { host with
      opened := host.nextDescriptor :: host.opened
      nextDescriptor := host.nextDescriptor + 1 })

/-- One end of a pair of local sockets. The other end has sent one octet and is
gone, so that nothing can be sent to it. -/
def openLocal (host : ScriptedHost) : Descriptor × ScriptedHost :=
  let (descriptor, host) := host.openDescriptor
  (descriptor, { host with mute := descriptor :: host.mute }.deliver descriptor localAddress [0])

/-- The candidates for a host name: those listed for it, or the numeric address
that it is. -/
def lookup (name port : Octets) (host : ScriptedHost) : Except Octets (List Endpoint) :=
  let portNumber := match Text.parseDecimal 65535 port with
    | .ok value => UInt16.ofNat value
    | .error _ => 0
  let addresses := (host.names.lookup name).getD [name]
  match addresses.mapM (Address.parseEndpoint · portNumber) with
  | some candidates => .ok candidates
  | none => .error unknownName

/-- Creates a socket of a family. -/
def create (family : Family) (host : ScriptedHost) : Except Octets Descriptor × ScriptedHost :=
  if family = .ipv6 ∧ host.withoutIpv6 then
    (.error (ascii "Address family not supported by protocol"), host)
  else
    let (descriptor, host) := host.openDescriptor
    (.ok descriptor, host)

/-- The texts of the addresses that belong to this host. -/
def localAddresses : List Octets :=
  [ascii "0.0.0.0", ascii "127.0.0.1", ascii "::", ascii "::1"]

/-- Binds a descriptor to a local address. -/
def bind (_ : Descriptor) (address : Endpoint) (host : ScriptedHost) : Except Octets Unit × ScriptedHost :=
  if host.taken.any fun other => other.family = address.family ∧ other.address = address.address then
    (.error (ascii "Address already in use"), host)
  else if localAddresses.contains address.addressText then
    (.ok (), { host with bound := address :: host.bound })
  else (.error (ascii "Cannot assign requested address"), host)

def bindStopSignals (target : Option ServerId) (host : ScriptedHost) : Bool × ScriptedHost :=
  (!host.signalsFail, { host with signals := host.signals.bind target })

def calls : Host ScriptedHost where
  now host := (host.clock, host)
  poll := poll
  receive := receive
  send := send
  close := close
  lookup := lookup
  create := create
  bind := bind
  bindStopSignals := bindStopSignals
  stopRequested server host := host.signals.isStopped server

end ScriptedHost

end TftpServer
