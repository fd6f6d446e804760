import Std.Async.DNS
import Std.Async.Signal
import Std.Async.Timer
import Std.Async.UDP
import TftpServer.CommandLine.Program
import TftpServer.Network.Snapshot

/-! # Command line

The program as a command. All decisions are those of `Program` and `Service`.
The command observes the machine before the start and before each turn, lets
them run on what it saw, and carries out what they ask for: it writes the log
and sends the datagrams.
-/

namespace TftpServer.CommandLine

/-- What a turn runs on: a snapshot, and the tree that holds the file that is
asked for, if it is there. -/
abbrev World := Snapshot × FileTree

/-- What transfers read. -/
abbrev Stream := Delivery Content

/-- The running command: its socket, its serving root without links, and whether
a stop signal has come. -/
structure Command where
  socket : Std.Async.UDP.Socket
  root : Octets
  stopped : IO.Ref Bool

def failureText (error : IO.Error) : Octets :=
  (toString error).toUTF8.toList

def writeOctets (stream : IO.FS.Stream) (octets : Octets) : IO Unit := do
  stream.write ⟨octets.toArray⟩
  stream.flush

/-- The time of the machine. -/
def currentTime : IO Time := do
  return Int.ofNat (← IO.monoNanosNow)

/-! ## Addresses -/

/-- The octets of an address of the machine, in network order. -/
def addressOctets : Std.Net.IPAddr → Octets
  | .v4 address => address.octets.toList
  | .v6 address =>
    address.segments.toList.flatMap fun (segment : UInt16) => [(segment >>> 8).toUInt8, segment.toUInt8]

/-- The endpoint of an address of the machine. -/
def endpointOf (address : Std.Net.IPAddr) (port : UInt16) : Endpoint :=
  let family := match address with | .v4 _ => Family.ipv4 | .v6 _ => .ipv6
  ⟨family, Address.ofOctets (addressOctets address), port, 0⟩

/-- The endpoint of a peer of the machine. -/
def endpointOfPeer : Std.Net.SocketAddress → Endpoint
  | .v4 peer => endpointOf (.v4 peer.addr) peer.port
  | .v6 peer => endpointOf (.v6 peer.addr) peer.port

def machineAddress (endpoint : Endpoint) : Std.Net.SocketAddress :=
  match endpoint.family with
  | .ipv4 =>
    .v4 ⟨⟨Vector.ofFn fun i => endpoint.address.toList.getD i.val 0⟩, endpoint.port⟩
  | .ipv6 =>
    .v6 ⟨⟨Vector.ofFn fun i => UInt16.ofNat (endpoint.address.groups.getD i.val 0)⟩, endpoint.port⟩

/-! ## Observing -/

/-- The serving root without links, if it is a directory. -/
def directoryAt (path : Octets) : IO (Option Octets) := do
  let some text := String.fromUTF8? ⟨path.toArray⟩ | return none
  try
    let place ← IO.FS.realPath text
    return if ← place.isDir then some place.toString.toUTF8.toList else none
  catch _ => return none

/-- The tree that holds what is at a path and nothing else. Whatever is there but
cannot be read as a regular file stands in it as a directory. -/
def treeAt (path : Octets) : IO FileTree := do
  let nowhere := FileTree.directory []
  let holding (entry : FileTree) :=
    entry.only ((Path.components path).filter fun component => !Path.isHere component)
  let some text := String.fromUTF8? ⟨path.toArray⟩ | return nowhere
  let .ok place ← EIO.toBaseIO (IO.FS.realPath text) | return nowhere
  let .ok facts ← EIO.toBaseIO place.metadata | return nowhere
  if facts.type != .file then return holding (.directory [])
  let .ok file ← EIO.toBaseIO (IO.FS.readBinFile place) | return holding (.directory [])
  return holding (.file file.data)

/-- The tree that answers a datagram: that of the path it asks for, if it is a
read request from a peer without a transfer. -/
def treeFor (command : Command) (table : SessionTable Stream) (peer : Endpoint)
    (datagram : Octets) : IO FileTree :=
  match table.find? peer, decode datagram with
  | none, .ok ⟨.rrq, .request request⟩ =>
    match Path.resolveBelow command.root request.filename with
    | some path => treeAt path
    | none => return .directory []
  | _, _ => return .directory []

/-- A datagram from the socket, or nothing when none came for a number of
milliseconds. -/
def nextDatagram (socket : Std.Async.UDP.Socket) (wait : Int) :
    Std.Async.Async (Option (ByteArray × Option Std.Net.SocketAddress)) := do
  let timer ← Std.Async.Selector.sleep (.ofInt wait)
  Std.Async.Selectable.one #[
    .case (socket.recvSelector (UInt64.ofNat maxDatagramSize)) fun arrival => return some arrival,
    .case timer fun _ => return none]

/-- Waits for a datagram, and reports the wait as the machine would. -/
def awaitDatagram (socket : Std.Async.UDP.Socket) (wait : Int) :
    IO (PollReport × Option (Endpoint × Octets)) := do
  let readable := PollReport.ready { readable := true }
  try
    match ← (nextDatagram socket wait).block with
    | none => return (.quiet, none)
    | some (octets, origin) =>
      return (readable, origin.map fun peer => (endpointOfPeer peer, octets.data.toList))
  catch _ => return (readable, none)

/-- Observes what the next turn is going to meet. -/
def observeTurn (command : Command) (table : SessionTable Stream) : IO World := do
  let clock ← currentTime
  if ← command.stopped.get then return ({ clock, wake := clock, stopped := true }, .directory [])
  let (report, arrival) ← awaitDatagram command.socket (waitFor table clock)
  let tree ← match arrival with
    | some (peer, datagram) => treeFor command table peer datagram
    | none => pure (.directory [])
  let arrival := arrival.map fun (peer, datagram) => (SocketAddress.ofEndpoint peer, datagram)
  return ({ clock, wake := ← currentTime, report, arrival }, tree)

/-- The candidates for the configured address and port. -/
def findCandidates (config : ServerConfig) : IO (Except Octets (List Endpoint)) := do
  let some host := String.fromUTF8? ⟨config.address.toArray⟩ | return .error (ascii "not a host name")
  let port := match Text.parseDecimal 65535 config.port with
    | .ok value => UInt16.ofNat value
    | .error _ => 0
  try
    let addresses ← (Std.Async.DNS.getAddrInfo host (toString port)).block
    return .ok (addresses.toList.map (endpointOf · port)).eraseDups
  catch error => return .error (failureText error)

/-- Binds the first candidate that can be bound: those before it, with the
reasons, and the socket. -/
def bindFirst : List Endpoint → IO (List (Endpoint × Octets) × Option Std.Async.UDP.Socket)
  | [] => return ([], none)
  | candidate :: rest => do
    try
      let socket ← Std.Async.UDP.Socket.mk
      socket.bind (machineAddress candidate)
      return ([], some socket)
    catch error =>
      let (refusals, socket) ← bindFirst rest
      return ((candidate, failureText error) :: refusals, socket)

/-- Lets a signal of the machine stop the command. -/
def watchSignal (stopped : IO.Ref Bool) (signal : Std.Async.Signal) : IO Unit := do
  let waiter ← Std.Async.Signal.Waiter.mk signal false
  discard <| IO.mapTask (fun _ => stopped.set true) (← waiter.wait)

/-- Routes the stop signals of the machine. -/
def watchSignals (stopped : IO.Ref Bool) : IO Bool := do
  try
    watchSignal stopped .sigint
    watchSignal stopped .sigterm
    return true
  catch _ => return false

/-- What was observed before the start: the serving root without links, what the
calls of the start come to, and the socket that was bound. -/
structure Startup where
  root : Option Octets := none
  snapshot : Snapshot := {}
  socket : Option Std.Async.UDP.Socket := none

/-- Observes what the start is going to meet. -/
def observeStart (stopped : IO.Ref Bool) (arguments : List Octets) : IO Startup := do
  let .ok config := ServerConfig.ofArguments arguments | return {}
  let some root ← directoryAt config.root | return {}
  let candidates ← findCandidates config
  let (refusals, socket) ← bindFirst (candidates.toOption.getD [])
  let signalsRouted ← watchSignals stopped
  return { root, snapshot := { candidates, refusals, signalsRouted }, socket }

/-! ## Running -/

/-- Writes what a finished program left and returns its exit code. -/
def conclude (result : ProgramResult World) : IO UInt32 := do
  writeOctets (← IO.getStdout) result.output
  writeOctets (← IO.getStderr) result.errors
  return result.exitCode

/-- Carries out what a turn asked for, and forgets it. -/
def carryOut (command : Command) (service : Service World Stream) : IO (Service World Stream) := do
  writeOctets (← IO.getStdout) service.logText
  for (address, datagram) in service.world.1.outgoing.reverse do
    if let some peer := SocketAddress.toEndpoint? address then
      try (command.socket.send ⟨datagram.toArray⟩ (some (machineAddress peer))).block
      catch _ => pure ()
  return { service with log := [] }

/-- How the program reaches the files below a serving root, if there is one. -/
def filesBelow (root : Option Octets) : FileAccess World Stream where
  isDirectory _ _ := root.isSome
  store _ := (fileCopyStore (root.getD [])).onSecond

/-- Runs turn after turn until the service ends. -/
partial def serve (command : Command) (config : ServerConfig) (service : Service World Stream) :
    IO UInt32 := do
  let world ← observeTurn command service.sessions.table
  let (service, ending) := (service.withWorld world).turns Snapshot.calls.onFirst
    ((filesBelow command.root).store config.root) config.engine config.logger Program.server 1
  let service ← carryOut command service
  if ending = .unfinished then serve command config service
  else conclude (Program.finish Snapshot.calls.onFirst config service ending)

/-- Runs the program with its arguments and returns its exit code. -/
def runCommand (arguments : List String) : IO UInt32 := do
  let arguments := arguments.map (·.toUTF8.toList)
  let stopped ← IO.mkRef false
  let { root, snapshot, socket } ← observeStart stopped arguments
  let files := filesBelow root
  match Program.start Snapshot.calls.onFirst files arguments (snapshot, .directory []) with
  | .error result => conclude result
  | .ok (config, service) =>
    let (service, ending) := service.run Snapshot.calls.onFirst (files.store config.root)
      config.engine config.logger Program.server 0
    match root, socket with
    | some root, some socket => serve { socket, root, stopped } config service
    | _, _ => conclude (Program.finish Snapshot.calls.onFirst config service ending)

end TftpServer.CommandLine

def main (arguments : List String) : IO UInt32 :=
  TftpServer.CommandLine.runCommand arguments
