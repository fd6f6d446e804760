import TftpServer.Network.Socket

/-! # The service loop

The service waits for a datagram or for the earliest deadline of a transfer,
hands what arrived to the sessions, and ticks them. It goes on until it is asked
to stop or its socket fails. A stop request is noticed before the next wait, and
no wait is longer than a quarter of a second.
-/

namespace TftpServer

/-- The longest wait, in milliseconds. -/
def idleWait : Int := 250

/-- How long to wait at a time, in milliseconds: not at all when a deadline has
passed, otherwise up to the first whole millisecond at or after the earliest
deadline, but never longer than the idle wait. -/
def waitFor {σ : Type} (table : SessionTable σ) (now : Time) : Int :=
  match table.nextDeadline with
  | none => idleWait
  | some deadline =>
    if deadline ≤ now then 0 else min ((deadline - now + 999999) / 1000000) idleWait

/-- The state of a service between turns. The log holds what was written, newest
first. -/
structure Service (ω σ : Type) where
  socket : Socket
  buffer : ReceiveBuffer := .empty maxDatagramSize
  sessions : Sessions ω σ
  log : List Octets := []

inductive TurnEnd where
  | served
  | socketClosed
  | faulted (fault : Fault)
  deriving DecidableEq, Repr

/-- How a run of the service ends. `unfinished` says that the bound on the number
of turns was reached first. -/
inductive ServiceEnd where
  | stopped
  | failed
  | faulted (fault : Fault)
  | unfinished
  deriving DecidableEq, Repr

namespace Service

variable {ω σ : Type}

def world (service : Service ω σ) : ω := service.sessions.world

/-- The same service in another state of the surroundings. -/
def withWorld (service : Service ω σ) (world : ω) : Service ω σ :=
  { service with sessions := { service.sessions with world } }

def logText (service : Service ω σ) : Octets := service.log.reverse.flatten

def note (service : Service ω σ) (logger : Logger) (level : LogLevel) (text : Octets) : Service ω σ :=
  { service with log := logger.line level text :: service.log }

/-- Carries out what a call on the sessions asked for. -/
def carryOut (host : Host ω) (logger : Logger) (service : Service ω σ) (outcome : Outcome ω σ) :
    Service ω σ × TurnEnd :=
  let (lines, world) :=
    Action.performAll (service.socket.sink host) logger outcome.actions outcome.sessions.world
  let service :=
    { service with sessions := { outcome.sessions with world }, log := lines :: service.log }
  match outcome.fault with
  | none => (service, .served)
  | some fault => (service, .faulted fault)

/-- Receives one datagram and hands it to the sessions. -/
def receiveOne (host : Host ω) (store : Store ω σ) (config : EngineConfig) (logger : Logger)
    (service : Service ω σ) : Service ω σ × TurnEnd :=
  match service.socket.receive host service.buffer service.world with
  | (some peer, .ok, buffer, world) =>
    let service := { service with buffer }.withWorld world
    let service := service.note logger .debug
      (Text.decimal buffer.length ++ ascii " bytes from " ++ peer.text)
    let (now, world) := host.now service.world
    let service := service.withWorld world
    service.carryOut host logger (service.sessions.receive store config buffer.view peer now)
  | (_, _, buffer, world) =>
    let service := { service with buffer }.withWorld world
    (service.note logger .warning (ascii "receive failed, dropping datagram"), .served)

def tick (host : Host ω) (logger : Logger) (service : Service ω σ) : Service ω σ × TurnEnd :=
  let (now, world) := host.now service.world
  let service := service.withWorld world
  service.carryOut host logger (service.sessions.tick now)

/-- One turn of the loop: a wait, at most one datagram, and a tick. -/
def turn (host : Host ω) (store : Store ω σ) (config : EngineConfig) (logger : Logger)
    (service : Service ω σ) : Service ω σ × TurnEnd :=
  let (now, world) := host.now service.world
  let wait := waitFor service.sessions.table now
  let (status, world) := service.socket.waitReadable host wait world
  let service := service.withWorld world
  match status with
  | .pipeClosed => (service.note logger .fatal (ascii "socket closed unexpectedly"), .socketClosed)
  | .ok =>
    match service.receiveOne host store config logger with
    | (service, .served) => service.tick host logger
    | ended => ended
  | _ => service.tick host logger

/-- Turns until the service is stopped, up to a number of turns. -/
def turns (host : Host ω) (store : Store ω σ) (config : EngineConfig) (logger : Logger)
    (server : ServerId) : Nat → Service ω σ → Service ω σ × ServiceEnd
  | 0, service => (service, .unfinished)
  | bound + 1, service =>
    if host.stopRequested server service.world then
      let active := Text.decimal service.sessions.table.length
      (service.note logger .info
        (ascii "stopping, abandoning " ++ active ++ ascii " active transfer(s)"), .stopped)
    else
      match service.turn host store config logger with
      | (service, .served) => turns host store config logger server bound service
      | (service, .socketClosed) => (service, .failed)
      | (service, .faulted fault) => (service, .faulted fault)

/-- Runs the service. An unusable socket fails at once and silently. -/
def run (host : Host ω) (store : Store ω σ) (config : EngineConfig) (logger : Logger)
    (server : ServerId) (bound : Nat) (service : Service ω σ) : Service ω σ × ServiceEnd :=
  if service.socket.isUsable then
    turns host store config logger server bound
      (service.note logger .info (ascii "serving, press Ctrl+C to stop"))
  else (service, .failed)

end Service

end TftpServer
