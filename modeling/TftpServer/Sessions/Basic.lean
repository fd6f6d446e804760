import TftpServer.Sessions.Action
import TftpServer.Sessions.Table
import TftpServer.Text.LogEscape
import TftpServer.Transfer.Events

/-! # Sessions

Datagrams are routed to the running transfer of their origin, a read request
from a peer without one opens one, and a transfer leaves the table in the call
in which it ends. Ticks repeat what is overdue. Every call answers with the new
state and the actions to be carried out.
-/

namespace TftpServer

/-- The state between calls: the running transfers and the world that the store
lives in. -/
structure Sessions (ω σ : Type) where
  table : SessionTable σ := []
  world : ω

/-- The outcome of a call: the new state, what is to be done, and the fault that
cut the call short, if one did. -/
structure Outcome (ω σ : Type) where
  sessions : Sessions ω σ
  actions : List Action := []
  fault : Option Fault := none

namespace Sessions

variable {ω σ : Type}

/-- The log line of a transfer that is over. -/
def closingNote (peer : Endpoint) (transfer : Transfer σ) : Action :=
  if transfer.phase = .complete then
    .note .info (ascii "transfer to " ++ peer.text ++ ascii " complete, " ++
      Text.decimal transfer.bytesSent.toNat ++ ascii " bytes")
  else
    .note .warning (ascii "transfer to " ++ peer.text ++ ascii " failed: " ++ transfer.detail)

/-- Removes the transfer of a peer once it is over, with a line in the log. -/
def reap (sessions : Sessions ω σ) (peer : Endpoint) : Sessions ω σ × List Action :=
  match sessions.table.find? peer with
  | none => (sessions, [])
  | some transfer =>
    if transfer.isTerminal then
      ({ sessions with table := sessions.table.erase peer }, [closingNote peer transfer])
    else (sessions, [])

/-- Takes over the outcome of a transfer's step. A fault leaves the transfer in
the table as the step left it. -/
def settle (sessions : Sessions ω σ) (peer : Endpoint) (step : Step ω σ) : Outcome ω σ :=
  let sessions := { table := sessions.table.update peer step.transfer, world := step.world }
  let sends := step.sent.map (Action.send peer)
  match step.fault with
  | some fault => { sessions, actions := sends, fault := some fault }
  | none =>
    let (sessions, notes) := sessions.reap peer
    { sessions, actions := sends ++ notes }

/-- Answers a peer without a transfer with an ERROR, after a line in the log. -/
def refuse (sessions : Sessions ω σ) (peer : Endpoint) (note : Octets) (code : ErrorCode)
    (text : Octets) : Outcome ω σ :=
  match encode (.error code text) with
  | .ok datagram => { sessions, actions := [.note .info note, .reply peer code datagram] }
  | .error error => { sessions, actions := [.note .info note], fault := some (.encoding error) }

/-- The log line of an accepted request. -/
def acceptedNote (shownName : Octets) (mode : Mode) (peer : Endpoint) (accepted : Acceptance)
    (settings : Settings) : Octets :=
  ascii "RRQ for '" ++ shownName ++ ascii "' (" ++ mode.name ++ ascii ") from " ++ peer.text ++
    ascii ": blksize=" ++ Text.decimal settings.blockSize.toNat ++ ascii ", timeout=" ++
    Text.signedDecimal settings.timeout.toInt ++ ascii "s, " ++
    Text.decimal accepted.entries.length ++
    ascii " option(s) accepted"

/-- Handles a request from a peer without a transfer. Writing and mail mode are
refused, and so is a name that the store does not open. -/
def handleRequest (store : Store ω σ) (config : EngineConfig) (sessions : Sessions ω σ)
    (peer : Endpoint) (opcode : Opcode) (request : Request) (now : Time) : Outcome ω σ :=
  let shownName := Text.escapeForLog request.filename
  if opcode = .wrq then
    sessions.refuse peer
      (ascii "rejecting WRQ for '" ++ shownName ++ ascii "' from " ++ peer.text)
      .notDefined (ascii "write not supported")
  else if request.mode = .mail then
    sessions.refuse peer
      (ascii "rejecting mail-mode RRQ for '" ++ shownName ++ ascii "' from " ++ peer.text)
      .illegalOperation (ascii "mail mode not supported")
  else
    let (opened, world) := store.openStream request.filename request.mode sessions.world
    let sessions := { sessions with world }
    match opened.error, opened.stream with
    | none, some source =>
      let accepted := negotiate config.limits (store.length source world) request.options
      let settings := resolveSettings accepted config.defaultTimeout config.retryLimit
      let transfer := Transfer.create peer source accepted settings
      let note := Action.note .info (acceptedNote shownName request.mode peer accepted settings)
      let sessions := { sessions with table := (peer, transfer) :: sessions.table }
      let outcome := sessions.settle peer (transfer.start store.toReading world now)
      { outcome with actions := note :: outcome.actions }
    | error, _ =>
      let code := Failure.codeOf error
      let text := if opened.detail = [] then code.text else opened.detail
      sessions.refuse peer
        (ascii "RRQ for '" ++ shownName ++ ascii "' from " ++ peer.text ++ ascii " refused: " ++ text)
        code text

/-- Takes a datagram from a peer. A repeated read request is ignored, since the
running transfer already answers it. -/
def receive (store : Store ω σ) (config : EngineConfig) (sessions : Sessions ω σ)
    (datagram : Octets) (peer : Endpoint) (now : Time) : Outcome ω σ :=
  match sessions.table.find? peer, decode datagram with
  | some transfer, .error defect =>
    sessions.settle peer (transfer.receiveMalformed sessions.world (.defect defect))
  | some transfer, .ok message =>
    if message.opcode = .rrq then
      { sessions, actions := [.note .debug (ascii "ignoring repeated RRQ from " ++ peer.text)] }
    else sessions.settle peer (transfer.receive store.toReading sessions.world message now)
  | none, .error defect =>
    { sessions
      actions := [.note .warning (ascii "ignoring malformed packet from " ++ peer.text ++ ascii ": " ++
        (DecodeStatus.defect defect).name)] }
  | none, .ok message =>
    match message.opcode, message.payload with
    | .rrq, .request request => sessions.handleRequest store config peer .rrq request now
    | .wrq, .request request => sessions.handleRequest store config peer .wrq request now
    | .rrq, _ => { sessions, fault := some .wrongPayload }
    | .wrq, _ => { sessions, fault := some .wrongPayload }
    | opcode, _ =>
      { sessions
        actions := [.note .debug
          (ascii "ignoring stray " ++ opcode.name ++ ascii " from " ++ peer.text)] }

/-- The log line of a timer that has run out. -/
def timeoutNote (peer : Endpoint) (transfer : Transfer σ) : Action :=
  .note .debug
    (ascii "timeout for " ++ peer.text ++ ascii " after " ++ Text.decimal transfer.retries.toNat ++
      ascii " retransmission(s)")

/-- Lets the timer of one peer run out. -/
def expire (sessions : Sessions ω σ) (peer : Endpoint) (now : Time) : Outcome ω σ :=
  match sessions.table.find? peer with
  | none => { sessions }
  | some transfer =>
    let outcome := sessions.settle peer (transfer.timeout sessions.world now)
    { outcome with actions := timeoutNote peer transfer :: outcome.actions }

/-- Lets the timers of some peers run out one after the other, up to the first
fault. -/
def expireAll (sessions : Sessions ω σ) (now : Time) : List Endpoint → Outcome ω σ
  | [] => { sessions }
  | peer :: rest =>
    let first := sessions.expire peer now
    match first.fault with
    | some _ => first
    | none =>
      let later := first.sessions.expireAll now rest
      { later with actions := first.actions ++ later.actions }

/-- A tick: every transfer whose deadline has passed times out. -/
def tick (sessions : Sessions ω σ) (now : Time) : Outcome ω σ :=
  sessions.expireAll now (sessions.table.expired now)

end Sessions

end TftpServer
