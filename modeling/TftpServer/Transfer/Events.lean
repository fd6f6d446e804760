import TftpServer.Packet.Decode
import TftpServer.Transfer.Basic

/-! # Transfer events

A transfer is a machine over its state. Starting, messages, notices of malformed
datagrams and timeouts reach it as events, each at a time, and what it hands to
the sink is part of each step. Whether the sink delivers makes no difference to
the state.
-/

namespace TftpServer.Transfer

variable {ω σ : Type}

/-- Hands the datagram in flight to the sink and arms the timer. Whether the
sink could send it makes no difference: the timer repeats it like a lost one. -/
def sendInFlight (transfer : Transfer σ) (world : ω) (now : Time) : Step ω σ where
  transfer :=
    { transfer with deadline := some (now.later (seconds transfer.settings.timeout.toInt)) }
  world := world
  sent := [transfer.inFlight]

/-- Leaves the transfer without timer, datagram and stream. -/
def release (transfer : Transfer σ) (phase : Phase) : Transfer σ :=
  { transfer with deadline := none, inFlight := [], source := none, phase }

/-- Ends the transfer in failure. A reply is sent first, and when it has no wire
form the transfer stays as it is. -/
def fail (transfer : Transfer σ) (world : ω) (detail : Octets) (reply : Option Message) : Step ω σ :=
  let failed := { transfer with detail }.release .failed
  match reply with
  | none => { transfer := failed, world }
  | some message =>
    match encode message with
    | .ok datagram => { transfer := failed, world, sent := [datagram] }
    | .error error => { transfer, world, fault := some (.encoding error) }

def finish (transfer : Transfer σ) (world : ω) : Step ω σ where
  transfer := transfer.release .complete
  world := world

/-- Puts the block just read in flight. A block shorter than the block size is
the last one. -/
def sendBlock (transfer : Transfer σ) (world : ω) (octets : Octets) (now : Time) : Step ω σ :=
  let blockSize := transfer.settings.blockSize
  let transfer := { transfer with finalBlock := octets.length < blockSize.toNat }
  match encodeData transfer.position.block octets blockSize with
  | .error error => { transfer, world, fault := some (.encoding error) }
  | .ok datagram =>
    sendInFlight
      { transfer with
        inFlight := datagram
        bytesSent := transfer.bytesSent + UInt64.ofNat octets.length
        retries := 0
        phase := .awaitingAck }
      world now

/-- Sends the block that a read gave. A failed read, or one that gives more than a
block, ends the transfer with an ERROR. -/
def sendRead (transfer : Transfer σ) (world : ω) (reply : ReadReply) (now : Time) : Step ω σ :=
  match reply.error with
  | some failure =>
    let text := if reply.detail = [] then failure.errorCode.text else reply.detail
    transfer.fail world (ascii "source read failed: " ++ text)
      (some (.error failure.errorCode text))
  | none =>
    if transfer.settings.blockSize.toNat < reply.octets.length then
      transfer.fail world (ascii "source returned an oversized block")
        (some (.error .notDefined (ascii "Server read error")))
    else transfer.sendBlock world reply.octets now

/-- Reads the block at the current position and sends it. -/
def sendData (reading : BufferedReading ω σ) (transfer : Transfer σ) (world : ω) (now : Time) : Step ω σ :=
  match transfer.source with
  | none => { transfer, world, fault := some .noSource }
  | some source =>
    let blockSize := transfer.settings.blockSize
    let (result, source, world) :=
      reading.read source (transfer.position.offset blockSize) blockSize world
    let transfer := { transfer with source := some source }
    match result with
    | .error error => { transfer, world, fault := some (.brokenOff error) }
    | .ok reply => transfer.sendRead world reply now

/-- Starts the transfer: with the announced options if there are any, else with
the first block. Starting has no effect once something is in flight. -/
def start (reading : BufferedReading ω σ) (transfer : Transfer σ) (world : ω) (now : Time) : Step ω σ :=
  if transfer.phase ≠ .sendingData ∨ transfer.inFlight ≠ [] then { transfer, world }
  else if transfer.options ≠ [] then
    match encode (.oack transfer.options) with
    | .error error => { transfer, world, fault := some (.encoding error) }
    | .ok datagram =>
      sendInFlight
        { transfer with inFlight := datagram, retries := 0, phase := .awaitingOptionAck } world now
  else transfer.sendData reading world now

/-- Answers an acknowledgement. One of the block in flight moves the transfer
on; stale ones change nothing; one that is ahead ends it. -/
def acknowledge (reading : BufferedReading ω σ) (transfer : Transfer σ) (world : ω) (block : UInt16)
    (now : Time) : Step ω σ :=
  let illegal := some (Message.standardError .illegalOperation)
  let current := transfer.position.block
  if transfer.phase = .awaitingOptionAck then
    if block ≠ 0 then
      transfer.fail world
        (ascii "ACK " ++ Text.decimal block.toNat ++ ascii " before option acknowledgement") illegal
    else transfer.sendData reading world now
  else if block = current then
    if transfer.finalBlock then transfer.finish world
    else { transfer with position := transfer.position.next }.sendData reading world now
  else if isEarlierBlock current block then { transfer, world }
  else
    transfer.fail world
      (ascii "ACK " ++ Text.decimal block.toNat ++ ascii " is ahead of block " ++
        Text.decimal current.toNat) illegal

/-- Takes a message from the peer. An ERROR ends the transfer without a reply,
and anything but an acknowledgement ends it with one. -/
def receive (reading : BufferedReading ω σ) (transfer : Transfer σ) (world : ω) (message : Message)
    (now : Time) : Step ω σ :=
  if transfer.isTerminal then { transfer, world }
  else
    match message.opcode, message.payload with
    | .error, .error code text =>
      transfer.fail world
        (ascii "peer sent ERROR " ++ Text.decimal code.value.toNat ++ ascii ": " ++ text) none
    | .error, _ => { transfer, world, fault := some .wrongPayload }
    | .ack, .ack block => transfer.acknowledge reading world block now
    | .ack, _ => { transfer, world, fault := some .wrongPayload }
    | opcode, _ =>
      transfer.fail world
        (ascii "unexpected " ++ opcode.name ++ ascii " while " ++ transfer.phase.name)
        (some (.standardError .illegalOperation))

/-- Takes notice of a datagram from the peer that could not be decoded. -/
def receiveMalformed (transfer : Transfer σ) (world : ω) (status : DecodeStatus) : Step ω σ :=
  if transfer.isTerminal then { transfer, world }
  else
    transfer.fail world (ascii "malformed packet from peer (" ++ status.name ++ ascii ")")
      (some (.standardError .illegalOperation))

/-- Repeats the datagram in flight, or gives up once it was repeated as often as
allowed. -/
def timeout (transfer : Transfer σ) (world : ω) (now : Time) : Step ω σ :=
  if transfer.isTerminal ∨ transfer.inFlight = [] then { transfer, world }
  else if transfer.settings.retryLimit ≤ transfer.retries then
    transfer.fail world
      (ascii "no response after " ++ Text.decimal transfer.retries.toNat ++ ascii " retransmissions") none
  else sendInFlight { transfer with retries := transfer.retries + 1 } world now

end TftpServer.Transfer
