import TftpServer.Packet.Reader

/-! # Decoding datagrams

`decode` accepts exactly the TFTP grammar with the option extension and names
the defect of every other datagram. Octets after the block number of an ACK and
after the text of an ERROR are ignored.
-/

namespace TftpServer

/-- What a receiver is told about a datagram: that it decoded, that it has a
defect, or a value outside the enumeration. -/
inductive DecodeStatus where
  | ok
  | defect (defect : Defect)
  | unlisted
  deriving DecidableEq, Repr

/-- The status of a datagram with or without a defect. -/
def DecodeStatus.ofDefect : Option Defect → DecodeStatus
  | none => .ok
  | some reason => .defect reason

def DecodeStatus.name : DecodeStatus → Octets
  | .ok => ascii "ok"
  | .defect .unknownOpcode => ascii "unknown opcode"
  | .defect .truncated => ascii "truncated"
  | .defect .malformedOptions => ascii "malformed options"
  | .defect .badMode => ascii "bad transfer mode"
  | .unlisted => ascii "unknown"

def Reader.require {α : Type} (reader : Reader α) (source : Octets) : Except Defect (α × Octets) :=
  match reader source with
  | some found => .ok found
  | none => .error .truncated

/-- Options that have to be free of defects. -/
def requireOptions (source : Octets) : Except Defect (List OptionField) :=
  match readOptions source with
  | (options, none) => .ok options
  | (_, some defect) => .error defect

/-- The body of a read or write request: file name, mode, options. -/
def decodeRequest (body : Octets) : Except Defect Request := do
  let (filename, afterName) ← Reader.require readText body
  let (modeName, afterMode) ← Reader.require readText afterName
  match Mode.ofName modeName with
  | .absent => .error .badMode
  | mode =>
    let options ← requireOptions afterMode
    return { filename, mode, options }

def decodeBody (opcode : Opcode) (body : Octets) : Except Defect Payload :=
  match opcode with
  | .none => .error .unknownOpcode
  | .rrq | .wrq => Payload.request <$> decodeRequest body
  | .data => do
    let (block, octets) ← Reader.require readU16 body
    return .data block octets
  | .ack => do
    let (block, _) ← Reader.require readU16 body
    return .ack block
  | .error => do
    let (code, afterCode) ← Reader.require readU16 body
    let (text, _) ← Reader.require readText afterCode
    return .error ⟨code⟩ text
  | .oack => Payload.oack <$> requireOptions body

/-- The message that a datagram spells, or its defect. -/
def decode (datagram : Octets) : Except Defect Message := do
  let (code, body) ← Reader.require readU16 datagram
  let opcode := Opcode.ofCode code
  let payload ← decodeBody opcode body
  return { opcode, payload }

/-- What a receiver is handed: a status, and a message that is empty beside a
defect. -/
structure Decoded where
  status : DecodeStatus
  message : Message
  deriving DecidableEq, Repr

def Decoded.ofDatagram (datagram : Octets) : Decoded :=
  match decode datagram with
  | .ok message => ⟨.ok, message⟩
  | .error reason => ⟨.defect reason, .empty⟩

end TftpServer
