import TftpServer.Octets
import TftpServer.Text.Ascii

/-! # TFTP messages

The vocabulary of the protocol: opcodes, transfer modes, error codes, and the
six message shapes. A message pairs an opcode with a payload and does not tie
the two together: decoding only ever yields matching pairs, and encoding
refuses the others.
-/

namespace TftpServer

/-- The kinds of message. `none` stands for every code that names no kind. -/
inductive Opcode where
  | none
  | rrq
  | wrq
  | data
  | ack
  | error
  | oack
  deriving DecidableEq, Repr

namespace Opcode

def ofCode (code : UInt16) : Opcode :=
  if code = 1 then .rrq
  else if code = 2 then .wrq
  else if code = 3 then .data
  else if code = 4 then .ack
  else if code = 5 then .error
  else if code = 6 then .oack
  else .none

def code : Opcode → UInt16
  | .none => 0
  | .rrq => 1
  | .wrq => 2
  | .data => 3
  | .ack => 4
  | .error => 5
  | .oack => 6

def name : Opcode → Octets
  | .none => ascii "NONE"
  | .rrq => ascii "RRQ"
  | .wrq => ascii "WRQ"
  | .data => ascii "DATA"
  | .ack => ascii "ACK"
  | .error => ascii "ERROR"
  | .oack => ascii "OACK"

@[simp] theorem ofCode_code (opcode : Opcode) : ofCode opcode.code = opcode := by
  cases opcode <;> rfl

end Opcode

/-- Transfer modes. `absent` is what an unrecognised mode name decodes to;
`unlisted` is a mode outside the enumeration, which has no name but is not
`absent` either. -/
inductive Mode where
  | netascii
  | octet
  | mail
  | absent
  | unlisted
  deriving DecidableEq, Repr

namespace Mode

/-- The lowercase mode name that goes on the wire. -/
def name : Mode → Octets
  | .netascii => ascii "netascii"
  | .octet => ascii "octet"
  | .mail => ascii "mail"
  | .absent => []
  | .unlisted => []

/-- The mode that a text names, up to ASCII case. -/
def ofName (text : Octets) : Mode :=
  if Text.sameIgnoringCase text Mode.netascii.name then .netascii
  else if Text.sameIgnoringCase text Mode.octet.name then .octet
  else if Text.sameIgnoringCase text Mode.mail.name then .mail
  else .absent

end Mode

/-- An error code. Values beyond the listed ones are kept as they are. -/
structure ErrorCode where
  value : UInt16
  deriving DecidableEq, Repr

namespace ErrorCode

def notDefined : ErrorCode := ⟨0⟩
def fileNotFound : ErrorCode := ⟨1⟩
def accessViolation : ErrorCode := ⟨2⟩
def illegalOperation : ErrorCode := ⟨4⟩

/-- The standard text of a code; an unlisted code shares that of code 0. -/
def text (code : ErrorCode) : Octets :=
  match code.value.toNat with
  | 1 => ascii "File not found"
  | 2 => ascii "Access violation"
  | 3 => ascii "Disk full or allocation exceeded"
  | 4 => ascii "Illegal TFTP operation"
  | 5 => ascii "Unknown transfer ID"
  | 6 => ascii "File already exists"
  | 7 => ascii "No such user"
  | 8 => ascii "Option negotiation failed"
  | _ => ascii "Not defined"

end ErrorCode

/-- One option of a request or of its acknowledgement: a name and a value. -/
structure OptionField where
  name : Octets
  value : Octets
  deriving DecidableEq, Repr

structure Request where
  filename : Octets
  mode : Mode
  options : List OptionField
  deriving DecidableEq, Repr

inductive Payload where
  | none
  | request (request : Request)
  | data (block : UInt16) (octets : Octets)
  | ack (block : UInt16)
  | error (code : ErrorCode) (text : Octets)
  | oack (options : List OptionField)
  deriving DecidableEq, Repr

structure Message where
  opcode : Opcode
  payload : Payload
  deriving DecidableEq, Repr

namespace Message

/-- The message that stands for none at all. -/
def empty : Message := ⟨.none, .none⟩

def data (block : UInt16) (octets : Octets) : Message := ⟨.data, .data block octets⟩

def ack (block : UInt16) : Message := ⟨.ack, .ack block⟩

def oack (options : List OptionField) : Message := ⟨.oack, .oack options⟩

/-- An ERROR message with a text of its own. -/
def error (code : ErrorCode) (text : Octets) : Message := ⟨.error, .error code text⟩

/-- An ERROR message with the standard text of its code. -/
def standardError (code : ErrorCode) : Message := error code code.text

end Message

/-- The largest payload of a DATA message. -/
def maxBlockSize : UInt64 := 65464

/-- The block size of a transfer that negotiates none. -/
def defaultBlockSize : UInt64 := 512

/-- The largest datagram that a receiver makes room for: a DATA header and the
largest payload. -/
def maxDatagramSize : Nat := 4 + maxBlockSize.toNat

end TftpServer
