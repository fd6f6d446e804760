import TftpServer.Packet.Message

/-! # Encoding messages

Encoding writes the fields of a message one after the other. A draft is what
has been written so far, together with the reason why writing stopped, if it
did: the octets of a refused draft are those that were in place before the
refusal.
-/

namespace TftpServer

inductive EncodeError where
  | nulInText
  | noTransferMode
  | oversizedData
  | payloadMismatch
  | noOpcode
  deriving DecidableEq, Repr

def EncodeError.message : EncodeError → Octets
  | .nulInText => ascii "TFTP text field contains a NUL octet"
  | .noTransferMode => ascii "TFTP request has no transfer mode"
  | .oversizedData => ascii "TFTP DATA payload exceeds the negotiated block size"
  | .payloadMismatch => ascii "TFTP message opcode does not match its payload"
  | .noOpcode => ascii "cannot serialize a TFTP message without an opcode"

/-- The octets written so far, and why writing stopped. -/
structure Draft where
  octets : Octets
  refusal : Option EncodeError
  deriving DecidableEq, Repr

namespace Draft

/-- A draft that writes its octets and succeeds. -/
def write (octets : Octets) : Draft := ⟨octets, none⟩

/-- A draft that writes nothing and fails. -/
def refuse (reason : EncodeError) : Draft := ⟨[], some reason⟩

/-- One draft after another; nothing is written after a refusal. -/
def andThen (first second : Draft) : Draft :=
  match first.refusal with
  | none => ⟨first.octets ++ second.octets, second.refusal⟩
  | some _ => first

/-- A 16-bit number, big-endian. -/
def u16 (value : UInt16) : Draft :=
  write [UInt8.ofNat (value.toNat / 256), UInt8.ofNat (value.toNat % 256)]

/-- A text and its terminating NUL. A text that holds a NUL itself is refused
before anything is written. -/
def text (value : Octets) : Draft :=
  if 0 ∈ value then refuse .nulInText else write (value ++ [0])

/-- Octets without a terminator. -/
def blob (value : Octets) : Draft := write value

/-- Options in order, each as its name and its value. -/
def options : List OptionField → Draft
  | [] => write []
  | field :: rest => ((text field.name).andThen (text field.value)).andThen (options rest)

/-- The finished octets, or the reason for the refusal. -/
def toExcept (draft : Draft) : Except EncodeError Octets :=
  match draft.refusal with
  | none => .ok draft.octets
  | some reason => .error reason

end Draft

/-- The wire form of a DATA message for a transfer with the given block size. A
payload beyond that size, or beyond the largest size there is, is refused. -/
def encodeData (block : UInt16) (octets : Octets) (blockSize : UInt64) : Except EncodeError Octets :=
  if blockSize.toNat < octets.length ∨ maxBlockSize.toNat < octets.length then .error .oversizedData
  else ((Draft.u16 Opcode.data.code).andThen ((Draft.u16 block).andThen (Draft.blob octets))).toExcept

/-- The draft of a read or write request. -/
def draftRequest (opcode : Opcode) (request : Request) : Draft :=
  if request.mode = .absent then .refuse .noTransferMode
  else
    (Draft.u16 opcode.code).andThen <| (Draft.text request.filename).andThen <|
      (Draft.text request.mode.name).andThen <| Draft.options request.options

/-- The wire form of a message. The payload has to be of the kind that the
opcode announces. -/
def encode (message : Message) : Except EncodeError Octets :=
  match message.opcode, message.payload with
  | .rrq, .request request => (draftRequest .rrq request).toExcept
  | .wrq, .request request => (draftRequest .wrq request).toExcept
  | .data, .data block octets => encodeData block octets maxBlockSize
  | .ack, .ack block => ((Draft.u16 Opcode.ack.code).andThen (Draft.u16 block)).toExcept
  | .error, .error code text =>
    ((Draft.u16 Opcode.error.code).andThen ((Draft.u16 code.value).andThen (Draft.text text))).toExcept
  | .oack, .oack options => ((Draft.u16 Opcode.oack.code).andThen (Draft.options options)).toExcept
  | .none, _ => .error .noOpcode
  | _, _ => .error .payloadMismatch

end TftpServer
