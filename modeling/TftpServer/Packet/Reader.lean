import TftpServer.Packet.Message

/-! # Field readers

A reader takes a field off the front of a datagram and returns the field with
the octets that remain, or nothing when the field is not there. `readAt` runs a
reader at a position inside a datagram and reports the position after the
field. What a reader leaves over is always a suffix of what it was given, so
positions move forward and never pass the end.
-/

namespace TftpServer

/-- A field reader: the field and the unread rest, or nothing. -/
abbrev Reader (α : Type) := Octets → Option (α × Octets)

/-- The number whose big-endian octets are `high` and `low`. -/
def word (high low : UInt8) : UInt16 :=
  UInt16.ofNat (high.toNat * 256 + low.toNat)

/-- A big-endian 16-bit number. -/
def readU16 : Reader UInt16
  | high :: low :: rest => some (word high low, rest)
  | _ => none

/-- A text up to the next NUL, which is consumed but not part of the text. -/
def readText : Reader Octets := fun source =>
  match source.dropWhile (· != 0) with
  | [] => none
  | _ :: rest => some (source.takeWhile (· != 0), rest)

/-- Everything that is left. -/
def readBlob : Reader Octets := fun source => some (source, [])

/-- Splits a datagram tail into its NUL-terminated fields and what follows the
last NUL. -/
def splitFields : Octets → List Octets × Octets
  | [] => ([], [])
  | octet :: rest =>
    match octet == 0, splitFields rest with
    | true, (fields, tail) => ([] :: fields, tail)
    | false, ([], tail) => ([], octet :: tail)
    | false, (field :: fields, tail) => ((octet :: field) :: fields, tail)

/-- Reads fields two by two as option names and values; a last field without a
partner is left out. -/
def pairFields : List Octets → List OptionField
  | name :: value :: rest => ⟨name, value⟩ :: pairFields rest
  | _ => []

/-- The defects that a datagram can have. -/
inductive Defect where
  | unknownOpcode
  | truncated
  | malformedOptions
  | badMode
  deriving DecidableEq, Repr

/-- Reads `name NUL value NUL` pairs up to the end of the datagram. The pairs
before a defect are reported beside it: an unterminated last field is a
truncation, a name without a value is malformed. -/
def readOptions (source : Octets) : List OptionField × Option Defect :=
  let (fields, tail) := splitFields source
  (pairFields fields,
    if tail ≠ [] then some .truncated
    else if fields.length % 2 = 1 then some .malformedOptions
    else none)

/-- Runs a reader at a position of a datagram and reports the position after the
field. A position beyond the end holds no field. -/
def Reader.readAt {α : Type} (reader : Reader α) (source : Octets) (position : Nat) :
    Option (α × Nat) :=
  if position ≤ source.length then
    (reader (source.drop position)).map fun (field, rest) => (field, source.length - rest.length)
  else none

/-- Reads options from a position on and appends them to those already known.
From the end on there is nothing to read. -/
def readOptionsAt (source : Octets) (position : Nat) (known : List OptionField) :
    List OptionField × Option Defect :=
  let (options, defect) := readOptions (source.drop position)
  (known ++ options, defect)

end TftpServer
