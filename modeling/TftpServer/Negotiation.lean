import TftpServer.Packet.Message
import TftpServer.Text.Decimal

/-! # Option negotiation

A request may ask for a block size, a retransmission timeout and the size of
the transfer. `negotiate` settles each of the three by its first occurrence in
the request and ignores every other option. The acceptance lists what the
server announces, in the order of the request, next to the values that the
transfer then runs with.
-/

namespace TftpServer

/-- The bounds that the server puts on negotiated values. -/
structure Limits where
  minBlockSize : UInt64 := 8
  maxBlockSize : UInt64 := TftpServer.maxBlockSize
  minTimeout : UInt32 := 1
  maxTimeout : UInt32 := 255
  deriving DecidableEq, Repr

inductive KnownOption where
  | blockSize
  | timeout
  | transferSize
  deriving DecidableEq, Repr

namespace KnownOption

def name : KnownOption → Octets
  | .blockSize => ascii "blksize"
  | .timeout => ascii "timeout"
  | .transferSize => ascii "tsize"

/-- The option that a name denotes, up to ASCII case. -/
def ofName (text : Octets) : Option KnownOption :=
  if Text.lowercase text = KnownOption.blockSize.name then some .blockSize
  else if Text.lowercase text = KnownOption.timeout.name then some .timeout
  else if Text.lowercase text = KnownOption.transferSize.name then some .transferSize
  else none

end KnownOption

/-- What the server accepted: the announced options and the settled values. -/
structure Acceptance where
  entries : List OptionField := []
  blockSize : Option UInt64 := none
  timeout : Option UInt32 := none
  transferSize : Option UInt64 := none
  deriving DecidableEq, Repr

/-- `value` moved into `[floor, ceiling]`. -/
def clamp (value floor ceiling : UInt64) : UInt64 :=
  if value < floor then floor else if ceiling < value then ceiling else value

namespace Limits

/-- The largest block size that the limits allow, itself within 8 and 65464. -/
def blockSizeCeiling (limits : Limits) : UInt64 :=
  clamp limits.maxBlockSize 8 TftpServer.maxBlockSize

/-- The smallest block size that the limits allow, never above the ceiling. -/
def blockSizeFloor (limits : Limits) : UInt64 :=
  clamp limits.minBlockSize 8 limits.blockSizeCeiling

/-- The block size for a requested one: the nearest allowed value. A number too
large to be stored asks for as much as possible. -/
def resolveBlockSize (limits : Limits) (value : Octets) : Option UInt64 :=
  match Text.parseDecimal (UInt64.size - 1) value with
  | .error .notNumeric => none
  | .error .overflow => some limits.blockSizeCeiling
  | .ok requested =>
    some (clamp (UInt64.ofNat requested) limits.blockSizeFloor limits.blockSizeCeiling)

/-- The timeout for a requested one: as requested, when it is allowed. -/
def resolveTimeout (limits : Limits) (value : Octets) : Option UInt32 :=
  match Text.parseDecimal (UInt32.size - 1) value with
  | .error _ => none
  | .ok requested =>
    if requested < max limits.minTimeout.toNat 1 ∨ min limits.maxTimeout.toNat 255 < requested then none
    else some (UInt32.ofNat requested)

end Limits

/-- The options of a request that the server understands, with their values. -/
def knownOptions (requested : List OptionField) : List (KnownOption × Octets) :=
  requested.filterMap fun field => (KnownOption.ofName field.name).map (·, field.value)

/-- The first value of each option, in the order of first occurrence. -/
def firstOccurrences : List (KnownOption × Octets) → List (KnownOption × Octets)
  | [] => []
  | first :: rest => first :: (firstOccurrences rest).filter (·.1 ≠ first.1)

/-- The text announced for an option that was asked for with `value`. -/
def announcedValue (limits : Limits) (sourceLength : Option UInt64) (option : KnownOption)
    (value : Octets) : Option Octets :=
  match option with
  | .blockSize => (limits.resolveBlockSize value).map fun size => Text.decimal size.toNat
  | .timeout => (limits.resolveTimeout value).map fun seconds => Text.decimal seconds.toNat
  | .transferSize => some (Text.decimal (sourceLength.getD 0).toNat)

/-- Settles the options of a request. The transfer size is always announced as
the real one, or as 0 when the source does not know its length. -/
def negotiate (limits : Limits) (sourceLength : Option UInt64) (requested : List OptionField) :
    Acceptance :=
  let settled := firstOccurrences (knownOptions requested)
  { entries := settled.filterMap fun (option, value) =>
      (announcedValue limits sourceLength option value).map (OptionField.mk option.name ·)
    blockSize := (settled.lookup .blockSize).bind limits.resolveBlockSize
    timeout := (settled.lookup .timeout).bind limits.resolveTimeout
    transferSize := (settled.lookup .transferSize).map fun _ => sourceLength.getD 0 }

/-- What a transfer runs with. The timeout is in seconds. -/
structure Settings where
  blockSize : UInt64 := defaultBlockSize
  timeout : Int64 := 3
  retryLimit : UInt32 := 5
  deriving DecidableEq, Repr

/-- The configuration of the engine: the limits, and what holds for a transfer
that negotiates nothing. -/
structure EngineConfig where
  limits : Limits := {}
  defaultTimeout : Int64 := 3
  retryLimit : UInt32 := 5
  deriving DecidableEq, Repr

/-- The settings of a transfer: negotiated values first, defaults for the rest. -/
def resolveSettings (accepted : Acceptance) (defaultTimeout : Int64) (retryLimit : UInt32) :
    Settings where
  blockSize := accepted.blockSize.getD defaultBlockSize
  timeout := match accepted.timeout with
    | some seconds => .ofNat seconds.toNat
    | none => defaultTimeout
  retryLimit := retryLimit

end TftpServer
