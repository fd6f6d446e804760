/-! # Block positions

DATA blocks are numbered by sixteen bits on the wire, and the numbers wrap. A
position adds the count of wraps, so that it names one block of an arbitrarily
long transfer. Positions and offsets are 64-bit words.
-/

namespace TftpServer

/-- The position of a DATA block: its wire number, and how often the numbers
have wrapped before it. -/
structure BlockPosition where
  epoch : UInt64
  block : UInt16
  deriving DecidableEq, Repr

namespace BlockPosition

/-- The position of the first block, which has number 1. -/
def first : BlockPosition := ⟨0, 1⟩

def next (position : BlockPosition) : BlockPosition :=
  let block := position.block + 1
  ⟨if block = 0 then position.epoch + 1 else position.epoch, block⟩

/-- The number of a block counted over all wraps. -/
def logical (position : BlockPosition) : UInt64 :=
  position.epoch * 65536 + position.block.toUInt64

/-- Where the octets of a block start: block `n` follows `n - 1` full blocks. -/
def offset (position : BlockPosition) (blockSize : UInt64) : UInt64 :=
  if position.logical = 0 then 0 else (position.logical - 1) * blockSize

def advance (position : BlockPosition) : Nat → BlockPosition
  | 0 => position
  | steps + 1 => position.next.advance steps

end BlockPosition

/-- Serial-number comparison on sixteen bits: `acknowledged` is earlier than
`current` when it trails it by 1 up to 32767 blocks. -/
def isEarlierBlock (current acknowledged : UInt16) : Bool :=
  let distance := current - acknowledged
  distance != 0 && distance < 0x8000

end TftpServer
