import TftpServer.Store.Basic

/-! # Reading on

Some streams can only be read forwards. Reading on asks for equal portions from
an offset on, each where the one before it ended, and stops at the first
portion that falls short, fails or is broken off.
-/

namespace TftpServer

variable {ω σ : Type}

/-- What reading on came to: the stream and the world afterwards, the number of
reads, the octets they gave, and the read that failed or was broken off, if one
was. -/
structure Readout (ω σ : Type) where
  stream : σ
  world : ω
  reads : Nat
  octets : Octets
  failure : Option (Except LengthError ReadReply) := none

/-- Reads on after `reads` reads that gave the portions `taken`, last first.
`limit` bounds the reads still to be made. -/
def BufferedReading.readOnFrom (reading : BufferedReading ω σ) (count : UInt64) (reads : Nat)
    (taken : List Octets) (offset : UInt64) (stream : σ) (world : ω) : Nat → Readout ω σ
  | 0 => { stream, world, reads, octets := taken.reverse.flatten }
  | limit + 1 =>
    let (result, stream, world) := reading.read stream offset count world
    let reads := reads + 1
    match result with
    | .ok { error := none, octets, .. } =>
      let taken := octets :: taken
      if octets.length < count.toNat then
        { stream, world, reads, octets := taken.reverse.flatten }
      else
        readOnFrom reading count reads taken (offset + UInt64.ofNat octets.length) stream world limit
    | _ => { stream, world, reads, octets := taken.reverse.flatten, failure := some result }

/-- Reads portions of `count` octets from an offset on, at most `limit` of them. -/
def BufferedReading.readOn (reading : BufferedReading ω σ) (count : UInt64) (limit : Nat)
    (offset : UInt64) (stream : σ) (world : ω) : Readout ω σ :=
  reading.readOnFrom count 0 [] offset stream world limit

end TftpServer
