import TftpServer.Store.Basic

/-! # Reads on record

The same streams and stores, except that every read and its answer are put on
record next to the world. The answers are those of the original.
-/

namespace TftpServer

variable {ω σ : Type}

/-- A read that a stream was asked for, with its answer. -/
structure ReadCall where
  offset : UInt64
  count : UInt64
  reply : ReadReply

/-- The same way of reading, with a record of the reads next to the world. -/
def Reading.recorded (reading : Reading ω σ) : Reading (ω × List ReadCall) σ where
  read source offset count := fun (world, calls) =>
    let (reply, source, world) := reading.read source offset count world
    (reply, source, world, calls ++ [⟨offset, count, reply⟩])
  length source := fun (world, _) => reading.length source world

/-- The same store, with a record of the reads next to the world. -/
def Store.recorded (store : Store ω σ) : Store (ω × List ReadCall) σ where
  toReading := store.toReading.recorded
  openStream name mode := fun (world, calls) =>
    let (opened, world) := store.openStream name mode world
    (opened, world, calls)

end TftpServer
