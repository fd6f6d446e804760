import TftpServer.Packet.Message

/-! # Stores and their streams

A store turns a requested name into a stream of octets that a transfer reads
block by block. Both may depend on a surrounding world, such as a file tree or
the table of entries, and may change it. Nothing else is assumed: a store may
refuse, fail at any read, or answer with more octets than it was asked for.

Some streams take the octets of a read into a buffer that has room for as many as
were asked for. No buffer has room for more than `maxBufferSize`, so a read of more
is broken off instead of being answered. Whoever never asks for so much can read a
stream as a `Reading`, whose reads are all answered.
-/

namespace TftpServer

/-- Why a store refuses a name or a stream cannot be read. -/
inductive Failure where
  | notFound
  | accessDenied
  | ioFailure
  deriving DecidableEq, Repr

/-- The error code that a peer is told. -/
def Failure.errorCode : Failure → ErrorCode
  | .notFound => .fileNotFound
  | .accessDenied => .accessViolation
  | .ioFailure => .notDefined

/-- The error code for a failure that may have stayed unnamed. -/
def Failure.codeOf : Option Failure → ErrorCode
  | some failure => failure.errorCode
  | none => .notDefined

/-- The outcome of one read: the failure if there was one, a text that explains
it, and the octets. -/
structure ReadReply where
  error : Option Failure := none
  detail : Octets := []
  octets : Octets := []
  deriving DecidableEq, Repr

/-- How streams in states `σ` are read in worlds `ω`: at an offset, at most so
many octets. The length is known to some streams only. -/
structure Reading (ω σ : Type) where
  read : σ → UInt64 → UInt64 → ω → ReadReply × σ × ω
  length : σ → ω → Option UInt64

/-- The most octets that a buffer can have room for. -/
def maxBufferSize : UInt64 := 9223372036854775807

/-- Why a read is broken off: a buffer of the length asked for cannot be made, or room
for so many octets cannot be reserved in one. -/
inductive LengthError where
  | creation
  | reservation
  deriving DecidableEq, Repr

/-- How streams in states `σ` are read that may break a read off. -/
structure BufferedReading (ω σ : Type) where
  read : σ → UInt64 → UInt64 → ω → Except LengthError ReadReply × σ × ω
  length : σ → ω → Option UInt64

/-- Streams that answer every read break none off. -/
def Reading.unbroken {ω σ : Type} (reading : Reading ω σ) : BufferedReading ω σ where
  read stream offset count world :=
    let (reply, stream, world) := reading.read stream offset count world
    (.ok reply, stream, world)
  length := reading.length

instance {ω σ : Type} : Coe (Reading ω σ) (BufferedReading ω σ) := ⟨Reading.unbroken⟩

/-- The outcome of a request for a name. -/
structure Opened (σ : Type) where
  error : Option Failure := none
  detail : Octets := []
  stream : Option σ := none

/-- A store: how its streams are read, and how a name and a mode open one. -/
structure Store (ω σ : Type) extends Reading ω σ where
  openStream : Octets → Mode → ω → Opened σ × ω

/-- The same store, except that something happens to the world before a name is
opened. -/
def Store.preceded {ω σ : Type} (store : Store ω σ) (event : Octets → ω → ω) : Store ω σ :=
  { store with openStream := fun name mode world => store.openStream name mode (event name world) }

/-- The same outcome with another form of the stream. -/
def Opened.map {σ τ : Type} (form : σ → τ) (opened : Opened σ) : Opened τ where
  error := opened.error
  detail := opened.detail
  stream := opened.stream.map form

def Opened.refused {σ : Type} (error : Failure) (detail : Octets := []) : Opened σ :=
  { error := some error, detail }

end TftpServer
