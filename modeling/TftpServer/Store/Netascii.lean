import TftpServer.Store.Basic

/-! # Netascii streams

In `netascii` mode a line feed goes out as carriage return and line feed, and a
carriage return as carriage return and NUL. The stream expands an inner one chunk
by chunk as it is read. Reads have to be sequential, and the expanded length is
not known in advance.

The state moves with every octet that is taken, while the position moves only
when a read succeeds. The octets that a read took before its refill failed are
not handed out again.

Room for the octets of a read is reserved before the first one is taken, and a read
that asks for more than a buffer can hold is broken off there.
-/

namespace TftpServer

/-- How many octets are requested from the inner stream at a time. -/
def netasciiChunkSize : UInt64 := 4096

/-- A netascii stream over an inner one: the rest of the current chunk, the
second half of an expanded octet that is still to be sent, the offsets reached
in the inner stream and in the output, and whether the inner stream has ended. -/
structure Netascii (σ : Type) where
  inner : σ
  chunk : Octets := []
  pending : Option UInt8 := none
  innerOffset : UInt64 := 0
  position : UInt64 := 0
  innerDone : Bool := false

/-- The outcome of taking one octet from a netascii stream. -/
inductive Netascii.Taken (ω σ : Type) where
  | octet (octet : UInt8) (stream : Netascii σ) (world : ω)
  | ended (stream : Netascii σ) (world : ω)
  | failed (error : Failure) (detail : Octets) (stream : Netascii σ) (world : ω)

namespace Netascii

variable {ω σ : Type}

/-- The expansion of an octet: what is sent first, and what has to follow. -/
def expand (octet : UInt8) : UInt8 × Option UInt8 :=
  if octet = 10 then (13, some 10)
  else if octet = 13 then (13, some 0)
  else (octet, none)

def takeFrom (stream : Netascii σ) (world : ω) : Octets → Taken ω σ
  | [] => .ended { stream with chunk := [] } world
  | octet :: rest =>
    let (sent, pending) := expand octet
    .octet sent { stream with chunk := rest, pending } world

/-- Takes the next octet of the output, with a refill when the chunk is used
up. A chunk shorter than requested is the last one. -/
def takeOctet (reading : Reading ω σ) (stream : Netascii σ) (world : ω) : Taken ω σ :=
  match stream.pending with
  | some octet => .octet octet { stream with pending := none } world
  | none =>
    match stream.chunk with
    | octet :: rest => takeFrom stream world (octet :: rest)
    | [] =>
      if stream.innerDone then .ended stream world
      else
        let (reply, inner, world) :=
          reading.read stream.inner stream.innerOffset netasciiChunkSize world
        let stream := { stream with inner }
        match reply.error with
        | some error => .failed error reply.detail stream world
        | none =>
          takeFrom
            { stream with
              innerDone := reply.octets.length < netasciiChunkSize.toNat
              innerOffset := stream.innerOffset + UInt64.ofNat reply.octets.length }
            world reply.octets

/-- Takes up to `count` octets; `taken` are those already taken, last first.
The position moves only when no refill fails. -/
def takeOctets (reading : Reading ω σ) :
    Nat → Octets → Netascii σ → ω → ReadReply × Netascii σ × ω
  | 0, taken, stream, world => finish taken stream world
  | count + 1, taken, stream, world =>
    match takeOctet reading stream world with
    | .octet octet stream world => takeOctets reading count (octet :: taken) stream world
    | .ended stream world => finish taken stream world
    | .failed error detail stream world => ({ error := some error, detail }, stream, world)
where
  /-- Hands out what was taken and moves the position past it. -/
  finish (taken : Octets) (stream : Netascii σ) (world : ω) : ReadReply × Netascii σ × ω :=
    ({ octets := taken.reverse },
      { stream with position := stream.position + UInt64.ofNat taken.length }, world)

/-- What a read comes to when there is room for its octets. The expanded stream is read
at the position reached so far; any other offset is refused. -/
def answer (reading : Reading ω σ) (stream : Netascii σ) (offset count : UInt64) (world : ω) :
    ReadReply × Netascii σ × ω :=
  if offset ≠ stream.position then
    ({ error := some .ioFailure, detail := ascii "netascii source only supports sequential reads" },
      stream, world)
  else takeOctets reading count.toNat [] stream world

/-- Reads the expanded stream. Room for the octets is reserved once the offset was found
to be right, and before any of them is taken. -/
def read (reading : Reading ω σ) (stream : Netascii σ) (offset count : UInt64) (world : ω) :
    Except LengthError ReadReply × Netascii σ × ω :=
  if offset = stream.position ∧ maxBufferSize < count then (.error .reservation, stream, world)
  else
    let (reply, stream, world) := answer reading stream offset count world
    (.ok reply, stream, world)

def bufferedReading (inner : Reading ω σ) : BufferedReading ω (Netascii σ) where
  read := read inner
  length _ _ := none

def reading (inner : Reading ω σ) : Reading ω (Netascii σ) where
  read := answer inner
  length _ _ := none

end Netascii

/-- A stream as the requested mode delivers it. -/
inductive Delivery (σ : Type) where
  | octet (source : σ)
  | netascii (source : Netascii σ)

namespace Delivery

variable {ω σ : Type}

/-- A freshly opened stream in a mode. -/
def ofMode (mode : Mode) (source : σ) : Delivery σ :=
  if mode = .netascii then .netascii { inner := source } else .octet source

/-- The same delivery of another source. -/
def map {τ : Type} (form : σ → τ) : Delivery σ → Delivery τ
  | .octet source => .octet (form source)
  | .netascii source => .netascii { source with inner := form source.inner }

def reading (inner : Reading ω σ) : Reading ω (Delivery σ) where
  read delivery offset count world :=
    match delivery with
    | .octet source =>
      let (reply, source, world) := inner.read source offset count world
      (reply, .octet source, world)
    | .netascii source =>
      let (reply, source, world) := (Netascii.reading inner).read source offset count world
      (reply, .netascii source, world)
  length delivery world :=
    match delivery with
    | .octet source => inner.length source world
    | .netascii _ => none

/-- The same with the reads that are broken off. Both `inner` and `bufferedInner` read
the source itself, the first of them in chunks. -/
def bufferedReading (inner : Reading ω σ) (bufferedInner : BufferedReading ω σ) :
    BufferedReading ω (Delivery σ) where
  read delivery offset count world :=
    match delivery with
    | .octet source =>
      let (result, source, world) := bufferedInner.read source offset count world
      (result, .octet source, world)
    | .netascii source =>
      let (result, source, world) := Netascii.read inner source offset count world
      (result, .netascii source, world)
  length := (reading inner).length

end Delivery

end TftpServer
