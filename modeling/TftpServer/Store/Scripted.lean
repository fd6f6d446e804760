import TftpServer.Store.Basic

/-! # Scripted streams and stores

A scripted stream answers its reads from a list, whatever the offset, and its
last answer stands for all later reads. A scripted store opens scripted entries
by name. Both leave a record of what they were asked, newest first.
-/

namespace TftpServer

/-- The octets of a scripted answer: fixed ones, or one octet repeated for as
many octets as were asked for and `extra` more. -/
inductive ScriptedOctets where
  | fixed (octets : Octets)
  | fill (octet : UInt8) (extra : Nat)

structure ScriptedReply where
  error : Option Failure := none
  detail : Octets := []
  octets : ScriptedOctets := .fixed []

/-- The answer to a read of at most `count` octets. -/
def ScriptedReply.reply (answer : ScriptedReply) (count : UInt64) : ReadReply where
  error := answer.error
  detail := answer.detail
  octets := match answer.octets with
    | .fixed octets => octets
    | .fill octet extra => List.replicate (count.toNat + extra) octet

/-- The reads of scripted streams, as pairs of offset and count, newest first. -/
abbrev ReadRecord := List (UInt64 × UInt64)

/-- A scripted stream: the length it reports and the answers that remain. -/
structure ScriptedStream where
  length : Option UInt64 := none
  answers : List ScriptedReply

namespace ScriptedStream

/-- Answers a read. The last answer is never used up. -/
def read (stream : ScriptedStream) (count : UInt64) : ReadReply × ScriptedStream :=
  match stream.answers with
  | [] => ({}, stream)
  | [last] => (last.reply count, stream)
  | answer :: rest => (answer.reply count, { stream with answers := rest })

/-- Scripted streams as a way of reading that keeps a record. -/
def reading : Reading ReadRecord ScriptedStream where
  read stream offset count record :=
    let (reply, stream) := stream.read count
    (reply, stream, (offset, count) :: record)
  length stream _ := stream.length

end ScriptedStream

/-- An entry of a scripted store: a name and what opening it comes to. -/
structure ScriptedEntry (σ : Type) where
  name : Octets
  opened : Opened σ

/-- The store that opens the first entry of a name, afresh each time. Requests
are recorded in the world before they are answered. -/
def scriptedStore {ω σ : Type} (reading : Reading ω σ) (record : Octets → Mode → ω → ω)
    (entries : List (ScriptedEntry σ)) : Store ω σ where
  toReading := reading
  openStream name mode world :=
    let opened := match entries.find? (·.name = name) with
      | some entry => entry.opened
      | none => .refused .notFound
    (opened, record name mode world)

end TftpServer
