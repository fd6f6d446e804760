import TftpServer.Store.Netascii

/-! # Entries in memory

A memory store serves a table of named contents. A stream holds the content
that its name had when it was opened, whatever happens to the table afterwards.
-/

namespace TftpServer

/-- The named contents of a memory store. A name occurs at most once. -/
abbrev MemoryTable := List (Octets × Content)

namespace MemoryTable

/-- Adds an entry, or replaces the one of the same name. -/
def insert (name : Octets) (content : Content) : MemoryTable → MemoryTable
  | [] => [(name, content)]
  | (other, old) :: rest =>
    if other = name then (name, content) :: rest
    else (other, old) :: insert name content rest

end MemoryTable

namespace Content

/-- The octets of a content from an offset on; from the end on there are none. -/
def readAt (content : Content) (offset count : UInt64) : ReadReply :=
  if content.size ≤ offset.toNat then {}
  else { octets := content.slice offset.toNat count.toNat }

/-- Contents as streams: every read is answered from the content alone. -/
def reading (ω : Type) : Reading ω Content where
  read content offset count world := (content.readAt offset count, content, world)
  length content _ := some (UInt64.ofNat content.size)

end Content

/-- The refusal of a mode that cannot be served. -/
def unsupportedMode {σ : Type} : Opened σ :=
  .refused .accessDenied (ascii "unsupported transfer mode")

def memoryStore : Store MemoryTable (Delivery Content) where
  toReading := Delivery.reading (Content.reading MemoryTable)
  openStream name mode table :=
    if mode ≠ .octet ∧ mode ≠ .netascii then (unsupportedMode, table)
    else
      match table.lookup name with
      | none => (.refused .notFound, table)
      | some content => ({ stream := some (Delivery.ofMode mode content) }, table)

end TftpServer
