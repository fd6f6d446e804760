import TftpServer.Store.File
import TftpServer.Store.Scripted

/-! # Streams of every kind

One type for the streams of all stores, so that they can be held side by side:
entries in memory, open files and scripted streams, each under any number of
further netascii layers.
-/

namespace TftpServer

/-- What mixed streams live in: the entries, the files, and the records of
scripted reads and requests, newest first. -/
structure MixedWorld where
  table : MemoryTable := []
  tree : FileTree := .directory []
  reads : ReadRecord := []
  requests : List (Octets × Mode) := []

inductive StoreStream where
  | memory (delivery : Delivery Content)
  | file (delivery : Delivery FileSource)
  | scripted (stream : ScriptedStream)

namespace StoreStream

def reading : Reading MixedWorld StoreStream where
  read stream offset count world :=
    match stream with
    | .memory delivery =>
      let (reply, delivery, table) := memoryStore.read delivery offset count world.table
      (reply, .memory delivery, { world with table })
    | .file delivery =>
      let (reply, delivery, tree) :=
        (Delivery.reading FileSource.reading).read delivery offset count world.tree
      (reply, .file delivery, { world with tree })
    | .scripted stream =>
      let (reply, stream, reads) := ScriptedStream.reading.read stream offset count world.reads
      (reply, .scripted stream, { world with reads })
  length stream world :=
    match stream with
    | .memory delivery => memoryStore.length delivery world.table
    | .file delivery => (Delivery.reading FileSource.reading).length delivery world.tree
    | .scripted stream => stream.length

def Layered : Nat → Type
  | 0 => StoreStream
  | layers + 1 => Netascii (Layered layers)

def layeredReading : (layers : Nat) → Reading MixedWorld (Layered layers)
  | 0 => reading
  | layers + 1 => Netascii.reading (layeredReading layers)

/-- The same reads with those that are broken off. A layer asks the next one for a chunk
at a time, so only the outermost may break a read off. -/
def bufferedReading : BufferedReading MixedWorld StoreStream where
  read stream offset count world :=
    match stream with
    | .memory delivery =>
      let contents := Content.reading MemoryTable
      let (result, delivery, table) :=
        (Delivery.bufferedReading contents contents.unbroken).read delivery offset count world.table
      (result, .memory delivery, { world with table })
    | .file delivery =>
      let (result, delivery, tree) :=
        (Delivery.bufferedReading FileSource.reading FileSource.bufferedReading).read delivery offset
          count world.tree
      (result, .file delivery, { world with tree })
    | .scripted _ => reading.unbroken.read stream offset count world
  length := reading.length

def layeredBufferedReading : (layers : Nat) → BufferedReading MixedWorld (Layered layers)
  | 0 => bufferedReading
  | layers + 1 => Netascii.bufferedReading (layeredReading layers)

end StoreStream

/-- A stream of any kind: how many layers it has, and the layered stream. -/
abbrev MixedStream := (layers : Nat) × StoreStream.Layered layers

namespace MixedStream

/-- A stream without further layers. -/
def plain (stream : StoreStream) : MixedStream := ⟨0, stream⟩

/-- A content in memory, read as it is. -/
def ofContent (content : Content) : MixedStream := plain (.memory (.octet content))

instance : Inhabited MixedStream := ⟨ofContent #[]⟩

def netascii (stream : MixedStream) : MixedStream :=
  ⟨stream.1 + 1, { inner := stream.2 : Netascii (StoreStream.Layered stream.1) }⟩

def reading : Reading MixedWorld MixedStream where
  read stream offset count world :=
    let (reply, inner, world) := (StoreStream.layeredReading stream.1).read stream.2 offset count world
    (reply, ⟨stream.1, inner⟩, world)
  length stream world := (StoreStream.layeredReading stream.1).length stream.2 world

def bufferedReading : BufferedReading MixedWorld MixedStream where
  read stream offset count world :=
    let (result, inner, world) :=
      (StoreStream.layeredBufferedReading stream.1).read stream.2 offset count world
    (result, ⟨stream.1, inner⟩, world)
  length := reading.length

/-- The memory store over the entries of a mixed world. -/
def memoryStore : Store MixedWorld MixedStream where
  toReading := reading
  openStream name mode world :=
    let (result, table) := TftpServer.memoryStore.openStream name mode world.table
    (result.map (plain ∘ .memory), { world with table })

/-- The file store over the tree of a mixed world. -/
def fileStore (root : Octets) : Store MixedWorld MixedStream where
  toReading := reading
  openStream name mode world :=
    let (result, tree) := (TftpServer.fileStore root).openStream name mode world.tree
    (result.map (plain ∘ .file), { world with tree })

/-- A scripted store that records requests in a mixed world. -/
def scriptedStore (entries : List (ScriptedEntry MixedStream)) : Store MixedWorld MixedStream :=
  TftpServer.scriptedStore reading
    (fun name mode world => { world with requests := (name, mode) :: world.requests }) entries

end MixedStream

end TftpServer
