import TftpServer.FileTree
import TftpServer.Store.Memory

/-! # Files below a serving root

A file store serves the regular files of a tree, by names that are resolved
below a root. The size of a file is taken when it is opened; its content is read
as it stands at each read. A copying store takes the content along as well.

An open file is a stream with a position and a mark that a read past the end
leaves behind. A marked stream neither moves nor reads until the mark is
cleared, so every block starts by clearing it.
-/

namespace TftpServer

structure FileStream where
  position : Nat := 0
  pastEnd : Bool := false
  deriving DecidableEq, Repr

namespace FileStream

/-- Removes the mark of a read past the end. -/
def clear (stream : FileStream) : FileStream :=
  { stream with pastEnd := false }

/-- Moves to a position, unless the stream is marked. -/
def seek (stream : FileStream) (position : Nat) : FileStream :=
  if stream.pastEnd then stream else { stream with position }

/-- Reads up to `count` octets from the position on. Coming up short marks the
stream, and a marked stream gives nothing. -/
def read (stream : FileStream) (content : Content) (count : Nat) : Octets × FileStream :=
  if stream.pastEnd then ([], stream)
  else
    let octets := content.slice stream.position count
    (octets, ⟨stream.position + octets.length, octets.length < count⟩)

end FileStream

/-- An open file: where it lies, its size when it was opened, and its stream. -/
structure FileSource where
  path : Octets
  size : UInt64
  stream : FileStream := {}

namespace FileSource

/-- The content of the file as it stands now. -/
def content (source : FileSource) (tree : FileTree) : Content :=
  match tree.find? source.path with
  | some (.file content) => content
  | _ => #[]

/-- Clears the mark and moves to an offset. -/
def seek (source : FileSource) (offset : UInt64) : FileSource :=
  { source with stream := source.stream.clear.seek offset.toNat }

theorem content_seek (source : FileSource) (offset : UInt64) (tree : FileTree) :
    (source.seek offset).content tree = source.content tree := rfl

/-- What a read of a block comes to when there is a buffer for it. From the size at
opening on there is nothing to read. -/
def answer (source : FileSource) (offset count : UInt64) (tree : FileTree) : ReadReply × FileSource :=
  if source.size ≤ offset then ({}, source)
  else
    let source := source.seek offset
    if source.stream.pastEnd then
      ({ error := some .ioFailure, detail := ascii "seek failed" }, source)
    else
      let (octets, stream) := source.stream.read (source.content tree) count.toNat
      ({ octets }, { source with stream })

/-- Reads a block. If there is something to read, a buffer of its length is made once the
stream has moved to the offset. -/
def read (source : FileSource) (offset count : UInt64) (tree : FileTree) :
    Except LengthError ReadReply × FileSource :=
  if offset < source.size ∧ maxBufferSize < count then (.error .creation, source.seek offset)
  else
    let (reply, source) := source.answer offset count tree
    (.ok reply, source)

def bufferedReading : BufferedReading FileTree FileSource where
  read source offset count tree :=
    let (result, source) := source.read offset count tree
    (result, source, tree)
  length source _ := some source.size

def reading : Reading FileTree FileSource where
  read source offset count tree :=
    let (reply, source) := source.answer offset count tree
    (reply, source, tree)
  length source _ := some source.size

end FileSource

/-- Opens the file at a requested name below the root. -/
def openFile (root name : Octets) (mode : Mode) (tree : FileTree) : Opened (Delivery FileSource) :=
  if mode ≠ .octet ∧ mode ≠ .netascii then unsupportedMode
  else
    match Path.resolveBelow root name with
    | none => .refused .accessDenied (ascii "path escapes the serving directory")
    | some path =>
      match tree.find? path with
      | none => .refused .notFound
      | some (.directory _) => .refused .accessDenied (ascii "not a regular file")
      | some (.file content) =>
        { stream := some (Delivery.ofMode mode { path, size := UInt64.ofNat content.size }) }

/-- The store that serves the files below a root. -/
def fileStore (root : Octets) : Store FileTree (Delivery FileSource) where
  toReading := Delivery.reading FileSource.reading
  openStream name mode tree := (openFile root name mode tree, tree)

/-- The store that copies a file below a root when it opens it, and reads the
copy. -/
def fileCopyStore (root : Octets) : Store FileTree (Delivery Content) where
  toReading := Delivery.reading (Content.reading FileTree)
  openStream name mode tree :=
    ((openFile root name mode tree).map (Delivery.map (·.content tree)), tree)

end TftpServer
