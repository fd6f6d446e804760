import TftpServer.Octets

/-! # Receive buffers

A buffer has room for a fixed number of octets and a mark that says how many of
them the last arrival filled. Its view shows exactly those. What lies behind
the mark may stem from earlier arrivals and is never shown.
-/

namespace TftpServer

/-- A buffer: its whole storage, and how much of it is in use. -/
structure ReceiveBuffer where
  storage : Octets
  length : Nat
  deriving DecidableEq, Repr

namespace ReceiveBuffer

/-- A buffer of zeros with nothing in use. -/
def empty (capacity : Nat) : ReceiveBuffer := ⟨List.replicate capacity 0, 0⟩

def capacity (buffer : ReceiveBuffer) : Nat := buffer.storage.length

/-- Overwrites the front of the storage; what does not fit is dropped. -/
def fill (buffer : ReceiveBuffer) (octets : Octets) : ReceiveBuffer :=
  { buffer with
    storage := octets.take buffer.capacity ++ buffer.storage.drop octets.length }

/-- Marks the first `length` octets as in use, as far as there is room. -/
def mark (buffer : ReceiveBuffer) (length : Nat) : ReceiveBuffer :=
  { buffer with length := min length buffer.capacity }

/-- Marks nothing as in use. -/
def reset (buffer : ReceiveBuffer) : ReceiveBuffer := { buffer with length := 0 }

def view (buffer : ReceiveBuffer) : Octets := buffer.storage.take buffer.length

end ReceiveBuffer

/-- The part of a view that starts at a position and has a length; empty when it
does not lie within the view. -/
def subView (view : Octets) (start length : Nat) : Octets :=
  if view.length < start ∨ view.length - start < length then []
  else (view.drop start).take length

end TftpServer
