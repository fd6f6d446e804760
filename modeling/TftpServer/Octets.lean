/-! # Octets

Datagrams, requested names, option texts and log lines are all finite lists of
octets. Text that the server itself supplies is written as a string literal and
read octet by octet through `ascii`. File contents are arrays, since a transfer
cuts blocks out of them at arbitrary positions.
-/

namespace TftpServer

/-- A datagram, a name, or a piece of text: octets in wire order. -/
abbrev Octets := List UInt8

/-- The content of a file, indexed for block-wise reading. -/
abbrev Content := Array UInt8

/-- The octets of a text, one per character; characters beyond `U+00FF` do not
occur in the server's own texts. -/
def ascii (text : String) : Octets :=
  text.toList.map fun c => UInt8.ofNat c.toNat

/-- The octets of `content` from `offset` on, at most `count` of them. Nothing
is read past the end. -/
def Content.slice (content : Content) (offset count : Nat) : Octets :=
  (content.extract offset (offset + count)).toList

/-- The lowercase hexadecimal digit of a value below sixteen. -/
def hexDigit (value : Nat) : UInt8 :=
  UInt8.ofNat (if value < 10 then 48 + value else 87 + value)

/-- The state of a 64-bit FNV-1a digest before any octet. -/
def fnv1aOffset : UInt64 := 14695981039346656037

/-- Continues an FNV-1a digest: each octet is mixed in by exclusive or, then the
state is multiplied by the FNV prime. -/
def fnv1aFrom (state : UInt64) (octets : Octets) : UInt64 :=
  octets.foldl (fun state octet => (state ^^^ octet.toUInt64) * 1099511628211) state

/-- The 64-bit FNV-1a digest of octets. -/
def fnv1a (octets : Octets) : UInt64 :=
  fnv1aFrom fnv1aOffset octets

end TftpServer
