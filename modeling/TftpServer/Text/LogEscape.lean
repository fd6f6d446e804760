import TftpServer.Octets

/-! # Escaped text in log lines

Names chosen by a peer are shown in the log with every octet that is not
printable ASCII written as a backslash, `x` and two hexadecimal digits. The
backslash itself is written that way too, so an escape is never mistaken for
literal text.
-/

namespace TftpServer.Text

/-- Printable ASCII: the blank up to the tilde. -/
def isPrintable (octet : UInt8) : Bool :=
  0x20 ≤ octet && octet < 0x7f

def escapeOctet (octet : UInt8) : Octets :=
  if isPrintable octet && octet != 92 then [octet]
  else [92, 120, hexDigit (octet.toNat / 16), hexDigit (octet.toNat % 16)]

def escapeForLog (text : Octets) : Octets :=
  text.flatMap escapeOctet

@[simp] theorem escapeForLog_nil : escapeForLog [] = [] := rfl

@[simp] theorem escapeForLog_cons (octet : UInt8) (text : Octets) :
    escapeForLog (octet :: text) = escapeOctet octet ++ escapeForLog text := rfl

end TftpServer.Text
