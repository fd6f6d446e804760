import TftpServer.Octets

/-! # ASCII case folding

Transfer modes and option names are compared up to ASCII case. Octets outside
`A`..`Z` are their own lowercase form, so text in any other encoding is left as
it is.
-/

namespace TftpServer.Text

/-- The lowercase form of one octet. -/
def lowerOctet (octet : UInt8) : UInt8 :=
  if 65 ≤ octet ∧ octet ≤ 90 then octet + 32 else octet

def lowercase (text : Octets) : Octets :=
  text.map lowerOctet

def sameIgnoringCase (first second : Octets) : Bool :=
  lowercase first == lowercase second

end TftpServer.Text
