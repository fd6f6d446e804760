import TftpServer.Endpoint.Text

/-! # Numeric addresses

Reads addresses in their numeric text form. IPv4 takes four decimal octets
without leading zeros. IPv6 takes eight groups of one to four hexadecimal
digits, of which a double colon stands for one or more zero groups, and the
last two of which may be written as a dotted IPv4 address.
-/

namespace TftpServer.Address

/-- One decimal octet of a dotted address. -/
def parseDottedOctet (text : Octets) : Option UInt8 :=
  match Text.parseDecimal 255 text with
  | .error _ => none
  | .ok value => if text.length ≤ 3 ∧ Text.decimal value = text then some (UInt8.ofNat value) else none

def parseDotted (text : Octets) : Option Octets :=
  let parts := Text.splitOn 46 text
  if parts.length = 4 then parts.mapM parseDottedOctet else none

/-- The value of a hexadecimal digit of either case. -/
def hexDigitValue (octet : UInt8) : Option Nat :=
  let value := octet.toNat
  if 48 ≤ value ∧ value ≤ 57 then some (value - 48)
  else if 97 ≤ value ∧ value ≤ 102 then some (value - 87)
  else if 65 ≤ value ∧ value ≤ 70 then some (value - 55)
  else none

/-- The two octets of one group. -/
def parseGroup (text : Octets) : Option Octets := do
  let digits ← text.mapM hexDigitValue
  if 1 ≤ digits.length ∧ digits.length ≤ 4 then
    let value := digits.foldl (fun value digit => 16 * value + digit) 0
    some [UInt8.ofNat (value / 256), UInt8.ofNat (value % 256)]
  else none

/-- The octets of a run of groups; only the last one may be dotted. -/
def parseGroups : List Octets → Option Octets
  | [] => some []
  | [last] => parseGroup last <|> parseDotted last
  | group :: rest => do return (← parseGroup group) ++ (← parseGroups rest)

/-- Cuts a text at its first double colon. -/
def cutAtDoubleColon : Octets → Option (Octets × Octets)
  | 58 :: 58 :: rest => some ([], rest)
  | octet :: rest => (cutAtDoubleColon rest).map fun (before, after) => (octet :: before, after)
  | [] => none

/-- The groups on one side of a double colon, which may be none. -/
def sideGroups (text : Octets) : List Octets :=
  if text = [] then [] else Text.splitOn 58 text

def parseIpv6 (text : Octets) : Option Octets :=
  match cutAtDoubleColon text with
  | none => do
    let octets ← parseGroups (Text.splitOn 58 text)
    if octets.length = 16 then some octets else none
  | some (before, after) => do
    let front ← (sideGroups before).mapM parseGroup
    let back ← parseGroups (sideGroups after)
    let given := front.flatten.length + back.length
    if given < 16 then some (front.flatten ++ List.replicate (16 - given) 0 ++ back) else none

/-- The endpoint of a numeric address at a port. -/
def parseEndpoint (text : Octets) (port : UInt16) : Option Endpoint :=
  match parseDotted text with
  | some octets => some ⟨.ipv4, Address.ofOctets octets, port, 0⟩
  | none => (parseIpv6 text).map fun octets => ⟨.ipv6, Address.ofOctets octets, port, 0⟩

end TftpServer.Address
