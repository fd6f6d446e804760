import TftpServer.Endpoint.Basic
import TftpServer.Text.Decimal
import TftpServer.Text.Split

/-! # Endpoints as text

IPv4 endpoints are shown as `a.b.c.d:port`, IPv6 endpoints as
`[address]:port`, with `%scope` after the address when the scope is not zero.
An IPv6 address is shown in groups of lowercase hexadecimal digits. The first
longest run of at least two zero groups is shortened to a double colon, and the
last four octets of an IPv4-compatible or IPv4-mapped address are shown in
dotted form.
-/

namespace TftpServer

namespace Text

/-- The lowercase hexadecimal text of a number, without leading zeros. -/
def hexadecimal (value : Nat) : Octets :=
  if value < 16 then [hexDigit value]
  else hexadecimal (value / 16) ++ [hexDigit (value % 16)]

end Text

namespace Address

/-- The first four octets in dotted form. -/
def dotted (octets : Octets) : Octets :=
  Text.joinWith 46 (octets.map fun octet => Text.decimal octet.toNat)

/-- The eight 16-bit groups of an address. -/
def groups (address : Address) : List Nat :=
  (List.range 8).map fun i =>
    (address.toList.getD (2 * i) 0).toNat * 256 + (address.toList.getD (2 * i + 1) 0).toNat

/-- How many zero groups a list starts with. -/
def leadingZeros (groups : List Nat) : Nat :=
  (groups.takeWhile (· == 0)).length

/-- Start and length of the first longest run of zero groups, if it is worth
shortening. -/
def zeroRun (groups : List Nat) : Option (Nat × Nat) :=
  let longest := (List.range groups.length).foldl
    (fun (best : Nat × Nat) start =>
      let length := leadingZeros (groups.drop start)
      if best.2 < length then (start, length) else best) (0, 0)
  if longest.2 < 2 then none else some longest

/-- The groups in hexadecimal, with colons between them. -/
def groupsText (groups : List Nat) : Octets :=
  Text.joinWith 58 (groups.map Text.hexadecimal)

def ipv6Text (address : Address) : Octets :=
  let groups := address.groups
  match zeroRun groups with
  | none => groupsText groups
  | some (start, length) =>
    if start = 0 ∧ length = 6 then
      ascii "::" ++ dotted (address.toList.drop 12)
    else if start = 0 ∧ length = 5 ∧ groups[5]? = some 0xffff then
      ascii "::ffff:" ++ dotted (address.toList.drop 12)
    else
      groupsText (groups.take start) ++ ascii "::" ++ groupsText (groups.drop (start + length))

end Address

namespace Endpoint

/-- The address alone, without port and scope. -/
def addressText (endpoint : Endpoint) : Octets :=
  match endpoint.family with
  | .ipv4 => Address.dotted (endpoint.address.toList.take 4)
  | .ipv6 => endpoint.address.ipv6Text

/-- An endpoint around a given text of its address. -/
def frame (endpoint : Endpoint) (address : Octets) : Octets :=
  match endpoint.family with
  | .ipv4 => address ++ 58 :: Text.decimal endpoint.port.toNat
  | .ipv6 =>
    let scope := if endpoint.scope = 0 then [] else 37 :: Text.decimal endpoint.scope.toNat
    91 :: (address ++ scope ++ ascii "]:" ++ Text.decimal endpoint.port.toNat)

def text (endpoint : Endpoint) : Octets :=
  endpoint.frame endpoint.addressText

end Endpoint

end TftpServer
