import TftpServer.Endpoint.Basic

/-! # Socket addresses

The octet layout in which the network calls take and give endpoints. The
family is a little-endian 16-bit number, the port big-endian, the IPv6 scope
little-endian. Octets that carry no part of an endpoint (padding, the IPv6 flow
label) are written as zero and ignored on reading.
-/

namespace TftpServer

/-- A socket address as a receiving call leaves it. Octets beyond the list are
zero. -/
abbrev SocketAddress := Octets

namespace SocketAddress

/-- The number of the IPv4 family. -/
def familyIpv4 : Nat := 2

/-- The number of the IPv6 family. -/
def familyIpv6 : Nat := 10

def octetAt (address : SocketAddress) (position : Nat) : UInt8 :=
  address.getD position 0

def familyNumber (address : SocketAddress) : Nat :=
  (address.octetAt 0).toNat + 256 * (address.octetAt 1).toNat

def port (address : SocketAddress) : UInt16 :=
  UInt16.ofNat ((address.octetAt 2).toNat * 256 + (address.octetAt 3).toNat)

def scope (address : SocketAddress) : UInt32 :=
  UInt32.ofNat ((address.octetAt 24).toNat + 256 * (address.octetAt 25).toNat
    + 65536 * (address.octetAt 26).toNat + 16777216 * (address.octetAt 27).toNat)

/-- The layout of an endpoint: 16 octets for IPv4, 28 for IPv6. -/
def ofEndpoint (endpoint : Endpoint) : SocketAddress :=
  let port := [UInt8.ofNat (endpoint.port.toNat / 256), UInt8.ofNat (endpoint.port.toNat % 256)]
  match endpoint.family with
  | .ipv4 => [2, 0] ++ port ++ endpoint.address.toList.take 4 ++ List.replicate 8 0
  | .ipv6 =>
    let scope := endpoint.scope.toNat
    [10, 0] ++ port ++ [0, 0, 0, 0] ++ endpoint.address.toList ++
      [UInt8.ofNat (scope % 256), UInt8.ofNat (scope / 256 % 256),
        UInt8.ofNat (scope / 65536 % 256), UInt8.ofNat (scope / 16777216)]

/-- The endpoint that a socket address denotes; none for other families. -/
def toEndpoint? (address : SocketAddress) : Option Endpoint :=
  if address.familyNumber = familyIpv4 then
    some ⟨.ipv4, Address.ofOctets ((List.range 4).map fun i => address.octetAt (4 + i)), address.port, 0⟩
  else if address.familyNumber = familyIpv6 then
    some ⟨.ipv6, Vector.ofFn fun i => address.octetAt (8 + i.val), address.port, address.scope⟩
  else none

end SocketAddress

end TftpServer
