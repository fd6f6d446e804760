import TftpServer.Octets

/-! # Endpoints

An endpoint identifies a UDP peer: address family, address, port, and the scope
of a link-local IPv6 address. Two datagrams belong to the same transfer exactly
when they come from equal endpoints.
-/

namespace TftpServer

inductive Family where
  | ipv4
  | ipv6
  deriving DecidableEq, Repr

/-- Room for an address of either family, in network order. -/
abbrev Address := Vector UInt8 16

/-- The address whose leading octets are given; missing octets are zero. -/
def Address.ofOctets (octets : Octets) : Address :=
  Vector.ofFn fun i => octets.getD i.val 0

/-- A UDP peer. An IPv4 address occupies the first four octets; the port is in
host order. -/
structure Endpoint where
  family : Family
  address : Address
  port : UInt16
  scope : UInt32
  deriving DecidableEq

namespace Endpoint

/-- The IPv4 endpoint with the given four octets, no scope and nothing behind
the address. -/
def ipv4 (a b c d : UInt8) (port : UInt16) : Endpoint :=
  ⟨.ipv4, Address.ofOctets [a, b, c, d], port, 0⟩

def ipv6 (address : Address) (port : UInt16) (scope : UInt32 := 0) : Endpoint :=
  ⟨.ipv6, address, port, scope⟩

/-- The endpoint that stands for no peer. -/
def zero : Endpoint := ipv4 0 0 0 0 0

/-- Every octet that takes part in equality: family, address, port and scope. -/
def identityOctets (endpoint : Endpoint) : Octets :=
  (match endpoint.family with | .ipv4 => 0 | .ipv6 => 1) ::
    (endpoint.address.toList ++
      [(endpoint.port >>> 8).toUInt8, endpoint.port.toUInt8,
        endpoint.scope.toUInt8, (endpoint.scope >>> 8).toUInt8,
        (endpoint.scope >>> 16).toUInt8, (endpoint.scope >>> 24).toUInt8])

/-- The digest under which a hashed table files an endpoint. -/
def hash (endpoint : Endpoint) : UInt64 :=
  fnv1a endpoint.identityOctets

end Endpoint

end TftpServer
