import TftpServer.Network.Host

/-! # Candidate addresses

A host name may stand for several local addresses. They are tried in order,
each at most once, and the first one that can be bound is used. A descriptor
whose binding fails is closed again.
-/

namespace TftpServer

/-- The candidates still to be tried, and why the last one tried failed. -/
structure Candidates where
  remaining : List Endpoint
  lastError : Option Octets := none

namespace Candidates

variable {ω : Type}

/-- The candidates for a local host and port. -/
def find (host : Host ω) (name port : Octets) (world : ω) : Except Octets Candidates :=
  match host.lookup name port world with
  | .ok remaining => .ok { remaining }
  | .error reason => .error (ascii "address lookup failed: " ++ reason)

def hasMore (candidates : Candidates) : Bool := !candidates.remaining.isEmpty

/-- Tries the next candidate: the bound descriptor, or nothing. -/
def tryNext (host : Host ω) (candidates : Candidates) (world : ω) :
    Option Descriptor × Candidates × ω :=
  match candidates.remaining with
  | [] => (none, candidates, world)
  | address :: remaining =>
    match host.create address.family world with
    | (.error reason, world) => (none, ⟨remaining, some reason⟩, world)
    | (.ok descriptor, world) =>
      match host.bind descriptor address world with
      | (.error reason, world) =>
        (none, ⟨remaining, some reason⟩, host.close descriptor world)
      | (.ok _, world) => (some descriptor, ⟨remaining, none⟩, world)

/-- Why the last candidate failed; without a failure there was none to use. -/
def errorText (candidates : Candidates) : Octets :=
  candidates.lastError.getD (ascii "no usable local address")

/-- What came of one attempt: whether a candidate was left before it, the
descriptor it gave, and the error text after it. -/
structure Attempt where
  hadMore : Bool
  descriptor : Option Descriptor
  errorText : Octets
  deriving DecidableEq, Repr

/-- Makes a number of attempts in a row, whatever comes of them. -/
def attempts (host : Host ω) (candidates : Candidates) : Nat → ω → List Attempt × Candidates × ω
  | 0, world => ([], candidates, world)
  | count + 1, world =>
    let (descriptor, left, world) := candidates.tryNext host world
    let (later, final, world) := attempts host left count world
    (⟨candidates.hasMore, descriptor, left.errorText⟩ :: later, final, world)

/-- Tries candidates until one can be bound. `count` bounds the tries and is the
number of candidates. -/
def firstBound (host : Host ω) : Nat → Candidates → ω → Option Descriptor × Candidates × ω
  | 0, candidates, world => (none, candidates, world)
  | count + 1, candidates, world =>
    if candidates.hasMore then
      match candidates.tryNext host world with
      | (some descriptor, candidates, world) => (some descriptor, candidates, world)
      | (none, candidates, world) => firstBound host count candidates world
    else (none, candidates, world)

end Candidates

end TftpServer
