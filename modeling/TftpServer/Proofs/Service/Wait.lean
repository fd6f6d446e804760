import Mathlib.Algebra.Order.Ring.Rat
import Mathlib.Data.Rat.Floor
import TftpServer.Proofs.Sessions.Table
import TftpServer.Service

/-! # Waits

How long a service waits follows from the deadlines of its transfers: not at all
if one of them has passed, and else up to the earliest, in whole milliseconds, as
long as that is not too far away. So it never sleeps past the first millisecond
that is not before a deadline.
-/

namespace TftpServer

variable {σ : Type} {table : SessionTable σ}

/-- How many milliseconds to wait at a time. -/
structure RightWait (table : SessionTable σ) (now : Time) (wait : Nat) : Prop where
  passed : ∀ deadline, table.Due deadline → deadline ≤ now → wait = 0
  ahead : ∀ deadline, IsLeast {due | table.Due due} deadline → now < deadline →
    wait = min ⌈((deadline - now : Int) : Rat) / 1000000⌉₊ 250
  idle : (∀ deadline, ¬ table.Due deadline) → wait = 250
  punctual : ∀ deadline, table.Due deadline → ∀ count : Nat,
    deadline ≤ now + milliseconds count → wait ≤ count

end TftpServer
