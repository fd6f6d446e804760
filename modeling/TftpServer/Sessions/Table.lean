import TftpServer.Transfer.Basic

/-! # The session table

One socket serves all peers, so the running transfers are kept by peer. Besides
looking them up, the table knows whose timers have run out and when the next
one will.
-/

namespace TftpServer

/-- The running transfers by peer. A peer occurs at most once, and nothing
depends on the order. -/
abbrev SessionTable (σ : Type) := List (Endpoint × Transfer σ)

namespace SessionTable

variable {σ : Type}

def find? (table : SessionTable σ) (peer : Endpoint) : Option (Transfer σ) :=
  table.lookup peer

/-- Replaces the transfer of a peer that has one. -/
def update (table : SessionTable σ) (peer : Endpoint) (transfer : Transfer σ) : SessionTable σ :=
  table.map fun (other, current) => if other = peer then (other, transfer) else (other, current)

def erase (table : SessionTable σ) (peer : Endpoint) : SessionTable σ :=
  table.filter (·.1 ≠ peer)

/-- The peers whose deadline is at or before a time. -/
def expired (table : SessionTable σ) (now : Time) : List Endpoint :=
  table.filterMap fun (peer, transfer) =>
    match transfer.deadline with
    | some deadline => if deadline ≤ now then some peer else none
    | none => none

def nextDeadline (table : SessionTable σ) : Option Time :=
  (table.filterMap (·.2.deadline)).min?

end SessionTable

end TftpServer
