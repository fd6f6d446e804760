import TftpServer.Transfer.Events

/-! # Cooperating peers

A cooperating peer acknowledges whatever is in flight: the option
acknowledgement with block 0, a DATA block with its own number. `cooperate` runs
a transfer against such a peer.
-/

namespace TftpServer.Transfer

variable {ω σ : Type}

/-- The acknowledgement that a transfer is waiting for. -/
def expectedAck (transfer : Transfer σ) : Message :=
  .ack (if transfer.phase = .awaitingOptionAck then 0 else transfer.position.block)

/-- Goes on acknowledging after `acks` acknowledgements, in answer to which the
datagrams `sent` went out, last first. -/
def cooperateFrom (reading : BufferedReading ω σ) (now : Time) (acks : Nat) (sent : List Octets)
    (transfer : Transfer σ) (world : ω) : Nat → Step ω σ × Nat
  | 0 => ({ transfer, world, sent := sent.reverse }, acks)
  | limit + 1 =>
    if transfer.isTerminal then ({ transfer, world, sent := sent.reverse }, acks)
    else
      let step := transfer.receive reading world transfer.expectedAck now
      let sent := step.sent.reverse ++ sent
      match step.fault with
      | some _ => ({ step with sent := sent.reverse }, acks)
      | none => cooperateFrom reading now (acks + 1) sent step.transfer step.world limit

/-- Acknowledges up to `limit` times, until the transfer is over: all of it as
one step, and the number of acknowledgements that were taken without a fault. -/
def cooperate (reading : BufferedReading ω σ) (transfer : Transfer σ) (world : ω) (now : Time)
    (limit : Nat) : Step ω σ × Nat :=
  cooperateFrom reading now 0 [] transfer world limit

end TftpServer.Transfer
