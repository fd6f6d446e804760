import TftpServer.Proofs.Transfer.Run

/-! # What an event demands

An event either has nothing to do with the stream, and then its step is settled
by the state alone, or it asks for a block and does nothing else. So whatever
concerns the stream has to be proved for the reading of one block only, and what
was agreed when the transfer was set up holds to its end.
-/

namespace TftpServer.Transfer

variable {ω σ : Type}

/-- What is agreed when a transfer is set up: its peer, the options that it
announces, and its settings. -/
def terms (transfer : Transfer σ) : Endpoint × List OptionField × Settings :=
  (transfer.peer, transfer.options, transfer.settings)

/-- What an event asks for: a step that is settled without the stream, or the
block at a position. -/
inductive Demand (σ : Type) where
  | settled (transfer : Transfer σ) (sent : List Octets) (fault : Option Fault)
  | block (transfer : Transfer σ) (now : Time)

namespace Demand

def transfer : Demand σ → Transfer σ
  | .settled transfer _ _ => transfer
  | .block transfer _ => transfer

def answer (reading : Reading ω σ) (world : ω) : Demand σ → Step ω σ
  | .settled transfer sent fault => { transfer, world, sent, fault }
  | .block transfer now => transfer.sendData reading world now

/-- A demand keeps what was agreed, and puts no other stream in the place of the
one that the transfer holds. -/
structure Of (demand : Demand σ) (transfer : Transfer σ) : Prop where
  terms : demand.transfer.terms = transfer.terms
  source : demand.transfer.source = transfer.source ∨ demand.transfer.source = none

end Demand

/-- Steps that come down to one demand, however the stream is read and wherever
it lives. -/
def Demands (transfer : Transfer σ) (step : ∀ ω : Type, Reading ω σ → ω → Step ω σ) : Prop :=
  ∃ demand : Demand σ, demand.Of transfer ∧
    ∀ (ω : Type) (reading : Reading ω σ) (world : ω),
      step ω reading world = demand.answer reading world

section Demands

variable (transfer : Transfer σ)

theorem demands_settled {settled : Transfer σ} (hterms : settled.terms = transfer.terms)
    (hsource : settled.source = transfer.source ∨ settled.source = none) (sent : List Octets)
    (fault : Option Fault) :
    Demands transfer fun _ _ world => { transfer := settled, world, sent, fault } :=
  ⟨.settled settled sent fault, ⟨hterms, hsource⟩, fun _ _ _ => rfl⟩

theorem demands_block {next : Transfer σ} (hterms : next.terms = transfer.terms)
    (hsource : next.source = transfer.source) (now : Time) :
    Demands transfer fun _ reading world => next.sendData reading world now :=
  ⟨.block next now, ⟨hterms, Or.inl hsource⟩, fun _ _ _ => rfl⟩

theorem fail_demands (detail : Octets) (reply : Option Message) :
    Demands transfer fun _ _ world => transfer.fail world detail reply := by
  unfold fail
  split
  · exact demands_settled transfer (by rfl) (Or.inr (by rfl)) _ _
  · split
    · exact demands_settled transfer (by rfl) (Or.inr (by rfl)) _ _
    · exact demands_settled transfer (by rfl) (Or.inl (by rfl)) _ _

theorem acknowledge_demands (block : UInt16) (now : Time) :
    Demands transfer fun _ reading world => transfer.acknowledge reading world block now := by
  unfold acknowledge
  dsimp only
  split
  · split
    · exact fail_demands transfer _ _
    · exact demands_block transfer (by rfl) (by rfl) now
  · split
    · split
      · exact demands_settled transfer (by rfl) (Or.inr (by rfl)) _ _
      · exact demands_block transfer (by rfl) (by rfl) now
    · split
      · exact demands_settled transfer (by rfl) (Or.inl (by rfl)) _ _
      · exact fail_demands transfer _ _

theorem receive_demands (message : Message) (now : Time) :
    Demands transfer fun _ reading world => transfer.receive reading world message now := by
  unfold receive
  split
  · exact demands_settled transfer (by rfl) (Or.inl (by rfl)) _ _
  · split
    · exact fail_demands transfer _ _
    · exact demands_settled transfer (by rfl) (Or.inl (by rfl)) _ _
    · exact acknowledge_demands transfer _ now
    · exact demands_settled transfer (by rfl) (Or.inl (by rfl)) _ _
    · exact fail_demands transfer _ _

theorem receiveMalformed_demands (status : DecodeStatus) :
    Demands transfer fun _ _ world => transfer.receiveMalformed world status := by
  unfold receiveMalformed
  split
  · exact demands_settled transfer (by rfl) (Or.inl (by rfl)) _ _
  · exact fail_demands transfer _ _

theorem timeout_demands (now : Time) :
    Demands transfer fun _ _ world => transfer.timeout world now := by
  unfold timeout
  split
  · exact demands_settled transfer (by rfl) (Or.inl (by rfl)) _ _
  · split
    · exact fail_demands transfer _ _
    · exact demands_settled transfer (by rfl) (Or.inl (by rfl)) _ _

/-- Every event comes down to one demand. -/
theorem handle_demands (event : Event) :
    Demands transfer fun _ reading world => transfer.handle reading world event := by
  cases event with
  | packet message now => exact receive_demands transfer message now
  | malformed status => exact receiveMalformed_demands transfer status
  | timeout now => exact timeout_demands transfer now

theorem start_demands (now : Time) :
    Demands transfer fun _ reading world => transfer.start reading world now := by
  unfold start
  split
  · exact demands_settled transfer (by rfl) (Or.inl (by rfl)) _ _
  · split
    · split
      · exact demands_settled transfer (by rfl) (Or.inl (by rfl)) _ _
      · exact demands_settled transfer (by rfl) (Or.inl (by rfl)) _ _
    · exact demands_block transfer (by rfl) (by rfl) now

end Demands

/-! ## What was agreed -/

theorem fail_terms (transfer : Transfer σ) (world : ω) (detail : Octets) (reply : Option Message) :
    (transfer.fail world detail reply).transfer.terms = transfer.terms := by
  obtain ⟨_, _, hfail | hfail⟩ := fail_cases transfer world detail reply
  · rw [hfail]
    rfl
  · rw [hfail]

theorem sendRead_terms (transfer : Transfer σ) (world : ω) (reply : ReadReply) (now : Time) :
    (transfer.sendRead world reply now).transfer.terms = transfer.terms := by
  unfold sendRead
  split
  · exact fail_terms _ _ _ _
  · split
    · exact fail_terms _ _ _ _
    · unfold sendBlock
      dsimp only
      split <;> rfl

theorem sendData_terms (reading : Reading ω σ) (transfer : Transfer σ) (world : ω) (now : Time) :
    (transfer.sendData reading world now).transfer.terms = transfer.terms := by
  cases hsource : transfer.source with
  | none => rw [sendData_of_none world now reading hsource]
  | some source =>
      rw [sendData_of_source world now reading hsource]
      exact sendRead_terms _ _ _ now

theorem Demands.terms {transfer : Transfer σ} {step : ∀ ω : Type, Reading ω σ → ω → Step ω σ}
    (hstep : Demands transfer step) (reading : Reading ω σ) (world : ω) :
    (step ω reading world).transfer.terms = transfer.terms := by
  obtain ⟨demand, hdemand, hanswer⟩ := hstep
  rw [hanswer, ← hdemand.terms]
  cases demand with
  | settled transfer sent fault => rfl
  | block transfer now => exact sendData_terms reading transfer world now

theorem run_terms (reading : Reading ω σ) (transfer : Transfer σ) (world : ω) (now : Time)
    (events : List Event) :
    (transfer.run reading world now events).transfer.terms = transfer.terms := by
  refine run_induction (fun run => run.transfer.terms = transfer.terms) ?_ ?_ events
  · exact (start_demands transfer now).terms reading world
  · intro run event hrun
    exact ((handle_demands run.transfer event).terms reading run.world).trans hrun

end TftpServer.Transfer
