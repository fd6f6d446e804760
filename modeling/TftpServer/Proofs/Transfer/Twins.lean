import TftpServer.Proofs.Store.Alike
import TftpServer.Proofs.Transfer.Demand

/-! # Steps in worlds that answer alike

Where a stream is answered alike in two worlds, its transfer takes the same step
in both. Only the reading of a block has to be looked at for this, since no event
asks for anything else.
-/

namespace TftpServer

variable {ω σ : Type} {trusted : σ → Prop} {first second : ω} {reading : Reading ω σ}

/-- A transfer that holds no stream but a trusted one. -/
def Transfer.Trusts (trusted : σ → Prop) (transfer : Transfer σ) : Prop :=
  ∀ source, transfer.source = some source → trusted source

/-- The same step in both worlds. -/
inductive Step.Twins (trusted : σ → Prop) (first second : ω) : Step ω σ → Step ω σ → Prop where
  | intro (transfer : Transfer σ) (sent : List Octets) (fault : Option Fault)
      (htrusts : transfer.Trusts trusted) :
      Twins trusted first second { transfer, world := first, sent, fault }
        { transfer, world := second, sent, fault }

namespace Transfer

variable {transfer : Transfer σ}

theorem trusts_of_source_eq_none (hsource : transfer.source = none) : transfer.Trusts trusted :=
  fun _ hsome => nomatch hsource.symm.trans hsome

theorem fail_twins (htrusts : transfer.Trusts trusted) (detail : Octets) (reply : Option Message) :
    Step.Twins trusted first second (transfer.fail first detail reply)
      (transfer.fail second detail reply) := by
  unfold fail
  split
  · exact .intro _ _ _ (trusts_of_source_eq_none rfl)
  · split
    · exact .intro _ _ _ (trusts_of_source_eq_none rfl)
    · exact .intro _ _ _ htrusts

theorem sendBlock_twins (htrusts : transfer.Trusts trusted) (octets : Octets) (now : Time) :
    Step.Twins trusted first second (transfer.sendBlock first octets now)
      (transfer.sendBlock second octets now) := by
  unfold sendBlock
  dsimp only
  split
  · exact .intro _ _ _ htrusts
  · exact .intro _ _ _ htrusts

theorem sendRead_twins (htrusts : transfer.Trusts trusted) (reply : ReadReply) (now : Time) :
    Step.Twins trusted first second (transfer.sendRead first reply now)
      (transfer.sendRead second reply now) := by
  unfold sendRead
  split
  · exact fail_twins htrusts _ _
  · split
    · exact fail_twins htrusts _ _
    · exact sendBlock_twins htrusts _ now

theorem sendData_twins (hreading : reading.Alike trusted first second)
    (htrusts : transfer.Trusts trusted) (now : Time) :
    Step.Twins trusted first second (transfer.sendData reading first now)
      (transfer.sendData reading second now) := by
  cases hsource : transfer.source with
  | none =>
      rw [sendData_of_none first now reading hsource, sendData_of_none second now reading hsource]
      exact .intro _ _ _ htrusts
  | some source =>
      obtain ⟨reply, next, hnext, hfirst, hsecond⟩ := hreading.read source
        (transfer.position.offset transfer.settings.blockSize) transfer.settings.blockSize
        (htrusts source hsource)
      have hheld : { transfer with source := some next }.Trusts trusted := fun other hother =>
        Option.some.inj hother ▸ hnext
      rw [sendData_of_source first now reading hsource,
        sendData_of_source second now reading hsource, hfirst, hsecond]
      exact sendRead_twins hheld reply now

theorem Demands.twins {step : ∀ ω : Type, Reading ω σ → ω → Step ω σ}
    (hstep : Demands transfer step) (hreading : reading.Alike trusted first second)
    (htrusts : transfer.Trusts trusted) :
    Step.Twins trusted first second (step ω reading first) (step ω reading second) := by
  obtain ⟨demand, hdemand, hanswer⟩ := hstep
  have hheld : demand.transfer.Trusts trusted := by
    rcases hdemand.source with hsource | hsource
    · exact fun source hsome => htrusts source (hsource.symm.trans hsome)
    · exact trusts_of_source_eq_none hsource
  rw [hanswer, hanswer]
  cases demand with
  | settled next sent fault => exact .intro _ _ _ hheld
  | block next now => exact sendData_twins hreading hheld now

end Transfer

end TftpServer
