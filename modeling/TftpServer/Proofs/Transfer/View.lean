import TftpServer.Proofs.Store.View
import TftpServer.Proofs.Transfer.Demand

/-! # Steps in a larger world

A step in a larger world does to the transfer, and to the part of the world that
its stream lives in, what the step in that part does.
-/

namespace TftpServer

variable {ω τ σ : Type}

/-- The same step with another view of the world. -/
def Step.map (view : τ → ω) (step : Step τ σ) : Step ω σ where
  transfer := step.transfer
  world := view step.world
  sent := step.sent
  fault := step.fault

namespace Transfer

variable {view : τ → ω} {outer : Reading τ σ} {inner : Reading ω σ} (transfer : Transfer σ)

theorem fail_map (view : τ → ω) (world : τ) (detail : Octets) (reply : Option Message) :
    (transfer.fail world detail reply).map view = transfer.fail (view world) detail reply := by
  unfold fail
  split
  · rfl
  · split <;> rfl

theorem timeout_map (view : τ → ω) (world : τ) (now : Time) :
    (transfer.timeout world now).map view = transfer.timeout (view world) now := by
  unfold timeout
  split
  · rfl
  · split
    · exact fail_map transfer view world _ _
    · rfl

theorem sendBlock_map (view : τ → ω) (world : τ) (octets : Octets) (now : Time) :
    (transfer.sendBlock world octets now).map view = transfer.sendBlock (view world) octets now := by
  unfold sendBlock
  dsimp only
  split <;> rfl

theorem sendRead_map (view : τ → ω) (world : τ) (reply : ReadReply) (now : Time) :
    (transfer.sendRead world reply now).map view = transfer.sendRead (view world) reply now := by
  unfold sendRead
  split
  · exact fail_map _ view world _ _
  · split
    · exact fail_map _ view world _ _
    · exact sendBlock_map _ view world _ now

theorem sendData_map (hreading : outer.Carries view inner) (world : τ) (now : Time) :
    (transfer.sendData outer world now).map view = transfer.sendData inner (view world) now := by
  cases hsource : transfer.source with
  | none =>
      rw [sendData_of_none world now outer hsource,
        sendData_of_none (view world) now inner hsource]
      rfl
  | some source =>
      have hread := hreading.read source (transfer.position.offset transfer.settings.blockSize)
        transfer.settings.blockSize world
      rcases houter : outer.read source (transfer.position.offset transfer.settings.blockSize)
        transfer.settings.blockSize world with ⟨reply, next, after⟩
      simp only [houter] at hread
      rw [sendData_of_source world now outer hsource,
        sendData_of_source (view world) now inner hsource, houter, hread]
      exact sendRead_map _ view after reply now

variable {transfer}

theorem Demands.map {step : ∀ ω : Type, Reading ω σ → ω → Step ω σ}
    (hstep : Demands transfer step) (hreading : outer.Carries view inner) (world : τ) :
    (step τ outer world).map view = step ω inner (view world) := by
  obtain ⟨demand, _, hanswer⟩ := hstep
  rw [hanswer, hanswer]
  cases demand with
  | settled next sent fault => rfl
  | block next now => exact next.sendData_map hreading world now

end Transfer

end TftpServer
