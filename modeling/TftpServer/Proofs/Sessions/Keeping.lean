import TftpServer.Proofs.Sessions.Calls
import TftpServer.Proofs.Transfer.FailedRead

/-! # What the calls on a store keep

A step of a transfer touches the world in the one read that it makes, if it makes
one, and a call on the sessions in that and in opening a name. So what reading and
opening keep is kept by every call.
-/

namespace TftpServer

variable {ω σ : Type}

/-- Reading does not break what holds of the world. -/
def Reading.Keeps (reading : Reading ω σ) (kept : ω → Prop) : Prop :=
  ∀ source offset count world, kept world → kept (reading.read source offset count world).2.2

/-- Neither does opening a name. -/
structure Store.Keeps (store : Store ω σ) (kept : ω → Prop) : Prop where
  reading : store.toReading.Keeps kept
  openStream : ∀ name mode world, kept world → kept (store.openStream name mode world).2

namespace Transfer

variable {reading : Reading ω σ} {kept : ω → Prop} (hreading : reading.Keeps kept)
  {world : ω} (hworld : kept world)

include hreading hworld

theorem sendData_keeps (transfer : Transfer σ) (now : Time) :
    kept (transfer.sendData reading world now).world := by
  cases hsource : transfer.source with
  | none =>
      rw [sendData_of_none world now reading hsource]
      exact hworld
  | some source =>
      have hread := hreading source (transfer.position.offset transfer.settings.blockSize)
        transfer.settings.blockSize world hworld
      rw [sendData_of_source world now reading hsource]
      dsimp only
      rw [sendRead_world]
      exact hread

/-- A step keeps it, since it comes down to one read or none. -/
theorem Demands.keeps {transfer : Transfer σ} {step : ∀ ω : Type, Reading ω σ → ω → Step ω σ}
    (hstep : Demands transfer step) : kept (step ω reading world).world := by
  obtain ⟨demand, _, hanswer⟩ := hstep
  rw [hanswer]
  cases demand with
  | settled transfer sent fault => exact hworld
  | block transfer now => exact sendData_keeps hreading hworld transfer now

end Transfer

namespace Sessions

variable {store : Store ω σ} {kept : ω → Prop}

theorem receive_keeps (hstore : store.Keeps kept) (config : EngineConfig) {sessions : Sessions ω σ}
    (hworld : kept sessions.world) (datagram : Octets) (peer : Endpoint) (now : Time) :
    kept (sessions.receive store config datagram peer now).sessions.world := by
  have hreceipt := receive_receipt store config sessions datagram peer now
  generalize sessions.receive store config datagram peer now = outcome at hreceipt
  cases hreceipt with
  | handled transfer hfind =>
      rw [settle_world _ (by simp [hfind])]
      exact (transfer.handle_demands _).keeps hstore.reading hworld
  | noted level note hnote => exact hworld
  | refused opcode request world note code text hfind hdecode hafter htext hnote =>
      rw [refuse_sessions]
      rcases hafter with rfl | rfl
      · exact hworld
      · exact hstore.openStream _ _ _ hworld
  | opened request opened source world note hfind hdecode hopen herror hsource hnote =>
      have hopened : kept (opened, world).2 := by
        rw [← hopen]
        exact hstore.openStream _ _ _ hworld
      change kept (sessions.enroll store peer _ world now).sessions.world
      rw [enroll, settle_world _ (by simp)]
      exact (Transfer.start_demands _ now).keeps hstore.reading hopened

end Sessions

end TftpServer
