import TftpServer.Proofs.Store.Steady
import TftpServer.Proofs.Transfer.Run

/-! # Steps that see the essence of the world only

Over a steady way of reading, what a step does to the transfer, what it sends
and whether it faults depends on nothing else in the world, and the step keeps
that part of the world as it is.
-/

namespace TftpServer

variable {ω σ τ : Type}

/-- Two steps that differ in the world at most. -/
structure Step.Agrees (first second : Step ω σ) : Prop where
  transfer : first.transfer = second.transfer
  sent : first.sent = second.sent
  fault : first.fault = second.fault

/-- A step that depends on the essence of the world only, and keeps it. -/
structure Step.Oblivious (essence : ω → τ) (step : ω → Step ω σ) : Prop where
  keeps : ∀ world, essence (step world).world = essence world
  agrees : ∀ {world other}, essence world = essence other → (step world).Agrees (step other)

theorem Step.Oblivious.world {essence : ω → τ} {step : ω → Step ω σ}
    (hstep : Step.Oblivious essence step) {world other : ω} (hworld : essence world = essence other) :
    essence (step world).world = essence (step other).world := by
  rw [hstep.keeps, hstep.keeps, hworld]

namespace Transfer

variable {essence : ω → τ} {reading : Reading ω σ} (transfer : Transfer σ)

theorem oblivious_const (sent : List Octets) (fault : Option Fault) :
    Step.Oblivious essence fun world => { transfer, world, sent, fault } where
  keeps _ := rfl
  agrees _ := ⟨rfl, rfl, rfl⟩

theorem fail_oblivious (detail : Octets) (reply : Option Message) :
    Step.Oblivious essence fun world => transfer.fail world detail reply := by
  unfold fail
  split
  · exact oblivious_const _ _ _
  · split
    · exact oblivious_const _ _ _
    · exact oblivious_const _ _ _

theorem sendBlock_oblivious (octets : Octets) (now : Time) :
    Step.Oblivious essence fun world => transfer.sendBlock world octets now := by
  unfold sendBlock
  dsimp only
  split
  · exact oblivious_const _ _ _
  · exact oblivious_const _ _ _

theorem timeout_oblivious (now : Time) :
    Step.Oblivious essence fun world => transfer.timeout world now := by
  unfold timeout
  split
  · exact oblivious_const _ _ _
  · split
    · exact fail_oblivious _ _ _
    · exact oblivious_const _ _ _

theorem timeout_world (world : ω) (now : Time) : (transfer.timeout world now).world = world :=
  have honce : Step.Oblivious id fun world : ω => transfer.timeout world now :=
    transfer.timeout_oblivious now
  honce.keeps world

theorem timeout_agrees (world other : ω) (now : Time) :
    (transfer.timeout world now).Agrees (transfer.timeout other now) :=
  have hblind : Step.Oblivious (fun _ => ()) fun world : ω => transfer.timeout world now :=
    transfer.timeout_oblivious now
  hblind.agrees rfl

theorem receiveMalformed_oblivious (status : DecodeStatus) :
    Step.Oblivious essence fun world => transfer.receiveMalformed world status := by
  unfold receiveMalformed
  split
  · exact oblivious_const _ _ _
  · exact fail_oblivious _ _ _

theorem sendRead_oblivious (reply : ReadReply) (now : Time) :
    Step.Oblivious essence fun world => transfer.sendRead world reply now := by
  unfold sendRead
  split
  · exact fail_oblivious _ _ _
  · split
    · exact fail_oblivious _ _ _
    · exact sendBlock_oblivious _ _ _

section Reading

variable (hreading : reading.Steady essence)

include hreading

theorem sendData_oblivious (now : Time) :
    Step.Oblivious essence fun world => transfer.sendData reading world now := by
  cases hsource : transfer.source with
  | none =>
      simp only [sendData_of_none _ now _ hsource]
      exact oblivious_const _ _ _
  | some source =>
      have hkept := hreading.read_essence source
        (transfer.position.offset transfer.settings.blockSize) transfer.settings.blockSize
      constructor
      · intro world
        rw [sendData_of_source world now reading hsource]
        exact ((sendRead_oblivious _ _ now).keeps _).trans (hkept world)
      · intro world other hworld
        have hafter := (hkept world).trans (hworld.trans (hkept other).symm)
        have hreply := hreading.read_agrees source
          (transfer.position.offset transfer.settings.blockSize) transfer.settings.blockSize hworld
        rcases hread : reading.read source (transfer.position.offset transfer.settings.blockSize)
          transfer.settings.blockSize world with ⟨reply, next, after⟩
        rcases hother : reading.read source (transfer.position.offset transfer.settings.blockSize)
          transfer.settings.blockSize other with ⟨otherReply, otherNext, otherAfter⟩
        simp only [hread, hother] at hreply hafter
        obtain ⟨rfl, rfl⟩ := hreply
        rw [sendData_of_source world now reading hsource,
          sendData_of_source other now reading hsource, hread, hother]
        -- Both steps now go on with the same reply.
        exact (sendRead_oblivious _ _ now).agrees hafter

theorem acknowledge_oblivious (block : UInt16) (now : Time) :
    Step.Oblivious essence fun world => transfer.acknowledge reading world block now := by
  unfold acknowledge
  dsimp only
  split
  · split
    · exact fail_oblivious _ _ _
    · exact sendData_oblivious _ hreading now
  · split
    · split
      · exact oblivious_const _ _ _
      · exact sendData_oblivious _ hreading now
    · split
      · exact oblivious_const _ _ _
      · exact fail_oblivious _ _ _

theorem receive_oblivious (message : Message) (now : Time) :
    Step.Oblivious essence fun world => transfer.receive reading world message now := by
  unfold receive
  split
  · exact oblivious_const _ _ _
  · split
    · exact fail_oblivious _ _ _
    · exact oblivious_const _ _ _
    · exact acknowledge_oblivious _ hreading _ _
    · exact oblivious_const _ _ _
    · exact fail_oblivious _ _ _

theorem handle_oblivious (event : Event) :
    Step.Oblivious essence fun world => transfer.handle reading world event := by
  cases event with
  | packet message now => exact receive_oblivious transfer hreading message now
  | malformed status => exact receiveMalformed_oblivious transfer status
  | timeout now => exact timeout_oblivious transfer now

theorem start_oblivious (now : Time) :
    Step.Oblivious essence fun world => transfer.start reading world now := by
  unfold start
  split
  · exact oblivious_const _ _ _
  · split
    · split
      · exact oblivious_const _ _ _
      · exact oblivious_const _ _ _
    · exact sendData_oblivious _ hreading now

end Reading

end Transfer

end TftpServer
