import TftpServer.Proofs.Store.Details
import TftpServer.Proofs.Transfer.Run

/-! # Live transfers

Between two events a started transfer either waits for its peer, with a stream,
a deadline and a datagram to repeat, or it is over and holds none of them. As
long as no failure is explained with a NUL, no event leads out of these two, and
no step faults.
-/

namespace TftpServer

variable {ω σ : Type}

namespace Transfer

/-- A transfer that waits for its peer. -/
structure Live (transfer : Transfer σ) : Prop where
  waiting : transfer.phase = .awaitingOptionAck ∨ transfer.phase = .awaitingAck
  source : ∃ source, transfer.source = some source
  deadline : ∃ deadline, transfer.deadline = some deadline
  inFlight : transfer.inFlight ≠ []
  blockSize : transfer.settings.blockSize ≤ maxBlockSize

structure Released (transfer : Transfer σ) : Prop where
  terminal : transfer.isTerminal = true
  source : transfer.source = none
  deadline : transfer.deadline = none
  inFlight : transfer.inFlight = []

theorem Live.isTerminal_eq_false {transfer : Transfer σ} (hlive : transfer.Live) :
    transfer.isTerminal = false := by
  rcases hlive.waiting with hphase | hphase <;> simp [isTerminal, hphase]

end Transfer

open Transfer

/-- A step without a fault, after which the transfer waits or is over. -/
structure Step.Sound (step : Step ω σ) : Prop where
  fault : step.fault = none
  state : step.transfer.Live ∨ step.transfer.Released

namespace Transfer

theorem release_failed (transfer : Transfer σ) : (transfer.release .failed).Released :=
  ⟨rfl, rfl, rfl, rfl⟩

theorem fail_error_sound (transfer : Transfer σ) (world : ω) (detail : Octets) {code : ErrorCode}
    {text : Octets} (htext : 0 ∉ text) :
    (transfer.fail world detail (some (.error code text))).Sound := by
  obtain ⟨datagram, _, hfail⟩ := fail_error transfer world detail htext
  rw [hfail]
  exact ⟨rfl, Or.inr (release_failed _)⟩

theorem sendInFlight_sound {transfer : Transfer σ} (world : ω) (now : Time)
    (hwaiting : transfer.phase = .awaitingOptionAck ∨ transfer.phase = .awaitingAck)
    (hsource : ∃ source, transfer.source = some source) (hinFlight : transfer.inFlight ≠ [])
    (hsize : transfer.settings.blockSize ≤ maxBlockSize) :
    (sendInFlight transfer world now).Sound :=
  ⟨rfl, Or.inl ⟨hwaiting, hsource, ⟨_, rfl⟩, hinFlight, hsize⟩⟩

theorem sendRead_sound {transfer : Transfer σ} {reply : ReadReply}
    (hreply : reply.error ≠ none → 0 ∉ reply.detail) (world : ω) (now : Time)
    (hsource : ∃ source, transfer.source = some source)
    (hsize : transfer.settings.blockSize ≤ maxBlockSize) :
    (transfer.sendRead world reply now).Sound := by
  unfold sendRead
  split
  next failure herror =>
    apply fail_error_sound
    split
    · exact failure.errorCode.printable_text.nul_notMem
    · exact hreply (by simp [herror])
  next =>
    split
    · exact fail_error_sound _ _ _ (by decide +kernel)
    next hlength =>
      have hfits : reply.octets.length ≤ transfer.settings.blockSize.toNat := Nat.le_of_not_lt hlength
      have hmax : reply.octets.length ≤ maxBlockSize.toNat :=
        Nat.le_trans hfits (UInt64.le_iff_toNat_le.mp hsize)
      simp only [sendBlock, encodeData_eq_ok hfits hmax]
      exact sendInFlight_sound world now (Or.inr rfl) hsource (dataDatagram_ne_nil _ _) hsize

section Reading

variable {reading : Reading ω σ} (hreading : reading.Explains (0 ∉ ·))

include hreading

theorem sendData_sound {transfer : Transfer σ} (world : ω) (now : Time)
    (hsource : ∃ source, transfer.source = some source)
    (hsize : transfer.settings.blockSize ≤ maxBlockSize) :
    (transfer.sendData reading world now).Sound := by
  obtain ⟨source, hsource⟩ := hsource
  rw [sendData_of_source world now reading hsource]
  exact sendRead_sound (hreading source _ _ world) _ now ⟨_, rfl⟩ hsize

theorem handle_sound {transfer : Transfer σ} (hlive : transfer.Live) (world : ω) {event : Event}
    (hevent : ∀ message now, event = .packet message now → message.Coherent) :
    (transfer.handle reading world event).Sound := by
  have hreaction := handle_reaction reading world event hlive.isTerminal_eq_false
  generalize transfer.handle reading world event = step at hreaction
  cases hreaction with
  | ignored => exact ⟨rfl, Or.inl hlive⟩
  -- No decoded message is like this.
  | mismatched message now hmessage => exact absurd (hevent message now rfl) hmessage
  | abandoned code text now => exact ⟨rfl, Or.inr (release_failed _)⟩
  | rejected _ detail _ _ =>
      exact fail_error_sound _ _ _ (ErrorCode.printable_text .illegalOperation).nul_notMem
  | exhausted now detail _ _ => exact ⟨rfl, Or.inr (release_failed _)⟩
  | repeated now _ _ =>
      exact sendInFlight_sound world now hlive.waiting hlive.source hlive.inFlight hlive.blockSize
  | confirmed now _ => exact sendData_sound hreading world now hlive.source hlive.blockSize
  | advanced now _ _ => exact sendData_sound hreading world now hlive.source hlive.blockSize
  | finished now _ _ => exact ⟨rfl, Or.inr ⟨rfl, rfl, rfl, rfl⟩⟩

theorem start_sound (config : EngineConfig) (peer : Endpoint) (source : σ) (length : Option UInt64)
    (requested : List OptionField) (world : ω) (now : Time) :
    ((ofRequest config peer source length requested).start reading world now).Sound := by
  have hsize := (ofRequest_blockSize_bounds config peer source length requested).2
  rcases start_ofRequest config peer source length requested reading world now with
    ⟨_, hstart⟩ | ⟨body, _, hstart⟩
  · rw [hstart]
    exact sendData_sound hreading world now ⟨source, rfl⟩ hsize
  · rw [hstart]
    exact sendInFlight_sound world now (Or.inl rfl) ⟨source, rfl⟩ (by simp [wordOctets]) hsize

end Reading

end Transfer

end TftpServer
