import TftpServer.Proofs.Transfer.Awaiting
import TftpServer.Proofs.Transfer.FailedRead

/-! # Acknowledgements by distance

An acknowledgement names its block by sixteen bits, so its distance from the block
in flight is known only up to a multiple of 65536. A transfer takes it for the
block in flight if nothing else is left of the distance, for an earlier block if it
trails by at most 32767, and for one to come otherwise. The numbers may have
wrapped any number of times.
-/

namespace TftpServer

variable {ω σ : Type}

/-- A step that ends its transfer in success, without a word to the peer. -/
structure Step.Completes (step : Step ω σ) : Prop where
  phase : step.transfer.phase = .complete
  source : step.transfer.source = none
  deadline : step.transfer.deadline = none
  inFlight : step.transfer.inFlight = []
  fault : step.fault = none
  sent : step.sent = []

namespace Transfer

/-! ## States in the course of a transfer -/

/-- The states that cues lead to. What becomes of the world from one cue to the
next is open. -/
inductive Reachable (reading : Reading ω σ) (opened : Transfer σ) : Transfer σ → Prop where
  | opened : Reachable reading opened opened
  | taken {transfer : Transfer σ} (world : ω) (cue : Cue)
      (hreachable : Reachable reading opened transfer) :
      Reachable reading opened (transfer.take reading world cue).transfer

theorem Reachable.terms {reading : Reading ω σ} {opened transfer : Transfer σ}
    (hreachable : Reachable reading opened transfer) : transfer.terms = opened.terms := by
  induction hreachable with
  | opened => rfl
  | taken world cue _ ih => exact ((take_demands _ cue).terms reading world).trans ih

/-- A stream is at hand as long as there may be something to read. -/
def Equipped (transfer : Transfer σ) : Prop :=
  transfer.isTerminal = true ∨ ∃ source, transfer.source = some source

theorem fail_equipped {transfer : Transfer σ} (hequipped : transfer.Equipped) (world : ω)
    (detail : Octets) (reply : Option Message) :
    (transfer.fail world detail reply).transfer.Equipped := by
  obtain ⟨_, _, hfail | hfail⟩ := fail_cases transfer world detail reply
  · rw [hfail]
    exact Or.inl rfl
  · rw [hfail]
    exact hequipped

section Equipped

variable (reading : Reading ω σ) {transfer : Transfer σ} (world : ω)

theorem sendData_equipped (hsource : ∃ source, transfer.source = some source) (now : Time) :
    (transfer.sendData reading world now).transfer.Equipped := by
  obtain ⟨source, hsource⟩ := hsource
  rcases sendData_cases reading world now hsource with
    hfetch | ⟨reply, next, after, _, _, _, _, hstep⟩
  · generalize transfer.sendData reading world now = step at hfetch
    cases hfetch with
    | failed reply next | oversized reply next =>
        exact fail_equipped (Or.inr ⟨next, rfl⟩) _ _ _
    | sent reply next => exact Or.inr ⟨next, rfl⟩
  · rw [hstep]
    exact Or.inr ⟨next, rfl⟩

theorem handle_equipped (hequipped : transfer.Equipped) (event : Event) :
    (transfer.handle reading world event).transfer.Equipped := by
  cases hopen : transfer.isTerminal with
  | true =>
      rw [handle_of_isTerminal _ _ _ hopen]
      exact hequipped
  | false =>
      have hsource : ∃ source, transfer.source = some source :=
        hequipped.resolve_left (Bool.eq_false_iff.mp hopen)
      have hreaction := handle_reaction reading world event hopen
      generalize transfer.handle reading world event = step at hreaction
      cases hreaction with
      | ignored | mismatched | repeated => exact Or.inr hsource
      | abandoned | rejected | exhausted => exact fail_equipped hequipped _ _ _
      | confirmed now => exact sendData_equipped reading world hsource now
      | advanced now =>
          apply sendData_equipped
          exact hsource
      | finished => exact Or.inl rfl

theorem start_equipped (hequipped : transfer.Equipped) (now : Time) :
    (transfer.start reading world now).transfer.Equipped := by
  unfold start
  split
  · exact hequipped
  next hfresh =>
    have hphase : transfer.phase = .sendingData :=
      Decidable.not_not.mp fun hphase => hfresh (Or.inl hphase)
    have hsource : ∃ source, transfer.source = some source :=
      hequipped.resolve_left (by simp [isTerminal, hphase])
    split
    · split
      · exact hequipped
      · exact Or.inr hsource
    · exact sendData_equipped reading world hsource now

end Equipped

theorem Reachable.equipped {reading : Reading ω σ} {opened transfer : Transfer σ}
    (hreachable : Reachable reading opened transfer) (hopened : opened.Equipped) :
    transfer.Equipped := by
  induction hreachable with
  | opened => exact hopened
  | taken world cue _ ih =>
      cases cue with
      | start now => exact start_equipped reading world ih now
      | event event => exact handle_equipped reading world ih event

/-! ## Reading on -/

theorem fail_position (transfer : Transfer σ) (world : ω) (detail : Octets)
    (reply : Option Message) :
    (transfer.fail world detail reply).transfer.position = transfer.position := by
  obtain ⟨_, _, hfail | hfail⟩ := fail_cases transfer world detail reply
  · rw [hfail]
    rfl
  · rw [hfail]

section Reads

variable {transfer : Transfer σ} (hsource : ∃ source, transfer.source = some source)

include hsource

theorem sendData_position (reading : Reading ω σ) (world : ω) (now : Time) :
    (transfer.sendData reading world now).transfer.position = transfer.position := by
  obtain ⟨source, hsource⟩ := hsource
  rcases sendData_cases reading world now hsource with hfetch | ⟨_, _, _, _, _, _, _, hstep⟩
  · generalize transfer.sendData reading world now = step at hfetch
    cases hfetch with
    | failed | oversized => exact fail_position _ _ _ _
    | sent => rfl
  · rw [hstep]

/-- Reading a block asks the stream once, at the offset of the block. -/
theorem sendData_record (reading : Reading ω σ) (world : ω × List ReadCall) (now : Time) :
    ∃ reply, (transfer.sendData reading.recorded world now).world.2 =
      world.2 ++ [⟨transfer.position.offset transfer.settings.blockSize,
        transfer.settings.blockSize, reply⟩] := by
  obtain ⟨source, hsource⟩ := hsource
  rcases sendData_cases reading.recorded world now hsource with
    hfetch | ⟨reply, next, after, hread, _, _, _, hstep⟩
  · generalize transfer.sendData reading.recorded world now = step at hfetch
    cases hfetch with
    | failed reply next after failure hread | oversized reply next after hread =>
        rw [fail_world]
        exact ⟨reply, reading.recorded_read hread⟩
    | sent reply next after hread => exact ⟨reply, reading.recorded_read hread⟩
  · rw [hstep]
    exact ⟨reply, reading.recorded_read hread⟩

end Reads

/-! ## The answers -/

/-- What is made of an acknowledgement that trails the block in flight by some
distance: the step, and its reads. -/
structure Answered (transfer : Transfer σ) (world : ω) (lag : Nat) (step : Step ω σ)
    (reads : List ReadCall) : Prop where
  completes : lag = 0 → transfer.finalBlock = true → step.Completes ∧ reads = []
  advances : lag = 0 → transfer.finalBlock = false →
    let number := transfer.position.number
    let blockSize := transfer.settings.blockSize
    step.transfer.position.number = number + 1 ∧
      step.transfer.position.block.toNat = (number + 1) % 65536 ∧
      step.transfer.position.epoch.toNat = (number + 1) / 65536 ∧
      ∃ reply, reads = [⟨UInt64.ofNat (number * blockSize.toNat), blockSize, reply⟩]
  ignores : 1 ≤ lag → lag ≤ 32767 → step = { transfer, world } ∧ reads = []
  fails : 32768 ≤ lag → step.Fails .illegalOperation ∧ reads = []

/-- Any position will do, as long as 64 bits suffice for the next number. -/
theorem handle_ack_answered (reading : Reading ω σ) {transfer : Transfer σ}
    (hphase : transfer.phase = .awaitingAck) (hequipped : transfer.Equipped)
    (hnumber : transfer.position.number + 1 < UInt64.size) (world : ω) (block : UInt16)
    (now : Time) :
    Answered transfer world (transfer.position.lag block)
      (transfer.handle reading world (.packet (.ack block) now))
      (transfer.reads reading world (.event (.packet (.ack block) now))) := by
  have hopen : transfer.isTerminal = false := by
    simp [isTerminal, hphase]
  have hoptions : transfer.phase ≠ .awaitingOptionAck := by
    simp [hphase]
  have hstep := handle_ack_by_lag reading world hopen hoptions block now
  have hrecord := handle_ack_by_lag reading.recorded (world, []) hopen hoptions block now
  constructor
  case completes =>
    intro hlag hfinal
    rw [if_pos hlag, if_pos hfinal] at hstep hrecord
    rw [hstep, reads, take, hrecord]
    exact ⟨⟨rfl, rfl, rfl, rfl, rfl, rfl⟩, rfl⟩
  case advances =>
    intro hlag hfull number blockSize
    rw [if_pos hlag, if_neg (Bool.eq_false_iff.mp hfull)] at hstep hrecord
    let moved := { transfer with position := transfer.position.next }
    have hsource : ∃ source, moved.source = some source :=
      hequipped.resolve_left (Bool.eq_false_iff.mp hopen)
    have hmoved : moved.position = .ofNumber (number + 1) := transfer.position.next_eq_ofNumber
    have hposition : (moved.sendData reading world now).transfer.position.number = number + 1 := by
      rw [sendData_position hsource, hmoved, BlockPosition.number_ofNumber hnumber]
    obtain ⟨reply, hreply⟩ := sendData_record hsource reading (world, []) now
    rw [hmoved, BlockPosition.offset_ofNumber hnumber] at hreply
    rw [hstep, reads, take, hrecord, BlockPosition.toNat_block, BlockPosition.toNat_epoch, hposition]
    exact ⟨rfl, rfl, rfl, reply, hreply⟩
  case ignores =>
    intro hpositive hbound
    rw [if_neg (Nat.one_le_iff_ne_zero.mp hpositive), if_pos hbound] at hstep hrecord
    rw [hstep, reads, take, hrecord]
    exact ⟨rfl, rfl⟩
  case fails =>
    intro hahead
    rw [if_neg (by omega), if_neg (by omega)] at hstep hrecord
    rw [hstep, reads, take, hrecord, fail_world]
    exact ⟨fail_error_fails _ _ _ (ErrorCode.printable_text .illegalOperation).nul_notMem, rfl⟩

end Transfer

/-! ## A stream without an end -/

/-- A stream that never ends: each read gives as many zeros as it asked for. -/
def Reading.endless : Reading Unit Unit where
  read _ _ count world := ({ octets := List.replicate count.toNat 0 }, (), world)
  length _ _ := none

namespace Transfer

section Endless

/-- The transfer of the endless stream on some settings, as it stands after so
many acknowledgements. -/
def passing (settings : Settings) : Nat → Transfer Unit
  | 0 => ((create .zero () {} settings).take Reading.endless () (.start 0)).transfer
  | acknowledged + 1 =>
    let block := UInt16.ofNat (acknowledged + 1)
    ((passing settings acknowledged).take Reading.endless () (.event (.packet (.ack block) 0))).transfer

theorem passing_reachable (settings : Settings) (acknowledged : Nat) :
    Reachable .endless (create .zero () {} settings) (passing settings acknowledged) := by
  induction acknowledged with
  | zero => exact .taken () _ .opened
  | succ acknowledged ih => exact .taken () _ ih

/-- A transfer of the endless stream that waits for the answer to a block. -/
structure Midway (settings : Settings) (number : Nat) (transfer : Transfer Unit) : Prop where
  phase : transfer.phase = .awaitingAck
  finalBlock : transfer.finalBlock = false
  source : transfer.source = some ()
  settings : transfer.settings = settings
  position : transfer.position = .ofNumber number

/-- The endless stream fills every block. -/
theorem sendData_endless {settings : Settings} (hsize : settings.blockSize ≤ maxBlockSize)
    {number : Nat} {transfer : Transfer Unit} (hsource : transfer.source = some ())
    (hsettings : transfer.settings = settings) (hposition : transfer.position = .ofNumber number)
    (now : Time) : Midway settings number (transfer.sendData Reading.endless () now).transfer := by
  have hfetch := sendData_fetch .endless () now hsource (hsettings ▸ hsize)
  generalize transfer.sendData Reading.endless () now = step at hfetch
  cases hfetch with
  | failed reply next after failure hread herror =>
      cases hread
      cases herror
  | oversized reply next after hread _ hlength =>
      cases hread
      simp at hlength
  | sent reply next after hread =>
      cases hread
      exact ⟨rfl, by simp [sendInFlight], rfl, hsettings, hposition⟩

theorem passing_midway {settings : Settings} (hsize : settings.blockSize ≤ maxBlockSize)
    (acknowledged : Nat) : Midway settings (acknowledged + 1) (passing settings acknowledged) := by
  induction acknowledged with
  | zero =>
      have hdata : passing settings 0 =
          ((create .zero () {} settings).sendData Reading.endless () 0).transfer := rfl
      rw [hdata]
      exact sendData_endless hsize rfl rfl BlockPosition.ofNumber_one.symm 0
  | succ acknowledged ih =>
      have hblock : UInt16.ofNat (acknowledged + 1) = (passing settings acknowledged).position.block :=
        congrArg BlockPosition.block ih.position.symm
      have hlag := (BlockPosition.lag_eq_zero_iff _ _).mpr hblock
      have hnext : (passing settings acknowledged).position.next = .ofNumber (acknowledged + 2) := by
        rw [ih.position, BlockPosition.next_ofNumber]
      rw [passing, take, handle_ack_by_lag .endless () (by simp [isTerminal, ih.phase])
        (by simp [ih.phase]), if_pos hlag, if_neg (Bool.eq_false_iff.mp ih.finalBlock)]
      refine sendData_endless hsize ?_ ?_ hnext 0
      · exact ih.source
      · exact ih.settings

end Endless

/-! ## At any number -/

/-- A transfer tells the block in flight from the 32767 blocks before it and from
the 32768 blocks after it, however often the numbers have wrapped. -/
theorem acknowledgement_decided_by_lag (reading : Reading ω σ) (peer : Endpoint) (source : σ)
    (accepted : Acceptance) (settings : Settings) {transfer : Transfer σ}
    (hreachable : Reachable reading (create peer source accepted settings) transfer)
    (hphase : transfer.phase = .awaitingAck)
    (hnumber : transfer.position.number + 1 < UInt64.size) (world : ω) (now : Time) :
    let number := transfer.position.number
    let acked (block : UInt16) : Event := .packet (.ack block) now
    transfer.settings = settings ∧
    (∀ block, Answered transfer world (transfer.position.lag block)
      (transfer.handle reading world (acked block))
      (transfer.reads reading world (.event (acked block)))) ∧
    (∀ earlier, earlier < number → number ≤ earlier + 32767 →
      transfer.handle reading world (acked (UInt16.ofNat earlier)) = { transfer, world }) ∧
    (∀ later, number < later → later ≤ number + 32768 →
      (transfer.handle reading world (acked (UInt16.ofNat later))).Fails .illegalOperation) := by
  intro number acked
  have hequipped : transfer.Equipped := hreachable.equipped (Or.inr ⟨source, rfl⟩)
  have hanswered (block : UInt16) :=
    handle_ack_answered reading hphase hequipped hnumber world block now
  refine ⟨congrArg (fun terms => terms.2.2) hreachable.terms, hanswered, ?_, ?_⟩
  · intro earlier hearlier hwindow
    have hlag := transfer.position.lag_ofNat_earlier hearlier.le (hwindow.trans_lt (by omega))
    exact ((hanswered _).ignores (by omega) (by omega)).1
  · intro later hlater hwindow
    have hlag := transfer.position.lag_ofNat_later hlater (hwindow.trans (by omega))
    exact ((hanswered _).fails (by omega)).1

/-- Past the first wrap, where block 65538 has number 2: the acknowledgement of the
third block before is ignored, that of the next one is refused, and its own leads on. -/
theorem acknowledgement_decided_past_a_wrap :
    let transfer := passing {} 65537
    let acked (block : UInt16) : Event := .packet (.ack block) 9
    Reachable .endless (create .zero () {} {}) transfer ∧
      transfer.phase = .awaitingAck ∧
      transfer.position.number = 65538 ∧
      transfer.handle Reading.endless () (acked 65535) = { transfer, world := () } ∧
      (transfer.handle Reading.endless () (acked 3)).Fails .illegalOperation ∧
      (transfer.handle Reading.endless () (acked 2)).transfer.position.number = 65539 ∧
      ∃ reply, transfer.reads .endless () (.event (acked 2)) = [⟨33555456, 512, reply⟩] := by
  intro transfer acked
  have hmidway : Midway {} 65538 transfer := passing_midway (by decide) 65537
  have hreachable : Reachable .endless (create .zero () {} {}) transfer := passing_reachable {} 65537
  clear_value transfer
  have hnumber : transfer.position.number = 65538 := by
    rw [hmidway.position, BlockPosition.number_ofNumber (by decide)]
  have hlag : transfer.position.lag 2 = 0 := by
    rw [BlockPosition.lag_eq_zero_iff, hmidway.position]
    rfl
  have hdecided := acknowledgement_decided_by_lag .endless .zero () {} {} hreachable hmidway.phase
    (by rw [hnumber]; decide) () 9
  obtain ⟨hsettings, hanswered, hearlier, hlater⟩ := hdecided
  rw [hnumber] at hearlier hlater
  obtain ⟨hmoved, _, _, reply, hreads⟩ := (hanswered 2).advances hlag hmidway.finalBlock
  rw [hnumber, hsettings] at hreads
  exact ⟨hreachable, hmidway.phase, hnumber, hearlier 65535 (by decide) (by decide),
    hlater 65539 (by decide) (by decide), by rw [hmoved, hnumber], reply, hreads⟩

end Transfer

end TftpServer
