import TftpServer.Proofs.Packet.Readback
import TftpServer.Proofs.Transfer.View

/-! # Failed reads

A stream may fail at any block. Its transfer is then over, and the peer is told
so by an ERROR with the explanation, unless that holds a NUL. Such a text cannot
be sent, and the step breaks off on the way: the transfer is left running with
nothing sent.
-/

namespace TftpServer

variable {ω σ : Type}

/-! ## What becomes of failed reads -/

/-- The reads between two states of a record: there is one at most, and if it
fails, then something fails with its code, or it breaks off over an explanation
that holds a NUL. -/
def Settled (before after : List ReadCall) (fails : ErrorCode → Prop) (breaksOff : Prop) : Prop :=
  ∃ fresh, after = before ++ fresh ∧ fresh.length ≤ 1 ∧
    ∀ call ∈ fresh, ∀ failure, call.reply.error = some failure →
      (0 ∉ call.reply.detail → fails failure.errorCode) ∧ (0 ∈ call.reply.detail → breaksOff)

namespace Settled

variable {before after : List ReadCall} {fails failsToo : ErrorCode → Prop}
  {breaksOff breaksOffToo : Prop}

theorem of_no_read (hsame : after = before) : Settled before after fails breaksOff :=
  ⟨[], by rw [hsame, List.append_nil], Nat.zero_le 1, fun _ hcall => nomatch hcall⟩

/-- What matters of a read is how things go on from its failure. -/
theorem of_read {reading : Reading ω σ} {source next : σ} {offset count : UInt64}
    {world worldAfter : ω × List ReadCall} {reply : ReadReply}
    (hread : reading.recorded.read source offset count world = (reply, next, worldAfter))
    (hfailed : ∀ failure, reply.error = some failure →
      (0 ∉ reply.detail → fails failure.errorCode) ∧ (0 ∈ reply.detail → breaksOff)) :
    Settled world.2 worldAfter.2 fails breaksOff := by
  refine ⟨_, reading.recorded_read hread, Nat.le_refl 1, fun call hcall => ?_⟩
  obtain rfl := List.mem_singleton.mp hcall
  exact hfailed

theorem of_good_read {reading : Reading ω σ} {source next : σ} {offset count : UInt64}
    {world worldAfter : ω × List ReadCall} {reply : ReadReply}
    (hread : reading.recorded.read source offset count world = (reply, next, worldAfter))
    (herror : reply.error = none) : Settled world.2 worldAfter.2 fails breaksOff :=
  of_read hread fun _ hfailure => nomatch herror.symm.trans hfailure

theorem imp (hsettled : Settled before after fails breaksOff)
    (hfails : ∀ code, fails code → failsToo code) (hbreaks : breaksOff → breaksOffToo) :
    Settled before after failsToo breaksOffToo := by
  obtain ⟨fresh, hfresh, hlength, hfailed⟩ := hsettled
  refine ⟨fresh, hfresh, hlength, fun call hcall failure hfailure => ?_⟩
  obtain ⟨hends, hbroken⟩ := hfailed call hcall failure hfailure
  exact ⟨fun hnul => hfails _ (hends hnul), fun hnul => hbreaks (hbroken hnul)⟩

/-- As the two exclude each other, failing is the same as having an explanation
without a NUL. -/
theorem fails_iff {reads : List ReadCall} (hsettled : Settled [] reads fails breaksOff)
    (hexclusive : ∀ code, breaksOff → ¬ fails code) :
    reads.length ≤ 1 ∧ ∀ call ∈ reads, ∀ failure, call.reply.error = some failure →
      (fails failure.errorCode ↔ 0 ∉ call.reply.detail) ∧
        (0 ∈ call.reply.detail → breaksOff) := by
  obtain ⟨fresh, rfl, hlength, hfailed⟩ := hsettled
  refine ⟨hlength, fun call hcall failure hfailure => ?_⟩
  obtain ⟨hends, hbroken⟩ := hfailed call hcall failure hfailure
  exact ⟨⟨fun hover hnul => hexclusive _ (hbroken hnul) hover, hends⟩, hbroken⟩

end Settled

/-! ## Steps -/

/-- A step that ends its transfer in failure, with an ERROR of some code as the
only datagram. -/
structure Step.Fails (step : Step ω σ) (code : ErrorCode) : Prop where
  phase : step.transfer.phase = .failed
  source : step.transfer.source = none
  deadline : step.transfer.deadline = none
  fault : step.fault = none
  sent : ∃ datagram text, step.sent = [datagram] ∧ decode datagram = .ok (.error code text)

/-- A step that breaks off over a text without a wire form. -/
structure Step.BreaksOff (step : Step ω σ) : Prop where
  running : step.transfer.isTerminal = false
  fault : step.fault = some (.encoding .nulInText)
  sent : step.sent = []

theorem Step.BreaksOff.not_fails {step : Step ω σ} (code : ErrorCode) (hbreaks : step.BreaksOff) :
    ¬ step.Fails code := fun hfails =>
  nomatch hbreaks.fault.symm.trans hfails.fault

def Step.Settles (before : List ReadCall) (step : Step (ω × List ReadCall) σ) : Prop :=
  Settled before step.world.2 step.Fails step.BreaksOff

namespace Transfer

/-- What moves a transfer: its start, or an event. -/
inductive Cue where
  | start (now : Time)
  | event (event : Event)

def take (reading : BufferedReading ω σ) (transfer : Transfer σ) (world : ω) : Cue → Step ω σ
  | .start now => transfer.start reading world now
  | .event event => transfer.handle reading world event

theorem take_demands (transfer : Transfer σ) (cue : Cue) :
    Demands transfer fun _ reading world => transfer.take reading world cue := by
  cases cue with
  | start now => exact start_demands transfer now
  | event event => exact handle_demands transfer event

theorem fail_world (transfer : Transfer σ) (world : ω) (detail : Octets) (reply : Option Message) :
    (transfer.fail world detail reply).world = world := by
  obtain ⟨_, _, hfail | hfail⟩ := fail_cases transfer world detail reply
  · rw [hfail]
  · rw [hfail]

theorem sendRead_world (transfer : Transfer σ) (world : ω) (reply : ReadReply) (now : Time) :
    (transfer.sendRead world reply now).world = world := by
  unfold sendRead
  split
  · exact fail_world _ _ _ _
  · split
    · exact fail_world _ _ _ _
    · unfold sendBlock
      dsimp only
      split <;> rfl

theorem fail_error_fails (transfer : Transfer σ) (world : ω) (detail : Octets) {code : ErrorCode}
    {text : Octets} (htext : 0 ∉ text) :
    (transfer.fail world detail (some (.error code text))).Fails code := by
  obtain ⟨datagram, hencode, hfail⟩ := fail_error transfer world detail htext
  rw [hfail]
  exact ⟨rfl, rfl, rfl, rfl, datagram, text, rfl, decode_of_encode_error hencode⟩

theorem fail_error_breaksOff {transfer : Transfer σ} (hopen : transfer.isTerminal = false) (world : ω)
    (detail : Octets) {code : ErrorCode} {text : Octets} (htext : 0 ∈ text) :
    (transfer.fail world detail (some (.error code text))).BreaksOff := by
  simp only [fail, encode_error_of_nul_mem htext]
  exact ⟨hopen, rfl, rfl⟩

/-- Reading a block is where a stream can fail, whatever state the transfer is
in. -/
theorem sendData_settles (reading : Reading ω σ) {transfer : Transfer σ}
    (hopen : transfer.isTerminal = false) (world : ω × List ReadCall) (now : Time) :
    (transfer.sendData reading.recorded world now).Settles world.2 := by
  cases hsource : transfer.source with
  | none =>
      apply Settled.of_no_read
      rw [sendData_of_none world now reading.recorded hsource]
  | some source =>
      rcases sendData_cases reading.recorded world now hsource with
        hfetch | ⟨reply, next, after, hread, herror, _, _, hstep⟩
      · generalize transfer.sendData reading.recorded world now = step at hfetch
        cases hfetch with
        | failed reply next after failure hread herror =>
            have hheld : { transfer with source := some next }.isTerminal = false := hopen
            rw [Step.Settles, fail_world]
            refine Settled.of_read hread fun other hother => ?_
            obtain rfl : failure = other := Option.some.inj (herror.symm.trans hother)
            refine ⟨fun hnul => ?_, fun hnul => ?_⟩
            · apply fail_error_fails
              split
              · exact failure.errorCode.printable_text.nul_notMem
              · exact hnul
            · apply fail_error_breaksOff hheld
              rwa [if_neg (List.ne_nil_of_mem hnul)]
        | oversized reply next after hread herror hlength =>
            rw [Step.Settles, fail_world]
            exact Settled.of_good_read hread herror
        | sent reply next after hread herror hlength => exact Settled.of_good_read hread herror
      · rw [hstep]
        exact Settled.of_good_read hread herror

theorem handle_settles (reading : Reading ω σ) (transfer : Transfer σ) (world : ω × List ReadCall)
    (event : Event) : (transfer.handle reading.recorded world event).Settles world.2 := by
  cases hopen : transfer.isTerminal with
  | true =>
      rw [handle_of_isTerminal _ _ _ hopen]
      exact Settled.of_no_read rfl
  | false =>
      have hreaction := handle_reaction reading.recorded world event hopen
      generalize transfer.handle reading.recorded world event = step at hreaction
      cases hreaction with
      | ignored | mismatched | repeated | finished => exact Settled.of_no_read rfl
      | abandoned | rejected | exhausted =>
          apply Settled.of_no_read
          rw [fail_world]
      | confirmed now _ => exact sendData_settles reading hopen world now
      -- The position has moved on, but the transfer is as open as before.
      | advanced now _ _ =>
          apply sendData_settles
          exact hopen

theorem start_settles (reading : Reading ω σ) (transfer : Transfer σ) (world : ω × List ReadCall)
    (now : Time) : (transfer.start reading.recorded world now).Settles world.2 := by
  unfold start
  split
  · exact Settled.of_no_read rfl
  next hfresh =>
    have hphase : transfer.phase = .sendingData := by
      by_contra hphase
      exact hfresh (Or.inl hphase)
    split
    · split
      · exact Settled.of_no_read rfl
      · exact Settled.of_no_read rfl
    · apply sendData_settles
      simp [isTerminal, hphase]

theorem take_settles (reading : Reading ω σ) (transfer : Transfer σ) (world : ω × List ReadCall)
    (cue : Cue) : (transfer.take reading.recorded world cue).Settles world.2 := by
  cases cue with
  | start now => exact start_settles reading transfer world now
  | event event => exact handle_settles reading transfer world event

/-- The reads of a step. They are found by taking it on record. -/
def reads (reading : Reading ω σ) (transfer : Transfer σ) (world : ω) (cue : Cue) : List ReadCall :=
  (transfer.take reading.recorded (world, ([] : List ReadCall)) cue).world.2

/-- The record says what becomes of the step itself. -/
theorem settled_reads (reading : Reading ω σ) (transfer : Transfer σ) (world : ω) (cue : Cue) :
    let step := transfer.take reading world cue
    Settled [] (transfer.reads reading world cue) step.Fails step.BreaksOff := by
  intro step
  have hstep : (transfer.take reading.recorded (world, ([] : List ReadCall)) cue).map Prod.fst = step :=
    (transfer.take_demands cue).map reading.recorded_carries (world, [])
  rw [← hstep]
  apply (take_settles reading transfer (world, []) cue).imp
  · rintro code ⟨hphase, hsource, hdeadline, hfault, hsent⟩
    exact ⟨hphase, hsource, hdeadline, hfault, hsent⟩
  · rintro ⟨hrunning, hfault, hsent⟩
    exact ⟨hrunning, hfault, hsent⟩

end Transfer

end TftpServer
