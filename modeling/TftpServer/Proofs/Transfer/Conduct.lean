import TftpServer.Proofs.Packet.Readback
import TftpServer.Proofs.Transfer.Demand

/-! # What a transfer says, and when it will say it again

All that a transfer hands to the sink is its options, a block or an ERROR. The
timer is armed with what is in flight, each time that it is sent, and never
otherwise. This holds of any stream, whatever it answers.
-/

namespace TftpServer

variable {ω σ : Type}

/-- The opcode at the front of a datagram. -/
def wireOpcode (datagram : Octets) : Option Opcode :=
  (readU16 datagram).map fun (code, _) => Opcode.ofCode code

theorem wireOpcode_of_decode {datagram : Octets} {message : Message}
    (hdecode : decode datagram = .ok message) : wireOpcode datagram = some message.opcode := by
  unfold wireOpcode
  cases hread : readU16 datagram with
  | none =>
      simp only [decode, Reader.require, hread, bind, Except.bind] at hdecode
      cases hdecode
  | some found =>
      rw [decode_of_readU16 hread] at hdecode
      cases hbody : decodeBody (Opcode.ofCode found.1) found.2 with
      | error defect =>
          rw [hbody] at hdecode
          cases hdecode
      | ok payload =>
          rw [hbody] at hdecode
          cases hdecode
          rfl

/-- What a transfer with some options can say. -/
inductive Utterance (options : List OptionField) : Octets → Prop where
  | options (datagram : Octets) (hsome : options ≠ [])
      (hencode : encode (.oack options) = .ok datagram) : Utterance options datagram
  | block (number : UInt16) (octets : Octets) : Utterance options (dataDatagram number octets)
  | error (code : ErrorCode) (text datagram : Octets)
      (hencode : encode (.error code text) = .ok datagram) : Utterance options datagram

/-- Only the options look like options. -/
theorem Utterance.decode_of_oack {options : List OptionField} {datagram : Octets}
    (hsaid : Utterance options datagram) (hopcode : wireOpcode datagram = some .oack) :
    options ≠ [] ∧ decode datagram = .ok (.oack options) := by
  cases hsaid with
  | options _ hsome hencode => exact ⟨hsome, decode_of_encode_oack hencode⟩
  | block number octets =>
      rw [wireOpcode_of_decode (decode_dataDatagram number octets)] at hopcode
      cases hopcode
  | error code text _ hencode =>
      rw [wireOpcode_of_decode (decode_of_encode_error hencode)] at hopcode
      cases hopcode

/-- A step at a time, if it has one, either hands what is in flight to the sink
and arms the timer for it, or says nothing but an ERROR and arms no timer. The timer
is armed for the end of the timeout, if 64 bits can hold that time. -/
def Step.Punctual (timeout : Int) (deadline time : Option Time) (step : Step ω σ) : Prop :=
  (∃ now due, time = some now ∧ step.sent = [step.transfer.inFlight] ∧
      step.transfer.deadline = some due ∧
      (Time.Fits (now + seconds timeout) → due = now + seconds timeout)) ∨
    (∀ datagram ∈ step.sent, wireOpcode datagram = some .error) ∧
      (step.transfer.deadline = deadline ∨ step.transfer.deadline = none)

namespace Transfer

def Event.time? : Event → Option Time
  | .packet _ now => some now
  | .malformed _ => none
  | .timeout now => some now

/-- What a step does to what is in flight: nothing is said and it stays or goes,
it goes with an ERROR, or it is said, and then it is what it was or a block. -/
inductive Effect (transfer : Transfer σ) (time : Option Time) : Step ω σ → Prop where
  | silent (step : Step ω σ) (hsent : step.sent = [])
      (hdeadline : step.transfer.deadline = transfer.deadline ∨ step.transfer.deadline = none)
      (hinFlight : step.transfer.inFlight = transfer.inFlight ∨ step.transfer.inFlight = []) :
      Effect transfer time step
  | refused (step : Step ω σ) (code : ErrorCode) (text datagram : Octets)
      (hencode : encode (.error code text) = .ok datagram) (hsent : step.sent = [datagram])
      (hdeadline : step.transfer.deadline = none) (hinFlight : step.transfer.inFlight = []) :
      Effect transfer time step
  | said (step : Step ω σ) (now : Time) (htime : time = some now)
      (hsent : step.sent = [step.transfer.inFlight])
      (hdeadline : step.transfer.deadline =
        some (now.later (seconds transfer.settings.timeout.toInt)))
      (hinFlight : transfer.inFlight ≠ [] ∧ step.transfer.inFlight = transfer.inFlight ∨
        ∃ number octets, step.transfer.inFlight = dataDatagram number octets) :
      Effect transfer time step

section Effects

variable {transfer : Transfer σ} {time : Option Time}

theorem fail_effect {next : Transfer σ} (hdeadline : next.deadline = transfer.deadline)
    (hinFlight : next.inFlight = transfer.inFlight) (world : ω) (detail : Octets)
    (reply : Option Message)
    (hreply : ∀ message ∈ reply, ∃ code text, message = .error code text) :
    Effect transfer time (next.fail world detail reply) := by
  unfold fail
  split
  · exact .silent _ rfl (Or.inr rfl) (Or.inr rfl)
  next message =>
    obtain ⟨code, text, rfl⟩ := hreply message rfl
    split
    next datagram hencode => exact .refused _ code text datagram hencode rfl rfl rfl
    next => exact .silent _ rfl (Or.inl hdeadline) (Or.inl hinFlight)

theorem sendData_effect {next : Transfer σ} (hdeadline : next.deadline = transfer.deadline)
    (hinFlight : next.inFlight = transfer.inFlight) (hsettings : next.settings = transfer.settings)
    (hmax : transfer.settings.blockSize ≤ maxBlockSize) (reading : Reading ω σ) (world : ω)
    (now : Time) : Effect transfer (some now) (next.sendData reading world now) := by
  cases hsource : next.source with
  | none =>
      rw [sendData_of_none world now reading hsource]
      exact .silent _ rfl (Or.inl hdeadline) (Or.inl hinFlight)
  | some source =>
      have hfetch := sendData_fetch reading world now hsource (hsettings ▸ hmax)
      generalize next.sendData reading world now = step at hfetch
      cases hfetch with
      | failed reply _ _ _ _ _ =>
          exact fail_effect (by exact hdeadline) (by exact hinFlight) _ _ _ fun message hmessage =>
            ⟨_, _, (Option.mem_some_iff.mp hmessage).symm⟩
      | oversized reply _ _ _ _ _ =>
          exact fail_effect (by exact hdeadline) (by exact hinFlight) _ _ _ fun message hmessage =>
            ⟨_, _, (Option.mem_some_iff.mp hmessage).symm⟩
      | sent reply _ _ _ _ _ =>
          refine .said _ now rfl rfl ?_ (Or.inr ⟨_, _, rfl⟩)
          rw [← hsettings]
          rfl

theorem handle_effect (hmax : transfer.settings.blockSize ≤ maxBlockSize) (reading : Reading ω σ)
    (world : ω) (event : Event) :
    Effect transfer event.time? (transfer.handle reading world event) := by
  cases hopen : transfer.isTerminal with
  | true =>
      rw [handle_of_isTerminal _ _ _ hopen]
      exact .silent _ rfl (Or.inl rfl) (Or.inl rfl)
  | false =>
      have hreaction := handle_reaction reading world event hopen
      generalize transfer.handle reading world event = step at hreaction
      cases hreaction with
      | ignored => exact .silent _ rfl (Or.inl rfl) (Or.inl rfl)
      | mismatched message now _ => exact .silent _ rfl (Or.inl rfl) (Or.inl rfl)
      | abandoned code text now =>
          exact fail_effect rfl rfl _ _ _ fun _ hmessage => nomatch hmessage
      | rejected _ detail _ _ =>
          exact fail_effect rfl rfl _ _ _ fun message hmessage =>
            ⟨_, _, (Option.mem_some_iff.mp hmessage).symm⟩
      | exhausted now detail _ _ =>
          exact fail_effect rfl rfl _ _ _ fun _ hmessage => nomatch hmessage
      | repeated now hinFlight _ => exact .said _ now rfl rfl rfl (Or.inl ⟨hinFlight, rfl⟩)
      | confirmed now _ => exact sendData_effect rfl rfl rfl hmax reading world now
      | advanced now _ _ =>
          exact sendData_effect (by rfl) (by rfl) (by rfl) hmax reading world now
      | finished now _ _ => exact .silent _ rfl (Or.inr rfl) (Or.inr rfl)

theorem Effect.punctual {step : Step ω σ} (heffect : Effect transfer time step) :
    step.Punctual transfer.settings.timeout.toInt transfer.deadline time := by
  cases heffect with
  | silent hsent hdeadline _ =>
      refine Or.inr ⟨fun datagram hmem => ?_, hdeadline⟩
      rw [hsent] at hmem
      cases hmem
  | refused code text datagram hencode hsent hdeadline _ =>
      refine Or.inr ⟨fun other hmem => ?_, Or.inr hdeadline⟩
      rw [hsent, List.mem_singleton] at hmem
      rw [hmem, wireOpcode_of_decode (decode_of_encode_error hencode)]
      rfl
  | said now htime hsent hdeadline _ =>
      exact Or.inl ⟨now, _, htime, hsent, hdeadline, Time.later_eq_add⟩

end Effects

/-! ## Every run -/

/-- Everything that was said, and what is in flight, is what the transfer can
say, and its options were said if it has any. -/
structure Conduct (options : List OptionField) (run : Run ω σ) : Prop where
  said : ∀ datagram ∈ run.sent, Utterance options datagram
  inFlight : run.transfer.inFlight ≠ [] → Utterance options run.transfer.inFlight
  announced : options ≠ [] → ∃ datagram ∈ run.sent, encode (.oack options) = .ok datagram

section Runs

variable {options : List OptionField}

/-- The options were said if there are any, and nothing else looks like them. -/
theorem Conduct.announces {run : Run ω σ} (hconduct : Conduct options run) :
    ((∃ datagram ∈ run.sent, wireOpcode datagram = some .oack) ↔ options ≠ []) ∧
      ∀ datagram ∈ run.sent, wireOpcode datagram = some .oack →
        decode datagram = .ok (.oack options) := by
  have hsaid : ∀ datagram ∈ run.sent, wireOpcode datagram = some .oack →
      options ≠ [] ∧ decode datagram = .ok (.oack options) := fun datagram hmem hopcode =>
    (hconduct.said datagram hmem).decode_of_oack hopcode
  refine ⟨⟨?_, fun hsome => ?_⟩, fun datagram hmem hopcode => (hsaid datagram hmem hopcode).2⟩
  · rintro ⟨datagram, hmem, hopcode⟩
    exact (hsaid datagram hmem hopcode).1
  · obtain ⟨datagram, hmem, hencode⟩ := hconduct.announced hsome
    exact ⟨datagram, hmem, wireOpcode_of_decode (decode_of_encode_oack hencode)⟩

theorem Effect.conduct {run : Run ω σ} {time : Option Time} {step : Step ω σ}
    (heffect : Effect run.transfer time step)
    (hsaid : ∀ datagram ∈ run.sent, Utterance options datagram)
    (hinFlight : run.transfer.inFlight ≠ [] → Utterance options run.transfer.inFlight)
    (hannounced : options ≠ [] →
      ∃ datagram ∈ (run.extend step).sent, encode (.oack options) = .ok datagram) :
    Conduct options (run.extend step) := by
  suffices hstep : (∀ datagram ∈ step.sent, Utterance options datagram) ∧
      (step.transfer.inFlight ≠ [] → Utterance options step.transfer.inFlight) by
    refine ⟨fun datagram hmem => ?_, hstep.2, hannounced⟩
    rcases List.mem_append.mp hmem with hmem | hmem
    · exact hsaid datagram hmem
    · exact hstep.1 datagram hmem
  cases heffect with
  | silent hsent _ hkept =>
      refine ⟨fun datagram hmem => ?_, fun hne => ?_⟩
      · rw [hsent] at hmem
        cases hmem
      · rcases hkept with hkept | hgone
        · rw [hkept] at hne ⊢
          exact hinFlight hne
        · exact absurd hgone hne
  | refused code text datagram hencode hsent _ hgone =>
      refine ⟨fun other hmem => ?_, fun hne => absurd hgone hne⟩
      rw [hsent, List.mem_singleton] at hmem
      exact hmem ▸ .error code text datagram hencode
  | said now _ hsent _ hnext =>
      have hutterance : Utterance options step.transfer.inFlight := by
        rcases hnext with ⟨hne, hkept⟩ | ⟨number, octets, hblock⟩
        · exact hkept ▸ hinFlight hne
        · exact hblock ▸ .block number octets
      refine ⟨fun other hmem => ?_, fun _ => hutterance⟩
      rw [hsent, List.mem_singleton] at hmem
      exact hmem ▸ hutterance

variable (reading : Reading ω σ) (peer : Endpoint) (source : σ) {accepted : Acceptance}
  {settings : Settings} (hmax : settings.blockSize ≤ maxBlockSize)
  (hentries : ∀ field ∈ accepted.entries, 0 ∉ field.name ∧ 0 ∉ field.value) (world : ω) (now : Time)

include hmax hentries

theorem start_conduct :
    let opened := create peer source accepted settings
    Conduct accepted.entries (Run.extend { transfer := opened, world }
        (opened.start reading world now)) ∧
      (opened.start reading world now).Punctual settings.timeout.toInt none (some now) := by
  intro opened
  rcases start_cases reading opened rfl rfl hentries world now with
    ⟨hnone, hstart⟩ | ⟨hsome, body, hencode, hstart⟩
  · have heffect : Effect opened (some now) (opened.sendData reading world now) :=
      sendData_effect rfl rfl rfl hmax reading world now
    rw [hstart]
    exact ⟨heffect.conduct (fun datagram hmem => nomatch hmem) (fun hne => absurd rfl hne)
      fun hsome => absurd hnone hsome, heffect.punctual⟩
  · have hutterance := Utterance.options _ hsome hencode
    rw [hstart]
    refine ⟨⟨fun datagram hmem => ?_, fun _ => hutterance, fun _ =>
      ⟨_, List.mem_singleton.mpr rfl, hencode⟩⟩, Or.inl ⟨now, _, rfl, rfl, rfl, Time.later_eq_add⟩⟩
    exact List.mem_singleton.mp hmem ▸ hutterance

theorem run_conduct (events : List Event) :
    let opened := create peer source accepted settings
    Conduct accepted.entries (opened.run reading world now events) := by
  intro opened
  -- The options and the settings are the same all along.
  suffices hrun : (opened.run reading world now events).transfer.terms = opened.terms ∧
      Conduct accepted.entries (opened.run reading world now events) from hrun.2
  refine run_induction (fun run => run.transfer.terms = opened.terms ∧
    Conduct accepted.entries run) ?_ ?_ events
  · exact ⟨(start_demands opened now).terms reading world,
      (start_conduct reading peer source hmax hentries world now).1⟩
  · rintro run event ⟨hterms, hconduct⟩
    have hsize : run.transfer.settings.blockSize = settings.blockSize :=
      congrArg (fun terms => terms.2.2.blockSize) hterms
    refine ⟨((handle_demands run.transfer event).terms reading run.world).trans hterms, ?_⟩
    refine (handle_effect (hsize ▸ hmax) reading run.world event).conduct hconduct.said
      hconduct.inFlight fun hsome => ?_
    obtain ⟨datagram, hmem, hencode⟩ := hconduct.announced hsome
    exact ⟨datagram, List.mem_append_left _ hmem, hencode⟩

end Runs

end Transfer

end TftpServer
