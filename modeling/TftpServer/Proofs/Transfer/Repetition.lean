import TftpServer.Proofs.Transfer.Awaiting
import TftpServer.Proofs.Transfer.Oblivious

/-! # How often something is said

A transfer repeats itself for want of an answer and for nothing else. The number of
retries counts how often the datagram in flight was repeated, and starts again with
each block, so that nothing is said more often than the retry limit allows. Stale
acknowledgements are met with silence, and so is a peer that no longer answers.
-/

namespace TftpServer.Transfer

open Assignment

variable {ω σ : Type} {task : Assignment ω σ} {run : Run ω σ} {said : List Sending}

/-- Nothing in an account is about a subject from this number on. -/
def Before (number : Nat) (said : List Sending) : Prop :=
  ∀ sending ∈ said, ∃ earlier < number, sending.subject = .ofNumber earlier

def Sparing.Of (task : Assignment ω σ) (said : List Sending) : Prop :=
  Sparing task.accepted.entries task.content task.blockSize task.settings.retryLimit.toNat said

/-- Where a run stands behind its account. It waits, and what is in flight was said
once and then once more for each retry, or it is over. -/
inductive Standing (task : Assignment ω σ) (run : Run ω σ) (said : List Sending) : Prop where
  | waiting (number : Nat) (hwaiting : Waiting task number run.transfer run.world)
      (hcount : (said.map (·.subject)).count (.ofNumber number) = run.transfer.retries.toNat + 1)
      (hbefore : Before (number + 1) said)
  | ended (hover : run.transfer.isTerminal = true)

/-- A run with an account that is sparing so far. -/
structure Accounted (task : Assignment ω σ) (run : Run ω σ) (said : List Sending) : Prop where
  sparing : Sparing.Of task said
  standing : Standing task run said

theorem Waiting.subject_inFlight {number : Nat} {transfer : Transfer σ} {world : ω}
    (hwaiting : Waiting task number transfer world) (hsound : task.Sound) :
    transfer.subject transfer.inFlight = .ofNumber number := by
  have hnumber : number < UInt64.size := by
    have hle := hwaiting.number_le hsound
    have hblocks := Nat.div_le_self task.content.size task.blockSize
    have hsize := hsound.size
    omega
  rw [subject, hwaiting.wireOpcode_inFlight, hwaiting.position, BlockPosition.logical_ofNumber]
  cases number with
  | zero => rfl
  | succ done =>
      rw [Nat.max_eq_left (Nat.le_add_left 1 done), UInt64.toNat_ofNat_of_lt' hnumber]
      rfl

section Account

theorem Before.notMem {number : Nat} (hbefore : Before number said) :
    Subject.ofNumber number ∉ said.map (·.subject) := by
  intro hmem
  obtain ⟨sending, hsending, hsubject⟩ := List.mem_map.mp hmem
  obtain ⟨earlier, hlt, heq⟩ := hbefore sending hsending
  have hnumber := Subject.ofNumber_injective (heq.symm.trans hsubject)
  omega

theorem Before.error_notMem {number : Nat} (hbefore : Before number said) :
    Subject.error ∉ said.map (·.subject) := by
  intro hmem
  obtain ⟨sending, hsending, hsubject⟩ := List.mem_map.mp hmem
  obtain ⟨earlier, _, heq⟩ := hbefore sending hsending
  exact Subject.ofNumber_ne_error earlier (heq.symm.trans hsubject)

theorem Before.concat {bound number : Nat} (hbefore : Before bound said)
    (hbound : bound ≤ number + 1) {sending : Sending}
    (hsubject : sending.subject = .ofNumber number) : Before (number + 1) (said ++ [sending]) := by
  intro other hmem
  rcases List.mem_append.mp hmem with hmem | hmem
  · obtain ⟨earlier, hlt, heq⟩ := hbefore other hmem
    exact ⟨earlier, hlt.trans_le hbound, heq⟩
  · obtain rfl := List.mem_singleton.mp hmem
    exact ⟨number, Nat.lt_succ_self number, hsubject⟩

variable {cause : Option Event} {reads : List ReadCall} {step : Step ω σ}

theorem Accounted.of_failed (hsparing : Sparing.Of task said)
    (hnone : Subject.error ∉ said.map (·.subject)) (hover : step.transfer.isTerminal = true)
    {datagram : Octets} (hsent : step.sent = [datagram])
    (hopcode : wireOpcode datagram = some .error) :
    Accounted task (run.extend step) (said ++ accountOf cause reads step) := by
  have hsubject : step.transfer.subject datagram = .error := by
    rw [subject, hopcode]
  rw [accountOf, hsent, List.map_singleton, hsubject]
  exact ⟨hsparing.concat_fresh (.error hopcode) hnone, .ended hover⟩

theorem Accounted.of_silent (hsparing : Sparing.Of task said) (hsent : step.sent = [])
    (hstanding : Standing task (run.extend step) said) :
    Accounted task (run.extend step) (said ++ accountOf cause reads step) := by
  rw [accountOf, hsent, List.map_nil, List.append_nil]
  exact ⟨hsparing, hstanding⟩

section Sound

variable (hsound : task.Sound)

include hsound

/-- What comes next in turn has not been said before. -/
theorem Accounted.of_sent (hsparing : Sparing.Of task said) {number : Nat}
    (hbefore : Before number said) (hwaiting : Waiting task number step.transfer step.world)
    (hretries : step.transfer.retries = 0) (hsent : step.sent = [step.transfer.inFlight]) :
    Accounted task (run.extend step) (said ++ accountOf cause reads step) := by
  have hsubject := hwaiting.subject_inFlight hsound
  have hfresh := hbefore.notMem
  rw [accountOf, hsent, List.map_singleton, hsubject]
  refine ⟨hsparing.concat_fresh hwaiting.inFlight hfresh, .waiting number hwaiting ?_
    (hbefore.concat (Nat.le_succ number) rfl)⟩
  simp [Run.extend, List.count_eq_zero_of_not_mem hfresh, hretries]

/-- The next block has not been said before, and neither has an error. -/
theorem Supplied.accounted {done : Nat} {transfer : Transfer σ} {world : ω}
    (hsupplied : Supplied task done transfer world step) (hsparing : Sparing.Of task said)
    (hbefore : Before (done + 1) said) :
    Accounted task (run.extend step) (said ++ accountOf cause reads step) ∨
      ∃ source after final, task.Reaches source after ∧
        maxBlockSize.toNat < (task.block (done + 1)).length ∧
        step =
          { transfer := { transfer with source := some source, finalBlock := final }
            world := after
            fault := some (.encoding .oversizedData) } := by
  cases hsupplied with
  | sent _ hnext hretries hsent =>
      exact Or.inl (.of_sent hsound hsparing hbefore hnext hretries hsent)
  | failed _ datagram _ hover hsent hopcode =>
      exact Or.inl (.of_failed hsparing hbefore.error_notMem hover hsent hopcode)
  | unfit source after final hsource hunfit =>
      exact Or.inr ⟨source, after, final, hsource, hunfit, rfl⟩

/-- As long as there are retries left, what is in flight was not said too often. -/
theorem Accounted.of_repeat (hsparing : Sparing.Of task said) {number : Nat}
    (hbefore : Before (number + 1) said) (hwaiting : Waiting task number run.transfer run.world)
    (hcount : (said.map (·.subject)).count (.ofNumber number) = run.transfer.retries.toNat + 1)
    (hretries : run.transfer.retries < run.transfer.settings.retryLimit) (now : Time) :
    let step := sendInFlight { run.transfer with retries := run.transfer.retries + 1 } run.world now
    Accounted task (run.extend step) (said ++ accountOf (some (.timeout now)) [] step) := by
  intro step
  have hnext : Waiting task number step.transfer step.world := hwaiting.repeat now
  have hsubject : step.transfer.subject run.transfer.inFlight = .ofNumber number :=
    hnext.subject_inFlight hsound
  have hlimit : run.transfer.retries.toNat < task.settings.retryLimit.toNat := by
    rw [hwaiting.settings] at hretries
    exact hretries
  have haccount : accountOf (some (.timeout now)) [] step =
      [⟨.ofNumber number, run.transfer.inFlight, some (.timeout now), []⟩] :=
    congrArg (fun subject => [Sending.mk subject run.transfer.inFlight (some (.timeout now)) []])
      hsubject
  rw [haccount]
  refine ⟨hsparing.concat hwaiting.inFlight (hcount.trans_le hlimit) (fun herror => ?_) ?_,
    .waiting number hnext ?_ (hbefore.concat (Nat.le_refl _) rfl)⟩
  · exact absurd herror (Subject.ofNumber_ne_error number)
  · intro first hfirst heq
    refine ⟨?_, ⟨now, rfl⟩, rfl⟩
    have hspelled := hsparing.spelled first hfirst
    rw [← heq] at hspelled
    exact hwaiting.inFlight.unique hspelled (Subject.ofNumber_ne_error number)
  · simp only [List.map_append, List.count_append, hcount, List.map_singleton,
      List.count_singleton_self]
    exact congrArg (· + 1) (toNat_retries_succ hretries).symm

theorem Accounted.handle (hrun : Accounted task run said) (event : Event) :
    Accounted task (run.handle task.reading event) (said ++ run.sendings task.reading event) := by
  obtain ⟨hsparing, hstanding⟩ := hrun
  simp only [Run.handle, Run.sendings, sendings]
  generalize hreads : (run.transfer.handle task.reading.recorded
    (run.world, ([] : List ReadCall)) event).world.2 = reads
  cases hstanding with
  | ended hover =>
      rw [handle_of_isTerminal _ _ _ hover]
      exact .of_silent hsparing rfl (.ended hover)
  | waiting number hwaiting hcount hbefore =>
      have hopen := hwaiting.isTerminal_eq_false
      have hreaction := handle_reaction task.reading run.world event hopen
      generalize run.transfer.handle task.reading run.world event = step at hreaction
      cases hreaction with
      | ignored => exact .of_silent hsparing rfl (.waiting number hwaiting hcount hbefore)
      | mismatched message now _ =>
          exact .of_silent hsparing rfl (.waiting number hwaiting hcount hbefore)
      | abandoned code text now => exact .of_silent hsparing rfl (.ended rfl)
      | rejected _ detail _ _ =>
          obtain ⟨hover, datagram, hsent, hopcode⟩ := fail_error_refuses run.transfer run.world
            detail (ErrorCode.printable_text .illegalOperation).nul_notMem
          exact .of_failed hsparing hbefore.error_notMem hover hsent hopcode
      | exhausted now detail _ _ => exact .of_silent hsparing rfl (.ended rfl)
      | repeated now _ hretries =>
          have hnone : reads = [] := by
            rw [← hreads]
            exact congrArg Prod.snd (timeout_world run.transfer (run.world, []) now)
          rw [hnone]
          exact .of_repeat hsound hsparing hbefore hwaiting hcount hretries now
      | confirmed now hphase =>
          obtain rfl := hwaiting.phase_eq_awaitingOptionAck.mp hphase
          have hsupplied := (hwaiting.due_first rfl).sendData hsound now
          generalize run.transfer.sendData task.reading run.world now = step at hsupplied
          rcases hsupplied.accounted hsound hsparing hbefore with
            haccounted | ⟨source, after, final, hsource, _, rfl⟩
          · exact haccounted
          -- The options stay in flight, and another acknowledgement may find a better answer.
          · refine .of_silent hsparing rfl (.waiting 0 ⟨hwaiting.phase, hwaiting.settings,
              ⟨source, rfl, hsource⟩, hwaiting.position, hwaiting.inFlight, ?_, ?_⟩ hcount hbefore)
            · exact fun hnumber => absurd rfl hnumber
            · exact fun hnumber => absurd rfl hnumber
      | advanced now hphase hfull =>
          have hnumber : number ≠ 0 := fun hnone =>
            hphase (hwaiting.phase_eq_awaitingOptionAck.mpr hnone)
          obtain ⟨hdue, hmax⟩ := hwaiting.due_next hnumber hfull
          have hsupplied := hdue.sendData hsound now
          generalize Transfer.sendData _ _ _ _ = step at hsupplied ⊢
          rcases hsupplied.accounted hsound hsparing hbefore with
            haccounted | ⟨_, _, _, _, hunfit, _⟩
          · exact haccounted
          · rw [length_block_succ] at hunfit
            omega
      | finished now _ _ => exact .of_silent hsparing rfl (.ended rfl)

end Sound

end Account

/-! ## Every run -/

section Runs

variable (hsound : task.Sound) (now : Time)
  (hstart : (task.opened.start task.reading task.world now).fault = none)

include hsound hstart

theorem start_accounted :
    Accounted task (Run.extend ⟨task.opened, task.world, []⟩
        (task.opened.start task.reading task.world now))
      (sendings task.reading task.world none fun _ reading world =>
        task.opened.start reading world now) := by
  have hnothing : Sparing.Of task [] := .nil
  have hbefore (number : Nat) : Before number [] := fun _ hmem => nomatch hmem
  simp only [sendings]
  generalize (task.opened.start task.reading.recorded
    (task.world, ([] : List ReadCall)) now).world.2 = reads
  rcases start_stands now hstart with ⟨_, hdue, hdata⟩ | ⟨_, hwaiting, hretries, hsent⟩
  · have hsupplied := hdue.sendData hsound now
    rw [← hdata] at hsupplied
    generalize task.opened.start task.reading task.world now = step at hsupplied hstart
    rcases hsupplied.accounted hsound hnothing (hbefore 1) with
      haccounted | ⟨_, _, _, _, _, rfl⟩
    · exact haccounted
    · cases hstart
  · exact .of_sent hsound hnothing (hbefore 0) hwaiting hretries hsent

theorem run_accounted (events : List Event) :
    Accounted task (task.opened.run task.reading task.world now events)
      (task.opened.account task.reading task.world now events) :=
  account_induction (Accounted task) (start_accounted hsound now hstart)
    (fun _ _ event hrun => hrun.handle hsound event) events

end Runs

/-- Only what is in flight is said for want of an answer, and that is no ERROR. -/
theorem Standing.timeout (hstanding : Standing task run said) (now : Time) :
    ∀ datagram ∈ (run.transfer.handle task.reading run.world (.timeout now)).sent,
      wireOpcode datagram ≠ some .error := by
  intro datagram hmem
  cases hstanding with
  | ended hover =>
      rw [handle_of_isTerminal _ _ _ hover] at hmem
      cases hmem
  | waiting number hwaiting _ _ =>
      have hreaction := handle_reaction task.reading run.world (.timeout now)
        hwaiting.isTerminal_eq_false
      generalize run.transfer.handle task.reading run.world (.timeout now) = step
        at hreaction hmem
      cases hreaction with
      | ignored => cases hmem
      | rejected _ _ _ hother => exact absurd rfl (hother now)
      | exhausted _ _ _ _ => cases hmem
      | repeated _ _ _ =>
          obtain rfl := List.mem_singleton.mp hmem
          rw [hwaiting.wireOpcode_inFlight]
          split <;> decide

/-- However a peer behaves, the options and each block are said at most once more
than the retry limit, and only again when the timer has run out: word for word, and
without another look at the stream. A stale acknowledgement of a block changes
nothing, and a peer that does not answer is not sent an ERROR. So there is a bound
on all that is sent. -/
theorem run_sparing (hsound : task.Sound) (now : Time)
    (hstart : (task.opened.start task.reading task.world now).fault = none) (events : List Event) :
    let run := task.opened.run task.reading task.world now events
    let said := task.opened.account task.reading task.world now events
    let limit := task.settings.retryLimit.toNat
    said.map (·.datagram) = run.sent ∧
      (∀ sending ∈ said, sending.subject.Spelled task.accepted.entries task.content
        task.settings.blockSize.toNat sending.datagram) ∧
      (∀ subject, (said.map (·.subject)).count subject ≤ limit + 1) ∧
      (said.Pairwise fun first later => later.subject = first.subject → later.Repeats first) ∧
      (run.transfer.phase ≠ .awaitingOptionAck → ∀ distance, 1 ≤ distance → distance ≤ 32767 →
        ∀ time, run.transfer.handle task.reading run.world
            (.packet (.ack (run.transfer.position.block - UInt16.ofNat distance)) time) =
          { transfer := run.transfer, world := run.world }) ∧
      (∀ time, ∀ datagram ∈ (run.transfer.handle task.reading run.world (.timeout time)).sent,
        wireOpcode datagram ≠ some .error) ∧
      run.sent.length ≤
        (task.content.size / task.settings.blockSize.toNat + 2) * (limit + 1) + 1 := by
  intro run said limit
  obtain ⟨hsparing, hstanding⟩ : Accounted task run said := run_accounted hsound now hstart events
  have hsaid : said.map (·.datagram) = run.sent :=
    map_datagram_account task.reading task.opened task.world now events
  refine ⟨hsaid, hsparing.spelled, hsparing.seldom, hsparing.repeats, ?_, hstanding.timeout, ?_⟩
  · intro hphase distance hpositive hbound time
    exact handle_late task.reading run.transfer run.world hphase hpositive hbound time
  · rw [← hsaid, List.length_map]
    exact hsparing.length_le hsound.blockSize

/-- Ten octets in blocks of eight, with one retry: the options and the first block
are lost once, a stale acknowledgement comes in between, and then the peer is gone. -/
theorem run_sparing_towards_lost_peer :
    let content : Content := (Array.range 10).map UInt8.ofNat
    let task : Assignment Unit Content :=
      { reading := Content.reading Unit
        source := content
        world := ()
        content
        peer := .zero
        accepted := { entries := [⟨ascii "blksize", ascii "8"⟩] }
        settings := { blockSize := 8, retryLimit := 1 } }
    let events : List Event := [.timeout 3, .packet (.ack 0) 4, .timeout 7, .packet (.ack 0) 8,
      .timeout 11, .timeout 15]
    let run := task.opened.run task.reading task.world 0 events
    let said := task.opened.account task.reading task.world 0 events
    task.Sound ∧ (task.opened.start task.reading task.world 0).fault = none ∧
      said.map (·.subject) = [.options, .options, .block 1, .block 1] ∧
      (said.Pairwise fun first later => later.subject = first.subject → later.Repeats first) ∧
      run.transfer.phase = .failed ∧ run.sent.length ≤ 7 := by
  intro content task events run said
  have hsound : task.Sound :=
    ⟨content.reading_serves (), by decide +kernel, by decide +kernel⟩
  have hstart : (task.opened.start task.reading task.world 0).fault = none := by decide +kernel
  have hsubjects : said.map (·.subject) = [.options, .options, .block 1, .block 1] := by
    decide +kernel
  have hphase : run.transfer.phase = .failed := by decide +kernel
  have hbound : (task.content.size / task.settings.blockSize.toNat + 2) *
      (task.settings.retryLimit.toNat + 1) + 1 = 7 := by
    decide +kernel
  obtain ⟨_, _, _, hrepeats, _, _, htotal⟩ := run_sparing hsound 0 hstart events
  exact ⟨hsound, hstart, hsubjects, hrepeats, hphase, htotal.trans_eq hbound⟩

end TftpServer.Transfer
