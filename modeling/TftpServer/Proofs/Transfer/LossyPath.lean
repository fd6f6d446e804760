import TftpServer.Proofs.Transfer.Awaiting
import TftpServer.Proofs.Transfer.Delivery

/-! # Lossy paths

A path may lose datagrams, repeat them and deliver them late. A peer that answers
every datagram at last, before the retries are used up, then gets the whole content,
whatever happens in between and however long the content is.
-/

namespace TftpServer.Transfer

open Assignment

variable {ω σ : Type}

/-! ## Conversations -/

/-- What may happen while an answer is waited for: the timer runs out, or an
acknowledgement comes that trails the awaited one by some distance. -/
inductive Delay where
  | timeout (now : Time)
  | late (distance : Nat) (now : Time)

namespace Delay

def isTimeout : Delay → Bool
  | .timeout _ => true
  | .late _ _ => false

def event (number : Nat) : Delay → Event
  | .timeout now => .timeout now
  | .late distance now => .packet (.ack (UInt16.ofNat number - UInt16.ofNat distance)) now

/-- What is late belongs to an earlier block, as far as sixteen bits can tell. There
is none yet while the options are in flight. -/
def Tolerable (number : Nat) : Delay → Prop
  | .timeout _ => True
  | .late distance _ => number ≠ 0 ∧ 1 ≤ distance ∧ distance ≤ 32767

instance (number : Nat) : (delay : Delay) → Decidable (delay.Tolerable number)
  | .timeout _ => inferInstanceAs (Decidable True)
  | .late _ _ => inferInstanceAs (Decidable (_ ∧ _ ∧ _))

end Delay

/-- What happens from when a datagram is first sent until it is acknowledged. -/
structure Round where
  delays : List Delay := []
  acknowledged : Time

namespace Round

def events (number : Nat) (round : Round) : List Event :=
  round.delays.map (Delay.event number) ++
    [.packet (.ack (UInt16.ofNat number)) round.acknowledged]

/-- There are no more timeouts than retries. -/
def Tolerable (limit number : Nat) (round : Round) : Prop :=
  round.delays.countP Delay.isTimeout ≤ limit ∧ ∀ delay ∈ round.delays, delay.Tolerable number

instance (limit number : Nat) (round : Round) : Decidable (round.Tolerable limit number) :=
  inferInstanceAs (Decidable (_ ∧ _))

end Round

/-- The number of what a transfer sends first: there is a round for its options, if
it has any, and then one for each block. -/
def firstNumber (transfer : Transfer σ) : Nat :=
  if transfer.options = [] then 1 else 0

/-- The events of one round after the other, from the one with a number on. -/
def conversation : Nat → List Round → List Event
  | _, [] => []
  | number, round :: rest => round.events number ++ conversation (number + 1) rest

def Tolerable (limit : Nat) : Nat → List Round → Prop
  | _, [] => True
  | number, round :: rest => round.Tolerable limit number ∧ Tolerable limit (number + 1) rest

instance decidableTolerable (limit : Nat) : (number : Nat) → (rounds : List Round) →
    Decidable (Tolerable limit number rounds)
  | _, [] => inferInstanceAs (Decidable True)
  | number, round :: rest =>
    have : Decidable (Tolerable limit (number + 1) rest) := decidableTolerable limit _ rest
    inferInstanceAs (Decidable (round.Tolerable limit number ∧ _))

/-- A run that is not over before any of the events to come. -/
def Patient (reading : Reading ω σ) (run : Run ω σ) : List Event → Prop
  | [] => True
  | event :: rest =>
    run.transfer.isTerminal = false ∧ Patient reading (run.handle reading event) rest

section Patience

variable {reading : Reading ω σ} {run : Run ω σ}

theorem Patient.append {first second : List Event} (hfirst : Patient reading run first)
    (hsecond : Patient reading (first.foldl (Run.handle reading) run) second) :
    Patient reading run (first ++ second) := by
  induction first generalizing run with
  | nil => exact hsecond
  | cons event rest ih => exact ⟨hfirst.1, ih hfirst.2 hsecond⟩

theorem Patient.isTerminal_eq_false {before after : List Event}
    (hpatient : Patient reading run (before ++ after)) (hafter : after ≠ []) :
    (before.foldl (Run.handle reading) run).transfer.isTerminal = false := by
  induction before generalizing run with
  | nil =>
      obtain ⟨event, rest, rfl⟩ := List.exists_cons_of_ne_nil hafter
      exact hpatient.1
  | cons event rest ih => exact ih hpatient.2

end Patience

/-! ## What was delivered -/

/-- The datagrams handed to the sink bring the first `number` blocks, and none of
them is an ERROR. -/
structure Delivered (task : Assignment ω σ) (number : Nat) (sent : List Octets) : Prop where
  blocks : deliveredBlocks sent = firstBlocks task.content task.settings.blockSize number
  orderly : ∀ datagram ∈ sent, wireOpcode datagram ≠ some .error

section Delivered

variable {task : Assignment ω σ} {number : Nat} {sent : List Octets} {datagram : Octets}

theorem Delivered.getLast? {done : Nat} (hdelivered : Delivered task (done + 1) sent) :
    (sent.filter isData).getLast? =
      some (task.content.blockDatagram task.blockSize (done + 1)) := by
  rw [← getLast?_deliveredBlocks, hdelivered.blocks, firstBlocks_succ, List.getLast?_concat]
  rfl

theorem Delivered.orderly_concat (hdelivered : Delivered task number sent) {next : Nat}
    (hspelled : task.Spelled next datagram) :
    ∀ other ∈ sent ++ [datagram], wireOpcode other ≠ some .error := by
  intro other hmem
  rcases List.mem_append.mp hmem with hmem | hmem
  · exact hdelivered.orderly other hmem
  · rw [List.mem_singleton.mp hmem, hspelled.wireOpcode]
    split <;> decide

/-- Saying the same again brings nothing new. -/
theorem Delivered.repeat (hdelivered : Delivered task number sent)
    (hspelled : task.Spelled number datagram) : Delivered task number (sent ++ [datagram]) := by
  refine ⟨?_, hdelivered.orderly_concat hspelled⟩
  rw [← hdelivered.blocks]
  cases number with
  | zero =>
      refine deliveredBlocks_concat_other ?_
      cases hspelled with
      | options _ hencode => rw [isData, decode_of_encode_oack hencode]; rfl
  | succ done =>
      refine deliveredBlocks_concat_repeat ?_
      rw [hspelled.eq_blockDatagram.1]
      exact hdelivered.getLast?

theorem Delivered.next (hdelivered : Delivered task number sent)
    (hspelled : task.Spelled (number + 1) datagram) :
    Delivered task (number + 1) (sent ++ [datagram]) := by
  refine ⟨?_, hdelivered.orderly_concat hspelled⟩
  obtain rfl := hspelled.eq_blockDatagram.1
  rw [firstBlocks_succ, ← hdelivered.blocks]
  refine deliveredBlocks_concat_fresh (isData_dataDatagram _ _) ?_
  cases number with
  | zero =>
      have hnone : sent.filter isData = [] := (List.destutter_eq_nil _).mp hdelivered.blocks
      simp [hnone]
  | succ done =>
      rw [hdelivered.getLast?]
      exact fun heq => dataDatagram_succ_ne (done + 1) _ _ (Option.some.inj heq).symm

theorem Delivered.map_decode (hdelivered : Delivered task number sent) :
    (deliveredBlocks sent).map decode = (List.range number).map fun i =>
      .ok (.data (UInt16.ofNat (i + 1)) (task.block (i + 1))) := by
  rw [hdelivered.blocks, firstBlocks, List.map_map]
  exact List.map_congr_left fun i _ => decode_dataDatagram _ _

/-- All blocks together are the content. -/
theorem Delivered.flatMap_dataOctets (hsize : 0 < task.blockSize)
    (hdelivered : Delivered task (task.content.size / task.blockSize + 1) sent) :
    (deliveredBlocks sent).flatMap dataOctets = task.content.toList := by
  have hpayloads : (deliveredBlocks sent).flatMap dataOctets =
      (List.range (task.content.size / task.blockSize + 1)).flatMap fun i =>
        task.block (i + 1) := by
    rw [hdelivered.blocks, firstBlocks, List.flatMap_map]
    simp only [Content.blockDatagram, dataOctets_dataDatagram, block, blockSize]
  have hend : task.content.size ≤ (task.content.size / task.blockSize + 1) * task.blockSize :=
    Nat.le_of_lt ((Nat.div_lt_iff_lt_mul hsize).mp (Nat.lt_succ_self _))
  rw [hpayloads]
  exact (task.content.flatMap_block _ _).trans (List.take_of_length_le (by simpa using hend))

end Delivered

/-! ## A transfer at work -/

/-- A sound assignment whose stream never fails, and whose blocks all fit into a
datagram. -/
structure Reliable (task : Assignment ω σ) : Prop where
  sound : task.Sound
  unfailing : ∀ source offset count world,
    (task.reading.read source offset count world).1.error = none
  fits : min task.blockSize task.content.size ≤ maxBlockSize.toNat

/-- A run that waits for the answer to block `number`, or to the options, after so
many retries. -/
structure AtWork (task : Assignment ω σ) (number retries : Nat) (run : Run ω σ) : Prop where
  waiting : Waiting task number run.transfer run.world
  delivered : Delivered task number run.sent
  retries : run.transfer.retries.toNat = retries

section Work

variable {task : Assignment ω σ} {number retries : Nat} {run : Run ω σ}

theorem AtWork.of_due (hreliable : Reliable task) {transfer : Transfer σ}
    (hdue : Due task number transfer run.world) (hdelivered : Delivered task number run.sent)
    (now : Time) :
    AtWork task (number + 1) 0 (run.extend (transfer.sendData task.reading run.world now)) := by
  have hsupplied := hdue.sendData hreliable.sound now
  generalize transfer.sendData task.reading run.world now = step at hsupplied
  cases hsupplied with
  | failed _ _ hfailed _ _ _ =>
      obtain ⟨source, offset, count, herror⟩ := hfailed
      exact absurd (hreliable.unfailing source offset count run.world) herror
  | unfit _ _ _ _ hunfit =>
      have hfits := hreliable.fits
      rw [length_block_succ] at hunfit
      omega
  | sent _ hnext hretries hsent =>
      refine ⟨hnext, ?_, congrArg UInt32.toNat hretries⟩
      rw [Run.extend, hsent]
      exact hdelivered.next hnext.inFlight

theorem AtWork.timeout (hrun : AtWork task number retries run)
    (hretries : retries < task.settings.retryLimit.toNat) (now : Time) :
    AtWork task number (retries + 1) (run.handle task.reading (.timeout now)) := by
  have hless : run.transfer.retries < run.transfer.settings.retryLimit := by
    rw [UInt32.lt_iff_toNat_lt, hrun.retries, hrun.waiting.settings]
    exact hretries
  rw [Run.handle, hrun.waiting.handle_timeout task.reading hless]
  refine ⟨hrun.waiting.repeat now, hrun.delivered.repeat hrun.waiting.inFlight, ?_⟩
  exact (toNat_retries_succ hless).trans (congrArg (· + 1) hrun.retries)

theorem AtWork.late (hrun : AtWork task number retries run) (hnumber : number ≠ 0) {distance : Nat}
    (hpositive : 1 ≤ distance) (hbound : distance ≤ 32767) (now : Time) :
    AtWork task number retries (run.handle task.reading
      (.packet (.ack (UInt16.ofNat number - UInt16.ofNat distance)) now)) := by
  have hphase := mt hrun.waiting.phase_eq_awaitingOptionAck.mp hnumber
  rw [← hrun.waiting.block_position hnumber, Run.handle,
    handle_late task.reading run.transfer run.world hphase hpositive hbound]
  simpa [Run.extend] using hrun

/-- Each acknowledgement but the last brings the next block. -/
theorem AtWork.acknowledge (hreliable : Reliable task) (hrun : AtWork task number retries run)
    (hreached : number * task.blockSize ≤ task.content.size) (now : Time) :
    AtWork task (number + 1) 0
      (run.handle task.reading (.packet (.ack (UInt16.ofNat number)) now)) := by
  cases number with
  | zero =>
      rw [Run.handle, hrun.waiting.handle_first_ack task.reading rfl]
      exact .of_due hreliable (hrun.waiting.due_first rfl) hrun.delivered now
  | succ done =>
      have hfull : run.transfer.finalBlock = false := by
        rw [hrun.waiting.final (Nat.succ_ne_zero done)]
        exact decide_eq_false (Nat.not_lt_of_le hreached)
      rw [Run.handle, hrun.waiting.handle_full_ack task.reading (Nat.succ_ne_zero done) now hfull]
      exact .of_due hreliable (hrun.waiting.due_next (Nat.succ_ne_zero done) hfull).1
        hrun.delivered now

theorem AtWork.finish (hrun : AtWork task number retries run)
    (hend : task.content.size < number * task.blockSize) (now : Time) :
    let after := run.handle task.reading (.packet (.ack (UInt16.ofNat number)) now)
    after.transfer.phase = .complete ∧ Delivered task number after.sent := by
  have hnumber : number ≠ 0 := by
    rintro rfl
    simp at hend
  have hfinal : run.transfer.finalBlock = true := by
    rw [hrun.waiting.final hnumber]
    exact decide_eq_true hend
  rw [Run.handle, hrun.waiting.handle_last_ack task.reading hnumber now hfinal]
  refine ⟨rfl, ?_⟩
  simpa [Run.extend, Transfer.finish] using hrun.delivered

/-- Delays that can be tolerated leave a transfer where it was. -/
theorem AtWork.delays (hrun : AtWork task number retries run) {delays : List Delay}
    (htimeouts : retries + delays.countP Delay.isTimeout ≤ task.settings.retryLimit.toNat)
    (hdelays : ∀ delay ∈ delays, delay.Tolerable number) :
    let events := delays.map (Delay.event number)
    Patient task.reading run events ∧
      ∃ retries, AtWork task number retries (events.foldl (Run.handle task.reading) run) := by
  induction delays generalizing run retries with
  | nil => exact ⟨trivial, retries, hrun⟩
  | cons delay rest ih =>
      obtain ⟨hdelay, hrest⟩ := List.forall_mem_cons.mp hdelays
      have hopen := hrun.waiting.isTerminal_eq_false
      cases delay with
      | timeout now =>
          rw [List.countP_cons_of_pos rfl] at htimeouts
          obtain ⟨hpatient, hafter⟩ := ih (hrun.timeout (by omega) now) (by omega) hrest
          exact ⟨⟨hopen, hpatient⟩, hafter⟩
      | late distance now =>
          rw [List.countP_cons_of_neg (by simp [Delay.isTimeout])] at htimeouts
          obtain ⟨hnumber, hpositive, hbound⟩ := hdelay
          obtain ⟨hpatient, hafter⟩ := ih (hrun.late hnumber hpositive hbound now) htimeouts hrest
          exact ⟨⟨hopen, hpatient⟩, hafter⟩

/-- As many rounds as there are datagrams to be acknowledged complete a transfer. -/
theorem AtWork.conversation (hreliable : Reliable task) (hrun : AtWork task number 0 run)
    {rounds : List Round}
    (hrounds : number + rounds.length = task.content.size / task.blockSize + 2)
    (htolerable : Tolerable task.settings.retryLimit.toNat number rounds) :
    let events := conversation number rounds
    let after := events.foldl (Run.handle task.reading) run
    Patient task.reading run events ∧ after.transfer.phase = .complete ∧
      Delivered task (task.content.size / task.blockSize + 1) after.sent := by
  have hsize := hreliable.sound.blockSize
  induction rounds generalizing run number with
  | nil =>
      have hnumber := hrun.waiting.number_le hreliable.sound
      simp only [List.length_nil] at hrounds
      omega
  | cons round rest ih =>
      obtain ⟨hround, hrest⟩ := htolerable
      obtain ⟨hdelays, retries, hready⟩ :=
        hrun.delays ((Nat.zero_add _).trans_le hround.1) hround.2
      have hopen := hready.waiting.isTerminal_eq_false
      rw [List.length_cons] at hrounds
      simp only [Transfer.conversation, Round.events, List.append_assoc, List.foldl_append,
        List.foldl_cons, List.singleton_append]
      by_cases hend : number ≤ task.content.size / task.blockSize
      · have hnext := hready.acknowledge hreliable ((Nat.le_div_iff_mul_le hsize).mp hend)
          round.acknowledged
        obtain ⟨hpatient, hafter⟩ := ih hnext (by omega) hrest
        exact ⟨hdelays.append ⟨hopen, hpatient⟩, hafter⟩
      · obtain rfl : rest = [] := List.eq_nil_of_length_eq_zero (by omega)
        obtain rfl : number = task.content.size / task.blockSize + 1 := by
          simp only [List.length_nil] at hrounds
          omega
        have hlast := (Nat.div_lt_iff_lt_mul hsize).mp (Nat.lt_of_not_le hend)
        exact ⟨hdelays.append ⟨hopen, trivial⟩, hready.finish hlast round.acknowledged⟩

theorem start_atWork (hreliable : Reliable task) (now : Time)
    (hstart : (task.opened.start task.reading task.world now).fault = none) :
    AtWork task task.opened.firstNumber 0
      (Run.extend ⟨task.opened, task.world, []⟩
        (task.opened.start task.reading task.world now)) := by
  have hnothing : Delivered task 0 (⟨task.opened, task.world, []⟩ : Run ω σ).sent :=
    ⟨rfl, fun _ hmem => nomatch hmem⟩
  unfold firstNumber
  rcases start_stands now hstart with ⟨hnone, hdue, hdata⟩ | ⟨hsome, hwaiting, hretries, hsent⟩
  · rw [hdata, if_pos hnone]
    exact .of_due hreliable hdue hnothing now
  · rw [if_neg hsome]
    refine ⟨hwaiting, ?_, congrArg UInt32.toNat hretries⟩
    rw [Run.extend, hsent]
    exact hnothing.repeat hwaiting.inFlight

theorem run_conversation (hreliable : Reliable task) (now : Time)
    (hstart : (task.opened.start task.reading task.world now).fault = none) {rounds : List Round}
    (hrounds : task.opened.firstNumber + rounds.length = task.content.size / task.blockSize + 2)
    (htolerable : Tolerable task.settings.retryLimit.toNat task.opened.firstNumber rounds) :
    let events := conversation task.opened.firstNumber rounds
    let run := task.opened.run task.reading task.world now events
    (∀ before after, before ++ after = events → after ≠ [] →
        (task.opened.run task.reading task.world now before).transfer.isTerminal = false) ∧
      run.transfer.phase = .complete ∧
      Delivered task (task.content.size / task.blockSize + 1) run.sent := by
  intro events run
  obtain ⟨hpatient, hcomplete⟩ :=
    (start_atWork hreliable now hstart).conversation hreliable hrounds htolerable
  refine ⟨fun before after hevents hafter => ?_, hcomplete⟩
  rw [show conversation _ rounds = before ++ after from hevents.symm] at hpatient
  exact hpatient.isTerminal_eq_false hafter

end Work

/-- Over a content in memory whose blocks fit into datagrams, a peer that acknowledges
the options and then every block, each of them at last, gets the whole content and no
ERROR. Until the last of these acknowledgements the transfer is not over, whatever
was lost, repeated or late before, as long as there were retries left. -/
theorem run_survives_loss (peer : Endpoint) {content : Content}
    (hcontent : content.size + 1 < UInt64.size) (accepted : Acceptance) {settings : Settings}
    (hsize : 0 < settings.blockSize.toNat)
    (hfits : min settings.blockSize.toNat content.size ≤ maxBlockSize.toNat) (world : ω)
    (now : Time)
    (hstart : ((create peer content accepted settings).start (Content.reading ω) world now).fault =
      none)
    {rounds : List Round}
    (hrounds : (create peer content accepted settings).firstNumber + rounds.length =
      content.size / settings.blockSize.toNat + 2)
    (htolerable : Tolerable settings.retryLimit.toNat
      (create peer content accepted settings).firstNumber rounds) :
    let opened := create peer content accepted settings
    let events := conversation opened.firstNumber rounds
    let run := opened.run (Content.reading ω) world now events
    (∀ before after, before ++ after = events → after ≠ [] →
        (opened.run (Content.reading ω) world now before).transfer.isTerminal = false) ∧
      run.transfer.phase = .complete ∧
      (deliveredBlocks run.sent).map decode =
        (List.range (content.size / settings.blockSize.toNat + 1)).map (fun i =>
          .ok (.data (UInt16.ofNat (i + 1)) (content.block settings.blockSize.toNat (i + 1)))) ∧
      (deliveredBlocks run.sent).flatMap dataOctets = content.toList ∧
      ∀ datagram ∈ run.sent, wireOpcode datagram ≠ some .error := by
  intro opened events run
  let task : Assignment ω Content :=
    ⟨Content.reading ω, content, world, content, peer, accepted, settings⟩
  have hreliable : Reliable task :=
    { sound := ⟨content.reading_serves world, hsize, hcontent⟩
      unfailing := fun source offset count _ =>
        congrArg ReadReply.error (source.readAt_eq offset count)
      fits := hfits }
  obtain ⟨hopen, hphase, hdelivered⟩ := run_conversation hreliable now hstart hrounds htolerable
  exact ⟨hopen, hphase, hdelivered.map_decode,
    hdelivered.flatMap_dataOctets hreliable.sound.blockSize, hdelivered.orderly⟩

/-- Two full blocks and an empty one, with one retry: each datagram but the last is
lost once, and acknowledgements come again after they were answered. -/
theorem run_survives_loss_of_two_blocks :
    let content : Content := (Array.range 16).map UInt8.ofNat
    let accepted : Acceptance := { entries := [⟨ascii "blksize", ascii "8"⟩] }
    let settings : Settings := { blockSize := 8, retryLimit := 1 }
    let rounds : List Round :=
      [⟨[.timeout 3], 4⟩, ⟨[.late 1 5, .timeout 7, .late 32767 8], 9⟩,
        ⟨[.timeout 12, .late 1 13, .late 2 13], 14⟩, ⟨[], 15⟩]
    let opened := create .zero content accepted settings
    let run := opened.run (Content.reading Unit) () 0 (conversation opened.firstNumber rounds)
    (opened.start (Content.reading Unit) () 0).fault = none ∧
      opened.firstNumber + rounds.length = content.size / settings.blockSize.toNat + 2 ∧
      Tolerable settings.retryLimit.toNat opened.firstNumber rounds ∧
      run.transfer.phase = .complete ∧
      (deliveredBlocks run.sent).flatMap dataOctets = content.toList := by
  intro content accepted settings rounds opened run
  have hcontent : content.size + 1 < UInt64.size := by decide +kernel
  have hsize : 0 < settings.blockSize.toNat := by decide
  have hfits : min settings.blockSize.toNat content.size ≤ maxBlockSize.toNat := by decide +kernel
  have hstart : (opened.start (Content.reading Unit) () 0).fault = none := by decide +kernel
  have hrounds : opened.firstNumber + rounds.length =
      content.size / settings.blockSize.toNat + 2 := by
    decide +kernel
  have htolerable : Tolerable settings.retryLimit.toNat opened.firstNumber rounds := by
    decide +kernel
  subst run opened
  obtain ⟨_, hphase, _, hoctets, _⟩ :=
    run_survives_loss .zero hcontent accepted hsize hfits () 0 hstart hrounds htolerable
  exact ⟨hstart, hrounds, htolerable, hphase, hoctets⟩

end TftpServer.Transfer
