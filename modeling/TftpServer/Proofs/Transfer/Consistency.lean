import TftpServer.Proofs.Transfer.Awaiting
import TftpServer.Proofs.Transfer.FailedRead
import TftpServer.Proofs.Transfer.Live

/-! # Consistent transfers

Stream, timer, datagram and retries of a transfer are set apart from each other, but
they never disagree. Either it waits, with a stream, and then the datagram in flight
is the last one that it sent, first for another reason and from then on for each
retry, and the timer runs since. Or it is over, with none of these, and nothing moves
it any more.
-/

namespace TftpServer

variable {ω σ : Type} {settings : Settings}

namespace Transfer

/-- The time that a cue comes with, if it comes with one. -/
def Cue.time? : Cue → Option Time
  | .start now => some now
  | .event occurred => occurred.time?

/-- The cue that the timer has run out. -/
def Cue.timer (now : Time) : Cue := .event (.timeout now)

/-- A transfer under way: its state, the world of its stream, and every datagram that
it has sent, behind the cue that it was sent on. -/
structure Course (ω σ : Type) where
  transfer : Transfer σ
  world : ω
  said : List (Cue × Octets) := []

namespace Course

def extend (course : Course ω σ) (cue : Cue) (step : Step ω σ) : Course ω σ :=
  ⟨step.transfer, step.world, course.said ++ step.sent.map (cue, ·)⟩

def take (reading : BufferedReading ω σ) (course : Course ω σ) (cue : Cue) : Course ω σ :=
  course.extend cue (course.transfer.take reading course.world cue)

end Course

def course (reading : BufferedReading ω σ) (transfer : Transfer σ) (world : ω) (cues : List Cue) :
    Course ω σ :=
  cues.foldl (Course.take reading) { transfer, world }

/-- A transfer that waits. What is in flight was sent on some other cue, and again for
each retry when the timer had run out, and nothing has been sent since. The timer runs
from then on to the end of the timeout, if 64 bits can hold that time. -/
structure Holding (settings : Settings) (transfer : Transfer σ) (said : List (Cue × Octets)) :
    Prop where
  waiting : transfer.phase = .awaitingOptionAck ∨ transfer.phase = .awaitingAck
  source : ∃ source, transfer.source = some source
  agreed : transfer.settings = settings
  inFlight : transfer.inFlight ≠ []
  repeated : ∃ earlier cue, ∃ timeouts : List Time,
    said = earlier ++ (cue, transfer.inFlight) ::
      timeouts.map (fun now => (Cue.timer now, transfer.inFlight)) ∧
    (∀ now, cue ≠ .timer now) ∧ timeouts.length = transfer.retries.toNat
  armed : ∃ cue now due, said.getLast? = some (cue, transfer.inFlight) ∧
    cue.time? = some now ∧ transfer.deadline = some due ∧
    (Time.Fits (now + seconds settings.timeout.toInt) →
      due = now + seconds settings.timeout.toInt)
  retries : transfer.retries ≤ settings.retryLimit

/-- A transfer whose parts agree on whether it is over. -/
structure Consistent (settings : Settings) (course : Course ω σ) : Prop where
  deadline : course.transfer.isTerminal = true ↔ course.transfer.deadline = none
  source : course.transfer.isTerminal = true ↔ course.transfer.source = none
  inFlight : course.transfer.isTerminal = true ↔ course.transfer.inFlight = []
  holding : course.transfer.isTerminal = false → Holding settings course.transfer course.said

section Consistent

variable {course : Course ω σ}

theorem Holding.isTerminal_eq_false {transfer : Transfer σ} {said : List (Cue × Octets)}
    (hholding : Holding settings transfer said) : transfer.isTerminal = false := by
  rcases hholding.waiting with hphase | hphase <;> simp [isTerminal, hphase]

theorem Holding.consistent (hholding : Holding settings course.transfer course.said) :
    Consistent settings course := by
  have hopen := hholding.isTerminal_eq_false
  obtain ⟨source, hsource⟩ := hholding.source
  obtain ⟨_, _, _, _, _, hdeadline, _⟩ := hholding.armed
  refine ⟨?_, ?_, ?_, fun _ => hholding⟩
  · simp [hopen, hdeadline]
  · simp [hopen, hsource]
  · simp [hopen, hholding.inFlight]

theorem Released.consistent (hreleased : course.transfer.Released) :
    Consistent settings course := by
  obtain ⟨hover, hsource, hdeadline, hinFlight⟩ := hreleased
  refine ⟨?_, ?_, ?_, fun hopen => nomatch hover.symm.trans hopen⟩
  · simp [hover, hdeadline]
  · simp [hover, hsource]
  · simp [hover, hinFlight]

end Consistent

end Transfer

open Transfer

/-! ## Steps -/

/-- A step that puts a datagram in flight. -/
structure Step.Launches (settings : Settings) (now : Time) (step : Step ω σ) : Prop where
  waiting : step.transfer.phase = .awaitingOptionAck ∨ step.transfer.phase = .awaitingAck
  source : ∃ source, step.transfer.source = some source
  agreed : step.transfer.settings = settings
  inFlight : step.transfer.inFlight ≠ []
  sent : step.sent = [step.transfer.inFlight]
  deadline : step.transfer.deadline = some (now.later (seconds settings.timeout.toInt))
  retries : step.transfer.retries = 0

/-- A step that sends nothing and leaves in flight what is in flight. -/
structure Step.Keeps (transfer : Transfer σ) (step : Step ω σ) : Prop where
  phase : step.transfer.phase = transfer.phase
  source : ∃ source, step.transfer.source = some source
  settings : step.transfer.settings = transfer.settings
  inFlight : step.transfer.inFlight = transfer.inFlight
  sent : step.sent = []
  deadline : step.transfer.deadline = transfer.deadline
  retries : step.transfer.retries = transfer.retries

section Steps

variable {transfer : Transfer σ} {said : List (Cue × Octets)} {step : Step ω σ} {cue : Cue}
  {now : Time}

theorem Step.Launches.holding (hlaunches : step.Launches settings now)
    (said : List (Cue × Octets)) (htime : cue.time? = some now) (hcue : ∀ now, cue ≠ .timer now) :
    Holding settings step.transfer (said ++ step.sent.map (cue, ·)) := by
  rw [hlaunches.sent]
  refine ⟨hlaunches.waiting, hlaunches.source, hlaunches.agreed, hlaunches.inFlight,
    ⟨said, cue, [], rfl, hcue, ?_⟩,
    ⟨cue, now, _, List.getLast?_concat, htime, hlaunches.deadline, Time.later_eq_add⟩, ?_⟩
  · rw [hlaunches.retries]
    rfl
  · rw [hlaunches.retries]
    exact UInt32.le_iff_toNat_le.mpr (Nat.zero_le _)

theorem Step.Keeps.holding (hkeeps : step.Keeps transfer)
    (hholding : Holding settings transfer said) (cue : Cue) :
    Holding settings step.transfer (said ++ step.sent.map (cue, ·)) := by
  obtain ⟨hwaiting, _, hsettings, hinFlight, hrepeated, harmed, hretries⟩ := hholding
  rw [hkeeps.sent, List.map_nil, List.append_nil]
  rw [← hkeeps.phase] at hwaiting
  rw [← hkeeps.settings] at hsettings
  rw [← hkeeps.inFlight] at hinFlight
  simp only [← hkeeps.inFlight, ← hkeeps.retries] at hrepeated
  simp only [← hkeeps.inFlight, ← hkeeps.deadline] at harmed
  rw [← hkeeps.retries] at hretries
  exact ⟨hwaiting, hkeeps.source, hsettings, hinFlight, hrepeated, harmed, hretries⟩

namespace Transfer

theorem keeps_self (hsource : ∃ source, transfer.source = some source) (world : ω)
    (fault : Option Fault) : Step.Keeps transfer { transfer, world, fault } :=
  ⟨rfl, hsource, rfl, rfl, rfl, rfl, rfl⟩

/-- A retry is one more repetition. -/
theorem Holding.repeat (hholding : Holding settings transfer said) (world : ω) (now : Time)
    (hretries : transfer.retries < transfer.settings.retryLimit) :
    let step := sendInFlight { transfer with retries := transfer.retries + 1 } world now
    Holding settings step.transfer (said ++ step.sent.map (Cue.timer now, ·)) := by
  intro step
  obtain ⟨hwaiting, hsource, hsettings, hinFlight, hrepeated, _, _⟩ := hholding
  obtain ⟨earlier, cue, timeouts, hsaid, hcue, hlength⟩ := hrepeated
  have hcount := toNat_retries_succ hretries
  refine ⟨hwaiting, hsource, hsettings, hinFlight, ⟨earlier, cue, timeouts ++ [now], ?_, hcue, ?_⟩,
    ⟨Cue.timer now, now, _, List.getLast?_concat, rfl, rfl, ?_⟩, ?_⟩
  · rw [hsaid, List.map_append, List.append_assoc]
    rfl
  · rw [List.length_append, hlength]
    exact hcount.symm
  · rw [← hsettings]
    exact Time.later_eq_add
  · rw [← hsettings]
    have hless := UInt32.lt_iff_toNat_lt.mp hretries
    exact UInt32.le_iff_toNat_le.mpr (by show (transfer.retries + 1).toNat ≤ _; omega)

theorem fail_error_released (transfer : Transfer σ) (world : ω) (detail : Octets) {code : ErrorCode}
    {text : Octets} (htext : 0 ∉ text) :
    (transfer.fail world detail (some (.error code text))).transfer.Released := by
  obtain ⟨datagram, _, hfail⟩ := fail_error transfer world detail htext
  rw [hfail]
  exact release_failed _

/-- What waits is not started again. -/
theorem start_of_started (reading : BufferedReading ω σ) (hphase : transfer.phase ≠ .sendingData)
    (world : ω) (now : Time) : transfer.start reading world now = { transfer, world } :=
  if_pos (Or.inl hphase)

theorem take_of_isTerminal (reading : BufferedReading ω σ) (hover : transfer.isTerminal = true)
    (world : ω) (cue : Cue) : transfer.take reading world cue = { transfer, world } := by
  cases cue with
  | start now =>
      refine start_of_started reading (fun hphase => ?_) world now
      simp [isTerminal, hphase] at hover
  | event event => exact handle_of_isTerminal reading world event hover

theorem sendRead_outcome {reply : ReadReply} (hreply : reply.error ≠ none → 0 ∉ reply.detail)
    (world : ω) (now : Time) (hsource : ∃ source, transfer.source = some source) :
    let step := transfer.sendRead world reply now
    step.Launches transfer.settings now ∨ step.transfer.Released ∨
      step.Keeps transfer ∧ step.fault ≠ none := by
  dsimp only [sendRead]
  cases herror : reply.error with
  | some failure =>
      refine Or.inr (Or.inl (fail_error_released _ _ _ ?_))
      split
      · exact failure.errorCode.printable_text.nul_notMem
      · exact hreply (by simp [herror])
  | none =>
      dsimp only
      split
      · exact Or.inr (Or.inl (fail_error_released _ _ _ (by decide +kernel)))
      next hlength =>
        have hfits : reply.octets.length ≤ transfer.settings.blockSize.toNat :=
          Nat.le_of_not_lt hlength
        by_cases hmax : reply.octets.length ≤ maxBlockSize.toNat
        · simp only [sendBlock, encodeData_eq_ok hfits hmax]
          exact Or.inl ⟨Or.inr rfl, hsource, rfl, dataDatagram_ne_nil _ _, rfl, rfl, rfl⟩
        · simp only [sendBlock, encodeData, if_pos (Or.inr (Nat.lt_of_not_le hmax))]
          exact Or.inr (Or.inr
            ⟨⟨rfl, hsource, rfl, rfl, rfl, rfl, rfl⟩, Option.some_ne_none _⟩)

section Reading

variable {reading : BufferedReading ω σ} (hreading : reading.Explains (0 ∉ ·))

include hreading

/-- Reading a block puts it in flight or ends the transfer, and if it can do neither,
all stays as it is. -/
theorem sendData_outcome (world : ω) (now : Time)
    (hsource : ∃ source, transfer.source = some source) :
    let step := transfer.sendData reading world now
    step.Launches transfer.settings now ∨ step.transfer.Released ∨
      step.Keeps transfer ∧ step.fault ≠ none := by
  obtain ⟨source, hsource⟩ := hsource
  have hexplained := hreading source (transfer.position.offset transfer.settings.blockSize)
    transfer.settings.blockSize world
  rcases hread : reading.read source (transfer.position.offset transfer.settings.blockSize)
    transfer.settings.blockSize world with ⟨result, next, after⟩
  rw [hread] at hexplained
  cases result with
  | error error =>
      rw [sendData_of_error world now hsource hread]
      exact Or.inr (Or.inr
        ⟨⟨rfl, ⟨next, rfl⟩, rfl, rfl, rfl, rfl, rfl⟩, Option.some_ne_none _⟩)
  | ok reply =>
      rw [sendData_of_ok world now hsource hread]
      have hheld : ∃ source, { transfer with source := some next }.source = some source :=
        ⟨next, rfl⟩
      rcases sendRead_outcome (hexplained reply rfl) after now hheld with
        hlaunches | hreleased | ⟨hkeeps, hfault⟩
      · exact Or.inl hlaunches
      · exact Or.inr (Or.inl hreleased)
      · exact Or.inr (Or.inr ⟨{ hkeeps with }, hfault⟩)

theorem Holding.sendData (hholding : Holding settings transfer said) {next : Transfer σ}
    (hnext : ∀ step : Step ω σ, step.Keeps next → step.Keeps transfer)
    (hsource : next.source = transfer.source) (hsettings : next.settings = transfer.settings)
    (world : ω) {cue : Cue} {now : Time} (htime : cue.time? = some now)
    (hcue : ∀ now, cue ≠ .timer now) :
    let step := next.sendData reading world now
    Holding settings step.transfer (said ++ step.sent.map (cue, ·)) ∨ step.transfer.Released := by
  intro step
  rcases sendData_outcome hreading world now (hsource ▸ hholding.source) with
    hlaunches | hreleased | ⟨hkeeps, _⟩
  · rw [hsettings, hholding.agreed] at hlaunches
    exact Or.inl (hlaunches.holding said htime hcue)
  · exact Or.inr hreleased
  · exact Or.inl ((hnext _ hkeeps).holding hholding cue)

theorem Holding.handle (hholding : Holding settings transfer said) (world : ω) (event : Event) :
    let step := transfer.handle reading world event
    Holding settings step.transfer (said ++ step.sent.map (Cue.event event, ·)) ∨
      step.transfer.Released := by
  intro step
  have hreaction : Reaction reading transfer world event step :=
    handle_reaction reading world event hholding.isTerminal_eq_false
  generalize step = step at hreaction ⊢
  cases hreaction with
  | ignored => exact Or.inl ((keeps_self hholding.source world none).holding hholding _)
  | mismatched message now _ =>
      exact Or.inl ((keeps_self hholding.source world _).holding hholding _)
  | abandoned code text now => exact Or.inr (release_failed _)
  | rejected _ detail _ _ =>
      exact Or.inr (fail_error_released _ _ _
        (ErrorCode.printable_text .illegalOperation).nul_notMem)
  | exhausted now detail _ _ => exact Or.inr (release_failed _)
  | repeated now _ hretries => exact Or.inl (hholding.repeat world now hretries)
  | confirmed now _ => exact hholding.sendData hreading (fun _ => id) rfl rfl world rfl nofun
  -- The position has moved on, but all that is held is as before.
  | advanced now _ _ =>
      refine hholding.sendData hreading (fun step hkeeps => ?_) (by rfl) (by rfl) world rfl nofun
      exact { hkeeps with }
  | finished now _ _ => exact Or.inr ⟨rfl, rfl, rfl, rfl⟩

theorem start_outcome {peer : Endpoint} {source : σ} {accepted : Acceptance} {world : ω}
    (hstart : ((create peer source accepted settings).start reading world now).fault = none) :
    ((create peer source accepted settings).start reading world now).Launches settings now ∨
      ((create peer source accepted settings).start reading world now).transfer.Released := by
  have hentries := nul_notMem_of_start_fault hstart
  have hsource : (create peer source accepted settings).source = some source := rfl
  rcases start_cases reading (create peer source accepted settings) rfl rfl hentries world now with
    ⟨_, hstep⟩ | ⟨_, body, _, hstep⟩
  · rw [hstep] at hstart ⊢
    rcases sendData_outcome hreading world now ⟨source, hsource⟩ with
      hlaunches | hreleased | ⟨_, hfault⟩
    · exact Or.inl hlaunches
    · exact Or.inr hreleased
    · exact absurd hstart hfault
  · rw [hstep]
    refine Or.inl ⟨Or.inl rfl, ⟨source, hsource⟩, rfl, ?_, rfl, rfl, rfl⟩
    simp [sendInFlight, wordOctets]

theorem start_fault_of_sendable {peer : Endpoint} (source : σ) {accepted : Acceptance}
    (hentries : ∀ field ∈ accepted.entries, 0 ∉ field.name ∧ 0 ∉ field.value)
    (hsize : settings.blockSize ≤ maxBlockSize) (world : ω)
    (hanswered : ∀ offset, ∃ reply,
      (reading.read source offset settings.blockSize world).1 = .ok reply) (now : Time) :
    ((create peer source accepted settings).start reading world now).fault = none := by
  have hsource : (create peer source accepted settings).source = some source := rfl
  rcases start_cases reading (create peer source accepted settings) rfl rfl hentries world now with
    ⟨_, heq⟩ | ⟨_, body, _, heq⟩
  · obtain ⟨reply, hreply⟩ := hanswered (BlockPosition.first.offset settings.blockSize)
    have hexplained := hreading _ _ _ _ reply hreply
    rw [heq, sendData_of_ok world now hsource (Prod.ext hreply rfl)]
    refine (sendRead_sound hexplained _ now ?_ ?_).fault
    · exact ⟨_, rfl⟩
    · exact hsize
  · rw [heq]
    rfl

theorem Holding.take (hholding : Holding settings transfer said) (world : ω) (cue : Cue) :
    let step := transfer.take reading world cue
    Holding settings step.transfer (said ++ step.sent.map (cue, ·)) ∨ step.transfer.Released := by
  cases cue with
  | start now =>
      have hphase : transfer.phase ≠ .sendingData := by
        rcases hholding.waiting with hphase | hphase <;> simp [hphase]
      have hstep : transfer.take reading world (.start now) = { transfer, world } :=
        start_of_started reading hphase world now
      rw [hstep]
      exact Or.inl ((keeps_self hholding.source world none).holding hholding _)
  | event event => exact hholding.handle hreading world event

end Reading

end Transfer

end Steps

/-! ## Courses -/

namespace Transfer

theorem course_append (reading : BufferedReading ω σ) (transfer : Transfer σ) (world : ω)
    (earlier later : List Cue) :
    transfer.course reading world (earlier ++ later) =
      later.foldl (Course.take reading) (transfer.course reading world earlier) :=
  List.foldl_append

theorem Course.take_of_isTerminal (reading : BufferedReading ω σ) {course : Course ω σ}
    (hover : course.transfer.isTerminal = true) (cue : Cue) : course.take reading cue = course := by
  rw [take, Transfer.take_of_isTerminal reading hover course.world cue, extend]
  simp

theorem Course.foldl_of_isTerminal (reading : BufferedReading ω σ) {course : Course ω σ}
    (hover : course.transfer.isTerminal = true) (cues : List Cue) :
    cues.foldl (take reading) course = course := by
  induction cues with
  | nil => rfl
  | cons cue rest ih => rw [List.foldl_cons, take_of_isTerminal reading hover cue, ih]

/-- Once it has begun to wait, a transfer goes on to wait until it is over. -/
theorem Course.foldl_stands {reading : BufferedReading ω σ} (hreading : reading.Explains (0 ∉ ·))
    {course : Course ω σ}
    (hstands : Holding settings course.transfer course.said ∨ course.transfer.Released)
    (cues : List Cue) :
    let after := cues.foldl (take reading) course
    Holding settings after.transfer after.said ∨ after.transfer.Released := by
  induction cues generalizing course with
  | nil => exact hstands
  | cons cue rest ih =>
      apply ih
      rcases hstands with hholding | hreleased
      · exact hholding.take hreading course.world cue
      · rw [take_of_isTerminal reading hreleased.terminal cue]
        exact Or.inr hreleased

/-- The parts of a transfer never disagree. Over any stream whose failures can be told,
a transfer with options and blocks that can be sent starts without a fault, unless the
first read is broken off. Once it has started so, whatever it is given to take, and even
if later reads are broken off, it is over exactly if it has no timer, exactly if it has no
stream, and exactly if it has no datagram. Else it waits with the datagram that it sent
last, which has been repeated once for each retry and no more often than it may be, and
with the timer that it set then. Once it is over, nothing is sent any more and nothing
changes, even if it is started again. -/
theorem course_consistent {reading : BufferedReading ω σ} (hreading : reading.Explains (0 ∉ ·))
    (peer : Endpoint) (source : σ) (accepted : Acceptance) (settings : Settings) (world : ω)
    (now : Time) :
    let opened := create peer source accepted settings
    ((∀ field ∈ accepted.entries, 0 ∉ field.name ∧ 0 ∉ field.value) →
      settings.blockSize ≤ maxBlockSize →
      (∀ offset, ∃ reply, (reading.read source offset settings.blockSize world).1 = .ok reply) →
        (opened.start reading world now).fault = none) ∧
    ((opened.start reading world now).fault = none → ∀ cues,
      let course := opened.course reading world (.start now :: cues)
      Consistent settings course ∧
        (course.transfer.isTerminal = true → ∀ later,
          opened.course reading world (.start now :: cues ++ later) = course)) := by
  intro opened
  refine ⟨fun hentries hsize hanswered => ?_, fun hstart cues => ?_⟩
  · exact start_fault_of_sendable hreading source hentries hsize world hanswered now
  intro course
  refine ⟨?_, fun hover later => ?_⟩
  · have hstarted : Holding settings (opened.course reading world [.start now]).transfer
          (opened.course reading world [.start now]).said ∨
        (opened.course reading world [.start now]).transfer.Released :=
      (start_outcome hreading hstart).imp_left fun hlaunches => hlaunches.holding [] rfl nofun
    rcases Course.foldl_stands hreading hstarted cues with hholding | hreleased
    · exact Holding.consistent hholding
    · exact Released.consistent hreleased
  · rw [course_append]
    exact Course.foldl_of_isTerminal reading hover later

/-- Ten octets in blocks of eight: the options are repeated once, and after the second
block it is of no use to start again. -/
theorem course_consistent_for_ten_octets :
    let content : Content := (Array.range 10).map UInt8.ofNat
    let accepted := negotiate {} none [⟨ascii "blksize", ascii "8"⟩]
    let settings := resolveSettings accepted 3 5
    let opened := create .zero content accepted settings
    let cues := [Cue.timer 7, .event (.packet (.ack 0) 8), .event (.packet (.ack 1) 9),
      .event (.packet (.ack 2) 10)]
    let waiting := opened.course (Content.reading Unit) () [.start 0, .timer 7]
    let ended := opened.course (Content.reading Unit) () (.start 0 :: cues)
    (Content.reading Unit).Explains (0 ∉ ·) ∧
      (opened.start (Content.reading Unit) () 0).fault = none ∧
      Holding settings waiting.transfer waiting.said ∧
      waiting.transfer.deadline = some (7 + seconds 3) ∧ waiting.transfer.retries = 1 ∧
      ended.said.length = 4 ∧ ended.transfer.deadline = none ∧
      opened.course (Content.reading Unit) () (.start 0 :: cues ++ [.start 11]) = ended := by
  intro content accepted settings opened cues waiting ended
  have hreading : (Content.reading Unit).Explains (0 ∉ ·) := Content.reading_explains _
  have hentries : ∀ field ∈ accepted.entries, 0 ∉ field.name ∧ 0 ∉ field.value := by
    decide +kernel
  obtain ⟨hfaultless, hcourse⟩ :=
    course_consistent hreading.unbroken .zero content accepted settings () 0
  have hstart := hfaultless hentries (by decide +kernel) fun _ => ⟨_, rfl⟩
  have hopen : waiting.transfer.isTerminal = false := by decide +kernel
  have hover : ended.transfer.isTerminal = true := by decide +kernel
  have hdeadline : waiting.transfer.deadline = some (7 + seconds 3) := by decide +kernel
  have hretries : waiting.transfer.retries = 1 := by decide +kernel
  have hsaid : ended.said.length = 4 := by decide +kernel
  obtain ⟨hwaiting, _⟩ := hcourse hstart [.timer 7]
  obtain ⟨hconsistent, hlater⟩ := hcourse hstart cues
  exact ⟨hreading, hstart, hwaiting.holding hopen, hdeadline, hretries, hsaid,
    hconsistent.deadline.mp hover, hlater hover [.start 11]⟩

/-- With a timeout of more than nine million years, a transfer that was started after a
second waits with a deadline before that second: 64 bits cannot hold the end of the
timeout. -/
theorem not_holding_until_timeout :
    let settings : Settings := { timeout := 288230376151711 }
    let opened := create .zero (#[65] : Content) {} settings
    let course := opened.course (Content.reading Unit) () [.start (seconds 1)]
    (Content.reading Unit).Explains (0 ∉ ·) ∧
      (opened.start (Content.reading Unit) () (seconds 1)).fault = none ∧
      course.transfer.phase = .awaitingAck ∧
      course.said.map Prod.snd = [course.transfer.inFlight] ∧
      course.transfer.deadline = some (milliseconds 256) ∧
      milliseconds 256 ≠ seconds 1 + seconds settings.timeout.toInt := by
  dsimp only
  exact ⟨Content.reading_explains _, by decide +kernel, by decide +kernel, by decide +kernel,
    by decide +kernel, by decide +kernel⟩

end Transfer

end TftpServer
