import TftpServer.Proofs.Store.Serving
import TftpServer.Proofs.Transfer.Sendings

/-! # Waiting for an answer

Between two events a transfer of a content waits for the answer to one datagram:
its options, or the block with a number counted over all wraps. This is what is
known of it then, and what a timeout, a stale acknowledgement and the awaited one
lead to. A stream may fail, and blocks may be too long for a datagram.
-/

namespace TftpServer

variable {ω σ : Type}

/-- What a transfer is set up for: to pass the content that a stream serves on to a
peer, on the terms that were settled. -/
structure Assignment (ω σ : Type) where
  reading : Reading ω σ
  source : σ
  world : ω
  content : Content
  peer : Endpoint
  accepted : Acceptance
  settings : Settings

namespace Assignment

variable (task : Assignment ω σ)

def opened : Transfer σ :=
  .create task.peer task.source task.accepted task.settings

def blockSize : Nat :=
  task.settings.blockSize.toNat

def block (number : Nat) : Octets :=
  task.content.block task.blockSize number

def Reaches (source : σ) (world : ω) : Prop :=
  task.reading.Reaches task.source task.world source world

def Spelled (number : Nat) (datagram : Octets) : Prop :=
  (Subject.ofNumber number).Spelled task.accepted.entries task.content task.blockSize datagram

/-- The stream serves the content, the content is cut into blocks, and 64 bits
suffice to number them. -/
structure Sound : Prop where
  serves : task.reading.Serves task.source task.world task.content
  blockSize : 0 < task.blockSize
  size : task.content.size + 1 < UInt64.size

variable {task}

theorem length_block_succ (done : Nat) :
    (task.block (done + 1)).length =
      min task.blockSize (task.content.size - done * task.blockSize) :=
  task.content.length_block_succ task.blockSize done

namespace Sound

variable (hsound : task.Sound) {done : Nat} (hreached : done * task.blockSize ≤ task.content.size)

include hsound hreached

theorem number_lt : done + 1 < UInt64.size := by
  have hgrown : done ≤ done * task.blockSize := Nat.le_mul_of_pos_right done hsound.blockSize
  have hsize := hsound.size
  omega

/-- The reads of a transfer start at the blocks of the content. -/
theorem toNat_offset :
    ((BlockPosition.ofNumber (done + 1)).offset task.settings.blockSize).toNat =
      done * task.blockSize := by
  rw [BlockPosition.offset_ofNumber (hsound.number_lt hreached)]
  have hsize := hsound.size
  have hstart : done * task.settings.blockSize.toNat ≤ task.content.size := hreached
  exact UInt64.toNat_ofNat_of_lt' (by omega)

end Sound

end Assignment

namespace Transfer

open Assignment

/-- The answer to one datagram is waited for: to block `number`, or to the options
if there was no block yet. -/
structure Waiting (task : Assignment ω σ) (number : Nat) (transfer : Transfer σ) (world : ω) :
    Prop where
  phase : transfer.phase = if number = 0 then .awaitingOptionAck else .awaitingAck
  settings : transfer.settings = task.settings
  source : ∃ source, transfer.source = some source ∧ task.Reaches source world
  position : transfer.position = .ofNumber (max number 1)
  inFlight : task.Spelled number transfer.inFlight
  final : number ≠ 0 → transfer.finalBlock = decide (task.content.size < number * task.blockSize)
  fits : number ≠ 0 → (task.block number).length ≤ maxBlockSize.toNat

/-- The block behind `done` others is to be read next, and the content reaches
that far. -/
structure Due (task : Assignment ω σ) (done : Nat) (transfer : Transfer σ) (world : ω) : Prop where
  settings : transfer.settings = task.settings
  source : ∃ source, transfer.source = some source ∧ task.Reaches source world
  position : transfer.position = .ofNumber (done + 1)
  reached : done * task.blockSize ≤ task.content.size

/-- What comes of reading the block behind `done` others: it is sent, the stream
fails and the peer is told, or it is too long for a datagram. -/
inductive Supplied (task : Assignment ω σ) (done : Nat) (transfer : Transfer σ) (world : ω) :
    Step ω σ → Prop where
  | sent (step : Step ω σ) (hwaiting : Waiting task (done + 1) step.transfer step.world)
      (hretries : step.transfer.retries = 0) (hsent : step.sent = [step.transfer.inFlight]) :
      Supplied task done transfer world step
  | failed (step : Step ω σ) (datagram : Octets)
      (hfailed : ∃ source offset count,
        (task.reading.read source offset count world).1.error ≠ none)
      (hover : step.transfer.isTerminal = true) (hsent : step.sent = [datagram])
      (hopcode : wireOpcode datagram = some .error) : Supplied task done transfer world step
  | unfit (source : σ) (after : ω) (final : Bool) (hsource : task.Reaches source after)
      (hunfit : maxBlockSize.toNat < (task.block (done + 1)).length) :
      Supplied task done transfer world
        { transfer := { transfer with source := some source, finalBlock := final }
          world := after
          fault := some (.encoding .oversizedData) }

section Steps

/-- A transfer that fails with an ERROR is over, and has sent it. -/
theorem fail_error_refuses (transfer : Transfer σ) (world : ω) (detail : Octets) {code : ErrorCode}
    {text : Octets} (htext : 0 ∉ text) :
    let step := transfer.fail world detail (some (.error code text))
    step.transfer.isTerminal = true ∧
      ∃ datagram, step.sent = [datagram] ∧ wireOpcode datagram = some .error := by
  obtain ⟨datagram, hencode, hfail⟩ := fail_error transfer world detail htext
  rw [hfail]
  exact ⟨rfl, datagram, rfl, wireOpcode_of_decode (decode_of_encode_error hencode)⟩

variable {task : Assignment ω σ} {transfer : Transfer σ} {world : ω}

/-! ## Reading the next block -/

section Reading

variable {done : Nat} (hdue : Due task done transfer world) (hsound : task.Sound)

include hdue hsound

theorem Due.octets {source next : σ} {after : ω} {reply : ReadReply}
    (hreaches : task.Reaches source world)
    (hread : task.reading.read source (transfer.position.offset transfer.settings.blockSize)
      transfer.settings.blockSize world = (reply, next, after)) (herror : reply.error = none) :
    reply.octets = task.block (done + 1) := by
  rw [hsound.serves.octets hreaches hread herror, hdue.position, hdue.settings,
    hsound.toNat_offset hdue.reached]
  rfl

theorem Due.sendData (now : Time) :
    Supplied task done transfer world (transfer.sendData task.reading world now) := by
  obtain ⟨source, hsource, hreaches⟩ := hdue.source
  have hsize : transfer.settings.blockSize.toNat = task.blockSize :=
    congrArg (fun settings => settings.blockSize.toNat) hdue.settings
  have hlength := task.length_block_succ done
  rcases sendData_cases task.reading world now hsource with hfetch |
    ⟨reply, next, after, hread, herror, hover, _, hstep⟩
  · generalize transfer.sendData task.reading world now = step at hfetch
    cases hfetch with
    | failed reply next after failure hread herror =>
        have hfailed : reply.error ≠ none := herror ▸ Option.some_ne_none failure
        have htext : 0 ∉ if reply.detail = [] then failure.errorCode.text else reply.detail := by
          split
          · exact failure.errorCode.printable_text.nul_notMem
          · exact hsound.serves.nul_notMem_detail hreaches hread hfailed
        obtain ⟨hover, datagram, hsent, hopcode⟩ :=
          fail_error_refuses { transfer with source := some next } after _ htext
        exact .failed _ datagram ⟨_, _, _, by rwa [hread]⟩ hover hsent hopcode
    | oversized reply next after hread herror hover =>
        rw [hdue.octets hsound hreaches hread herror, hsize] at hover
        omega
    | sent reply next after hread herror _ hmax =>
        have hoctets := hdue.octets hsound hreaches hread herror
        refine .sent _ ⟨(if_neg (Nat.succ_ne_zero done)).symm, hdue.settings,
          ⟨next, rfl, .read hreaches hread herror⟩, ?_, ?_, fun _ => ?_, fun _ => hoctets ▸ hmax⟩
          rfl rfl
        · rw [Nat.max_eq_left (Nat.le_add_left 1 done)]
          exact hdue.position
        · simp only [sendInFlight, hdue.position, hoctets]
          exact .block done hdue.reached
        · simp only [sendInFlight, hoctets, hsize, hlength, decide_eq_decide, Nat.succ_mul]
          have hreached := hdue.reached
          omega
  · rw [hstep]
    refine .unfit next after _ (.read hreaches hread herror) ?_
    rwa [← hdue.octets hsound hreaches hread herror]

end Reading

/-! ## The answers -/

/-- A retry that is allowed can be counted. -/
theorem toNat_retries_succ {retries limit : UInt32} (hretries : retries < limit) :
    (retries + 1).toNat = retries.toNat + 1 := by
  have hless := UInt32.lt_iff_toNat_lt.mp hretries
  have hbound := limit.toNat_lt
  simp only [UInt32.toNat_add, UInt32.reduceToNat]
  omega

theorem handle_ack (reading : Reading ω σ) (hopen : transfer.isTerminal = false) (block : UInt16)
    (now : Time) :
    transfer.handle reading world (.packet (.ack block) now) =
      transfer.acknowledge reading world block now := by
  rw [handle, receive, if_neg (Bool.eq_false_iff.mp hopen)]
  rfl

/-- Unless the options are still in flight, what an acknowledgement leads to depends
on how far it trails the block in flight. -/
theorem handle_ack_by_lag (reading : Reading ω σ) (world : ω) (hopen : transfer.isTerminal = false)
    (hphase : transfer.phase ≠ .awaitingOptionAck) (block : UInt16) (now : Time) :
    transfer.handle reading world (.packet (.ack block) now) =
      if transfer.position.lag block = 0 then
        if transfer.finalBlock then transfer.finish world
        else { transfer with position := transfer.position.next }.sendData reading world now
      else if transfer.position.lag block ≤ 32767 then { transfer, world }
      else
        transfer.fail world
          (ascii "ACK " ++ Text.decimal block.toNat ++ ascii " is ahead of block " ++
            Text.decimal transfer.position.block.toNat)
          (some (.standardError .illegalOperation)) := by
  rw [handle_ack reading hopen, acknowledge, if_neg hphase]
  simp only [isEarlierBlock_iff, BlockPosition.toNat_block_sub, ← BlockPosition.lag_eq_zero_iff]
  split
  · rfl
  next hlag => simp only [Nat.one_le_iff_ne_zero.mpr hlag, true_and]

section Answers

variable {number : Nat} (hwaiting : Waiting task number transfer world)

include hwaiting

theorem Waiting.isTerminal_eq_false : transfer.isTerminal = false := by
  simp only [isTerminal, hwaiting.phase]
  split <;> rfl

theorem Waiting.phase_eq_awaitingOptionAck : transfer.phase = .awaitingOptionAck ↔ number = 0 := by
  rw [hwaiting.phase]
  split
  next hnone => exact iff_of_true rfl hnone
  next hsome => exact iff_of_false (by decide) hsome

theorem Waiting.wireOpcode_inFlight :
    wireOpcode transfer.inFlight = some (if number = 0 then .oack else .data) :=
  hwaiting.inFlight.wireOpcode

theorem Waiting.inFlight_ne_nil : transfer.inFlight ≠ [] := by
  intro hnil
  have hopcode := hwaiting.wireOpcode_inFlight
  rw [hnil] at hopcode
  cases hopcode

theorem Waiting.number_le (hsound : task.Sound) :
    number ≤ task.content.size / task.blockSize + 1 := by
  cases number with
  | zero => exact Nat.zero_le _
  | succ done =>
      have hreached := hwaiting.inFlight.eq_blockDatagram.2
      exact Nat.succ_le_succ ((Nat.le_div_iff_mul_le hsound.blockSize).mpr hreached)

/-- What the options or a block were sent as stays in flight when it is repeated. -/
theorem Waiting.repeat (now : Time) :
    let step := sendInFlight { transfer with retries := transfer.retries + 1 } world now
    Waiting task number step.transfer step.world :=
  ⟨hwaiting.phase, hwaiting.settings, hwaiting.source, hwaiting.position, hwaiting.inFlight,
    hwaiting.final, hwaiting.fits⟩

theorem Waiting.due_first (hnumber : number = 0) : Due task 0 transfer world := by
  subst hnumber
  exact ⟨hwaiting.settings, hwaiting.source, hwaiting.position, by simp⟩

/-- Behind a full block there is another one, and it is no longer than that. -/
theorem Waiting.due_next (hnumber : number ≠ 0) (hfull : transfer.finalBlock = false) :
    Due task number { transfer with position := transfer.position.next } world ∧
      task.blockSize ≤ maxBlockSize.toNat := by
  have hlast := hwaiting.final hnumber
  rw [hfull] at hlast
  have hreached : number * task.blockSize ≤ task.content.size :=
    Nat.le_of_not_lt (of_decide_eq_false hlast.symm)
  obtain ⟨done, rfl⟩ := Nat.exists_eq_succ_of_ne_zero hnumber
  refine ⟨⟨hwaiting.settings, hwaiting.source, ?_, hreached⟩, ?_⟩
  · rw [hwaiting.position, Nat.max_eq_left (Nat.le_add_left 1 done), BlockPosition.next_ofNumber]
  · have hfits := hwaiting.fits hnumber
    rw [length_block_succ] at hfits
    rw [Nat.succ_mul] at hreached
    omega

theorem Waiting.block_position (hnumber : number ≠ 0) :
    transfer.position.block = UInt16.ofNat number := by
  rw [hwaiting.position, Nat.max_eq_left (Nat.one_le_iff_ne_zero.mpr hnumber)]
  rfl

theorem Waiting.lag_eq_zero (hnumber : number ≠ 0) :
    transfer.position.lag (UInt16.ofNat number) = 0 := by
  rw [BlockPosition.lag_eq_zero_iff, hwaiting.block_position hnumber]

theorem Waiting.handle_first_ack (reading : Reading ω σ) (hnumber : number = 0) (now : Time) :
    transfer.handle reading world (.packet (.ack (UInt16.ofNat number)) now) =
      transfer.sendData reading world now := by
  have hphase := hwaiting.phase_eq_awaitingOptionAck.mpr hnumber
  have hzero : UInt16.ofNat number = 0 := by
    rw [hnumber]
    rfl
  rw [handle_ack reading hwaiting.isTerminal_eq_false, acknowledge, if_pos hphase,
    if_neg (not_not_intro hzero)]

section Block

variable (reading : Reading ω σ) (hnumber : number ≠ 0) (now : Time)

include hnumber

theorem Waiting.handle_full_ack (hfull : transfer.finalBlock = false) :
    transfer.handle reading world (.packet (.ack (UInt16.ofNat number)) now) =
      { transfer with position := transfer.position.next }.sendData reading world now := by
  have hphase := mt hwaiting.phase_eq_awaitingOptionAck.mp hnumber
  rw [handle_ack_by_lag reading world hwaiting.isTerminal_eq_false hphase,
    if_pos (hwaiting.lag_eq_zero hnumber), if_neg (Bool.eq_false_iff.mp hfull)]

theorem Waiting.handle_last_ack (hlast : transfer.finalBlock = true) :
    transfer.handle reading world (.packet (.ack (UInt16.ofNat number)) now) =
      transfer.finish world := by
  have hphase := mt hwaiting.phase_eq_awaitingOptionAck.mp hnumber
  rw [handle_ack_by_lag reading world hwaiting.isTerminal_eq_false hphase,
    if_pos (hwaiting.lag_eq_zero hnumber), if_pos hlast]

end Block

theorem Waiting.handle_timeout (reading : Reading ω σ)
    (hretries : transfer.retries < transfer.settings.retryLimit) (now : Time) :
    transfer.handle reading world (.timeout now) =
      sendInFlight { transfer with retries := transfer.retries + 1 } world now := by
  have hactive : ¬ (transfer.isTerminal = true ∨ transfer.inFlight = []) := by
    simp [hwaiting.isTerminal_eq_false, hwaiting.inFlight_ne_nil]
  rw [handle, Transfer.timeout, if_neg hactive, if_neg (UInt32.not_le.mpr hretries)]

end Answers

/-! ## Starting -/

/-- A transfer that starts waits for the answer to its options, if it has any, and
else reads the first block at once. -/
theorem start_stands (now : Time)
    (hstart : (task.opened.start task.reading task.world now).fault = none) :
    let step := task.opened.start task.reading task.world now
    (task.opened.options = [] ∧ Due task 0 task.opened task.world ∧
        step = task.opened.sendData task.reading task.world now) ∨
      task.opened.options ≠ [] ∧ Waiting task 0 step.transfer step.world ∧
        step.transfer.retries = 0 ∧ step.sent = [step.transfer.inFlight] := by
  have hentries := nul_notMem_of_start_fault hstart
  have hposition : task.opened.position = .ofNumber 1 := BlockPosition.ofNumber_one.symm
  have hsource : ∃ source, task.opened.source = some source ∧ task.Reaches source task.world :=
    ⟨task.source, rfl, .refl⟩
  rcases start_cases task.reading task.opened rfl rfl hentries task.world now with
    ⟨hnone, hdata⟩ | ⟨hsome, body, hencode, hoptions⟩
  · exact Or.inl ⟨hnone, ⟨rfl, hsource, hposition, by simp⟩, hdata⟩
  · rw [hoptions]
    exact Or.inr ⟨hsome, ⟨rfl, rfl, hsource, hposition, .options hsome hencode,
      fun hnumber => absurd rfl hnumber, fun hnumber => absurd rfl hnumber⟩, rfl, rfl⟩

/-! ## Late acknowledgements -/

/-- An acknowledgement that trails the block of a transfer changes nothing, unless
the options are still in flight. -/
theorem handle_late (reading : Reading ω σ) (transfer : Transfer σ) (world : ω)
    (hphase : transfer.phase ≠ .awaitingOptionAck) {distance : Nat} (hpositive : 1 ≤ distance)
    (hbound : distance ≤ 32767) (now : Time) :
    transfer.handle reading world
        (.packet (.ack (transfer.position.block - UInt16.ofNat distance)) now) =
      { transfer, world } := by
  cases hopen : transfer.isTerminal with
  | true => exact handle_of_isTerminal reading world _ hopen
  | false =>
      have hlag := transfer.position.lag_block_sub (Nat.lt_of_le_of_lt hbound (by decide))
      rw [handle_ack_by_lag reading world hopen hphase, hlag,
        if_neg (Nat.one_le_iff_ne_zero.mp hpositive), if_pos hbound]

end Steps

end Transfer

end TftpServer
