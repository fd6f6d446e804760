import TftpServer.Proofs.Packet.WireForm
import TftpServer.Proofs.Text.Printable

/-! # Reactions of a transfer

Everything that an event can do to a transfer that is not over yet. Whatever
holds along all runs is proved once for each of these reactions, and once more
for what comes of reading the next block.
-/

namespace TftpServer.Transfer

open Text

variable {ω σ : Type}

/-- What can happen to a transfer once it has started. -/
inductive Event where
  | packet (message : Message) (now : Time)
  | malformed (status : DecodeStatus)
  | timeout (now : Time)

def handle (reading : BufferedReading ω σ) (transfer : Transfer σ) (world : ω) : Event → Step ω σ
  | .packet message now => transfer.receive reading world message now
  | .malformed status => transfer.receiveMalformed world status
  | .timeout now => transfer.timeout world now

/-- What an ERROR from the peer leaves behind as the detail of the failure. The
text is the peer's own. -/
def peerErrorDetail (code : ErrorCode) (text : Octets) : Octets :=
  ascii "peer sent ERROR " ++ decimal code.value.toNat ++ ascii ": " ++ text

/-- The reactions of a transfer that is not over: what the step for an event
comes to, and what the event was. -/
inductive Reaction (reading : BufferedReading ω σ) (transfer : Transfer σ) (world : ω) :
    Event → Step ω σ → Prop where
  -- A stale acknowledgement, or a timer without a datagram to repeat.
  | ignored (event : Event) : Reaction reading transfer world event { transfer, world }
  -- A message whose payload does not fit its opcode.
  | mismatched (message : Message) (now : Time) (hmessage : ¬ message.Coherent) :
      Reaction reading transfer world (.packet message now)
        { transfer, world, fault := some .wrongPayload }
  -- An ERROR from the peer.
  | abandoned (code : ErrorCode) (text : Octets) (now : Time) :
      Reaction reading transfer world (.packet (.error code text) now)
        (transfer.fail world (peerErrorDetail code text) none)
  -- A datagram that does not belong there, answered with an ERROR.
  | rejected (event : Event) (detail : Octets) (hdetail : Printable detail)
      (hevent : ∀ now, event ≠ .timeout now) :
      Reaction reading transfer world event
        (transfer.fail world detail (some (.standardError .illegalOperation)))
  -- The timer has run out once too often.
  | exhausted (now : Time) (detail : Octets) (hdetail : Printable detail)
      (hretries : transfer.settings.retryLimit ≤ transfer.retries) :
      Reaction reading transfer world (.timeout now) (transfer.fail world detail none)
  -- The timer has run out, and the datagram in flight is repeated.
  | repeated (now : Time) (hinFlight : transfer.inFlight ≠ [])
      (hretries : transfer.retries < transfer.settings.retryLimit) :
      Reaction reading transfer world (.timeout now)
        (sendInFlight { transfer with retries := transfer.retries + 1 } world now)
  -- The option acknowledgement is acknowledged.
  | confirmed (now : Time) (hphase : transfer.phase = .awaitingOptionAck) :
      Reaction reading transfer world (.packet (.ack 0) now)
        (transfer.sendData reading world now)
  -- The block in flight is acknowledged, and another one follows.
  | advanced (now : Time) (hphase : transfer.phase ≠ .awaitingOptionAck)
      (hfinal : transfer.finalBlock = false) :
      Reaction reading transfer world (.packet (.ack transfer.position.block) now)
        ({ transfer with position := transfer.position.next }.sendData reading world now)
  -- The last block is acknowledged.
  | finished (now : Time) (hphase : transfer.phase ≠ .awaitingOptionAck)
      (hfinal : transfer.finalBlock = true) :
      Reaction reading transfer world (.packet (.ack transfer.position.block) now)
        (transfer.finish world)

theorem acknowledge_reaction (reading : BufferedReading ω σ) (transfer : Transfer σ) (world : ω)
    (block : UInt16) (now : Time) :
    Reaction reading transfer world (.packet (.ack block) now)
      (transfer.acknowledge reading world block now) := by
  unfold acknowledge
  split
  next hphase =>
    split
    · refine .rejected _ _ ?_ (by simp)
      simp only [printable_append]
      exact ⟨⟨by decide, printable_decimal _⟩, by decide⟩
    next hblock =>
      obtain rfl : block = 0 := Decidable.not_not.mp hblock
      exact .confirmed now hphase
  next hphase =>
    dsimp only
    by_cases hblock : block = transfer.position.block
    · subst hblock
      rw [if_pos rfl]
      split
      next hfinal => exact .finished now hphase hfinal
      next hfinal => exact .advanced now hphase (Bool.eq_false_iff.mpr hfinal)
    · rw [if_neg hblock]
      split
      · exact .ignored _
      · refine .rejected _ _ ?_ (by simp)
        simp only [printable_append]
        exact ⟨⟨⟨by decide, printable_decimal _⟩, by decide⟩, printable_decimal _⟩

theorem receive_reaction (reading : BufferedReading ω σ) {transfer : Transfer σ} (world : ω)
    (message : Message) (now : Time) (hopen : transfer.isTerminal = false) :
    Reaction reading transfer world (.packet message now)
      (transfer.receive reading world message now) := by
  obtain ⟨opcode, payload⟩ := message
  rw [receive, if_neg (Bool.eq_false_iff.mp hopen)]
  split
  next code text hopcode hpayload =>
    cases hopcode
    cases hpayload
    exact .abandoned code text now
  next hopcode hother =>
    refine .mismatched _ now fun hcoherent => ?_
    cases hopcode
    cases hcoherent
    exact hother _ _ rfl
  next block hopcode hpayload =>
    cases hopcode
    cases hpayload
    exact acknowledge_reaction reading transfer world block now
  next hopcode hother =>
    refine .mismatched _ now fun hcoherent => ?_
    cases hopcode
    cases hcoherent
    exact hother _ rfl
  next =>
    refine .rejected _ _ ?_ (by simp)
    simp only [printable_append]
    exact ⟨⟨⟨by decide, Opcode.printable_name _⟩, by decide⟩, Phase.printable_name _⟩

theorem receiveMalformed_reaction (reading : BufferedReading ω σ) {transfer : Transfer σ} (world : ω)
    (status : DecodeStatus) (hopen : transfer.isTerminal = false) :
    Reaction reading transfer world (.malformed status) (transfer.receiveMalformed world status) := by
  rw [receiveMalformed, if_neg (Bool.eq_false_iff.mp hopen)]
  refine .rejected _ _ ?_ (by simp)
  simp only [printable_append]
  exact ⟨⟨by decide, DecodeStatus.printable_name status⟩, by decide⟩

theorem timeout_reaction (reading : BufferedReading ω σ) (transfer : Transfer σ) (world : ω) (now : Time) :
    Reaction reading transfer world (.timeout now) (transfer.timeout world now) := by
  unfold timeout
  split
  · exact .ignored _
  next hactive =>
    have hinFlight : transfer.inFlight ≠ [] := fun hnil => hactive (Or.inr hnil)
    split
    next hretries =>
      refine .exhausted now _ ?_ hretries
      simp only [printable_append]
      exact ⟨⟨by decide, printable_decimal _⟩, by decide⟩
    next hretries => exact .repeated now hinFlight (UInt32.not_le.mp hretries)

/-- Every step of a transfer that is not over is one of the reactions. -/
theorem handle_reaction (reading : BufferedReading ω σ) {transfer : Transfer σ} (world : ω) (event : Event)
    (hopen : transfer.isTerminal = false) :
    Reaction reading transfer world event (transfer.handle reading world event) := by
  cases event with
  | packet message now => exact receive_reaction reading world message now hopen
  | malformed status => exact receiveMalformed_reaction reading world status hopen
  | timeout now => exact timeout_reaction reading transfer world now

theorem handle_of_isTerminal (reading : BufferedReading ω σ) {transfer : Transfer σ} (world : ω)
    (event : Event) (hover : transfer.isTerminal = true) :
    transfer.handle reading world event = { transfer, world } := by
  cases event with
  | packet message now => rw [handle, receive, if_pos hover]
  | malformed status => rw [handle, receiveMalformed, if_pos hover]
  | timeout now => rw [handle, timeout, if_pos (Or.inl hover)]

theorem timeout_fault (transfer : Transfer σ) (world : ω) (now : Time) :
    (transfer.timeout world now).fault = none := by
  unfold timeout
  split
  · rfl
  · split <;> rfl

/-! ## Failing -/

/-- A transfer that fails is released, or stays as it is over a reply without a
wire form. -/
theorem fail_cases (transfer : Transfer σ) (world : ω) (detail : Octets) (reply : Option Message) :
    ∃ sent fault,
      transfer.fail world detail reply =
          { transfer := { transfer with detail }.release .failed, world, sent, fault } ∨
        transfer.fail world detail reply = { transfer, world, sent, fault } := by
  unfold fail
  split
  · exact ⟨_, _, Or.inl rfl⟩
  · split
    · exact ⟨_, _, Or.inl rfl⟩
    · exact ⟨_, _, Or.inr rfl⟩

theorem fail_none (transfer : Transfer σ) (world : ω) (detail : Octets) :
    transfer.fail world detail none = { transfer := { transfer with detail }.release .failed, world } :=
  rfl

theorem fail_error (transfer : Transfer σ) (world : ω) (detail : Octets) {code : ErrorCode}
    {text : Octets} (htext : 0 ∉ text) :
    ∃ datagram, encode (.error code text) = .ok datagram ∧
      transfer.fail world detail (some (.error code text)) =
        { transfer := { transfer with detail }.release .failed, world, sent := [datagram] } := by
  refine ⟨_, encode_error htext, ?_⟩
  simp only [fail, encode_error htext]

/-! ## Reading the next block -/

section SendData

variable {transfer : Transfer σ} (world : ω) (now : Time)

theorem sendData_of_none (reading : BufferedReading ω σ) (hsource : transfer.source = none) :
    transfer.sendData reading world now = { transfer, world, fault := some .noSource } := by
  simp only [sendData, hsource]

theorem sendData_of_error {reading : BufferedReading ω σ} {source next : σ} {after : ω}
    {error : LengthError} (hsource : transfer.source = some source)
    (hread : reading.read source (transfer.position.offset transfer.settings.blockSize)
      transfer.settings.blockSize world = (.error error, next, after)) :
    transfer.sendData reading world now =
      { transfer := { transfer with source := some next }
        world := after
        fault := some (.brokenOff error) } := by
  simp only [sendData, hsource, hread]

theorem sendData_of_ok {reading : BufferedReading ω σ} {source next : σ} {after : ω}
    {reply : ReadReply} (hsource : transfer.source = some source)
    (hread : reading.read source (transfer.position.offset transfer.settings.blockSize)
      transfer.settings.blockSize world = (.ok reply, next, after)) :
    transfer.sendData reading world now =
      { transfer with source := some next }.sendRead after reply now := by
  simp only [sendData, hsource, hread]

/-- If the stream answers every read, it depends on the answer alone what is sent. -/
theorem sendData_of_source (reading : Reading ω σ) {source : σ}
    (hsource : transfer.source = some source) :
    transfer.sendData reading world now =
      let (reply, next, after) := reading.read source
        (transfer.position.offset transfer.settings.blockSize) transfer.settings.blockSize world
      { transfer with source := some next }.sendRead after reply now :=
  sendData_of_ok world now hsource rfl

end SendData

/-- What comes of reading a block: the stream fails, it answers with too much, or
the block is sent. -/
inductive Fetch (reading : Reading ω σ) (transfer : Transfer σ) (world : ω) (now : Time)
    (source : σ) : Step ω σ → Prop where
  | failed (reply : ReadReply) (next : σ) (after : ω) (failure : Failure)
      (hread : reading.read source (transfer.position.offset transfer.settings.blockSize)
        transfer.settings.blockSize world = (reply, next, after))
      (herror : reply.error = some failure) :
      Fetch reading transfer world now source
        (let text := if reply.detail = [] then failure.errorCode.text else reply.detail
        { transfer with source := some next }.fail after (ascii "source read failed: " ++ text)
          (some (.error failure.errorCode text)))
  | oversized (reply : ReadReply) (next : σ) (after : ω)
      (hread : reading.read source (transfer.position.offset transfer.settings.blockSize)
        transfer.settings.blockSize world = (reply, next, after))
      (herror : reply.error = none)
      (hlength : transfer.settings.blockSize.toNat < reply.octets.length) :
      Fetch reading transfer world now source
        ({ transfer with source := some next }.fail after
          (ascii "source returned an oversized block")
          (some (.error .notDefined (ascii "Server read error"))))
  | sent (reply : ReadReply) (next : σ) (after : ω)
      (hread : reading.read source (transfer.position.offset transfer.settings.blockSize)
        transfer.settings.blockSize world = (reply, next, after))
      (herror : reply.error = none)
      (hlength : reply.octets.length ≤ transfer.settings.blockSize.toNat)
      (hmax : reply.octets.length ≤ maxBlockSize.toNat) :
      Fetch reading transfer world now source
        (sendInFlight
          { transfer with
            source := some next
            finalBlock := reply.octets.length < transfer.settings.blockSize.toNat
            inFlight := dataDatagram transfer.position.block reply.octets
            bytesSent := transfer.bytesSent + UInt64.ofNat reply.octets.length
            retries := 0
            phase := .awaitingAck }
          after now)

/-- Whatever the block size is, a block is fetched, or else it is one that no
datagram can hold. -/
theorem sendData_cases (reading : Reading ω σ) {transfer : Transfer σ} (world : ω) (now : Time)
    {source : σ} (hsource : transfer.source = some source) :
    Fetch reading transfer world now source (transfer.sendData reading world now) ∨
      ∃ reply next after,
        reading.read source (transfer.position.offset transfer.settings.blockSize)
          transfer.settings.blockSize world = (reply, next, after) ∧
        reply.error = none ∧
        maxBlockSize.toNat < reply.octets.length ∧
        reply.octets.length ≤ transfer.settings.blockSize.toNat ∧
        transfer.sendData reading world now =
          { transfer :=
              { transfer with
                source := some next
                finalBlock := reply.octets.length < transfer.settings.blockSize.toNat }
            world := after
            fault := some (.encoding .oversizedData) } := by
  obtain ⟨reply, next, after, hread⟩ : ∃ reply next after, reading.read source
      (transfer.position.offset transfer.settings.blockSize) transfer.settings.blockSize world =
        (reply, next, after) := ⟨_, _, _, rfl⟩
  rw [sendData_of_source world now reading hsource, hread]
  dsimp only [sendRead]
  cases herror : reply.error with
  | some failure => exact Or.inl (.failed reply next after failure hread herror)
  | none =>
      by_cases hlength : transfer.settings.blockSize.toNat < reply.octets.length
      · simp only [if_pos hlength]
        exact Or.inl (.oversized reply next after hread herror hlength)
      · have hfits : reply.octets.length ≤ transfer.settings.blockSize.toNat :=
          Nat.le_of_not_lt hlength
        simp only [if_neg hlength, sendBlock]
        by_cases hmax : reply.octets.length ≤ maxBlockSize.toNat
        · simp only [encodeData_eq_ok hfits hmax]
          exact Or.inl (.sent reply next after hread herror hfits hmax)
        · have hover : maxBlockSize.toNat < reply.octets.length := Nat.lt_of_not_le hmax
          simp only [encodeData, if_pos (Or.inr hover)]
          exact Or.inr ⟨reply, next, after, rfl, herror, hover, hfits, rfl⟩

theorem sendData_fetch (reading : Reading ω σ) {transfer : Transfer σ} (world : ω) (now : Time)
    {source : σ} (hsource : transfer.source = some source)
    (hsize : transfer.settings.blockSize ≤ maxBlockSize) :
    Fetch reading transfer world now source (transfer.sendData reading world now) := by
  rcases sendData_cases reading world now hsource with hfetch | ⟨_, _, _, _, _, hover, hfits, _⟩
  · exact hfetch
  · have hmax := UInt64.le_iff_toNat_le.mp hsize
    omega

end TftpServer.Transfer
