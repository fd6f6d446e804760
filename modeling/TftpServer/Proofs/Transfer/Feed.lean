import TftpServer.Proofs.Packet.Readback
import TftpServer.Proofs.Store.Details
import TftpServer.Proofs.Transfer.Blocks
import TftpServer.Proofs.Transfer.Run

/-! # One pass over a stream

A transfer reads its stream in one pass: block after block, each of them once,
whatever is lost, repeated or invented on the way. What the stream answers along
this pass is known before the transfer starts, and the transfer sends these
answers and no others. Nothing is assumed of the stream but that it explains its
failures in texts that can be sent.
-/

namespace TftpServer

variable {ω σ : Type}

/-- A stream as a transfer finds it, and the block size by which it is read. -/
structure Feed (ω σ : Type) where
  reading : Reading ω σ
  source : σ
  world : ω
  blockSize : UInt64

namespace Feed

variable (feed : Feed ω σ)

/-- Where the read behind `done` others starts. -/
def offset (done : Nat) : UInt64 :=
  (BlockPosition.ofNumber (done + 1)).offset feed.blockSize

/-- As long as 64 bits suffice, it starts behind so many full blocks. -/
theorem offset_eq (hlower : 8 ≤ feed.blockSize.toNat) {done : Nat}
    (hdone : done * feed.blockSize.toNat < UInt64.size) :
    feed.offset done = UInt64.ofNat (done * feed.blockSize.toNat) := by
  have hgrown : done * 8 ≤ done * feed.blockSize.toNat := Nat.mul_le_mul_left done hlower
  refine BlockPosition.offset_ofNumber ?_ feed.blockSize
  simp only [UInt64.size] at hdone ⊢
  omega

/-- The stream and its world after so many reads in a row. -/
def state : Nat → σ × ω
  | 0 => (feed.source, feed.world)
  | done + 1 =>
    (feed.reading.read (state done).1 (feed.offset done) feed.blockSize (state done).2).2

/-- The answer to the read behind `done` others. -/
def reply (done : Nat) : ReadReply :=
  (feed.reading.read (feed.state done).1 (feed.offset done) feed.blockSize (feed.state done).2).1

/-- The answer is a block: the read does not fail, and does not give too much. -/
def Gives (done : Nat) : Prop :=
  (feed.reply done).error = none ∧ (feed.reply done).octets.length ≤ feed.blockSize.toNat

instance (done : Nat) : Decidable (feed.Gives done) :=
  inferInstanceAs (Decidable (_ ∧ _))

/-- The answer is a full block. -/
structure Fills (done : Nat) : Prop where
  error : (feed.reply done).error = none
  length : (feed.reply done).octets.length = feed.blockSize.toNat

/-- What the first reads give, one after the other. -/
def octets (count : Nat) : Octets :=
  (List.range count).flatMap fun i => (feed.reply i).octets

theorem octets_succ (count : Nat) :
    feed.octets (count + 1) = feed.octets count ++ (feed.reply count).octets := by
  rw [octets, List.range_succ, List.flatMap_append, List.flatMap_singleton, octets]

def datagram (done : Nat) : Octets :=
  dataDatagram (UInt16.ofNat (done + 1)) (feed.reply done).octets

theorem datagram_succ_ne (done : Nat) : feed.datagram (done + 1) ≠ feed.datagram done :=
  dataDatagram_succ_ne (done + 1) _ _

/-- The blocks among the answers to the first reads, as datagrams. -/
def datagrams (count : Nat) : List Octets :=
  ((List.range count).filter (feed.Gives ·)).map feed.datagram

theorem datagrams_succ (count : Nat) :
    feed.datagrams (count + 1) =
      feed.datagrams count ++ if feed.Gives count then [feed.datagram count] else [] := by
  rw [datagrams, List.range_succ, List.filter_append, List.map_append, List.filter_singleton]
  by_cases hgives : feed.Gives count
  · simp [hgives, datagrams]
  · simp [hgives, datagrams]

theorem datagrams_of_gives {count : Nat} (hgives : ∀ i < count, feed.Gives i) :
    feed.datagrams count = (List.range count).map feed.datagram := by
  have hall : (List.range count).filter (feed.Gives ·) = List.range count :=
    List.filter_eq_self.mpr fun i hi => decide_eq_true (hgives i (List.mem_range.mp hi))
  rw [datagrams, hall]

theorem map_dataOctets_datagrams {count : Nat} (hgives : ∀ i < count, feed.Gives i) :
    (feed.datagrams count).map dataOctets =
      (List.range count).map fun i => (feed.reply i).octets := by
  rw [datagrams_of_gives feed hgives, List.map_map]
  exact List.map_congr_left fun i _ => dataOctets_dataDatagram _ _

/-- Failures along the pass are explained in texts that can be sent. Behind a
block that is not full there is nothing to be explained. -/
def Explained : Prop :=
  ∀ done, (∀ i < done, feed.Fills i) → (feed.reply done).error ≠ none → 0 ∉ (feed.reply done).detail

end Feed

namespace Transfer

/-! ## Standing of a transfer in the pass -/

/-- A block is in flight, behind `done` others. -/
structure BlockInFlight (feed : Feed ω σ) (done : Nat) (run : Run ω σ) : Prop where
  source : run.transfer.source = some (feed.state (done + 1)).1
  position : run.transfer.position = .ofNumber (done + 1)
  inFlight : run.transfer.inFlight = feed.datagram done
  last : (run.sent.filter isData).getLast? = some run.transfer.inFlight
  final : run.transfer.finalBlock =
    decide ((feed.reply done).octets.length < feed.blockSize.toNat)

/-- Where a started transfer stands that has read so many blocks. -/
inductive Stage (feed : Feed ω σ) : Nat → Run ω σ → Prop where
  | announcing (run : Run ω σ) (hphase : run.transfer.phase = .awaitingOptionAck)
      (hsource : run.transfer.source = some feed.source)
      (hposition : run.transfer.position = .first)
      (hinFlight : isData run.transfer.inFlight = false) (hbytes : run.transfer.bytesSent = 0) :
      Stage feed 0 run
  | sending (done : Nat) (run : Run ω σ) (hphase : run.transfer.phase = .awaitingAck)
      (hgives : feed.Gives done)
      (hbytes : run.transfer.bytesSent = UInt64.ofNat (feed.octets (done + 1)).length)
      (hblock : BlockInFlight feed done run) : Stage feed (done + 1) run
  | complete (done : Nat) (run : Run ω σ) (hphase : run.transfer.phase = .complete)
      (hgives : feed.Gives done)
      (hbytes : run.transfer.bytesSent = UInt64.ofNat (feed.octets (done + 1)).length)
      (hshort : (feed.reply done).octets.length < feed.blockSize.toNat) : Stage feed (done + 1) run
  | failed (count : Nat) (run : Run ω σ) (hphase : run.transfer.phase = .failed) :
      Stage feed count run

/-- A started transfer has read the first `count` blocks of its stream. Behind a
block that is not full it has not read on. -/
structure Feeding (feed : Feed ω σ) (count : Nat) (run : Run ω σ) : Prop where
  settings : run.transfer.settings.blockSize = feed.blockSize
  world : run.world = (feed.state count).2
  full : ∀ i, i + 1 < count → feed.Fills i
  delivered : deliveredBlocks run.sent = feed.datagrams count
  stage : Stage feed count run

/-- A transfer is about to read the block behind `count` full ones. -/
structure Ready (feed : Feed ω σ) (count : Nat) (transfer : Transfer σ) (world : ω)
    (sent : List Octets) : Prop where
  settings : transfer.settings.blockSize = feed.blockSize
  source : transfer.source = some (feed.state count).1
  world : world = (feed.state count).2
  position : transfer.position = .ofNumber (count + 1)
  bytes : transfer.bytesSent = UInt64.ofNat (feed.octets count).length
  full : ∀ i < count, feed.Fills i
  delivered : deliveredBlocks sent = feed.datagrams count
  fresh : (sent.filter isData).getLast? ≠ some (feed.datagram count)

/-- What is in flight when so many blocks were read: the last of them, or the
options if there is none yet. -/
def LastInFlight (feed : Feed ω σ) (count : Nat) (transfer : Transfer σ) : Prop :=
  if count = 0 then transfer.phase = .awaitingOptionAck
  else transfer.inFlight = feed.datagram (count - 1)

section Steps

variable {feed : Feed ω σ} {count : Nat}

theorem Ready.read {transfer : Transfer σ} {world : ω} {sent : List Octets}
    (hready : Ready feed count transfer world sent) :
    feed.reading.read (feed.state count).1 (transfer.position.offset transfer.settings.blockSize)
      transfer.settings.blockSize world = (feed.reply count, feed.state (count + 1)) := by
  rw [hready.settings, hready.position, hready.world]
  rfl

theorem Ready.sendData {transfer : Transfer σ} {world : ω} {sent : List Octets}
    (hready : Ready feed count transfer world sent) (hmax : feed.blockSize ≤ maxBlockSize)
    (hexplained : feed.Explained) (now : Time) :
    Feeding feed (count + 1)
      (Run.extend ⟨transfer, world, sent⟩ (transfer.sendData feed.reading world now)) := by
  have hfull : ∀ i, i + 1 < count + 1 → feed.Fills i := fun i hi =>
    hready.full i (Nat.lt_of_succ_lt_succ hi)
  -- A read that gives no block ends the transfer, with an ERROR.
  have hended (next : Transfer σ) (after : ω) (detail : Octets) (code : ErrorCode) {text : Octets}
      (hnext : next.settings = transfer.settings) (hafter : after = (feed.state (count + 1)).2)
      (htext : 0 ∉ text) (hgives : ¬ feed.Gives count) :
      Feeding feed (count + 1)
        (Run.extend ⟨transfer, world, sent⟩ (next.fail after detail (some (.error code text)))) := by
    obtain ⟨datagram, hencode, hfail⟩ := fail_error next after detail htext
    rw [hfail]
    refine ⟨(congrArg Settings.blockSize hnext).trans hready.settings, hafter, hfull, ?_,
      .failed _ _ rfl⟩
    rw [Run.extend, deliveredBlocks_concat_other (isData_of_encode_error hencode),
      hready.delivered, feed.datagrams_succ, if_neg hgives, List.append_nil]
  have hstep := sendData_fetch feed.reading world now hready.source (hready.settings ▸ hmax)
  generalize transfer.sendData feed.reading world now = step at hstep
  cases hstep with
  | failed reply next after failure hread herror =>
      obtain ⟨rfl, hstate⟩ := Prod.mk.inj (hready.read.symm.trans hread)
      have htext := hexplained count hready.full (by rw [herror]; exact Option.some_ne_none failure)
      refine hended _ _ _ _ rfl (congrArg Prod.snd hstate).symm ?_ fun hgives => ?_
      · split
        · exact (ErrorCode.printable_text _).nul_notMem
        · exact htext
      · rw [hgives.1] at herror
        cases herror
  | oversized reply next after hread herror hover =>
      obtain ⟨rfl, hstate⟩ := Prod.mk.inj (hready.read.symm.trans hread)
      refine hended _ _ _ _ rfl (congrArg Prod.snd hstate).symm (by decide) fun hgives => ?_
      rw [hready.settings] at hover
      exact absurd hgives.2 (Nat.not_le_of_lt hover)
  | sent reply next after hread herror hfits =>
      obtain ⟨rfl, hstate⟩ := Prod.mk.inj (hready.read.symm.trans hread)
      have hgives : feed.Gives count := ⟨herror, hready.settings ▸ hfits⟩
      have hdatagram : dataDatagram transfer.position.block (feed.reply count).octets =
          feed.datagram count := by
        rw [hready.position]
        rfl
      have hisData : isData (feed.datagram count) = true := isData_dataDatagram _ _
      refine ⟨hready.settings, (congrArg Prod.snd hstate).symm, hfull, ?_,
        .sending count _ rfl hgives ?_
          ⟨by rw [hstate]; rfl, hready.position, hdatagram, ?_, ?_⟩⟩
      · simp only [Run.extend, sendInFlight, hdatagram]
        rw [deliveredBlocks_concat_fresh hisData hready.fresh, hready.delivered,
          feed.datagrams_succ, if_pos hgives]
      · simp only [Run.extend, sendInFlight, hready.bytes]
        rw [← UInt64.ofNat_add, feed.octets_succ, List.length_append]
      · simp [Run.extend, sendInFlight, List.filter_append]
      · simp only [Run.extend, sendInFlight, hready.settings]

/-- A block that is given is sent and waited for. -/
theorem Ready.sendData_open {transfer : Transfer σ} {world : ω} {sent : List Octets}
    (hready : Ready feed count transfer world sent) (hmax : feed.blockSize ≤ maxBlockSize)
    (hgives : feed.Gives count) (now : Time) :
    (transfer.sendData feed.reading world now).transfer.isTerminal = false := by
  have hstep := sendData_fetch feed.reading world now hready.source (hready.settings ▸ hmax)
  generalize transfer.sendData feed.reading world now = step at hstep
  cases hstep with
  | failed reply next after failure hread herror =>
      obtain ⟨rfl, _⟩ := Prod.mk.inj (hready.read.symm.trans hread)
      rw [hgives.1] at herror
      cases herror
  | oversized reply next after hread herror hover =>
      obtain ⟨rfl, _⟩ := Prod.mk.inj (hready.read.symm.trans hread)
      rw [hready.settings] at hover
      exact absurd hgives.2 (Nat.not_le_of_lt hover)
  | sent reply next after hread herror hfits => rfl

theorem Feeding.of_awaitingOptionAck {run : Run ω σ} (hrun : Feeding feed count run)
    (hphase : run.transfer.phase = .awaitingOptionAck) :
    count = 0 ∧ run.transfer.source = some feed.source ∧ run.transfer.position = .first ∧
      run.transfer.bytesSent = 0 := by
  cases hrun.stage with
  | announcing run _ hsource hposition _ hbytes => exact ⟨rfl, hsource, hposition, hbytes⟩
  | sending done run hother _ _ _ => simp [hphase] at hother
  | complete done run hother _ _ _ => simp [hphase] at hother
  | failed _ run hother => simp [hphase] at hother

theorem Feeding.exists_blockInFlight {run : Run ω σ} (hrun : Feeding feed count run)
    (hopen : run.transfer.isTerminal = false) (hphase : run.transfer.phase ≠ .awaitingOptionAck) :
    ∃ done, count = done + 1 ∧ feed.Gives done ∧
      run.transfer.bytesSent = UInt64.ofNat (feed.octets count).length ∧
      BlockInFlight feed done run := by
  cases hrun.stage with
  | announcing run hother _ _ _ _ => exact absurd hother hphase
  | sending done run _ hgives hbytes hblock => exact ⟨done, rfl, hgives, hbytes, hblock⟩
  | complete done run hother _ _ _ => simp [isTerminal, hother] at hopen
  | failed _ run hother => simp [isTerminal, hother] at hopen

theorem Feeding.ready_first {run : Run ω σ} (hrun : Feeding feed 0 run)
    (hsource : run.transfer.source = some feed.source) (hposition : run.transfer.position = .first)
    (hbytes : run.transfer.bytesSent = 0) : Ready feed 0 run.transfer run.world run.sent where
  settings := hrun.settings
  source := hsource
  world := hrun.world
  position := hposition
  bytes := hbytes
  full i hi := absurd hi (Nat.not_lt_zero i)
  delivered := hrun.delivered
  fresh := by
    have hnone : run.sent.filter isData = [] := (List.destutter_eq_nil _).mp hrun.delivered
    simp [hnone]

theorem Feeding.ready_next {done : Nat} {run : Run ω σ} (hrun : Feeding feed (done + 1) run)
    (hgives : feed.Gives done)
    (hbytes : run.transfer.bytesSent = UInt64.ofNat (feed.octets (done + 1)).length)
    (hblock : BlockInFlight feed done run) (hfull : run.transfer.finalBlock = false) :
    Ready feed (done + 1) { run.transfer with position := run.transfer.position.next } run.world
      run.sent := by
  have hlength : (feed.reply done).octets.length = feed.blockSize.toNat := by
    rw [hblock.final] at hfull
    exact Nat.le_antisymm hgives.2 (Nat.le_of_not_lt (of_decide_eq_false hfull))
  refine ⟨hrun.settings, hblock.source, hrun.world, ?_, hbytes, fun i hi => ?_, hrun.delivered, ?_⟩
  · rw [hblock.position, BlockPosition.next_ofNumber]
  · rcases Nat.lt_succ_iff_lt_or_eq.mp hi with hbefore | rfl
    · exact hrun.full i (Nat.succ_lt_succ hbefore)
    · exact ⟨hgives.1, hlength⟩
  · rw [hblock.last, hblock.inFlight]
    exact fun heq => feed.datagram_succ_ne done (Option.some.inj heq).symm

theorem Feeding.fail {run : Run ω σ} (hrun : Feeding feed count run) (detail : Octets) :
    Feeding feed count (run.extend (run.transfer.fail run.world detail none)) ∧
      Feeding feed count (run.extend
        (run.transfer.fail run.world detail (some (.standardError .illegalOperation)))) := by
  constructor
  · rw [fail_none]
    refine ⟨hrun.settings, hrun.world, hrun.full, ?_, .failed _ _ rfl⟩
    simpa [Run.extend] using hrun.delivered
  · obtain ⟨datagram, hencode, hfail⟩ := fail_error run.transfer run.world detail
      (ErrorCode.printable_text .illegalOperation).nul_notMem
    rw [Message.standardError, hfail]
    refine ⟨hrun.settings, hrun.world, hrun.full, ?_, .failed _ _ rfl⟩
    simp only [Run.extend]
    rw [deliveredBlocks_concat_other (isData_of_encode_error hencode), hrun.delivered]

theorem Feeding.repeat {run : Run ω σ} (hrun : Feeding feed count run)
    (hopen : run.transfer.isTerminal = false) (now : Time) :
    Feeding feed count (run.extend
      (sendInFlight { run.transfer with retries := run.transfer.retries + 1 } run.world now)) := by
  obtain ⟨hsettings, hworld, hfull, hdelivered, hstage⟩ := hrun
  cases hstage with
  | announcing run hphase hsource hposition hinFlight hbytes =>
      refine ⟨hsettings, hworld, hfull, ?_, .announcing _ hphase hsource hposition hinFlight hbytes⟩
      simp only [Run.extend, sendInFlight]
      rw [deliveredBlocks_concat_other hinFlight, hdelivered]
  | sending done run hphase hgives hbytes hblock =>
      have hdata : isData run.transfer.inFlight = true :=
        (List.mem_filter.mp (List.mem_of_getLast? hblock.last)).2
      refine ⟨hsettings, hworld, hfull, ?_, .sending done _ hphase hgives hbytes
        ⟨hblock.source, hblock.position, hblock.inFlight, ?_, hblock.final⟩⟩
      · simp only [Run.extend, sendInFlight]
        rw [deliveredBlocks_concat_repeat hblock.last, hdelivered]
      · simp [Run.extend, sendInFlight, List.filter_append, hdata]
  | complete done run hphase _ _ _ => simp [isTerminal, hphase] at hopen
  | failed _ run hphase => simp [isTerminal, hphase] at hopen

theorem Feeding.finish {done : Nat} {run : Run ω σ} (hrun : Feeding feed (done + 1) run)
    (hgives : feed.Gives done)
    (hbytes : run.transfer.bytesSent = UInt64.ofNat (feed.octets (done + 1)).length)
    (hblock : BlockInFlight feed done run) (hfinal : run.transfer.finalBlock = true) :
    Feeding feed (done + 1) (run.extend (run.transfer.finish run.world)) := by
  have hshort : (feed.reply done).octets.length < feed.blockSize.toNat := by
    rw [hblock.final] at hfinal
    exact of_decide_eq_true hfinal
  refine ⟨hrun.settings, hrun.world, hrun.full, ?_, .complete done _ rfl hgives hbytes hshort⟩
  simpa [Run.extend, Transfer.finish] using hrun.delivered

/-- What one event does to the reads: nothing, or the next one follows, and then
the event was the acknowledgement of what was in flight. -/
theorem Feeding.handle {run : Run ω σ} (hrun : Feeding feed count run)
    (hmax : feed.blockSize ≤ maxBlockSize) (hexplained : feed.Explained) (event : Event) :
    Feeding feed count (run.handle feed.reading event) ∨
      Feeding feed (count + 1) (run.handle feed.reading event) ∧
        (∃ now, event = .packet (.ack (UInt16.ofNat count)) now) ∧
        LastInFlight feed count run.transfer := by
  cases hopen : run.transfer.isTerminal with
  | true =>
      left
      rw [Run.handle, handle_of_isTerminal _ _ _ hopen]
      simpa [Run.extend] using hrun
  | false =>
      have hreaction := handle_reaction feed.reading run.world event hopen
      rw [Run.handle]
      generalize run.transfer.handle feed.reading run.world event = step at hreaction
      cases hreaction with
      | ignored =>
          left
          simpa [Run.extend] using hrun
      | mismatched message now _ =>
          left
          simpa [Run.extend] using hrun
      | abandoned code text now => exact Or.inl (hrun.fail _).1
      | rejected _ detail _ _ => exact Or.inl (hrun.fail detail).2
      | exhausted now detail _ _ => exact Or.inl (hrun.fail detail).1
      | repeated now _ _ => exact Or.inl (hrun.repeat hopen now)
      -- Only an acknowledgement of what is in flight lets the next read follow.
      | confirmed now hphase =>
          obtain ⟨rfl, hsource, hposition, hbytes⟩ := hrun.of_awaitingOptionAck hphase
          have hready := hrun.ready_first hsource hposition hbytes
          exact Or.inr ⟨hready.sendData hmax hexplained now, ⟨now, rfl⟩, hphase⟩
      | advanced now hphase hfull =>
          obtain ⟨done, rfl, hgives, hbytes, hblock⟩ := hrun.exists_blockInFlight hopen hphase
          have hready := hrun.ready_next hgives hbytes hblock hfull
          refine Or.inr ⟨hready.sendData hmax hexplained now, ⟨now, ?_⟩, hblock.inFlight⟩
          rw [hblock.position]
          rfl
      | finished now hphase hfinal =>
          obtain ⟨done, rfl, hgives, hbytes, hblock⟩ := hrun.exists_blockInFlight hopen hphase
          exact Or.inl (hrun.finish hgives hbytes hblock hfinal)

/-- Every block that was sent is full, or else it is the last one. -/
theorem Feeding.block_length {run : Run ω σ} (hrun : Feeding feed count run) {datagram : Octets}
    (hsent : datagram ∈ run.sent) (hdata : isData datagram = true) :
    (dataOctets datagram).length = feed.blockSize.toNat ∨
      (dataOctets datagram).length < feed.blockSize.toNat ∧
        (run.sent.filter isData).getLast? = some datagram := by
  have hmem := mem_deliveredBlocks.mpr ⟨hsent, hdata⟩
  have hlast := getLast?_deliveredBlocks run.sent
  rw [hrun.delivered] at hmem hlast
  obtain ⟨i, hi, rfl⟩ := List.mem_map.mp hmem
  obtain ⟨hrange, hgives⟩ := List.mem_filter.mp hi
  have hgives : feed.Gives i := of_decide_eq_true hgives
  have hoctets : dataOctets (feed.datagram i) = (feed.reply i).octets :=
    dataOctets_dataDatagram _ _
  rw [hoctets]
  rcases Nat.eq_or_lt_of_le (Nat.succ_le_of_lt (List.mem_range.mp hrange)) with rfl | hbefore
  · rcases Nat.eq_or_lt_of_le hgives.2 with hfull | hshort
    · exact Or.inl hfull
    · refine Or.inr ⟨hshort, ?_⟩
      rw [← hlast, feed.datagrams_succ, if_pos hgives, List.getLast?_concat]
  · exact Or.inl (hrun.full i hbefore).length

/-- A complete transfer has sent a block that is not full. -/
theorem Feeding.exists_short {run : Run ω σ} (hrun : Feeding feed count run)
    (hphase : run.transfer.phase = .complete) :
    ∃ last, (run.sent.filter isData).getLast? = some last ∧
      (dataOctets last).length < feed.blockSize.toNat := by
  have hlast := getLast?_deliveredBlocks run.sent
  rw [hrun.delivered] at hlast
  cases hrun.stage with
  | announcing run hother _ _ _ _ => simp [hphase] at hother
  | sending done run hother _ _ _ => simp [hphase] at hother
  | failed _ run hother => simp [hphase] at hother
  | complete done run _ hgives _ hshort =>
      have hlength : (dataOctets (feed.datagram done)).length = (feed.reply done).octets.length :=
        congrArg List.length (dataOctets_dataDatagram _ _)
      refine ⟨feed.datagram done, ?_, hlength.trans_lt hshort⟩
      rw [← hlast, feed.datagrams_succ, if_pos hgives, List.getLast?_concat]

end Steps

/-! ## Every run -/

section Runs

variable (reading : Reading ω σ) (peer : Endpoint) (source : σ) {accepted : Acceptance}
  {settings : Settings} (hmax : settings.blockSize ≤ maxBlockSize)
  (hentries : ∀ field ∈ accepted.entries, 0 ∉ field.name ∧ 0 ∉ field.value) (world : ω)

theorem ready_create :
    Ready ⟨reading, source, world, settings.blockSize⟩ 0 (create peer source accepted settings)
      world [] :=
  ⟨rfl, rfl, rfl, rfl, rfl, fun _ hi => absurd hi (Nat.not_lt_zero _), rfl, by simp⟩

include hmax hentries

/-- A transfer whose first read gives a block does not end where it starts. -/
theorem start_open (hgives : Feed.Gives ⟨reading, source, world, settings.blockSize⟩ 0)
    (now : Time) :
    ((create peer source accepted settings).start reading world now).transfer.isTerminal = false := by
  rcases start_cases reading (create peer source accepted settings) rfl rfl hentries world now with
    ⟨_, hstart⟩ | ⟨_, body, _, hstart⟩
  · rw [hstart]
    exact (ready_create reading peer source world).sendData_open hmax hgives now
  · rw [hstart]
    rfl

variable (hexplained : Feed.Explained ⟨reading, source, world, settings.blockSize⟩) (now : Time)

include hexplained

theorem start_feeding :
    let opened := create peer source accepted settings
    ∃ count ≤ 1, Feeding ⟨reading, source, world, settings.blockSize⟩ count
      (Run.extend { transfer := opened, world } (opened.start reading world now)) := by
  intro opened
  rcases start_cases reading opened rfl rfl hentries world now with
    ⟨_, hstart⟩ | ⟨_, body, _, hstart⟩
  · have hready : Ready ⟨reading, source, world, settings.blockSize⟩ 0 opened world [] :=
      ready_create reading peer source world
    rw [hstart]
    exact ⟨1, Nat.le_refl 1, hready.sendData hmax hexplained now⟩
  · have hother := isData_wordOctets (show Opcode.ofCode Opcode.oack.code ≠ .data by decide) body
    rw [hstart]
    refine ⟨0, Nat.zero_le 1, rfl, rfl, fun i hi => absurd hi (Nat.not_lt_zero _), ?_,
      .announcing _ rfl rfl rfl hother rfl⟩
    exact deliveredBlocks_concat_other hother

/-- Every run stands somewhere in the one pass over its stream. -/
theorem run_feeding (events : List Event) :
    ∃ count, (events = [] → count ≤ 1) ∧
      Feeding ⟨reading, source, world, settings.blockSize⟩ count
        ((create peer source accepted settings).run reading world now events) := by
  induction events using List.reverseRecOn with
  | nil =>
      obtain ⟨count, hcount, hstart⟩ :=
        start_feeding reading peer source hmax hentries world hexplained now
      exact ⟨count, fun _ => hcount, hstart⟩
  | append_singleton before event ih =>
      obtain ⟨count, _, hrun⟩ := ih
      rw [run_concat]
      have hsome : before ++ [event] ≠ [] := by simp
      rcases hrun.handle hmax hexplained event with hsame | ⟨hnext, _⟩
      · exact ⟨count, fun hnil => absurd hnil hsome, hsame⟩
      · exact ⟨count + 1, fun hnil => absurd hnil hsome, hnext⟩

end Runs

end Transfer

end TftpServer
