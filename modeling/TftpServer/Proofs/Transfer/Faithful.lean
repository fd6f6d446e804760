import TftpServer.Proofs.Store.Recorded
import TftpServer.Proofs.Transfer.Translation

/-! # Faithful netascii transfers

A netascii stream refuses every read but the one behind the last, and half of an
octet may be in its hands. A transfer asks it for block after block all the same,
so nothing is lost or sent twice: a complete transfer has delivered the translated
content.
-/

namespace TftpServer

variable {ω σ : Type}

namespace Feed

/-- The same pass, on record. -/
def recorded (feed : Feed ω σ) : Feed (ω × List ReadCall) σ :=
  ⟨feed.reading.recorded, feed.source, (feed.world, []), feed.blockSize⟩

def calls (feed : Feed ω σ) (count : Nat) : List ReadCall :=
  (List.range count).map fun i => ⟨feed.offset i, feed.blockSize, feed.reply i⟩

variable (feed : Feed ω σ)

theorem calls_succ (count : Nat) :
    feed.calls (count + 1) =
      feed.calls count ++ [⟨feed.offset count, feed.blockSize, feed.reply count⟩] := by
  rw [calls, List.range_succ, List.map_append]
  rfl

/-- The reads start one block behind the other, as long as 64 bits suffice. -/
theorem map_calls (hlower : 8 ≤ feed.blockSize.toNat) {count : Nat}
    (hoffset : ∀ i < count, i * feed.blockSize.toNat < UInt64.size) :
    (feed.calls count).map (fun call => (call.offset.toNat, call.count.toNat)) =
      (List.range count).map
        (fun i => (i * feed.blockSize.toNat, feed.blockSize.toNat)) := by
  rw [calls, List.map_map]
  refine List.map_congr_left fun i hi => ?_
  have hsmall := hoffset i (List.mem_range.mp hi)
  rw [Function.comp_apply, feed.offset_eq hlower hsmall, UInt64.toNat_ofNat_of_lt' hsmall]

theorem recorded_state (count : Nat) :
    feed.recorded.state count = ((feed.state count).1, (feed.state count).2, feed.calls count) := by
  induction count with
  | zero => rfl
  | succ count ih =>
      rw [state, ih, calls_succ]
      rfl

theorem recorded_reply (count : Nat) : feed.recorded.reply count = feed.reply count := by
  rw [reply, recorded_state]
  rfl

theorem Serves.recorded {feed : Feed ω σ} {content : Content} (hserves : feed.Serves content) :
    feed.recorded.Serves content where
  error done hreached := by
    rw [recorded_reply]
    exact hserves.error done hreached
  octets done hreached := by
    rw [recorded_reply]
    exact hserves.octets done hreached

end Feed

namespace Transfer

/-- A transfer that starts has options that can be sent. -/
theorem nul_notMem_of_start_fault {reading : BufferedReading ω σ} {peer : Endpoint} {source : σ}
    {accepted : Acceptance} {settings : Settings} {world : ω} {now : Time}
    (hstart : ((create peer source accepted settings).start reading world now).fault = none) :
    ∀ field ∈ accepted.entries, 0 ∉ field.name ∧ 0 ∉ field.value := by
  cases hencode : encode (.oack accepted.entries) with
  | ok datagram => exact nul_notMem_of_encode_oack hencode
  | error error =>
      by_cases hnone : accepted.entries = []
      · rw [hnone]
        exact fun field hfield => nomatch hfield
      · simp [start, create, hnone, hencode] at hstart

/-- However its blocks are cut, lost, repeated and acknowledged, a netascii
transfer of a content in memory reads its stream block after block, each block
once. So no read is refused, every block is what its read gave, and a complete
transfer has delivered the translated content. -/
theorem run_translates (peer : Endpoint) (content : Content) (accepted : Acceptance)
    {settings : Settings} (hlower : 8 ≤ settings.blockSize.toNat)
    (hupper : settings.blockSize.toNat ≤ 65464)
    (hlength : (Netascii.translate content.toList).length < 2 ^ 64) (world : ω) (now : Time) :
    let reading : BufferedReading (ω × List ReadCall) (Netascii Content) :=
      (Netascii.reading (Content.reading ω)).recorded
    let opened := create peer ({ inner := content } : Netascii Content) accepted settings
    (opened.start reading (world, []) now).fault = none →
    ∀ events : List Event,
      let run := opened.run reading (world, []) now events
      let blockSize := settings.blockSize.toNat
      ∃ count,
        run.world.2.map (fun call => (call.offset.toNat, call.count.toNat)) =
            (List.range count).map (fun i => (i * blockSize, blockSize)) ∧
          (∀ call ∈ run.world.2, call.reply.error = none) ∧
          (deliveredBlocks run.sent).map dataOctets = run.world.2.map (·.reply.octets) ∧
          (run.transfer.phase = .complete →
            (deliveredBlocks run.sent).flatMap dataOctets = Netascii.translate content.toList) := by
  intro reading opened hstart events run blockSize
  have hsize : content.size < UInt64.size :=
    Nat.lt_of_le_of_lt (Netascii.length_le_length_translate content.toList) hlength
  let inner : Feed ω Content := ⟨Content.reading ω, content, world, netasciiChunkSize⟩
  let feed : Feed ω (Netascii Content) := Netascii.passOver inner settings.blockSize
  have hinner : inner.Serves content := Content.feed_serves hsize (by decide) world
  have hserves : feed.Serves (Netascii.translated content) :=
    Netascii.passOver_serves hinner rfl hlower hlength
  obtain ⟨count, _, hrun⟩ : ∃ count, (events = [] → count ≤ 1) ∧
      Feeding feed.recorded count run :=
    run_feeding _ peer _ (UInt64.le_iff_toNat_le.mpr hupper)
      (nul_notMem_of_start_fault hstart) (world, []) hserves.recorded.explained now events
  have hreached : ∀ i < count, i * blockSize ≤ (Netascii.translate content.toList).length :=
    hrun.reached hserves.recorded
  have hcalls : run.world.2 = feed.calls count := by
    rw [hrun.world, feed.recorded_state]
  refine ⟨count, ?_, ?_, ?_, fun hphase => ?_⟩
  · rw [hcalls]
    exact feed.map_calls hlower fun i hi => Nat.lt_of_le_of_lt (hreached i hi) hlength
  · intro call hcall
    rw [hcalls] at hcall
    obtain ⟨i, hi, rfl⟩ := List.mem_map.mp hcall
    exact hserves.error i (hreached i (List.mem_range.mp hi))
  · have hgives : ∀ i < count, feed.recorded.Gives i := fun i hi =>
      hserves.recorded.gives (hreached i hi)
    rw [hrun.delivered, Feed.map_dataOctets_datagrams _ hgives, hcalls, Feed.calls, List.map_map]
    exact List.map_congr_left fun i _ => congrArg ReadReply.octets (feed.recorded_reply i)
  · exact (hrun.complete hserves.recorded hphase).2.1

/-- Nine octets go out in blocks of eight, so a line feed is on its way in two
parts; the first block is repeated, and acknowledged twice. -/
theorem run_translates_across_blocks :
    let content : Content := #[65, 10, 66, 13, 67, 10]
    let settings : Settings := { blockSize := 8 }
    let reading : BufferedReading (Unit × List ReadCall) (Netascii Content) :=
      (Netascii.reading (Content.reading Unit)).recorded
    let opened := create .zero ({ inner := content } : Netascii Content) {} settings
    let events : List Event :=
      [.timeout 3, .packet (.ack 1) 4, .packet (.ack 1) 5, .packet (.ack 2) 6]
    let run := opened.run reading ((), []) 0 events
    (opened.start reading ((), []) 0).fault = none ∧ run.transfer.phase = .complete ∧
      (∀ call ∈ run.world.2, call.reply.error = none) ∧
      (deliveredBlocks run.sent).flatMap dataOctets = [65, 13, 10, 66, 13, 0, 67, 13, 10] := by
  intro content settings reading opened events run
  have hstart : (opened.start reading ((), []) 0).fault = none := by decide +kernel
  have hphase : run.transfer.phase = .complete := by decide +kernel
  have hlength : (Netascii.translate content.toList).length < 2 ^ 64 := by decide +kernel
  have htranslated : Netascii.translate content.toList = [65, 13, 10, 66, 13, 0, 67, 13, 10] := by
    decide +kernel
  subst run opened reading
  have hlower : 8 ≤ settings.blockSize.toNat := by decide
  obtain ⟨count, _, herrors, _, hcomplete⟩ :=
    run_translates .zero content {} hlower (by decide) hlength () 0 hstart events
  exact ⟨hstart, hphase, herrors, (hcomplete hphase).trans htranslated⟩

end Transfer

end TftpServer
