import Mathlib.Algebra.Ring.Nat
import TftpServer.Proofs.Transfer.Feed

/-! # Delivery of a content

A stream serves a content when the pass over it gives the blocks of the content,
whatever it has to do for that. A transfer of such a stream hands the blocks to
the sink in order, without a gap and without a repetition that a receiver could
mistake for a new block, and a content in memory is such a stream.
-/

namespace TftpServer

variable {ω σ : Type}

/-- Along the pass, as far as the content reaches, the stream gives its blocks. -/
structure Feed.Serves (feed : Feed ω σ) (content : Content) : Prop where
  error : ∀ done, done * feed.blockSize.toNat ≤ content.size → (feed.reply done).error = none
  octets : ∀ done, done * feed.blockSize.toNat ≤ content.size →
    (feed.reply done).octets = content.block feed.blockSize.toNat (done + 1)

namespace Feed.Serves

variable {feed : Feed ω σ} {content : Content} (hserves : feed.Serves content) {done : Nat}

include hserves

theorem length_octets (hreached : done * feed.blockSize.toNat ≤ content.size) :
    (feed.reply done).octets.length =
      min feed.blockSize.toNat (content.size - done * feed.blockSize.toNat) := by
  rw [hserves.octets done hreached, content.length_block_succ]

/-- Behind full blocks there is still content, or its end. -/
theorem reached (hfull : ∀ i < done, feed.Fills i) :
    done * feed.blockSize.toNat ≤ content.size := by
  induction done with
  | zero => simp
  | succ done ih =>
      have hreached := ih fun i hi => hfull i (Nat.lt_succ_of_lt hi)
      have hlength := (hfull done (Nat.lt_succ_self done)).length
      rw [hserves.length_octets hreached] at hlength
      rw [Nat.succ_mul]
      omega

theorem explained : feed.Explained := fun done hfull herror =>
  absurd (hserves.error done (hserves.reached hfull)) herror

theorem gives (hreached : done * feed.blockSize.toNat ≤ content.size) : feed.Gives done := by
  refine ⟨hserves.error done hreached, ?_⟩
  rw [hserves.length_octets hreached]
  exact Nat.min_le_left _ _

theorem datagram_eq (hreached : done * feed.blockSize.toNat ≤ content.size) :
    feed.datagram done = content.blockDatagram feed.blockSize.toNat (done + 1) := by
  rw [Feed.datagram, hserves.octets done hreached, Content.blockDatagram]

theorem octets_eq {count : Nat} (hreached : ∀ i < count, i * feed.blockSize.toNat ≤ content.size) :
    feed.octets count = content.toList.take (count * feed.blockSize.toNat) := by
  rw [← content.flatMap_block, Feed.octets, List.flatMap_def, List.flatMap_def]
  exact congrArg List.flatten (List.map_congr_left fun i hi =>
    hserves.octets i (hreached i (List.mem_range.mp hi)))

end Feed.Serves

/-! ## Contents in memory -/

theorem Content.feed_state (content : Content) (world : ω) (blockSize : UInt64) (done : Nat) :
    Feed.state ⟨Content.reading ω, content, world, blockSize⟩ done = (content, world) := by
  induction done with
  | zero => rfl
  | succ done ih => rw [Feed.state, ih]; rfl

theorem Content.feed_serves {content : Content} (hcontent : content.size < UInt64.size)
    {blockSize : UInt64} (hlower : 8 ≤ blockSize.toNat) (world : ω) :
    Feed.Serves ⟨Content.reading ω, content, world, blockSize⟩ content := by
  suffices hreply : ∀ done, done * blockSize.toNat ≤ content.size →
      Feed.reply ⟨Content.reading ω, content, world, blockSize⟩ done =
        { octets := content.block blockSize.toNat (done + 1) } from
    ⟨fun done hreached => by rw [hreply done hreached],
      fun done hreached => by rw [hreply done hreached]⟩
  intro done hreached
  have hoffset : done * blockSize.toNat < UInt64.size := Nat.lt_of_le_of_lt hreached hcontent
  rw [Feed.reply, content.feed_state, Feed.offset_eq _ hlower hoffset]
  exact content.readAt_block hoffset

namespace Transfer

def firstBlocks (content : Content) (blockSize : UInt64) (count : Nat) : List Octets :=
  (List.range count).map fun i => content.blockDatagram blockSize.toNat (i + 1)

theorem firstBlocks_succ (content : Content) (blockSize : UInt64) (count : Nat) :
    firstBlocks content blockSize (count + 1) = firstBlocks content blockSize count ++
      [content.blockDatagram blockSize.toNat (count + 1)] := by
  rw [firstBlocks, List.range_succ, List.map_append, List.map_singleton, firstBlocks]

/-- The block with number `count` is in flight; for none, the option
acknowledgement is. -/
def InFlightNumber (content : Content) (blockSize : UInt64) (count : Nat)
    (transfer : Transfer Content) : Prop :=
  if count = 0 then transfer.phase = .awaitingOptionAck
  else decode transfer.inFlight =
    .ok (.data (UInt16.ofNat count) (content.block blockSize.toNat count))

section Serving

variable {feed : Feed ω σ} {content : Content} {count : Nat} {run : Run ω σ}
  (hrun : Feeding feed count run) (hserves : feed.Serves content)

include hrun hserves

theorem Feeding.reached : ∀ i < count, i * feed.blockSize.toNat ≤ content.size := fun _ hi =>
  hserves.reached fun _ hj => hrun.full _ (Nat.lt_of_le_of_lt hj hi)

theorem Feeding.delivered_eq :
    deliveredBlocks run.sent = firstBlocks content feed.blockSize count := by
  have hreached := hrun.reached hserves
  rw [hrun.delivered, feed.datagrams_of_gives fun i hi => hserves.gives (hreached i hi)]
  exact List.map_congr_left fun i hi => hserves.datagram_eq (hreached i (List.mem_range.mp hi))

theorem Feeding.map_decode :
    (deliveredBlocks run.sent).map decode = (List.range count).map fun i =>
      .ok (.data (UInt16.ofNat (i + 1)) (content.block feed.blockSize.toNat (i + 1))) := by
  rw [hrun.delivered_eq hserves, firstBlocks, List.map_map]
  exact List.map_congr_left fun i _ => decode_dataDatagram _ _

theorem Feeding.complete (hphase : run.transfer.phase = .complete) :
    count = content.size / feed.blockSize.toNat + 1 ∧
      (deliveredBlocks run.sent).flatMap dataOctets = content.toList ∧
      run.transfer.bytesSent = UInt64.ofNat content.size := by
  have hreached := hrun.reached hserves
  have hpayloads : (deliveredBlocks run.sent).flatMap dataOctets = feed.octets count := by
    rw [hrun.delivered, feed.datagrams_of_gives fun i hi => hserves.gives (hreached i hi),
      List.flatMap_map]
    simp only [Feed.datagram, dataOctets_dataDatagram, Feed.octets]
  cases hrun.stage with
  | announcing run hother _ _ _ _ => simp [hphase] at hother
  | sending done run hother _ _ _ => simp [hphase] at hother
  | failed _ run hother => simp [hphase] at hother
  | complete done run _ _ hbytes hshort =>
      have hdone := hreached done (Nat.lt_succ_self done)
      rw [hserves.length_octets hdone] at hshort
      have hend : content.size < (done + 1) * feed.blockSize.toNat := by
        rw [Nat.succ_mul]
        omega
      have hwhole : feed.octets (done + 1) = content.toList := by
        rw [hserves.octets_eq hreached]
        exact List.take_of_length_le (by simpa using Nat.le_of_lt hend)
      refine ⟨?_, hpayloads.trans hwhole, ?_⟩
      · rw [Nat.div_eq_of_lt_le hdone hend]
      · rw [hbytes, hwhole, Array.length_toList]

omit hrun in
theorem LastInFlight.decode_eq {transfer : Transfer σ} (hlast : LastInFlight feed count transfer)
    (hreached : ∀ i < count, i * feed.blockSize.toNat ≤ content.size) (hcount : count ≠ 0) :
    decode transfer.inFlight =
      .ok (.data (UInt16.ofNat count) (content.block feed.blockSize.toNat count)) := by
  obtain ⟨done, rfl⟩ := Nat.exists_eq_succ_of_ne_zero hcount
  rw [LastInFlight, if_neg hcount, Nat.succ_sub_one,
    hserves.datagram_eq (hreached done (Nat.lt_succ_self done))] at hlast
  rw [hlast]
  exact decode_dataDatagram _ _

end Serving

/-- Whatever a peer sends and whenever the timer runs out, a transfer of a content
in memory hands its blocks to the sink one after the other: collapsed, the DATA
datagrams are the first blocks of the content, and the next block only follows
the acknowledgement of the one in flight. A complete transfer has delivered the
whole content. -/
theorem run_delivers_content (config : EngineConfig) (peer : Endpoint) {content : Content}
    (hcontent : content.size < 2 ^ 63) (length : Option UInt64) (requested : List OptionField)
    (world : ω) (now : Time) (events : List Event) :
    let opened := ofRequest config peer content length requested
    let blockSize := opened.settings.blockSize.toNat
    let before := opened.run (Content.reading ω) world now events
    8 ≤ blockSize ∧ blockSize ≤ 65464 ∧ ∃ count,
      (events = [] → count ≤ 1) ∧
      (deliveredBlocks before.sent).map decode = (List.range count).map (fun i =>
        .ok (.data (UInt16.ofNat (i + 1))
          (content.extract (i * blockSize) (min ((i + 1) * blockSize) content.size)).toList)) ∧
      (before.transfer.phase = .complete →
        count = content.size / blockSize + 1 ∧
        (deliveredBlocks before.sent).flatMap dataOctets = content.toList ∧
        before.transfer.bytesSent.toNat = content.size) ∧
      ∀ event,
        let after := opened.run (Content.reading ω) world now (events ++ [event])
        deliveredBlocks after.sent = deliveredBlocks before.sent ∨
          (deliveredBlocks after.sent).length = count + 1 ∧
          (∃ time, event = .packet (.ack (UInt16.ofNat count)) time) ∧
          InFlightNumber content opened.settings.blockSize count before.transfer := by
  intro opened blockSize before
  have hbounds := ofRequest_blockSize_bounds config peer content length requested
  have hlower : 8 ≤ blockSize := UInt64.le_iff_toNat_le.mp hbounds.1
  refine ⟨hlower, UInt64.le_iff_toNat_le.mp hbounds.2, ?_⟩
  have hsize : content.size < UInt64.size := Nat.lt_trans hcontent (by decide)
  have hserves := Content.feed_serves hsize hlower world
  obtain ⟨count, hcount, hrun⟩ : ∃ count, (events = [] → count ≤ 1) ∧
      Feeding ⟨Content.reading ω, content, world, opened.settings.blockSize⟩ count before :=
    run_feeding (Content.reading ω) peer content hbounds.2
      (nul_notMem_ofRequest_options config peer content length requested) world hserves.explained now
      events
  refine ⟨count, hcount, ?_, fun hphase => ?_, ?_⟩
  · refine (hrun.map_decode hserves).trans ?_
    simp only [content.block_succ]
    rfl
  · obtain ⟨hend, hoctets, hbytes⟩ := hrun.complete hserves hphase
    exact ⟨hend, hoctets, by rw [hbytes, UInt64.toNat_ofNat_of_lt' hsize]⟩
  · intro event after
    have hafter : after = before.handle (Content.reading ω) event :=
      run_concat _ _ _ _ _ _
    rw [hafter]
    rcases hrun.handle hbounds.2 hserves.explained event with hsame | ⟨hnext, hevent, hinFlight⟩
    · exact Or.inl ((hsame.delivered_eq hserves).trans (hrun.delivered_eq hserves).symm)
    · refine Or.inr ⟨?_, hevent, ?_⟩
      · refine (congrArg List.length (hnext.delivered_eq hserves)).trans ?_
        rw [firstBlocks, List.length_map, List.length_range]
      · unfold InFlightNumber
        split
        next hnone => exact (if_pos hnone).mp hinFlight
        next hsome => exact hinFlight.decode_eq hserves (hrun.reached hserves) hsome

/-- Twenty octets in blocks of eight, with a lost OACK, a lost block and a stale
acknowledgement on the way. -/
theorem run_delivers_twenty_octets :
    let content : Content := (Array.range 20).map UInt8.ofNat
    let requested : List OptionField := [⟨ascii "blksize", ascii "8"⟩]
    let events : List Event := [.timeout 3, .packet (.ack 0) 4, .timeout 7, .packet (.ack 1) 8,
      .packet (.ack 1) 9, .packet (.ack 2) 10, .packet (.ack 3) 11]
    let run := (ofRequest {} .zero content (some 20) requested).run (Content.reading Unit) () 0 events
    content.size < 2 ^ 63 ∧ run.transfer.phase = .complete ∧
      (deliveredBlocks run.sent).flatMap dataOctets = content.toList ∧
      run.transfer.bytesSent.toNat = content.size := by
  intro content requested events run
  have hcontent : content.size < 2 ^ 63 := by decide +kernel
  have hphase : run.transfer.phase = .complete := by decide +kernel
  obtain ⟨_, _, count, _, _, hcomplete, _⟩ :=
    run_delivers_content {} .zero hcontent (some 20) requested () 0 events
  obtain ⟨_, hoctets, hbytes⟩ := hcomplete hphase
  exact ⟨hcontent, hphase, hoctets, hbytes⟩

end Transfer

end TftpServer
