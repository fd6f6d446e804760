import TftpServer.Proofs.Negotiation.Announcement
import TftpServer.Proofs.Transfer.Conduct
import TftpServer.Proofs.Transfer.Delivery

/-! # Announced and done

The options that a transfer announces are texts, and what it does follows from
numbers. Whoever reads the announcement knows how long the blocks are, how long
the transfer waits before it repeats one, and how much there is to come.
-/

namespace TftpServer.Transfer

variable {ω σ : Type}

/-- The options are announced exactly if there are any, and say what was accepted.
Every block has the announced size, but for the last one of a transfer, which is
shorter. Whatever can be repeated is waited for as long as announced. A complete
transfer has delivered as much as announced, if that was known. -/
theorem run_keeps_announcement (config : EngineConfig) (peer : Endpoint) (reading : Reading ω σ)
    (source : σ) (world : ω) (requested : List OptionField) {content : Content}
    (hlength : ∀ length, reading.length source world = some length → length.toNat = content.size)
    (hserves : Feed.Serves ⟨reading, source, world,
      (ofRequest config peer source (reading.length source world) requested).settings.blockSize⟩
      content)
    (now : Time) (events : List Event) :
    let entries := (negotiate config.limits (reading.length source world) requested).entries
    let blockSize := (announced entries .blockSize).getD 512
    let timeout := ((announced entries .timeout).map Int.ofNat).getD config.defaultTimeout.toInt
    let opened := ofRequest config peer source (reading.length source world) requested
    let before := opened.run reading world now events
    (((∃ datagram ∈ before.sent, wireOpcode datagram = some .oack) ↔ entries ≠ []) ∧
      ∀ datagram ∈ before.sent, wireOpcode datagram = some .oack →
        decode datagram = .ok (.oack entries)) ∧
    ((∀ datagram ∈ before.sent, isData datagram = true →
        (dataOctets datagram).length = blockSize ∨
          (dataOctets datagram).length < blockSize ∧
            (before.sent.filter isData).getLast? = some datagram) ∧
      (before.transfer.phase = .complete → ∃ last,
        (before.sent.filter isData).getLast? = some last ∧ (dataOctets last).length < blockSize)) ∧
    ((opened.start reading world now).Punctual timeout none (some now) ∧
      ∀ event, (before.transfer.handle reading before.world event).Punctual timeout
        before.transfer.deadline event.time?) ∧
    (before.transfer.phase = .complete →
      ∀ length size, reading.length source world = some length →
        announced entries .transferSize = some size →
          ((deliveredBlocks before.sent).flatMap dataOctets).length = size) := by
  intro entries blockSize timeout opened before
  have hmax : opened.settings.blockSize ≤ maxBlockSize :=
    (ofRequest_blockSize_bounds config peer source (reading.length source world) requested).2
  have hentries := nul_notMem_ofRequest_options config peer source (reading.length source world)
    requested
  obtain ⟨hsize, htimeout⟩ : opened.settings.blockSize.toNat = blockSize ∧
      opened.settings.timeout.toInt = timeout :=
    resolveSettings_announced config.limits _ requested config.defaultTimeout config.retryLimit
  obtain ⟨count, _, hrun⟩ : ∃ count, (events = [] → count ≤ 1) ∧
      Feeding ⟨reading, source, world, opened.settings.blockSize⟩ count before :=
    run_feeding reading peer source hmax hentries world hserves.explained now events
  have hconduct : Conduct entries before :=
    run_conduct reading peer source hmax hentries world now events
  have hterms : before.transfer.settings = opened.settings :=
    congrArg (fun terms => terms.2.2) (run_terms reading opened world now events)
  refine ⟨hconduct.announces, ⟨?_, ?_⟩, ⟨?_, fun event => ?_⟩,
    fun hphase length size hknown hannounced => ?_⟩
  · rw [← hsize]
    exact fun datagram hmem hdata => hrun.block_length hmem hdata
  · rw [← hsize]
    exact hrun.exists_short
  · rw [← htimeout]
    exact (start_conduct reading peer source hmax hentries world now).2
  · have heffect := handle_effect (hterms ▸ hmax) reading before.world event
    rw [← htimeout, ← hterms]
    exact heffect.punctual
  · obtain ⟨_, hoctets, _⟩ := hrun.complete hserves hphase
    rw [hoctets, Array.length_toList, ← hlength length hknown,
      eq_of_announced_transferSize config.limits _ requested hannounced, hknown, Option.getD_some]

/-- Ten octets in blocks of eight, with every option asked for and one block
repeated. -/
theorem run_keeps_announcement_of_ten_octets :
    let content : Content := (Array.range 10).map UInt8.ofNat
    let reading := Content.reading Unit
    let requested : List OptionField :=
      [⟨ascii "BlkSize", ascii "8"⟩, ⟨ascii "timeout", ascii "2"⟩, ⟨ascii "tsize", ascii "0"⟩]
    let opened := ofRequest {} .zero content (reading.length content ()) requested
    let events : List Event :=
      [.packet (.ack 0) 1, .timeout 5, .packet (.ack 1) 6, .packet (.ack 2) 7]
    let run := opened.run reading () 0 events
    (∀ length, reading.length content () = some length → length.toNat = content.size) ∧
      Feed.Serves ⟨reading, content, (), opened.settings.blockSize⟩ content ∧
      run.transfer.phase = .complete ∧
      ((deliveredBlocks run.sent).flatMap dataOctets).length = 10 := by
  intro content reading requested opened events run
  have hknown : reading.length content () = some 10 := by decide +kernel
  have hlength : ∀ length, reading.length content () = some length →
      length.toNat = content.size := by
    intro length hsome
    obtain rfl := Option.some.inj (hknown.symm.trans hsome)
    decide +kernel
  have hserves : Feed.Serves ⟨reading, content, (), opened.settings.blockSize⟩ content :=
    Content.feed_serves (by decide +kernel) (by decide +kernel) ()
  have hphase : run.transfer.phase = .complete := by decide +kernel
  have hannounced : announced (negotiate {} (reading.length content ()) requested).entries
      .transferSize = some 10 := by
    decide +kernel
  subst run opened reading
  have hkept := run_keeps_announcement {} .zero (Content.reading Unit) content () requested hlength
    hserves 0 events
  exact ⟨hlength, hserves, hphase, hkept.2.2.2 hphase 10 10 hknown hannounced⟩

/-- No timeout is announced, and the default of more than nine million years ends later
than 64 bits can hold. The timer is armed for a time before the block was sent. -/
theorem not_armed_for_default_timeout :
    let content : Content := #[65]
    let reading := Content.reading Unit
    let config : EngineConfig := { defaultTimeout := 288230376151711 }
    let opened := ofRequest config .zero content (reading.length content ()) []
    let step := opened.start reading () (seconds 1)
    Feed.Serves ⟨reading, content, (), opened.settings.blockSize⟩ content ∧
      announced (negotiate config.limits (reading.length content ()) []).entries .timeout = none ∧
      step.sent = [step.transfer.inFlight] ∧ step.transfer.deadline = some (milliseconds 256) ∧
      milliseconds 256 ≠ seconds 1 + seconds config.defaultTimeout.toInt := by
  dsimp only
  exact ⟨Content.feed_serves (by decide +kernel) (by decide +kernel) (), by decide +kernel,
    by decide +kernel, by decide +kernel, by decide +kernel⟩

end TftpServer.Transfer
