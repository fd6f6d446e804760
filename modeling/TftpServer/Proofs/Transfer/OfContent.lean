import TftpServer.Proofs.Negotiation.Announcement
import TftpServer.Proofs.Transfer.Conduct
import TftpServer.Proofs.Transfer.Translation

/-! # Deliveries of a content

A content goes out as it is, or translated if the mode is netascii. Either way a
transfer of it delivers its blocks, and announces its size if that is known.
-/

namespace TftpServer

variable {ω σ τ : Type}

/-- What a mode makes of a content. -/
def Content.inMode (content : Content) (mode : Mode) : Content :=
  if mode = .netascii then Netascii.translated content else content

/-- The passes over two forms of one stream are the same. -/
theorem Feed.Serves.form {feed : Feed ω σ} {content : Content} (hserves : feed.Serves content)
    {reading : Reading ω τ} (form : σ → τ)
    (hread : ∀ source offset count world,
      let (reply, next, after) := feed.reading.read source offset count world
      reading.read (form source) offset count world = (reply, form next, after)) :
    Feed.Serves ⟨reading, form feed.source, feed.world, feed.blockSize⟩ content := by
  let formed : Feed ω τ := ⟨reading, form feed.source, feed.world, feed.blockSize⟩
  have hstate (done : Nat) :
      formed.state done = (form (feed.state done).1, (feed.state done).2) := by
    induction done with
    | zero => rfl
    | succ done ih =>
        rw [Feed.state, ih]
        exact congrArg Prod.snd (hread _ _ _ _)
  have hreply (done : Nat) : formed.reply done = feed.reply done := by
    rw [Feed.reply, hstate]
    exact congrArg Prod.fst (hread _ _ _ _)
  refine ⟨fun done hreached => ?_, fun done hreached => ?_⟩
  · exact (congrArg ReadReply.error (hreply done)).trans (hserves.error done hreached)
  · exact (congrArg ReadReply.octets (hreply done)).trans (hserves.octets done hreached)

theorem Netascii.length_translate_le (octets : Octets) :
    (translate octets).length ≤ 2 * octets.length := by
  induction octets with
  | nil => exact Nat.le_refl 0
  | cons octet rest ih =>
      have hpending : (expand octet).2.toList.length ≤ 1 := by
        cases (expand octet).2 <;> simp
      rw [translate_cons, List.length_cons, List.length_cons, List.length_append]
      omega

theorem Delivery.feed_serves {content : Content} (hcontent : content.size < 2 ^ 63) (mode : Mode)
    {blockSize : UInt64} (hlower : 8 ≤ blockSize.toNat) (world : ω) :
    Feed.Serves ⟨Delivery.reading (Content.reading ω), Delivery.ofMode mode content, world, blockSize⟩
      (content.inMode mode) := by
  have hsize : content.size < UInt64.size := hcontent.trans (by decide)
  unfold Content.inMode Delivery.ofMode
  split
  · have hlength : (Netascii.translate content.toList).length < UInt64.size := by
      have hdouble : (Netascii.translate content.toList).length ≤ 2 * content.size :=
        Netascii.length_translate_le content.toList
      exact lt_of_le_of_lt hdouble (show 2 * content.size < 2 ^ 64 by omega)
    have hinner : Feed.Serves ⟨Content.reading ω, content, world, netasciiChunkSize⟩ content :=
      Content.feed_serves hsize (by decide) world
    exact (Netascii.passOver_serves hinner rfl hlower hlength).form Delivery.netascii
      fun _ _ _ _ => rfl
  · exact (Content.feed_serves hsize hlower world).form Delivery.octet fun _ _ _ _ => rfl

namespace Transfer

/-- The transfer that is set up when a content is asked for. -/
def ofContent (config : EngineConfig) (peer : Endpoint) (request : Request) (content : Content) :
    Transfer (Delivery Content) :=
  let source := Delivery.ofMode request.mode content
  ofRequest config peer source ((Delivery.reading (Content.reading Unit)).length source ())
    request.options

section OfContent

variable (config : EngineConfig) (peer : Endpoint) (request : Request) {content : Content}

theorem ofContent_blockSize_bounds :
    8 ≤ (ofContent config peer request content).settings.blockSize ∧
      (ofContent config peer request content).settings.blockSize ≤ maxBlockSize :=
  ofRequest_blockSize_bounds config peer (Delivery.ofMode request.mode content) _ request.options

theorem nul_notMem_ofContent_options :
    ∀ field ∈ (ofContent config peer request content).options, 0 ∉ field.name ∧ 0 ∉ field.value :=
  nul_notMem_ofRequest_options config peer (Delivery.ofMode request.mode content) _ request.options

variable (hcontent : content.size < 2 ^ 63) (world : ω) (now : Time)

include hcontent

theorem ofContent_feed_serves :
    Feed.Serves ⟨Delivery.reading (Content.reading ω), Delivery.ofMode request.mode content, world,
      (ofContent config peer request content).settings.blockSize⟩ (content.inMode request.mode) := by
  have hbounds : 8 ≤ (ofContent config peer request content).settings.blockSize :=
    (ofRequest_blockSize_bounds config peer _ _ request.options).1
  exact Delivery.feed_serves hcontent request.mode (UInt64.le_iff_toNat_le.mp hbounds) world

/-- The first read gives a block, so the transfer does not end where it starts. -/
theorem start_ofContent_open :
    ((ofContent config peer request content).start (Delivery.reading (Content.reading ω)) world
      now).transfer.isTerminal = false := by
  have hserves := ofContent_feed_serves config peer request hcontent world
  have hreached : 0 * (ofContent config peer request content).settings.blockSize.toNat ≤
      (content.inMode request.mode).size := by
    simp
  exact start_open (Delivery.reading (Content.reading ω)) peer (Delivery.ofMode request.mode content)
    (ofContent_blockSize_bounds config peer request).2
    (nul_notMem_ofContent_options config peer request) world (hserves.gives hreached) now

/-- Its blocks come in order, and all of it if the transfer is complete. -/
theorem run_ofContent (events : List Event) :
    let opened := ofContent config peer request content
    let run := opened.run (Delivery.reading (Content.reading ω)) world now events
    (∃ count, (deliveredBlocks run.sent).map decode = (List.range count).map fun i =>
      .ok (.data (UInt16.ofNat (i + 1))
        ((content.inMode request.mode).block opened.settings.blockSize.toNat (i + 1)))) ∧
      (run.transfer.phase = .complete →
        (deliveredBlocks run.sent).flatMap dataOctets = (content.inMode request.mode).toList) := by
  intro opened run
  have hserves := ofContent_feed_serves config peer request hcontent world
  obtain ⟨count, _, hrun⟩ : ∃ count, (events = [] → count ≤ 1) ∧ Feeding
      ⟨Delivery.reading (Content.reading ω), Delivery.ofMode request.mode content, world,
        opened.settings.blockSize⟩ count run :=
    run_feeding (Delivery.reading (Content.reading ω)) peer (Delivery.ofMode request.mode content)
      (ofContent_blockSize_bounds config peer request).2
      (nul_notMem_ofContent_options config peer request) world hserves.explained now events
  exact ⟨⟨count, hrun.map_decode hserves⟩, fun hphase => (hrun.complete hserves hphase).2.1⟩

/-- If a size is announced for a content that goes out as it is, it is its own. -/
theorem run_ofContent_announces (hmode : request.mode = .octet) (events : List Event) :
    let run := (ofContent config peer request content).run (Delivery.reading (Content.reading ω))
      world now events
    ∀ datagram ∈ run.sent, wireOpcode datagram = some .oack →
      ∃ options, decode datagram = .ok (.oack options) ∧
        ∀ size, announced options .transferSize = some size → size = content.size := by
  intro run datagram hmem hopcode
  have hlength : (Delivery.reading (Content.reading Unit)).length
      (Delivery.ofMode request.mode content) () = some (UInt64.ofNat content.size) := by
    rw [hmode]
    rfl
  have hconduct : Conduct
      (negotiate config.limits (some (UInt64.ofNat content.size)) request.options).entries run := by
    rw [← hlength]
    exact run_conduct (Delivery.reading (Content.reading ω)) peer
      (Delivery.ofMode request.mode content) (ofContent_blockSize_bounds config peer request).2
      (nul_notMem_ofContent_options config peer request) world now events
  refine ⟨_, hconduct.announces.2 datagram hmem hopcode, fun size hsize => ?_⟩
  rw [eq_of_announced_transferSize config.limits _ request.options hsize]
  exact UInt64.toNat_ofNat_of_lt' (hcontent.trans (by decide))

end OfContent

end Transfer

end TftpServer
