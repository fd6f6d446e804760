import TftpServer.Proofs.Sessions.History
import TftpServer.Proofs.Transfer.Restraint

/-! # Restraint towards the network

Nobody can use the server against others. A datagram gets one datagram out of it
at most, which goes back to where it came from, a tick repeats one for each timer
that has run out, and whatever is sent is short, well-formed, and no more than the
peer asked for.
-/

namespace TftpServer.Sessions

variable {ω σ : Type} {store : Store ω σ} {config : EngineConfig} {sessions : Sessions ω σ}

/-- What is in flight may be repeated, in every transfer. -/
def AllRepeatable (sessions : Sessions ω σ) : Prop :=
  ∀ entry ∈ sessions.table, entry.2.Repeatable

theorem AllRepeatable.find? (hrepeatable : sessions.AllRepeatable) {peer : Endpoint}
    {transfer : Transfer σ} (hfind : sessions.table.find? peer = some transfer) :
    transfer.Repeatable :=
  hrepeatable _ (SessionTable.mem_of_find? hfind)

/-- An outcome that says one thing at most, properly and to one peer. -/
structure Answers (outcome : Outcome ω σ) (peer : Endpoint) : Prop where
  sent : ∃ sent : List Octets, Action.datagrams outcome.actions = sent.map (peer, ·) ∧
    sent.length ≤ 1 ∧
    ∀ datagram ∈ sent, ProperDatagram (outcome.sessions.table.find? peer) datagram
  repeatable : outcome.sessions.AllRepeatable

theorem settle_answers {peer : Endpoint} {step : Step ω σ}
    (hfind : (sessions.table.find? peer).isSome)
    (hrepeatable : ∀ entry ∈ sessions.table, entry.1 ≠ peer → entry.2.Repeatable)
    (hstep : step.Restrained) (hfault : step.fault = none) :
    Answers (sessions.settle peer step) peer := by
  have hcloses : closes step = step.transfer.isTerminal := by
    rw [closes, hfault]
    rfl
  have hleft : (sessions.settle peer step).sessions.table.find? peer = step.transfer.remaining := by
    rw [settle_find?_self step hfind, hcloses]
    rfl
  refine ⟨⟨step.sent, settle_datagrams step hfind, hstep.one, ?_⟩, ?_⟩
  · rw [hleft]
    exact hstep.proper
  · exact settle_forall step hfind hrepeatable fun hopen => hstep.repeatable (hcloses ▸ hopen)

section Explained

variable (hstore : store.Explains Tellable)

include hstore

theorem receive_answers (hlive : sessions.AllLive) (hrepeatable : sessions.AllRepeatable)
    (datagram : Octets) (peer : Endpoint) (now : Time) :
    Answers (sessions.receive store config datagram peer now) peer := by
  have hnul := hstore.tellable_nul_notMem
  have hreceipt := receive_receipt store config sessions datagram peer now
  generalize sessions.receive store config datagram peer now = outcome at hreceipt
  cases hreceipt with
  | handled transfer hfind =>
      have htransfer := hlive.find? hfind
      apply settle_answers (by simp [hfind])
      · exact fun entry hentry _ => hrepeatable entry hentry
      · exact Transfer.handle_restrained hstore.reading htransfer (hrepeatable.find? hfind) _ _
      · apply (Transfer.handle_sound hnul.reading htransfer _ _).fault
        exact fun message later hevent => coherent_of_eventOf hevent
  | noted level note hnote =>
      exact ⟨⟨[], rfl, Nat.zero_le 1, fun _ hmem => nomatch hmem⟩, hrepeatable⟩
  | refused opcode request world note code text hfind hdecode hworld htext hnote =>
      have htellable : Tellable text := htext Tellable (fun _ _ => id) hstore
      obtain ⟨reply, hencode, hrefuse⟩ :=
        refuse_eq { sessions with world } peer note code htellable.nul_notMem
      rw [hrefuse]
      refine ⟨⟨[reply], rfl, Nat.le_refl 1, fun other hmem => ?_⟩, hrepeatable⟩
      obtain rfl := List.mem_singleton.mp hmem
      exact .of_error _ htellable hencode
  | opened request opened source world note hfind hdecode hopen herror hsource hnote =>
      have hstarted : Answers (sessions.enroll store peer (Transfer.ofRequest config peer source
          (store.length source world) request.options) world now) peer := by
        apply settle_answers (by simp)
        · intro entry hentry hother
          rcases List.mem_cons.mp hentry with rfl | hold
          · exact absurd rfl hother
          · exact hrepeatable entry hold
        · exact Transfer.start_restrained hstore.reading config peer source _ request.options world
            now
        · exact (Transfer.start_sound hnul.reading config peer source _ request.options world
            now).fault
      exact ⟨hstarted.sent, hstarted.repeatable⟩

theorem expire_repeatable (hlive : sessions.AllLive) (hrepeatable : sessions.AllRepeatable)
    (peer : Endpoint) (now : Time) : (sessions.expire peer now).sessions.AllRepeatable := by
  cases hfind : sessions.table.find? peer with
  | none =>
      rw [expire_of_none sessions peer now hfind]
      exact hrepeatable
  | some transfer =>
      rw [expire_of_some sessions peer now hfind]
      have hstep : (transfer.timeout sessions.world now).Restrained :=
        Transfer.handle_restrained hstore.reading (hlive.find? hfind) (hrepeatable.find? hfind)
          sessions.world (.timeout now)
      have hsome : (sessions.table.find? peer).isSome := by simp [hfind]
      have hanswers := settle_answers hsome (fun entry hentry _ => hrepeatable entry hentry)
        hstep (transfer.timeout_fault sessions.world now)
      exact hanswers.repeatable

theorem call_repeatable (hlive : sessions.AllLive) (hrepeatable : sessions.AllRepeatable)
    (call : Call) :
    (sessions.call store config call).sessions.AllRepeatable := by
  have hnul := hstore.tellable_nul_notMem
  cases call with
  | datagram octets peer now =>
      exact (receive_answers hstore hlive hrepeatable octets peer now).repeatable
  | tick now walk =>
      have hexpire (sessions : Sessions ω σ) (peer : Endpoint)
          (hboth : sessions.AllLive ∧ sessions.AllRepeatable) :
          ((sessions.expire peer now).sessions.AllLive ∧
              (sessions.expire peer now).sessions.AllRepeatable) ∧
            ∀ action ∈ (sessions.expire peer now).actions, True :=
        ⟨⟨expire_sound hnul hboth.1 peer now, expire_repeatable hstore hboth.1 hboth.2 peer now⟩,
          fun _ _ => trivial⟩
      exact (expireAll_induction (fun sessions => sessions.AllLive ∧ sessions.AllRepeatable) hexpire
        ⟨hlive, hrepeatable⟩ _).1.2

theorem history_repeatable {χ : Type} (apply : χ → ω → ω) (world : ω)
    (occurrences : List (Occurrence χ)) :
    (history store config apply { world } occurrences).AllRepeatable := by
  have hnul := hstore.tellable_nul_notMem
  suffices hboth : (history store config apply { world } occurrences).AllLive ∧
      (history store config apply { world } occurrences).AllRepeatable from hboth.2
  apply history_induction fun sessions : Sessions ω σ => sessions.AllLive ∧ sessions.AllRepeatable
  · rintro sessions call ⟨hlive, hrepeatable⟩
    exact ⟨(call_sound hnul hlive call).2, call_repeatable hstore hlive hrepeatable call⟩
  · rintro sessions world ⟨hlive, hrepeatable⟩
    exact ⟨hlive, hrepeatable⟩
  · exact ⟨fun _ hentry => (nomatch hentry), fun _ hentry => nomatch hentry⟩

end Explained

/-- A datagram from a peer without a transfer that is no request gets nothing but a
line in the log. -/
theorem receive_stray (store : Store ω σ) (config : EngineConfig) {peer : Endpoint}
    (hfind : sessions.table.find? peer = none) {octets : Octets}
    (hstray : ∀ message, decode octets = .ok message → message.opcode ≠ .rrq ∧ message.opcode ≠ .wrq)
    (now : Time) :
    (sessions.receive store config octets peer now).sessions = sessions ∧
      Action.datagrams (sessions.receive store config octets peer now).actions = [] := by
  have hreceipt := receive_receipt store config sessions octets peer now
  generalize sessions.receive store config octets peer now = outcome at hreceipt
  cases hreceipt with
  | handled transfer hsome => exact nomatch hfind.symm.trans hsome
  | noted level note hnote => exact ⟨rfl, rfl⟩
  | refused opcode request world note code text _ hdecode hworld htext hnote =>
      obtain ⟨hrrq, hwrq⟩ := hstray _ hdecode
      cases coherent_of_decode hdecode with
      | rrq => exact absurd rfl hrrq
      | wrq => exact absurd rfl hwrq
  | opened request opened source world note _ hdecode hopen herror hsource hnote =>
      exact absurd rfl (hstray _ hdecode).1

/-- A tick is, for each peer, the timer of its transfer or nothing. -/
theorem tick_restrained (config : EngineConfig) (hstore : store.Explains Tellable)
    (hkept : sessions.Kept) (hrepeatable : sessions.AllRepeatable) (now : Time) (walk : Walk)
    (peer : Endpoint) :
    let outcome := sessions.call store config (.tick now walk)
    let sent := (Action.datagrams outcome.actions).to peer
    sent.length ≤ 1 ∧
      (sent ≠ [] → ∃ transfer deadline, sessions.table.find? peer = some transfer ∧
        transfer.deadline = some deadline ∧ deadline ≤ now) ∧
      ∀ datagram ∈ sent, ProperDatagram (outcome.sessions.table.find? peer) datagram := by
  intro outcome sent
  cases hfind : sessions.table.find? peer with
  | none =>
      have hsent : sent = [] := (tick_of_none hkept.unique hfind now walk).2
      rw [hsent]
      exact ⟨Nat.zero_le 1, fun hne => absurd rfl hne, fun _ hmem => nomatch hmem⟩
  | some transfer =>
      have hdealing : Dealing store sessions.world peer transfer
          ((Call.tick now walk).eventFor peer transfer) outcome :=
        tick_dealing hkept.unique hfind now walk
      generalize hevent : (Call.tick now walk).eventFor peer transfer = event? at hdealing
      cases hdealing with
      | ignored _ _ hsent =>
          have hnone : sent = [] := hsent
          rw [hnone]
          exact ⟨Nat.zero_le 1, fun hne => absurd rfl hne, fun _ hmem => nomatch hmem⟩
      | handled event _ hleft hsent =>
          have hlive := hkept.live.find? hfind
          have hstep := Transfer.handle_restrained hstore.reading hlive (hrepeatable.find? hfind)
            sessions.world event
          have hfault := handle_fault hstore.tellable_nul_notMem hlive sessions.world hevent
          obtain ⟨deadline, hdeadline, hpassed⟩ := Call.deadline_of_eventFor_tick hevent
          have hsaid : sent = _ := hsent
          rw [hleft, closes, hfault, hsaid]
          exact ⟨hstep.one, fun _ => ⟨transfer, deadline, rfl, hdeadline, hpassed⟩, hstep.proper⟩

/-- What a call may hand to the sink, by what it is. -/
def Restrained (before after : Sessions ω σ) (handed : SendRecord) : Call → Prop
  | .datagram octets peer _ =>
    handed.length ≤ 1 ∧ (∀ sent ∈ handed, sent.1 = peer) ∧
      (∀ other, other ≠ peer → after.table.find? other = before.table.find? other) ∧
      (before.table.find? peer = none →
        (∀ message, decode octets = .ok message → message.opcode ≠ .rrq ∧ message.opcode ≠ .wrq) →
        handed = [] ∧ after = before)
  | .tick now _ => ∀ peer, (handed.to peer).length ≤ 1 ∧
      (handed.to peer ≠ [] → ∃ transfer deadline, before.table.find? peer = some transfer ∧
        transfer.deadline = some deadline ∧ deadline ≤ now)

theorem call_restrained (hstore : store.Explains Tellable) (hkept : sessions.Kept)
    (hrepeatable : sessions.AllRepeatable) (call : Call) :
    let outcome := sessions.call store config call
    let handed := Action.datagrams outcome.actions
    Restrained sessions outcome.sessions handed call ∧
      ∀ sent ∈ handed, ProperDatagram (outcome.sessions.table.find? sent.1) sent.2 := by
  cases call with
  | datagram octets peer now =>
      obtain ⟨⟨sent, hsent, hone, hproper⟩, _⟩ :
          Answers (sessions.receive store config octets peer now) peer := receive_answers hstore hkept.live hrepeatable octets peer now
      dsimp only [call]
      refine ⟨⟨?_, ?_, ?_, ?_⟩, ?_⟩
      · rw [hsent, List.length_map]
        exact hone
      · intro entry hentry
        rw [hsent] at hentry
        obtain ⟨datagram, _, rfl⟩ := List.mem_map.mp hentry
        rfl
      · exact fun other hother => receive_find?_other store config sessions octets hother now
      · intro hfind hstray
        obtain ⟨hsessions, hnothing⟩ := receive_stray store config hfind hstray now
        exact ⟨hnothing, hsessions⟩
      · intro entry hentry
        rw [hsent] at hentry
        obtain ⟨datagram, hmem, rfl⟩ := List.mem_map.mp hentry
        exact hproper datagram hmem
  | tick now walk =>
      have htick := tick_restrained config hstore hkept hrepeatable now walk
      refine ⟨fun peer => ⟨(htick peer).1, (htick peer).2.1⟩, fun entry hentry => ?_⟩
      obtain ⟨peer, datagram⟩ := entry
      exact (htick peer).2.2 datagram (SendRecord.mem_to.mpr hentry)

/-- The server is of no use against anyone. Over the built-in stores, and over any
that explains failures in texts that an ERROR can carry, after any history of calls
and changes of the store: a datagram gets one datagram out of the server at most,
which goes to its origin, and leaves the transfers of all others alone; one that is
no request and belongs to no transfer gets nothing and changes nothing; a tick
sends one datagram at most to each peer, and only if the deadline of its transfer
has passed. Whatever the sink is handed is an OACK, an ERROR, or a block that fits
the transfer of its receiver, on at most 65468 octets. -/
theorem call_never_amplifies :
    (memoryStore.Explains Tellable ∧ ∀ root, (fileStore root).Explains Tellable) ∧
      ∀ {ω σ κ : Type} (store : Store ω σ), store.Explains Tellable →
        ∀ (config : EngineConfig) (world : ω) (occurrences : List (Occurrence (ω → ω)))
          (call : Call) (sink : Sink κ) (logger : Logger) (state : κ),
          let before := history store config id { world } occurrences
          let outcome := before.call store config call
          let handed := (Action.performAll sink.recorded logger outcome.actions (state, [])).2.2
          Restrained before outcome.sessions handed call ∧
            ∀ sent ∈ handed, ProperDatagram (outcome.sessions.table.find? sent.1) sent.2 := by
  refine ⟨⟨?_, fun root => ?_⟩, ?_⟩
  · exact memoryStore_explains_builtIn.mono tellable_of_mem_builtInDetails
  · exact (fileStore_explains_builtIn root).mono tellable_of_mem_builtInDetails
  · intro ω σ κ store hstore config world occurrences call sink logger state before outcome handed
    have hhanded : handed = Action.datagrams outcome.actions := by
      rw [← List.nil_append (Action.datagrams outcome.actions)]
      exact Action.performAll_recorded sink logger outcome.actions state []
    rw [hhanded]
    exact call_restrained hstore (history_kept hstore.tellable_nul_notMem world occurrences)
      (history_repeatable hstore id world occurrences) call

/-- The timer of a transfer runs out after its entry was taken away: the block is
repeated to its peer, and nothing else is said. -/
theorem call_never_amplifies_repeated_block :
    let peer := Endpoint.ipv4 192 0 2 1 4000
    let request := [0, 1] ++ ascii "a" ++ [0] ++ ascii "octet" ++ [0]
    let sink : Sink Unit := fun _ _ state => (.ok, state)
    let logger : Logger := { tag := ascii "t", threshold := .info }
    let before := history memoryStore {} id { world := [(ascii "a", #[65])] }
      [.call (.datagram request peer 0), .change fun _ => []]
    let call := Call.tick (seconds 3) .inOrder
    let outcome := before.call memoryStore {} call
    let handed := (Action.performAll sink.recorded logger outcome.actions ((), [])).2.2
    memoryStore.Explains Tellable ∧ handed = [(peer, [0, 3, 0, 1, 65])] ∧
      Restrained before outcome.sessions handed call := by
  intro peer request sink logger before call outcome handed
  have hstore := call_never_amplifies.1.1
  obtain ⟨hrestrained, _⟩ := call_never_amplifies.2 memoryStore hstore {} [(ascii "a", #[65])]
    [.call (.datagram request peer 0), .change fun _ => []] call sink logger ()
  have hhanded : handed = [(peer, [0, 3, 0, 1, 65])] := by decide +kernel
  refine ⟨hstore, hhanded, ?_⟩
  subst handed outcome before
  exact hrestrained

end TftpServer.Sessions
