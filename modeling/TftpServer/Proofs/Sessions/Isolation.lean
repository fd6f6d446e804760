import TftpServer.Proofs.Sessions.Server

/-! # Peers do not notice each other

What a peer is sent, and how its transfer stands after each call, follows from
its own datagrams and from the ticks. Other peers, the sink and the order in
which ticks walk the table make no difference, over any store that is steady.

Two runs are compared through what one peer sees of them. A call that the peer
takes part in does the same to it in both, and a call that it takes no part in
does nothing to it.
-/

namespace TftpServer

variable {ω σ τ : Type}

namespace Call

/-- Whether a peer takes part in a call: its own datagrams, and all ticks. -/
def concerns (peer : Endpoint) : Call → Bool
  | .datagram _ origin _ => origin = peer
  | .tick _ _ => true

/-- The same call, except that a tick follows the table. -/
def inOrder : Call → Call
  | .datagram octets origin now => .datagram octets origin now
  | .tick now _ => .tick now .inOrder

/-- What a peer takes part in, regardless of the order in which ticks walk the
table. -/
def seenBy (peer : Endpoint) (calls : List Call) : List Call :=
  (calls.filter (·.concerns peer)).map inOrder

theorem seenBy_filter (peer : Endpoint) (calls : List Call) :
    seenBy peer (calls.filter (·.concerns peer)) = seenBy peer calls := by
  rw [seenBy, List.filter_filter]
  simp only [Bool.and_self]
  rfl

end Call

namespace Sessions

/-- Two states of the sessions that a peer cannot tell apart. -/
structure Alike (essence : ω → τ) (peer : Endpoint) (first second : Sessions ω σ) : Prop where
  unique : first.table.UniquePeers
  otherUnique : second.table.UniquePeers
  transfer : first.table.find? peer = second.table.find? peer
  world : essence first.world = essence second.world

variable {store : Store ω σ} {config : EngineConfig} {essence : ω → τ} {peer : Endpoint}
  {sessions first second : Sessions ω σ}

/-! ## Calls that a peer takes no part in -/

theorem receive_other (hsteady : store.Steady essence) (sessions : Sessions ω σ) (datagram : Octets)
    {origin : Endpoint} (hother : peer ≠ origin) (now : Time) :
    let outcome := sessions.receive store config datagram origin now
    outcome.sessions.table.find? peer = sessions.table.find? peer ∧
      essence outcome.sessions.world = essence sessions.world ∧
      (Action.datagrams outcome.actions).to peer = [] := by
  exact ⟨receive_find?_other store config sessions datagram hother now,
    receive_essence config hsteady sessions datagram origin now,
    receive_datagrams_other store config sessions datagram hother now⟩

/-! ## Calls that a peer takes part in -/

theorem settle_alike {step other : Step ω σ} (hunique : first.table.UniquePeers)
    (hotherUnique : second.table.UniquePeers) (hfirst : (first.table.find? peer).isSome)
    (hsecond : (second.table.find? peer).isSome) (hagree : step.Agrees other)
    (hworld : essence step.world = essence other.world) :
    Alike essence peer (first.settle peer step).sessions (second.settle peer other).sessions ∧
      (first.settle peer step).actions = (second.settle peer other).actions := by
  obtain ⟨htransfer, hactions⟩ := settle_congr hfirst hsecond hagree
  refine ⟨⟨settle_uniquePeers _ hfirst hunique, settle_uniquePeers _ hsecond hotherUnique,
    htransfer, ?_⟩, hactions⟩
  rw [settle_world _ hfirst, settle_world _ hsecond]
  exact hworld

theorem enroll_alike (hsteady : store.Steady essence) (halike : Alike essence peer first second)
    (hfind : second.table.find? peer = none) (transfer : Transfer σ) {world other : ω}
    (hworld : essence world = essence other) (now : Time) :
    Alike essence peer (first.enroll store peer transfer world now).sessions
        (second.enroll store peer transfer other now).sessions ∧
      (first.enroll store peer transfer world now).actions =
        (second.enroll store peer transfer other now).actions := by
  have hoblivious := transfer.start_oblivious hsteady.reading now
  have hsome (table : SessionTable σ) :
      (SessionTable.find? ((peer, transfer) :: table) peer).isSome := by
    simp
  exact settle_alike (halike.unique.cons (halike.transfer.trans hfind) transfer)
    (halike.otherUnique.cons hfind transfer) (hsome first.table) (hsome second.table)
    (hoblivious.agrees hworld) (hoblivious.world hworld)

theorem handleRequest_alike (hsteady : store.Steady essence) (halike : Alike essence peer first second)
    (hfind : second.table.find? peer = none) (opcode : Opcode) (request : Request) (now : Time) :
    Alike essence peer (first.handleRequest store config peer opcode request now).sessions
        (second.handleRequest store config peer opcode request now).sessions ∧
      (first.handleRequest store config peer opcode request now).actions =
        (second.handleRequest store config peer opcode request now).actions := by
  by_cases hwrite : opcode = .wrq
  · simp only [handleRequest, if_pos hwrite, refuse_sessions]
    exact ⟨halike, refuse_actions _ _ _ _ _ _⟩
  by_cases hmail : request.mode = .mail
  · simp only [handleRequest, if_neg hwrite, if_pos hmail, refuse_sessions]
    exact ⟨halike, refuse_actions _ _ _ _ _ _⟩
  have hopened := hsteady.open_agrees request.filename request.mode halike.world
  have hworld := (hsteady.open_essence request.filename request.mode first.world).trans
    (halike.world.trans (hsteady.open_essence request.filename request.mode second.world).symm)
  rcases hfirst : store.openStream request.filename request.mode first.world with ⟨opened, world⟩
  rcases hsecond : store.openStream request.filename request.mode second.world with ⟨_, other⟩
  rw [hfirst, hsecond] at hopened hworld
  obtain rfl : opened = _ := hopened
  have hrefused : Alike essence peer { first with world } { second with world := other } :=
    ⟨halike.unique, halike.otherUnique, halike.transfer, hworld⟩
  simp only [handleRequest, if_neg hwrite, if_neg hmail, hfirst, hsecond]
  rcases opened with ⟨error, detail, stream⟩
  cases error with
  | some failure =>
      simp only [refuse_sessions]
      exact ⟨hrefused, refuse_actions _ _ _ _ _ _⟩
  | none =>
      cases stream with
      | none =>
          simp only [refuse_sessions]
          exact ⟨hrefused, refuse_actions _ _ _ _ _ _⟩
      | some source =>
          have hlength : store.length source world = store.length source other :=
            hsteady.reading.length_agrees source hworld
          simp only [hlength]
          obtain ⟨hafter, hactions⟩ := enroll_alike hsteady halike hfind
            (Transfer.ofRequest config peer source (store.length source other) request.options)
            hworld now
          exact ⟨hafter, congrArg _ hactions⟩

theorem settle_handle_alike (hsteady : store.Steady essence)
    (halike : Alike essence peer first second) {transfer : Transfer σ}
    (hfind : second.table.find? peer = some transfer) (event : Transfer.Event) :
    Alike essence peer
        (first.settle peer (transfer.handle store.toReading first.world event)).sessions
        (second.settle peer (transfer.handle store.toReading second.world event)).sessions ∧
      (first.settle peer (transfer.handle store.toReading first.world event)).actions =
        (second.settle peer (transfer.handle store.toReading second.world event)).actions := by
  have hoblivious := transfer.handle_oblivious hsteady.reading event
  refine settle_alike halike.unique halike.otherUnique ?_ ?_ (hoblivious.agrees halike.world)
    (hoblivious.world halike.world)
  · rw [halike.transfer, hfind]
    rfl
  · rw [hfind]
    rfl

theorem receive_alike (hsteady : store.Steady essence) (halike : Alike essence peer first second)
    (datagram : Octets) (now : Time) :
    Alike essence peer (first.receive store config datagram peer now).sessions
        (second.receive store config datagram peer now).sessions ∧
      (first.receive store config datagram peer now).actions =
        (second.receive store config datagram peer now).actions := by
  cases hfind : second.table.find? peer with
  | some transfer =>
      have hfirst := halike.transfer.trans hfind
      cases hdecode : decode datagram with
      | error defect =>
          simp only [receive, hfirst, hfind, hdecode]
          exact settle_handle_alike hsteady halike hfind (.malformed (.defect defect))
      | ok message =>
          by_cases hrepeated : message.opcode = .rrq
          · simp only [receive, hfirst, hfind, hdecode, if_pos hrepeated]
            exact ⟨halike, trivial⟩
          · simp only [receive, hfirst, hfind, hdecode, if_neg hrepeated]
            exact settle_handle_alike hsteady halike hfind (.packet message now)
  | none =>
      have hfirst := halike.transfer.trans hfind
      cases hdecode : decode datagram with
      | error defect =>
          simp only [receive, hfirst, hfind, hdecode]
          exact ⟨halike, trivial⟩
      | ok message =>
          simp only [receive, hfirst, hfind, hdecode]
          cases coherent_of_decode hdecode with
          | rrq request | wrq request => exact handleRequest_alike hsteady halike hfind _ request now
          | data | ack | error | oack => exact ⟨halike, rfl⟩

/-- A tick does the same to a peer, in whatever order it walks the two tables. -/
theorem tick_alike (halike : Alike essence peer first second) (now : Time) (walk other : Walk) :
    let firstOutcome := first.expireAll now (walk.order (first.table.expired now))
    let secondOutcome := second.expireAll now (other.order (second.table.expired now))
    Alike essence peer firstOutcome.sessions secondOutcome.sessions ∧
      (Action.datagrams firstOutcome.actions).to peer =
        (Action.datagrams secondOutcome.actions).to peer := by
  intro firstOutcome secondOutcome
  have hfirstNodup : (walk.order (first.table.expired now)).Nodup :=
    (walk.perm _).nodup_iff.mpr (halike.unique.sublist (SessionTable.expired_sublist _ now))
  have hsecondNodup : (other.order (second.table.expired now)).Nodup :=
    (other.perm _).nodup_iff.mpr (halike.otherUnique.sublist (SessionTable.expired_sublist _ now))
  have hmem : peer ∈ walk.order (first.table.expired now) ↔
      peer ∈ other.order (second.table.expired now) := by
    rw [(walk.perm _).mem_iff, (other.perm _).mem_iff, SessionTable.mem_expired halike.unique,
      SessionTable.mem_expired halike.otherUnique, halike.transfer]
  have hexpired : firstOutcome.sessions.table.find? peer =
        secondOutcome.sessions.table.find? peer ∧
      (Action.datagrams firstOutcome.actions).to peer =
        (Action.datagrams secondOutcome.actions).to peer := by
    -- Each walk comes by the peer once, or neither of them does.
    by_cases hdue : peer ∈ walk.order (first.table.expired now)
    · obtain ⟨hfirst, hfirstSent⟩ := expireAll_of_mem first now hfirstNodup hdue
      obtain ⟨hsecond, hsecondSent⟩ := expireAll_of_mem second now hsecondNodup (hmem.mp hdue)
      obtain ⟨htransfer, hactions⟩ := expire_congr halike.transfer now
      rw [hfirst, hsecond, hfirstSent, hsecondSent, hactions]
      exact ⟨htransfer, rfl⟩
    · obtain ⟨hfirst, hfirstSent⟩ := expireAll_of_notMem first now hdue
      obtain ⟨hsecond, hsecondSent⟩ := expireAll_of_notMem second now (mt hmem.mpr hdue)
      rw [hfirst, hsecond, hfirstSent, hsecondSent]
      exact ⟨halike.transfer, rfl⟩
  refine ⟨⟨?_, ?_, hexpired.1, ?_⟩, hexpired.2⟩
  · exact expireAll_uniquePeers first now halike.unique _
  · exact expireAll_uniquePeers second now halike.otherUnique _
  · rw [expireAll_world, expireAll_world]
    exact halike.world

theorem call_alike (config : EngineConfig) (hsteady : store.Steady essence) (halike : Alike essence peer first second)
    {call : Call} (hconcerns : call.concerns peer = true) :
    Alike essence peer (first.call store config call).sessions
        (second.call store config call.inOrder).sessions ∧
      (Action.datagrams (first.call store config call).actions).to peer =
        (Action.datagrams (second.call store config call.inOrder).actions).to peer := by
  cases call with
  | datagram octets origin now =>
      obtain rfl : origin = peer := of_decide_eq_true hconcerns
      obtain ⟨hafter, hactions⟩ := receive_alike hsteady halike octets now
      exact ⟨hafter, congrArg (fun actions => (Action.datagrams actions).to origin) hactions⟩
  | tick now walk => exact tick_alike halike now walk .inOrder

theorem call_other (config : EngineConfig) (hsteady : store.Steady essence) (halike : Alike essence peer first second)
    {call : Call} (hconcerns : call.concerns peer = false) :
    Alike essence peer (first.call store config call).sessions second ∧
      (Action.datagrams (first.call store config call).actions).to peer = [] := by
  cases call with
  | datagram octets origin now =>
      have hother : peer ≠ origin := fun heq => of_decide_eq_false hconcerns heq.symm
      obtain ⟨htransfer, hworld, hsent⟩ := receive_other hsteady first octets hother now
      refine ⟨⟨receive_uniquePeers halike.unique octets origin now, halike.otherUnique, ?_, ?_⟩, hsent⟩
      · exact htransfer.trans halike.transfer
      · exact hworld.trans halike.world
  | tick now walk => cases hconcerns

end Sessions

namespace Server

variable {κ ι : Type} {store : Store ω σ} {essence : ω → τ} {peer : Endpoint}

theorem take_recorded (store : Store ω σ) (config : EngineConfig) (sink : Sink κ) (logger : Logger) (server : Server ω σ (κ × SendRecord))
    (call : Call) :
    (server.take store config sink.recorded logger call).sink.2 =
      server.sink.2 ++ Action.datagrams (server.sessions.call store config call).actions :=
  Action.performAll_recorded sink logger _ server.sink.1 server.sink.2

/-- A run is to a peer what the calls that it takes part in are, over any other
sink and with any other log. -/
theorem run_seenBy (config : EngineConfig) (hsteady : store.Steady essence) (sink : Sink κ)
    (logger : Logger) (otherSink : Sink ι) (otherLogger : Logger) (calls : List Call)
    (first : Server ω σ (κ × SendRecord)) (second : Server ω σ (ι × SendRecord))
    (halike : first.sessions.Alike essence peer second.sessions)
    (hsent : first.sink.2.to peer = second.sink.2.to peer) :
    let mixed := first.run store config sink.recorded logger calls
    let alone := second.run store config otherSink.recorded otherLogger (Call.seenBy peer calls)
    mixed.sessions.Alike essence peer alone.sessions ∧
      mixed.sink.2.to peer = alone.sink.2.to peer := by
  induction calls generalizing first second with
  | nil => exact ⟨halike, hsent⟩
  | cons call rest ih =>
      cases hconcerns : call.concerns peer with
      | true =>
          have hseen : Call.seenBy peer (call :: rest) = call.inOrder :: Call.seenBy peer rest := by
            rw [Call.seenBy, List.filter_cons_of_pos hconcerns, List.map_cons]
            rfl
          obtain ⟨hafter, hsends⟩ := Sessions.call_alike config hsteady halike hconcerns
          rw [hseen]
          refine ih _ _ hafter ?_
          rw [take_recorded, take_recorded, SendRecord.to_append, SendRecord.to_append, hsent, hsends]
      | false =>
          -- The peer sees nothing of the call, so only the first run takes it.
          have hseen : Call.seenBy peer (call :: rest) = Call.seenBy peer rest := by
            rw [Call.seenBy, List.filter_cons_of_neg (by simp [hconcerns])]
            rfl
          obtain ⟨hafter, hsends⟩ := Sessions.call_other config hsteady halike hconcerns
          rw [hseen]
          refine ih _ _ hafter ?_
          rw [take_recorded, SendRecord.to_append, hsends, List.append_nil, hsent]

/-- Peers do not notice each other. Over a steady store, as the built-in ones
are, two runs from an empty table in which a peer sees the same, such as any run
and the one that keeps only the datagrams of the peer and the ticks, send the
same datagrams to it and leave it the same transfer, whatever else they take,
however their sinks fare and in whatever order their ticks walk the table. -/
theorem run_isolated :
    memoryStore.Steady id ∧ (∀ root, (fileStore root).Steady id) ∧
      ∀ {ω σ τ κ ι : Type} (store : Store ω σ) (essence : ω → τ), store.Steady essence →
        ∀ (config : EngineConfig) (peer : Endpoint) (calls others : List Call),
          Call.seenBy peer calls = Call.seenBy peer others →
          ∀ (world : ω) (sink : Sink κ) (state : κ) (logger : Logger)
            (otherSink : Sink ι) (otherState : ι) (otherLogger : Logger),
            let first := (fresh world (state, [])).run store config sink.recorded logger calls
            let second :=
              (fresh world (otherState, [])).run store config otherSink.recorded otherLogger others
            first.sink.2.to peer = second.sink.2.to peer ∧
              first.sessions.table.find? peer = second.sessions.table.find? peer := by
  refine ⟨memoryStore_steady, fileStore_steady, ?_⟩
  intro ω σ τ κ ι store essence hsteady config peer calls others hseen world sink state logger
    otherSink otherState otherLogger first second
  have hempty : Sessions.Alike essence peer ({ world } : Sessions ω σ) { world } :=
    ⟨List.nodup_nil, List.nodup_nil, rfl, rfl⟩
  -- Both runs are compared with what the peer sees, over the second sink.
  obtain ⟨hfirst, hfirstSent⟩ := run_seenBy config hsteady sink logger otherSink otherLogger calls
    (fresh world (state, [])) (fresh world (otherState, [])) hempty rfl
  obtain ⟨hsecond, hsecondSent⟩ := run_seenBy config hsteady otherSink otherLogger otherSink
    otherLogger others (fresh world (otherState, [])) (fresh world (otherState, [])) hempty rfl
  rw [hseen] at hfirst hfirstSent
  exact ⟨hfirstSent.trans hsecondSent.symm, hfirst.transfer.trans hsecond.transfer.symm⟩

/-- A peer that shares the server with another one, over a sink that takes
everything, and the same peer alone, over a sink that takes nothing. -/
theorem run_isolated_from_neighbour :
    let peer := Endpoint.ipv4 192 0 2 1 4000
    let neighbour := Endpoint.ipv4 192 0 2 2 4000
    let request := [0, 1] ++ ascii "a" ++ [0] ++ ascii "octet" ++ [0]
    let calls := [Call.datagram request peer 0, .datagram request neighbour 1,
      .datagram [0, 4, 0, 1] neighbour 2, .tick 3000000000 .inOrder]
    let alone := calls.filter (·.concerns peer)
    let world : MemoryTable := [(ascii "a", #[65])]
    Call.seenBy peer calls = Call.seenBy peer alone ∧
      let shared := (fresh world ((), [])).run memoryStore {}
        (Sink.recorded fun _ _ state => (.ok, state)) ⟨[], .silent⟩ calls
      let single := (fresh world ((), [])).run memoryStore {}
        (Sink.recorded fun _ _ state => (.pipeClosed, state)) ⟨[], .silent⟩ alone
      shared.sink.2.to peer = single.sink.2.to peer ∧
        shared.sessions.table.find? peer = single.sessions.table.find? peer := by
  intro peer neighbour request calls alone world
  have hseen : Call.seenBy peer calls = Call.seenBy peer alone :=
    (Call.seenBy_filter peer calls).symm
  have hisolated := run_isolated.2.2 memoryStore id run_isolated.1 {} peer calls alone hseen
    world (fun _ _ state => (.ok, state)) () ⟨[], .silent⟩
    (fun _ _ state => (.pipeClosed, state)) () ⟨[], .silent⟩
  exact ⟨hseen, hisolated⟩

end Server

end TftpServer
