import TftpServer.Proofs.Sessions.Faultless
import TftpServer.Proofs.Transfer.Demand

/-! # Coming and going

A transfer comes into the table with a read request that opens a stream, from a
peer that has none. From then on only the events of that peer move it: nothing
puts another one in its place or starts it again, and it is gone after the call
in which it ends. So whoever has a transfer is waited for, up to a deadline.
-/

namespace TftpServer

variable {ω σ : Type}

/-- What a call is to the transfer of a peer, if it is anything: a datagram of
that peer, save for repeated read requests, or a tick after the deadline. -/
def Call.eventFor (peer : Endpoint) (transfer : Transfer σ) : Call → Option Transfer.Event
  | .datagram octets origin now =>
    if origin ≠ peer then none
    else
      match decode octets with
      | .ok message => if message.opcode = .rrq then none else some (.packet message now)
      | .error defect => some (.malformed (.defect defect))
  | .tick now _ =>
    match transfer.deadline with
    | some deadline => if deadline ≤ now then some (.timeout now) else none
    | none => none

theorem Call.coherent_of_eventFor {peer : Endpoint} {transfer : Transfer σ} {call : Call}
    {message : Message} {now : Time}
    (hevent : call.eventFor peer transfer = some (.packet message now)) : message.Coherent := by
  cases call with
  | datagram octets origin later =>
      simp only [eventFor] at hevent
      split at hevent
      · cases hevent
      · split at hevent
        next decoded hdecode =>
          split at hevent
          · cases hevent
          · cases hevent
            exact coherent_of_decode hdecode
        next => cases hevent
  | tick later walk =>
      simp only [eventFor] at hevent
      split at hevent
      · split at hevent <;> cases hevent
      · cases hevent

theorem Call.deadline_of_eventFor_tick {peer : Endpoint} {transfer : Transfer σ} {now : Time}
    {walk : Walk} {event : Transfer.Event}
    (hevent : (Call.tick now walk).eventFor peer transfer = some event) :
    ∃ deadline, transfer.deadline = some deadline ∧ deadline ≤ now := by
  simp only [eventFor] at hevent
  split at hevent
  next deadline hdeadline =>
    split at hevent
    next hpassed => exact ⟨deadline, hdeadline, hpassed⟩
    next => cases hevent
  next => cases hevent

namespace Sessions

/-- What a call leaves of the transfer of a peer: the transfer as it is, if the
call is nothing to it, or else what its event makes of it, unless that is its
end. -/
def remains (store : Store ω σ) (sessions : Sessions ω σ) (peer : Endpoint) (transfer : Transfer σ)
    (call : Call) : Option (Transfer σ) :=
  match call.eventFor peer transfer with
  | none => some transfer
  | some event =>
    let step := transfer.handle store.toReading sessions.world event
    if step.transfer.isTerminal then none else some step.transfer

/-- The transfers that a call brings for a peer: those that are set up and
started for a read request of that peer, over a stream that was opened. -/
inductive Admits (store : Store ω σ) (config : EngineConfig) (sessions : Sessions ω σ)
    (peer : Endpoint) : Call → Transfer σ → Prop where
  | intro (octets : Octets) (now : Time) (request : Request) (opened : Opened σ) (source : σ)
      (world : ω) (hdecode : decode octets = .ok ⟨.rrq, .request request⟩)
      (hopen : store.openStream request.filename request.mode sessions.world = (opened, world))
      (herror : opened.error = none) (hsource : opened.stream = some source) :
      Admits store config sessions peer (.datagram octets peer now)
        ((Transfer.ofRequest config peer source (store.length source world)
          request.options).start store.toReading world now).transfer

variable {store : Store ω σ} {config : EngineConfig} {sessions : Sessions ω σ} {peer : Endpoint}
  {transfer : Transfer σ}

/-! ## Peers with a transfer -/

/-- What a call comes to for a peer with a transfer, by what it is to that: nothing,
or an event, which is taken as if there were no one else. -/
inductive Dealing (store : Store ω σ) (world : ω) (peer : Endpoint) (transfer : Transfer σ) :
    Option Transfer.Event → Outcome ω σ → Prop where
  | ignored (outcome : Outcome ω σ) (hfind : outcome.sessions.table.find? peer = some transfer)
      (hsent : (Action.datagrams outcome.actions).to peer = []) :
      Dealing store world peer transfer none outcome
  | handled (event : Transfer.Event) (outcome : Outcome ω σ)
      (hfind : outcome.sessions.table.find? peer =
        if closes (transfer.handle store.toReading world event) then none
        else some (transfer.handle store.toReading world event).transfer)
      (hsent : (Action.datagrams outcome.actions).to peer =
        (transfer.handle store.toReading world event).sent) :
      Dealing store world peer transfer (some event) outcome

theorem settle_dealing (hfind : sessions.table.find? peer = some transfer)
    (event : Transfer.Event) :
    Dealing store sessions.world peer transfer (some event)
      (sessions.settle peer (transfer.handle store.toReading sessions.world event)) := by
  have hsome : (sessions.table.find? peer).isSome := by simp [hfind]
  refine .handled event _ (settle_find?_self _ hsome) ?_
  rw [settle_datagrams _ hsome, SendRecord.to_map_self]

theorem receive_dealing (config : EngineConfig) (hfind : sessions.table.find? peer = some transfer)
    (octets : Octets) (now : Time) :
    Dealing store sessions.world peer transfer
      ((Call.datagram octets peer now).eventFor peer transfer)
      (sessions.receive store config octets peer now) := by
  cases hdecode : decode octets with
  | error defect =>
      simp only [Call.eventFor, receive, hfind, hdecode, ne_eq, not_true_eq_false, if_false]
      exact settle_dealing hfind (.malformed (.defect defect))
  | ok message =>
      simp only [Call.eventFor, receive, hfind, hdecode, ne_eq, not_true_eq_false, if_false]
      by_cases hrepeated : message.opcode = .rrq
      · simp only [if_pos hrepeated]
        exact .ignored _ hfind rfl
      · simp only [if_neg hrepeated]
        exact settle_dealing hfind (.packet message now)

theorem tick_dealing (hunique : sessions.table.UniquePeers)
    (hfind : sessions.table.find? peer = some transfer) (now : Time) (walk : Walk) :
    Dealing store sessions.world peer transfer ((Call.tick now walk).eventFor peer transfer)
      (sessions.expireAll now (walk.order (sessions.table.expired now))) := by
  have hnodup : (walk.order (sessions.table.expired now)).Nodup :=
    (walk.perm _).nodup_iff.mpr (hunique.sublist (SessionTable.expired_sublist _ now))
  by_cases hdue : peer ∈ walk.order (sessions.table.expired now)
  · obtain ⟨current, deadline, hcurrent, hdeadline, hpassed⟩ :=
      (SessionTable.mem_expired hunique now).mp ((walk.perm _).mem_iff.mp hdue)
    obtain rfl : transfer = current := Option.some.inj (hfind.symm.trans hcurrent)
    have hevent : (Call.tick now walk).eventFor peer transfer = some (.timeout now) := by
      simp [Call.eventFor, hdeadline, hpassed]
    obtain ⟨hafter, hsent⟩ := expireAll_of_mem sessions now hnodup hdue
    have hdealing : Dealing store sessions.world peer transfer (some (.timeout now)) _ :=
      settle_dealing hfind (.timeout now)
    rw [expire_of_some sessions peer now hfind] at hafter hsent
    rw [hevent]
    cases hdealing with
    | handled _ _ hleft hsaid => exact .handled _ _ (hafter.trans hleft) (hsent.trans hsaid)
  · have hevent : (Call.tick now walk).eventFor peer transfer = none := by
      cases hdeadline : transfer.deadline with
      | none => simp [Call.eventFor, hdeadline]
      | some deadline =>
          have hahead : ¬ deadline ≤ now := fun hpassed =>
            hdue ((walk.perm _).mem_iff.mpr ((SessionTable.mem_expired hunique now).mpr
              ⟨transfer, deadline, hfind, hdeadline, hpassed⟩))
          simp [Call.eventFor, hdeadline, hahead]
    obtain ⟨hafter, hsent⟩ := expireAll_of_notMem sessions now hdue
    rw [hevent]
    exact .ignored _ (hafter.trans hfind) hsent

theorem call_dealing (config : EngineConfig) (hunique : sessions.table.UniquePeers)
    (hfind : sessions.table.find? peer = some transfer) (call : Call) :
    Dealing store sessions.world peer transfer (call.eventFor peer transfer)
      (sessions.call store config call) := by
  cases call with
  | tick now walk => exact tick_dealing hunique hfind now walk
  | datagram octets origin now =>
      by_cases horigin : origin = peer
      · subst horigin
        exact receive_dealing config hfind octets now
      · have hother := Ne.symm horigin
        have hevent : (Call.datagram octets origin now).eventFor peer transfer = none := by
          simp [Call.eventFor, horigin]
        rw [hevent]
        refine .ignored _ ?_ (receive_datagrams_other store config sessions octets hother now)
        exact (receive_find?_other store config sessions octets hother now).trans hfind

/-- No call makes an event that is a fault to its transfer. -/
theorem handle_fault (hstore : store.Explains (0 ∉ ·)) (hlive : transfer.Live) (world : ω) {call : Call}
    {event : Transfer.Event} (hevent : call.eventFor peer transfer = some event) :
    (transfer.handle store.toReading world event).fault = none := by
  apply (Transfer.handle_sound hstore.reading hlive world _).fault
  intro message now hpacket
  exact Call.coherent_of_eventFor (hpacket ▸ hevent)

/-- A call leaves of a transfer what its own event makes of it. -/
theorem call_find?_of_some (hstore : store.Explains (0 ∉ ·)) (hlive : sessions.AllLive)
    (hunique : sessions.table.UniquePeers) (hfind : sessions.table.find? peer = some transfer)
    (call : Call) :
    (sessions.call store config call).sessions.table.find? peer =
      sessions.remains store peer transfer call := by
  have hdealing : Dealing store sessions.world peer transfer (call.eventFor peer transfer) _ :=
    call_dealing config hunique hfind call
  cases hevent : call.eventFor peer transfer with
  | none =>
      rw [hevent] at hdealing
      cases hdealing with
      | ignored _ hafter _ => rw [hafter, remains, hevent]
  | some event =>
      have hfault := handle_fault hstore (hlive.find? hfind) sessions.world hevent
      rw [hevent] at hdealing
      cases hdealing with
      | handled _ _ hafter _ =>
          rw [hafter, remains, hevent, closes, hfault]
          rfl

/-! ## Peers without a transfer -/

theorem tick_of_none (hunique : sessions.table.UniquePeers) (hfind : sessions.table.find? peer = none)
    (now : Time) (walk : Walk) :
    let outcome := sessions.expireAll now (walk.order (sessions.table.expired now))
    outcome.sessions.table.find? peer = none ∧ (Action.datagrams outcome.actions).to peer = [] := by
  have hdue : peer ∉ walk.order (sessions.table.expired now) := by
    rw [(walk.perm _).mem_iff, SessionTable.mem_expired hunique]
    rintro ⟨current, deadline, hcurrent, _⟩
    rw [hfind] at hcurrent
    cases hcurrent
  obtain ⟨hafter, hsent⟩ := expireAll_of_notMem sessions now hdue
  exact ⟨hafter.trans hfind, hsent⟩

/-- A call brings a transfer for a peer that has none only when it opens a stream
for it. -/
theorem call_find?_of_none (hunique : sessions.table.UniquePeers)
    (hfind : sessions.table.find? peer = none) {call : Call}
    (hafter : (sessions.call store config call).sessions.table.find? peer = some transfer) :
    Admits store config sessions peer call transfer := by
  cases call with
  | tick now walk =>
      rw [call, (tick_of_none hunique hfind now walk).1] at hafter
      cases hafter
  | datagram octets origin now =>
      by_cases horigin : origin = peer
      · subst horigin
        have hreceipt := receive_receipt store config sessions octets origin now
        rw [call] at hafter
        generalize sessions.receive store config octets origin now = outcome at hreceipt hafter
        cases hreceipt with
        | handled current hcurrent =>
            rw [hfind] at hcurrent
            cases hcurrent
        | noted level note hnote =>
            rw [hfind] at hafter
            cases hafter
        | refused opcode request world note code text _ hdecode hworld htext hnote =>
            rw [refuse_sessions, hfind] at hafter
            cases hafter
        | opened request opened source world note _ hdecode hopen herror hsource hnote =>
            have hstarted := hafter
            dsimp only [enroll] at hstarted
            rw [settle_find?_self _ (by simp)] at hstarted
            split at hstarted
            · cases hstarted
            · cases hstarted
              exact .intro octets now request opened source world hdecode hopen herror hsource
      · rw [call, receive_find?_other store config sessions octets (Ne.symm horigin) now, hfind]
          at hafter
        cases hafter

/-! ## Every run -/

/-- What holds of the table between calls: every peer is in it once at most, under
its own transfer, and every transfer waits. -/
structure Kept (sessions : Sessions ω σ) : Prop where
  live : sessions.AllLive
  unique : sessions.table.UniquePeers
  own : ∀ peer transfer, sessions.table.find? peer = some transfer → transfer.peer = peer

/-- A transfer comes with what was agreed for a request. -/
theorem Admits.terms_eq {call : Call} (hadmits : Admits store config sessions peer call transfer) :
    ∃ (source : σ) (length : Option UInt64) (requested : List OptionField),
      transfer.terms = (Transfer.ofRequest config peer source length requested).terms := by
  obtain ⟨octets, now, request, opened, source, world, _, _, _, _⟩ := hadmits
  exact ⟨source, _, _, (Transfer.start_demands _ now).terms store.toReading world⟩

theorem Admits.peer_eq {call : Call} (hadmits : Admits store config sessions peer call transfer) :
    transfer.peer = peer := by
  obtain ⟨source, length, requested, hterms⟩ := hadmits.terms_eq
  exact congrArg Prod.fst hterms

theorem remains_terms {after : Transfer σ} {call : Call}
    (hremains : sessions.remains store peer transfer call = some after) :
    after.terms = transfer.terms := by
  unfold remains at hremains
  split at hremains
  next =>
    cases hremains
    rfl
  next event _ =>
    have hterms := (Transfer.handle_demands transfer event).terms store.toReading sessions.world
    dsimp only at hremains
    split at hremains
    · cases hremains
    · cases hremains
      exact hterms

theorem Kept.call (hstore : store.Explains (0 ∉ ·)) (config : EngineConfig) (hkept : sessions.Kept)
    (call : Call) : (sessions.call store config call).sessions.Kept where
  live := (call_sound hstore hkept.live call).2
  unique := call_uniquePeers hkept.unique call
  own peer after hafter := by
    cases hfind : sessions.table.find? peer with
    | none => exact (call_find?_of_none hkept.unique hfind hafter).peer_eq
    | some transfer =>
        rw [call_find?_of_some hstore hkept.live hkept.unique hfind call] at hafter
        exact (congrArg Prod.fst (remains_terms hafter)).trans (hkept.own peer transfer hfind)

theorem kept_empty (world : ω) : ({ world } : Sessions ω σ).Kept where
  live _ hentry := nomatch hentry
  unique := List.nodup_nil
  own _ _ hfind := nomatch hfind

theorem run_kept (hstore : store.Explains (0 ∉ ·)) (config : EngineConfig) (world : ω)
    (calls : List Call) : (run store config { world } calls).Kept :=
  run_induction Kept (fun _ call hkept => hkept.call hstore config call) (kept_empty world) calls

/-- Between calls, every peer has one transfer at most, kept under its own name,
and every transfer waits for an acknowledgement, with a stream and a deadline. A
call brings a transfer only for a peer that has none, by a read request that opens
a stream. It leaves of any other transfer what the call is to it, which is nothing
exactly if that ends it. -/
theorem run_keeps_table (hstore : store.Explains (0 ∉ ·)) (config : EngineConfig) (world : ω)
    (calls : List Call) :
    let before := run store config { world } calls
    before.table.UniquePeers ∧
      (∀ entry ∈ before.table, entry.2.peer = entry.1 ∧
        (entry.2.phase = .awaitingOptionAck ∨ entry.2.phase = .awaitingAck) ∧
        (∃ source, entry.2.source = some source) ∧ ∃ deadline, entry.2.deadline = some deadline) ∧
      ∀ call peer,
        let after := (before.call store config call).sessions
        (before.table.find? peer = none → ∀ transfer, after.table.find? peer = some transfer →
          Admits store config before peer call transfer) ∧
        ∀ transfer, before.table.find? peer = some transfer →
          after.table.find? peer = before.remains store peer transfer call := by
  intro before
  have hkept : before.Kept := run_kept hstore config world calls
  refine ⟨hkept.unique, fun entry hentry => ?_, fun call peer => ⟨fun hfind transfer hafter => ?_,
    fun transfer hfind => ?_⟩⟩
  · have hlive := hkept.live entry hentry
    have hown := hkept.own entry.1 entry.2 (SessionTable.find?_eq_some_of_mem hkept.unique hentry)
    exact ⟨hown, hlive.waiting, hlive.source, hlive.deadline⟩
  · exact call_find?_of_none hkept.unique hfind hafter
  · exact call_find?_of_some hstore hkept.live hkept.unique hfind call

/-- A file of one octet: the transfer comes with the request, a repeated request
is nothing to it, and it is gone after the acknowledgement of its only block. -/
theorem run_keeps_one_block_transfer :
    let peer := Endpoint.ipv4 192 0 2 1 4000
    let request := [0, 1] ++ ascii "a" ++ [0] ++ ascii "octet" ++ [0]
    let before := run memoryStore {} { world := [(ascii "a", #[65])] }
      [.datagram request peer 0, .datagram request peer 10]
    memoryStore.Explains (0 ∉ ·) ∧
      ∃ transfer, before.table.find? peer = some transfer ∧ transfer.peer = peer ∧
        (before.call memoryStore {} (.datagram [0, 4, 0, 1] peer 20)).sessions.table.find? peer =
          none := by
  intro peer request before
  have hstore : memoryStore.Explains (0 ∉ ·) := memoryStore_explains.nul_notMem
  have hpresent : (before.table.find? peer).isSome := by decide +kernel
  have hgone : ((before.table.find? peer).bind fun transfer =>
      before.remains memoryStore peer transfer (.datagram [0, 4, 0, 1] peer 20)).isNone := by
    decide +kernel
  subst before
  obtain ⟨transfer, hfind⟩ := Option.isSome_iff_exists.mp hpresent
  obtain ⟨_, hentries, hcalls⟩ := run_keeps_table hstore {} [(ascii "a", #[65])]
    [.datagram request peer 0, .datagram request peer 10]
  have hpeer := (hentries (peer, transfer) (SessionTable.mem_of_find? hfind)).1
  have hleft := (hcalls (.datagram [0, 4, 0, 1] peer 20) peer).2 transfer hfind
  rw [hfind, Option.bind_some, Option.isNone_iff_eq_none] at hgone
  exact ⟨hstore, transfer, hfind, hpeer, hleft.trans hgone⟩

end Sessions

end TftpServer
