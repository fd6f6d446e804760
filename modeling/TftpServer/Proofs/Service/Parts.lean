import TftpServer.Proofs.Network.Observation
import TftpServer.Proofs.Network.StopSignals
import TftpServer.Proofs.Sessions.Faultless
import TftpServer.Proofs.Sessions.Keeping
import TftpServer.Service

/-! # Parts of a turn

A turn of the service is a wait, at most one datagram, and at most one tick. In each
of them stop signals may come at any of the calls on the host and on the store, and
nothing else befalls them. Over a store whose explanations are free of NUL octets no
part faults.
-/

namespace TftpServer

variable {ω σ : Type}

/-! ## Calls on the host and on the store -/

section Calls

variable {host : Host ω} {store : Store ω σ} {signals : ω → StopSignals}

theorem Store.Signalled.keeps (hstore : store.Signalled signals) (before : ω) :
    store.Keeps (Undergoes signals before) where
  reading source offset count world hworld := hworld.trans (hstore.read source offset count world)
  openStream name mode world hworld := hworld.trans (hstore.openStream name mode world)

variable (hhost : host.Signalled signals)

include hhost

theorem Socket.receive_undergoes (socket : Socket) (buffer : ReceiveBuffer) (world : ω) :
    Undergoes signals world (socket.receive host buffer world).2.2.2 := by
  unfold receive
  split
  next =>
    have hreceive := hhost.receive socket.descriptor buffer.reset.capacity world
    dsimp only
    split
    next hreceived =>
      rw [hreceived] at hreceive
      exact hreceive
    next hreceived =>
      rw [hreceived] at hreceive
      split <;> exact hreceive
  next => exact .of_eq rfl

theorem Socket.sink_undergoes (socket : Socket) (peer : Endpoint) (octets : Octets) (world : ω) :
    Undergoes signals world (socket.sink host peer octets world).2 := by
  unfold sink send
  split
  · exact .of_eq rfl
  · split
    · exact .of_eq rfl
    · have hsend := hhost.send socket.descriptor (SocketAddress.ofEndpoint peer) octets world
      split
      next hsent => exact congrArg (·.2) hsent ▸ hsend
      next hsent => exact congrArg (·.2) hsent ▸ hsend

theorem Action.performAll_undergoes (socket : Socket) (logger : Logger) (actions : List Action)
    (world : ω) :
    Undergoes signals world (performAll (socket.sink host) logger actions world).2 := by
  induction actions generalizing world with
  | nil => exact .of_eq rfl
  | cons action rest ih =>
      have hfirst : Undergoes signals world (action.perform (socket.sink host) logger world).2 := by
        rw [perform_state]
        cases action with
        | note level text => exact .of_eq rfl
        | send peer datagram | reply peer code datagram =>
            exact socket.sink_undergoes hhost peer datagram world
      exact hfirst.trans (ih _)

end Calls

namespace Service

/-! ## Parts of a turn -/

inductive Part where
  | wait (report : PollReport)
  | datagram
  | tick
  deriving DecidableEq, Repr

/-- The wait that begins a turn. A socket that is found broken is worth a message. -/
def await (host : Host ω) (logger : Logger) (service : Service ω σ) : PollReport × Service ω σ :=
  let (now, world) := host.now service.world
  let (report, world) := host.poll service.socket.descriptor
    (waitFor service.sessions.table now).toNat world
  let waited := service.withWorld world
  (report,
    if report.isClosed then waited.note logger .fatal (ascii "socket closed unexpectedly")
    else waited)

/-- The parts of a whole turn, and how it ends: with the wait, if that finds the
socket broken, and else with a tick, unless the datagram before it faults. -/
inductive IsTurn : List Part → TurnEnd → Prop where
  | closed (report : PollReport) (hclosed : report.isClosed = true) :
      IsTurn [.wait report] .socketClosed
  | idle (report : PollReport) (hopen : report.isClosed = false)
      (hquiet : report.isReadable = false) :
      IsTurn [.wait report, .tick] .served
  | served (report : PollReport) (hreadable : report.isReadable = true) :
      IsTurn [.wait report, .datagram, .tick] .served
  | broken (report : PollReport) (hreadable : report.isReadable = true) (fault : Fault) :
      IsTurn [.wait report, .datagram] (.faulted fault)

/-- What a service does in a part of a turn. -/
inductive Part.Leads (host : Host ω) (store : Store ω σ) (config : EngineConfig) (logger : Logger) :
    Part → Service ω σ → Service ω σ → Prop where
  | wait (service : Service ω σ) :
      Leads host store config logger (.wait (service.await host logger).1) service
        (service.await host logger).2
  | datagram (service : Service ω σ) :
      Leads host store config logger .datagram service
        (service.receiveOne host store config logger).1
  | tick (service : Service ω σ) :
      Leads host store config logger .tick service (service.tick host logger).1

theorem turn_eq (host : Host ω) (store : Store ω σ) (config : EngineConfig) (logger : Logger)
    {service : Service ω σ} (hsocket : service.socket.isUsable = true) :
    service.turn host store config logger =
      let (report, waited) := service.await host logger
      if report.isClosed then (waited, .socketClosed)
      else if report.isReadable then
        match waited.receiveOne host store config logger with
        | (received, .served) => received.tick host logger
        | ended => ended
      else waited.tick host logger := by
  rcases hpoll : host.poll service.socket.descriptor
    (waitFor service.sessions.table (host.now service.world).1).toNat
    (host.now service.world).2 with ⟨report, world⟩
  simp only [turn, await, Socket.waitReadable_eq host hsocket, hpoll]
  cases hclosed : report.isClosed with
  | true => simp [PollReport.status, hclosed]
  | false =>
      cases hreadable : report.isReadable with
      | true =>
          rcases hreceived : (service.withWorld world).receiveOne host store config logger with
            ⟨received, ended⟩
          cases ended <;> simp [PollReport.status, hclosed, hreadable, hreceived]
      | false => simp [PollReport.status, hclosed, hreadable]

/-! ## What a part of a turn can do -/

/-- The same service, after whatever events befell the stop signals meanwhile. -/
structure Continues (signals : ω → StopSignals) (before after : Service ω σ) : Prop where
  socket : after.socket = before.socket
  world : Undergoes signals before.world after.world

section Parts

variable {host : Host ω} {store : Store ω σ} {signals : ω → StopSignals}
  (hhost : host.Signalled signals) (hstore : store.Signalled signals) (config : EngineConfig)
  (logger : Logger) (service : Service ω σ)

theorem carryOut_sessions (host : Host ω) (outcome : Outcome ω σ) :
    (service.carryOut host logger outcome).1.sessions.table = outcome.sessions.table := by
  unfold carryOut
  dsimp only
  split <;> rfl

theorem carryOut_end (host : Host ω) (outcome : Outcome ω σ) :
    (service.carryOut host logger outcome).2 = outcome.fault.elim .served .faulted := by
  unfold carryOut
  dsimp only
  split
  next hnone => rw [hnone]; rfl
  next hfault => rw [hfault]; rfl

include hhost

theorem carryOut_continues (outcome : Outcome ω σ)
    (houtcome : Undergoes signals service.world outcome.sessions.world) :
    Continues signals service (service.carryOut host logger outcome).1 := by
  have hperformed := Action.performAll_undergoes hhost service.socket logger outcome.actions
    outcome.sessions.world
  unfold carryOut
  dsimp only
  split <;> exact ⟨rfl, houtcome.trans hperformed⟩

theorem await_continues : Continues signals service (service.await host logger).2 := by
  have hnow := hhost.now service.world
  have hpoll := hhost.poll service.socket.descriptor
    (waitFor service.sessions.table (host.now service.world).1).toNat (host.now service.world).2
  unfold await
  dsimp only
  split <;> exact ⟨rfl, hnow.trans hpoll⟩

/-- What was received goes to the sessions, which stand as they stood, or it is worth
a message only. -/
theorem receiveOne_cases (store : Store ω σ) :
    ∃ ready : Service ω σ, Continues signals service ready ∧
      ready.sessions.table = service.sessions.table ∧
      (service.receiveOne host store config logger = (ready, .served) ∨
        ∃ octets peer now, service.receiveOne host store config logger =
          ready.carryOut host logger (ready.sessions.receive store config octets peer now)) := by
  have hreceive := service.socket.receive_undergoes hhost service.buffer service.world
  unfold receiveOne
  split
  next peer buffer world hreceived =>
    rw [hreceived] at hreceive
    refine ⟨_, ?_, ?_, Or.inr ⟨buffer.view, peer, (host.now world).1, rfl⟩⟩
    · exact ⟨rfl, hreceive.trans (hhost.now world)⟩
    · rfl
  next buffer world _ hreceived =>
    rw [hreceived] at hreceive
    refine ⟨_, ?_, ?_, Or.inl rfl⟩
    · exact ⟨rfl, hreceive⟩
    · rfl

theorem tick_continues : Continues signals service (service.tick host logger).1 := by
  have hnow := hhost.now service.world
  have htick : Undergoes signals (service.withWorld (host.now service.world).2).world
      ((service.withWorld (host.now service.world).2).sessions.tick
        (host.now service.world).1).sessions.world :=
    .of_eq (congrArg signals (Sessions.expireAll_world _ _ _))
  have hcarried := carryOut_continues hhost logger _ _ htick
  exact ⟨hcarried.socket, hnow.trans hcarried.world⟩

include hstore

theorem receiveOne_continues :
    Continues signals service (service.receiveOne host store config logger).1 := by
  obtain ⟨ready, hready, _, hreceive | ⟨octets, peer, now, hreceive⟩⟩ :=
    receiveOne_cases hhost config logger service store
  · rw [hreceive]
    exact hready
  · have hkept := Sessions.receive_keeps (hstore.keeps ready.world) config (.of_eq rfl) octets peer now
    have hcarried := carryOut_continues hhost logger ready _ hkept
    rw [hreceive]
    exact ⟨hcarried.socket.trans hready.socket, hready.world.trans hcarried.world⟩

end Parts

/-! ## How a part of a turn ends -/

section Ends

variable (config : EngineConfig) (logger : Logger)

theorem tick_end (host : Host ω) (service : Service ω σ) :
    (service.tick host logger).2 = .served := by
  rw [tick, carryOut_end, Sessions.tick, Sessions.expireAll_fault]
  rfl

theorem receiveOne_end {host : Host ω} {signals : ω → StopSignals} (hhost : host.Signalled signals)
    (store : Store ω σ) (service : Service ω σ) :
    (service.receiveOne host store config logger).2 = .served ∨
      ∃ fault, (service.receiveOne host store config logger).2 = .faulted fault := by
  obtain ⟨ready, _, _, hreceive | ⟨octets, peer, now, hreceive⟩⟩ :=
    receiveOne_cases hhost config logger service store
  · rw [hreceive]
    exact Or.inl rfl
  · rw [hreceive, carryOut_end]
    cases (ready.sessions.receive store config octets peer now).fault with
    | none => exact Or.inl rfl
    | some fault => exact Or.inr ⟨fault, rfl⟩

end Ends

/-! ## Nothing faults -/

section Sound

variable {host : Host ω} {store : Store ω σ} {signals : ω → StopSignals}
  (hhost : host.Signalled signals) (hstore : store.Explains (0 ∉ ·)) (config : EngineConfig)
  (logger : Logger) {service : Service ω σ} (hlive : service.sessions.AllLive)

theorem carryOut_allLive (host : Host ω) (service : Service ω σ) {outcome : Outcome ω σ}
    (hlive : outcome.sessions.AllLive) :
    (service.carryOut host logger outcome).1.sessions.AllLive := by
  rw [Sessions.AllLive, carryOut_sessions]
  exact hlive

include hstore hlive

theorem tick_sound (host : Host ω) :
    (service.tick host logger).2 = .served ∧ (service.tick host logger).1.sessions.AllLive := by
  have hready : (service.withWorld (host.now service.world).2).sessions.AllLive := hlive
  have hafter : ((service.withWorld (host.now service.world).2).sessions.call store {}
      (.tick (host.now service.world).1 .inOrder)).sessions.AllLive :=
    (Sessions.call_sound hstore hready _).2
  exact ⟨tick_end logger host service, carryOut_allLive logger host _ hafter⟩

include hhost

theorem receiveOne_sound :
    (service.receiveOne host store config logger).2 = .served ∧
      (service.receiveOne host store config logger).1.sessions.AllLive := by
  obtain ⟨ready, _, htable, hreceive⟩ := receiveOne_cases hhost config logger service store
  have hready : ready.sessions.AllLive := by
    rw [Sessions.AllLive, htable]
    exact hlive
  rcases hreceive with hreceive | ⟨octets, peer, now, hreceive⟩
  · rw [hreceive]
    exact ⟨rfl, hready⟩
  · have hreceived : (ready.sessions.receive store config octets peer now).fault = none ∧
        (ready.sessions.receive store config octets peer now).sessions.AllLive :=
      Sessions.receive_sound hstore hready octets peer now
    rw [hreceive, carryOut_end, hreceived.1]
    exact ⟨rfl, carryOut_allLive logger host ready hreceived.2⟩

theorem turn_sound :
    (service.turn host store config logger).1.sessions.AllLive ∧
      ∀ fault, (service.turn host store config logger).2 ≠ .faulted fault := by
  have hticks (ready : Service ω σ) (hready : ready.sessions.AllLive) :
      (ready.tick host logger).1.sessions.AllLive ∧
        ∀ fault, (ready.tick host logger).2 ≠ .faulted fault := by
    obtain ⟨hserved, hafter⟩ := tick_sound hstore logger hready host
    rw [hserved]
    exact ⟨hafter, fun _ => TurnEnd.noConfusion⟩
  rcases hwaited : service.socket.waitReadable host
    (waitFor service.sessions.table (host.now service.world).1) (host.now service.world).2 with
    ⟨status, world⟩
  simp only [turn, hwaited]
  have hready : (service.withWorld world).sessions.AllLive := hlive
  cases status with
  | pipeClosed => exact ⟨hready, fun _ => TurnEnd.noConfusion⟩
  | ok =>
      obtain ⟨hserved, hreceived⟩ := receiveOne_sound hhost hstore config logger hready
      rcases hreceive : (service.withWorld world).receiveOne host store config logger with
        ⟨received, ended⟩
      rw [hreceive] at hserved hreceived
      cases hserved
      exact hticks received hreceived
  | timedOut | invalidArgs => exact hticks _ hready

theorem turns_sound (server : ServerId) (bound : Nat) (fault : Fault) :
    (service.turns host store config logger server bound).2 ≠ .faulted fault := by
  induction bound generalizing service with
  | zero => exact ServiceEnd.noConfusion
  | succ bound ih =>
      obtain ⟨hafter, hend⟩ := turn_sound hhost hstore config logger hlive
      rw [turns]
      split
      · exact ServiceEnd.noConfusion
      · split
        next hturn =>
          rw [hturn] at hafter
          exact ih hafter
        next => exact ServiceEnd.noConfusion
        next broken hturn =>
          rw [hturn] at hend
          exact absurd rfl (hend broken)

end Sound

end Service

end TftpServer
