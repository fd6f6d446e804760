import TftpServer.Network.Script
import TftpServer.Proofs.Network.Observation
import TftpServer.Proofs.Service.Wait
import TftpServer.Proofs.Sessions.Faultless
import TftpServer.Proofs.Sessions.View

/-! # Turns of the service

A service drives its sessions by what it learns from its host, and by nothing else:
one datagram at most in every turn, exactly as it came, and then a tick. Whatever
the host does, a run of the service is a list of such turns. They account for
everything that passes between the two, and the sessions are left as by their
calls.
-/

namespace TftpServer

variable {ω σ τ : Type}

/-! ## Deeds -/

/-- What a service does: something passes between it and its host, or it makes a
call on its sessions. -/
inductive Deed where
  | exchange (observation : Observation)
  | call (call : Call)

def Deed.call? : Deed → Option Call
  | .exchange _ => none
  | .call made => some made

/-- What passes between the host and the service in all these deeds, what the calls
send included, and what they make of the sessions. -/
def Sessions.play (store : Store ω σ) (config : EngineConfig) :
    List Deed → Sessions ω σ → List Observation × Sessions ω σ
  | [], sessions => ([], sessions)
  | .exchange observation :: rest, sessions =>
    let (record, sessions) := play store config rest sessions
    (observation :: record, sessions)
  | .call call :: rest, sessions =>
    let outcome := sessions.call store config call
    let (record, sessions) := play store config rest outcome.sessions
    ((Action.datagrams outcome.actions).transmissions ++ record, sessions)

/-! ## Turns -/

/-- A turn of the loop: the time before the wait, the wait and what it was ended by,
and, as far as they were asked for, what arrived and the times of the calls. -/
structure Turn where
  start : Time
  wait : Nat
  report : PollReport
  arrival : Option (SocketAddress × Octets)
  arrived : Time
  ticked : Time

namespace Turn

/-- The datagram of a turn: what arrived while the socket was readable, if it came
from an address of a known family. -/
def datagram? (turn : Turn) : Option (Endpoint × Octets) :=
  if turn.report.isReadable then arrivedDatagram maxDatagramSize turn.arrival else none

def deeds (turn : Turn) : List Deed :=
  [.exchange (.time turn.start), .exchange (.poll turn.wait turn.report)] ++
    (if turn.report.isReadable then [.exchange (.receive turn.arrival)] else []) ++
    (turn.datagram?.toList.flatMap fun (peer, octets) =>
      [.exchange (.time turn.arrived), .call (.datagram octets peer turn.arrived)]) ++
    if turn.report.isClosed then []
    else [.exchange (.time turn.ticked), .call (.tick turn.ticked .inOrder)]

/-- The calls of a turn: its datagram, and a tick unless the socket is gone. -/
def calls (turn : Turn) : List Call :=
  (turn.datagram?.toList.map fun (peer, octets) => .datagram octets peer turn.arrived) ++
    if turn.report.isClosed then [] else [.tick turn.ticked .inOrder]

end Turn

/-! ## Playing deeds -/

namespace Sessions

variable (store : Store ω σ) (config : EngineConfig) (sessions : Sessions ω σ)

theorem play_append (earlier later : List Deed) :
    sessions.play store config (earlier ++ later) =
      let (first, between) := sessions.play store config earlier
      let (second, final) := between.play store config later
      (first ++ second, final) := by
  induction earlier generalizing sessions with
  | nil => rfl
  | cons deed rest ih =>
      cases deed with
      | exchange observation => simp only [List.cons_append, play, ih]
      | call call => simp only [List.cons_append, play, ih, List.append_assoc]

theorem play_concat_exchange (deeds : List Deed) (observation : Observation) :
    sessions.play store config (deeds ++ [.exchange observation]) =
      ((sessions.play store config deeds).1 ++ [observation],
        (sessions.play store config deeds).2) :=
  play_append store config sessions deeds [.exchange observation]

theorem play_concat_call (deeds : List Deed) (call : Call) :
    sessions.play store config (deeds ++ [.call call]) =
      let (record, before) := sessions.play store config deeds
      let outcome := before.call store config call
      (record ++ (Action.datagrams outcome.actions).transmissions, outcome.sessions) := by
  rw [play_append]
  simp only [play, List.append_nil]

/-- The sessions notice nothing but the calls. -/
theorem play_sessions (deeds : List Deed) :
    (sessions.play store config deeds).2 =
      sessions.run store config (deeds.filterMap Deed.call?) := by
  induction deeds generalizing sessions with
  | nil => rfl
  | cons deed rest ih =>
      cases deed with
      | exchange observation => exact ih sessions
      | call call => exact ih (sessions.call store config call).sessions

end Sessions

/-! ## The service -/

/-- A store beside a host does not touch it. -/
theorem Store.onSecond_carries (store : Store τ σ) (first : ω) :
    store.Carries (fun second => (first, second)) store.onSecond where
  reading := ⟨fun _ _ _ _ => rfl, fun _ _ => rfl⟩
  openStream _ _ _ := rfl

namespace Service

/-- A service that has come from some sessions to where it is by these deeds, on a
host that is watched. -/
structure Follows (store : Store τ σ) (config : EngineConfig) (start : Sessions τ σ)
    (service : Service ((ω × List Observation) × τ) σ) (deeds : List Deed) : Prop where
  socket : service.socket.isUsable = true
  buffer : service.buffer.capacity = maxDatagramSize
  sessions : ∃ world, service.sessions = (start.play store config deeds).2.map fun second =>
    ((world, (start.play store config deeds).1), second)

section Follows

variable {store : Store τ σ} {config : EngineConfig} {start : Sessions τ σ}
  {service : Service ((ω × List Observation) × τ) σ} {deeds : List Deed}
  (hfollows : Follows store config start service deeds)

include hfollows

theorem Follows.note (logger : Logger) (level : LogLevel) (text : Octets) :
    Follows store config start (service.note logger level text) deeds :=
  ⟨hfollows.socket, hfollows.buffer, hfollows.sessions⟩

theorem Follows.exists_world :
    ∃ world, service.world =
      ((world, (start.play store config deeds).1), (start.play store config deeds).2.world) := by
  obtain ⟨world, hsessions⟩ := hfollows.sessions
  exact ⟨world, congrArg Sessions.world hsessions⟩

theorem Follows.exchange {buffer : ReceiveBuffer} (hbuffer : buffer.capacity = maxDatagramSize)
    (after : ω) (observation : Observation) :
    Follows store config start
      ({ service with buffer }.withWorld ((after, (start.play store config deeds).1 ++ [observation]),
        (start.play store config deeds).2.world))
      (deeds ++ [.exchange observation]) := by
  obtain ⟨_, hsessions⟩ := hfollows.sessions
  refine ⟨hfollows.socket, hbuffer, after, ?_⟩
  rw [Sessions.play_concat_exchange, withWorld, hsessions]
  rfl

theorem Follows.now (host : Host ω) :
    ∃ now world, host.observed.onFirst.now service.world = (now, world) ∧
      Follows store config start (service.withWorld world) (deeds ++ [.exchange (.time now)]) := by
  obtain ⟨world, hworld⟩ := hfollows.exists_world
  rw [hworld]
  exact ⟨_, _, rfl, hfollows.exchange hfollows.buffer (host.now world).2 (.time (host.now world).1)⟩

theorem Follows.wait (host : Host ω) (wait : Int) :
    ∃ (report : PollReport) (world : (ω × List Observation) × τ),
      service.socket.waitReadable host.observed.onFirst wait service.world =
          (report.status, world) ∧
        Follows store config start (service.withWorld world)
          (deeds ++ [.exchange (.poll wait.toNat report)]) := by
  obtain ⟨world, hworld⟩ := hfollows.exists_world
  obtain ⟨report, after, hwait⟩ := Socket.waitReadable_observed host hfollows.socket world
    (start.play store config deeds).1 (start.play store config deeds).2.world wait
  rw [hworld]
  exact ⟨report, _, hwait, hfollows.exchange hfollows.buffer after (.poll wait.toNat report)⟩

/-- Receiving gives the datagram of the arrival, or none. -/
theorem Follows.receive (host : Host ω) :
    ∃ (arrival : Option (SocketAddress × Octets)) (buffer : ReceiveBuffer)
        (world : (ω × List Observation) × τ),
      Follows store config start ({ service with buffer }.withWorld world)
          (deeds ++ [.exchange (.receive arrival)]) ∧
        match arrivedDatagram maxDatagramSize arrival with
        | some (peer, octets) => buffer.view = octets ∧
          service.socket.receive host.observed.onFirst service.buffer service.world =
            (some peer, .ok, buffer, world)
        | none => ∃ status,
          service.socket.receive host.observed.onFirst service.buffer service.world =
            (none, status, buffer, world) := by
  obtain ⟨world, hworld⟩ := hfollows.exists_world
  obtain ⟨arrival, after, next, hcapacity, hreceive⟩ :=
    Socket.receive_observed host hfollows.socket world (start.play store config deeds).1
      (start.play store config deeds).2.world service.buffer
  rw [hfollows.buffer] at hreceive
  rw [hworld]
  exact ⟨arrival, next, _, hfollows.exchange (hcapacity.trans hfollows.buffer) after
    (.receive arrival), hreceive⟩

/-- A call is made on the sessions as if the host were not there, and what it sends
goes to the host. -/
theorem Follows.call (host : Host ω) (hstore : store.Explains (0 ∉ ·)) (hlive : start.AllLive)
    (logger : Logger) (call : Call) :
    ∃ after : Service ((ω × List Observation) × τ) σ,
      service.carryOut host.observed.onFirst logger
          (service.sessions.call store.onSecond config call) = (after, .served) ∧
        Follows store config start after (deeds ++ [.call call]) := by
  obtain ⟨hsocket, hbuffer, world, hsessions⟩ := hfollows
  have hplayed := Sessions.play_concat_call store config start deeds call
  have hbefore : (start.play store config deeds).2.AllLive := by
    rw [Sessions.play_sessions]
    exact Sessions.run_induction Sessions.AllLive
      (fun _ call hlive => (Sessions.call_sound hstore hlive call).2) hlive _
  generalize start.play store config deeds = played at hsessions hplayed hbefore
  obtain ⟨record, before⟩ := played
  have hcall := before.call_map (store.onSecond_carries (world, record)) config call
  have hfault : (before.call store config call).fault = none :=
    (Sessions.call_sound hstore hbefore call).1
  obtain ⟨after, hafter⟩ := Action.performAll_observed host hsocket logger
    (before.call store config call).actions world record
    (before.call store config call).sessions.world
  rw [hsessions, ← hcall]
  simp only [carryOut, Outcome.map, hfault]
  refine ⟨_, rfl, hsocket, hbuffer, after, ?_⟩
  rw [hplayed]
  simp only [Sessions.map, hafter]

end Follows

section Turns

variable (host : Host ω) {store : Store τ σ} (hstore : store.Explains (0 ∉ ·))
  {config : EngineConfig} (logger : Logger) {start : Sessions τ σ} (hlive : start.AllLive)
  {service : Service ((ω × List Observation) × τ) σ} {deeds : List Deed}
  (hfollows : Follows store config start service deeds)

include hstore hlive hfollows

end Turns

/-- How a run of these turns may end: after a number of them, because it was asked
to, or with the turn in which the socket is gone. A socket that cannot be used is
not even waited for, and nothing faults. -/
inductive Ends (usable stopped : Bool) (bound : Nat) : List Turn → ServiceEnd → Prop where
  | unfinished (turns : List Turn) (hlength : turns.length = bound)
      (hopen : ∀ turn ∈ turns, turn.report.isClosed = false) :
      Ends usable stopped bound turns .unfinished
  | stopped (turns : List Turn) (hstopped : stopped = true)
      (hopen : ∀ turn ∈ turns, turn.report.isClosed = false) :
      Ends usable stopped bound turns .stopped
  | unusable (husable : usable = false) : Ends usable stopped bound [] .failed
  | closed (earlier : List Turn) (last : Turn) (hclosed : last.report.isClosed = true)
      (hopen : ∀ turn ∈ earlier, turn.report.isClosed = false) :
      Ends usable stopped bound (earlier ++ [last]) .failed

theorem Ends.cons {stopped : Bool} {bound : Nat} {turns : List Turn} {ended : ServiceEnd}
    (hends : Ends true stopped bound turns ended) {turn : Turn}
    (hturn : turn.report.isClosed = false) :
    Ends true stopped (bound + 1) (turn :: turns) ended := by
  cases hends with
  | unfinished _ hlength hopen =>
      exact .unfinished _ (congrArg Nat.succ hlength) (List.forall_mem_cons.mpr ⟨hturn, hopen⟩)
  | stopped _ hstopped hopen =>
      exact .stopped _ hstopped (List.forall_mem_cons.mpr ⟨hturn, hopen⟩)
  | unusable husable => cases husable
  | closed earlier last hclosed hopen =>
      exact .closed (turn :: earlier) last hclosed (List.forall_mem_cons.mpr ⟨hturn, hopen⟩)

/-- Every turn waits as is right for the sessions that the turns before it left. -/
def RightWaits (store : Store τ σ) (config : EngineConfig) (start : Sessions τ σ)
    (deeds : List Deed) (turns : List Turn) : Prop :=
  ∀ earlier turn later, turns = earlier ++ turn :: later →
    RightWait (start.play store config (deeds ++ earlier.flatMap Turn.deeds)).2.table turn.start
      turn.wait

theorem RightWaits.nil (store : Store τ σ) (config : EngineConfig) (start : Sessions τ σ)
    (deeds : List Deed) : RightWaits store config start deeds [] :=
  fun earlier turn later hsplit => absurd hsplit (by simp)

theorem RightWaits.cons {store : Store τ σ} {config : EngineConfig} {start : Sessions τ σ}
    {deeds : List Deed} {turn : Turn} {turns : List Turn}
    (hright : RightWait (start.play store config deeds).2.table turn.start turn.wait)
    (hrest : RightWaits store config start (deeds ++ turn.deeds) turns) :
    RightWaits store config start deeds (turn :: turns) := by
  intro earlier other later hsplit
  rcases List.cons_eq_append_iff.mp hsplit with ⟨rfl, hhead⟩ | ⟨before, rfl, hlater⟩
  · cases hhead
    rw [List.flatMap_nil, List.append_nil]
    exact hright
  · rw [List.flatMap_cons, ← List.append_assoc]
    exact hrest before other later hlater

section Run

variable (host : Host ω) {store : Store τ σ} (hstore : store.Explains (0 ∉ ·))
  (config : EngineConfig) (logger : Logger) (server : ServerId) {start : Sessions τ σ}
  (hlive : start.AllLive)

include hstore hlive

end Run

end Service

end TftpServer
