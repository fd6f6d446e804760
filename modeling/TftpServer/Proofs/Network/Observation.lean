import TftpServer.Network.Socket
import TftpServer.Proofs.Sessions.Actions

/-! # What passes between a server and its host

A host can be watched: every clock reading, wait, arrival and transmission is put
on record, and nothing else changes. A socket asks its host for no more than it is
asked for itself, and what it shows of an arrival is that arrival alone.
-/

namespace TftpServer

variable {ω τ : Type}

/-- What passes between a server and its host while it serves. -/
inductive Observation where
  | time (now : Time)
  | poll (wait : Nat) (report : PollReport)
  | receive (arrival : Option (SocketAddress × Octets))
  | send (address : SocketAddress) (octets : Octets)
  deriving DecidableEq

/-- The same host, with a record of what passes between it and the server. -/
def Host.observed (host : Host ω) : Host (ω × List Observation) :=
  { host.onFirst with
    now := fun (world, record) =>
      let (now, world) := host.now world
      (now, (world, record ++ [.time now]))
    poll := fun descriptor wait (world, record) =>
      let (report, world) := host.poll descriptor wait world
      (report, (world, record ++ [.poll wait report]))
    receive := fun descriptor room (world, record) =>
      let (arrival, world) := host.receive descriptor room world
      (arrival, (world, record ++ [.receive arrival]))
    send := fun descriptor address octets (world, record) =>
      let (count, world) := host.send descriptor address octets world
      (count, (world, record ++ [.send address octets])) }

/-- What the host is handed when these datagrams go to the sink. There are no empty
transmissions. -/
def SendRecord.transmissions (sent : SendRecord) : List Observation :=
  (sent.filter (·.2 ≠ [])).map fun (peer, octets) => .send (SocketAddress.ofEndpoint peer) octets

/-! ## Reports -/

namespace PollReport

/-- The wait was for a socket that is no longer there. -/
def isClosed : PollReport → Bool
  | .ready flags => flags.error || flags.invalid
  | .failed => true
  | .quiet | .interrupted => false

/-- The socket is ready, and not because it is broken. -/
def isReadable : PollReport → Bool
  | .ready flags => !(flags.error || flags.invalid)
  | .failed | .quiet | .interrupted => false

/-- How a wait with this report counts. -/
def status (report : PollReport) : SocketStatus :=
  if report.isClosed then .pipeClosed else if report.isReadable then .ok else .timedOut

end PollReport

/-! ## Arrivals -/

/-- The datagram of an arrival, if there is one and it comes from an address of a
known family. -/
def arrivedDatagram (room : Nat) (arrival : Option (SocketAddress × Octets)) :
    Option (Endpoint × Octets) :=
  arrival.bind fun (address, octets) =>
    (SocketAddress.toEndpoint? address).map fun peer => (peer, octets.take room)

namespace ReceiveBuffer

theorem capacity_fill (buffer : ReceiveBuffer) (octets : Octets) :
    (buffer.fill octets).capacity = buffer.capacity := by
  simp only [fill, capacity, List.length_append, List.length_take, List.length_drop]
  omega

/-- Whatever the storage held before, the view shows what was filled in last. -/
theorem view_mark_fill (buffer : ReceiveBuffer) (octets : Octets) :
    ((buffer.fill octets).mark octets.length).view = octets.take buffer.capacity := by
  have hlength : (octets.take buffer.capacity).length = min octets.length buffer.capacity := by
    rw [List.length_take, Nat.min_comm]
  rw [view, mark, capacity_fill]
  simp only [fill]
  rw [← hlength, List.take_left]

end ReceiveBuffer

namespace Socket

variable (host : Host ω) {socket : Socket} (hsocket : socket.isUsable = true) (world : ω)
  (record : List Observation) (second : τ)

include hsocket

theorem waitReadable_eq (wait : Int) :
    socket.waitReadable host wait world =
      let (report, after) := host.poll socket.descriptor wait.toNat world
      (report.status, after) := by
  simp only [waitReadable, hsocket, if_true]
  cases (host.poll socket.descriptor wait.toNat world).1 with
  | ready flags => cases hbroken : (flags.error || flags.invalid) <;>
      simp [PollReport.status, PollReport.isClosed, PollReport.isReadable, hbroken]
  | quiet | interrupted | failed => rfl

theorem waitReadable_observed (wait : Int) :
    ∃ report after,
      socket.waitReadable host.observed.onFirst wait ((world, record), second) =
        (report.status, ((after, record ++ [.poll wait.toNat report]), second)) := by
  rw [waitReadable_eq host.observed.onFirst hsocket]
  exact ⟨_, _, rfl⟩

/-- A socket shows the peer and the datagram of an arrival, or nothing. -/
theorem receive_observed (buffer : ReceiveBuffer) :
    ∃ arrival after next, next.capacity = buffer.capacity ∧
      match arrivedDatagram buffer.capacity arrival with
      | some (peer, octets) => next.view = octets ∧
        socket.receive host.observed.onFirst buffer ((world, record), second) =
          (some peer, .ok, next, ((after, record ++ [.receive arrival]), second))
      | none => ∃ status,
        socket.receive host.observed.onFirst buffer ((world, record), second) =
          (none, status, next, ((after, record ++ [.receive arrival]), second)) := by
  rcases hreceive : host.receive socket.descriptor buffer.capacity world with ⟨arrival, after⟩
  have hcapacity : buffer.reset.capacity = buffer.capacity := rfl
  cases arrival with
  | none =>
      refine ⟨none, after, buffer.reset, hcapacity, .pipeClosed, ?_⟩
      simp only [receive, hsocket, Host.onFirst, Host.observed, hcapacity, hreceive, if_true]
  | some arrival =>
      obtain ⟨address, octets⟩ := arrival
      cases hpeer : SocketAddress.toEndpoint? address with
      | none =>
          refine ⟨some (address, octets), after, buffer.reset.fill octets,
            buffer.reset.capacity_fill octets, ?_⟩
          simp only [arrivedDatagram, Option.bind_some, hpeer, Option.map_none]
          refine ⟨.invalidArgs, ?_⟩
          simp only [receive, hsocket, Host.onFirst, Host.observed, hcapacity, hreceive, hpeer,
            if_true]
      | some peer =>
          refine ⟨some (address, octets), after, (buffer.reset.fill octets).mark octets.length,
            buffer.reset.capacity_fill octets, ?_⟩
          simp only [arrivedDatagram, Option.bind_some, hpeer, Option.map_some]
          refine ⟨buffer.reset.view_mark_fill octets, ?_⟩
          simp only [receive, hsocket, Host.onFirst, Host.observed, hcapacity, hreceive, hpeer,
            if_true]

theorem sink_observed (peer : Endpoint) (octets : Octets) :
    ∃ after, (socket.sink host.observed.onFirst peer octets ((world, record), second)).2 =
      ((after, record ++ SendRecord.transmissions [(peer, octets)]), second) := by
  by_cases hempty : octets = []
  · subst hempty
    refine ⟨world, ?_⟩
    simp [sink, send, hsocket, SendRecord.transmissions]
  · rcases hsend : host.send socket.descriptor (SocketAddress.ofEndpoint peer) octets world with
      ⟨count, after⟩
    refine ⟨after, ?_⟩
    simp only [sink, send, hsocket, hempty, Host.onFirst, Host.observed, hsend, Bool.not_true,
      Bool.false_eq_true, if_false, SendRecord.transmissions]
    cases count <;> simp [hempty]

end Socket

theorem SendRecord.transmissions_append (first second : SendRecord) :
    SendRecord.transmissions (first ++ second) =
      first.transmissions ++ second.transmissions := by
  rw [transmissions, List.filter_append, List.map_append]
  rfl

/-- Carrying out actions hands their datagrams to the host, in order. -/
theorem Action.performAll_observed (host : Host ω) {socket : Socket}
    (hsocket : socket.isUsable = true) (logger : Logger) (actions : List Action) (world : ω)
    (record : List Observation) (second : τ) :
    ∃ after, (performAll (socket.sink host.observed.onFirst) logger actions
        ((world, record), second)).2 =
      ((after, record ++ (datagrams actions).transmissions), second) := by
  induction actions generalizing world record with
  | nil => exact ⟨world, by simp [performAll, datagrams, SendRecord.transmissions]⟩
  | cons action rest ih =>
      have hfirst : ∃ after, (action.perform (socket.sink host.observed.onFirst) logger
          ((world, record), second)).2 =
          ((after, record ++ (datagrams [action]).transmissions), second) := by
        rw [perform_state]
        cases action with
        | note level text => exact ⟨world, by simp [datagrams, SendRecord.transmissions, datagram?]⟩
        | send peer datagram | reply peer code datagram =>
            exact Socket.sink_observed host hsocket world record second peer datagram
      obtain ⟨after, hafter⟩ := hfirst
      obtain ⟨final, hfinal⟩ := ih after (record ++ (datagrams [action]).transmissions)
      refine ⟨final, ?_⟩
      rw [performAll]
      dsimp only
      rw [hafter, hfinal, List.append_assoc, ← SendRecord.transmissions_append,
        ← datagrams_append]
      rfl

end TftpServer
