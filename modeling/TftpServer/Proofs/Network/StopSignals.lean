import Mathlib.Data.List.Induction
import TftpServer.Network.Script

/-! # Who is asked to stop

A stop signal asks the server that was bound last, and nobody while none is bound.
A server can be asked directly too. Whatever comes later, one that was asked stays
asked.
-/

namespace TftpServer

/-- What bears on the stop flags. -/
inductive SignalEvent where
  | bind (target : Option ServerId)
  | signal
  | request (server : ServerId)
  deriving DecidableEq, Repr

def SignalEvent.target? : SignalEvent → Option (Option ServerId)
  | .bind target => some target
  | .signal | .request _ => none

/-- The server that was bound last. -/
def boundLast (events : List SignalEvent) : Option ServerId :=
  (events.filterMap SignalEvent.target?).getLast?.join

/-- One of the events asks the server to stop: a request, or a signal that came
while the server was the one bound last. -/
def AskedToStop (events : List SignalEvent) (server : ServerId) : Prop :=
  ∃ earlier event later, events = earlier ++ event :: later ∧
    (event = .request server ∨ event = .signal ∧ boundLast earlier = some server)

theorem boundLast_concat (events : List SignalEvent) (event : SignalEvent) :
    boundLast (events ++ [event]) = event.target?.getD (boundLast events) := by
  cases event <;> simp [boundLast, SignalEvent.target?]

theorem not_askedToStop_nil (server : ServerId) : ¬ AskedToStop [] server := by
  rintro ⟨earlier, event, later, hsplit, _⟩
  simp at hsplit

theorem AskedToStop.append {events : List SignalEvent} {server : ServerId}
    (hasked : AskedToStop events server) (later : List SignalEvent) :
    AskedToStop (events ++ later) server := by
  obtain ⟨earlier, event, between, rfl, hevent⟩ := hasked
  exact ⟨earlier, event, between ++ later, by simp, hevent⟩

theorem askedToStop_concat {events : List SignalEvent} {event : SignalEvent} {server : ServerId} :
    AskedToStop (events ++ [event]) server ↔
      AskedToStop events server ∨
        (event = .request server ∨ event = .signal ∧ boundLast events = some server) := by
  constructor
  · rintro ⟨earlier, asking, later, hsplit, hasking⟩
    rcases List.eq_nil_or_concat later with rfl | ⟨between, last, rfl⟩
    · obtain ⟨rfl, hlast⟩ := List.append_inj' hsplit rfl
      cases hlast
      exact Or.inr hasking
    · rw [List.concat_eq_append, ← List.cons_append, ← List.append_assoc] at hsplit
      exact Or.inl ⟨earlier, asking, between, (List.append_inj' hsplit rfl).1, hasking⟩
  · rintro (hasked | hasking)
    · exact hasked.append [event]
    · exact ⟨events, event, [], rfl, hasking⟩

namespace StopSignals

def undergo (signals : StopSignals) : SignalEvent → StopSignals
  | .bind target => signals.bind target
  | .signal => signals.deliver
  | .request server => signals.request server

def undergoAll (signals : StopSignals) (events : List SignalEvent) : StopSignals :=
  events.foldl undergo signals

theorem undergoAll_append (signals : StopSignals) (earlier later : List SignalEvent) :
    signals.undergoAll (earlier ++ later) = (signals.undergoAll earlier).undergoAll later :=
  List.foldl_append

theorem target_undergo (signals : StopSignals) (event : SignalEvent) :
    (signals.undergo event).target = event.target?.getD signals.target := by
  obtain ⟨target, stopped⟩ := signals
  cases event with
  | bind | request => rfl
  | signal => cases target <;> rfl

theorem isStopped_undergo {signals : StopSignals} {event : SignalEvent} {server : ServerId} :
    (signals.undergo event).isStopped server = true ↔
      signals.isStopped server = true ∨
        (event = .request server ∨ event = .signal ∧ signals.target = some server) := by
  obtain ⟨target, stopped⟩ := signals
  cases event with
  | bind other => simp [undergo, bind, isStopped]
  | request other => simp [undergo, request, isStopped, or_comm, @eq_comm _ server]
  | signal =>
      cases target <;> simp [undergo, deliver, request, isStopped, or_comm, @eq_comm _ server]

/-- Signals go to the server bound last. -/
theorem target_undergoAll (events : List SignalEvent) :
    (({} : StopSignals).undergoAll events).target = boundLast events := by
  induction events using List.reverseRecOn with
  | nil => rfl
  | append_singleton events event ih =>
      rw [undergoAll_append, boundLast_concat, ← ih]
      exact target_undergo _ event

/-- A stop flag is set exactly if its server was asked to stop. -/
theorem isStopped_undergoAll {events : List SignalEvent} {server : ServerId} :
    (({} : StopSignals).undergoAll events).isStopped server = true ↔ AskedToStop events server := by
  induction events using List.reverseRecOn with
  | nil => simp [undergoAll, isStopped, not_askedToStop_nil]
  | append_singleton events event ih =>
      rw [undergoAll_append, askedToStop_concat, ← ih, ← target_undergoAll]
      exact isStopped_undergo

end StopSignals

/-! ## Worlds with stop signals -/

section Worlds

variable {ω σ τ : Type} {signals : ω → StopSignals}

/-- Between two worlds nothing but such events befell the stop signals. -/
def Undergoes (signals : ω → StopSignals) (before after : ω) : Prop :=
  ∃ events, signals after = (signals before).undergoAll events

theorem Undergoes.of_eq {before after : ω} (hsame : signals after = signals before) :
    Undergoes signals before after :=
  ⟨[], hsame⟩

theorem Undergoes.trans {first second third : ω} (hfirst : Undergoes signals first second)
    (hsecond : Undergoes signals second third) : Undergoes signals first third := by
  obtain ⟨earlier, hearlier⟩ := hfirst
  obtain ⟨later, hlater⟩ := hsecond
  exact ⟨earlier ++ later, by rw [hlater, hearlier, StopSignals.undergoAll_append]⟩

/-- A host that shows the stop flags of its world. Any events may befall the stop
signals while one of its calls is under way. -/
structure Host.Signalled (host : Host ω) (signals : ω → StopSignals) : Prop where
  stopRequested : ∀ server world,
    host.stopRequested server world = (signals world).isStopped server
  now : ∀ world, Undergoes signals world (host.now world).2
  poll : ∀ descriptor wait world, Undergoes signals world (host.poll descriptor wait world).2
  receive : ∀ descriptor room world,
    Undergoes signals world (host.receive descriptor room world).2
  send : ∀ descriptor peer octets world,
    Undergoes signals world (host.send descriptor peer octets world).2

/-- The same for the calls on a store. -/
structure Store.Signalled (store : Store ω σ) (signals : ω → StopSignals) : Prop where
  read : ∀ source offset count world,
    Undergoes signals world (store.read source offset count world).2.2
  openStream : ∀ name mode world, Undergoes signals world (store.openStream name mode world).2

theorem Host.Signalled.onFirst {host : Host ω} (hhost : host.Signalled signals) :
    (host.onFirst (τ := τ)).Signalled fun world => signals world.1 where
  stopRequested server world := hhost.stopRequested server world.1
  now world := hhost.now world.1
  poll descriptor wait world := hhost.poll descriptor wait world.1
  receive descriptor room world := hhost.receive descriptor room world.1
  send descriptor peer octets world := hhost.send descriptor peer octets world.1

/-- A store beside a host does not touch its signals. -/
theorem Store.onSecond_signalled (store : Store τ σ) (signals : ω → StopSignals) :
    store.onSecond.Signalled fun world => signals world.1 where
  read _ _ _ _ := .of_eq rfl
  openStream _ _ _ := .of_eq rfl

/-- Events may also come with the requests for a name. -/
theorem Store.Signalled.preceded {store : Store ω σ} (hstore : store.Signalled signals)
    {happening : Octets → ω → ω} (hhappening : ∀ name world, Undergoes signals world (happening name world)) :
    (store.preceded happening).Signalled signals where
  read := hstore.read
  openStream name mode world :=
    (hhappening name world).trans (hstore.openStream name mode (happening name world))

end Worlds

/-! ## Scripted hosts -/

namespace ScriptedHost

/-- What the events are on a scripted host. -/
def undergo (host : ScriptedHost) : SignalEvent → ScriptedHost
  | .bind target => (calls.bindStopSignals target host).2
  | .signal => host.raiseSignal
  | .request server => { host with stopWay := .direct server }.requestStop

def undergoAll (host : ScriptedHost) (events : List SignalEvent) : ScriptedHost :=
  events.foldl undergo host

theorem undergo_signals {host : ScriptedHost} (hsignals : host.signalsFail = false)
    (event : SignalEvent) :
    (host.undergo event).signals = host.signals.undergo event ∧
      (host.undergo event).signalsFail = false := by
  cases event with
  | bind target => exact ⟨rfl, hsignals⟩
  | signal =>
      rw [undergo, raiseSignal, if_neg (Bool.eq_false_iff.mp hsignals)]
      exact ⟨rfl, hsignals⟩
  | request server => exact ⟨rfl, hsignals⟩

/-- If the handlers can be installed, a scripted host undergoes what its signals
undergo. -/
theorem undergoAll_signals {host : ScriptedHost} (hsignals : host.signalsFail = false)
    (events : List SignalEvent) :
    (host.undergoAll events).signals = host.signals.undergoAll events := by
  induction events generalizing host with
  | nil => rfl
  | cons event rest ih =>
      obtain ⟨hfirst, hnext⟩ := undergo_signals hsignals event
      exact (ih hnext).trans (congrArg (StopSignals.undergoAll · rest) hfirst)

theorem raiseSignal_undergoes (host : ScriptedHost) : Undergoes signals host host.raiseSignal := by
  unfold raiseSignal
  split
  · exact .of_eq rfl
  · exact ⟨[.signal], rfl⟩

theorem requestStop_undergoes (host : ScriptedHost) : Undergoes signals host host.requestStop := by
  unfold requestStop
  split
  next server _ => exact ⟨[.request server], rfl⟩
  next => exact host.raiseSignal_undergoes

theorem happen_undergoes (host : ScriptedHost) (descriptor : Descriptor) (happening : Happening) :
    Undergoes signals host (host.happen descriptor happening).2 := by
  cases happening with
  | signal => exact host.raiseSignal_undergoes
  | request => exact host.requestStop_undergoes
  | arrival | receiveFails | report => exact .of_eq rfl

theorem poll_undergoes (descriptor : Descriptor) (wait : Nat) (host : ScriptedHost) :
    Undergoes signals host (poll descriptor wait host).2 := by
  unfold poll
  dsimp only
  split
  · exact .of_eq rfl
  · split
    · exact .of_eq rfl
    · split
      · exact .of_eq rfl
      · split
        · split
          · exact (Undergoes.of_eq rfl).trans (happen_undergoes _ descriptor _)
          · exact .of_eq rfl
        · split
          · exact (Undergoes.of_eq rfl).trans (happen_undergoes _ descriptor _)
          · exact .of_eq rfl

/-- A script may ask for a stop during any wait, and does so in no other call. -/
theorem calls_signalled : calls.Signalled signals where
  stopRequested _ _ := rfl
  now _ := .of_eq rfl
  poll := poll_undergoes
  receive descriptor room host := by
    refine .of_eq ?_
    change (receive descriptor room host).2.signals = host.signals
    unfold receive
    split
    · rfl
    · split <;> rfl
  send descriptor peer octets host := by
    refine .of_eq ?_
    change (send descriptor peer octets host).2.signals = host.signals
    unfold send
    split
    · rfl
    · split <;> rfl

end ScriptedHost

end TftpServer
