import TftpServer.Proofs.Service.Parts

/-! # Stopping the service

A stop may be asked for at any time: before the service runs, while it waits, and
while it handles a datagram or a tick. No turn begins after that. The one that is
under way is finished, and then the service is stopped, unless its wait has found
the socket broken.
-/

namespace TftpServer.Service

variable {ω σ : Type}

/-! ## Courses of events -/

/-- A part of a turn, the events that befell the stop signals meanwhile, and the
service after it. -/
structure Stage (ω σ : Type) where
  part : Part
  events : List SignalEvent
  after : Service ω σ

def eventsOf (stages : List (Stage ω σ)) : List SignalEvent :=
  stages.flatMap Stage.events

/-- The stop flags are set of the servers that these events ask to stop, and of no
others. -/
def Flagged (host : Host ω) (past : List SignalEvent) (world : ω) : Prop :=
  ∀ server, host.stopRequested server world = true ↔ AskedToStop past server

/-- The stages in which a service goes from one state to another, with the right
flags before and after each of them. -/
inductive Course (host : Host ω) (store : Store ω σ) (config : EngineConfig) (logger : Logger)
    (signals : ω → StopSignals) :
    List SignalEvent → Service ω σ → List (Stage ω σ) → Service ω σ → Prop where
  | done {past : List SignalEvent} {service : Service ω σ}
      (hflags : Flagged host past service.world) :
      Course host store config logger signals past service [] service
  | stage {past : List SignalEvent} {service last : Service ω σ} (stage : Stage ω σ)
      {rest : List (Stage ω σ)} (hflags : Flagged host past service.world)
      (hpart : stage.part.Leads host store config logger service stage.after)
      (hevents : signals stage.after.world = (signals service.world).undergoAll stage.events)
      (hrest : Course host store config logger signals (past ++ stage.events) stage.after rest last) :
      Course host store config logger signals past service (stage :: rest) last

/-- How a run of such turns closes: after a number of them, because the server was
asked to stop, with a turn whose wait has found the socket broken, or with a
fault. -/
inductive Closes (logger : Logger) (asked : Prop) (bound : Nat) (last : Service ω σ) :
    List (List Part) → Service ω σ × ServiceEnd → Prop where
  | unfinished (turns : List (List Part)) (hserved : ∀ turn ∈ turns, IsTurn turn .served)
      (hlength : turns.length = bound) :
      Closes logger asked bound last turns (last, .unfinished)
  | stopped (turns : List (List Part)) (hserved : ∀ turn ∈ turns, IsTurn turn .served)
      (hasked : asked) :
      Closes logger asked bound last turns
        (last.note logger .info (ascii "stopping, abandoning " ++
          Text.decimal last.sessions.table.length ++ ascii " active transfer(s)"), .stopped)
  | closed (earlier : List (List Part)) (turn : List Part)
      (hserved : ∀ turn ∈ earlier, IsTurn turn .served) (hclosed : IsTurn turn .socketClosed) :
      Closes logger asked bound last (earlier ++ [turn]) (last, .failed)
  | faulted (earlier : List (List Part)) (turn : List Part) (fault : Fault)
      (hserved : ∀ turn ∈ earlier, IsTurn turn .served) (hbroken : IsTurn turn (.faulted fault)) :
      Closes logger asked bound last (earlier ++ [turn]) (last, .faulted fault)

/-- No turn begins once the server was asked to stop. -/
def NoneOnceAsked (past : List SignalEvent) (server : ServerId) (turns : List (List (Stage ω σ))) :
    Prop :=
  ∀ earlier turn later, turns = earlier ++ turn :: later →
    ¬ AskedToStop (past ++ eventsOf earlier.flatten) server

theorem NoneOnceAsked.nil (past : List SignalEvent) (server : ServerId) :
    NoneOnceAsked past server ([] : List (List (Stage ω σ))) :=
  fun earlier turn later hsplit => absurd hsplit (by simp)

theorem eventsOf_append (earlier later : List (Stage ω σ)) :
    eventsOf (earlier ++ later) = eventsOf earlier ++ eventsOf later :=
  List.flatMap_append

theorem NoneOnceAsked.cons {past : List SignalEvent} {server : ServerId} {turn : List (Stage ω σ)}
    {turns : List (List (Stage ω σ))} (hunasked : ¬ AskedToStop past server)
    (hrest : NoneOnceAsked (past ++ eventsOf turn) server turns) :
    NoneOnceAsked past server (turn :: turns) := by
  intro earlier other later hsplit
  rcases List.cons_eq_append_iff.mp hsplit with ⟨rfl, _⟩ | ⟨before, rfl, hlater⟩
  · rw [List.flatten_nil, eventsOf, List.flatMap_nil, List.append_nil]
    exact hunasked
  · rw [List.flatten_cons, eventsOf_append, ← List.append_assoc]
    exact hrest before other later hlater

theorem Closes.cons {logger : Logger} {asked : Prop} {bound : Nat} {last : Service ω σ}
    {turn : List Part} {turns : List (List Part)} {final : Service ω σ × ServiceEnd}
    (hturn : IsTurn turn .served) (hcloses : Closes logger asked bound last turns final) :
    Closes logger asked (bound + 1) last (turn :: turns) final := by
  cases hcloses with
  | unfinished _ hserved hlength =>
      exact .unfinished _ (List.forall_mem_cons.mpr ⟨hturn, hserved⟩) (congrArg Nat.succ hlength)
  | stopped _ hserved hasked =>
      exact .stopped _ (List.forall_mem_cons.mpr ⟨hturn, hserved⟩) hasked
  | closed earlier last hserved hclosed =>
      exact .closed (turn :: earlier) last (List.forall_mem_cons.mpr ⟨hturn, hserved⟩) hclosed
  | faulted earlier last fault hserved hbroken =>
      exact .faulted (turn :: earlier) last fault (List.forall_mem_cons.mpr ⟨hturn, hserved⟩) hbroken

theorem Closes.eq_of_unfinished {logger : Logger} {asked : Prop} {bound : Nat} {last : Service ω σ}
    {turns : List (List Part)} {final : Service ω σ × ServiceEnd}
    (hcloses : Closes logger asked bound last turns final) (hunfinished : final.2 = .unfinished) :
    final = (last, .unfinished) := by
  cases hcloses with
  | unfinished => rfl
  | stopped | closed | faulted => cases hunfinished

section Course

variable {host : Host ω} {store : Store ω σ} {config : EngineConfig} {logger : Logger}
  {signals : ω → StopSignals} {past : List SignalEvent} {service between last : Service ω σ}
  {stages : List (Stage ω σ)}

theorem Course.append {later : List (Stage ω σ)}
    (hcourse : Course host store config logger signals past service stages between)
    (hlater : Course host store config logger signals (past ++ eventsOf stages) between later last) :
    Course host store config logger signals past service (stages ++ later) last := by
  induction hcourse with
  | done hflags =>
      rw [eventsOf, List.flatMap_nil, List.append_nil] at hlater
      exact hlater
  | stage stage hflags hpart hevents hrest ih =>
      rw [eventsOf, List.flatMap_cons, ← List.append_assoc] at hlater
      exact .stage stage hflags hpart hevents (ih hlater)

theorem Course.flagged_last
    (hcourse : Course host store config logger signals past service stages last) :
    Flagged host (past ++ eventsOf stages) last.world := by
  induction hcourse with
  | done hflags =>
      rw [eventsOf, List.flatMap_nil, List.append_nil]
      exact hflags
  | stage stage hflags hpart hevents hrest ih =>
      rw [eventsOf, List.flatMap_cons, ← List.append_assoc]
      exact ih

theorem Course.signals_last
    (hcourse : Course host store config logger signals past service stages last) :
    signals last.world = (signals service.world).undergoAll (eventsOf stages) := by
  induction hcourse with
  | done hflags => rfl
  | stage stage hflags hpart hevents hrest ih =>
      rw [ih, hevents, ← StopSignals.undergoAll_append]
      rfl

theorem Course.signals_since
    (hcourse : Course host store config logger signals past service stages last)
    (hpast : signals service.world = ({} : StopSignals).undergoAll past) :
    signals last.world = ({} : StopSignals).undergoAll (past ++ eventsOf stages) := by
  rw [hcourse.signals_last, hpast, StopSignals.undergoAll_append]

end Course

section Run

variable {host : Host ω} {store : Store ω σ} {signals : ω → StopSignals}
  (hhost : host.Signalled signals) (hstore : store.Signalled signals) {config : EngineConfig}
  {logger : Logger} {past : List SignalEvent} {service : Service ω σ}

include hhost

theorem flagged_of_undergoAll {world : ω}
    (hpast : signals world = ({} : StopSignals).undergoAll past) : Flagged host past world := by
  intro server
  rw [hhost.stopRequested, hpast]
  exact StopSignals.isStopped_undergoAll

include hstore

theorem Part.Leads.continues {part : Part} {after : Service ω σ}
    (hpart : part.Leads host store config logger service after) :
    Continues signals service after := by
  cases hpart with
  | wait => exact await_continues hhost logger service
  | datagram => exact receiveOne_continues hhost hstore config logger service
  | tick => exact tick_continues hhost logger service

variable (hpast : signals service.world = ({} : StopSignals).undergoAll past)

include hpast

/-- A course goes on with whatever the service does next. -/
theorem Course.next {stages : List (Stage ω σ)} {between after : Service ω σ}
    (hcourse : Course host store config logger signals past service stages between)
    {part : Part} (hpart : part.Leads host store config logger between after) :
    ∃ events, Course host store config logger signals past service
      (stages ++ [⟨part, events, after⟩]) after := by
  obtain ⟨events, hevents⟩ := (hpart.continues hhost hstore).world
  have hbetween := hcourse.signals_since hpast
  have hafter : signals after.world =
      ({} : StopSignals).undergoAll (past ++ eventsOf stages ++ events) := by
    rw [hevents, hbetween, ← StopSignals.undergoAll_append]
  exact ⟨events, hcourse.append (.stage ⟨part, events, after⟩ (flagged_of_undergoAll hhost hbetween)
    hpart hevents (.done (flagged_of_undergoAll hhost hafter)))⟩

/-- A turn is a wait, at most one datagram, and a tick. -/
theorem turn_course (config : EngineConfig) (logger : Logger)
    (hsocket : service.socket.isUsable = true) :
    ∃ (stages : List (Stage ω σ)) (last : Service ω σ) (ended : TurnEnd),
      service.turn host store config logger = (last, ended) ∧
        Course host store config logger signals past service stages last ∧
        IsTurn (stages.map Stage.part) ended ∧
        last.socket = service.socket := by
  have hwaited := (await_continues hhost logger service).socket
  have hleads : (Part.wait (service.await host logger).1).Leads host store config logger service
      (service.await host logger).2 := .wait service
  obtain ⟨_, hwait⟩ :=
    (Course.done (flagged_of_undergoAll hhost hpast)).next hhost hstore hpast hleads
  rw [turn_eq host store config logger hsocket]
  rcases hawait : service.await host logger with ⟨report, waited⟩
  rw [hawait] at hwait hwaited
  dsimp only
  cases hclosed : report.isClosed with
  | true =>
      exact ⟨_, waited, .socketClosed, rfl, hwait, .closed report hclosed, hwaited⟩
  | false =>
      cases hreadable : report.isReadable with
      | false =>
          obtain ⟨_, hticked⟩ := hwait.next hhost hstore hpast (.tick waited)
          refine ⟨_, (waited.tick host logger).1, .served, ?_, hticked, .idle report hclosed hreadable,
            ?_⟩
          · exact Prod.ext rfl (tick_end logger host waited)
          · exact (tick_continues hhost logger waited).socket.trans hwaited
      | true =>
          have hkept := (receiveOne_continues hhost hstore config logger waited).socket
          have hend := receiveOne_end config logger hhost store waited
          obtain ⟨_, hreceive⟩ := hwait.next hhost hstore hpast (.datagram waited)
          rcases hreceived : waited.receiveOne host store config logger with ⟨received, ended⟩
          rw [hreceived] at hkept hend hreceive
          rcases hend with hserved | ⟨fault, hfaulted⟩
          · cases hserved
            obtain ⟨_, hticked⟩ := hreceive.next hhost hstore hpast (.tick received)
            refine ⟨_, (received.tick host logger).1, .served, ?_, hticked, .served report hreadable,
              ?_⟩
            · exact Prod.ext rfl (tick_end logger host received)
            · exact (tick_continues hhost logger received).socket.trans (hkept.trans hwaited)
          · cases hfaulted
            exact ⟨_, received, .faulted fault, rfl, hreceive, .broken report hreadable fault,
              hkept.trans hwaited⟩

/-- A run is a number of turns, and none of them begins after a stop was asked for. -/
theorem turns_course (config : EngineConfig) (logger : Logger) (server : ServerId) (bound : Nat)
    (hsocket : service.socket.isUsable = true) :
    ∃ (turns : List (List (Stage ω σ))) (last : Service ω σ),
      Course host store config logger signals past service turns.flatten last ∧
        NoneOnceAsked past server turns ∧
        Closes logger (AskedToStop (past ++ eventsOf turns.flatten) server) bound last
          (turns.map (·.map Stage.part)) (service.turns host store config logger server bound) := by
  have hflags := flagged_of_undergoAll hhost hpast
  -- The events of the turns so far are carried along as the past of the next one.
  induction bound generalizing service past with
  | zero => exact ⟨[], service, .done hflags, .nil past server, .unfinished [] (by simp) rfl⟩
  | succ bound ih =>
      cases hstop : host.stopRequested server service.world with
      | true =>
          have hasked : AskedToStop (past ++ eventsOf ([] : List (Stage ω σ))) server :=
            ((hflags server).mp hstop).append []
          rw [turns, if_pos hstop]
          exact ⟨[], service, .done hflags, .nil past server, .stopped [] (by simp) hasked⟩
      | false =>
          have hunasked : ¬ AskedToStop past server := fun hasked =>
            Bool.eq_false_iff.mp hstop ((hflags server).mpr hasked)
          obtain ⟨stages, between, ended, hturn, hcourse, hshape, hkept⟩ :=
            turn_course hhost hstore hpast config logger hsocket
          rw [turns, if_neg (Bool.eq_false_iff.mp hstop), hturn]
          cases ended with
          | served =>
              have hbetween := hcourse.signals_since hpast
              obtain ⟨turns, last, hlater, hnone, hcloses⟩ :=
                ih hbetween (hkept ▸ hsocket) (flagged_of_undergoAll hhost hbetween)
              rw [List.append_assoc, ← eventsOf_append] at hcloses
              exact ⟨stages :: turns, last, hcourse.append hlater, hnone.cons hunasked,
                hcloses.cons hshape⟩
          | socketClosed =>
              refine ⟨[stages], between, ?_, .cons hunasked (.nil _ server),
                .closed [] _ (by simp) hshape⟩
              rw [List.flatten_singleton]
              exact hcourse
          | faulted fault =>
              refine ⟨[stages], between, ?_, .cons hunasked (.nil _ server),
                .faulted [] _ fault (by simp) hshape⟩
              rw [List.flatten_singleton]
              exact hcourse

end Run

/-! ## Runs -/

/-- A run that was cut off goes on where it stood. -/
theorem turns_of_unfinished {host : Host ω} {store : Store ω σ} {config : EngineConfig}
    {logger : Logger} {server : ServerId} {bound : Nat} {service last : Service ω σ}
    (hunfinished : service.turns host store config logger server bound = (last, .unfinished))
    (more : Nat) :
    service.turns host store config logger server (bound + more) =
      last.turns host store config logger server more := by
  induction bound generalizing service with
  | zero =>
      cases hunfinished
      rw [Nat.zero_add]
  | succ bound ih =>
      rw [turns] at hunfinished
      rw [Nat.succ_add, turns]
      split at hunfinished
      next => cases hunfinished
      next hrunning =>
        rw [if_neg hrunning]
        split at hunfinished
        next hturn => exact ih hunfinished
        next => cases hunfinished
        next => cases hunfinished

theorem turns_of_stopRequested {host : Host ω} {server : ServerId} {service : Service ω σ}
    (hstop : host.stopRequested server service.world = true) (store : Store ω σ)
    (config : EngineConfig) (logger : Logger) (bound : Nat) :
    (service.turns host store config logger server (bound + 1)).2 = .stopped := by
  rw [turns, if_pos hstop]

/-- Stopping is prompt, and nothing takes it back. On a scripted host whose signal
handlers can be installed, a stop flag is set exactly if its server was asked to
stop: by a signal that came while it was the server bound last, or directly. On any
host with such flags, events may befall them at any time, also while a datagram is
handled, and the flags stay right at every point of a run. An unusable socket fails
at once. Otherwise a run is a number of turns of one wait, at most one datagram and
at most one tick. None of them begins once the server was asked to stop; so the
service is then stopped, unless the wait of its last turn has found the socket
broken. It fails for no other reason, it does not run into a fault, and if it was
cut off after it had been asked, then the next turn is where it stops. -/
theorem run_stops_promptly :
    (∀ host : ScriptedHost, host.signalsFail = false → host.signals = {} →
      ∀ events, (host.undergoAll events).signals = ({} : StopSignals).undergoAll events ∧
        Flagged ScriptedHost.calls events (host.undergoAll events)) ∧
    ScriptedHost.calls.Signalled ScriptedHost.signals ∧
    ∀ {ω σ : Type} (host : Host ω) (store : Store ω σ) (signals : ω → StopSignals),
      host.Signalled signals → store.Signalled signals →
      ∀ (config : EngineConfig) (logger : Logger) (server : ServerId) (service : Service ω σ)
        (past : List SignalEvent), signals service.world = ({} : StopSignals).undergoAll past →
      ∀ bound : Nat,
        let final := service.run host store config logger server bound
        (service.socket.isUsable = false → final = (service, .failed)) ∧
        (service.socket.isUsable = true →
          ∃ (turns : List (List (Stage ω σ))) (last : Service ω σ),
            let asked := AskedToStop (past ++ eventsOf turns.flatten) server
            Course host store config logger signals past
              (service.note logger .info (ascii "serving, press Ctrl+C to stop"))
              turns.flatten last ∧
            NoneOnceAsked past server turns ∧
            Closes logger asked bound last (turns.map (·.map Stage.part)) final ∧
            (asked → final.2 = .unfinished → ∀ more, bound < more →
              (service.run host store config logger server more).2 = .stopped)) ∧
        (store.Explains (0 ∉ ·) → service.sessions.AllLive → ∀ fault, final.2 ≠ .faulted fault) := by
  refine ⟨fun host hinstalled hfresh events => ?_, ScriptedHost.calls_signalled, ?_⟩
  · have hsignals : (host.undergoAll events).signals = ({} : StopSignals).undergoAll events := by
      rw [ScriptedHost.undergoAll_signals hinstalled, hfresh]
    exact ⟨hsignals, flagged_of_undergoAll ScriptedHost.calls_signalled hsignals⟩
  intro ω σ host store signals hhost hstore config logger server service past hpast bound final
  let begun := service.note logger .info (ascii "serving, press Ctrl+C to stop")
  have hbegun : signals begun.world = ({} : StopSignals).undergoAll past := hpast
  refine ⟨fun hsocket => ?_, fun hsocket => ?_, fun hexplains hlive fault => ?_⟩
  · simp only [final, run, hsocket, Bool.false_eq_true, if_false]
  · have hrun (bound : Nat) : service.run host store config logger server bound =
        begun.turns host store config logger server bound := if_pos hsocket
    obtain ⟨turns, last, hcourse, hnone, hcloses⟩ :=
      turns_course hhost hstore hbegun config logger server bound hsocket
    rw [← hrun] at hcloses
    refine ⟨turns, last, hcourse, hnone, hcloses, fun hasked hunfinished more hmore => ?_⟩
    have hstop := (hcourse.flagged_last server).mpr hasked
    have hcut : begun.turns host store config logger server bound = (last, .unfinished) := by
      rw [← hrun]
      exact hcloses.eq_of_unfinished hunfinished
    obtain ⟨rest, rfl⟩ := Nat.exists_eq_add_of_lt hmore
    rw [hrun, Nat.add_assoc, turns_of_unfinished hcut]
    exact turns_of_stopRequested hstop store config logger rest
  · change (service.run host store config logger server bound).2 ≠ _
    unfold run
    split
    · have hready : begun.sessions.AllLive := hlive
      exact turns_sound hhost hexplains config logger hready server bound fault
    · exact ServiceEnd.noConfusion

/-- The stop is asked for while a name is looked up. The turn is finished, and the
next one is where every longer run stops. Without a socket there is no turn at all. -/
theorem run_stops_promptly_while_opening :
    let peer := Endpoint.ipv4 192 0 2 1 4000
    let request := [0, 1] ++ ascii "stop" ++ [0] ++ ascii "octet" ++ [0]
    let script : ScriptedHost :=
      { opened := [3], events := [⟨0, .arrival (SocketAddress.ofEndpoint peer) request⟩] }
    let past := [SignalEvent.bind (some 1), .bind (some 0)]
    let store := memoryStore.onSecond.preceded fun name (world : ScriptedHost × MemoryTable) =>
      if name = ascii "stop" then (world.1.raiseSignal, world.2) else world
    let service : Service (ScriptedHost × MemoryTable) (Delivery Content) :=
      { socket := ⟨3, true, false⟩
        buffer := .empty 64
        sessions := { world := (script.undergoAll past, [(ascii "stop", #[65])]) } }
    let unbound := { service with socket := .unbound }
    let run := service.run ScriptedHost.calls.onFirst store {} ⟨[], .silent⟩ 0
    (run 1).2 = .unfinished ∧ (run 1).1.sessions.table.length = 1 ∧
      (∀ more, 1 < more → (run more).2 = .stopped) ∧
      (∀ bound fault, (run bound).2 ≠ .faulted fault) ∧
      unbound.run ScriptedHost.calls.onFirst store {} ⟨[], .silent⟩ 0 1 = (unbound, .failed) ∧
      ScriptedHost.calls.stopRequested 0 (script.undergoAll (past ++ [.signal])) = true := by
  intro peer request script past store service unbound run
  obtain ⟨hscripted, hcalls, hruns⟩ := run_stops_promptly
  have hevents (name : Octets) (world : ScriptedHost × MemoryTable) :
      Undergoes (fun world => world.1.signals) world
        (if name = ascii "stop" then (world.1.raiseSignal, world.2) else world) := by
    split
    · exact world.1.raiseSignal_undergoes
    · exact .of_eq rfl
  have hstore : store.Signalled fun world => world.1.signals :=
    (memoryStore.onSecond_signalled ScriptedHost.signals).preceded hevents
  have hexplains : store.Explains (0 ∉ ·) :=
    have hmemory : memoryStore.Explains (0 ∉ ·) := memoryStore_explains.nul_notMem
    { opening := fun name mode world => hmemory.opening name mode _
      reading := fun source offset count world => hmemory.reading source offset count world.2 }
  have hpast : service.world.1.signals = ({} : StopSignals).undergoAll past :=
    (hscripted script rfl rfl past).1
  have hstarts := hruns _ store _ hcalls.onFirst hstore {} ⟨[], .silent⟩ 0
  have hrun := hstarts service past hpast
  obtain ⟨hunfinished, hrunning, hflag⟩ : (run 1).2 = .unfinished ∧
      (run 1).1.sessions.table.length = 1 ∧
      ScriptedHost.calls.onFirst.stopRequested 0 (run 1).1.world = true := by decide +kernel
  refine ⟨hunfinished, hrunning, ?_, fun bound fault => ?_,
    (hstarts unbound past hpast 1).1 rfl, ?_⟩
  · obtain ⟨turns, last, hcourse, _, hcloses, hlonger⟩ := (hrun 1).2.1 rfl
    have hlast : (run 1).1 = last := congrArg (·.1) (hcloses.eq_of_unfinished hunfinished)
    apply hlonger _ hunfinished
    rw [← hcourse.flagged_last 0, ← hlast]
    exact hflag
  · have hlive : service.sessions.AllLive := fun _ hentry => absurd hentry List.not_mem_nil
    exact (hrun bound).2.2 hexplains hlive fault
  · exact ((hscripted script rfl rfl _).2 0).mpr ⟨past, .signal, [], rfl, Or.inr ⟨rfl, rfl⟩⟩

end TftpServer.Service
