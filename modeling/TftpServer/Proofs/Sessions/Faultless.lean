import TftpServer.Proofs.Sessions.Calls

/-! # No call faults

A transfer in the table always waits for its peer, with everything that its next
step needs. So no datagram and no tick, from whatever peers and in whatever
order, makes the server encode what has no wire form, read a payload of the
wrong kind, or read a stream that is gone. All it takes is that no explanation
of the store holds a NUL, which could not be sent.
-/

namespace TftpServer.Sessions

variable {ω σ : Type} {store : Store ω σ} {config : EngineConfig} {sessions : Sessions ω σ}

/-- Every transfer in the table waits for its peer. -/
def AllLive (sessions : Sessions ω σ) : Prop :=
  ∀ entry ∈ sessions.table, entry.2.Live

theorem AllLive.find? (hlive : sessions.AllLive) {peer : Endpoint} {transfer : Transfer σ}
    (hfind : sessions.table.find? peer = some transfer) : transfer.Live :=
  hlive _ (SessionTable.mem_of_find? hfind)

theorem settle_sound {peer : Endpoint} {step : Step ω σ}
    (hfind : (sessions.table.find? peer).isSome)
    (hlive : ∀ entry ∈ sessions.table, entry.1 ≠ peer → entry.2.Live) (hstep : step.Sound) :
    (sessions.settle peer step).fault = none ∧ (sessions.settle peer step).sessions.AllLive := by
  refine ⟨(settle_fault step hfind).trans hstep.fault, settle_forall step hfind hlive ?_⟩
  intro hopen
  rcases hstep.state with hwaits | hover
  · exact hwaits
  · rw [closes, hstep.fault, hover.terminal] at hopen
    cases hopen

section Explained

variable (hstore : store.Explains (0 ∉ ·))

include hstore

theorem receive_sound (hlive : sessions.AllLive) (datagram : Octets) (peer : Endpoint) (now : Time) :
    (sessions.receive store config datagram peer now).fault = none ∧
      (sessions.receive store config datagram peer now).sessions.AllLive := by
  have hreceipt := receive_receipt store config sessions datagram peer now
  generalize sessions.receive store config datagram peer now = outcome at hreceipt
  cases hreceipt with
  | handled transfer hfind =>
      apply settle_sound
      · simp [hfind]
      · intro entry hentry _
        exact hlive entry hentry
      · apply Transfer.handle_sound hstore.reading (hlive.find? hfind)
        intro message later hevent
        exact coherent_of_eventOf hevent
  | noted level note hnote => exact ⟨rfl, hlive⟩
  | refused opcode request world note code text hfind hdecode hworld htext hnote =>
      have hnul : 0 ∉ text := htext (0 ∉ ·) (fun _ _ htellable => htellable.nul_notMem) hstore
      obtain ⟨reply, _, hrefuse⟩ := refuse_eq { sessions with world } peer note code hnul
      rw [hrefuse]
      exact ⟨rfl, hlive⟩
  | opened request opened source world note hfind hdecode hopen herror hsource hnote =>
      -- The new transfer is not waiting yet, but it is the one that gets settled.
      apply settle_sound
      · simp
      · intro entry hentry hother
        rcases List.mem_cons.mp hentry with rfl | hold
        · exact absurd rfl hother
        · exact hlive entry hold
      · exact Transfer.start_sound hstore.reading config peer source _ request.options world now

theorem expire_sound (hlive : sessions.AllLive) (peer : Endpoint) (now : Time) :
    (sessions.expire peer now).sessions.AllLive := by
  cases hfind : sessions.table.find? peer with
  | none =>
      rw [expire_of_none sessions peer now hfind]
      exact hlive
  | some transfer =>
      rw [expire_of_some sessions peer now hfind]
      have hstep : (transfer.handle store.toReading sessions.world (.timeout now)).Sound :=
        Transfer.handle_sound hstore.reading (hlive.find? hfind) sessions.world
          fun message later hevent => nomatch hevent
      exact (settle_sound (by simp [hfind]) (fun entry hentry _ => hlive entry hentry) hstep).2

theorem call_sound (hlive : sessions.AllLive) (call : Call) :
    (sessions.call store config call).fault = none ∧
      (sessions.call store config call).sessions.AllLive := by
  cases call with
  | datagram octets peer now => exact receive_sound hstore hlive octets peer now
  | tick now walk =>
      refine ⟨expireAll_fault sessions now _, ?_⟩
      have hexpire (sessions : Sessions ω σ) (peer : Endpoint) (hlive : sessions.AllLive) :
          (sessions.expire peer now).sessions.AllLive ∧
            ∀ action ∈ (sessions.expire peer now).actions, True :=
        ⟨expire_sound hstore hlive peer now, fun _ _ => trivial⟩
      exact (expireAll_induction AllLive hexpire hlive _).1

theorem run_allLive (world : ω) (calls : List Call) :
    (run store config { world } calls).AllLive :=
  run_induction AllLive (fun _ call hlive => (call_sound hstore hlive call).2)
    (by simp [AllLive]) calls

end Explained

/-- No peer can stop the server: over a store whose explanations are free of NUL
octets, as those of the built-in stores are, no call of any run faults. -/
theorem call_never_faults :
    memoryStore.Explains (0 ∉ ·) ∧ (∀ root, (fileStore root).Explains (0 ∉ ·)) ∧
      ∀ {ω σ : Type} (store : Store ω σ), store.Explains (0 ∉ ·) →
        ∀ (config : EngineConfig) (world : ω) (calls : List Call) (call : Call),
          ((run store config { world } calls).call store config call).fault = none := by
  refine ⟨?_, fun root => ?_, fun store hstore config world calls call => ?_⟩
  · exact memoryStore_explains.nul_notMem
  · exact (fileStore_explains root).nul_notMem
  · exact (call_sound hstore (run_allLive hstore world calls) call).1

/-- A DATA block without a number, from a peer whose transfer is under way. -/
theorem truncated_call_never_faults :
    memoryStore.Explains (0 ∉ ·) ∧
      (((run memoryStore {} { world := [(ascii "a", #[65])] }
        [.datagram ([0, 1] ++ ascii "a" ++ [0] ++ ascii "octet" ++ [0]) (.ipv4 192 0 2 1 4000) 0]).call
          memoryStore {} (.datagram [0, 3] (.ipv4 192 0 2 1 4000) 10)).fault = none) :=
  ⟨call_never_faults.1, call_never_faults.2.2 memoryStore call_never_faults.1 {} _ _ _⟩

end TftpServer.Sessions
