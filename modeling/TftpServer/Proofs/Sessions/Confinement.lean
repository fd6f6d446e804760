import TftpServer.Proofs.Packet.Readback
import TftpServer.Proofs.Sessions.Server
import TftpServer.Proofs.Store.Confinement
import TftpServer.Proofs.Transfer.Twins

/-! # Sessions in worlds that answer alike

Where a store answers alike in two worlds, the sessions over it do the same in
both: the same actions, on the same table. Over the files below a serving root
this means that nobody finds out, by whatever requests, what there is besides
them.
-/

namespace TftpServer

variable {ω σ κ : Type} {trusted : σ → Prop} {first second : ω}

def SessionTable.Trusts (trusted : σ → Prop) (table : SessionTable σ) : Prop :=
  ∀ entry ∈ table, entry.2.Trusts trusted

/-- The same outcome in both worlds. -/
inductive Outcome.Twins (trusted : σ → Prop) (first second : ω) :
    Outcome ω σ → Outcome ω σ → Prop where
  | intro (table : SessionTable σ) (actions : List Action) (fault : Option Fault)
      (htrusts : table.Trusts trusted) :
      Twins trusted first second { sessions := ⟨table, first⟩, actions, fault }
        { sessions := ⟨table, second⟩, actions, fault }

namespace Outcome.Twins

variable {outcome other : Outcome ω σ}

theorem prepend (htwins : Twins trusted first second outcome other) (before : List Action) :
    Twins trusted first second { outcome with actions := before ++ outcome.actions }
      { other with actions := before ++ other.actions } := by
  obtain ⟨table, actions, fault, htrusts⟩ := htwins
  exact .intro _ _ _ htrusts

end Outcome.Twins

namespace Sessions

variable {table : SessionTable σ} {store : Store ω σ} {peer : Endpoint} {transfer : Transfer σ}

theorem settle_twins {step other : Step ω σ} (htrusts : table.Trusts trusted)
    (hstep : step.Twins trusted first second other) :
    ((⟨table, first⟩ : Sessions ω σ).settle peer step).Twins trusted first second
      ((⟨table, second⟩ : Sessions ω σ).settle peer other) := by
  obtain ⟨transfer, sent, fault, hheld⟩ := hstep
  have hupdated : (table.update peer transfer).Trusts trusted := fun entry hentry => by
    rcases SessionTable.mem_update hentry with ⟨_, hnew⟩ | ⟨_, hold⟩
    · exact hnew ▸ hheld
    · exact htrusts entry hold
  unfold settle
  cases fault with
  | some fault => exact .intro _ _ _ hupdated
  | none =>
      simp only [reap]
      cases (table.update peer transfer).find? peer with
      | none => exact .intro _ _ _ hupdated
      | some current =>
          cases hover : current.isTerminal with
          | false =>
              simp only [hover, Bool.false_eq_true, if_false]
              exact .intro _ _ _ hupdated
          | true =>
              simp only [hover, if_true]
              exact .intro _ _ _ fun entry hentry => hupdated entry (List.mem_of_mem_filter hentry)

theorem refuse_twins (htrusts : table.Trusts trusted) (note : Octets) (code : ErrorCode)
    (text : Octets) :
    ((⟨table, first⟩ : Sessions ω σ).refuse peer note code text).Twins trusted first second
      ((⟨table, second⟩ : Sessions ω σ).refuse peer note code text) := by
  unfold refuse
  split
  · exact .intro _ _ _ htrusts
  · exact .intro _ _ _ htrusts

section Store

variable (hstore : store.Alike trusted first second)

include hstore

theorem handleRequest_twins (config : EngineConfig) (htrusts : table.Trusts trusted)
    (opcode : Opcode) {request : Request} (hname : 0 ∉ request.filename) (now : Time) :
    ((⟨table, first⟩ : Sessions ω σ).handleRequest store config peer opcode request now).Twins
      trusted first second
      ((⟨table, second⟩ : Sessions ω σ).handleRequest store config peer opcode request now) := by
  unfold handleRequest
  dsimp only
  split
  · exact refuse_twins htrusts _ _ _
  · split
    · exact refuse_twins htrusts _ _ _
    · obtain ⟨opened, hopened, hfirst, hsecond⟩ :=
        hstore.opening request.filename request.mode hname
      simp only [hfirst, hsecond]
      split
      next source herror hsource =>
        have hsame := hstore.reading.length source (hopened source hsource)
        rw [hsame]
        have hheld : (Transfer.ofRequest config peer source (store.length source second)
            request.options).Trusts trusted := fun other hother =>
          Option.some.inj hother ▸ hopened source hsource
        have hstarted := (Transfer.start_demands _ now).twins hstore.reading hheld
        refine (settle_twins ?_ hstarted).prepend [_]
        intro entry hentry
        rcases List.mem_cons.mp hentry with rfl | hentry
        · exact hheld
        · exact htrusts entry hentry
      next => exact refuse_twins htrusts _ _ _

theorem receive_twins (config : EngineConfig) (htrusts : table.Trusts trusted)
    (datagram : Octets) (peer : Endpoint) (now : Time) :
    ((⟨table, first⟩ : Sessions ω σ).receive store config datagram peer now).Twins
      trusted first second
      ((⟨table, second⟩ : Sessions ω σ).receive store config datagram peer now) := by
  unfold receive
  dsimp only
  cases hfind : table.find? peer with
  | some transfer =>
      have hheld : transfer.Trusts trusted := htrusts _ (SessionTable.mem_of_find? hfind)
      cases decode datagram with
      | error defect =>
          exact settle_twins htrusts
            ((Transfer.receiveMalformed_demands transfer _).twins hstore.reading hheld)
      | ok message =>
          dsimp only
          split
          · exact .intro _ _ _ htrusts
          · exact settle_twins htrusts
              ((Transfer.receive_demands transfer message now).twins hstore.reading hheld)
  | none =>
      cases hdecode : decode datagram with
      | error defect => exact .intro _ _ _ htrusts
      | ok message =>
          cases coherent_of_decode hdecode with
          | rrq request | wrq request =>
              exact handleRequest_twins hstore config htrusts _
                (nul_notMem_of_decode_request hdecode) now
          | data | ack | error | oack => exact .intro _ _ _ htrusts

theorem expire_twins (htrusts : table.Trusts trusted) (peer : Endpoint) (now : Time) :
    ((⟨table, first⟩ : Sessions ω σ).expire peer now).Twins trusted first second
      ((⟨table, second⟩ : Sessions ω σ).expire peer now) := by
  unfold expire
  dsimp only
  cases hfind : table.find? peer with
  | none => exact .intro _ _ _ htrusts
  | some transfer =>
      have hheld : transfer.Trusts trusted := htrusts _ (SessionTable.mem_of_find? hfind)
      exact (settle_twins htrusts
        ((Transfer.timeout_demands transfer now).twins hstore.reading hheld)).prepend [_]

theorem expireAll_twins (htrusts : table.Trusts trusted) (now : Time) (peers : List Endpoint) :
    ((⟨table, first⟩ : Sessions ω σ).expireAll now peers).Twins trusted first second
      ((⟨table, second⟩ : Sessions ω σ).expireAll now peers) := by
  induction peers generalizing table with
  | nil => exact .intro _ _ _ htrusts
  | cons peer rest ih =>
      rw [expireAll_cons, expireAll_cons]
      have hexpired := expire_twins hstore htrusts peer now
      generalize (⟨table, first⟩ : Sessions ω σ).expire peer now = outcome at hexpired ⊢
      generalize (⟨table, second⟩ : Sessions ω σ).expire peer now = twin at hexpired ⊢
      obtain ⟨after, actions, fault, hafter⟩ := hexpired
      exact (ih hafter).prepend _

theorem call_twins (config : EngineConfig) (htrusts : table.Trusts trusted) (call : Call) :
    ((⟨table, first⟩ : Sessions ω σ).call store config call).Twins trusted first second
      ((⟨table, second⟩ : Sessions ω σ).call store config call) := by
  cases call with
  | datagram octets peer now => exact receive_twins hstore config htrusts octets peer now
  | tick now walk => exact expireAll_twins hstore htrusts now _

end Store

end Sessions

namespace Server

/-- The same table, sink and log in both worlds. -/
inductive Twins (trusted : σ → Prop) (first second : ω) : Server ω σ κ → Server ω σ κ → Prop where
  | intro (table : SessionTable σ) (state : κ) (log : Octets) (messages : List LogMessage)
      (htrusts : table.Trusts trusted) :
      Twins trusted first second { sessions := ⟨table, first⟩, sink := state, log, messages }
        { sessions := ⟨table, second⟩, sink := state, log, messages }

variable {store : Store ω σ} {server other : Server ω σ κ}

theorem Twins.take (hstore : store.Alike trusted first second) (config : EngineConfig)
    (sink : Sink κ) (logger : Logger) (htwins : Twins trusted first second server other)
    (call : Call) :
    Twins trusted first second (server.take store config sink logger call)
      (other.take store config sink logger call) := by
  obtain ⟨table, state, log, messages, htrusts⟩ := htwins
  have hcalled := Sessions.call_twins hstore config htrusts call
  unfold Server.take
  dsimp only
  generalize (⟨table, first⟩ : Sessions ω σ).call store config call = outcome at hcalled ⊢
  generalize (⟨table, second⟩ : Sessions ω σ).call store config call = twin at hcalled ⊢
  obtain ⟨after, actions, fault, hafter⟩ := hcalled
  exact .intro _ _ _ _ hafter

theorem Twins.run (hstore : store.Alike trusted first second) (config : EngineConfig)
    (sink : Sink κ) (logger : Logger) (htwins : Twins trusted first second server other)
    (calls : List Call) :
    Twins trusted first second (server.run store config sink logger calls)
      (other.run store config sink logger calls) := by
  induction calls generalizing server other with
  | nil => exact htwins
  | cons call rest ih => exact ih (htwins.take hstore config sink logger call)

/-- Trees that look alike from the serving root on cannot be told apart by
whatever peers ask for: the same datagrams are sent, the same log is written, and
the same transfers are running. -/
theorem run_confined (root : Octets) (config : EngineConfig) (sink : Sink κ) (logger : Logger)
    {first second : FileTree}
    (halike : FileTree.LookAlike (first.entryAt root) (second.entryAt root)) (state : κ)
    (calls : List Call) :
    let one := (fresh first (state, [])).run (fileStore root) config sink.recorded logger calls
    let other := (fresh second (state, [])).run (fileStore root) config sink.recorded logger calls
    one.sink = other.sink ∧ one.log = other.log ∧ one.sessions.table = other.sessions.table := by
  intro one other
  have hrun := Twins.run (fileStore_alike halike) config sink.recorded logger
    (.intro [] (state, []) [] [] fun entry hentry => nomatch hentry) calls
  change Twins _ first second one other at hrun
  generalize one = one at hrun ⊢
  generalize other = other at hrun ⊢
  obtain ⟨table, state, log, messages, htrusts⟩ := hrun
  exact ⟨rfl, rfl, rfl⟩

/-- A tree with a file next to the serving root, and a tree without: asking for
it by way of the root makes no difference. -/
theorem run_confined_beside_secret :
    let served := (ascii "srv", FileTree.directory [(ascii "a", .file #[65])])
    let first := FileTree.directory [served, (ascii "secret", .file #[66])]
    let second := FileTree.directory [served]
    let calls := [Call.datagram ([0, 1] ++ ascii "a/../../secret" ++ [0] ++ ascii "octet" ++ [0])
      (.ipv4 192 0 2 1 4000) 0]
    let sink : Sink Unit := fun _ _ state => (.ok, state)
    FileTree.LookAlike (first.entryAt (ascii "/srv")) (second.entryAt (ascii "/srv")) ∧
      let one := (fresh first ((), [])).run (fileStore (ascii "/srv")) {} sink.recorded ⟨[], .debug⟩
        calls
      let other := (fresh second ((), [])).run (fileStore (ascii "/srv")) {} sink.recorded
        ⟨[], .debug⟩ calls
      one.sink = other.sink ∧ one.log = other.log ∧ one.sessions.table = other.sessions.table := by
  intro served first second calls sink
  have halike : FileTree.LookAlike (first.entryAt (ascii "/srv")) (second.entryAt (ascii "/srv")) :=
    fun names hnames => rfl
  exact ⟨halike, run_confined (ascii "/srv") {} sink ⟨[], .debug⟩ halike () calls⟩

end Server

end TftpServer
