import TftpServer.Proofs.Sessions.View
import TftpServer.Proofs.Transfer.FailedRead
import TftpServer.Store.Scripted

/-! # Failed reads of a session

A transfer whose stream fails is gone from the table after the call, and its peer
has been sent one ERROR. If the explanation holds a NUL, neither is the case: the
transfer stays in the table as it was when the text could not be sent.
-/

namespace TftpServer

variable {ω σ : Type}

/-- An outcome that leaves a peer without a transfer and sends nothing but an
ERROR of some code to it. -/
structure Outcome.Fails (outcome : Outcome ω σ) (peer : Endpoint) (code : ErrorCode) : Prop where
  gone : outcome.sessions.table.find? peer = none
  fault : outcome.fault = none
  sent : ∃ datagram text, Action.datagrams outcome.actions = [(peer, datagram)] ∧
    decode datagram = .ok (.error code text)

/-- An outcome that leaves a peer with its transfer, cut short over a text without
a wire form. -/
structure Outcome.BreaksOff (outcome : Outcome ω σ) (peer : Endpoint) : Prop where
  running : ∃ transfer, outcome.sessions.table.find? peer = some transfer ∧
    transfer.isTerminal = false
  fault : outcome.fault = some (.encoding .nulInText)
  sent : Action.datagrams outcome.actions = []

theorem Outcome.BreaksOff.not_fails {outcome : Outcome ω σ} {peer : Endpoint} (code : ErrorCode)
    (hbreaks : outcome.BreaksOff peer) : ¬ outcome.Fails peer code := fun hfails =>
  nomatch hbreaks.fault.symm.trans hfails.fault

def Outcome.Settles (before : List ReadCall) (peer : Endpoint)
    (outcome : Outcome (ω × List ReadCall) σ) : Prop :=
  Settled before outcome.sessions.world.2 (outcome.Fails peer) (outcome.BreaksOff peer)

namespace Sessions

variable {peer : Endpoint}

section Settle

variable {sessions : Sessions ω σ} {step : Step ω σ} (hfind : (sessions.table.find? peer).isSome)

include hfind

theorem settle_fails {code : ErrorCode} (hstep : step.Fails code) :
    (sessions.settle peer step).Fails peer code := by
  obtain ⟨datagram, text, hsent, hdecode⟩ := hstep.sent
  have hcloses : closes step = true := by
    simp [closes, Transfer.isTerminal, hstep.phase, hstep.fault]
  refine ⟨?_, (settle_fault step hfind).trans hstep.fault, datagram, text, ?_, hdecode⟩
  · rw [settle_find?_self step hfind, if_pos hcloses]
  · rw [settle_datagrams step hfind, hsent]
    rfl

theorem settle_breaksOff (hstep : step.BreaksOff) : (sessions.settle peer step).BreaksOff peer := by
  have hopen : ¬ closes step = true := by
    simp [closes, hstep.running]
  refine ⟨⟨step.transfer, ?_, hstep.running⟩, (settle_fault step hfind).trans hstep.fault, ?_⟩
  · rw [settle_find?_self step hfind, if_neg hopen]
  · rw [settle_datagrams step hfind, hstep.sent]
    rfl

end Settle

theorem settle_settles {sessions : Sessions (ω × List ReadCall) σ}
    {step : Step (ω × List ReadCall) σ} {before : List ReadCall}
    (hfind : (sessions.table.find? peer).isSome) (hstep : step.Settles before) :
    (sessions.settle peer step).Settles before peer := by
  rw [Outcome.Settles, settle_world step hfind]
  apply hstep.imp
  · exact fun code hfails => settle_fails hfind hfails
  · exact fun hbreaks => settle_breaksOff hfind hbreaks

theorem receive_settles (store : Store ω σ) (config : EngineConfig)
    (sessions : Sessions (ω × List ReadCall) σ) (datagram : Octets) (peer : Endpoint) (now : Time) :
    (sessions.receive store.recorded config datagram peer now).Settles sessions.world.2 peer := by
  have hreceipt := receive_receipt store.recorded config sessions datagram peer now
  generalize sessions.receive store.recorded config datagram peer now = outcome at hreceipt
  cases hreceipt with
  | handled transfer hfind =>
      apply settle_settles (by simp [hfind])
      exact Transfer.handle_settles store.toReading transfer sessions.world _
  | noted level note hnote => exact Settled.of_no_read rfl
  | refused opcode request world note code text hfind hdecode hworld htext hnote =>
      apply Settled.of_no_read
      rw [refuse_sessions]
      -- Opening a name is not a read.
      rcases hworld with rfl | rfl <;> rfl
  | opened request opened source world note hfind hdecode hopen herror hsource hnote =>
      let transfer := Transfer.ofRequest config peer source (store.recorded.length source world)
        request.options
      have hworld : world.2 = sessions.world.2 := by
        cases hopen
        rfl
      have hsettles : (sessions.enroll store.recorded peer transfer world now).Settles
          sessions.world.2 peer := by
        rw [← hworld]
        apply settle_settles (by simp)
        exact Transfer.start_settles store.toReading transfer world now
      apply hsettles.imp
      · rintro code ⟨hgone, hfault, hsent⟩
        exact ⟨hgone, hfault, hsent⟩
      · rintro ⟨hrunning, hfault, hsent⟩
        exact ⟨hrunning, hfault, hsent⟩

/-- The reads of a call. They are found by taking it on record. -/
def reads (store : Store ω σ) (config : EngineConfig) (sessions : Sessions ω σ) (call : Call) :
    List ReadCall :=
  let onRecord : Sessions (ω × List ReadCall) σ :=
    { table := sessions.table, world := (sessions.world, []) }
  (onRecord.call store.recorded config call).sessions.world.2

/-- The record says what becomes of the call itself. -/
theorem settled_reads (store : Store ω σ) (config : EngineConfig) (sessions : Sessions ω σ)
    (octets : Octets) (peer : Endpoint) (now : Time) :
    let call := Call.datagram octets peer now
    let outcome := sessions.call store config call
    Settled [] (sessions.reads store config call) (outcome.Fails peer) (outcome.BreaksOff peer) := by
  intro call outcome
  let onRecord : Sessions (ω × List ReadCall) σ :=
    { table := sessions.table, world := (sessions.world, []) }
  have houtcome : (onRecord.call store.recorded config call).map Prod.fst = outcome :=
    onRecord.call_map store.recorded_carries config call
  rw [← houtcome]
  apply (receive_settles store config onRecord octets peer now).imp
  · rintro code ⟨hgone, hfault, hsent⟩
    exact ⟨hgone, hfault, hsent⟩
  · rintro ⟨hrunning, hfault, hsent⟩
    exact ⟨hrunning, hfault, hsent⟩

/-- Whatever state a transfer is in, whatever moves it and whatever its stream
answers, a failed read ends it with one ERROR, and takes it out of the table in
the same call, if and only if its explanation can be sent. Otherwise the step
breaks off and the transfer is still there. A tick reads nothing. -/
theorem failed_read_ends_transfer_iff (reading : Reading ω σ) (store : Store ω σ)
    (config : EngineConfig) :
    (∀ (transfer : Transfer σ) (world : ω) (cue : Transfer.Cue),
      let step := transfer.take reading world cue
      let reads := transfer.reads reading world cue
      reads.length ≤ 1 ∧ ∀ read ∈ reads, ∀ failure, read.reply.error = some failure →
        (step.Fails failure.errorCode ↔ 0 ∉ read.reply.detail) ∧
          (0 ∈ read.reply.detail → step.BreaksOff)) ∧
      ∀ sessions : Sessions ω σ,
        (∀ now walk, sessions.reads store config (.tick now walk) = []) ∧
          ∀ octets peer now,
            let call := Call.datagram octets peer now
            let outcome := sessions.call store config call
            let reads := sessions.reads store config call
            reads.length ≤ 1 ∧ ∀ read ∈ reads, ∀ failure, read.reply.error = some failure →
              (outcome.Fails peer failure.errorCode ↔ 0 ∉ read.reply.detail) ∧
                (0 ∈ read.reply.detail → outcome.BreaksOff peer) := by
  refine ⟨fun transfer world cue => ?_,
    fun sessions => ⟨fun now walk => ?_, fun octets peer now => ?_⟩⟩
  · have hsettled := transfer.settled_reads reading world cue
    exact hsettled.fails_iff Step.BreaksOff.not_fails
  · exact congrArg Prod.snd (expireAll_world _ now _)
  · have hsettled := sessions.settled_reads store config octets peer now
    exact hsettled.fails_iff Outcome.BreaksOff.not_fails

/-- A store of one name, with a stream whose answers are fixed. -/
def scriptedReads (answers : List ScriptedReply) : Store ReadRecord ScriptedStream :=
  scriptedStore ScriptedStream.reading (fun _ _ record => record)
    [{ name := ascii "a", opened := { stream := some { answers } } }]

/-- The read of the second block fails, when the first one is acknowledged. -/
theorem failed_read_ends_transfer_after_one_block :
    let store := scriptedReads
      [{ octets := .fill 65 0 }, { error := some .ioFailure, detail := ascii "disk" }]
    let peer := Endpoint.ipv4 192 0 2 1 4000
    let request := [0, 1] ++ ascii "a" ++ [0] ++ ascii "octet" ++ [0]
    let sessions := run store {} { world := [] } [.datagram request peer 0]
    let call := Call.datagram [0, 4, 0, 1] peer 10
    ∃ read ∈ sessions.reads store {} call, read.reply.error = some .ioFailure ∧
      0 ∉ read.reply.detail ∧ (sessions.call store {} call).Fails peer .notDefined := by
  intro store peer request sessions call
  have hreply : (sessions.reads store {} call).head?.map (·.reply) =
      some { error := some .ioFailure, detail := ascii "disk" } := by decide +kernel
  obtain ⟨read, hhead, hread⟩ := Option.map_eq_some_iff.mp hreply
  have hmem : read ∈ sessions.reads store {} call := List.mem_of_mem_head? hhead
  have herror : read.reply.error = some .ioFailure := by rw [hread]
  have hnul : 0 ∉ read.reply.detail := by
    rw [hread]
    decide +kernel
  obtain ⟨_, hreads⟩ :=
    ((failed_read_ends_transfer_iff store.toReading store {}).2 sessions).2 [0, 4, 0, 1] peer 10
  exact ⟨read, hmem, herror, hnul, (hreads read hmem .ioFailure herror).1.mpr hnul⟩

/-- The first read fails with an explanation that holds a NUL. The request opens a
transfer that has sent nothing, waits for nothing, and stays. -/
theorem failed_read_with_nul_keeps_transfer :
    let store := scriptedReads [{ error := some .ioFailure, detail := [97, 0, 98] }]
    let peer := Endpoint.ipv4 192 168 1 20 50001
    let request := [0, 1] ++ ascii "a" ++ [0] ++ ascii "octet" ++ [0]
    let sessions : Sessions ReadRecord ScriptedStream := { world := [] }
    let call := Call.datagram request peer 0
    let outcome := sessions.call store {} call
    (∃ read ∈ sessions.reads store {} call, read.reply.error = some .ioFailure) ∧
      ¬ outcome.Fails peer Failure.ioFailure.errorCode ∧
      Action.datagrams outcome.actions = [] ∧
      ∃ transfer, outcome.sessions.table.find? peer = some transfer ∧
        transfer.isTerminal = false ∧ transfer.deadline = none := by
  intro store peer request sessions call outcome
  have hreply : (sessions.reads store {} call).head?.map (·.reply.error) =
      some (some .ioFailure) := by decide +kernel
  obtain ⟨read, hhead, herror⟩ := Option.map_eq_some_iff.mp hreply
  have hleft : (outcome.sessions.table.find? peer).map
      (fun transfer => (transfer.isTerminal, transfer.deadline)) = some (false, none) := by
    decide +kernel
  obtain ⟨transfer, hfind, hstate⟩ := Option.map_eq_some_iff.mp hleft
  obtain ⟨hopen, hdeadline⟩ := Prod.mk.inj hstate
  refine ⟨⟨read, List.mem_of_mem_head? hhead, herror⟩, fun hfails => ?_, by decide +kernel,
    transfer, hfind, hopen, hdeadline⟩
  exact nomatch hfind.symm.trans hfails.gone

end Sessions

end TftpServer
