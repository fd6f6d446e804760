import TftpServer.Proofs.Sessions.Settling
import TftpServer.Proofs.Transfer.Live

/-! # Calls on the sessions

The sessions are driven by datagrams and ticks, in any order and at any times.
A tick may visit the transfers whose timers have run out in any order, since the
order in which a table is walked is not fixed. Everything that a datagram can
come to is listed once, for whatever has to hold after every call.
-/

namespace TftpServer

open Text

variable {ω σ : Type}

/-- An order in which a table is walked. -/
structure Walk where
  order : List Endpoint → List Endpoint
  perm : ∀ peers, (order peers).Perm peers

def Walk.inOrder : Walk := ⟨id, List.Perm.refl⟩

/-- What drives the sessions: datagrams, and ticks with the order in which they
visit the transfers. -/
inductive Call where
  | datagram (octets : Octets) (peer : Endpoint) (now : Time)
  | tick (now : Time) (walk : Walk)

namespace Sessions

def call (store : Store ω σ) (config : EngineConfig) (sessions : Sessions ω σ) :
    Call → Outcome ω σ
  | .datagram octets peer now => sessions.receive store config octets peer now
  | .tick now walk => sessions.expireAll now (walk.order (sessions.table.expired now))

def run (store : Store ω σ) (config : EngineConfig) (sessions : Sessions ω σ)
    (calls : List Call) : Sessions ω σ :=
  calls.foldl (fun sessions call => (sessions.call store config call).sessions) sessions

theorem run_induction (invariant : Sessions ω σ → Prop) {store : Store ω σ} {config : EngineConfig}
    (hcall : ∀ sessions call, invariant sessions →
      invariant (sessions.call store config call).sessions)
    {sessions : Sessions ω σ} (hstart : invariant sessions) (calls : List Call) :
    invariant (sessions.run store config calls) := by
  unfold run
  induction calls generalizing sessions with
  | nil => exact hstart
  | cons call rest ih => exact ih (hcall sessions call hstart)

/-! ## Receiving a datagram -/

/-- The event that a datagram is to a running transfer. -/
def eventOf (datagram : Octets) (now : Time) : Transfer.Event :=
  match decode datagram with
  | .ok message => .packet message now
  | .error defect => .malformed (.defect defect)

theorem coherent_of_eventOf {datagram : Octets} {now later : Time} {message : Message}
    (hevent : eventOf datagram now = .packet message later) : message.Coherent := by
  unfold eventOf at hevent
  split at hevent
  next decoded hdecode =>
    cases hevent
    exact coherent_of_decode hdecode
  next => cases hevent

/-- Adds the transfer of a peer that has none, and starts it. -/
def enroll (store : Store ω σ) (sessions : Sessions ω σ) (peer : Endpoint) (transfer : Transfer σ)
    (world : ω) (now : Time) : Outcome ω σ :=
  { table := (peer, transfer) :: sessions.table, world : Sessions ω σ }.settle peer
    (transfer.start store.toReading world now)

/-- What a datagram from a peer comes to. -/
inductive Receipt (store : Store ω σ) (config : EngineConfig) (sessions : Sessions ω σ)
    (datagram : Octets) (peer : Endpoint) (now : Time) : Outcome ω σ → Prop where
  -- The peer's transfer takes it.
  | handled (transfer : Transfer σ) (hfind : sessions.table.find? peer = some transfer) :
      Receipt store config sessions datagram peer now
        (sessions.settle peer
          (transfer.handle store.toReading sessions.world (eventOf datagram now)))
  -- It is worth a message and nothing else.
  | noted (level : LogLevel) (note : Octets) (hnote : Printable note) :
      Receipt store config sessions datagram peer now { sessions, actions := [.note level note] }
  -- It is a request that is refused, in the words of the server or of the store.
  | refused (opcode : Opcode) (request : Request) (world : ω) (note : Octets) (code : ErrorCode)
      (text : Octets) (hfind : sessions.table.find? peer = none)
      (hdecode : decode datagram = .ok ⟨opcode, .request request⟩)
      (hworld : world = sessions.world ∨
        world = (store.openStream request.filename request.mode sessions.world).2)
      (htext : ∀ good : Octets → Prop, (∀ text, Printable text → Tellable text → good text) →
        store.Explains good → good text)
      (hnote : Printable text → Printable note) :
      Receipt store config sessions datagram peer now
        ({ sessions with world }.refuse peer note code text)
  -- It is a request that opens a stream.
  | opened (request : Request) (opened : Opened σ) (source : σ) (world : ω) (note : Octets)
      (hfind : sessions.table.find? peer = none)
      (hdecode : decode datagram = .ok ⟨.rrq, .request request⟩)
      (hopen : store.openStream request.filename request.mode sessions.world = (opened, world))
      (herror : opened.error = none) (hsource : opened.stream = some source)
      (hnote : Printable note) :
      Receipt store config sessions datagram peer now
        (let transfer := Transfer.ofRequest config peer source (store.length source world)
          request.options
        let outcome := sessions.enroll store peer transfer world now
        { outcome with actions := .note .info note :: outcome.actions })

theorem printable_acceptedNote (name : Octets) (mode : Mode) (peer : Endpoint)
    (accepted : Acceptance) (settings : Settings) :
    Printable (acceptedNote (escapeForLog name) mode peer accepted settings) := by
  simp only [acceptedNote, printable_append, printable_escapeForLog, Mode.printable_name,
    Endpoint.printable_text, printable_decimal, printable_signedDecimal, and_true]
  decide +kernel

theorem handleRequest_receipt (store : Store ω σ) (config : EngineConfig) (sessions : Sessions ω σ)
    {datagram : Octets} {peer : Endpoint} {opcode : Opcode} {request : Request} (now : Time)
    (hfind : sessions.table.find? peer = none)
    (hdecode : decode datagram = .ok ⟨opcode, .request request⟩) :
    Receipt store config sessions datagram peer now
      (sessions.handleRequest store config peer opcode request now) := by
  have hcoherent := coherent_of_decode hdecode
  unfold handleRequest
  dsimp only
  split
  next =>
    refine .refused opcode request sessions.world _ _ _ hfind hdecode (Or.inl rfl)
      (fun good hgood _ => hgood _ (by decide) (by decide)) fun _ => ?_
    simp only [printable_append, printable_escapeForLog, Endpoint.printable_text, and_true]
    decide
  next hread =>
    obtain rfl : opcode = .rrq := by
      cases hcoherent with
      | rrq => rfl
      | wrq => exact absurd rfl hread
    split
    next =>
      refine .refused _ request sessions.world _ _ _ hfind hdecode (Or.inl rfl)
        (fun good hgood _ => hgood _ (by decide) (by decide)) fun _ => ?_
      simp only [printable_append, printable_escapeForLog, Endpoint.printable_text, and_true]
      decide +kernel
    next =>
      split
      next source herror hsource =>
        exact .opened request _ source _ _ hfind hdecode rfl herror hsource
          (printable_acceptedNote _ _ _ _ _)
      next error stream hother =>
        refine .refused _ request _ _ _ _ hfind hdecode (Or.inr rfl)
          (fun good hgood hexplained => ?_) fun htext => ?_
        · split
          · exact hgood _ (ErrorCode.printable_text _) (ErrorCode.tellable_text _)
          · refine hexplained.opening _ _ _ ?_
            rcases hstream : (store.openStream request.filename request.mode sessions.world).1.stream
              with _ | source
            · exact Or.inr rfl
            · exact Or.inl fun herror => hother source herror hstream
        · simp only [printable_append, printable_escapeForLog, Endpoint.printable_text, htext,
            and_true]
          decide

theorem receive_receipt (store : Store ω σ) (config : EngineConfig) (sessions : Sessions ω σ)
    (datagram : Octets) (peer : Endpoint) (now : Time) :
    Receipt store config sessions datagram peer now
      (sessions.receive store config datagram peer now) := by
  unfold receive
  split
  next transfer defect hfind hdecode =>
    have hevent : eventOf datagram now = .malformed (.defect defect) := by
      rw [eventOf, hdecode]
    have hhandled : Receipt store config sessions datagram peer now _ := .handled transfer hfind
    rw [hevent] at hhandled
    exact hhandled
  next transfer message hfind hdecode =>
    split
    · refine .noted .debug _ ?_
      simp only [printable_append, Endpoint.printable_text, and_true]
      decide
    · have hevent : eventOf datagram now = .packet message now := by
        rw [eventOf, hdecode]
      have hhandled : Receipt store config sessions datagram peer now _ := .handled transfer hfind
      rw [hevent] at hhandled
      exact hhandled
  next defect hfind hdecode =>
    refine .noted .warning _ ?_
    simp only [printable_append, Endpoint.printable_text, DecodeStatus.printable_name, and_true]
    decide
  next message hfind hdecode =>
    -- The decoder pairs requests with the opcodes of requests only.
    cases hcoherent : coherent_of_decode hdecode with
    | rrq request => exact handleRequest_receipt store config sessions now hfind hdecode
    | wrq request => exact handleRequest_receipt store config sessions now hfind hdecode
    | data | ack | error | oack =>
        refine .noted .debug _ ?_
        simp only [printable_append, Endpoint.printable_text, Opcode.printable_name, and_true]
        decide

/-- A request that opens a stream adds its transfer and starts it. -/
theorem receive_of_opened {store : Store ω σ} {sessions : Sessions ω σ} {peer : Endpoint}
    (config : EngineConfig) (hfind : sessions.table.find? peer = none) {octets : Octets}
    {request : Request} (hdecode : decode octets = .ok ⟨.rrq, .request request⟩)
    (hmode : request.mode ≠ .mail) {opened : Opened σ} {source : σ} {world : ω}
    (hopen : store.openStream request.filename request.mode sessions.world = (opened, world))
    (herror : opened.error = none) (hsource : opened.stream = some source) (now : Time) :
    let transfer := Transfer.ofRequest config peer source (store.length source world) request.options
    let started := sessions.enroll store peer transfer world now
    ∃ note, sessions.receive store config octets peer now =
      { started with actions := .note .info note :: started.actions } := by
  simp only [receive, hfind, hdecode, handleRequest, hopen, herror, hsource, if_neg hmode,
    reduceCtorEq, if_false]
  exact ⟨_, rfl⟩

/-! ## What a call leaves of the table -/

section Table

variable {store : Store ω σ} {config : EngineConfig} {sessions : Sessions ω σ} {peer : Endpoint}

theorem receive_uniquePeers (hunique : sessions.table.UniquePeers) (datagram : Octets)
    (peer : Endpoint) (now : Time) :
    (sessions.receive store config datagram peer now).sessions.table.UniquePeers := by
  have hreceipt := receive_receipt store config sessions datagram peer now
  generalize sessions.receive store config datagram peer now = outcome at hreceipt
  cases hreceipt with
  | handled transfer hfind => exact settle_uniquePeers _ (by simp [hfind]) hunique
  | noted level note hnote => exact hunique
  | refused opcode request world note code text hfind hdecode hworld htext hnote =>
      rw [refuse_sessions]
      exact hunique
  | opened request opened source world note hfind hdecode hopen herror hsource hnote =>
      apply settle_uniquePeers
      · simp
      · exact hunique.cons hfind _

theorem call_uniquePeers (hunique : sessions.table.UniquePeers) (call : Call) :
    (sessions.call store config call).sessions.table.UniquePeers := by
  cases call with
  | datagram octets origin now => exact receive_uniquePeers hunique octets origin now
  | tick now walk => exact expireAll_uniquePeers sessions now hunique _

theorem receive_find?_other (store : Store ω σ) (config : EngineConfig) (sessions : Sessions ω σ)
    (datagram : Octets) {origin : Endpoint} (hother : peer ≠ origin) (now : Time) :
    (sessions.receive store config datagram origin now).sessions.table.find? peer =
      sessions.table.find? peer := by
  have hreceipt := receive_receipt store config sessions datagram origin now
  generalize sessions.receive store config datagram origin now = outcome at hreceipt
  cases hreceipt with
  | handled transfer hfind => exact settle_find?_other _ (by simp [hfind]) hother
  | noted level note hnote => rfl
  | refused opcode request world note code text hfind hdecode hworld htext hnote =>
      rw [refuse_sessions]
  | opened request opened source world note hfind hdecode hopen herror hsource hnote =>
      refine (settle_find?_other _ (by simp) hother).trans ?_
      rw [SessionTable.find?_cons, if_neg hother]

/-- Whatever a datagram comes to, only its origin is answered. -/
theorem receive_datagrams_map (store : Store ω σ) (config : EngineConfig) (sessions : Sessions ω σ)
    (datagram : Octets) (origin : Endpoint) (now : Time) :
    ∃ sent : List Octets, Action.datagrams (sessions.receive store config datagram origin now).actions =
      sent.map (origin, ·) := by
  have hreceipt := receive_receipt store config sessions datagram origin now
  generalize sessions.receive store config datagram origin now = outcome at hreceipt
  cases hreceipt with
  | handled transfer hfind => exact ⟨_, settle_datagrams _ (by simp [hfind])⟩
  | noted level note hnote => exact ⟨[], rfl⟩
  | refused opcode request world note code text hfind hdecode hworld htext hnote =>
      exact ⟨_, refuse_datagrams _ origin note code text⟩
  | opened request opened source world note hfind hdecode hopen herror hsource hnote =>
      exact ⟨_, settle_datagrams _ (by simp)⟩

theorem receive_datagrams_other (store : Store ω σ) (config : EngineConfig) (sessions : Sessions ω σ)
    (datagram : Octets) {origin : Endpoint} (hother : peer ≠ origin) (now : Time) :
    (Action.datagrams (sessions.receive store config datagram origin now).actions).to peer = [] := by
  obtain ⟨sent, hsent⟩ := receive_datagrams_map store config sessions datagram origin now
  rw [hsent]
  exact SendRecord.to_map_other hother sent

end Table

/-! ## What a call leaves of the world -/

section Essence

variable {τ : Type} {store : Store ω σ} {essence : ω → τ}

theorem receive_essence (config : EngineConfig) (hsteady : store.Steady essence)
    (sessions : Sessions ω σ) (datagram : Octets) (peer : Endpoint) (now : Time) :
    essence (sessions.receive store config datagram peer now).sessions.world =
      essence sessions.world := by
  have hreceipt := receive_receipt store config sessions datagram peer now
  generalize sessions.receive store config datagram peer now = outcome at hreceipt ⊢
  cases hreceipt with
  | handled transfer hfind =>
      exact (congrArg essence (settle_world _ (by simp [hfind]))).trans
        ((transfer.handle_oblivious hsteady.reading _).keeps sessions.world)
  | noted level note hnote => rfl
  | refused opcode request world note code text hfind hdecode hworld htext hnote =>
      rw [refuse_sessions]
      rcases hworld with rfl | rfl
      · rfl
      · exact hsteady.open_essence _ _ _
  | opened request opened source world note hfind hdecode hopen herror hsource hnote =>
      have hkept : essence world = essence sessions.world := by
        rw [← hsteady.open_essence request.filename request.mode sessions.world, hopen]
      refine (congrArg essence (settle_world _ (by simp))).trans ?_
      exact ((Transfer.start_oblivious _ hsteady.reading now).keeps world).trans hkept

theorem call_essence (config : EngineConfig) (hsteady : store.Steady essence)
    (sessions : Sessions ω σ) (call : Call) :
    essence (sessions.call store config call).sessions.world = essence sessions.world := by
  cases call with
  | datagram octets peer now => exact receive_essence config hsteady sessions octets peer now
  | tick now walk => exact congrArg essence (sessions.expireAll_world now _)

end Essence

end Sessions

end TftpServer
