import TftpServer.Proofs.Sessions.Calls
import TftpServer.Proofs.Transfer.View

/-! # Sessions in a larger world

Calls on sessions whose store lives in a part of a larger world have the outcome
that they have in that part alone.
-/

namespace TftpServer

variable {ω τ σ : Type}

/-- The same sessions with another view of the world. -/
def Sessions.map (view : τ → ω) (sessions : Sessions τ σ) : Sessions ω σ where
  table := sessions.table
  world := view sessions.world

/-- The same outcome with another view of the world. -/
def Outcome.map (view : τ → ω) (outcome : Outcome τ σ) : Outcome ω σ where
  sessions := outcome.sessions.map view
  actions := outcome.actions
  fault := outcome.fault

/-- The same outcome after some more actions. -/
def Outcome.after (actions : List Action) (outcome : Outcome ω σ) : Outcome ω σ :=
  { outcome with actions := actions ++ outcome.actions }

namespace Sessions

variable (view : τ → ω) (sessions : Sessions τ σ) (peer : Endpoint)

theorem reap_map :
    ((sessions.map view).reap peer) =
      ((sessions.reap peer).1.map view, (sessions.reap peer).2) := by
  simp only [reap, map]
  split
  · rfl
  · split <;> rfl

theorem settle_map (step : Step τ σ) :
    (sessions.settle peer step).map view = (sessions.map view).settle peer (step.map view) := by
  have hreap := reap_map view
    { table := sessions.table.update peer step.transfer, world := step.world } peer
  simp only [map] at hreap
  simp only [settle, Step.map, map, hreap]
  split <;> rfl

theorem refuse_map (note : Octets) (code : ErrorCode) (text : Octets) :
    (sessions.refuse peer note code text).map view =
      (sessions.map view).refuse peer note code text := by
  unfold refuse
  split <;> rfl

theorem expire_map (now : Time) :
    (sessions.expire peer now).map view = (sessions.map view).expire peer now := by
  cases hfind : sessions.table.find? peer with
  | none =>
      rw [expire_of_none sessions peer now hfind, expire_of_none (sessions.map view) peer now hfind]
      rfl
  | some transfer =>
      have hsettle := sessions.settle_map view peer (transfer.timeout sessions.world now)
      rw [transfer.timeout_map view] at hsettle
      rw [expire_of_some sessions peer now hfind,
        expire_of_some (sessions.map view) peer now hfind]
      exact congrArg (Outcome.after [timeoutNote peer transfer]) hsettle

theorem expireAll_map (now : Time) (peers : List Endpoint) :
    (sessions.expireAll now peers).map view = (sessions.map view).expireAll now peers := by
  induction peers generalizing sessions with
  | nil => rfl
  | cons peer rest ih =>
      rw [expireAll_cons, expireAll_cons, ← expire_map]
      exact congrArg (Outcome.after (sessions.expire peer now).actions)
        (ih (sessions.expire peer now).sessions)

section Carries

variable {view} {outer : Store τ σ} {inner : Store ω σ} (hstore : outer.Carries view inner)
  (config : EngineConfig)

include hstore

theorem handleRequest_map (opcode : Opcode) (request : Request) (now : Time) :
    (sessions.handleRequest outer config peer opcode request now).map view =
      (sessions.map view).handleRequest inner config peer opcode request now := by
  have hopen := hstore.openStream request.filename request.mode sessions.world
  rcases houter : outer.openStream request.filename request.mode sessions.world with ⟨opened, after⟩
  simp only [houter] at hopen
  unfold handleRequest
  simp only [houter, map, hopen]
  split
  · exact refuse_map view _ _ _ _ _
  · split
    · exact refuse_map view _ _ _ _ _
    · split
      next source _ _ =>
        rw [hstore.reading.length source after]
        generalize Transfer.create peer source _ _ = transfer
        have hstart := (Transfer.start_demands transfer now).map hstore.reading after
        have hsettle := settle_map view ⟨(peer, transfer) :: sessions.table, after⟩ peer
          (transfer.start outer.toReading after now)
        rw [hstart] at hsettle
        exact congrArg (Outcome.after [_]) hsettle
      · exact refuse_map view _ _ _ _ _

theorem receive_map (datagram : Octets) (now : Time) :
    (sessions.receive outer config datagram peer now).map view =
      (sessions.map view).receive inner config datagram peer now := by
  unfold receive
  simp only [map]
  split
  next transfer defect hfind hdecode =>
    rw [settle_map, (Transfer.receiveMalformed_demands transfer _).map hstore.reading]
    rfl
  next transfer message hfind hdecode =>
    split
    · rfl
    · rw [settle_map, (Transfer.receive_demands transfer message now).map hstore.reading]
      rfl
  next => rfl
  next message hfind hdecode =>
    split
    · exact handleRequest_map sessions peer hstore config _ _ now
    · exact handleRequest_map sessions peer hstore config _ _ now
    · rfl
    · rfl
    · rfl

theorem call_map (call : Call) :
    (sessions.call outer config call).map view = (sessions.map view).call inner config call := by
  cases call with
  | datagram octets peer now => exact receive_map sessions peer hstore config octets now
  | tick now walk => exact expireAll_map view sessions now _

end Carries

end Sessions

end TftpServer
