import TftpServer.Proofs.Sessions.Actions
import TftpServer.Proofs.Sessions.Table
import TftpServer.Proofs.Transfer.Oblivious
import TftpServer.Sessions.Basic

/-! # Settling, refusing and expiring

What the parts of a call do to the table, by peer. Each concerns one peer and
leaves the transfers of all others alone, so the order in which timers run out
makes no difference to any of them.
-/

namespace TftpServer.Sessions

variable {ω σ : Type} (sessions : Sessions ω σ) (peer : Endpoint)

/-! ## Settling a step -/

theorem datagrams_closing (peer : Endpoint) (condition : Bool) (transfer : Transfer σ) :
    Action.datagrams (if condition then [closingNote peer transfer] else []) = [] := by
  cases condition with
  | false => rfl
  | true =>
      rw [if_pos rfl, closingNote]
      split <;> rfl

theorem reap_of_isTerminal {transfer : Transfer σ} (hfind : sessions.table.find? peer = some transfer)
    (hover : transfer.isTerminal = true) :
    sessions.reap peer =
      ({ sessions with table := sessions.table.erase peer }, [closingNote peer transfer]) := by
  simp only [reap, hfind, if_pos hover]

theorem reap_of_not_isTerminal {transfer : Transfer σ}
    (hfind : sessions.table.find? peer = some transfer) (hopen : transfer.isTerminal = false) :
    sessions.reap peer = (sessions, []) := by
  simp only [reap, hfind, hopen, Bool.false_eq_true, if_false]

/-- Whether a step takes its transfer out of the table: it ends the transfer,
and no fault cuts it short. -/
def closes (step : Step ω σ) : Bool :=
  step.fault.isNone && step.transfer.isTerminal

variable {sessions peer} (step : Step ω σ)

theorem settle_eq (hfind : (sessions.table.find? peer).isSome) :
    sessions.settle peer step =
      { sessions :=
          { table :=
              if closes step then (sessions.table.update peer step.transfer).erase peer
              else sessions.table.update peer step.transfer
            world := step.world }
        actions := step.sent.map (Action.send peer) ++
          if closes step then [closingNote peer step.transfer] else []
        fault := step.fault } := by
  have hupdated : (sessions.table.update peer step.transfer).find? peer = some step.transfer := by
    obtain ⟨current, hcurrent⟩ := Option.isSome_iff_exists.mp hfind
    rw [SessionTable.find?_update, if_pos rfl, hcurrent]
    rfl
  unfold settle closes
  -- From here on only the look-up in the updated table matters.
  generalize sessions.table.update peer step.transfer = table at hupdated ⊢
  cases hfault : step.fault with
  | some fault => simp
  | none =>
      cases hover : step.transfer.isTerminal with
      | true =>
          have hreap := reap_of_isTerminal ⟨table, step.world⟩ peer hupdated hover
          simp [hreap]
      | false =>
          have hreap := reap_of_not_isTerminal ⟨table, step.world⟩ peer hupdated hover
          simp [hreap]

section Settle

variable (hfind : (sessions.table.find? peer).isSome)

include hfind

theorem settle_fault : (sessions.settle peer step).fault = step.fault := by
  rw [settle_eq step hfind]

theorem settle_world : (sessions.settle peer step).sessions.world = step.world := by
  rw [settle_eq step hfind]

theorem settle_actions :
    (sessions.settle peer step).actions =
      step.sent.map (Action.send peer) ++
        if closes step then [closingNote peer step.transfer] else [] := by
  rw [settle_eq step hfind]

theorem settle_datagrams :
    Action.datagrams (sessions.settle peer step).actions = step.sent.map (peer, ·) := by
  rw [settle_actions step hfind, Action.datagrams_append, Action.datagrams_map_send,
    datagrams_closing peer, List.append_nil]

theorem settle_find?_self :
    (sessions.settle peer step).sessions.table.find? peer =
      if closes step then none else some step.transfer := by
  rw [settle_eq step hfind]
  obtain ⟨current, hcurrent⟩ := Option.isSome_iff_exists.mp hfind
  dsimp only
  split
  · rw [SessionTable.find?_erase, if_pos rfl]
  · rw [SessionTable.find?_update, if_pos rfl, hcurrent]
    rfl

theorem settle_find?_other {other : Endpoint} (hother : other ≠ peer) :
    (sessions.settle peer step).sessions.table.find? other = sessions.table.find? other := by
  rw [settle_eq step hfind]
  dsimp only
  split
  · rw [SessionTable.find?_erase, if_neg hother, SessionTable.find?_update, if_neg hother]
  · rw [SessionTable.find?_update, if_neg hother]

theorem settle_uniquePeers (hunique : sessions.table.UniquePeers) :
    (sessions.settle peer step).sessions.table.UniquePeers := by
  have hupdated : (sessions.table.update peer step.transfer).UniquePeers := by
    rw [SessionTable.UniquePeers, SessionTable.map_fst_update]
    exact hunique
  rw [settle_eq step hfind]
  dsimp only
  split
  · exact hupdated.erase peer
  · exact hupdated

/-- Whatever all other transfers have in common is kept, and the one that the
step left has to have it unless it is over. -/
theorem settle_forall {good : Transfer σ → Prop}
    (hgood : ∀ entry ∈ sessions.table, entry.1 ≠ peer → good entry.2)
    (hstep : closes step = false → good step.transfer) :
    ∀ entry ∈ (sessions.settle peer step).sessions.table, good entry.2 := by
  intro entry hentry
  rw [settle_eq step hfind] at hentry
  dsimp only at hentry
  split at hentry
  next =>
    obtain ⟨hmem, hkept⟩ := List.mem_filter.mp hentry
    rcases SessionTable.mem_update hmem with hnew | hold
    · exact absurd hnew.1 (of_decide_eq_true hkept)
    · exact hgood entry hold.2 hold.1
  next hopen =>
    rcases SessionTable.mem_update hentry with hnew | hold
    · rw [hnew.2]
      exact hstep (Bool.eq_false_iff.mpr hopen)
    · exact hgood entry hold.2 hold.1

end Settle

/-- Two steps that agree are settled alike, whatever else the tables hold. -/
theorem settle_congr {first second : Sessions ω σ} {step other : Step ω σ}
    (hfirst : (first.table.find? peer).isSome) (hsecond : (second.table.find? peer).isSome)
    (hagree : step.Agrees other) :
    (first.settle peer step).sessions.table.find? peer =
        (second.settle peer other).sessions.table.find? peer ∧
      (first.settle peer step).actions = (second.settle peer other).actions := by
  have hcloses : closes step = closes other := by
    rw [closes, closes, hagree.transfer, hagree.fault]
  rw [settle_find?_self step hfirst, settle_find?_self other hsecond,
    settle_actions step hfirst, settle_actions other hsecond, hcloses, hagree.transfer, hagree.sent]
  exact ⟨rfl, rfl⟩

/-! ## Refusing -/

theorem refuse_eq (sessions : Sessions ω σ) (peer : Endpoint) (note : Octets) (code : ErrorCode)
    {text : Octets} (htext : 0 ∉ text) :
    ∃ datagram, encode (.error code text) = .ok datagram ∧
      sessions.refuse peer note code text =
        { sessions, actions := [.note .info note, .reply peer code datagram] } := by
  refine ⟨_, encode_error htext, ?_⟩
  simp only [refuse, encode_error htext]

theorem refuse_sessions (sessions : Sessions ω σ) (peer : Endpoint) (note : Octets)
    (code : ErrorCode) (text : Octets) :
    (sessions.refuse peer note code text).sessions = sessions := by
  unfold refuse
  split <;> rfl

theorem refuse_datagrams (sessions : Sessions ω σ) (peer : Endpoint) (note : Octets)
    (code : ErrorCode) (text : Octets) :
    Action.datagrams (sessions.refuse peer note code text).actions =
      (encode (.error code text)).toOption.toList.map (peer, ·) := by
  unfold refuse
  split
  next hencode =>
    rw [hencode]
    rfl
  next hencode =>
    rw [hencode]
    rfl

theorem refuse_actions (first second : Sessions ω σ) (peer : Endpoint) (note : Octets)
    (code : ErrorCode) (text : Octets) :
    (first.refuse peer note code text).actions = (second.refuse peer note code text).actions := by
  unfold refuse
  split <;> rfl

/-! ## Expiring -/

@[simp] theorem datagrams_timeoutNote_cons (peer : Endpoint) (transfer : Transfer σ)
    (rest : List Action) :
    Action.datagrams (timeoutNote peer transfer :: rest) = Action.datagrams rest := rfl

section Expire

variable (sessions : Sessions ω σ) (peer : Endpoint) (now : Time)

theorem expire_of_none (hfind : sessions.table.find? peer = none) :
    sessions.expire peer now = { sessions } := by
  simp only [expire, hfind]

theorem expire_of_some {transfer : Transfer σ} (hfind : sessions.table.find? peer = some transfer) :
    sessions.expire peer now =
      { sessions.settle peer (transfer.timeout sessions.world now) with
        actions := timeoutNote peer transfer ::
          (sessions.settle peer (transfer.timeout sessions.world now)).actions } := by
  simp only [expire, hfind]

theorem expire_fault : (sessions.expire peer now).fault = none := by
  cases hfind : sessions.table.find? peer with
  | none => rw [expire_of_none sessions peer now hfind]
  | some transfer =>
      rw [expire_of_some sessions peer now hfind]
      exact (settle_fault _ (by simp [hfind])).trans (transfer.timeout_fault _ now)

theorem expire_world : (sessions.expire peer now).sessions.world = sessions.world := by
  cases hfind : sessions.table.find? peer with
  | none => rw [expire_of_none sessions peer now hfind]
  | some transfer =>
      rw [expire_of_some sessions peer now hfind]
      exact (settle_world _ (by simp [hfind])).trans (transfer.timeout_world _ now)

theorem expire_find?_other {other : Endpoint} (hother : other ≠ peer) :
    (sessions.expire peer now).sessions.table.find? other = sessions.table.find? other := by
  cases hfind : sessions.table.find? peer with
  | none => rw [expire_of_none sessions peer now hfind]
  | some transfer =>
      rw [expire_of_some sessions peer now hfind]
      exact settle_find?_other _ (by simp [hfind]) hother

theorem expire_datagrams_other {other : Endpoint} (hother : other ≠ peer) :
    (Action.datagrams (sessions.expire peer now).actions).to other = [] := by
  cases hfind : sessions.table.find? peer with
  | none => rw [expire_of_none sessions peer now hfind]; rfl
  | some transfer =>
      rw [expire_of_some sessions peer now hfind]
      dsimp only
      rw [datagrams_timeoutNote_cons, settle_datagrams _ (by simp [hfind])]
      exact SendRecord.to_map_other hother _

theorem expire_uniquePeers (hunique : sessions.table.UniquePeers) :
    (sessions.expire peer now).sessions.table.UniquePeers := by
  cases hfind : sessions.table.find? peer with
  | none =>
      rw [expire_of_none sessions peer now hfind]
      exact hunique
  | some transfer =>
      rw [expire_of_some sessions peer now hfind]
      exact settle_uniquePeers _ (by simp [hfind]) hunique

end Expire

theorem expire_congr {first second : Sessions ω σ}
    (hfind : first.table.find? peer = second.table.find? peer) (now : Time) :
    (first.expire peer now).sessions.table.find? peer =
        (second.expire peer now).sessions.table.find? peer ∧
      (first.expire peer now).actions = (second.expire peer now).actions := by
  cases hsecond : second.table.find? peer with
  | none =>
      rw [expire_of_none first peer now (hfind.trans hsecond), expire_of_none second peer now hsecond]
      exact ⟨hfind, rfl⟩
  | some transfer =>
      have hfirst := hfind.trans hsecond
      obtain ⟨hafter, hactions⟩ := settle_congr (by rw [hfirst]; rfl) (by rw [hsecond]; rfl)
        (transfer.timeout_agrees first.world second.world now)
      rw [expire_of_some first peer now hfirst, expire_of_some second peer now hsecond]
      exact ⟨hafter, congrArg (timeoutNote peer transfer :: ·) hactions⟩

section ExpireAll

variable (sessions : Sessions ω σ) (now : Time)

/-- Since no timer faults, none of the peers is left out. -/
theorem expireAll_cons (peer : Endpoint) (rest : List Endpoint) :
    sessions.expireAll now (peer :: rest) =
      { (sessions.expire peer now).sessions.expireAll now rest with
        actions := (sessions.expire peer now).actions ++
          ((sessions.expire peer now).sessions.expireAll now rest).actions } := by
  simp only [expireAll, expire_fault]

theorem expireAll_fault (peers : List Endpoint) : (sessions.expireAll now peers).fault = none := by
  induction peers generalizing sessions with
  | nil => rfl
  | cons peer rest ih =>
      rw [expireAll_cons]
      exact ih _

/-- What each timer keeps, and what each of its actions has, holds for all of
them together. -/
theorem expireAll_induction (invariant : Sessions ω σ → Prop) {good : Action → Prop} {now : Time}
    (hexpire : ∀ sessions peer, invariant sessions →
      invariant (sessions.expire peer now).sessions ∧
        ∀ action ∈ (sessions.expire peer now).actions, good action)
    {sessions : Sessions ω σ} (hstart : invariant sessions) (peers : List Endpoint) :
    invariant (sessions.expireAll now peers).sessions ∧
      ∀ action ∈ (sessions.expireAll now peers).actions, good action := by
  induction peers generalizing sessions with
  | nil => exact ⟨hstart, fun action hmem => nomatch hmem⟩
  | cons peer rest ih =>
      obtain ⟨hfirst, hactions⟩ := hexpire sessions peer hstart
      obtain ⟨hlater, hrest⟩ := ih hfirst
      rw [expireAll_cons]
      refine ⟨hlater, fun action hmem => ?_⟩
      rcases List.mem_append.mp hmem with hmem | hmem
      · exact hactions action hmem
      · exact hrest action hmem

theorem expireAll_world (peers : List Endpoint) :
    (sessions.expireAll now peers).sessions.world = sessions.world := by
  induction peers generalizing sessions with
  | nil => rfl
  | cons peer rest ih =>
      rw [expireAll_cons]
      exact (ih _).trans (sessions.expire_world peer now)

theorem expireAll_uniquePeers (hunique : sessions.table.UniquePeers) (peers : List Endpoint) :
    (sessions.expireAll now peers).sessions.table.UniquePeers :=
  (expireAll_induction (fun sessions => sessions.table.UniquePeers)
    (fun sessions peer hunique => ⟨sessions.expire_uniquePeers peer now hunique, fun _ _ => trivial⟩)
    hunique peers).1

/-- A peer that is not among them keeps its transfer and is sent nothing. -/
theorem expireAll_of_notMem {peer : Endpoint} {peers : List Endpoint} (hmem : peer ∉ peers) :
    (sessions.expireAll now peers).sessions.table.find? peer = sessions.table.find? peer ∧
      (Action.datagrams (sessions.expireAll now peers).actions).to peer = [] := by
  induction peers generalizing sessions with
  | nil => exact ⟨rfl, rfl⟩
  | cons other rest ih =>
      have hne := List.ne_of_not_mem_cons hmem
      have hrest := List.not_mem_of_not_mem_cons hmem
      obtain ⟨hfind, hsent⟩ := ih (sessions.expire other now).sessions hrest
      rw [expireAll_cons]
      refine ⟨hfind.trans (sessions.expire_find?_other other now hne), ?_⟩
      rw [Action.datagrams_append, SendRecord.to_append, hsent,
        sessions.expire_datagrams_other other now hne, List.append_nil]

/-- A peer among them times out once, as if it were the only one, wherever it
stands. -/
theorem expireAll_of_mem {peer : Endpoint} {peers : List Endpoint} (hnodup : peers.Nodup)
    (hmem : peer ∈ peers) :
    (sessions.expireAll now peers).sessions.table.find? peer =
        (sessions.expire peer now).sessions.table.find? peer ∧
      (Action.datagrams (sessions.expireAll now peers).actions).to peer =
        (Action.datagrams (sessions.expire peer now).actions).to peer := by
  induction peers generalizing sessions with
  | nil => cases hmem
  | cons other rest ih =>
      obtain ⟨hfresh, hrest⟩ := List.nodup_cons.mp hnodup
      rw [expireAll_cons]
      dsimp only
      rw [Action.datagrams_append, SendRecord.to_append]
      by_cases heq : peer = other
      · subst heq
        -- The timers behind it belong to other peers, as it occurs only once.
        obtain ⟨hfind, hsent⟩ :=
          (sessions.expire peer now).sessions.expireAll_of_notMem now hfresh
        exact ⟨hfind, by rw [hsent, List.append_nil]⟩
      · -- The timer before it belongs to another peer.
        have hmem : peer ∈ rest := (List.mem_cons.mp hmem).resolve_left heq
        obtain ⟨hfind, hsent⟩ := ih (sessions.expire other now).sessions hrest hmem
        obtain ⟨hafter, hactions⟩ :=
          expire_congr (sessions.expire_find?_other other now heq) now
        rw [hfind, hsent, sessions.expire_datagrams_other other now heq, List.nil_append]
        exact ⟨hafter, by rw [hactions]⟩

end ExpireAll

end TftpServer.Sessions
