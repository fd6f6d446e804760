import TftpServer.Proofs.Negotiation.Resolution
import TftpServer.Proofs.Sessions.History
import TftpServer.Proofs.Sessions.Isolation
import TftpServer.Proofs.Transfer.Restraint

/-! # Ticks

A tick lets the timer of every transfer run out whose deadline has passed, once and
wherever it stands in the table, and no other. What is left of the table does not
depend on the order in which it is walked, and afterwards every deadline is ahead,
since a timeout is never shorter than a second. That is so as long as 64 bits can hold
the ends of the timeouts: a deadline behind them comes out in the past.
-/

namespace TftpServer

variable {ω σ χ : Type}

/-! ## Timers that run out -/

namespace Transfer

/-- A timer that runs out repeats the datagram in flight, unless the retries are used
up. -/
theorem Live.timeout_eq {transfer : Transfer σ} (hlive : transfer.Live) (world : ω) (now : Time) :
    (transfer.timeout world now).transfer.remaining =
      if transfer.settings.retryLimit ≤ transfer.retries then none
      else some { transfer with
        retries := transfer.retries + 1
        deadline := some (now.later (seconds transfer.settings.timeout.toInt)) } := by
  have hactive : ¬ (transfer.isTerminal = true ∨ transfer.inFlight = []) := by
    simp [hlive.isTerminal_eq_false, hlive.inFlight]
  rw [timeout, if_neg hactive]
  split
  · rfl
  · exact remaining_of_open hlive.isTerminal_eq_false

/-- The timeout of a transfer is a second at least, and the default if it is longer than
any that can be asked for. -/
theorem ofRequest_timeout_bounds (config : EngineConfig) (hdefault : 1 ≤ config.defaultTimeout)
    (peer : Endpoint) (source : σ) (length : Option UInt64) (requested : List OptionField) :
    let timeout := (ofRequest config peer source length requested).settings.timeout.toInt
    1 ≤ timeout ∧ timeout ≤ max 255 config.defaultTimeout.toInt := by
  show 1 ≤ (resolveSettings _ _ _).timeout.toInt ∧ (resolveSettings _ _ _).timeout.toInt ≤ _
  unfold resolveSettings
  dsimp only
  split
  next timeout htimeout =>
    obtain ⟨value, _, hresolve⟩ := Option.bind_eq_some_iff.mp htimeout
    obtain ⟨_, _, hlower, hupper⟩ := config.limits.resolveTimeout_eq_some_iff.mp hresolve
    rw [Int64.toInt_ofNat_of_lt (timeout.toNat_lt.trans (by decide))]
    omega
  next => exact ⟨Int64.le_iff_toInt_le.mp hdefault, Int.le_max_right _ _⟩

end Transfer

namespace Sessions

variable {store : Store ω σ} {config : EngineConfig} {sessions : Sessions ω σ}

/-! ## What is left of the table -/

theorem settle_table {peer : Endpoint} (step : Step ω σ)
    (hfind : (sessions.table.find? peer).isSome) :
    (sessions.settle peer step).sessions.table =
      sessions.table.filterMap fun entry =>
        if entry.1 = peer then if closes step then none else some (entry.1, step.transfer)
        else some entry := by
  rw [settle_eq step hfind]
  dsimp only
  generalize sessions.table = table
  cases closes step with
  | true =>
      rw [if_pos rfl, SessionTable.erase, SessionTable.update, List.filter_map,
        ← List.filterMap_eq_filter, List.map_filterMap]
      refine List.filterMap_congr fun entry _ => ?_
      by_cases heq : entry.1 = peer <;> simp [heq, Option.guard]
  | false =>
      rw [if_neg Bool.false_ne_true, SessionTable.update, ← List.filterMap_eq_map]
      refine List.filterMap_congr fun entry _ => ?_
      by_cases heq : entry.1 = peer <;> simp [heq]

/-- What is left of an entry after the timers of some peers have run out. -/
def leftOf (world : ω) (now : Time) (peers : List Endpoint) (entry : Endpoint × Transfer σ) :
    Option (Endpoint × Transfer σ) :=
  if entry.1 ∈ peers then (entry.2.timeout world now).transfer.remaining.map (entry.1, ·)
  else some entry

section LeftOf

variable (world : ω) (now : Time) {peers : List Endpoint} {entry : Endpoint × Transfer σ}

theorem leftOf_of_mem (hmem : entry.1 ∈ peers) :
    leftOf world now peers entry =
      (entry.2.timeout world now).transfer.remaining.map (entry.1, ·) :=
  if_pos hmem

theorem leftOf_of_notMem (hmem : entry.1 ∉ peers) : leftOf world now peers entry = some entry :=
  if_neg hmem

end LeftOf

/-- What is done when the timer of a peer runs out: a line in the log, what the
transfer sends, and another line if that was its end. -/
def expiry (sessions : Sessions ω σ) (now : Time) (peer : Endpoint) : List Action :=
  match sessions.table.find? peer with
  | none => []
  | some transfer =>
    let step := transfer.timeout sessions.world now
    timeoutNote peer transfer :: (step.sent.map (Action.send peer) ++
      if step.transfer.isTerminal then [closingNote peer step.transfer] else [])

section Expire

variable (sessions : Sessions ω σ) (peer : Endpoint) (now : Time)

theorem closes_timeout (transfer : Transfer σ) (world : ω) :
    closes (transfer.timeout world now) = (transfer.timeout world now).transfer.isTerminal := by
  rw [closes, transfer.timeout_fault]
  rfl

theorem expire_actions : (sessions.expire peer now).actions = sessions.expiry now peer := by
  unfold expiry
  cases hfind : sessions.table.find? peer with
  | none => rw [expire_of_none sessions peer now hfind]
  | some transfer =>
      rw [expire_of_some sessions peer now hfind, settle_actions _ (by simp [hfind]),
        closes_timeout]

variable {sessions}

theorem expire_table (hunique : sessions.table.UniquePeers) :
    (sessions.expire peer now).sessions.table =
      sessions.table.filterMap (leftOf sessions.world now [peer]) := by
  have hleft (entry : Endpoint × Transfer σ) (hother : entry.1 ≠ peer) :
      leftOf sessions.world now [peer] entry = some entry :=
    leftOf_of_notMem _ _ (mt List.mem_singleton.mp hother)
  cases hfind : sessions.table.find? peer with
  | none =>
      rw [expire_of_none sessions peer now hfind]
      refine (List.filterMap_some.symm.trans (List.filterMap_congr fun entry hentry => ?_))
      have hother : entry.1 ≠ peer := by
        rintro rfl
        have hcurrent := SessionTable.find?_eq_some_of_mem hunique hentry
        exact nomatch hfind.symm.trans hcurrent
      exact (hleft entry hother).symm
  | some transfer =>
      rw [expire_of_some sessions peer now hfind, settle_table _ (by simp [hfind]), closes_timeout]
      refine List.filterMap_congr fun entry hentry => ?_
      split
      next hown =>
        obtain rfl := hown
        have hcurrent := SessionTable.find?_eq_some_of_mem hunique hentry
        obtain rfl : entry.2 = transfer := Option.some.inj (hcurrent.symm.trans hfind)
        rw [leftOf_of_mem _ _ (List.mem_singleton_self _), Transfer.remaining]
        split <;> rfl
      next hother => exact (hleft entry hother).symm

end Expire

section ExpireAll

variable (sessions : Sessions ω σ) (now : Time) {peers : List Endpoint}

/-- Since each timer concerns one peer, it does not matter to it which others ran out
before. -/
theorem expireAll_table (hunique : sessions.table.UniquePeers) (hnodup : peers.Nodup) :
    (sessions.expireAll now peers).sessions.table =
      sessions.table.filterMap (leftOf sessions.world now peers) := by
  induction peers generalizing sessions with
  | nil =>
      refine List.filterMap_some.symm.trans (List.filterMap_congr fun entry _ => ?_)
      exact (leftOf_of_notMem _ _ List.not_mem_nil).symm
  | cons peer rest ih =>
      obtain ⟨hfresh, hrest⟩ := List.nodup_cons.mp hnodup
      rw [expireAll_cons, ih _ (sessions.expire_uniquePeers peer now hunique) hrest, expire_world,
        expire_table peer now hunique, List.filterMap_filterMap]
      refine List.filterMap_congr fun entry _ => ?_
      by_cases hown : entry.1 = peer
      · obtain rfl := hown
        rw [leftOf_of_mem _ _ (List.mem_singleton_self _), leftOf_of_mem _ _ List.mem_cons_self]
        cases (entry.2.timeout sessions.world now).transfer.remaining with
        | none => rfl
        | some left => exact leftOf_of_notMem _ _ hfresh
      · rw [leftOf_of_notMem _ _ (mt List.mem_singleton.mp hown), Option.bind_some]
        by_cases hmem : entry.1 ∈ rest
        · rw [leftOf_of_mem _ _ hmem, leftOf_of_mem _ _ (List.mem_cons_of_mem _ hmem)]
        · have hcons : entry.1 ∉ peer :: rest := List.not_mem_cons_of_ne_of_not_mem hown hmem
          rw [leftOf_of_notMem _ _ hmem, leftOf_of_notMem _ _ hcons]

theorem expiry_congr {first second : Sessions ω σ} {peer : Endpoint}
    (hfind : first.table.find? peer = second.table.find? peer) :
    first.expiry now peer = second.expiry now peer := by
  rw [← expire_actions, ← expire_actions, (expire_congr hfind now).2]

theorem expireAll_actions (hnodup : peers.Nodup) :
    (sessions.expireAll now peers).actions = peers.flatMap (sessions.expiry now) := by
  induction peers generalizing sessions with
  | nil => rfl
  | cons peer rest ih =>
      obtain ⟨hfresh, hrest⟩ := List.nodup_cons.mp hnodup
      rw [expireAll_cons, List.flatMap_cons, ← expire_actions]
      refine congrArg _ ((ih _ hrest).trans (List.flatMap_congr fun other hother => ?_))
      have hfind := sessions.expire_find?_other peer now (ne_of_mem_of_not_mem hother hfresh)
      exact expiry_congr now hfind

end ExpireAll

/-! ## Ticks -/

theorem expire_find?_self {peer : Endpoint} {transfer : Transfer σ}
    (hfind : sessions.table.find? peer = some transfer) (now : Time) :
    (sessions.expire peer now).sessions.table.find? peer =
      (transfer.timeout sessions.world now).transfer.remaining := by
  rw [expire_of_some sessions peer now hfind, settle_find?_self _ (by simp [hfind]), closes_timeout]
  rfl

/-- Whose timer runs out is repeated to, or is gone if the retries are used up. -/
theorem Kept.expireAll_find? (hkept : sessions.Kept) (now : Time) {peers : List Endpoint}
    (hnodup : peers.Nodup) {peer : Endpoint} (hmem : peer ∈ peers) {transfer : Transfer σ}
    (hfind : sessions.table.find? peer = some transfer) :
    (sessions.expireAll now peers).sessions.table.find? peer =
      if transfer.settings.retryLimit ≤ transfer.retries then none
      else some { transfer with
        retries := transfer.retries + 1
        deadline := some (now.later (seconds transfer.settings.timeout.toInt)) } := by
  rw [(sessions.expireAll_of_mem now hnodup hmem).1, expire_find?_self hfind,
    (hkept.live.find? hfind).timeout_eq]

/-- No transfer repeats a datagram within the same second, nor waits for longer than it can
be told to. -/
def AllPatient (config : EngineConfig) (sessions : Sessions ω σ) : Prop :=
  ∀ entry ∈ sessions.table, 1 ≤ entry.2.settings.timeout.toInt ∧
    entry.2.settings.timeout.toInt ≤ max 255 config.defaultTimeout.toInt

theorem Kept.call_allPatient (hstore : store.Explains (0 ∉ ·))
    (hdefault : 1 ≤ config.defaultTimeout) (hkept : sessions.Kept)
    (hpatient : sessions.AllPatient config) (call : Call) :
    (sessions.call store config call).sessions.AllPatient config := by
  rintro ⟨peer, transfer⟩ hentry
  have hafter := SessionTable.find?_eq_some_of_mem (call_uniquePeers hkept.unique call) hentry
  cases hfind : sessions.table.find? peer with
  | none =>
      obtain ⟨source, length, requested, hterms⟩ :=
        (call_find?_of_none hkept.unique hfind hafter).terms_eq
      have hsettings : transfer.settings = _ := congrArg (fun terms => terms.2.2) hterms
      rw [hsettings]
      exact Transfer.ofRequest_timeout_bounds config hdefault peer source length requested
  | some current =>
      rw [call_find?_of_some hstore hkept.live hkept.unique hfind call] at hafter
      have hsettings : transfer.settings = current.settings :=
        congrArg (fun terms => terms.2.2) (remains_terms hafter)
      rw [hsettings]
      exact hpatient _ (SessionTable.mem_of_find? hfind)

theorem history_allPatient (hstore : store.Explains (0 ∉ ·)) (hdefault : 1 ≤ config.defaultTimeout)
    (apply : χ → ω → ω) (world : ω) (occurrences : List (Occurrence χ)) :
    (history store config apply { world } occurrences).AllPatient config := by
  suffices hboth : (history store config apply { world } occurrences).Kept ∧
      (history store config apply { world } occurrences).AllPatient config from hboth.2
  apply history_induction fun sessions : Sessions ω σ => sessions.Kept ∧ sessions.AllPatient config
  · rintro sessions call ⟨hkept, hpatient⟩
    exact ⟨hkept.call hstore config call, hkept.call_allPatient hstore hdefault hpatient call⟩
  · rintro sessions world ⟨⟨hlive, hunique, hown⟩, hpatient⟩
    exact ⟨⟨hlive, hunique, hown⟩, hpatient⟩
  · exact ⟨kept_empty world, fun _ hentry => nomatch hentry⟩

/-- A tick that lets the timers of some peers run out: of each that is due and of no
other, once, and on the transfer that the peer had before. It ends those transfers
that are due with their retries used up, and leaves no deadline behind but one that 64
bits cannot hold. -/
structure ExactTick (before : Sessions ω σ) (now : Time) (fired : List Endpoint)
    (outcome : Outcome ω σ) : Prop where
  once : fired.Nodup
  due : ∀ peer, peer ∈ fired ↔ ∃ transfer deadline, before.table.find? peer = some transfer ∧
    transfer.deadline = some deadline ∧ deadline ≤ now
  fault : outcome.fault = none
  actions : outcome.actions = fired.flatMap (before.expiry now)
  sessions : outcome.sessions =
    { before with table := before.table.filterMap (leftOf before.world now fired) }
  ended : ∀ peer transfer, before.table.find? peer = some transfer →
    (outcome.sessions.table.find? peer = none ↔
      peer ∈ fired ∧ transfer.settings.retryLimit ≤ transfer.retries)
  ahead : ∀ peer transfer deadline, outcome.sessions.table.find? peer = some transfer →
    transfer.deadline = some deadline →
    (peer ∈ fired → Time.Fits (now + seconds transfer.settings.timeout.toInt)) → now < deadline

theorem tick_exactTick (config : EngineConfig) (hkept : sessions.Kept)
    (hpatient : sessions.AllPatient config) (now : Time) (walk : Walk) :
    ExactTick sessions now (walk.order (sessions.table.expired now))
      (sessions.call store config (.tick now walk)) := by
  have hperm := walk.perm (sessions.table.expired now)
  have hnodup : (walk.order (sessions.table.expired now)).Nodup :=
    hperm.nodup_iff.mpr (hkept.unique.sublist (SessionTable.expired_sublist _ now))
  have hdue (peer : Endpoint) : peer ∈ walk.order (sessions.table.expired now) ↔ _ :=
    hperm.mem_iff.trans (SessionTable.mem_expired hkept.unique now)
  dsimp only [call]
  generalize walk.order (sessions.table.expired now) = fired at hnodup hdue
  have htable := sessions.expireAll_table now hkept.unique hnodup
  refine ⟨hnodup, hdue, sessions.expireAll_fault now fired, sessions.expireAll_actions now hnodup,
    ?_, fun peer transfer hfind => ?_, ?_⟩
  · rw [← htable, ← sessions.expireAll_world now fired]
  · by_cases hmem : peer ∈ fired
    · rw [hkept.expireAll_find? now hnodup hmem hfind]
      simp [hmem]
    · rw [(sessions.expireAll_of_notMem now hmem).1, hfind]
      simp [hmem]
  · intro peer left deadline hleft hdeadline hfits
    by_cases hmem : peer ∈ fired
    · obtain ⟨transfer, _, hfind, _, _⟩ := (hdue peer).mp hmem
      rw [hkept.expireAll_find? now hnodup hmem hfind] at hleft
      split at hleft
      · cases hleft
      · cases hleft
        cases hdeadline
        have htimeout : 1 ≤ transfer.settings.timeout.toInt :=
          (hpatient _ (SessionTable.mem_of_find? hfind)).1
        rw [Time.later_eq_add (hfits hmem)]
        exact Int.lt_add_of_pos_right now (seconds_pos htimeout)
    · rw [(sessions.expireAll_of_notMem now hmem).1] at hleft
      have hnot := mt (hdue peer).mpr hmem
      exact Int.not_le.mp fun hpassed => hnot ⟨left, deadline, hleft, hdeadline, hpassed⟩

/-- A tick is exact, in whatever order it walks the table. After any history of calls
and changes of the store, it fires each timer that is due once and no other, ends the
transfers whose retries are used up among them, and leaves the same sessions behind
and sends the same to each peer as it would in any other order. Afterwards the next
deadline is ahead, if there is one, unless the longest timeout ends so late that 64 bits
cannot hold it. -/
theorem tick_exact (hstore : store.Explains (0 ∉ ·)) (config : EngineConfig)
    (hdefault : 1 ≤ config.defaultTimeout) (world : ω) (occurrences : List (Occurrence (ω → ω)))
    (now : Time) (walk : Walk) :
    let before := history store config id { world } occurrences
    let outcome := before.call store config (.tick now walk)
    ExactTick before now (walk.order (before.table.expired now)) outcome ∧
      (∀ other,
        let otherwise := before.call store config (.tick now other)
        otherwise.sessions = outcome.sessions ∧
          ∀ peer, (Action.datagrams otherwise.actions).to peer =
            (Action.datagrams outcome.actions).to peer) ∧
      (Time.Fits now → Time.Fits (now + seconds (max 255 config.defaultTimeout.toInt)) →
        ∀ deadline, outcome.sessions.table.nextDeadline = some deadline → now < deadline) := by
  intro before outcome
  have hkept : before.Kept := history_kept hstore world occurrences
  have hpatient : before.AllPatient config :=
    history_allPatient hstore hdefault id world occurrences
  have hexact (walk : Walk) :
      ExactTick before now (walk.order (before.table.expired now))
        (before.call store config (.tick now walk)) :=
    tick_exactTick config hkept hpatient now walk
  refine ⟨hexact walk, fun other => ⟨?_, fun peer => ?_⟩, fun hnow hlatest deadline hnext => ?_⟩
  · rw [(hexact other).sessions, (hexact walk).sessions]
    congr 2
    funext entry
    have hmem : entry.1 ∈ other.order (before.table.expired now) ↔
        entry.1 ∈ walk.order (before.table.expired now) :=
      ((hexact other).due entry.1).trans ((hexact walk).due entry.1).symm
    simp only [leftOf, hmem]
  · have halike : Alike id peer before before := ⟨hkept.unique, hkept.unique, rfl, rfl⟩
    exact (tick_alike halike now other walk).2
  · obtain ⟨⟨peer, transfer⟩, hentry, hdeadline⟩ := (SessionTable.nextDeadline_eq_some.mp hnext).1
    have hafter : outcome.sessions.Kept := hkept.call hstore config (.tick now walk)
    have hfind := SessionTable.find?_eq_some_of_mem hafter.unique hentry
    refine (hexact walk).ahead peer transfer deadline hfind hdeadline fun _ => ?_
    obtain ⟨hlower, hupper⟩ : 1 ≤ transfer.settings.timeout.toInt ∧
        transfer.settings.timeout.toInt ≤ max 255 config.defaultTimeout.toInt :=
      hkept.call_allPatient hstore hdefault hpatient (.tick now walk) _ hentry
    exact hnow.add_of_le (Int.le_of_lt (seconds_pos hlower)) (seconds_le_seconds hupper) hlatest

/-- Two peers are due, one of them for the second time, with a single retry for each.
The table is walked backwards. -/
theorem tick_exact_for_two_peers :
    let first := Endpoint.ipv4 192 0 2 1 4000
    let second := Endpoint.ipv4 192 0 2 2 4000
    let request := [0, 1] ++ ascii "a" ++ [0] ++ ascii "octet" ++ [0]
    let config : EngineConfig := { retryLimit := 1 }
    let before := history memoryStore config id { world := [(ascii "a", #[65])] }
      [.call (.datagram request first 0), .call (.datagram request second (seconds 1)),
        .call (.tick (seconds 3) .inOrder)]
    let walk : Walk := ⟨List.reverse, List.reverse_perm⟩
    let outcome := before.call memoryStore config (.tick (seconds 6) walk)
    memoryStore.Explains (0 ∉ ·) ∧ 1 ≤ config.defaultTimeout ∧
      Time.Fits (seconds 6) ∧
      Time.Fits (seconds 6 + seconds (max 255 config.defaultTimeout.toInt)) ∧
      ExactTick before (seconds 6) [first, second] outcome ∧
      outcome.sessions.table.find? first = none ∧
      outcome.sessions.table.nextDeadline = some (seconds 9) ∧ seconds 6 < seconds 9 := by
  intro first second request config before walk outcome
  have hstore : memoryStore.Explains (0 ∉ ·) := memoryStore_explains.nul_notMem
  have hnow : Time.Fits (seconds 6) := by decide
  have hlatest : Time.Fits (seconds 6 + seconds (max 255 config.defaultTimeout.toInt)) := by decide
  have hfired : walk.order (before.table.expired (seconds 6)) = [first, second] := by
    decide +kernel
  have hgone : outcome.sessions.table.find? first = none := by decide +kernel
  have hnext : outcome.sessions.table.nextDeadline = some (seconds 9) := by decide +kernel
  obtain ⟨hexact, _, hahead⟩ := tick_exact hstore config (by decide) [(ascii "a", #[65])]
    [.call (.datagram request first 0), .call (.datagram request second (seconds 1)),
      .call (.tick (seconds 3) .inOrder)] (seconds 6) walk
  subst outcome before
  rw [hfired] at hexact
  exact ⟨hstore, by decide, hnow, hlatest, hexact, hgone, hnext, hahead hnow hlatest _ hnext⟩

/-- A default timeout of more than nine million years ends later than 64 bits can hold. The
deadline comes out in the past, and the tick that finds it there leaves it there. -/
theorem tick_leaves_deadline_behind :
    let peer := Endpoint.ipv4 192 0 2 1 4000
    let request := [0, 1] ++ ascii "a" ++ [0] ++ ascii "octet" ++ [0]
    let config : EngineConfig := { defaultTimeout := 288230376151711 }
    let before := history memoryStore config id { world := [(ascii "a", #[65])] }
      [.call (.datagram request peer (seconds 1))]
    let outcome := before.call memoryStore config (.tick (seconds 1) .inOrder)
    memoryStore.Explains (0 ∉ ·) ∧ 1 ≤ config.defaultTimeout ∧
      outcome.sessions.table.nextDeadline = some (milliseconds 256) ∧
      milliseconds 256 ≤ seconds 1 := by
  dsimp only
  exact ⟨memoryStore_explains.nul_notMem, by decide, by decide +kernel, by decide⟩

end Sessions

end TftpServer
