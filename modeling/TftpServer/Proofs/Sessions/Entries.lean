import TftpServer.Proofs.Sessions.History
import TftpServer.Proofs.Store.Details
import TftpServer.Proofs.Store.MemoryTable
import TftpServer.Proofs.Transfer.OfContent
import TftpServer.Proofs.Transfer.Restraint
import TftpServer.Proofs.Transfer.View

/-! # Entries that change under way

Entries of a memory store are added and replaced at any time. A transfer sends the
content that its name had when it was asked for, whatever becomes of the entry
afterwards, and whoever asks later is sent the content that was added last.
-/

namespace TftpServer

variable {ω σ χ : Type}

namespace Sessions

/-! ## A transfer by itself -/

section Alone

variable {store : Store ω σ} {config : EngineConfig} {apply : χ → ω → ω}
  {sessions : Sessions ω σ} {peer : Endpoint} {alone : Reading Unit σ}

theorem Kept.undergo (hstore : store.Explains (0 ∉ ·)) (hkept : sessions.Kept)
    (occurrence : Occurrence χ) :
    (sessions.undergo store config apply occurrence).sessions.Kept := by
  cases occurrence with
  | call call => exact hkept.call hstore config call
  | change change => exact ⟨hkept.live, hkept.unique, hkept.own⟩

variable (hstore : store.Explains (0 ∉ ·))
  (halone : store.toReading.Carries (fun _ => ()) alone)

include hstore halone

/-- If streams need no world, a transfer goes on as if there were nothing else. -/
theorem undergo_alone (hkept : sessions.Kept) {run : Transfer.Run Unit σ}
    (hfind : sessions.table.find? peer = some run.transfer) (occurrence : Occurrence χ) :
    let outcome := sessions.undergo store config apply occurrence
    ∃ events : List Transfer.Event,
      let next := events.foldl (Transfer.Run.handle alone) run
      outcome.sessions.table.find? peer = next.transfer.remaining ∧
        next.sent = run.sent ++ (Action.datagrams outcome.actions).to peer := by
  intro outcome
  have hlive := hkept.live.find? hfind
  have hremaining := Transfer.remaining_of_open hlive.isTerminal_eq_false
  cases occurrence with
  | change change => exact ⟨[], hfind.trans hremaining.symm, (List.append_nil _).symm⟩
  | call call =>
      have hdealing : Dealing store sessions.world peer run.transfer
        (call.eventFor peer run.transfer) outcome := call_dealing config hkept.unique hfind call
      cases hevent : call.eventFor peer run.transfer with
      | none =>
          rw [hevent] at hdealing
          cases hdealing with
          | ignored _ hleft hsent =>
              refine ⟨[], hleft.trans hremaining.symm, ?_⟩
              rw [hsent]
              exact (List.append_nil _).symm
      | some event =>
          have hfault := handle_fault hstore hlive sessions.world hevent
          have hstep := (Transfer.handle_demands run.transfer event).map halone sessions.world
          rw [hevent] at hdealing
          cases hdealing with
          | handled _ _ hleft hsent =>
              refine ⟨[event], ?_, ?_⟩
              · rw [hleft, closes, hfault]
                exact congrArg (fun step => step.transfer.remaining) hstep
              · rw [hsent]
                exact congrArg (fun step => run.sent ++ step.sent) hstep.symm

theorem history_alone (hkept : sessions.Kept) {run : Transfer.Run Unit σ}
    (hfind : sessions.table.find? peer = run.transfer.remaining) {later : List (Occurrence χ)}
    (hlasts : Lasts store config apply peer sessions later) :
    ∃ events : List Transfer.Event,
      let next := events.foldl (Transfer.Run.handle alone) run
      (history store config apply sessions later).table.find? peer = next.transfer.remaining ∧
        next.sent = run.sent ++ (handed store config apply sessions later).to peer := by
  induction later generalizing sessions run with
  | nil => exact ⟨[], hfind, (List.append_nil _).symm⟩
  | cons occurrence rest ih =>
      obtain ⟨hsome, hrest⟩ := hlasts
      have hopen : sessions.table.find? peer = some run.transfer := by
        rw [hfind, Transfer.remaining] at hsome ⊢
        split at hsome
        · cases hsome
        next hopen => exact if_neg hopen
      obtain ⟨first, hfirst, hsent⟩ := undergo_alone hstore halone hkept hopen occurrence
      obtain ⟨others, hothers, hlater⟩ := ih (hkept.undergo hstore occurrence) hfirst hrest
      refine ⟨first ++ others, ?_⟩
      rw [List.foldl_append]
      refine ⟨hothers, hlater.trans ?_⟩
      rw [hsent, List.append_assoc, handed, SendRecord.to_append]

end Alone

/-! ## Where a transfer comes from -/

section Origin

variable {store : Store ω σ} {config : EngineConfig} {apply : χ → ω → ω}

theorem Lasts.concat {peer : Endpoint} {sessions : Sessions ω σ} {later : List (Occurrence χ)}
    (hlasts : Lasts store config apply peer sessions later)
    (hsome : ((sessions.history store config apply later).table.find? peer).isSome)
    (occurrence : Occurrence χ) :
    Lasts store config apply peer sessions (later ++ [occurrence]) := by
  induction later generalizing sessions with
  | nil => exact ⟨hsome, trivial⟩
  | cons first rest ih => exact ⟨hlasts.1, ih hlasts.2 hsome⟩

/-- A transfer in the table goes back to a read request of its peer. -/
theorem exists_request_of_isSome (hstore : store.Explains (0 ∉ ·)) (world : ω) {peer : Endpoint}
    (occurrences : List (Occurrence χ))
    (hsome : ((history store config apply { world } occurrences).table.find? peer).isSome) :
    ∃ past octets now request later,
      let before := history store config apply { world } past
      let asked := Call.datagram octets peer now
      occurrences = past ++ .call asked :: later ∧
        decode octets = .ok ⟨.rrq, .request request⟩ ∧ before.table.find? peer = none ∧
        Lasts store config apply peer (before.call store config asked).sessions later := by
  induction occurrences using List.reverseRecOn with
  | nil => cases hsome
  | append_singleton earlier occurrence ih =>
      cases hfind : (history store config apply { world } earlier).table.find? peer with
      | some transfer =>
          obtain ⟨past, octets, now, request, later, hsplit, hdecode, hnone, hlasts⟩ :=
            ih (by simp [hfind])
          refine ⟨past, octets, now, request, later ++ [occurrence], ?_, hdecode, hnone, ?_⟩
          · rw [hsplit, List.append_assoc, List.cons_append]
          · apply hlasts.concat
            rw [hsplit, history_append] at hfind
            exact Option.isSome_iff_exists.mpr ⟨transfer, hfind⟩
      | none =>
          have hkept : (history store config apply { world } earlier).Kept :=
            history_kept hstore world earlier
          rw [history_concat] at hsome
          cases occurrence with
          | change change =>
              rw [undergo, hfind] at hsome
              cases hsome
          | call call =>
              obtain ⟨transfer, hafter⟩ := Option.isSome_iff_exists.mp hsome
              cases call_find?_of_none hkept.unique hfind hafter with
              | intro octets now request opened source world hdecode hopen herror hsource =>
                  exact ⟨earlier, octets, now, request, [], rfl, hdecode, hfind, trivial⟩

end Origin

/-! ## Entries -/

/-- Adds an entry, or replaces the one of the same name. -/
def addEntry (entry : Octets × Content) (table : MemoryTable) : MemoryTable :=
  table.insert entry.1 entry.2

/-- The content that a name got last, or else had in the first place. -/
def latest (entries : MemoryTable) (occurrences : List (Occurrence (Octets × Content)))
    (name : Octets) : Option Content :=
  ((occurrences.filterMap Occurrence.change?).reverse ++ entries).lookup name

theorem latest_concat_call (entries : MemoryTable)
    (occurrences : List (Occurrence (Octets × Content))) (call : Call) (name : Octets) :
    latest entries (occurrences ++ [.call call]) name = latest entries occurrences name := by
  rw [latest, latest, List.filterMap_append]
  exact congrArg (fun added => (added.reverse ++ entries).lookup name) (List.append_nil _)

theorem latest_concat_change (entries : MemoryTable)
    (occurrences : List (Occurrence (Octets × Content))) (entry : Octets × Content)
    (name : Octets) :
    latest entries (occurrences ++ [.change entry]) name =
      if name = entry.1 then some entry.2 else latest entries occurrences name := by
  have hadded : (occurrences ++ [Occurrence.change entry]).filterMap Occurrence.change? =
      occurrences.filterMap Occurrence.change? ++ [entry] := List.filterMap_append
  rw [latest, latest, hadded, List.reverse_concat, List.cons_append, List.lookup_cons]
  by_cases hname : name = entry.1
  · simp [hname]
  · simp [beq_false_of_ne hname, hname]

theorem lookup_history (config : EngineConfig) (entries : MemoryTable)
    (occurrences : List (Occurrence (Octets × Content))) (name : Octets) :
    (history memoryStore config addEntry { world := entries } occurrences).world.lookup name =
      latest entries occurrences name := by
  induction occurrences using List.reverseRecOn with
  | nil => rfl
  | append_singleton earlier occurrence ih =>
      rw [history_concat]
      cases occurrence with
      | call call =>
          rw [latest_concat_call, ← ih]
          exact congrArg (List.lookup name) (call_essence config memoryStore_steady _ call)
      | change entry =>
          rw [latest_concat_change, ← ih]
          exact MemoryTable.lookup_insert entry.1 name entry.2 _

/-! ## Transfers of entries -/

/-- What a peer was sent for a content, and has left of its transfer, is what the
transfer of this content comes to by itself. -/
structure Delivers (config : EngineConfig) (peer : Endpoint) (request : Request) (content : Content)
    (now : Time) (sent : List Octets) (left : Option (Transfer (Delivery Content))) : Prop where
  run : ∃ events,
    let run := (Transfer.ofContent config peer request content).run
      (Delivery.reading (Content.reading Unit)) () now events
    sent = run.sent ∧ left = run.transfer.remaining ∧
      (run.transfer.phase = .complete →
        (deliveredBlocks sent).flatMap dataOctets = (content.inMode request.mode).toList)
  blocks : ∃ count, (deliveredBlocks sent).map decode = (List.range count).map fun i =>
    .ok (.data (UInt16.ofNat (i + 1)) ((content.inMode request.mode).block
      (Transfer.ofContent config peer request content).settings.blockSize.toNat (i + 1)))
  size : request.mode = .octet → ∀ datagram ∈ sent, wireOpcode datagram = some .oack →
    ∃ options, decode datagram = .ok (.oack options) ∧
      ∀ size, announced options .transferSize = some size → size = content.size

theorem Delivers.of_run (config : EngineConfig) (peer : Endpoint) (request : Request)
    {content : Content} (hcontent : content.size < 2 ^ 63) (now : Time)
    (events : List Transfer.Event) :
    let run := (Transfer.ofContent config peer request content).run
      (Delivery.reading (Content.reading Unit)) () now events
    Delivers config peer request content now run.sent run.transfer.remaining := by
  intro run
  obtain ⟨hblocks, hcomplete⟩ := Transfer.run_ofContent config peer request hcontent () now events
  exact ⟨⟨events, rfl, rfl, hcomplete⟩, hblocks, fun hmode =>
    Transfer.run_ofContent_announces config peer request hcontent () now hmode events⟩

/-- The streams of a memory store need no world. -/
theorem memoryStore_carries (view : MemoryTable → ω) :
    memoryStore.toReading.Carries view (Delivery.reading (Content.reading ω)) :=
  Delivery.reading_carries (Content.reading_carries view)

section Request

variable {config : EngineConfig} {sessions : Sessions MemoryTable (Delivery Content)}
  {peer : Endpoint} {octets : Octets} {request : Request}
  (hfind : sessions.table.find? peer = none)
  (hdecode : decode octets = .ok ⟨.rrq, .request request⟩)

include hfind hdecode

theorem served_of_asked (hkept : sessions.Kept) (now : Time)
    (hsome : ((sessions.call memoryStore config (.datagram octets peer now)).sessions.table.find?
      peer).isSome) :
    (request.mode = .octet ∨ request.mode = .netascii) ∧
      ∃ content, sessions.world.lookup request.filename = some content := by
  obtain ⟨transfer, hafter⟩ := Option.isSome_iff_exists.mp hsome
  cases call_find?_of_none hkept.unique hfind hafter with
  | intro _ _ other opened source world hother hopen herror hsource =>
      rw [hdecode] at hother
      cases hother
      exact served_of_memoryStore_opens hopen herror

/-- A request for an entry starts the transfer of the content that it has. -/
theorem asked_alone {content : Content}
    (hmode : request.mode = .octet ∨ request.mode = .netascii)
    (hcontent : sessions.world.lookup request.filename = some content)
    (hsize : content.size < 2 ^ 63) (now : Time) :
    let asked := sessions.call memoryStore config (.datagram octets peer now)
    let run := (Transfer.ofContent config peer request content).run
      (Delivery.reading (Content.reading Unit)) () now []
    asked.sessions.table.find? peer = some run.transfer ∧
      (Action.datagrams asked.actions).to peer = run.sent := by
  intro asked run
  have hmail : request.mode ≠ .mail := by
    rcases hmode with hmode | hmode <;> simp [hmode]
  obtain ⟨note, hasked⟩ := receive_of_opened config hfind hdecode hmail
    (memoryStore_opens hmode hcontent) rfl rfl now
  have hlength := (memoryStore_carries fun _ => ()).length (Delivery.ofMode request.mode content)
    sessions.world
  rw [← hlength] at hasked
  have hstart := (Transfer.start_demands (Transfer.ofContent config peer request content) now).map
    (memoryStore_carries fun _ => ()) sessions.world
  have htransfer := congrArg Step.transfer hstart
  have hopen : closes ((Transfer.ofContent config peer request content).start
      memoryStore.toReading sessions.world now) = false := by
    rw [closes, Bool.and_eq_false_iff]
    refine Or.inr ((congrArg Transfer.isTerminal htransfer).trans ?_)
    exact Transfer.start_ofContent_open config peer request hsize () now
  subst asked
  rw [call, hasked]
  constructor
  · refine (settle_find?_self _ (by simp)).trans ?_
    exact (if_neg (Bool.eq_false_iff.mp hopen)).trans (congrArg some htransfer)
  · refine (congrArg (SendRecord.to · peer) (settle_datagrams _ (by simp))).trans ?_
    rw [SendRecord.to_map_self]
    exact congrArg Step.sent hstart

end Request

/-- Entries may be added and replaced at any time: no transfer takes notice, and
nothing is sent. Every transfer goes back to a read request of its peer, and such a
request brings one exactly if the name has a content then, the one that was added
last. As long as the peer has this transfer, it is sent what a transfer of that
content by itself sends, whatever happens in between. -/
theorem history_delivers_latest_entry (config : EngineConfig) (entries : MemoryTable)
    (occurrences : List (Occurrence (Octets × Content))) :
    let before := history memoryStore config addEntry { world := entries } occurrences
    (∀ entry,
      let added := before.undergo memoryStore config addEntry (.change entry)
      added.sessions.table = before.table ∧ added.actions = []) ∧
    (∀ peer, (before.table.find? peer).isSome →
      ∃ past octets now request later,
        let earlier := history memoryStore config addEntry { world := entries } past
        let asked := Call.datagram octets peer now
        occurrences = past ++ .call asked :: later ∧
          decode octets = .ok ⟨.rrq, .request request⟩ ∧ earlier.table.find? peer = none ∧
          Lasts memoryStore config addEntry peer
            (earlier.call memoryStore config asked).sessions later) ∧
    ∀ peer octets now request, before.table.find? peer = none →
      decode octets = .ok ⟨.rrq, .request request⟩ →
      let asked := before.call memoryStore config (.datagram octets peer now)
      ((asked.sessions.table.find? peer).isSome →
        (request.mode = .octet ∨ request.mode = .netascii) ∧
          ∃ content, latest entries occurrences request.filename = some content) ∧
      ∀ content, latest entries occurrences request.filename = some content →
        (request.mode = .octet ∨ request.mode = .netascii) → content.size < 2 ^ 63 →
        (asked.sessions.table.find? peer).isSome ∧
        ∀ later, Lasts memoryStore config addEntry peer asked.sessions later →
          Delivers config peer request content now
            ((Action.datagrams asked.actions).to peer ++
              (handed memoryStore config addEntry asked.sessions later).to peer)
            ((history memoryStore config addEntry asked.sessions later).table.find? peer) := by
  intro before
  have hstore : memoryStore.Explains (0 ∉ ·) := memoryStore_explains.nul_notMem
  have hkept : before.Kept := history_kept hstore entries occurrences
  refine ⟨fun entry => ⟨rfl, rfl⟩, fun peer hsome => ?_, fun peer octets now request hfind hdecode =>
    ⟨fun hsome => ?_, fun content hlatest hmode hsize => ?_⟩⟩
  · exact exists_request_of_isSome hstore entries occurrences hsome
  · obtain ⟨hmode, content, hcontent⟩ := served_of_asked hfind hdecode hkept now hsome
    exact ⟨hmode, content, (lookup_history config entries occurrences request.filename).symm.trans
      hcontent⟩
  · have hcontent : before.world.lookup request.filename = some content :=
      (lookup_history config entries occurrences request.filename).trans hlatest
    obtain ⟨hstarted, hsent⟩ := asked_alone hfind hdecode hmode hcontent hsize now
    refine ⟨Option.isSome_iff_exists.mpr ⟨_, hstarted⟩, fun later hlasts => ?_⟩
    have hasked := hkept.call hstore config (.datagram octets peer now)
    have hopen := (hasked.live.find? hstarted).isTerminal_eq_false
    obtain ⟨events, hleft, hlater⟩ := history_alone hstore (memoryStore_carries fun _ => ()) hasked
      (hstarted.trans (Transfer.remaining_of_open hopen).symm) hlasts
    rw [hsent, hleft, ← hlater]
    exact Delivers.of_run config peer request hsize now events

/-- Ten octets in blocks of eight, replaced after the first of two blocks. -/
theorem history_delivers_replaced_entry :
    let peer := Endpoint.ipv4 192 0 2 1 4000
    let octets := [0, 1] ++ ascii "a" ++ [0] ++ ascii "octet" ++ [0] ++ ascii "blksize" ++ [0] ++
      ascii "8" ++ [0] ++ ascii "tsize" ++ [0] ++ ascii "0" ++ [0]
    let request : Request :=
      ⟨ascii "a", .octet, [⟨ascii "blksize", ascii "8"⟩, ⟨ascii "tsize", ascii "0"⟩]⟩
    let content : Content := (Array.range 10).map UInt8.ofNat
    let occurrences : List (Occurrence (Octets × Content)) := [.change (ascii "a", content)]
    let later : List (Occurrence (Octets × Content)) :=
      [.call (.datagram [0, 4, 0, 0] peer 1), .change (ascii "a", #[65]),
        .call (.datagram [0, 4, 0, 1] peer 2)]
    let before := history memoryStore {} addEntry { world := [] } occurrences
    let asked := before.call memoryStore {} (.datagram octets peer 0)
    Lasts memoryStore {} addEntry peer asked.sessions later ∧
      latest [] (occurrences ++ later) (ascii "a") = some #[65] ∧
      Delivers {} peer request content 0
        ((Action.datagrams asked.actions).to peer ++
          (handed memoryStore {} addEntry asked.sessions later).to peer)
        ((history memoryStore {} addEntry asked.sessions later).table.find? peer) := by
  intro peer octets request content occurrences later before asked
  have hfind : before.table.find? peer = none := by decide +kernel
  have hdecode : decode octets = .ok ⟨.rrq, .request request⟩ := by decide +kernel
  have hlatest : latest [] occurrences request.filename = some content := by decide +kernel
  have hlasts : Lasts memoryStore {} addEntry peer asked.sessions later :=
    ⟨by decide +kernel, by decide +kernel, by decide +kernel, trivial⟩
  have hreplaced : latest [] (occurrences ++ later) (ascii "a") = some #[65] := by decide +kernel
  subst asked before
  obtain ⟨_, _, hasked⟩ := history_delivers_latest_entry {} [] occurrences
  have hserved := ((hasked peer octets 0 request hfind hdecode).2 content hlatest (Or.inl rfl)
    (by decide +kernel)).2
  exact ⟨hlasts, hreplaced, hserved later hlasts⟩

end Sessions

end TftpServer
