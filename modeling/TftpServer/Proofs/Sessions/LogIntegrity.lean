import TftpServer.Proofs.Log.Lines
import TftpServer.Proofs.Sessions.Faultless
import TftpServer.Proofs.Sessions.Server
import TftpServer.Proofs.Transfer.Presentable

/-! # What peers can put into the log

Names that peers ask for are escaped before they are logged, and everything else
that a server logs is printable by itself, save for one thing: a transfer that
is ended by an ERROR is logged with the text of that ERROR, as the peer wrote it.
So the lines of the log are the messages of the server, in printable octets,
unless warnings are enabled and some peer ends its transfer with an ERROR whose
text is not printable.
-/

namespace TftpServer

open Text

variable {ω σ κ : Type}

/-- The line of a message, without its newline. -/
def Logger.body (logger : Logger) (message : LogMessage) : Octets :=
  logger.tag ++ ascii " [" ++ message.1.name ++ ascii "]: " ++ message.2

def Logger.logged (logger : Logger) (messages : List LogMessage) : List LogMessage :=
  messages.filter (logger.isEnabled ·.1)

theorem Logger.flatMap_lineOf (logger : Logger) (messages : List LogMessage) :
    messages.flatMap logger.lineOf = ((logger.logged messages).map logger.body).flatMap (· ++ [10]) := by
  induction messages with
  | nil => rfl
  | cons message rest ih =>
      rw [List.flatMap_cons, ih]
      cases henabled : logger.isEnabled message.1 with
      | true =>
          have hlogged : logger.logged (message :: rest) = message :: logger.logged rest :=
            List.filter_cons_of_pos henabled
          rw [hlogged, List.map_cons, List.flatMap_cons, lineOf, line, if_pos henabled]
          rfl
      | false =>
          have hlogged : logger.logged (message :: rest) = logger.logged rest :=
            List.filter_cons_of_neg (by simp [henabled])
          rw [hlogged, lineOf, line, if_neg (by simp [henabled]), List.nil_append]

theorem Logger.printable_body {logger : Logger} (htag : Printable logger.tag) (message : LogMessage) :
    Printable (logger.body message) ↔ Printable message.2 := by
  have hopening : Printable (ascii " [") := by decide
  have hclosing : Printable (ascii "]: ") := by decide
  simp only [body, printable_append, htag, hopening, hclosing, LogLevel.printable_name, true_and]

/-- The log is one terminated line for each message that reached the threshold,
and all its other octets are printable. -/
structure Server.LogIntact (logger : Logger) (server : Server ω σ κ) : Prop where
  terminated : server.log = (Logger.linesOf server.log).flatMap (· ++ [10])
  lines : Logger.linesOf server.log = (logger.logged server.messages).map logger.body
  printable : ∀ octet ∈ server.log, octet = 10 ∨ isPrintable octet = true

/-- That is to say, every message that reached the threshold is printable. -/
theorem Server.logIntact_iff {logger : Logger} (htag : Printable logger.tag)
    {server : Server ω σ κ} (hlog : server.log = server.messages.flatMap logger.lineOf) :
    server.LogIntact logger ↔ ∀ message ∈ logger.logged server.messages, Printable message.2 := by
  rw [Logger.flatMap_lineOf] at hlog
  constructor
  · intro hintact message hmessage
    have hline : logger.body message ∈ Logger.linesOf server.log := by
      rw [hintact.lines]
      exact List.mem_map_of_mem hmessage
    refine (Logger.printable_body htag message).mp fun octet hoctet => ?_
    have hmem : octet ∈ server.log := by
      rw [hintact.terminated]
      exact List.mem_flatMap.mpr ⟨_, hline, List.mem_append_left _ hoctet⟩
    -- A line that was read back holds no newline, not even one from a message.
    rcases hintact.printable octet hmem with rfl | hprintable
    · exact absurd hoctet (Logger.newline_notMem_of_mem_linesOf hline)
    · exact hprintable
  · intro hmessages
    have hbodies : ∀ line ∈ (logger.logged server.messages).map logger.body, Printable line := by
      intro line hline
      obtain ⟨message, hmessage, rfl⟩ := List.mem_map.mp hline
      exact (Logger.printable_body htag message).mpr (hmessages message hmessage)
    have hlines : Logger.linesOf server.log = (logger.logged server.messages).map logger.body := by
      rw [hlog]
      exact Logger.linesOf_flatMap fun line hline => (hbodies line hline).newline_notMem
    refine ⟨by rw [hlines]; exact hlog, hlines, fun octet hoctet => ?_⟩
    rw [hlog] at hoctet
    obtain ⟨line, hline, hmem⟩ := List.mem_flatMap.mp hoctet
    rcases List.mem_append.mp hmem with hmem | hmem
    · exact Or.inr (hbodies line hline octet hmem)
    · exact Or.inl (List.mem_singleton.mp hmem)

/-! ## Messages of a call -/

namespace Action

/-- A message of its own that can be shown, if any. -/
def Clean : Action → Prop
  | .note _ text => Printable text
  | .send _ _ => True
  | .reply _ _ _ => True

theorem printable_of_mem_messages (sink : Sink κ) (logger : Logger) {actions : List Action}
    (hclean : ∀ action ∈ actions, action.Clean) {state : κ} {message : LogMessage}
    (hmessage : message ∈ messages sink logger actions state) : Printable message.2 := by
  induction actions generalizing state with
  | nil => cases hmessage
  | cons action rest ih =>
      rw [messages] at hmessage
      rcases List.mem_append.mp hmessage with hmessage | hmessage
      · have haction := hclean action List.mem_cons_self
        cases action with
        | note level text =>
            obtain rfl : message = (level, text) := by simpa [message?] using hmessage
            exact haction
        | send peer datagram => cases hmessage
        | reply peer code datagram =>
            simp only [message?] at hmessage
            split at hmessage
            · cases hmessage
            · obtain rfl := List.mem_singleton.mp hmessage
              simp only [printable_append, printable_decimal, Endpoint.printable_text, and_true]
              decide +kernel
      · exact ih (fun other hother => hclean other (List.mem_cons_of_mem _ hother)) hmessage

end Action

namespace Sessions

variable {store : Store ω σ} {config : EngineConfig} {sessions : Sessions ω σ}

/-- A call in which a peer ends its transfer with an ERROR of a text. -/
inductive Abandons (sessions : Sessions ω σ) (text : Octets) : Call → Prop where
  | intro (octets : Octets) (peer : Endpoint) (now : Time) (transfer : Transfer σ) (code : ErrorCode)
      (hfind : sessions.table.find? peer = some transfer)
      (hdecode : decode octets = .ok (.error code text)) :
      Abandons sessions text (.datagram octets peer now)

theorem clean_closingNote (peer : Endpoint) {transfer : Transfer σ}
    (hover : transfer.isTerminal = true) (hdetail : transfer.Presentable) :
    (closingNote peer transfer).Clean := by
  unfold closingNote
  split
  · simp only [Action.Clean, printable_append, Endpoint.printable_text, printable_decimal]
    decide +kernel
  next hphase =>
    have hfailed : transfer.phase = .failed := by
      simpa [Transfer.isTerminal, hphase] using hover
    simp only [Action.Clean, printable_append, Endpoint.printable_text, hdetail hfailed]
    decide +kernel

theorem clean_settle {peer : Endpoint} {step : Step ω σ} (hfind : (sessions.table.find? peer).isSome)
    (hdetail : step.transfer.Presentable) :
    ∀ action ∈ (sessions.settle peer step).actions, action.Clean := by
  intro action hmem
  rw [settle_actions step hfind] at hmem
  rcases List.mem_append.mp hmem with hmem | hmem
  · obtain ⟨datagram, _, rfl⟩ := List.mem_map.mp hmem
    trivial
  · split at hmem
    next hcloses =>
      rw [closes, Bool.and_eq_true] at hcloses
      obtain rfl := List.mem_singleton.mp hmem
      exact clean_closingNote peer hcloses.2 hdetail
    next => cases hmem

theorem clean_timeoutNote (peer : Endpoint) (transfer : Transfer σ) :
    (timeoutNote peer transfer).Clean := by
  simp only [timeoutNote, Action.Clean, printable_append, Endpoint.printable_text, printable_decimal]
  decide +kernel

section Explained

variable (hstore : store.Explains Printable)

include hstore

theorem clean_receive (hlive : sessions.AllLive) {datagram : Octets} {peer : Endpoint} {now : Time}
    (hcall : ∀ text, ¬ Abandons sessions text (.datagram datagram peer now)) :
    ∀ action ∈ (sessions.receive store config datagram peer now).actions, action.Clean := by
  have hreceipt := receive_receipt store config sessions datagram peer now
  generalize sessions.receive store config datagram peer now = outcome at hreceipt
  cases hreceipt with
  | handled transfer hfind =>
      refine clean_settle (by simp [hfind]) ?_
      refine Transfer.handle_presentable hstore.reading (hlive.find? hfind) sessions.world ?_
      intro code text later hevent
      unfold eventOf at hevent
      split at hevent
      next message hdecode =>
        -- Only an ERROR leaves behind a detail that is not the server's own.
        cases hevent
        exact hcall text (.intro datagram peer _ transfer code hfind hdecode)
      next => cases hevent
  | noted level note hnote =>
      intro action hmem
      obtain rfl := List.mem_singleton.mp hmem
      exact hnote
  | refused opcode request world note code text hfind hdecode hworld htext hnote =>
      have hprintable : Printable text := htext Printable (fun _ hprintable _ => hprintable) hstore
      obtain ⟨reply, _, hrefuse⟩ :=
        refuse_eq { sessions with world } peer note code hprintable.nul_notMem
      rw [hrefuse]
      intro action hmem
      rcases List.mem_cons.mp hmem with rfl | hmem
      · exact hnote hprintable
      · obtain rfl := List.mem_singleton.mp hmem
        trivial
  | opened request opened source world note hfind hdecode hopen herror hsource hnote =>
      intro action hmem
      rcases List.mem_cons.mp hmem with rfl | hmem
      · exact hnote
      · refine clean_settle ?_ ?_ action hmem
        · simp
        · exact Transfer.start_presentable hstore.reading config peer source _ request.options world now

theorem clean_expire (hlive : sessions.AllLive) (peer : Endpoint) (now : Time) :
    ∀ action ∈ (sessions.expire peer now).actions, action.Clean := by
  cases hfind : sessions.table.find? peer with
  | none =>
      rw [expire_of_none sessions peer now hfind]
      intro action hmem
      cases hmem
  | some transfer =>
      rw [expire_of_some sessions peer now hfind]
      intro action hmem
      rcases List.mem_cons.mp hmem with rfl | hmem
      · exact clean_timeoutNote peer transfer
      · have hdetail : (transfer.handle store.toReading sessions.world
            (.timeout now)).transfer.Presentable :=
          Transfer.handle_presentable hstore.reading (hlive.find? hfind) sessions.world
            fun code text later hevent => nomatch hevent
        exact clean_settle (by simp [hfind]) hdetail action hmem

theorem clean_call (config : EngineConfig) (hlive : sessions.AllLive) {call : Call}
    (hcall : ∀ text, ¬ Abandons sessions text call) :
    ∀ action ∈ (sessions.call store config call).actions, action.Clean := by
  cases call with
  | datagram octets peer now => exact clean_receive hstore hlive hcall
  | tick now walk =>
      refine (expireAll_induction AllLive (fun sessions peer hlive => ?_) hlive _).2
      exact ⟨expire_sound hstore.nul_notMem hlive peer now, clean_expire hstore hlive peer now⟩

end Explained

theorem call_of_abandons (store : Store ω σ) (config : EngineConfig) (hlive : sessions.AllLive)
    {text : Octets} {call : Call} (hcall : Abandons sessions text call) :
    ∃ (peer : Endpoint) (code : ErrorCode), (sessions.call store config call).actions =
      [.note .warning (ascii "transfer to " ++ peer.text ++ ascii " failed: " ++
        Transfer.peerErrorDetail code text)] := by
  obtain ⟨octets, peer, now, transfer, code, hfind, hdecode⟩ := hcall
  have hopen := (hlive.find? hfind).isTerminal_eq_false
  -- An ERROR is not answered, so the closing message is all there is.
  have hreceive : sessions.receive store config octets peer now =
      sessions.settle peer (transfer.fail sessions.world (Transfer.peerErrorDetail code text) none) := by
    simp only [receive, hfind, hdecode, Message.error, Transfer.receive, hopen]
    rfl
  refine ⟨peer, code, ?_⟩
  rw [call, hreceive, settle_actions _ (by simp [hfind])]
  rfl

theorem Abandons.text_unique {text other : Octets} {call : Call}
    (hcall : Abandons sessions text call) (hother : Abandons sessions other call) : text = other := by
  obtain ⟨octets, peer, now, _, code, _, hdecode⟩ := hcall
  cases hother with
  | intro _ _ _ _ otherCode _ hotherDecode =>
      rw [hdecode] at hotherDecode
      cases hotherDecode
      rfl

theorem call_messages_iff (hstore : store.Explains Printable) (config : EngineConfig)
    (hlive : sessions.AllLive) (call : Call) (sink : Sink κ) (logger : Logger) (state : κ) :
    (∀ message ∈ logger.logged
        (Action.messages sink logger (sessions.call store config call).actions state),
      Printable message.2) ↔
      (logger.isEnabled .warning = true → ∀ text, Abandons sessions text call → Printable text) := by
  by_cases habandons : ∃ text, Abandons sessions text call
  · obtain ⟨text, hcall⟩ := habandons
    obtain ⟨peer, code, hactions⟩ := call_of_abandons store config hlive hcall
    have hshown : Printable (ascii "transfer to " ++ peer.text ++ ascii " failed: " ++
        Transfer.peerErrorDetail code text) ↔ Printable text := by
      have hopening : Printable (ascii "transfer to ") := by decide
      have hmiddle : Printable (ascii " failed: ") := by decide
      have herror : Printable (ascii "peer sent ERROR ") := by decide
      have hcolon : Printable (ascii ": ") := by decide
      simp only [Transfer.peerErrorDetail, printable_append, Endpoint.printable_text,
        printable_decimal, hopening, hmiddle, herror, hcolon, true_and]
    have hmessages : Action.messages sink logger (sessions.call store config call).actions state =
        [(.warning, ascii "transfer to " ++ peer.text ++ ascii " failed: " ++
          Transfer.peerErrorDetail code text)] := by
      rw [hactions]
      rfl
    rw [hmessages]
    constructor
    · intro hall henabled other hother
      obtain rfl := hcall.text_unique hother
      exact hshown.mp (hall _ (List.mem_filter.mpr ⟨List.mem_cons_self, henabled⟩))
    · intro hall message hmessage
      obtain ⟨hmem, henabled⟩ := List.mem_filter.mp hmessage
      obtain rfl := List.mem_singleton.mp hmem
      exact hshown.mpr (hall henabled text hcall)
  · have hclean := clean_call hstore config hlive fun text hcall => habandons ⟨text, hcall⟩
    constructor
    · intro _ _ text hcall
      exact absurd ⟨text, hcall⟩ habandons
    · intro _ message hmessage
      exact Action.printable_of_mem_messages sink logger hclean (List.mem_filter.mp hmessage).1

/-- Every ERROR by which a peer ends its transfer has a printable text. -/
def PrintableErrors (store : Store ω σ) (config : EngineConfig) (sessions : Sessions ω σ)
    (calls : List Call) : Prop :=
  ∀ earlier call later text, calls = earlier ++ call :: later →
    Abandons (sessions.run store config earlier) text call → Printable text

theorem printableErrors_cons (store : Store ω σ) (config : EngineConfig) (sessions : Sessions ω σ)
    (call : Call) (rest : List Call) :
    PrintableErrors store config sessions (call :: rest) ↔
      (∀ text, Abandons sessions text call → Printable text) ∧
        PrintableErrors store config (sessions.call store config call).sessions rest := by
  constructor
  · intro hall
    exact ⟨fun text => hall [] call rest text rfl,
      fun earlier next later text hrest => hall (call :: earlier) next later text (by rw [hrest]; rfl)⟩
  · rintro ⟨hcall, hrest⟩ earlier next later text hcalls habandons
    rcases List.cons_eq_append_iff.mp hcalls with ⟨rfl, hsplit⟩ | ⟨others, rfl, hsplit⟩
    · cases hsplit
      exact hcall text habandons
    · exact hrest others next later text hsplit habandons

end Sessions

namespace Server

theorem run_messages_iff {store : Store ω σ} (hstore : store.Explains Printable)
    (config : EngineConfig) (sink : Sink κ) (logger : Logger) {server : Server ω σ κ}
    (hlive : server.sessions.AllLive) (calls : List Call) :
    (∀ message ∈ logger.logged (server.run store config sink logger calls).messages,
      Printable message.2) ↔
      (∀ message ∈ logger.logged server.messages, Printable message.2) ∧
        (logger.isEnabled .warning = true →
          server.sessions.PrintableErrors store config calls) := by
  induction calls generalizing server with
  | nil =>
      constructor
      · intro hall
        refine ⟨hall, fun _ earlier call later text hcalls _ => ?_⟩
        exact absurd hcalls.symm (by simp)
      · intro hall
        exact hall.1
  | cons call rest ih =>
      have hnext : (server.take store config sink logger call).sessions.AllLive :=
        (Sessions.call_sound hstore.nul_notMem hlive call).2
      have hcall := Sessions.call_messages_iff hstore config hlive call sink logger server.sink
      rw [Sessions.printableErrors_cons, imp_and, ← hcall, ← and_assoc]
      refine (ih hnext).trans (and_congr_left fun _ => ?_)
      simp only [take, Logger.logged, List.filter_append, List.mem_append, or_imp, forall_and]

theorem fresh_allLive (world : ω) (state : κ) :
    (fresh world state : Server ω σ κ).sessions.AllLive := by
  simp [fresh, Sessions.AllLive]

/-- The log of a run over a store that explains itself in printable text, as the memory
store and the file store do, is intact exactly if warnings are off or every ERROR by which
a peer ends its transfer has a printable text. -/
theorem run_logIntact_iff {store : Store ω σ} (hstore : store.Explains Printable)
    (config : EngineConfig) (sink : Sink κ) {logger : Logger} (htag : Printable logger.tag)
    (world : ω) (state : κ) (calls : List Call) :
    ((fresh world state).run store config sink logger calls).LogIntact logger ↔
      (logger.isEnabled .warning = true →
        Sessions.PrintableErrors store config { world } calls) := by
  have hlog := run_log store config sink logger (fresh world state) rfl calls
  have hmessages := run_messages_iff hstore config sink logger (fresh_allLive world state) calls
  rw [logIntact_iff htag hlog, hmessages]
  constructor
  · intro hall
    exact hall.2
  · intro herrors
    exact ⟨by simp [fresh, Logger.logged], herrors⟩

/-- A transfer that its peer ends with an ERROR of printable text leaves the log
intact. -/
theorem logIntact_after_printable_error :
    let peer := Endpoint.ipv4 192 168 1 20 50001
    let request := [0, 1] ++ ascii "a" ++ [0] ++ ascii "octet" ++ [0]
    let error := [0, 5, 0, 0] ++ ascii "enough" ++ [0]
    let logger : Logger := ⟨ascii "rolltftpd", .debug⟩
    ((fresh [(ascii "a", #[65])] ()).run memoryStore {} (fun _ _ state => (.ok, state)) logger
      [.datagram request peer 0, .datagram error peer 10]).LogIntact logger := by
  intro peer request error logger
  have hrequest : decode request = .ok ⟨.rrq, .request ⟨ascii "a", .octet, []⟩⟩ := by
    rfl
  have herror : decode error = .ok (.error ⟨0⟩ (ascii "enough")) := by
    rfl
  have htag : Printable logger.tag := by
    decide +kernel
  have hiff := run_logIntact_iff memoryStore_explains {} (fun _ _ state => (.ok, state)) htag
    [(ascii "a", #[65])] () [.datagram request peer 0, .datagram error peer 10]
  refine hiff.mpr fun _ => ?_
  rw [Sessions.printableErrors_cons, Sessions.printableErrors_cons]
  refine ⟨fun text hcall => ?_, fun text hcall => ?_, fun earlier call later text hcalls _ => ?_⟩
  · cases hcall with
    | intro _ _ _ _ code hfind hdecode =>
        rw [hrequest] at hdecode
        cases hdecode
  · cases hcall with
    | intro _ _ _ _ code hfind hdecode =>
        rw [herror] at hdecode
        cases hdecode
        decide
  · exact absurd hcalls.symm (by simp)

/-- With a newline in that text, the peer adds a line of its own making. -/
theorem not_logIntact_after_forged_line :
    let peer := Endpoint.ipv4 192 168 1 20 50001
    let request := [0, 1] ++ ascii "a" ++ [0] ++ ascii "octet" ++ [0]
    let error := [0, 5, 0, 0] ++ ascii "x" ++ [10] ++ ascii "rolltftpd [INFO]: forged" ++ [0]
    let logger : Logger := ⟨ascii "rolltftpd", .debug⟩
    Printable logger.tag ∧
      ¬ ((fresh [(ascii "a", #[65])] ()).run memoryStore {} (fun _ _ state => (.ok, state)) logger
        [.datagram request peer 0, .datagram error peer 10]).LogIntact logger := by
  intro peer request error logger
  have herror : decode error =
      .ok (.error ⟨0⟩ (ascii "x" ++ [10] ++ ascii "rolltftpd [INFO]: forged")) := by
    rfl
  have hfind : ((Sessions.run memoryStore {} { world := [(ascii "a", #[65])] }
      [.datagram request peer 0]).table.find? peer).isSome := by
    decide +kernel
  obtain ⟨transfer, htransfer⟩ := Option.isSome_iff_exists.mp hfind
  have hcall := Sessions.Abandons.intro error peer 10 transfer ⟨0⟩ htransfer herror
  have htag : Printable logger.tag := by
    decide
  refine ⟨htag, fun hintact => ?_⟩
  have hprintable := (logIntact_iff htag (run_log memoryStore {} _ logger _ rfl _)).mp hintact
  have hmessages := run_messages_iff memoryStore_explains {} (fun _ _ state => (.ok, state)) logger
    (fresh_allLive [(ascii "a", #[65])] ()) [.datagram request peer 0, .datagram error peer 10]
  have htext := (hmessages.mp hprintable).2 rfl [.datagram request peer 0] _ [] _ rfl hcall
  revert htext
  decide

end Server

end TftpServer
