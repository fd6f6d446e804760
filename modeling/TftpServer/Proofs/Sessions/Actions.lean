import TftpServer.Sessions.Action

/-! # What actions come to

Carried out, a list of actions hands its datagrams to the sink in order, and
writes one line for each message that reaches the threshold. Which datagrams
these are does not depend on how the sink fares; only the messages about lost
replies do.
-/

namespace TftpServer

variable {κ : Type}

/-- Datagrams and the peers they are for, in the order in which they were handed
to a sink. -/
abbrev SendRecord := List (Endpoint × Octets)

def SendRecord.to (record : SendRecord) (peer : Endpoint) : List Octets :=
  record.filterMap fun (receiver, datagram) => if receiver = peer then some datagram else none

@[simp] theorem SendRecord.to_append (first second : SendRecord) (peer : Endpoint) :
    SendRecord.to (first ++ second) peer = SendRecord.to first peer ++ SendRecord.to second peer :=
  List.filterMap_append

theorem SendRecord.mem_to {record : SendRecord} {peer : Endpoint} {datagram : Octets} :
    datagram ∈ record.to peer ↔ (peer, datagram) ∈ record := by
  simp only [SendRecord.to, List.mem_filterMap, Prod.exists]
  constructor
  · rintro ⟨receiver, sent, hmem, hsent⟩
    split at hsent
    next heq =>
      cases hsent
      exact heq ▸ hmem
    next => cases hsent
  · exact fun hmem => ⟨peer, datagram, hmem, if_pos rfl⟩

theorem SendRecord.to_map_self (peer : Endpoint) (sent : List Octets) :
    SendRecord.to (sent.map (peer, ·)) peer = sent := by
  rw [SendRecord.to, List.filterMap_map]
  change sent.filterMap (fun datagram => if peer = peer then some datagram else none) = sent
  simp

theorem SendRecord.to_map_other {peer other : Endpoint} (hother : other ≠ peer)
    (sent : List Octets) : SendRecord.to (sent.map (peer, ·)) other = [] := by
  rw [SendRecord.to, List.filterMap_map]
  change sent.filterMap (fun datagram => if peer = other then some datagram else none) = []
  simp [hother.symm]

/-- The same sink, with a record of what it was handed. -/
def Sink.recorded (sink : Sink κ) : Sink (κ × SendRecord) := fun peer datagram (state, record) =>
  let (status, state) := sink peer datagram state
  (status, (state, record ++ [(peer, datagram)]))

abbrev LogMessage := LogLevel × Octets

/-- The line of a message, as far as its level is enabled. -/
def Logger.lineOf (logger : Logger) (message : LogMessage) : Octets :=
  logger.line message.1 message.2

namespace Action

def datagram? : Action → Option (Endpoint × Octets)
  | .note _ _ => none
  | .send peer datagram => some (peer, datagram)
  | .reply peer _ datagram => some (peer, datagram)

def datagrams (actions : List Action) : SendRecord :=
  actions.filterMap datagram?

@[simp] theorem datagrams_append (first second : List Action) :
    datagrams (first ++ second) = datagrams first ++ datagrams second :=
  List.filterMap_append

theorem datagrams_map_send (peer : Endpoint) (sent : List Octets) :
    datagrams (sent.map (Action.send peer)) = sent.map (peer, ·) := by
  rw [datagrams, List.filterMap_map]
  exact congrFun List.filterMap_eq_map sent

/-- The message that an action puts into the log. Losing a reply is worth one,
losing a datagram of a transfer is not. -/
def message? (sink : Sink κ) (state : κ) : Action → Option LogMessage
  | .note level text => some (level, text)
  | .send _ _ => none
  | .reply peer code datagram =>
    if (sink peer datagram state).1 = .ok then none
    else some (.warning, ascii "could not send ERROR " ++ Text.decimal code.value.toNat ++
      ascii " to " ++ peer.text)

theorem perform_reply (sink : Sink κ) (logger : Logger) (peer : Endpoint) (code : ErrorCode)
    (datagram : Octets) (state : κ) :
    (Action.reply peer code datagram).perform sink logger state =
      (((Action.reply peer code datagram).message? sink state).toList.flatMap logger.lineOf,
        (sink peer datagram state).2) := by
  rcases hsink : sink peer datagram state with ⟨status, after⟩
  cases status with
  | ok => simp [perform, message?, hsink]
  | invalidArgs | timedOut | pipeClosed => simp [perform, message?, hsink, Logger.lineOf]

theorem perform_log (sink : Sink κ) (logger : Logger) (action : Action) (state : κ) :
    (action.perform sink logger state).1 =
      (action.message? sink state).toList.flatMap logger.lineOf := by
  cases action with
  | note level text => simp [perform, message?, Logger.lineOf]
  | send peer datagram => rfl
  | reply peer code datagram => rw [perform_reply]

theorem perform_state (sink : Sink κ) (logger : Logger) (action : Action) (state : κ) :
    (action.perform sink logger state).2 =
      (action.datagram?).elim state fun sent => (sink sent.1 sent.2 state).2 := by
  cases action with
  | note level text => rfl
  | send peer datagram => rfl
  | reply peer code datagram => rw [perform_reply]; rfl

def messages (sink : Sink κ) (logger : Logger) : List Action → κ → List LogMessage
  | [], _ => []
  | action :: rest, state =>
    (action.message? sink state).toList ++
      messages sink logger rest (action.perform sink logger state).2

/-- The log is made of the lines of the messages, and of nothing else. -/
theorem performAll_log (sink : Sink κ) (logger : Logger) (actions : List Action) (state : κ) :
    (performAll sink logger actions state).1 =
      (messages sink logger actions state).flatMap logger.lineOf := by
  induction actions generalizing state with
  | nil => rfl
  | cons action rest ih =>
      rw [performAll, messages, List.flatMap_append, ← perform_log sink logger, ← ih]

/-- The sink is handed the datagrams of the actions, whatever it does with
them. -/
theorem performAll_recorded (sink : Sink κ) (logger : Logger) (actions : List Action) (state : κ)
    (record : SendRecord) :
    (performAll sink.recorded logger actions (state, record)).2.2 = record ++ datagrams actions := by
  induction actions generalizing state record with
  | nil => exact (List.append_nil record).symm
  | cons action rest ih =>
      rw [performAll]
      dsimp only
      rw [perform_state]
      cases action with
      | note level text => exact ih state record
      | send peer datagram | reply peer code datagram =>
          refine (ih _ (record ++ [(peer, datagram)])).trans ?_
          rw [List.append_assoc]
          rfl

end Action

end TftpServer
