import TftpServer.Proofs.Sessions.Calls

/-! # Sessions with a sink and a log

A server takes calls and carries out what each of them asks for: datagrams go to
the sink, messages go to the log. Besides the text of the log it keeps the
messages that were meant for it.
-/

namespace TftpServer

variable {ω σ κ : Type}

/-- Sessions between calls, with the state of the sink, the log so far, and the
messages it was made for. -/
structure Server (ω σ κ : Type) where
  sessions : Sessions ω σ
  sink : κ
  log : Octets := []
  messages : List LogMessage := []

namespace Server

def fresh (world : ω) (sink : κ) : Server ω σ κ where
  sessions := { world }
  sink := sink

def take (store : Store ω σ) (config : EngineConfig) (sink : Sink κ) (logger : Logger)
    (server : Server ω σ κ) (call : Call) : Server ω σ κ :=
  let outcome := server.sessions.call store config call
  let (lines, state) := Action.performAll sink logger outcome.actions server.sink
  { sessions := outcome.sessions
    sink := state
    log := server.log ++ lines
    messages := server.messages ++ Action.messages sink logger outcome.actions server.sink }

def run (store : Store ω σ) (config : EngineConfig) (sink : Sink κ) (logger : Logger)
    (server : Server ω σ κ) (calls : List Call) : Server ω σ κ :=
  calls.foldl (take store config sink logger) server

section Run

variable (store : Store ω σ) (config : EngineConfig) (sink : Sink κ) (logger : Logger)
  (server : Server ω σ κ)

theorem run_log (hlog : server.log = server.messages.flatMap logger.lineOf) (calls : List Call) :
    (server.run store config sink logger calls).log =
      (server.run store config sink logger calls).messages.flatMap logger.lineOf := by
  induction calls generalizing server with
  | nil => exact hlog
  | cons call rest ih =>
      refine ih (server.take store config sink logger call) ?_
      simp only [take, Action.performAll_log, List.flatMap_append, hlog]

end Run

end Server

end TftpServer
