/-! # Stop signals

A stop signal reaches the server that was bound last, if any, and sets its stop
flag. Flags are never cleared.
-/

namespace TftpServer

abbrev ServerId := Nat

/-- The signal state of a process: the server that stop signals reach, and the
servers that were asked to stop. -/
structure StopSignals where
  target : Option ServerId := none
  stopped : List ServerId := []
  deriving DecidableEq, Repr

namespace StopSignals

/-- Routes stop signals to a server, or to none. -/
def bind (signals : StopSignals) (target : Option ServerId) : StopSignals :=
  { signals with target }

def request (signals : StopSignals) (server : ServerId) : StopSignals :=
  { signals with stopped := server :: signals.stopped }

def deliver (signals : StopSignals) : StopSignals :=
  match signals.target with
  | some server => signals.request server
  | none => signals

def isStopped (signals : StopSignals) (server : ServerId) : Bool :=
  signals.stopped.contains server

end StopSignals

end TftpServer
