import TftpServer.Text.Split

/-! # Log lines

A line carries the tag of the program and a level, and is written when its
level reaches the threshold. The `silent` threshold writes nothing at all.
-/

namespace TftpServer

/-- Log levels, in rising order. `silent` is a threshold and no message has it. -/
inductive LogLevel where
  | debug
  | info
  | warning
  | fatal
  | silent
  deriving DecidableEq, Repr

namespace LogLevel

/-- The place of a level in the order. -/
def rank : LogLevel → Nat
  | .debug => 0
  | .info => 1
  | .warning => 2
  | .fatal => 3
  | .silent => 4

def name : LogLevel → Octets
  | .debug => ascii "DEBUG"
  | .info => ascii "INFO"
  | .warning => ascii "WARNING"
  | .fatal => ascii "FATAL"
  | .silent => ascii "LOG"

end LogLevel

/-- A logger: the tag of its lines and the level from which on it writes. -/
structure Logger where
  tag : Octets
  threshold : LogLevel
  deriving DecidableEq, Repr

namespace Logger

def isEnabled (logger : Logger) (level : LogLevel) : Bool :=
  logger.threshold ≠ .silent && logger.threshold.rank ≤ level.rank

/-- The octets written for one message: a whole line, or nothing. -/
def line (logger : Logger) (level : LogLevel) (text : Octets) : Octets :=
  if logger.isEnabled level then
    logger.tag ++ ascii " [" ++ level.name ++ ascii "]: " ++ text ++ [10]
  else []

/-- The lines of a log, without their newlines. -/
def linesOf (log : Octets) : List Octets :=
  (Text.splitOn 10 log).dropLast

end Logger

end TftpServer
