import TftpServer.Log
import TftpServer.Negotiation

/-! # Server arguments

The command line names a port and a serving root, followed by flags in any
order. A flag that takes a value takes the next argument whatever it looks
like, and of several flags for the same setting the last one holds. Reading
stops at the first argument that is wrong.
-/

namespace TftpServer

structure ServerConfig where
  address : Octets := ascii "0.0.0.0"
  port : Octets
  root : Octets
  engine : EngineConfig := {}
  logLevel : LogLevel := .info
  deriving DecidableEq, Repr

inductive ConfigError where
  | missingPositionals
  | invalidPort (text : Octets)
  | unknownArgument (text : Octets)
  | missingValue (flag : Octets)
  | invalidTimeout (text : Octets)
  | invalidRetryLimit (text : Octets)
  | invalidBlockSize (text : Octets)
  deriving DecidableEq, Repr

def ConfigError.message : ConfigError → Octets
  | .missingPositionals => ascii "missing <port> or <root dir>"
  | .invalidPort text => ascii "invalid port: " ++ text
  | .unknownArgument text => ascii "unknown argument: " ++ text
  | .missingValue flag => ascii "missing value for " ++ flag
  | .invalidTimeout text => ascii "invalid timeout (1-255 secs): " ++ text
  | .invalidRetryLimit text => ascii "invalid retry limit (0-255): " ++ text
  | .invalidBlockSize text => ascii "invalid max blksize (8-65464): " ++ text

def usageText : Octets :=
  ascii "usage: ./rolltftpd <port> <root dir> [-a address] [-t timeout secs] [-r retries] [-b max blksize] [-v | -q]\n"

/-- The number that a whole text spells, if it lies between two bounds. -/
def parseBounded (largest lowest highest : Nat) (text : Octets) : Option Nat :=
  match Text.parseDecimal largest text with
  | .ok value => if lowest ≤ value ∧ value ≤ highest then some value else none
  | .error _ => none

namespace ServerConfig

inductive ValueFlag where
  | address
  | timeout
  | retryLimit
  | blockSize
  deriving DecidableEq, Repr

def ValueFlag.ofArgument (argument : Octets) : Option ValueFlag :=
  if argument = ascii "-a" then some .address
  else if argument = ascii "-t" then some .timeout
  else if argument = ascii "-r" then some .retryLimit
  else if argument = ascii "-b" then some .blockSize
  else none

def setValue (config : ServerConfig) (flag : ValueFlag) (value : Octets) :
    Except ConfigError ServerConfig :=
  match flag with
  | .address => .ok { config with address := value }
  | .timeout =>
    match parseBounded (UInt32.size - 1) 1 255 value with
    | some seconds =>
      .ok { config with engine := { config.engine with defaultTimeout := .ofNat seconds } }
    | none => .error (.invalidTimeout value)
  | .retryLimit =>
    match parseBounded (UInt32.size - 1) 0 255 value with
    | some limit => .ok { config with engine := { config.engine with retryLimit := UInt32.ofNat limit } }
    | none => .error (.invalidRetryLimit value)
  | .blockSize =>
    match parseBounded (UInt64.size - 1) 8 65464 value with
    | some size =>
      let limits := { config.engine.limits with maxBlockSize := UInt64.ofNat size }
      .ok { config with engine := { config.engine with limits } }
    | none => .error (.invalidBlockSize value)

def applyFlags (config : ServerConfig) : List Octets → Except ConfigError ServerConfig
  | [] => .ok config
  | argument :: rest =>
    if argument = ascii "-v" then applyFlags { config with logLevel := .debug } rest
    else if argument = ascii "-q" then applyFlags { config with logLevel := .warning } rest
    else
      match ValueFlag.ofArgument argument with
      | none => .error (.unknownArgument argument)
      | some flag =>
        match rest with
        | [] => .error (.missingValue argument)
        | value :: rest => do applyFlags (← config.setValue flag value) rest

/-- The configuration that the arguments after the program name ask for. -/
def ofArguments : List Octets → Except ConfigError ServerConfig
  | port :: root :: flags =>
    match parseBounded (UInt32.size - 1) 1 65535 port with
    | none => .error (.invalidPort port)
    | some _ => applyFlags { port, root } flags
  | _ => .error .missingPositionals

end ServerConfig

end TftpServer
