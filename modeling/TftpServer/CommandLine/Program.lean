import TftpServer.CommandLine.Config
import TftpServer.Network.Candidates
import TftpServer.Service
import TftpServer.Store.File

/-! # The program

The program reads its arguments, checks the serving root, binds the first
usable local address and runs the service until it is stopped. Everything it
does goes through a host and through the files of its world, so a whole run is
a function of these and of the arguments. It falls into a start, which may end
the program already, the turns of the service, and a finish.
-/

namespace TftpServer

/-- The files of a world: which paths are directories, and the store below a
serving root. -/
structure FileAccess (ω σ : Type) where
  isDirectory : Octets → ω → Bool
  store : Octets → Store ω σ

/-- The files of a tree that is the second part of a world. -/
def FileAccess.ofTree (ω : Type) : FileAccess (ω × FileTree) (Delivery FileSource) where
  isDirectory path world := world.2.isDirectory path
  store root := (fileStore root).onSecond

/-- What a finished program leaves: its exit code, what it wrote, and the
world. -/
structure ProgramResult (ω : Type) where
  exitCode : UInt32
  output : Octets := []
  errors : Octets := []
  world : ω

def ServerConfig.logger (config : ServerConfig) : Logger :=
  ⟨ascii "rolltftpd", config.logLevel⟩

/-- Where the program serves, as its log shows it. -/
def ServerConfig.place (config : ServerConfig) : Octets :=
  config.address ++ ascii ":" ++ config.port

namespace Program

variable {ω σ : Type}

/-- The identity of the one server of the program. -/
def server : ServerId := 0

/-- Restores the default signal handling; a failure is noted. -/
def restoreSignals (host : Host ω) (logger : Logger) (world : ω) : Octets × ω :=
  match host.bindStopSignals none world with
  | (true, world) => ([], world)
  | (false, world) =>
    (logger.line .warning (ascii "could not restore default signal handlers"), world)

/-- Ends the program on an error that stopped its work. -/
def abort (host : Host ω) (logger : Logger) (output reason : Octets) (world : ω) : ProgramResult ω :=
  let (lines, world) := restoreSignals host logger world
  { exitCode := 1, output := output ++ lines ++ logger.line .fatal reason, world }

def faultText : Fault → Octets
  | .encoding error => error.message
  | .wrongPayload => ascii "unexpected payload"
  | .noSource => ascii "no source"
  | .brokenOff _ => ascii "length error"

/-- The service on a bound socket, reached by stop signals from here on. -/
def openService (host : Host ω) (config : ServerConfig) (descriptor : Descriptor) (world : ω) :
    Service ω σ :=
  let listening := config.logger.line .info
    (ascii "listening on " ++ config.place ++ ascii ", serving '" ++ config.root ++ ascii "'")
  let (installed, world) := host.bindStopSignals (some server) world
  let unrouted :=
    if installed then []
    else config.logger.line .warning (ascii "could not install stop signal handlers")
  { socket := .ofDescriptor descriptor, sessions := { world }, log := [unrouted, listening] }

/-- Prepares the service that a configuration asks for. When that fails the
program has ended. -/
def startConfigured (host : Host ω) (files : FileAccess ω σ) (config : ServerConfig) (world : ω) :
    Except (ProgramResult ω) (Service ω σ) :=
  if !files.isDirectory config.root world then
    .error
      { exitCode := 1
        output := config.logger.line .fatal
          (ascii "serving root '" ++ config.root ++ ascii "' is not a directory")
        world }
  else
    match Candidates.find host config.address config.port world with
    | .error reason => .error (abort host config.logger [] reason world)
    | .ok candidates =>
      match candidates.firstBound host candidates.remaining.length world with
      | (some descriptor, _, world) => .ok (openService host config descriptor world)
      | (none, candidates, world) =>
        .error
          { exitCode := 1
            output := config.logger.line .fatal
              (ascii "could not bind " ++ config.place ++ ascii ": " ++ candidates.errorText)
            world }

/-- Starts the program with the arguments after its name. -/
def start (host : Host ω) (files : FileAccess ω σ) (arguments : List Octets) (world : ω) :
    Except (ProgramResult ω) (ServerConfig × Service ω σ) :=
  match ServerConfig.ofArguments arguments with
  | .error error =>
    .error
      { exitCode := 1
        errors := ascii "Invalid arguments: " ++ error.message ++ ascii "\n" ++ usageText
        world }
  | .ok config => (startConfigured host files config world).map (config, ·)

def finish (host : Host ω) (config : ServerConfig) (service : Service ω σ) (ending : ServiceEnd) :
    ProgramResult ω :=
  match ending with
  | .faulted fault => abort host config.logger service.logText (faultText fault) service.world
  | .unfinished => { exitCode := 1, output := service.logText, world := service.world }
  | .stopped =>
    let (lines, world) := restoreSignals host config.logger service.world
    { exitCode := 0, output := service.logText ++ lines, world }
  | .failed =>
    let (lines, world) := restoreSignals host config.logger service.world
    { exitCode := 1
      output := service.logText ++ lines ++
        config.logger.line .fatal
          (ascii "service on " ++ config.place ++ ascii " stopped on a socket error")
      world }

/-- Runs the program with the arguments after its name, up to a number of turns
of its service. -/
def run (host : Host ω) (files : FileAccess ω σ) (bound : Nat) (arguments : List Octets)
    (world : ω) : ProgramResult ω :=
  match start host files arguments world with
  | .error result => result
  | .ok (config, service) =>
    let (service, ending) :=
      service.run host (files.store config.root) config.engine config.logger server bound
    finish host config service ending

end Program

end TftpServer
