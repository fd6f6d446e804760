import TftpServer.Network.Socket

/-! # Socket pools

A pool holds sockets under names, and its steps are all that can be done with
their ownership: a socket begins with a descriptor of its own or with that of
another socket, takes over the descriptor of another one, and ends. Every step
says which descriptors it closed.
-/

namespace TftpServer

/-- Sockets by name. A name without a socket stands for one that holds nothing. -/
abbrev SocketPool (κ : Type) := List (κ × Socket)

/-- A step in the lives of the sockets of a pool. A new socket first ends the one
that has its name. -/
inductive SocketStep (κ : Type) where
  /-- A new socket takes charge of a descriptor. -/
  | create (name : κ) (descriptor : Descriptor)
  /-- A new socket takes the descriptor of another one. -/
  | createFrom (name source : κ)
  /-- A socket takes over the descriptor of another one. -/
  | assign (target source : κ)
  | destroy (name : κ)
  deriving DecidableEq, Repr

namespace SocketPool

variable {κ : Type} [DecidableEq κ]

def get (pool : SocketPool κ) (name : κ) : Socket :=
  (pool.lookup name).getD .unbound

def erase (pool : SocketPool κ) (name : κ) : SocketPool κ :=
  pool.filter (·.1 ≠ name)

/-- The pool with another socket under a name. -/
def insert (pool : SocketPool κ) (name : κ) (socket : Socket) : SocketPool κ :=
  (name, socket) :: pool.erase name

def destroy (pool : SocketPool κ) (name : κ) : SocketPool κ × List Descriptor :=
  (pool.erase name, (pool.get name).destroy.2.toList)

/-- Carries out a step: the pool afterwards and the descriptors closed. Assigning
a socket to itself changes nothing. -/
def step (pool : SocketPool κ) : SocketStep κ → SocketPool κ × List Descriptor
  | .create name descriptor =>
    let (pool, closed) := pool.destroy name
    (pool.insert name (.ofDescriptor descriptor), closed)
  | .createFrom name source =>
    let (pool, closed) := pool.destroy name
    let (fresh, left) := (pool.get source).moveOut
    ((pool.insert source left).insert name fresh, closed)
  | .assign target source =>
    if target = source then (pool, [])
    else
      let (taken, left, released) := (pool.get target).takeOver (pool.get source)
      ((pool.insert target taken).insert source left, released.toList)
  | .destroy name => pool.destroy name

/-- Carries out steps in order: the pool afterwards and all descriptors closed. -/
def steps (pool : SocketPool κ) : List (SocketStep κ) → SocketPool κ × List Descriptor
  | [] => (pool, [])
  | first :: rest =>
    let (pool, closed) := pool.step first
    let (pool, later) := steps pool rest
    (pool, closed ++ later)

/-- Carries out steps on a host, which closes what they release. -/
def stepsOn {ω : Type} (pool : SocketPool κ) (host : Host ω) (steps : List (SocketStep κ))
    (world : ω) : SocketPool κ × ω :=
  let (pool, closed) := pool.steps steps
  (pool, closed.foldl (fun world descriptor => host.close descriptor world) world)

end SocketPool

end TftpServer
