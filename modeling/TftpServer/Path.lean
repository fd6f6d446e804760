import TftpServer.Text.Split

/-! # Requested names as paths

A requested name is resolved below the serving root by its text alone. Leading
slashes are dropped, empty and `.` components are skipped, and `..` cancels the
component before it. A `..` with nothing left to cancel would leave the root,
and the name is refused.
-/

namespace TftpServer.Path

/-- The separator of path components. -/
def slash : UInt8 := 47

/-- The components of a path, empty ones included. -/
def components (path : Octets) : List Octets :=
  Text.splitOn slash path

/-- A component that stays where it is: empty or a single dot. -/
def isHere (component : Octets) : Bool :=
  component == [] || component == ascii "."

/-- The component that goes one level up. -/
def isUp (component : Octets) : Bool :=
  component == ascii ".."

/-- Walks relative components from below the root. `kept` are the components
walked into so far, innermost first. The result is empty when the walk leaves
the root. -/
def settle (kept : List Octets) : List Octets → Option (List Octets)
  | [] => some kept.reverse
  | component :: rest =>
    if isHere component then settle kept rest
    else if isUp component then
      match kept with
      | [] => none
      | _ :: outer => settle outer rest
    else settle (component :: kept) rest

/-- Whether a path ends in a component that denotes a directory: an empty one
after a slash, a dot, or a double dot. -/
def endsInDirectory (path : Octets) : Bool :=
  match (components path).getLast? with
  | some last => isHere last || isUp last
  | none => false

/-- The normal form of a relative path with the given components. A path that
stays where it is becomes a dot; a slash at the end is kept. -/
def normalText (kept : List Octets) (directory : Bool) : Octets :=
  match kept with
  | [] => ascii "."
  | _ => Text.joinWith slash kept ++ if directory then [slash] else []

/-- `relative` below `root`, with one slash between them unless the root is
empty or brings its own. -/
def append (root relative : Octets) : Octets :=
  if root = [] ∨ root.getLast? = some slash then root ++ relative
  else root ++ slash :: relative

/-- The path of a requested name below the root; nothing when the name is empty
or leaves the root. -/
def resolveBelow (root requested : Octets) : Option Octets :=
  match requested.dropWhile (· == slash) with
  | [] => none
  | name =>
    (settle [] (components name)).map fun kept =>
      append root (normalText kept (endsInDirectory name))

end TftpServer.Path
