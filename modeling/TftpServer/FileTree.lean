import TftpServer.Path

/-! # File trees

A tree of directories and regular files, without links. Paths are walked
component by component: an empty or dot component stays in a directory, a
double dot returns to the directory above, and at the top it stays. Walking on
from a file fails, and so does a name that is not there. Changes walk the same
way, with a cursor that can put the changed directory back into its tree. A path
of more than 4095 octets leads nowhere, and neither does one with a component of
more than 255.
-/

namespace TftpServer

/-- A file with its content, or a directory with its named entries. -/
inductive FileTree where
  | file (content : Content)
  | directory (children : List (Octets × FileTree))

namespace FileTree

/-- The longest path, in octets. -/
def maxPathLength : Nat := 4095

/-- The longest component of a path, in octets. -/
def maxNameLength : Nat := 255

/-- The entry reached from `here` by walking along components; `above` are the
directories passed on the way, innermost first. -/
def walk (above : List FileTree) (here : FileTree) : List Octets → Option FileTree
  | [] => some here
  | component :: rest =>
    match here with
    | .file _ => none
    | .directory children =>
      if Path.isHere component then walk above here rest
      else if Path.isUp component then
        match above with
        | [] => walk [] here rest
        | parent :: outer => walk outer parent rest
      else
        match children.lookup component with
        | none => none
        | some child => walk (here :: above) child rest

/-- The components along which a path leads, if it leads anywhere. It ends at its
first NUL, and the empty path leads nowhere. -/
def route (path : Octets) : Option (List Octets) :=
  let text := path.takeWhile (· != 0)
  let parts := Path.components text
  if text = [] ∨ maxPathLength < text.length ∨ parts.any (maxNameLength < ·.length) then none
  else some parts

def find? (tree : FileTree) (path : Octets) : Option FileTree :=
  (route path).bind (walk [] tree)

def isDirectory (tree : FileTree) (path : Octets) : Bool :=
  match tree.find? path with
  | some (.directory _) => true
  | _ => false

/-- The tree that holds an entry at the end of some names and nothing else. -/
def only (entry : FileTree) : List Octets → FileTree
  | [] => entry
  | name :: rest => .directory [(name, only entry rest)]

end FileTree

abbrev Directory := List (Octets × FileTree)

/-- Replaces the entry of a name, or adds it. -/
def Directory.insert (name : Octets) (entry : FileTree) : Directory → Directory
  | [] => [(name, entry)]
  | (other, old) :: rest =>
    if other = name then (name, entry) :: rest else (other, old) :: insert name entry rest

/-- A directory within a tree: its entries, and the directories above it, each
with the name through which it was left, innermost first. -/
structure DirectoryCursor where
  here : Directory
  above : List (Octets × Directory) := []

namespace DirectoryCursor

/-- The directory above, with this one put back into it. At the top it stays. -/
def up (cursor : DirectoryCursor) : DirectoryCursor :=
  match cursor.above with
  | [] => cursor
  | (name, outer) :: above => ⟨outer.insert name (.directory cursor.here), above⟩

/-- The directory of a name. When the name is not there it is entered as an empty
directory if `create` says so. A file is never entered. -/
def down (create : Bool) (cursor : DirectoryCursor) (name : Octets) : Option DirectoryCursor :=
  match cursor.here.lookup name with
  | some (.directory children) => some ⟨children, (name, cursor.here) :: cursor.above⟩
  | some (.file _) => none
  | none => if create then some ⟨[], (name, cursor.here) :: cursor.above⟩ else none

def walk (create : Bool) (cursor : DirectoryCursor) : List Octets → Option DirectoryCursor
  | [] => some cursor
  | component :: rest =>
    if Path.isHere component then walk create cursor rest
    else if Path.isUp component then walk create cursor.up rest
    else do walk create (← cursor.down create component) rest

/-- Puts a directory back into those above it, up to the top. -/
def close (here : Directory) : List (Octets × Directory) → FileTree
  | [] => .directory here
  | (name, outer) :: above => close (outer.insert name (.directory here)) above

def tree (cursor : DirectoryCursor) : FileTree := close cursor.here cursor.above

end DirectoryCursor

namespace FileTree

/-- The cursor at the top of a tree that is a directory. -/
def cursor : FileTree → Option DirectoryCursor
  | .file _ => none
  | .directory children => some { here := children }

/-- Creates a directory and those on the way to it. With a file on the way
nothing is changed. -/
def addDirectory (tree : FileTree) (path : Octets) : FileTree :=
  let made := do
    let reached ← (← tree.cursor).walk true (← route path)
    return reached.tree
  made.getD tree

/-- Creates a file in a directory that is there, or replaces the content of a
file. When the path leads to no such place, or to a directory, nothing is
changed. -/
def writeFile (tree : FileTree) (path : Octets) (content : Content) : FileTree :=
  let written := do
    let parts ← route path
    let name ← parts.getLast?
    let reached ← (← tree.cursor).walk false parts.dropLast
    match reached.here.lookup name with
    | some (.directory _) => none
    | _ =>
      if Path.isHere name || Path.isUp name then none
      else return { reached with here := reached.here.insert name (.file content) }.tree
  written.getD tree

end FileTree

end TftpServer
