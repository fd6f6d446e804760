import TftpServer.Network.View
import TftpServer.Packet.Reader

/-! # Fields at positions

The field readers as they work on a datagram in memory. A reader is given a view
of the datagram and a position in it, which may be any word, and answers with the
field and the position behind it. The largest word stands for no position: a
field that is not there is reported with it, so that it must not be mistaken for
the position behind a field.
-/

namespace TftpServer

/-- The word that marks a field that is not there. -/
def noPosition : UInt64 := UInt64.ofNat (UInt64.size - 1)

/-- A field and the position behind it. -/
structure FieldAt (α : Type) where
  field : α
  position : UInt64
  deriving DecidableEq, Repr

/-- The answer for a field that is not there, with an empty value in its place. -/
def FieldAt.missing {α : Type} (empty : α) : FieldAt α := ⟨empty, noPosition⟩

@[simp] theorem FieldAt.position_missing {α : Type} (empty : α) :
    (missing empty).position = noPosition := rfl

/-- What one round of reading options comes to: a pair and the position behind
it, or a defect. -/
inductive OptionRound where
  | pair (option : OptionField) (position : UInt64)
  | stop (defect : Defect)
  deriving DecidableEq, Repr

namespace OctetView

/-- The big-endian 16-bit number at a position. -/
def u16At (view : OctetView) (start : UInt64) : Checked (FieldAt UInt16) :=
  if view.length < start then .ok (.missing 0)
  else do
    let rest ← Checked.sub view.length start
    if rest < 2 then return .missing 0
    else
      let high ← view.fetch start
      let low ← view.fetch (← Checked.add start 1)
      return ⟨word high low, ← Checked.add start 2⟩

/-- Collects octets behind `text`, up to the first NUL or the end of the view, and
tells where it stopped. -/
def scanText (view : OctetView) (position : UInt64) (text : Array UInt8) :
    Checked (FieldAt Octets) :=
  if view.length ≤ position then .ok ⟨text.toList, position⟩
  else
    match view.fetch position with
    | .error trespass => .error trespass
    | .ok octet =>
      if octet = 0 then .ok ⟨text.toList, position⟩
      else
        match _ : Checked.add position 1 with
        | .error trespass => .error trespass
        | .ok next => view.scanText next (text.push octet)
termination_by view.length.toNat - position.toNat
decreasing_by
  have hnext := Checked.toNat_of_add ‹Checked.add position 1 = .ok next›
  have hinside : position.toNat < view.length.toNat := UInt64.not_le.mp ‹¬view.length ≤ position›
  rw [hnext]
  exact Nat.sub_lt_sub_left hinside (Nat.lt_succ_self _)

/-- The text at a position, up to the next NUL, which is passed over. -/
def textAt (view : OctetView) (start : UInt64) : Checked (FieldAt Octets) :=
  if view.length ≤ start then .ok (.missing [])
  else do
    let found ← view.scanText start #[]
    if found.position = view.length then return .missing []
    else return ⟨found.field, ← Checked.add found.position 1⟩

/-- Everything from a position on. -/
def blobAt (view : OctetView) (start : UInt64) : Checked (FieldAt Octets) :=
  if view.length < start then .ok (.missing [])
  else do
    let rest ← Checked.sub view.length start
    let part ← view.part start rest
    return ⟨← part.copy, view.length⟩

/-- Reads a name and a value. -/
def optionRound (view : OctetView) (start : UInt64) : Checked OptionRound := do
  let name ← view.textAt start
  if name.position = noPosition then return .stop .truncated
  else if view.length ≤ name.position then return .stop .malformedOptions
  else
    let value ← view.textAt name.position
    if value.position = noPosition then return .stop .truncated
    else return .pair ⟨name.field, value.field⟩ value.position

/-- Reads options round by round, up to the end of the view or a defect, and
appends them to those already known. There is no result if that takes more than
`rounds` rounds. -/
def optionsWithin (view : OctetView) (rounds : Nat) (position : UInt64)
    (known : List OptionField) : Checked (Option (List OptionField × Option Defect)) :=
  if view.length ≤ position then .ok (some (known, none))
  else
    match rounds with
    | 0 => .ok none
    | rounds + 1 => do
      match ← view.optionRound position with
      | .stop defect => return some (known, some defect)
      | .pair option next => view.optionsWithin rounds next (known ++ [option])

end OctetView

end TftpServer
