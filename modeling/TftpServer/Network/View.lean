import TftpServer.Octets

/-! # Views of memory

A view shows octets that lie in memory: a pointer to the first of them and how
many there are. Pointers, lengths and positions are 64-bit words. Memory goes on
behind the end of a view and words wrap, so that neither stops a reader that goes
too far. Work on a view is therefore checked: an access to what the view does not
show and a sum or difference that is no word are a trespass, and there is no result.
-/

namespace TftpServer

/-- The octet at each address. -/
abbrev Memory := UInt64 → UInt8

/-- What work on a view must not do: look at an index that the view does not
have, go on with a wrapped word, or make a view of what is not all in memory. -/
inductive Trespass where
  | outside (index : UInt64)
  | wrapped
  | dangling
  deriving DecidableEq, Repr

/-- A result that was reached without a trespass. -/
abbrev Checked := Except Trespass

namespace Checked

/-- A sum of words, which has to be a word. -/
def add (left right : UInt64) : Checked UInt64 :=
  if left.toNat + right.toNat < UInt64.size then .ok (left + right) else .error .wrapped

/-- A difference of words, which has to be a word. -/
def sub (left right : UInt64) : Checked UInt64 :=
  if right ≤ left then .ok (left - right) else .error .wrapped

theorem toNat_add {left right : UInt64} (hword : left.toNat + right.toNat < UInt64.size) :
    (left + right).toNat = left.toNat + right.toNat := by
  rw [UInt64.toNat_add]
  exact Nat.mod_eq_of_lt hword

theorem toNat_of_add {left right sum : UInt64} (hadd : add left right = .ok sum) :
    sum.toNat = left.toNat + right.toNat := by
  unfold add at hadd
  split at hadd
  next hword =>
    cases hadd
    exact toNat_add hword
  next => cases hadd

end Checked

/-- Octets in memory. Nothing lies at the address zero, and the place behind the
last octet has an address as well. -/
structure OctetView where
  memory : Memory
  pointer : UInt64
  length : UInt64
  length_of_null : pointer = 0 → length = 0
  end_lt : pointer.toNat + length.toNat < UInt64.size

namespace OctetView

/-- The octets that a view shows. -/
def octets (view : OctetView) : Octets :=
  (List.range view.length.toNat).map fun index => view.memory (view.pointer + UInt64.ofNat index)

/-- The view that shows nothing. -/
def nothing (memory : Memory) : OctetView where
  memory
  pointer := 0
  length := 0
  length_of_null := fun _ => rfl
  end_lt := by decide

/-- A view of what lies at a pointer, which is nothing at the null pointer. -/
def window (memory : Memory) (pointer length : UInt64) : Checked OctetView :=
  if hnull : pointer = 0 then .ok (nothing memory)
  else if hend : pointer.toNat + length.toNat < UInt64.size then
    .ok { memory, pointer, length, length_of_null := fun heq => absurd heq hnull, end_lt := hend }
  else .error .dangling

/-- A view of octets laid out from address 1 on, as many as memory has room for. -/
def ofOctets (octets : Octets) : OctetView where
  memory :=
    let storage := octets.toArray
    fun address => storage.getD (address.toNat - 1) 0
  pointer := 1
  length := UInt64.ofNat (min octets.length (UInt64.size - 2))
  length_of_null := fun heq => absurd heq (by decide)
  end_lt := by
    have hroom : min octets.length (UInt64.size - 2) < UInt64.size - 1 :=
      Nat.lt_of_le_of_lt (Nat.min_le_right _ _) (by decide)
    rw [UInt64.toNat_one, UInt64.toNat_ofNat_of_lt' (by omega)]
    omega

/-- The octet at an index. There is no other way from a view to memory. -/
def fetch (view : OctetView) (index : UInt64) : Checked UInt8 :=
  if index < view.length then do
    let address ← Checked.add view.pointer index
    return view.memory address
  else .error (.outside index)

/-- The part of a view that starts at a position and has a length; nothing when
it does not lie within the view. -/
def part (view : OctetView) (start length : UInt64) : Checked OctetView :=
  if view.length < start then .ok (nothing view.memory)
  else do
    let rest ← Checked.sub view.length start
    if rest < length then return nothing view.memory
    else
      let pointer ← Checked.add view.pointer start
      window view.memory pointer length

/-- Takes the octets of a view out of memory, from the first to the one before
the end. -/
def copy (view : OctetView) : Checked Octets := do
  let stop ← Checked.add view.pointer view.length
  let count ← Checked.sub stop view.pointer
  (List.range count.toNat).mapM fun index => view.fetch (UInt64.ofNat index)

end OctetView

end TftpServer
