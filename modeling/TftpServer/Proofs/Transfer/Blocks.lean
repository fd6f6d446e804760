import Mathlib.Data.List.Destutter
import TftpServer.Proofs.BlockPosition.Numbering
import TftpServer.Proofs.Packet.WireForm
import TftpServer.Store.Memory

/-! # Blocks of a content

A content is cut into blocks of one size, counted from 1, the last of which
falls short. What a receiver sees of a transfer are the DATA datagrams, where a
repeated block shows as a run of equal datagrams.
-/

namespace TftpServer

namespace Content

variable (content : Content)

/-- The octets of a block: those behind the blocks before it, as far as the block
size and the content reach. -/
def block (blockSize number : Nat) : Octets :=
  content.slice ((number - 1) * blockSize) blockSize

theorem slice_eq_take_drop (offset count : Nat) :
    content.slice offset count = (content.toList.drop offset).take count := by
  rw [slice, Array.toList_extract, List.extract_eq_take_drop]
  congr 1
  omega

theorem block_succ (blockSize done : Nat) :
    content.block blockSize (done + 1) =
      (content.extract (done * blockSize) (min ((done + 1) * blockSize) content.size)).toList := by
  rw [block, slice, Nat.add_sub_cancel, Nat.succ_mul]
  apply congrArg
  ext1
  · simp
  · simp

theorem length_block_succ (blockSize done : Nat) :
    (content.block blockSize (done + 1)).length = min blockSize (content.size - done * blockSize) := by
  rw [block, slice_eq_take_drop, List.length_take, List.length_drop, Array.length_toList,
    Nat.add_sub_cancel]

/-- The first blocks are the content as far as they reach. -/
theorem flatMap_block (blockSize count : Nat) :
    (List.range count).flatMap (fun i => content.block blockSize (i + 1)) =
      content.toList.take (count * blockSize) := by
  induction count with
  | zero => simp
  | succ count ih =>
      rw [List.range_succ, List.flatMap_append, ih, List.flatMap_singleton, block,
        slice_eq_take_drop, Nat.add_sub_cancel, Nat.succ_mul, List.take_add]

theorem readAt_eq (offset count : UInt64) :
    content.readAt offset count = { octets := content.slice offset.toNat count.toNat } := by
  rw [readAt]
  split
  next hend =>
    have hnone : content.slice offset.toNat count.toNat = [] := by
      rw [slice_eq_take_drop, List.drop_of_length_le (by simpa using hend), List.take_nil]
    rw [hnone]
  next => rfl

theorem readAt_block {done : Nat} {blockSize : UInt64}
    (hoffset : done * blockSize.toNat < UInt64.size) :
    content.readAt (UInt64.ofNat (done * blockSize.toNat)) blockSize =
      { octets := content.block blockSize.toNat (done + 1) } := by
  rw [readAt_eq, UInt64.toNat_ofNat_of_lt' hoffset, block, Nat.add_sub_cancel]

def blockDatagram (blockSize number : Nat) : Octets :=
  dataDatagram (UInt16.ofNat number) (content.block blockSize number)

end Content

/-- A block is never mistaken for the one before it. -/
theorem dataDatagram_succ_ne (number : Nat) (octets others : Octets) :
    dataDatagram (UInt16.ofNat (number + 1)) octets ≠ dataDatagram (UInt16.ofNat number) others := by
  intro heq
  have hdecode := congrArg decode heq
  simp only [decode_dataDatagram, Message.data] at hdecode
  injection hdecode with hmessage
  injection hmessage with _ hpayload
  injection hpayload with hnumber _
  exact BlockPosition.ofNat_succ_ne number hnumber

/-! ## Collapsing repetitions -/

/-- Appending to a list whose runs are collapsed: only a new last element
shows. -/
theorem destutter_concat {α : Type} [DecidableEq α] (list : List α) (last : α) :
    (list ++ [last]).destutter (· ≠ ·) =
      if list.getLast? = some last then list.destutter (· ≠ ·)
      else list.destutter (· ≠ ·) ++ [last] := by
  cases list with
  | nil => simp
  | cons head rest =>
      simp only [List.cons_append, List.destutter_cons']
      -- Behind the head, collapsing goes on from the last element it kept.
      induction rest generalizing head with
      | nil =>
          by_cases heq : head = last
          · simp [heq]
          · simp [heq]
      | cons next rest ih =>
          rw [List.cons_append, List.getLast?_cons_cons]
          by_cases heq : head = next
          · subst heq
            rw [List.destutter'_cons_neg _ (by simp), List.destutter'_cons_neg _ (by simp)]
            exact ih head
          · rw [List.destutter'_cons_pos _ heq, List.destutter'_cons_pos _ heq, ih next]
            split <;> rfl

theorem getLast?_destutter {α : Type} [DecidableEq α] (list : List α) :
    (list.destutter (· ≠ ·)).getLast? = list.getLast? := by
  induction list using List.reverseRecOn with
  | nil => rfl
  | append_singleton list last ih =>
      rw [destutter_concat]
      split
      next hsame => rw [ih, hsame, List.getLast?_concat]
      next => rw [List.getLast?_concat, List.getLast?_concat]

theorem mem_destutter {α : Type} [DecidableEq α] {list : List α} {value : α} :
    value ∈ list.destutter (· ≠ ·) ↔ value ∈ list := by
  induction list using List.reverseRecOn with
  | nil => exact Iff.rfl
  | append_singleton list last ih =>
      rw [destutter_concat]
      split
      next hsame =>
        rw [ih, List.mem_append, List.mem_singleton]
        exact ⟨Or.inl, fun hmem => hmem.elim id fun heq => heq ▸ List.mem_of_getLast? hsame⟩
      next => rw [List.mem_append, List.mem_append, ih]

/-- The DATA datagrams among those handed to the sink, with runs of equal ones
collapsed to one. -/
def deliveredBlocks (sent : List Octets) : List Octets :=
  (sent.filter isData).destutter (· ≠ ·)

theorem mem_deliveredBlocks {sent : List Octets} {datagram : Octets} :
    datagram ∈ deliveredBlocks sent ↔ datagram ∈ sent ∧ isData datagram = true :=
  mem_destutter.trans List.mem_filter

theorem getLast?_deliveredBlocks (sent : List Octets) :
    (deliveredBlocks sent).getLast? = (sent.filter isData).getLast? :=
  getLast?_destutter _

theorem deliveredBlocks_concat_other {sent : List Octets} {datagram : Octets}
    (hother : isData datagram = false) :
    deliveredBlocks (sent ++ [datagram]) = deliveredBlocks sent := by
  simp [deliveredBlocks, List.filter_append, hother]

theorem deliveredBlocks_concat_repeat {sent : List Octets} {datagram : Octets}
    (hlast : (sent.filter isData).getLast? = some datagram) :
    deliveredBlocks (sent ++ [datagram]) = deliveredBlocks sent := by
  have hdata : isData datagram = true :=
    (List.mem_filter.mp (List.mem_of_getLast? hlast)).2
  rw [deliveredBlocks, List.filter_append, List.filter_singleton, hdata]
  exact (destutter_concat _ _).trans (if_pos hlast)

theorem deliveredBlocks_concat_fresh {sent : List Octets} {datagram : Octets}
    (hdata : isData datagram = true) (hlast : (sent.filter isData).getLast? ≠ some datagram) :
    deliveredBlocks (sent ++ [datagram]) = deliveredBlocks sent ++ [datagram] := by
  rw [deliveredBlocks, List.filter_append, List.filter_singleton, hdata]
  exact (destutter_concat _ _).trans (if_neg hlast)

def dataOctets (datagram : Octets) : Octets :=
  match decode datagram with
  | .ok ⟨.data, .data _ octets⟩ => octets
  | _ => []

@[simp] theorem dataOctets_dataDatagram (block : UInt16) (octets : Octets) :
    dataOctets (dataDatagram block octets) = octets := by
  rw [dataOctets, decode_dataDatagram]
  rfl

end TftpServer
