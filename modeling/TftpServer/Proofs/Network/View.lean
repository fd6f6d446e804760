import Mathlib.Data.List.Basic
import TftpServer.Network.Buffer
import TftpServer.Network.View

/-! # What a view shows

Within the bounds that the checks draw, arithmetic on words is that of numbers, an
index of a view gives its octet, and copying gives all of them. A part of a view
looks at indices of the view only. No view is as long as the largest word, since
neither the null pointer nor the place behind its end holds an octet.
-/

namespace TftpServer

namespace Checked

variable {left right : UInt64}

theorem add_eq_ok (hword : left.toNat + right.toNat < UInt64.size) :
    add left right = .ok (left + right) :=
  if_pos hword

theorem sub_eq_ok (hle : right ≤ left) : sub left right = .ok (left - right) :=
  if_pos hle

@[simp] theorem ok_bind {α β : Type} (value : α) (next : α → Checked β) :
    (Except.ok value >>= next : Checked β) = next value := rfl

@[simp] theorem pure_eq_ok {α : Type} (value : α) : (pure value : Checked α) = .ok value := rfl

theorem mapM_eq_ok {α β : Type} {step : α → Checked β} {value : α → β} {items : List α}
    (hstep : ∀ item ∈ items, step item = .ok (value item)) :
    items.mapM step = .ok (items.map value) := by
  induction items with
  | nil => rfl
  | cons item rest ih =>
      obtain ⟨hitem, hrest⟩ := List.forall_mem_cons.mp hstep
      rw [List.mapM_cons, hitem, ok_bind, ih hrest]
      rfl

end Checked

namespace OctetView

variable (view : OctetView)

/-- The largest word is more than the length of any view. -/
theorem length_lt : view.length.toNat < UInt64.size - 1 := by
  by_cases hnull : view.pointer = 0
  · rw [view.length_of_null hnull]
    decide
  · have hpointer : view.pointer.toNat ≠ 0 := fun heq => hnull (UInt64.toNat_inj.mp heq)
    have hend := view.end_lt
    omega

@[simp] theorem length_octets : view.octets.length = view.length.toNat := by
  rw [octets, List.length_map, List.length_range]

section Indices

variable {view} {index : UInt64}

theorem drop_eq_nil (hindex : view.length ≤ index) : view.octets.drop index.toNat = [] := by
  rw [UInt64.le_iff_toNat_le, ← length_octets] at hindex
  exact List.drop_eq_nil_of_le hindex

theorem drop_ne_nil (hindex : index < view.length) : view.octets.drop index.toNat ≠ [] := by
  rw [UInt64.lt_iff_toNat_lt, ← length_octets] at hindex
  exact List.drop_eq_nil_iff.not.mpr (Nat.not_le.mpr hindex)

theorem fetch_eq_ok (hindex : index.toNat < view.length.toNat) :
    view.fetch index = .ok (view.memory (view.pointer + index)) := by
  have hend := view.end_lt
  have hword : view.pointer.toNat + index.toNat < UInt64.size := by omega
  rw [fetch, if_pos (UInt64.lt_iff_toNat_lt.mpr hindex), Checked.add_eq_ok hword, Checked.ok_bind,
    Checked.pure_eq_ok]

/-- An index below the length gives the octet that is shown there. -/
theorem exists_fetch (hindex : index.toNat < view.length.toNat) :
    ∃ octet, view.fetch index = .ok octet ∧
      view.octets.drop index.toNat = octet :: view.octets.drop (index.toNat + 1) := by
  refine ⟨_, fetch_eq_ok hindex, ?_⟩
  have hbound : index.toNat < view.octets.length := by
    rw [length_octets]
    exact hindex
  rw [List.drop_eq_getElem_cons hbound]
  simp only [octets, List.getElem_map, List.getElem_range, UInt64.ofNat_toNat]

end Indices

theorem copy_eq : view.copy = .ok view.octets := by
  have hstop := Checked.toNat_add view.end_lt
  have hle : view.pointer ≤ view.pointer + view.length := by
    rw [UInt64.le_iff_toNat_le, hstop]
    exact Nat.le_add_right _ _
  have hcount : (view.pointer + view.length - view.pointer).toNat = view.length.toNat := by
    rw [UInt64.toNat_sub_of_le _ _ hle, hstop, Nat.add_sub_cancel_left]
  rw [copy, Checked.add_eq_ok view.end_lt, Checked.ok_bind, Checked.sub_eq_ok hle,
    Checked.ok_bind, hcount]
  apply Checked.mapM_eq_ok
  intro index hindex
  have hindex := List.mem_range.mp hindex
  have hlength := view.length_lt
  apply fetch_eq_ok
  rw [UInt64.toNat_ofNat_of_lt' (by omega)]
  exact hindex

/-! ## Parts -/

/-- Whether the indices of a part, `start` further on, are indices of the view, and
the octets there the same. -/
structure LiesIn (part view : OctetView) (start : UInt64) : Prop where
  memory : part.memory = view.memory
  index_lt : ∀ index < part.length, start.toNat + index.toNat < view.length.toNat
  address_eq : ∀ index < part.length,
    part.pointer.toNat + index.toNat = view.pointer.toNat + (start.toNat + index.toNat)

variable {view}

theorem nothing_liesIn (start : UInt64) : (nothing view.memory).LiesIn view start where
  memory := rfl
  index_lt := fun _ hindex => absurd hindex (UInt64.not_lt_zero)
  address_eq := fun _ hindex => absurd hindex (UInt64.not_lt_zero)

theorem octets_nothing (memory : Memory) : (nothing memory).octets = [] := rfl

theorem exists_window (memory : Memory) {pointer length : UInt64}
    (hnull : pointer = 0 → length = 0) (hend : pointer.toNat + length.toNat < UInt64.size) :
    ∃ part, window memory pointer length = .ok part ∧
      part.memory = memory ∧ part.pointer = pointer ∧ part.length = length := by
  by_cases heq : pointer = 0
  · exact ⟨_, dif_pos heq, rfl, heq.symm, (hnull heq).symm⟩
  · rw [window, dif_neg heq, dif_pos hend]
    exact ⟨_, rfl, rfl, rfl, rfl⟩

section Within

variable {start length : UInt64} (hfits : start.toNat + length.toNat ≤ view.length.toNat)

include hfits

theorem toNat_pointer_add : (view.pointer + start).toNat = view.pointer.toNat + start.toNat := by
  have hend := view.end_lt
  exact Checked.toNat_add (by omega)

/-- The pointer of a part is null only if there is nothing in the part. -/
theorem length_of_null_part (hnull : view.pointer + start = 0) : length = 0 := by
  have hpointer := toNat_pointer_add hfits
  rw [hnull, UInt64.toNat_zero] at hpointer
  have hview : view.pointer = 0 :=
    UInt64.toNat_inj.mp (Nat.eq_zero_of_add_eq_zero_right hpointer.symm)
  rw [view.length_of_null hview, UInt64.toNat_zero] at hfits
  exact UInt64.toNat_inj.mp (Nat.eq_zero_of_add_eq_zero_left (Nat.eq_zero_of_le_zero hfits))

/-- A part that lies within the view shows what the view shows there. -/
theorem exists_part_of_le :
    ∃ part, view.part start length = .ok part ∧ part.LiesIn view start ∧
      part.octets = (view.octets.drop start.toNat).take length.toNat := by
  have hend := view.end_lt
  have hpointer := toNat_pointer_add hfits
  have hstart : start ≤ view.length := UInt64.le_iff_toNat_le.mpr (by omega)
  have hrest : length ≤ view.length - start := by
    rw [UInt64.le_iff_toNat_le, UInt64.toNat_sub_of_le _ _ hstart]
    omega
  have hadd : Checked.add view.pointer start = .ok (view.pointer + start) :=
    Checked.add_eq_ok (by omega)
  obtain ⟨part, hwindow, hmemory, hfirst, hsize⟩ :=
    exists_window view.memory (length_of_null_part hfits) (by omega)
  refine ⟨part, ?_, ⟨hmemory, ?_, ?_⟩, ?_⟩
  · rw [OctetView.part, if_neg (UInt64.not_lt.mpr hstart), Checked.sub_eq_ok hstart,
      Checked.ok_bind, if_neg (UInt64.not_lt.mpr hrest), hadd, Checked.ok_bind, hwindow]
  · intro index hindex
    rw [hsize, UInt64.lt_iff_toNat_lt] at hindex
    omega
  · intro index _
    rw [hfirst, hpointer, Nat.add_assoc]
  · apply List.ext_getElem
    · rw [length_octets, hsize, List.length_take, List.length_drop, length_octets]
      omega
    · intro index hpart hshown
      simp only [octets, List.getElem_map, List.getElem_range, List.getElem_take,
        List.getElem_drop, hmemory, hfirst, UInt64.ofNat_add, UInt64.ofNat_toNat,
        UInt64.add_assoc]

end Within

/-- A part that does not lie within the view is empty, any other shows what the view
shows there, and none looks beyond the view. -/
theorem exists_part (view : OctetView) (start length : UInt64) :
    ∃ part, view.part start length = .ok part ∧ part.LiesIn view start ∧
      part.octets = subView view.octets start.toNat length.toNat := by
  by_cases hfits : start.toNat + length.toNat ≤ view.length.toNat
  · obtain ⟨part, hpart, hlies, hoctets⟩ := exists_part_of_le hfits
    refine ⟨part, hpart, hlies, ?_⟩
    rw [subView, if_neg, hoctets]
    rw [length_octets]
    omega
  · refine ⟨nothing view.memory, ?_, nothing_liesIn start, ?_⟩
    · rw [OctetView.part]
      split
      next => rfl
      next hstart =>
        have hstart := UInt64.not_lt.mp hstart
        have hrest : view.length - start < length := by
          have hle := UInt64.le_iff_toNat_le.mp hstart
          rw [UInt64.lt_iff_toNat_lt, UInt64.toNat_sub_of_le _ _ hstart]
          omega
        rw [Checked.sub_eq_ok hstart, Checked.ok_bind, if_pos hrest]
        rfl
    · rw [subView, if_pos, octets_nothing]
      rw [length_octets]
      omega

end OctetView

end TftpServer
