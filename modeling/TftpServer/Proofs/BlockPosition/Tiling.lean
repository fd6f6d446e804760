import Mathlib.Logic.ExistsUnique
import TftpServer.Proofs.BlockPosition.Numbering

/-! # Tiling of the stream

Stepping from the first position counts the blocks up, past any number of wraps. As
long as the offsets fit into 64 bits, each block starts where the one before it ends,
so that every octet of the stream lies in exactly one block.
-/

namespace TftpServer.BlockPosition

variable {steps : Nat}

theorem advance_ofNumber (number steps : Nat) :
    (ofNumber number).advance steps = ofNumber (number + steps) := by
  induction steps generalizing number with
  | zero => rw [advance, Nat.add_zero]
  | succ steps ih => rw [advance, next_ofNumber, ih, Nat.add_right_comm, Nat.add_assoc]

theorem advance_first (steps : Nat) : first.advance steps = ofNumber (steps + 1) := by
  rw [← ofNumber_one, advance_ofNumber, Nat.add_comm]

theorem toNat_logical_advance (hsteps : steps + 1 < UInt64.size) :
    (first.advance steps).logical.toNat = steps + 1 := by
  rw [advance_first, logical_ofNumber, UInt64.toNat_ofNat_of_lt' hsteps]

theorem toNat_offset_advance (hsteps : steps + 1 < UInt64.size) (blockSize : UInt64) :
    ((first.advance steps).offset blockSize).toNat = steps * blockSize.toNat % UInt64.size := by
  rw [advance_first, offset_ofNumber hsteps, UInt64.toNat_ofNat']

/-- Whether the block at a position is the one that holds an octet, counted from the
start of the stream. -/
def Covers (position : BlockPosition) (blockSize : UInt64) (place : Nat) : Prop :=
  (position.offset blockSize).toNat ≤ place ∧
    place < (position.offset blockSize).toNat + blockSize.toNat

section Tiling

variable {blockSize : UInt64}

/-- Before the offsets wrap, those before them do not wrap either. -/
theorem toNat_offset_advance_of_le (hsteps : steps + 1 < UInt64.size)
    (hoffset : steps * blockSize.toNat < UInt64.size) {earlier : Nat} (hearlier : earlier ≤ steps) :
    ((first.advance earlier).offset blockSize).toNat = earlier * blockSize.toNat := by
  have hbelow : earlier * blockSize.toNat ≤ steps * blockSize.toNat :=
    Nat.mul_le_mul_right _ hearlier
  rw [toNat_offset_advance (by omega), Nat.mod_eq_of_lt (by omega)]

/-- The block that holds an octet is found by division. -/
theorem covers_advance_iff (hsteps : steps + 1 < UInt64.size)
    (hoffset : steps * blockSize.toNat < UInt64.size) {earlier : Nat} (hearlier : earlier ≤ steps)
    (place : Nat) :
    (first.advance earlier).Covers blockSize place ↔
      0 < blockSize.toNat ∧ place / blockSize.toNat = earlier := by
  rw [Covers, toNat_offset_advance_of_le hsteps hoffset hearlier, ← Nat.succ_mul]
  constructor
  · rintro ⟨hstart, hend⟩
    have hpositive : 0 < blockSize.toNat := by
      rw [Nat.succ_mul] at hend
      omega
    exact ⟨hpositive, Nat.div_eq_of_lt_le hstart hend⟩
  · rintro ⟨hpositive, rfl⟩
    exact ⟨Nat.div_mul_le_self _ _, Nat.lt_mul_of_div_lt (Nat.lt_succ_self _) hpositive⟩

/-- There is neither a gap between the blocks nor an overlap. -/
theorem existsUnique_covers (hsteps : steps + 1 < UInt64.size)
    (hoffset : steps * blockSize.toNat < UInt64.size) {place : Nat}
    (hplace : place < (steps + 1) * blockSize.toNat) :
    ∃! earlier, earlier ≤ steps ∧ (first.advance earlier).Covers blockSize place := by
  have hpositive : 0 < blockSize.toNat := Nat.pos_of_mul_pos_left (Nat.zero_lt_of_lt hplace)
  have hwithin : place / blockSize.toNat ≤ steps :=
    Nat.le_of_lt_succ (Nat.div_lt_of_lt_mul (Nat.mul_comm _ _ ▸ hplace))
  refine ⟨place / blockSize.toNat, ⟨hwithin, ?_⟩, ?_⟩
  · exact (covers_advance_iff hsteps hoffset hwithin place).mpr ⟨hpositive, rfl⟩
  · rintro earlier ⟨hearlier, hcovers⟩
    exact ((covers_advance_iff hsteps hoffset hearlier place).mp hcovers).2.symm

end Tiling

/-- After any number of steps from the first position, the block, the count of wraps and
the logical number are those of the next number, and the offset is that of as many full
blocks as there were steps. The logical numbers rise with each step. As long as the last
offset does not wrap, each block starts where the one before it ends, and every octet up
to the end of the last block lies in exactly one of the blocks. -/
theorem advance_tiles {steps : Nat} (hsteps : steps + 1 < UInt64.size) (blockSize : UInt64) :
    (first.advance steps).block.toNat = (steps + 1) % 65536 ∧
      (first.advance steps).epoch.toNat = (steps + 1) / 65536 ∧
      (first.advance steps).logical.toNat = steps + 1 ∧
      ((first.advance steps).offset blockSize).toNat = steps * blockSize.toNat % UInt64.size ∧
      (∀ earlier later, earlier < later → later ≤ steps →
        (first.advance earlier).logical < (first.advance later).logical) ∧
      (steps * blockSize.toNat < UInt64.size →
        (∀ earlier < steps, ((first.advance (earlier + 1)).offset blockSize).toNat =
          ((first.advance earlier).offset blockSize).toNat + blockSize.toNat) ∧
        ∀ place < (steps + 1) * blockSize.toNat,
          ∃! earlier, earlier ≤ steps ∧ (first.advance earlier).Covers blockSize place) := by
  have hnumber : (first.advance steps).number = steps + 1 := by
    rw [advance_first, number_ofNumber hsteps]
  refine ⟨?_, ?_, toNat_logical_advance hsteps, toNat_offset_advance hsteps blockSize, ?_, ?_⟩
  · rw [toNat_block, hnumber]
  · rw [toNat_epoch, hnumber]
  · intro earlier later hlt hlater
    rw [UInt64.lt_iff_toNat_lt, toNat_logical_advance (by omega), toNat_logical_advance (by omega)]
    exact Nat.succ_lt_succ hlt
  · intro hoffset
    refine ⟨fun earlier hearlier => ?_, fun place => existsUnique_covers hsteps hoffset⟩
    rw [toNat_offset_advance_of_le hsteps hoffset hearlier,
      toNat_offset_advance_of_le hsteps hoffset (Nat.le_of_lt hearlier), Nat.succ_mul]

/-- The step from the last wire number to number 0. -/
theorem advance_tiles_at_wrap :
    65535 + 1 < UInt64.size ∧ (first.advance 65535).block.toNat = 0 ∧
      (first.advance 65535).epoch.toNat = 1 ∧ (first.advance 65535).logical.toNat = 65536 ∧
      ((first.advance 65535).offset 1428).toNat = 93583980 ∧
      ∃! earlier, earlier ≤ 65535 ∧ (first.advance earlier).Covers 1428 93583979 := by
  obtain ⟨hblock, hepoch, hlogical, hoffset, _, htiles⟩ :=
    advance_tiles (show 65535 + 1 < UInt64.size by decide) 1428
  exact ⟨by decide, hblock, hepoch, hlogical, hoffset, (htiles (by decide)).2 _ (by decide)⟩

end TftpServer.BlockPosition
