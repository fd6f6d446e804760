import TftpServer.BlockPosition

/-! # Numbering of blocks

Counted over all wraps, block `n` has wire number `n` modulo 65536 and comes
after `n / 65536` wraps. Stepping through the positions counts these numbers up,
and the offset of block `n` is that of `n - 1` full blocks. A wire number alone
tells how far a block trails another one, up to a multiple of 65536.
-/

namespace TftpServer

namespace BlockPosition

/-- The position of the block with a number counted over all wraps. -/
def ofNumber (number : Nat) : BlockPosition :=
  ⟨UInt64.ofNat (number / 65536), UInt16.ofNat number⟩

theorem ofNumber_one : ofNumber 1 = first := rfl

theorem next_block_eq_zero (number : Nat) :
    UInt16.ofNat number + 1 = 0 ↔ (number + 1) % 65536 = 0 := by
  rw [← UInt16.toNat_inj, UInt16.toNat_add, UInt16.toNat_ofNat']
  simp only [UInt16.reduceToNat, Nat.reducePow]
  omega

theorem next_ofNumber (number : Nat) : (ofNumber number).next = ofNumber (number + 1) := by
  have hblock : UInt16.ofNat number + 1 = UInt16.ofNat (number + 1) := by
    apply UInt16.toNat_inj.mp
    rw [UInt16.toNat_add, UInt16.toNat_ofNat', UInt16.toNat_ofNat']
    simp only [UInt16.reduceToNat, Nat.reducePow]
    omega
  dsimp only [next, ofNumber]
  by_cases hwrap : (number + 1) % 65536 = 0
  · have hepoch : (number + 1) / 65536 = number / 65536 + 1 := by
      omega
    rw [if_pos ((next_block_eq_zero number).mpr hwrap), hblock, hepoch, UInt64.ofNat_add]
    rfl
  · have hepoch : (number + 1) / 65536 = number / 65536 := by
      omega
    rw [if_neg fun hzero => hwrap ((next_block_eq_zero number).mp hzero), hblock, hepoch]

theorem logical_ofNumber (number : Nat) : (ofNumber number).logical = UInt64.ofNat number := by
  apply UInt64.toNat_inj.mp
  simp only [logical, ofNumber, UInt64.toNat_add, UInt64.toNat_mul, UInt64.toNat_ofNat',
    UInt16.toNat_toUInt64, UInt16.toNat_ofNat', UInt64.reduceToNat, Nat.reducePow]
  omega

/-- As long as the numbers fit into 64 bits, block `n + 1` starts behind `n` full
blocks. -/
theorem offset_ofNumber {number : Nat} (hnumber : number + 1 < UInt64.size) (blockSize : UInt64) :
    (ofNumber (number + 1)).offset blockSize = UInt64.ofNat (number * blockSize.toNat) := by
  have hnonzero : UInt64.ofNat (number + 1) ≠ 0 := by
    rw [ne_eq, ← UInt64.toNat_inj, UInt64.toNat_ofNat_of_lt' hnumber]
    simp
  have hprevious : UInt64.ofNat (number + 1) - 1 = UInt64.ofNat number := by
    rw [UInt64.ofNat_add]
    simp
  rw [offset, logical_ofNumber, if_neg hnonzero, hprevious, UInt64.ofNat_mul, UInt64.ofNat_toNat]

/-- The number of the block at a position, counted over all wraps. -/
def number (position : BlockPosition) : Nat :=
  position.epoch.toNat * 65536 + position.block.toNat

section Number

variable (position : BlockPosition)

theorem toNat_block : position.block.toNat = position.number % 65536 := by
  have hblock := position.block.toNat_lt
  rw [number]
  omega

theorem toNat_epoch : position.epoch.toNat = position.number / 65536 := by
  have hblock := position.block.toNat_lt
  rw [number]
  omega

theorem ofNumber_number : ofNumber position.number = position := by
  have hblock : UInt16.ofNat position.number = position.block := by
    apply UInt16.toNat_inj.mp
    rw [UInt16.toNat_ofNat', toNat_block]
  rw [ofNumber, ← toNat_epoch, UInt64.ofNat_toNat, hblock]

theorem next_eq_ofNumber : position.next = ofNumber (position.number + 1) := by
  rw [← next_ofNumber, ofNumber_number]

end Number

theorem number_ofNumber {number : Nat} (hnumber : number < UInt64.size) :
    (ofNumber number).number = number := by
  have hepoch : number / 65536 < UInt64.size := Nat.lt_of_le_of_lt (Nat.div_le_self _ _) hnumber
  rw [BlockPosition.number, ofNumber, UInt64.toNat_ofNat_of_lt' hepoch, UInt16.toNat_ofNat']
  omega

theorem ofNat_succ_ne (number : Nat) : UInt16.ofNat (number + 1) ≠ UInt16.ofNat number := by
  rw [ne_eq, ← UInt16.toNat_inj, UInt16.toNat_ofNat', UInt16.toNat_ofNat']
  simp only [Nat.reducePow]
  omega

/-! ## Distances -/

/-- How far a wire number trails the block at a position, as far as that can be
told. -/
def lag (position : BlockPosition) (block : UInt16) : Nat :=
  (((position.number : Int) - block.toNat) % 65536).toNat

/-- The difference of the wire numbers is the distance of the blocks. -/
theorem toNat_block_sub (position : BlockPosition) (block : UInt16) :
    (position.block - block).toNat = position.lag block := by
  have hblock := position.toNat_block
  have hbound := block.toNat_lt
  rw [UInt16.toNat_sub, lag]
  omega

section Lag

variable (position : BlockPosition)

theorem lag_eq_zero_iff (block : UInt16) : position.lag block = 0 ↔ block = position.block := by
  rw [← toNat_block_sub, ← UInt16.toNat_inj, UInt16.toNat_sub]
  have hcurrent := position.block.toNat_lt
  have hblock := block.toNat_lt
  omega

theorem lag_block_sub {distance : Nat} (hdistance : distance < 65536) :
    position.lag (position.block - UInt16.ofNat distance) = distance := by
  rw [← toNat_block_sub]
  simp only [UInt16.toNat_sub, UInt16.toNat_ofNat', Nat.reducePow]
  omega

theorem lag_ofNat_earlier {number : Nat} (hearlier : number ≤ position.number)
    (hwindow : position.number < number + 65536) :
    position.lag (UInt16.ofNat number) = position.number - number := by
  rw [lag, UInt16.toNat_ofNat']
  omega

theorem lag_ofNat_later {number : Nat} (hlater : position.number < number)
    (hwindow : number ≤ position.number + 65536) :
    position.lag (UInt16.ofNat number) = position.number + 65536 - number := by
  rw [lag, UInt16.toNat_ofNat']
  omega

end Lag

end BlockPosition

/-- An earlier block trails the current one by less than half of the numbers. -/
theorem isEarlierBlock_iff (current acknowledged : UInt16) :
    isEarlierBlock current acknowledged = true ↔
      1 ≤ (current - acknowledged).toNat ∧ (current - acknowledged).toNat ≤ 32767 := by
  simp only [isEarlierBlock, Bool.and_eq_true, bne_iff_ne, decide_eq_true_eq, ne_eq,
    ← UInt16.toNat_inj, UInt16.lt_iff_toNat_lt, UInt16.reduceToNat]
  omega

end TftpServer
