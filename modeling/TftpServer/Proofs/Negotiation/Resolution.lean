import TftpServer.Proofs.Negotiation.Announcement
import TftpServer.Proofs.Negotiation.Bounds

/-! # What a requested value comes to

For a block size that is the nearest allowed one, for a timeout the requested one
or none, and for the transfer size the length of the stream, whatever was asked
for. That number is announced, and asking for it comes to the same again.
-/

namespace TftpServer

open Text

namespace Limits

variable (limits : Limits)

/-- A block size is settled for a number, and for any text that starts with one
that 64 bits cannot hold. -/
theorem map_toNat_resolveBlockSize (value : Octets) :
    (limits.resolveBlockSize value).map UInt64.toNat =
      if IsNumber value ∨ UInt64.size ≤ digitsValue (value.takeWhile isDigit) then
        some (max limits.blockSizeFloor.toNat
          (min (digitsValue (value.takeWhile isDigit)) limits.blockSizeCeiling.toNat))
      else none := by
  have hover : parseDecimal (UInt64.size - 1) value = .error .overflow ↔
      UInt64.size ≤ digitsValue (value.takeWhile isDigit) :=
    parseDecimal_eq_overflow_iff
  unfold resolveBlockSize
  split
  next hparse =>
    have hhuge : ¬ UInt64.size ≤ digitsValue (value.takeWhile isDigit) := by
      rw [← hover, hparse]
      exact fun hsame => nomatch hsame
    have hnumber : ¬ IsNumber value := by
      intro hnumber
      rw [hnumber.takeWhile_eq] at hhuge
      have hread := parseDecimal_eq_ok_iff.mpr
        ⟨hnumber, rfl, Nat.le_pred_of_lt (Nat.lt_of_not_le hhuge)⟩
      exact nomatch hparse.symm.trans hread
    rw [if_neg (not_or_intro hnumber hhuge)]
    rfl
  next hparse =>
    have hhuge := hover.mp hparse
    have hceiling : limits.blockSizeCeiling.toNat ≤ digitsValue (value.takeWhile isDigit) :=
      (Nat.le_of_lt limits.blockSizeCeiling.toNat_lt).trans hhuge
    have hfloor := UInt64.le_iff_toNat_le.mp limits.blockSizeFloor_le
    rw [if_pos (Or.inr hhuge), Nat.min_eq_right hceiling, Nat.max_eq_right hfloor]
    rfl
  next requested hparse =>
    obtain ⟨hnumber, rfl, hfits⟩ := parseDecimal_eq_ok_iff.mp hparse
    have hword : (UInt64.ofNat (digitsValue value)).toNat = digitsValue value :=
      UInt64.toNat_ofNat_of_lt' (Nat.lt_of_le_pred (by decide) hfits)
    rw [if_pos (Or.inl hnumber), hnumber.takeWhile_eq, Option.map_some,
      toNat_clamp limits.blockSizeFloor_le, hword]

/-- A timeout is settled for a number between the limits, and it is that number. -/
theorem resolveTimeout_eq_some_iff {value : Octets} {seconds : UInt32} :
    limits.resolveTimeout value = some seconds ↔
      IsNumber value ∧ digitsValue value = seconds.toNat ∧
        max 1 limits.minTimeout.toNat ≤ seconds.toNat ∧
          seconds.toNat ≤ min 255 limits.maxTimeout.toNat := by
  have hword : seconds.toNat ≤ UInt32.size - 1 := Nat.le_pred_of_lt seconds.toNat_lt
  unfold resolveTimeout
  split
  next error hparse =>
    refine ⟨fun hnone => (nomatch hnone), fun ⟨hnumber, hvalue, _⟩ => ?_⟩
    have hread := parseDecimal_eq_ok_iff.mpr ⟨hnumber, hvalue, hword⟩
    exact nomatch hparse.symm.trans hread
  next requested hparse =>
    obtain ⟨hnumber, rfl, hfits⟩ := parseDecimal_eq_ok_iff.mp hparse
    have hseconds : some (UInt32.ofNat (digitsValue value)) = some seconds ↔
        digitsValue value = seconds.toNat := by
      rw [Option.some.injEq, ← UInt32.toNat_inj,
        UInt32.toNat_ofNat_of_lt' (Nat.lt_of_le_pred (by decide) hfits)]
    split
    next houtside =>
      refine ⟨fun hnone => (nomatch hnone), fun ⟨_, hvalue, hlower, hupper⟩ => ?_⟩
      omega
    next hinside =>
      rw [hseconds]
      refine ⟨fun hvalue => ⟨hnumber, hvalue, ?_⟩, fun ⟨_, hvalue, _⟩ => hvalue⟩
      omega

end Limits

section Agreed

variable {limits : Limits} {length : Option UInt64} {option : KnownOption}

/-- What was agreed on once is agreed on again. -/
theorem agreedNumber_decimal {value : Octets} {number : Nat}
    (hagreed : agreedNumber limits length option value = some number) :
    agreedNumber limits length option (decimal number) = some number := by
  have hread : (decimal number).takeWhile isDigit = decimal number :=
    (isNumber_decimal number).takeWhile_eq
  cases option with
  | blockSize =>
      have hlimits := UInt64.le_iff_toNat_le.mp limits.blockSizeFloor_le
      rw [agreedNumber, Limits.map_toNat_resolveBlockSize] at hagreed ⊢
      rw [if_pos (Or.inl (isNumber_decimal number)), hread, digitsValue_decimal]
      split at hagreed
      next =>
        cases hagreed
        congr 1
        omega
      next => cases hagreed
  | timeout =>
      obtain ⟨seconds, hseconds, rfl⟩ := Option.map_eq_some_iff.mp hagreed
      obtain ⟨_, _, hbounds⟩ := limits.resolveTimeout_eq_some_iff.mp hseconds
      refine Option.map_eq_some_iff.mpr ⟨seconds, ?_, rfl⟩
      exact limits.resolveTimeout_eq_some_iff.mpr
        ⟨isNumber_decimal _, digitsValue_decimal _, hbounds⟩
  | transferSize => exact hagreed

end Agreed

end TftpServer
