import Mathlib.Algebra.Group.Nat.Defs
import Mathlib.Data.List.TakeWhile
import TftpServer.Text.Decimal

/-! # Reading printed numbers

A number that was printed is read back as it was, and takes no more digits than
its size calls for. Only digits are read as a number, but a number that is too
large is reported whatever stands behind it.
-/

namespace TftpServer.Text

theorem isDigit_of_mem_decimal {value : Nat} {octet : UInt8} (hoctet : octet ∈ decimal value) :
    isDigit octet = true := by
  have hdigit (digit : Nat) (hlt : digit < 10) : isDigit (UInt8.ofNat (48 + digit)) = true := by
    simp only [isDigit, Bool.and_eq_true, decide_eq_true_eq, UInt8.le_iff_toNat_le,
      UInt8.toNat_ofNat', UInt8.reduceToNat]
    omega
  induction value using decimal.induct with
  | case1 value hlt =>
      rw [decimal, if_pos hlt, List.mem_singleton] at hoctet
      exact hoctet ▸ hdigit value hlt
  | case2 value hge ih =>
      rw [decimal, if_neg hge, List.mem_append, List.mem_singleton] at hoctet
      rcases hoctet with hleading | rfl
      · exact ih hleading
      · exact hdigit (value % 10) (Nat.mod_lt value (by decide))

theorem notMem_decimal {octet : UInt8} (hoctet : isDigit octet = false) (value : Nat) :
    octet ∉ decimal value :=
  fun hmem => Bool.false_ne_true (hoctet.symm.trans (isDigit_of_mem_decimal hmem))

theorem decimal_ne_nil (value : Nat) : decimal value ≠ [] := by
  rw [decimal]
  split <;> simp

theorem length_decimal_le {value digits : Nat} (hpos : 0 < digits) (hvalue : value < 10 ^ digits) :
    (decimal value).length ≤ digits := by
  induction value using decimal.induct generalizing digits with
  | case1 value hlt =>
      rw [decimal, if_pos hlt]
      exact hpos
  | case2 value hge ih =>
      obtain ⟨fewer, rfl⟩ := Nat.exists_eq_succ_of_ne_zero hpos.ne'
      have hquotient : value / 10 < 10 ^ fewer := by
        rw [pow_succ] at hvalue
        omega
      have hfewer : 0 < fewer := by
        by_contra hzero
        obtain rfl : fewer = 0 := by omega
        omega
      rw [decimal, if_neg hge, List.length_append]
      exact Nat.add_le_add_right (ih hfewer hquotient) 1

theorem digitsValue_decimal (value : Nat) : digitsValue (decimal value) = value := by
  have hdigit (digit : Nat) (hlt : digit < 10) : (UInt8.ofNat (48 + digit)).toNat - 48 = digit := by
    rw [UInt8.toNat_ofNat']
    omega
  induction value using decimal.induct with
  | case1 value hlt =>
      rw [decimal, if_pos hlt, digitsValue, List.foldl_cons, List.foldl_nil, hdigit value hlt]
      omega
  | case2 value hge ih =>
      rw [digitsValue] at ih
      rw [decimal, if_neg hge, digitsValue, List.foldl_append, ih, List.foldl_cons, List.foldl_nil,
        hdigit (value % 10) (Nat.mod_lt value (by decide))]
      omega

theorem decimal_inj {first second : Nat} : decimal first = decimal second ↔ first = second := by
  constructor
  · intro htext
    rw [← digitsValue_decimal first, htext, digitsValue_decimal]
  · rintro rfl
    rfl

/-! ## What is read as a number -/

/-- Digits only, and at least one of them. -/
def IsNumber (text : Octets) : Prop :=
  text ≠ [] ∧ ∀ octet ∈ text, isDigit octet = true

instance (text : Octets) : Decidable (IsNumber text) :=
  inferInstanceAs (Decidable (_ ∧ _))

theorem isNumber_decimal (value : Nat) : IsNumber (decimal value) :=
  ⟨decimal_ne_nil value, fun _ => isDigit_of_mem_decimal⟩

theorem IsNumber.takeWhile_eq {text : Octets} (hnumber : IsNumber text) :
    text.takeWhile isDigit = text :=
  List.takeWhile_eq_self_iff.mpr hnumber.2

/-- Too large a number is noticed before anything that stands behind it. -/
theorem parseDecimal_eq_overflow_iff {largest : Nat} {text : Octets} :
    parseDecimal largest text = .error .overflow ↔
      largest < digitsValue (text.takeWhile isDigit) := by
  unfold parseDecimal
  dsimp only
  split
  next hnone => simp [hnone, digitsValue]
  next =>
    split
    next hover => simp [hover]
    next hfits =>
      split
      · simp [hfits]
      · simp [hfits]

theorem parseDecimal_eq_ok_iff {largest value : Nat} {text : Octets} :
    parseDecimal largest text = .ok value ↔
      IsNumber text ∧ digitsValue text = value ∧ value ≤ largest := by
  constructor
  · intro hparse
    unfold parseDecimal at hparse
    dsimp only at hparse
    split at hparse
    next => cases hparse
    next hsome =>
      split at hparse
      next => cases hparse
      next hfits =>
        split at hparse
        next hrest =>
          have hdigits : ∀ octet ∈ text, isDigit octet = true := List.dropWhile_eq_nil_iff.mp hrest
          rw [List.takeWhile_eq_self_iff.mpr hdigits] at hsome hfits hparse
          cases hparse
          exact ⟨⟨hsome, hdigits⟩, rfl, Nat.le_of_not_lt hfits⟩
        next => cases hparse
  · rintro ⟨hnumber, rfl, hfits⟩
    rw [parseDecimal, hnumber.takeWhile_eq, List.dropWhile_eq_nil_iff.mpr hnumber.2,
      if_neg hnumber.1, if_neg (Nat.not_lt_of_le hfits), if_pos rfl]

theorem parseDecimal_decimal {value largest : Nat} (hvalue : value ≤ largest) :
    parseDecimal largest (decimal value) = .ok value :=
  parseDecimal_eq_ok_iff.mpr ⟨isNumber_decimal value, digitsValue_decimal value, hvalue⟩

end TftpServer.Text
