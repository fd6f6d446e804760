import Mathlib.Algebra.Group.Nat.Defs
import TftpServer.Endpoint.Numeric

/-! # Reading hexadecimal digits

There is one lowercase digit for each value below sixteen, so a digit gives its value
back. A number that was printed in hexadecimal is read as it was, and takes no more digits
than its size calls for.
-/

namespace TftpServer

/-- The digits that are written, each at the place of its value. -/
def hexDigits : Octets := ascii "0123456789abcdef"

theorem getElem?_hexDigits {value : Nat} (hvalue : value < 16) :
    hexDigits[value]? = some (hexDigit value) := by
  decide +revert

theorem hexDigit_mem {value : Nat} (hvalue : value < 16) : hexDigit value ∈ hexDigits :=
  List.mem_of_getElem? (getElem?_hexDigits hvalue)

/-- The place of a digit is its value. -/
theorem idxOf?_hexDigits_eq_some_iff {octet : UInt8} {value : Nat} :
    hexDigits.idxOf? octet = some value ↔ value < 16 ∧ hexDigit value = octet := by
  constructor
  · intro hplace
    obtain ⟨hvalue, hoctet, _⟩ := List.idxOf?_eq_some_iff.mp hplace
    have hdigit := getElem?_hexDigits hvalue
    rw [List.getElem?_eq_getElem hvalue, hoctet, Option.some_inj] at hdigit
    exact ⟨hvalue, hdigit.symm⟩
  · rintro ⟨hvalue, rfl⟩
    decide +revert

theorem mem_hexDigits_of_isDigit {octet : UInt8} (hdigit : Text.isDigit octet = true) :
    octet ∈ hexDigits := by
  simp only [Text.isDigit, Bool.and_eq_true, decide_eq_true_eq, UInt8.le_iff_toNat_le,
    UInt8.reduceToNat] at hdigit
  have hvalue : octet.toNat - 48 < 10 := by omega
  have hwritten : hexDigit (octet.toNat - 48) = octet := by
    rw [hexDigit, if_pos hvalue, Nat.add_sub_cancel' hdigit.1, UInt8.ofNat_toNat]
  exact hwritten ▸ hexDigit_mem (Nat.lt_trans hvalue (by decide))

/-- A reader that takes both cases takes what is written. -/
theorem hexDigitValue_hexDigit {value : Nat} (hvalue : value < 16) :
    Address.hexDigitValue (hexDigit value) = some value := by
  decide +revert

namespace Text

theorem hexadecimal_ne_nil (value : Nat) : hexadecimal value ≠ [] := by
  rw [hexadecimal]
  split <;> simp

theorem mem_hexDigits_of_mem_hexadecimal {value : Nat} {octet : UInt8}
    (hoctet : octet ∈ hexadecimal value) : octet ∈ hexDigits := by
  induction value using hexadecimal.induct with
  | case1 value hlt =>
      rw [hexadecimal, if_pos hlt, List.mem_singleton] at hoctet
      exact hoctet ▸ hexDigit_mem hlt
  | case2 value hge ih =>
      rw [hexadecimal, if_neg hge, List.mem_append, List.mem_singleton] at hoctet
      rcases hoctet with hleading | rfl
      · exact ih hleading
      · exact hexDigit_mem (Nat.mod_lt value (by decide))

theorem length_hexadecimal_le {value digits : Nat} (hvalue : value < 16 ^ (digits + 1)) :
    (hexadecimal value).length ≤ digits + 1 := by
  induction value using hexadecimal.induct generalizing digits with
  | case1 value hlt =>
      rw [hexadecimal, if_pos hlt, List.length_singleton]
      exact Nat.le_add_left 1 digits
  | case2 value hge ih =>
      rw [hexadecimal, if_neg hge, List.length_append, List.length_singleton]
      cases digits with
      | zero => exact absurd hvalue hge
      | succ digits =>
          have hquotient : value / 16 < 16 ^ (digits + 1) := by
            rw [pow_succ] at hvalue
            omega
          exact Nat.add_le_add_right (ih hquotient) 1

/-- What a run of digits stands for, most significant first. -/
def hexValue (digits : List Nat) : Nat :=
  digits.foldl (fun value digit => 16 * value + digit) 0

/-- A printed number is read digit by digit. -/
theorem mapM_hexadecimal (value : Nat) :
    ∃ digits, (hexadecimal value).mapM Address.hexDigitValue = some digits ∧
      digits.length = (hexadecimal value).length ∧ hexValue digits = value := by
  induction value using hexadecimal.induct with
  | case1 value hlt =>
      rw [hexadecimal, if_pos hlt, List.mapM_cons, hexDigitValue_hexDigit hlt]
      exact ⟨[value], rfl, rfl, by simp [hexValue]⟩
  | case2 value hge ih =>
      obtain ⟨digits, hread, hlength, hvalue⟩ := ih
      have hlast : value % 16 < 16 := Nat.mod_lt value (by decide)
      rw [hexadecimal, if_neg hge, List.mapM_append, hread, List.mapM_cons,
        hexDigitValue_hexDigit hlast]
      refine ⟨digits ++ [value % 16], rfl, by simp [hlength], ?_⟩
      rw [hexValue] at hvalue ⊢
      rw [List.foldl_append, hvalue, List.foldl_cons, List.foldl_nil]
      omega

end Text

end TftpServer
