import Mathlib.Logic.Function.Basic
import TftpServer.Proofs.Text.Hexadecimal
import TftpServer.Proofs.Text.Printable

/-! # Reading escaped text

The escaped form of a text is printable, and a backslash in it always begins the escape of
one octet. So it is read back from left to right, and only the escaped form of a text is
read as that text. The reader refuses an escape for an octet that stands for itself.
-/

namespace TftpServer.Text

/-- Whether an octet stands for itself. -/
def isPlain (octet : UInt8) : Bool :=
  isPrintable octet && octet != 92

theorem escapeOctet_of_isPlain {octet : UInt8} (hplain : isPlain octet = true) :
    escapeOctet octet = [octet] :=
  if_pos hplain

theorem escapeOctet_of_not_isPlain {octet : UInt8} (hplain : ¬ isPlain octet = true) :
    escapeOctet octet = [92, 120, hexDigit (octet.toNat / 16), hexDigit (octet.toNat % 16)] :=
  if_neg hplain

/-- The octet that two digits stand for behind a backslash and `x`. -/
def escaped? (high low : UInt8) : Option UInt8 := do
  let octet := UInt8.ofNat (16 * (← hexDigits.idxOf? high) + (← hexDigits.idxOf? low))
  if isPlain octet then none else some octet

/-- Reads an escaped text, if it is one. -/
def unescape : Octets → Option Octets
  | [] => some []
  | 92 :: 120 :: high :: low :: rest =>
    match escaped? high low with
    | some octet => (unescape rest).map (octet :: ·)
    | none => none
  | octet :: rest => if isPlain octet then (unescape rest).map (octet :: ·) else none

theorem escaped?_eq_some_iff {high low octet : UInt8} :
    escaped? high low = some octet ↔
      ¬ isPlain octet = true ∧ escapeOctet octet = [92, 120, high, low] := by
  constructor
  · intro hescaped
    obtain ⟨first, hfirst, second, hsecond, hoctet⟩ : ∃ first, hexDigits.idxOf? high = some first ∧
        ∃ second, hexDigits.idxOf? low = some second ∧
          (if isPlain (UInt8.ofNat (16 * first + second)) then none
            else some (UInt8.ofNat (16 * first + second))) = some octet := by
      simpa only [escaped?, bind, Option.bind_eq_some_iff] using hescaped
    obtain ⟨hhigh, rfl⟩ := idxOf?_hexDigits_eq_some_iff.mp hfirst
    obtain ⟨hlow, rfl⟩ := idxOf?_hexDigits_eq_some_iff.mp hsecond
    split at hoctet
    next => cases hoctet
    next hplain =>
      obtain rfl := Option.some.inj hoctet
      have hvalue : (UInt8.ofNat (16 * first + second)).toNat = 16 * first + second :=
        UInt8.toNat_ofNat_of_lt' (by simp only [UInt8.size]; omega)
      refine ⟨hplain, ?_⟩
      rw [escapeOctet_of_not_isPlain hplain, hvalue, Nat.mul_add_div (by decide),
        Nat.div_eq_of_lt hlow, Nat.add_zero, Nat.mul_add_mod, Nat.mod_eq_of_lt hlow]
  · rintro ⟨hplain, hescape⟩
    rw [escapeOctet_of_not_isPlain hplain] at hescape
    simp only [List.cons.injEq, true_and, and_true] at hescape
    obtain ⟨rfl, rfl⟩ := hescape
    have hvalue := octet.toNat_lt
    have hfirst := idxOf?_hexDigits_eq_some_iff.mpr
      ⟨show octet.toNat / 16 < 16 by omega, rfl⟩
    have hsecond := idxOf?_hexDigits_eq_some_iff.mpr
      ⟨Nat.mod_lt octet.toNat (show 16 > 0 by decide), rfl⟩
    simp only [escaped?, hfirst, hsecond, bind, Option.bind_some, Nat.div_add_mod,
      UInt8.ofNat_toNat, if_neg hplain]

theorem unescape_append (octet : UInt8) (rest : Octets) :
    unescape (escapeOctet octet ++ rest) = (unescape rest).map (octet :: ·) := by
  by_cases hplain : isPlain octet = true
  · rw [escapeOctet_of_isPlain hplain, List.singleton_append, unescape, if_pos hplain]
    rintro high low others rfl
    exact absurd hplain (by decide)
  · have hescape := escapeOctet_of_not_isPlain hplain
    rw [hescape, List.cons_append, List.cons_append, List.cons_append, List.singleton_append,
      unescape, escaped?_eq_some_iff.mpr ⟨hplain, hescape⟩]

/-- Exactly the escaped form of a text is read as that text. -/
theorem unescape_eq_some_iff {shown text : Octets} :
    unescape shown = some text ↔ escapeForLog text = shown := by
  constructor
  · intro hread
    fun_induction unescape shown generalizing text with
    | case1 =>
        obtain rfl := Option.some.inj hread
        exact escapeForLog_nil
    | case2 high low rest octet hescaped ih =>
        obtain ⟨others, hothers, rfl⟩ := Option.map_eq_some_iff.mp hread
        rw [escapeForLog_cons, (escaped?_eq_some_iff.mp hescaped).2, ih hothers]
        rfl
    | case3 => cases hread
    | case4 octet rest _ hplain ih =>
        obtain ⟨others, hothers, rfl⟩ := Option.map_eq_some_iff.mp hread
        rw [escapeForLog_cons, escapeOctet_of_isPlain hplain, ih hothers, List.singleton_append]
    | case5 => cases hread
  · rintro rfl
    induction text with
    | nil => rfl
    | cons octet rest ih => rw [escapeForLog_cons, unescape_append, ih, Option.map_some]

theorem tail_of_escapeOctet {octet : UInt8} {before after : Octets}
    (hescape : escapeOctet octet = before ++ 92 :: after) :
    ∃ high ∈ hexDigits, ∃ low ∈ hexDigits, after = [120, high, low] := by
  by_cases hplain : isPlain octet = true
  · rw [escapeOctet_of_isPlain hplain] at hescape
    have hbackslash : 92 ∈ [octet] := hescape ▸ List.mem_append_cons_self
    obtain rfl := List.mem_singleton.mp hbackslash
    exact absurd hplain (by decide)
  · have hvalue := octet.toNat_lt
    have hhigh := hexDigit_mem (show octet.toNat / 16 < 16 by omega)
    have hlow := hexDigit_mem (Nat.mod_lt octet.toNat (show 16 > 0 by decide))
    rw [escapeOctet_of_not_isPlain hplain] at hescape
    cases before with
    | nil => exact ⟨_, hhigh, _, hlow, (List.cons.inj hescape).2.symm⟩
    | cons first others =>
        -- There is no backslash behind the first one.
        have hbackslash : 92 ∈ [120, hexDigit (octet.toNat / 16), hexDigit (octet.toNat % 16)] :=
          (List.cons.inj hescape).2 ▸ List.mem_append_cons_self
        have hdigits : 92 ∉ hexDigits := by decide
        simp only [List.mem_cons, List.not_mem_nil, or_false] at hbackslash
        rcases hbackslash with hx | hfirst | hsecond
        · exact absurd hx (by decide)
        · exact absurd (hfirst ▸ hhigh) hdigits
        · exact absurd (hsecond ▸ hlow) hdigits

/-- A backslash is the beginning of an escape, wherever it stands. -/
theorem tail_of_escapeForLog {text before after : Octets}
    (hshown : escapeForLog text = before ++ 92 :: after) :
    ∃ high ∈ hexDigits, ∃ low ∈ hexDigits, ∃ rest, after = 120 :: high :: low :: rest := by
  induction text generalizing before with
  | nil => simp at hshown
  | cons octet others ih =>
      rw [escapeForLog_cons] at hshown
      rcases List.append_eq_append_iff.mp hshown with
        ⟨middle, _, hothers⟩ | ⟨part, hescape, hafter⟩
      · exact ih hothers
      · cases part with
        | nil =>
            have hothers : escapeForLog others = [] ++ 92 :: after := hafter.symm
            exact ih hothers
        | cons first tail =>
            obtain ⟨rfl, rfl⟩ := List.cons.inj hafter
            obtain ⟨high, hhigh, low, hlow, rfl⟩ := tail_of_escapeOctet hescape
            exact ⟨high, hhigh, low, hlow, escapeForLog others, rfl⟩

/-- The escaped form of any text is printable ASCII. Each backslash in it is followed by
`x` and two lowercase hexadecimal digits. It is read back as the text, and nothing else
is, so different texts have different escaped forms. -/
theorem escapeForLog_printable_and_lossless :
    (∀ text, ∀ octet ∈ escapeForLog text, 0x20 ≤ octet ∧ octet ≤ 0x7e) ∧
      (∀ text before after, escapeForLog text = before ++ 92 :: after →
        ∃ high ∈ ascii "0123456789abcdef", ∃ low ∈ ascii "0123456789abcdef",
          ∃ rest, after = 120 :: high :: low :: rest) ∧
      (∀ text shown, unescape shown = some text ↔ escapeForLog text = shown) ∧
      Function.Injective escapeForLog := by
  refine ⟨?_, fun _ _ _ => tail_of_escapeForLog, fun _ _ => unescape_eq_some_iff, ?_⟩
  · intro text octet hoctet
    have hprintable := (isPrintable_iff octet).mp (printable_escapeForLog text octet hoctet)
    rw [UInt8.le_iff_toNat_le, UInt8.le_iff_toNat_le]
    exact ⟨hprintable.1, Nat.le_of_lt_succ hprintable.2⟩
  · intro first second hshown
    have hfirst := unescape_eq_some_iff.mpr hshown
    have hsecond := unescape_eq_some_iff.mpr (rfl : escapeForLog second = _)
    exact Option.some.inj (hfirst.symm.trans hsecond)

/-- A name that looks like an escaped newline is not shown like a newline. -/
theorem escapeForLog_of_backslash_and_newline :
    escapeForLog (ascii "\\x0a") = ascii "\\x5cx0a" ∧ escapeForLog [10] = ascii "\\x0a" ∧
      unescape (ascii "\\x5cx0a") = some (ascii "\\x0a") ∧
      escapeForLog (ascii "\\x0a") ≠ escapeForLog [10] := by
  obtain ⟨_, _, hread, hinjective⟩ := escapeForLog_printable_and_lossless
  have hshown : escapeForLog (ascii "\\x0a") = ascii "\\x5cx0a" := by decide
  exact ⟨hshown, by decide, (hread _ _).mpr hshown, hinjective.ne (by decide)⟩

end TftpServer.Text
