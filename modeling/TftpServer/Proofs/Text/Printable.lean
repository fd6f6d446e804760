import TftpServer.Endpoint.Text
import TftpServer.Log
import TftpServer.Text.LogEscape
import TftpServer.Transfer.Events

/-! # Printable text

Printable text holds neither a NUL, so that it always has a wire form, nor a
newline, so that it always stays within one line of a log. Numbers, escaped
names, endpoints and every text of the server's own are printable.
-/

namespace TftpServer

namespace Text

def Printable (text : Octets) : Prop :=
  ∀ octet ∈ text, isPrintable octet = true

instance (text : Octets) : Decidable (Printable text) :=
  decidable_of_iff (text.all isPrintable = true) List.all_eq_true

theorem isPrintable_iff (octet : UInt8) :
    isPrintable octet = true ↔ 32 ≤ octet.toNat ∧ octet.toNat < 127 := by
  simp [isPrintable, UInt8.le_iff_toNat_le, UInt8.lt_iff_toNat_lt]

@[simp] theorem printable_nil : Printable [] := by
  simp [Printable]

@[simp] theorem printable_cons (octet : UInt8) (text : Octets) :
    Printable (octet :: text) ↔ isPrintable octet = true ∧ Printable text := by
  simp [Printable]

@[simp] theorem printable_append (first second : Octets) :
    Printable (first ++ second) ↔ Printable first ∧ Printable second := by
  simp [Printable, or_imp, forall_and]

theorem Printable.nul_notMem {text : Octets} (htext : Printable text) : 0 ∉ text :=
  fun hmem => absurd (htext 0 hmem) (by decide)

theorem Printable.newline_notMem {text : Octets} (htext : Printable text) : 10 ∉ text :=
  fun hmem => absurd (htext 10 hmem) (by decide)

theorem printable_digit {value : Nat} (hvalue : value < 10) :
    isPrintable (UInt8.ofNat (48 + value)) = true := by
  rw [isPrintable_iff, UInt8.toNat_ofNat']
  omega

theorem printable_decimal (value : Nat) : Printable (decimal value) := by
  -- Along the quotients, as the digits are written.
  induction value using decimal.induct with
  | case1 value hlt =>
      rw [decimal, if_pos hlt, printable_cons]
      exact ⟨printable_digit hlt, printable_nil⟩
  | case2 value hge ih =>
      have hdigit : value % 10 < 10 := Nat.mod_lt value (by decide)
      rw [decimal, if_neg hge, printable_append, printable_cons]
      exact ⟨ih, printable_digit hdigit, printable_nil⟩

theorem printable_signedDecimal (value : Int) : Printable (signedDecimal value) := by
  cases value with
  | ofNat value => exact printable_decimal value
  | negSucc value =>
      simp only [signedDecimal, printable_cons]
      exact ⟨by decide, printable_decimal _⟩

theorem printable_hexDigit {value : Nat} (hvalue : value < 16) :
    isPrintable (hexDigit value) = true := by
  rw [isPrintable_iff, hexDigit, UInt8.toNat_ofNat']
  split <;> omega

theorem printable_hexadecimal (value : Nat) : Printable (hexadecimal value) := by
  induction value using hexadecimal.induct with
  | case1 value hlt =>
      rw [hexadecimal, if_pos hlt, printable_cons]
      exact ⟨printable_hexDigit hlt, printable_nil⟩
  | case2 value hge ih =>
      have hdigit : value % 16 < 16 := Nat.mod_lt value (by decide)
      rw [hexadecimal, if_neg hge, printable_append, printable_cons]
      exact ⟨ih, printable_hexDigit hdigit, printable_nil⟩

theorem printable_escapeOctet (octet : UInt8) : Printable (escapeOctet octet) := by
  unfold escapeOctet
  split
  next hplain =>
    simp only [Bool.and_eq_true] at hplain
    simpa using hplain.1
  next =>
    have hhigh : octet.toNat / 16 < 16 := by
      have := octet.toNat_lt
      omega
    have hlow : octet.toNat % 16 < 16 := Nat.mod_lt _ (by decide)
    simp only [printable_cons, printable_nil, printable_hexDigit hhigh, printable_hexDigit hlow]
    decide

/-- Whatever a peer chose as a name, its shown form is printable. -/
theorem printable_escapeForLog (text : Octets) : Printable (escapeForLog text) := by
  induction text with
  | nil => exact printable_nil
  | cons octet rest ih =>
      rw [escapeForLog_cons, printable_append]
      exact ⟨printable_escapeOctet octet, ih⟩

theorem printable_joinWith {separator : UInt8} (hseparator : isPrintable separator = true)
    {texts : List Octets} (htexts : ∀ text ∈ texts, Printable text) :
    Printable (joinWith separator texts) := by
  induction texts with
  | nil => exact printable_nil
  | cons text rest ih =>
      have htext : Printable text := htexts text List.mem_cons_self
      cases rest with
      | nil => exact htext
      | cons next others =>
          have hrest := ih fun other hother => htexts other (List.mem_cons_of_mem _ hother)
          rw [joinWith, printable_append, printable_cons]
          · exact ⟨htext, hseparator, hrest⟩
          · simp

end Text

open Text

/-! ## Endpoints -/

namespace Address

theorem printable_dotted (octets : Octets) : Printable (dotted octets) := by
  apply printable_joinWith (by decide)
  intro text htext
  obtain ⟨octet, _, rfl⟩ := List.mem_map.mp htext
  exact printable_decimal _

theorem printable_groupsText (groups : List Nat) : Printable (groupsText groups) := by
  apply printable_joinWith (by decide)
  intro text htext
  obtain ⟨group, _, rfl⟩ := List.mem_map.mp htext
  exact printable_hexadecimal _

theorem printable_ipv6Text (address : Address) : Printable address.ipv6Text := by
  dsimp only [ipv6Text]
  split
  · exact printable_groupsText _
  · split
    · exact (printable_append _ _).mpr ⟨by decide, printable_dotted _⟩
    · split
      · exact (printable_append _ _).mpr ⟨by decide, printable_dotted _⟩
      · simp only [printable_append]
        exact ⟨⟨printable_groupsText _, by decide⟩, printable_groupsText _⟩

end Address

theorem Endpoint.printable_text (endpoint : Endpoint) : Printable endpoint.text := by
  unfold Endpoint.text Endpoint.frame Endpoint.addressText
  cases endpoint.family with
  | ipv4 =>
      simp only [printable_append, printable_cons]
      exact ⟨Address.printable_dotted _, by decide, printable_decimal _⟩
  | ipv6 =>
      have hscope : Printable
          (if endpoint.scope = 0 then [] else 37 :: decimal endpoint.scope.toNat) := by
        split
        · exact printable_nil
        · exact (printable_cons _ _).mpr ⟨by decide, printable_decimal _⟩
      simp only [printable_append, printable_cons]
      exact ⟨by decide, ⟨⟨Address.printable_ipv6Text _, hscope⟩, by decide⟩, printable_decimal _⟩

/-! ## The server's own texts -/

theorem ErrorCode.printable_text (code : ErrorCode) : Printable code.text := by
  unfold ErrorCode.text
  split <;> decide

theorem Opcode.printable_name (opcode : Opcode) : Printable opcode.name := by
  cases opcode <;> decide

theorem Mode.printable_name (mode : Mode) : Printable mode.name := by
  cases mode <;> decide

theorem Phase.printable_name (phase : Phase) : Printable phase.name := by
  cases phase <;> decide

theorem DecodeStatus.printable_name (status : DecodeStatus) : Printable status.name := by
  cases status with
  | ok => decide
  | defect reason => cases reason <;> decide
  | unlisted => decide

theorem LogLevel.printable_name (level : LogLevel) : Printable level.name := by
  cases level <;> decide

theorem KnownOption.printable_name (option : KnownOption) : Printable option.name := by
  cases option <;> decide

end TftpServer
