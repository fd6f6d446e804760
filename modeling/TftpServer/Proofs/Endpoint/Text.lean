import TftpServer.Proofs.Endpoint.Numeric
import TftpServer.Proofs.Endpoint.SocketAddress

/-! # Telling endpoints apart by their text

The parts of an endpoint are set apart by octets that do not occur in them: a colon stands
behind a dotted address, a percent sign in front of a scope, and a bracket behind both. So
the text of an endpoint in canonical form tells which endpoint it is, as long as the text
of an IPv6 address tells which address it is.
-/

namespace TftpServer

open Text

namespace Endpoint

/-- The text of an endpoint, with a given way to write IPv6 addresses. -/
def textWith (write : Address → Octets) (endpoint : Endpoint) : Octets :=
  endpoint.frame
    (match endpoint.family with
    | .ipv4 => Address.dotted (endpoint.address.toList.take 4)
    | .ipv6 => write endpoint.address)

theorem text_eq_textWith (endpoint : Endpoint) : endpoint.text = endpoint.textWith Address.ipv6Text :=
  rfl

/-! ## The parts -/

/-- The scope behind an address; a zero scope is not shown. -/
def scopeText (scope : UInt32) : Octets :=
  if scope = 0 then [] else 37 :: decimal scope.toNat

theorem append_scopeText_inj {first second : Octets} (hfirst : 37 ∉ first) (hsecond : 37 ∉ second)
    {scope otherScope : UInt32} :
    first ++ scopeText scope = second ++ scopeText otherScope ↔
      first = second ∧ scope = otherScope := by
  constructor
  · intro htext
    unfold scopeText at htext
    split at htext
    next hzero =>
      split at htext
      next hotherZero =>
        rw [List.append_nil, List.append_nil] at htext
        exact ⟨htext, hzero.trans hotherZero.symm⟩
      next =>
        rw [List.append_nil] at htext
        exact absurd (htext ▸ List.mem_append_cons_self) hfirst
    next =>
      split at htext
      next =>
        rw [List.append_nil] at htext
        exact absurd (htext ▸ List.mem_append_cons_self) hsecond
      next =>
        have hdigits := notMem_decimal (show isDigit 37 = false by decide) scope.toNat
        obtain ⟨haddress, _, hscope⟩ := (List.append_cons_inj_of_notMem hfirst hdigits).mp htext
        exact ⟨haddress, UInt32.toNat_inj.mp (decimal_inj.mp hscope)⟩
  · rintro ⟨rfl, rfl⟩
    rfl

theorem bracket_notMem_scopeText (scope : UInt32) : 93 ∉ scopeText scope := by
  unfold scopeText
  split
  next => exact List.not_mem_nil
  next =>
    rw [List.mem_cons, not_or]
    exact ⟨by decide, notMem_decimal (by decide) _⟩

/-! ## Endpoints -/

section Parts

variable (write : Address → Octets) {endpoint : Endpoint}

theorem textWith_ipv4 (hfamily : endpoint.family = .ipv4) :
    endpoint.textWith write = Address.dotted (endpoint.address.toList.take 4) ++
      58 :: decimal endpoint.port.toNat := by
  simp only [textWith, frame, hfamily]

theorem textWith_ipv6 (hfamily : endpoint.family = .ipv6) :
    endpoint.textWith write = 91 :: ((write endpoint.address ++ scopeText endpoint.scope) ++
      93 :: 58 :: decimal endpoint.port.toNat) := by
  simp only [textWith, frame, hfamily]
  rw [List.append_assoc _ (ascii "]:")]
  rfl

theorem bracket_notMem_textWith_ipv4 (hfamily : endpoint.family = .ipv4) :
    91 ∉ endpoint.textWith write := by
  rw [textWith_ipv4 write hfamily, List.mem_append, List.mem_cons]
  rintro (hdotted | hcolon | hport)
  · exact absurd (Address.mem_alphabet_of_mem_dotted hdotted) (by decide)
  · exact absurd hcolon (by decide)
  · exact notMem_decimal (by decide) _ hport

end Parts

section Injectivity

variable {write : Address → Octets} {first second : Endpoint}

theorem eq_of_parts (hfamily : first.family = second.family)
    (haddress : first.address = second.address) (hport : first.port.toNat = second.port.toNat)
    (hscope : first.scope = second.scope) : first = second := by
  obtain ⟨family, address, port, scope⟩ := first
  obtain rfl := hfamily
  obtain rfl := haddress
  obtain rfl := UInt16.toNat_inj.mp hport
  obtain rfl := hscope
  rfl

theorem eq_of_textWith_ipv4 (hfirst : first.IsCanonical) (hsecond : second.IsCanonical)
    (hfamily : first.family = .ipv4) (hotherFamily : second.family = .ipv4)
    (htext : first.textWith write = second.textWith write) : first = second := by
  have hlength (endpoint : Endpoint) : (endpoint.address.toList.take 4).length = 4 := by
    rw [List.length_take, Vector.length_toList]
    rfl
  have hcolon : 58 ∉ Address.dotted (first.address.toList.take 4) := Address.colon_notMem_dotted _
  have hdigits := notMem_decimal (show isDigit 58 = false by decide) first.port.toNat
  rw [textWith_ipv4 write hfamily, textWith_ipv4 write hotherFamily] at htext
  obtain ⟨hdotted, _, hport⟩ := (List.append_cons_inj_of_notMem hcolon hdigits).mp htext
  have hoctets := Address.dotted_inj (hlength first) (hlength second) hdotted
  obtain ⟨hbehind, hscope⟩ := hfirst hfamily
  obtain ⟨hotherBehind, hotherScope⟩ := hsecond hotherFamily
  have haddress : first.address = second.address := by
    apply Address.ext_octetAt
    intro place hplace
    by_cases hnear : place < 4
    · rw [← Address.getD_take _ hnear, hoctets, Address.getD_take _ hnear]
    · rw [hbehind place (Nat.le_of_not_lt hnear) hplace,
        hotherBehind place (Nat.le_of_not_lt hnear) hplace]
  exact eq_of_parts (hfamily.trans hotherFamily.symm) haddress (decimal_inj.mp hport)
    (hscope.trans hotherScope.symm)

theorem eq_of_textWith_ipv6 (hwrite : Address.IsSpelling write) (hfamily : first.family = .ipv6)
    (hotherFamily : second.family = .ipv6)
    (htext : first.textWith write = second.textWith write) : first = second := by
  have hpercent (address : Address) : 37 ∉ write address :=
    fun hmem => absurd (hwrite.plain address 37 hmem) (by decide)
  have hbracket : 93 ∉ write first.address ++ scopeText first.scope := by
    rw [List.mem_append, not_or]
    exact ⟨fun hmem => absurd (hwrite.plain _ 93 hmem) (by decide), bracket_notMem_scopeText _⟩
  have hdigits : 93 ∉ 58 :: decimal first.port.toNat := by
    rw [List.mem_cons, not_or]
    exact ⟨by decide, notMem_decimal (by decide) _⟩
  rw [textWith_ipv6 write hfamily, textWith_ipv6 write hotherFamily] at htext
  obtain ⟨hscoped, _, hport⟩ :=
    (List.append_cons_inj_of_notMem hbracket hdigits).mp (List.cons.inj htext).2
  obtain ⟨haddress, hscope⟩ := (append_scopeText_inj (hpercent _) (hpercent _)).mp hscoped
  exact eq_of_parts (hfamily.trans hotherFamily.symm) (hwrite.injective haddress)
    (decimal_inj.mp (List.cons.inj hport).2) hscope

theorem textWith_inj (hwrite : Address.IsSpelling write) (hfirst : first.IsCanonical)
    (hsecond : second.IsCanonical) :
    first.textWith write = second.textWith write ↔ first = second := by
  constructor
  · intro htext
    cases hfamily : first.family with
    | ipv4 =>
        cases hotherFamily : second.family with
        | ipv4 => exact eq_of_textWith_ipv4 hfirst hsecond hfamily hotherFamily htext
        | ipv6 =>
            refine absurd ?_ (bracket_notMem_textWith_ipv4 write hfamily)
            rw [htext, textWith_ipv6 write hotherFamily]
            exact List.mem_cons_self
    | ipv6 =>
        cases hotherFamily : second.family with
        | ipv4 =>
            refine absurd ?_ (bracket_notMem_textWith_ipv4 write hotherFamily)
            rw [← htext, textWith_ipv6 write hfamily]
            exact List.mem_cons_self
        | ipv6 => exact eq_of_textWith_ipv6 hwrite hfamily hotherFamily htext
  · rintro rfl
    rfl

end Injectivity

/-- Two endpoints that were read from socket addresses have one text only if they are one
endpoint, whatever their families, ports and scopes are. For that it matters in no way how
IPv6 addresses are written, as long as different ones are written differently, with
hexadecimal digits, colons and dots. -/
theorem text_tells_endpoint {firstAddress secondAddress : SocketAddress}
    {first second : Endpoint} (hfirst : firstAddress.toEndpoint? = some first)
    (hsecond : secondAddress.toEndpoint? = some second) :
    (first.text = second.text ↔ first = second) ∧
      ∀ write : Address → Octets, Address.IsSpelling write →
        (first.textWith write = second.textWith write ↔ first = second) := by
  have hcanonical := (SocketAddress.toEndpoint?_eq_some_iff.mp hfirst).isCanonical
  have hotherCanonical := (SocketAddress.toEndpoint?_eq_some_iff.mp hsecond).isCanonical
  refine ⟨?_, fun write hwrite => textWith_inj hwrite hcanonical hotherCanonical⟩
  rw [text_eq_textWith, text_eq_textWith]
  exact textWith_inj Address.isSpelling_ipv6Text hcanonical hotherCanonical

/-- Two scopes of one address, where the digits of one scope go on where the other one ends. -/
theorem text_tells_endpoint_with_two_scopes :
    let address : Address := .ofOctets [0xfe, 0x80, 0, 0, 0, 0, 0, 0, 0, 0, 0, 0, 0, 0, 0, 1]
    let first : Endpoint := .ipv6 address 5000 2
    let second : Endpoint := .ipv6 address 0 25
    (SocketAddress.ofEndpoint first).toEndpoint? = some first ∧
      (SocketAddress.ofEndpoint second).toEndpoint? = some second ∧
      Address.IsSpelling Address.ipv6Text ∧ first.text ≠ second.text ∧
      first.textWith Address.ipv6Text ≠ second.textWith Address.ipv6Text := by
  intro address first second
  have hfirst : (SocketAddress.ofEndpoint first).toEndpoint? = some first :=
    SocketAddress.toEndpoint?_ofEndpoint first
  have hsecond : (SocketAddress.ofEndpoint second).toEndpoint? = some second :=
    SocketAddress.toEndpoint?_ofEndpoint second
  have hother : first ≠ second := by decide
  obtain ⟨htext, hwith⟩ := text_tells_endpoint hfirst hsecond
  exact ⟨hfirst, hsecond, Address.isSpelling_ipv6Text, fun heq => hother (htext.mp heq),
    fun heq => hother ((hwith _ Address.isSpelling_ipv6Text).mp heq)⟩

end Endpoint

end TftpServer
