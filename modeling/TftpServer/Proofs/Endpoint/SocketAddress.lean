import Mathlib.Data.List.GetD
import TftpServer.Endpoint.SocketAddress
import TftpServer.Proofs.Packet.Fields

/-! # Endpoints in socket addresses

A socket address is read by the places of its octets, whatever stands elsewhere. What is
read is in canonical form, and an endpoint in canonical form is read back from its own
socket address. So two socket addresses denote one peer exactly if they agree in the places
that are read.
-/

namespace TftpServer

namespace Address

/-- The octet of an address at a place; there are zeros behind its end. -/
def octetAt (address : Address) (place : Nat) : UInt8 :=
  address.toList.getD place 0

theorem getElem_eq_octetAt (address : Address) {place : Nat} (hplace : place < 16) :
    address[place] = address.octetAt place := by
  simp [octetAt, hplace]

/-- An address is what its octets are. -/
theorem ext_octetAt {first second : Address}
    (hoctets : ∀ place < 16, first.octetAt place = second.octetAt place) : first = second := by
  apply Vector.ext
  intro place hplace
  rw [getElem_eq_octetAt, getElem_eq_octetAt, hoctets place hplace]

theorem getD_take (address : Address) {count place : Nat} (hplace : place < count) :
    (address.toList.take count).getD place 0 = address.octetAt place := by
  rw [octetAt, List.getD_eq_getElem?_getD, List.getD_eq_getElem?_getD,
    List.getElem?_take_of_lt hplace]

theorem octetAt_ofFn (octets : Fin 16 → UInt8) {place : Nat} (hplace : place < 16) :
    octetAt (Vector.ofFn octets) place = octets ⟨place, hplace⟩ := by
  rw [← getElem_eq_octetAt _ hplace, Vector.getElem_ofFn]

theorem octetAt_ofOctets (octets : Octets) {place : Nat} (hplace : place < 16) :
    (ofOctets octets).octetAt place = octets.getD place 0 :=
  octetAt_ofFn _ hplace

end Address

namespace Endpoint

/-- An IPv4 endpoint in canonical form holds nothing behind its four octets, and no scope. -/
def IsCanonical (endpoint : Endpoint) : Prop :=
  endpoint.family = .ipv4 →
    (∀ place, 4 ≤ place → place < 16 → endpoint.address.octetAt place = 0) ∧ endpoint.scope = 0

/-- The canonical form of an endpoint. -/
def canonical (endpoint : Endpoint) : Endpoint :=
  match endpoint.family with
  | .ipv4 =>
    { endpoint with
      address := Vector.ofFn fun i => if i.val < 4 then endpoint.address.octetAt i.val else 0
      scope := 0 }
  | .ipv6 => endpoint

theorem IsCanonical.canonical_eq {endpoint : Endpoint} (hcanonical : endpoint.IsCanonical) :
    endpoint.canonical = endpoint := by
  obtain ⟨family, address, port, scope⟩ := endpoint
  cases family with
  | ipv6 => rfl
  | ipv4 =>
      obtain ⟨hbehind, hscope⟩ := hcanonical rfl
      simp only [canonical, mk.injEq, true_and]
      refine ⟨Address.ext_octetAt fun place hplace => ?_, hscope.symm⟩
      rw [Address.octetAt_ofFn _ hplace]
      split
      next => rfl
      next hfar => exact (hbehind place (Nat.le_of_not_lt hfar) hplace).symm

end Endpoint

namespace SocketAddress

/-! ## The layout -/

/-- What the octets of a socket address say about a peer. -/
def Tells (address : SocketAddress) (endpoint : Endpoint) : Prop :=
  endpoint.port = word (address.octetAt 2) (address.octetAt 3) ∧
    match endpoint.family with
    | .ipv4 =>
      address.familyNumber = familyIpv4 ∧ endpoint.scope = 0 ∧
        ∀ place < 16, endpoint.address.octetAt place =
          if place < 4 then address.octetAt (4 + place) else 0
    | .ipv6 =>
      address.familyNumber = familyIpv6 ∧ endpoint.scope = address.scope ∧
        ∀ place < 16, endpoint.address.octetAt place = address.octetAt (8 + place)

theorem getD_octets (address : SocketAddress) (place : Nat) :
    ((List.range 4).map fun i => address.octetAt (4 + i)).getD place 0 =
      if place < 4 then address.octetAt (4 + place) else 0 := by
  rw [List.getD_eq_getElem?_getD, List.getElem?_map]
  split
  next hnear => rw [List.getElem?_range hnear, Option.map_some, Option.getD_some]
  next hfar =>
    rw [List.getElem?_eq_none (by rw [List.length_range]; omega), Option.map_none, Option.getD_none]

/-- An endpoint is read if it is what the octets say, and then no other one is. -/
theorem toEndpoint?_eq_some_iff {address : SocketAddress} {endpoint : Endpoint} :
    address.toEndpoint? = some endpoint ↔ address.Tells endpoint := by
  constructor
  · intro hread
    unfold toEndpoint? at hread
    split at hread
    next hfamily =>
      obtain rfl := Option.some.inj hread
      refine ⟨rfl, hfamily, rfl, fun place hplace => ?_⟩
      rw [Address.octetAt_ofOctets _ hplace, getD_octets]
    next =>
      split at hread
      next hfamily =>
        obtain rfl := Option.some.inj hread
        exact ⟨rfl, hfamily, rfl, fun place hplace => Address.octetAt_ofFn _ hplace⟩
      next => cases hread
  · obtain ⟨family, octets, port, scope⟩ := endpoint
    rintro ⟨rfl, htells⟩
    cases family with
    | ipv4 =>
        obtain ⟨hfamily, rfl, hoctets⟩ := htells
        have haddress : Address.ofOctets ((List.range 4).map fun i => address.octetAt (4 + i)) =
            octets := by
          apply Address.ext_octetAt
          intro place hplace
          rw [Address.octetAt_ofOctets _ hplace, getD_octets]
          exact (hoctets place hplace).symm
        rw [toEndpoint?, if_pos hfamily, haddress]
        rfl
    | ipv6 =>
        obtain ⟨hfamily, rfl, hoctets⟩ := htells
        have haddress : Vector.ofFn (fun i : Fin 16 => address.octetAt (8 + i.val)) = octets := by
          apply Address.ext_octetAt
          intro place hplace
          rw [Address.octetAt_ofFn _ hplace]
          exact (hoctets place hplace).symm
        rw [toEndpoint?, if_neg (by rw [hfamily]; decide), if_pos hfamily, haddress]
        rfl

theorem isSome_toEndpoint? (address : SocketAddress) :
    address.toEndpoint?.isSome = true ↔
      address.familyNumber = familyIpv4 ∨ address.familyNumber = familyIpv6 := by
  unfold toEndpoint?
  split
  next hfamily => simp [hfamily]
  next hother =>
    split
    next hfamily => simp [hfamily]
    next hneither => simp [hother, hneither]

theorem Tells.isCanonical {address : SocketAddress} {endpoint : Endpoint}
    (htells : address.Tells endpoint) : endpoint.IsCanonical := by
  intro hfamily
  have hipv4 := htells.2
  rw [hfamily] at hipv4
  obtain ⟨_, hscope, hoctets⟩ := hipv4
  refine ⟨fun place hbehind hplace => ?_, hscope⟩
  rw [hoctets place hplace, if_neg (Nat.not_lt_of_le hbehind)]

/-! ## Writing -/

theorem octetAt_append {before behind : Octets} {start : Nat} (hstart : before.length = start)
    (place : Nat) : octetAt (before ++ behind) (start + place) = behind.getD place 0 := by
  rw [← hstart, octetAt, List.getD_append_right _ _ _ _ (Nat.le_add_right _ _),
    Nat.add_sub_cancel_left]

theorem word_ofEndpoint (endpoint : Endpoint) :
    word ((ofEndpoint endpoint).octetAt 2) ((ofEndpoint endpoint).octetAt 3) = endpoint.port := by
  rw [← word_wordOctets endpoint.port]
  unfold ofEndpoint
  cases endpoint.family <;> rfl

section Layout

variable {endpoint : Endpoint} {place : Nat}

theorem octetAt_ofEndpoint_ipv4 (hfamily : endpoint.family = .ipv4) (hplace : place < 4) :
    (ofEndpoint endpoint).octetAt (4 + place) = endpoint.address.octetAt place := by
  have hwithin : place < (endpoint.address.toList.take 4).length := by
    rw [List.length_take, Vector.length_toList]
    omega
  simp only [ofEndpoint, hfamily]
  rw [List.append_assoc _ (endpoint.address.toList.take 4), octetAt_append (by simp),
    List.getD_append _ _ _ _ hwithin, Address.getD_take _ hplace]

theorem octetAt_ofEndpoint_ipv6 (hfamily : endpoint.family = .ipv6) (hplace : place < 16) :
    (ofEndpoint endpoint).octetAt (8 + place) = endpoint.address.octetAt place := by
  have hwithin : place < endpoint.address.toList.length := by
    rw [Vector.length_toList]
    exact hplace
  simp only [ofEndpoint, hfamily]
  rw [List.append_assoc _ endpoint.address.toList, octetAt_append (by simp),
    List.getD_append _ _ _ _ hwithin, Address.octetAt]

theorem scope_ofEndpoint (hfamily : endpoint.family = .ipv6) :
    (ofEndpoint endpoint).scope = endpoint.scope := by
  have hbehind (place : Nat) : (ofEndpoint endpoint).octetAt (24 + place) =
      [UInt8.ofNat (endpoint.scope.toNat % 256), UInt8.ofNat (endpoint.scope.toNat / 256 % 256),
        UInt8.ofNat (endpoint.scope.toNat / 65536 % 256),
        UInt8.ofNat (endpoint.scope.toNat / 16777216)].getD place 0 := by
    simp only [ofEndpoint, hfamily]
    rw [octetAt_append (by simp)]
  have hvalue := endpoint.scope.toNat_lt
  apply UInt32.toNat_inj.mp
  rw [scope, hbehind 0, hbehind 1, hbehind 2, hbehind 3, UInt32.toNat_ofNat']
  simp only [List.getD_cons_zero, List.getD_cons_succ, UInt8.toNat_ofNat']
  omega

end Layout

/-- A socket address says of the endpoint that it was made from what is canonical. -/
theorem tells_canonical (endpoint : Endpoint) : (ofEndpoint endpoint).Tells endpoint.canonical := by
  refine ⟨?_, ?_⟩
  · rw [word_ofEndpoint, Endpoint.canonical]
    cases endpoint.family <;> rfl
  · obtain ⟨family, address, port, scope⟩ := endpoint
    cases family with
    | ipv4 =>
        refine ⟨rfl, rfl, fun place hplace => ?_⟩
        rw [Endpoint.canonical, Address.octetAt_ofFn _ hplace]
        split
        next hnear => exact (octetAt_ofEndpoint_ipv4 rfl hnear).symm
        next => rfl
    | ipv6 =>
        exact ⟨rfl, (scope_ofEndpoint rfl).symm,
          fun place hplace => (octetAt_ofEndpoint_ipv6 rfl hplace).symm⟩

theorem toEndpoint?_ofEndpoint (endpoint : Endpoint) :
    (ofEndpoint endpoint).toEndpoint? = some endpoint.canonical :=
  toEndpoint?_eq_some_iff.mpr (tells_canonical endpoint)

/-! ## Agreement -/

/-- Agreement of two socket addresses in a run of octets. -/
def AgreeFrom (first second : SocketAddress) (start count : Nat) : Prop :=
  ∀ place < count, first.octetAt (start + place) = second.octetAt (start + place)

instance (first second : SocketAddress) (start count : Nat) :
    Decidable (first.AgreeFrom second start count) :=
  inferInstanceAs (Decidable (∀ place < count, _))

/-- Agreement in everything that tells peers apart: family, port, address, and the scope of
an IPv6 address. -/
structure Alike (first second : SocketAddress) : Prop where
  family : first.AgreeFrom second 0 2
  port : first.AgreeFrom second 2 2
  address_ipv4 : first.familyNumber = familyIpv4 → first.AgreeFrom second 4 4
  address_ipv6 : first.familyNumber = familyIpv6 → first.AgreeFrom second 8 16
  scope_ipv6 : first.familyNumber = familyIpv6 → first.AgreeFrom second 24 4

theorem toNat_add_mul_inj {low otherLow : UInt8} {rest otherRest : Nat} :
    low.toNat + 256 * rest = otherLow.toNat + 256 * otherRest ↔
      low = otherLow ∧ rest = otherRest := by
  have hlow := low.toNat_lt
  have hotherLow := otherLow.toNat_lt
  rw [← UInt8.toNat_inj]
  omega

/-- The scope, octet behind octet. -/
theorem toNat_scope (address : SocketAddress) :
    address.scope.toNat = (address.octetAt 24).toNat + 256 * ((address.octetAt 25).toNat +
      256 * ((address.octetAt 26).toNat + 256 * (address.octetAt 27).toNat)) := by
  have hbound (place : Nat) := (address.octetAt place).toNat_lt
  have hfirst := hbound 24
  have hsecond := hbound 25
  have hthird := hbound 26
  have hfourth := hbound 27
  rw [scope, UInt32.toNat_ofNat']
  omega

section Agreement

variable {first second : SocketAddress} {endpoint : Endpoint}

theorem agreeFrom_succ {start count : Nat} :
    first.AgreeFrom second start (count + 1) ↔ first.AgreeFrom second start count ∧
      first.octetAt (start + count) = second.octetAt (start + count) :=
  Nat.forall_lt_succ_right

theorem agreeFrom_two {start : Nat} :
    first.AgreeFrom second start 2 ↔ first.octetAt start = second.octetAt start ∧
      first.octetAt (start + 1) = second.octetAt (start + 1) := by
  have hnone : first.AgreeFrom second start 0 := fun place hplace => absurd hplace (by omega)
  rw [agreeFrom_succ, agreeFrom_succ, and_iff_right hnone, Nat.add_zero]

theorem familyNumber_eq_iff :
    first.familyNumber = second.familyNumber ↔ first.AgreeFrom second 0 2 := by
  rw [familyNumber, familyNumber, toNat_add_mul_inj, UInt8.toNat_inj, agreeFrom_two]

theorem word_eq_iff :
    word (first.octetAt 2) (first.octetAt 3) = word (second.octetAt 2) (second.octetAt 3) ↔
      first.AgreeFrom second 2 2 := by
  rw [word_inj, agreeFrom_two]

theorem scope_eq_iff : first.scope = second.scope ↔ first.AgreeFrom second 24 4 := by
  rw [← UInt32.toNat_inj, toNat_scope, toNat_scope, toNat_add_mul_inj, toNat_add_mul_inj,
    toNat_add_mul_inj, UInt8.toNat_inj, agreeFrom_succ, agreeFrom_succ, agreeFrom_two, and_assoc,
    and_assoc]

/-- Where two socket addresses agree, they tell the same. -/
theorem Tells.of_alike (htells : first.Tells endpoint) (halike : first.Alike second) :
    second.Tells endpoint := by
  have hnumber := familyNumber_eq_iff.mpr halike.family
  obtain ⟨family, address, port, scope⟩ := endpoint
  refine ⟨htells.1.trans (word_eq_iff.mpr halike.port), ?_⟩
  cases family with
  | ipv4 =>
      obtain ⟨_, hfamily, hscope, haddress⟩ := htells
      refine ⟨hnumber ▸ hfamily, hscope, fun place hplace => ?_⟩
      rw [haddress place hplace]
      split
      next hnear => exact halike.address_ipv4 hfamily place hnear
      next => rfl
  | ipv6 =>
      obtain ⟨_, hfamily, hscope, haddress⟩ := htells
      refine ⟨hnumber ▸ hfamily, hscope.trans (scope_eq_iff.mpr (halike.scope_ipv6 hfamily)),
        fun place hplace => ?_⟩
      rw [haddress place hplace, halike.address_ipv6 hfamily place hplace]

/-- Where two socket addresses tell the same, they agree. -/
theorem Tells.alike (hfirst : first.Tells endpoint) (hsecond : second.Tells endpoint) :
    first.Alike second := by
  have hport := word_eq_iff.mp (hfirst.1.symm.trans hsecond.1)
  obtain ⟨family, address, port, scope⟩ := endpoint
  cases family with
  | ipv4 =>
      obtain ⟨_, hfamily, _, haddress⟩ := hfirst
      obtain ⟨_, hotherFamily, _, hotherAddress⟩ := hsecond
      have hother : ¬ first.familyNumber = familyIpv6 := by
        rw [hfamily]
        decide
      refine ⟨familyNumber_eq_iff.mp (hfamily.trans hotherFamily.symm), hport,
        fun _ place hplace => ?_, fun hipv6 => absurd hipv6 hother,
        fun hipv6 => absurd hipv6 hother⟩
      have hwithin : place < 16 := by omega
      have hoctet := (haddress place hwithin).symm.trans (hotherAddress place hwithin)
      rwa [if_pos hplace, if_pos hplace] at hoctet
  | ipv6 =>
      obtain ⟨_, hfamily, hscope, haddress⟩ := hfirst
      obtain ⟨_, hotherFamily, hotherScope, hotherAddress⟩ := hsecond
      have hother : ¬ first.familyNumber = familyIpv4 := by
        rw [hfamily]
        decide
      exact ⟨familyNumber_eq_iff.mp (hfamily.trans hotherFamily.symm), hport,
        fun hipv4 => absurd hipv4 hother,
        fun _ place hplace => (haddress place hplace).symm.trans (hotherAddress place hplace),
        fun _ => scope_eq_iff.mp (hscope.symm.trans hotherScope)⟩

theorem exists_toEndpoint?_iff :
    (∃ endpoint, first.toEndpoint? = some endpoint ∧ second.toEndpoint? = some endpoint) ↔
      (first.familyNumber = familyIpv4 ∨ first.familyNumber = familyIpv6) ∧
        first.Alike second := by
  rw [← isSome_toEndpoint?, Option.isSome_iff_exists]
  constructor
  · rintro ⟨endpoint, hfirst, hsecond⟩
    exact ⟨⟨endpoint, hfirst⟩,
      (toEndpoint?_eq_some_iff.mp hfirst).alike (toEndpoint?_eq_some_iff.mp hsecond)⟩
  · rintro ⟨⟨endpoint, hfirst⟩, halike⟩
    exact ⟨endpoint, hfirst,
      toEndpoint?_eq_some_iff.mpr ((toEndpoint?_eq_some_iff.mp hfirst).of_alike halike)⟩

end Agreement

/-- An endpoint in canonical form survives its socket address, and any IPv4 endpoint
survives it in canonical form. Whatever the octets of a socket address are, the endpoint
that it denotes is in canonical form, and it denotes one exactly for the two families. Two
socket addresses denote one endpoint exactly if they agree in family, port, address, and
the scope of an IPv6 address; no other octet has a say. -/
theorem denotation_exact :
    (∀ endpoint : Endpoint, endpoint.IsCanonical →
        (ofEndpoint endpoint).toEndpoint? = some endpoint) ∧
      (∀ endpoint : Endpoint, endpoint.family = .ipv4 →
        (ofEndpoint endpoint).toEndpoint? = some
          { endpoint with
            address := Vector.ofFn fun i => if i.val < 4 then endpoint.address.octetAt i.val else 0
            scope := 0 }) ∧
      (∀ (address : SocketAddress) (endpoint : Endpoint),
        address.toEndpoint? = some endpoint → endpoint.IsCanonical) ∧
      (∀ address : SocketAddress, address.toEndpoint?.isSome = true ↔
        address.familyNumber = familyIpv4 ∨ address.familyNumber = familyIpv6) ∧
      ∀ first second : SocketAddress,
        (∃ endpoint, first.toEndpoint? = some endpoint ∧ second.toEndpoint? = some endpoint) ↔
          (first.familyNumber = familyIpv4 ∨ first.familyNumber = familyIpv6) ∧
            first.Alike second := by
  refine ⟨fun endpoint hcanonical => ?_, fun endpoint hfamily => ?_,
    fun address endpoint hread => (toEndpoint?_eq_some_iff.mp hread).isCanonical,
    isSome_toEndpoint?, fun first second => exists_toEndpoint?_iff⟩
  · rw [toEndpoint?_ofEndpoint, hcanonical.canonical_eq]
  · rw [toEndpoint?_ofEndpoint, Endpoint.canonical, hfamily]

/-- A link-local peer, with and without a flow label in its socket address. -/
theorem denotation_exact_beside_flow_label :
    let peer : Endpoint := .ipv6 (.ofOctets [0xfe, 0x80, 0, 0, 0, 0, 0, 1]) 50001 2
    let labelled : SocketAddress := (ofEndpoint peer).set 4 7
    peer.IsCanonical ∧ (ofEndpoint peer).toEndpoint? = some peer ∧
      ofEndpoint peer ≠ labelled ∧ (ofEndpoint peer).Alike labelled ∧
      ∃ endpoint, (ofEndpoint peer).toEndpoint? = some endpoint ∧
        labelled.toEndpoint? = some endpoint := by
  intro peer labelled
  obtain ⟨hback, _, _, _, hsame⟩ := denotation_exact
  have hcanonical : peer.IsCanonical := fun hfamily => nomatch hfamily
  have halike : (ofEndpoint peer).Alike labelled :=
    ⟨by decide, by decide, fun hipv4 => absurd hipv4 (by decide), fun _ => by decide,
      fun _ => by decide⟩
  exact ⟨hcanonical, hback peer hcanonical, by decide, halike,
    (hsame _ _).mpr ⟨Or.inr (by decide), halike⟩⟩

end SocketAddress

end TftpServer
