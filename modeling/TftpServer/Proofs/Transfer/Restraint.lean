import Mathlib.Algebra.Order.BigOperators.Group.List
import Mathlib.Algebra.Order.Ring.Nat
import TftpServer.Proofs.Negotiation.Announcement
import TftpServer.Proofs.Packet.Readback
import TftpServer.Proofs.Transfer.Live

/-! # Restraint in what is said

An event gets one datagram out of a transfer at most, and that is one a receiver
understands: the options, an ERROR, or a block that is no longer than was agreed.
What is in flight is of this kind too, so repeating it adds nothing new.
-/

namespace TftpServer

variable {ω σ : Type}

/-- What may be said to a peer: options, errors, and blocks that fit its transfer,
if it has one. -/
inductive Sayable (transfer? : Option (Transfer σ)) : Message → Prop where
  | oack (options : List OptionField) : Sayable transfer? (.oack options)
  | error (code : ErrorCode) (text : Octets) : Sayable transfer? (.error code text)
  | data (transfer : Transfer σ) (block : UInt16) (octets : Octets)
      (hsome : transfer? = some transfer)
      (hlength : octets.length ≤ transfer.settings.blockSize.toNat) :
      Sayable transfer? (.data block octets)

/-- A datagram of some length that a receiver can make out and that may be said to
a peer with this transfer, or with none. -/
structure ProperDatagram (transfer? : Option (Transfer σ)) (datagram : Octets) : Prop where
  nonempty : datagram ≠ []
  length_le : datagram.length ≤ 65468
  decoded : ∃ message, decode datagram = .ok message ∧ Sayable transfer? message

namespace ProperDatagram

theorem of_error (transfer? : Option (Transfer σ)) {code : ErrorCode} {text datagram : Octets}
    (htext : Tellable text) (hencode : encode (.error code text) = .ok datagram) :
    ProperDatagram transfer? datagram := by
  have hlength := length_of_encode_error hencode
  have hmax : text.length + 5 ≤ 65468 := htext.length_le
  refine ⟨fun hnil => ?_, by omega, _, decode_of_encode_error hencode, .error code text⟩
  rw [hnil, List.length_nil] at hlength
  omega

theorem of_block {transfer : Transfer σ} (hsize : transfer.settings.blockSize ≤ maxBlockSize)
    (block : UInt16) {octets : Octets}
    (hlength : octets.length ≤ transfer.settings.blockSize.toNat) :
    ProperDatagram (some transfer) (dataDatagram block octets) := by
  have hmax : transfer.settings.blockSize.toNat ≤ 65464 := UInt64.le_iff_toNat_le.mp hsize
  refine ⟨dataDatagram_ne_nil block octets, ?_, _, decode_dataDatagram block octets,
    .data transfer block octets rfl hlength⟩
  simp only [dataDatagram, wordOctets, List.length_append, List.length_cons, List.length_nil]
  omega

theorem of_options (transfer? : Option (Transfer σ)) (limits : Limits) (length : Option UInt64)
    (requested : List OptionField) {datagram : Octets}
    (hencode : encode (.oack (negotiate limits length requested).entries) = .ok datagram) :
    ProperDatagram transfer? datagram := by
  have hdecode := decode_of_encode_oack hencode
  have hcount := length_negotiate_entries_le limits length requested
  have hfield : ∀ field ∈ (negotiate limits length requested).entries,
      (field.name ++ [0] ++ (field.value ++ [0])).length ≤ 29 := by
    intro field hmem
    have hbounds := length_of_mem_negotiate_entries limits length requested hmem
    simp only [List.length_append, List.length_cons, List.length_nil]
    omega
  rw [encode_oack (nul_notMem_of_encode_oack hencode)] at hencode
  cases hencode
  refine ⟨by simp [wordOctets], ?_, _, hdecode, .oack _⟩
  have hfields : ((negotiate limits length requested).entries.flatMap fun field =>
      field.name ++ [0] ++ (field.value ++ [0])).length ≤ 3 * 29 := by
    rw [List.length_flatMap]
    refine (List.sum_le_card_nsmul _ 29 fun size hsize => ?_).trans ?_
    · obtain ⟨field, hmem, rfl⟩ := List.mem_map.mp hsize
      exact hfield field hmem
    · rw [List.length_map]
      exact Nat.mul_le_mul_right 29 hcount
  rw [List.length_append]
  exact (Nat.add_le_add_left hfields 2).trans (by decide)

/-- Of a transfer, only the block size matters. -/
theorem congr {transfer other : Transfer σ} {datagram : Octets}
    (hproper : ProperDatagram (some transfer) datagram)
    (hsettings : other.settings = transfer.settings) :
    ProperDatagram (some other) datagram := by
  obtain ⟨hnonempty, hlength, message, hdecode, hsayable⟩ := hproper
  refine ⟨hnonempty, hlength, message, hdecode, ?_⟩
  cases hsayable with
  | oack options => exact .oack options
  | error code text => exact .error code text
  | data transfer block octets hsome hfits =>
      cases hsome
      exact .data other block octets rfl (hsettings ▸ hfits)

end ProperDatagram

/-- A transfer, unless it is over. -/
def Transfer.remaining (transfer : Transfer σ) : Option (Transfer σ) :=
  if transfer.isTerminal then none else some transfer

theorem Transfer.remaining_of_open {transfer : Transfer σ} (hopen : transfer.isTerminal = false) :
    transfer.remaining = some transfer :=
  if_neg (Bool.eq_false_iff.mp hopen)

/-- What is in flight may be said, and so it may be repeated. -/
def Transfer.Repeatable (transfer : Transfer σ) : Prop :=
  ProperDatagram (some transfer) transfer.inFlight

/-- A step that says one thing at most, and that properly, and leaves nothing else
in flight. -/
structure Step.Restrained (step : Step ω σ) : Prop where
  one : step.sent.length ≤ 1
  proper : ∀ datagram ∈ step.sent, ProperDatagram step.transfer.remaining datagram
  repeatable : step.transfer.isTerminal = false → step.transfer.Repeatable

namespace Transfer

theorem fail_none_restrained (transfer : Transfer σ) (world : ω) (detail : Octets) :
    (transfer.fail world detail none).Restrained where
  one := Nat.zero_le 1
  proper _ hmem := nomatch hmem
  repeatable hopen := nomatch hopen

theorem fail_error_restrained (transfer : Transfer σ) (world : ω) (detail : Octets)
    {code : ErrorCode} {text : Octets} (htext : Tellable text) :
    (transfer.fail world detail (some (.error code text))).Restrained := by
  obtain ⟨datagram, hencode, hfail⟩ := fail_error transfer world detail htext.nul_notMem
  rw [hfail]
  refine ⟨Nat.le_refl 1, fun other hmem => ?_, fun hopen => nomatch hopen⟩
  obtain rfl := List.mem_singleton.mp hmem
  exact .of_error _ htext hencode

theorem sendInFlight_restrained {transfer : Transfer σ} (hopen : transfer.isTerminal = false)
    (hrepeatable : transfer.Repeatable) (world : ω) (now : Time) :
    (sendInFlight transfer world now).Restrained := by
  have hkept : ProperDatagram (some (sendInFlight transfer world now).transfer) transfer.inFlight :=
    hrepeatable.congr rfl
  refine ⟨Nat.le_refl 1, fun datagram hmem => ?_, fun _ => hkept⟩
  have hremaining : (sendInFlight transfer world now).transfer.remaining =
      some (sendInFlight transfer world now).transfer :=
    remaining_of_open hopen
  obtain rfl := List.mem_singleton.mp hmem
  rw [hremaining]
  exact hkept

section Reading

variable {reading : Reading ω σ} (hreading : reading.Explains Tellable)

include hreading

theorem sendData_restrained {transfer : Transfer σ} (world : ω) (now : Time)
    (hsource : ∃ source, transfer.source = some source)
    (hsize : transfer.settings.blockSize ≤ maxBlockSize) :
    (transfer.sendData reading world now).Restrained := by
  obtain ⟨source, hsource⟩ := hsource
  have hfetch := sendData_fetch reading world now hsource hsize
  generalize transfer.sendData reading world now = step at hfetch
  cases hfetch with
  | failed reply next after failure hread herror =>
      have hexplained := hreading source (transfer.position.offset transfer.settings.blockSize)
        transfer.settings.blockSize world
      rw [hread] at hexplained
      have hdetail : Tellable reply.detail := hexplained (by simp [herror])
      apply fail_error_restrained
      split
      · exact failure.errorCode.tellable_text
      · exact hdetail
  | oversized reply next after hread herror hlength =>
      exact fail_error_restrained _ _ _ (by decide +kernel)
  | sent reply next after hread herror hlength hmax =>
      apply sendInFlight_restrained rfl
      exact (ProperDatagram.of_block hsize _ hlength).congr rfl

theorem handle_restrained {transfer : Transfer σ} (hlive : transfer.Live)
    (hrepeatable : transfer.Repeatable) (world : ω) (event : Event) :
    (transfer.handle reading world event).Restrained := by
  have hopen := hlive.isTerminal_eq_false
  have hreaction := handle_reaction reading world event hopen
  generalize transfer.handle reading world event = step at hreaction
  cases hreaction with
  | ignored | mismatched =>
      exact ⟨Nat.zero_le 1, fun _ hmem => (nomatch hmem), fun _ => hrepeatable⟩
  | abandoned | exhausted => exact fail_none_restrained _ _ _
  | rejected => exact fail_error_restrained _ _ _ (ErrorCode.tellable_text .illegalOperation)
  | repeated now _ _ =>
      apply sendInFlight_restrained
      · exact hopen
      · exact hrepeatable.congr rfl
  | confirmed now _ => exact sendData_restrained hreading world now hlive.source hlive.blockSize
  | advanced now _ _ => exact sendData_restrained hreading world now hlive.source hlive.blockSize
  | finished now _ _ =>
      exact ⟨Nat.zero_le 1, fun _ hmem => (nomatch hmem), fun hopen => nomatch hopen⟩

theorem start_restrained (config : EngineConfig) (peer : Endpoint) (source : σ)
    (length : Option UInt64) (requested : List OptionField) (world : ω) (now : Time) :
    ((ofRequest config peer source length requested).start reading world now).Restrained := by
  rcases start_ofRequest config peer source length requested reading world now with
    ⟨_, hstart⟩ | ⟨body, hencode, hstart⟩
  · rw [hstart]
    apply sendData_restrained hreading world now ⟨source, rfl⟩
    exact (ofRequest_blockSize_bounds config peer source length requested).2
  · rw [hstart]
    apply sendInFlight_restrained rfl
    exact .of_options _ config.limits length requested hencode

end Reading

end Transfer

end TftpServer
