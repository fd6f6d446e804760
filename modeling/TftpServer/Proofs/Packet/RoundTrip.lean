import Mathlib.Tactic.MkIffOfInductiveProp
import TftpServer.Proofs.Packet.Grammar

/-! # Round trip

A message can be sent when its payload is of the kind that the opcode announces,
its texts can be terminated, a request says how to transfer, and a block is not
too long. Every message that can be sent has one wire form, and it is read back
from it as it was.
-/

namespace TftpServer

namespace Payload

/-- The texts of a payload. -/
def texts : Payload → List Octets
  | .request asked => asked.filename :: asked.options.flatMap fun field => [field.name, field.value]
  | .error _ text => [text]
  | .oack options => options.flatMap fun field => [field.name, field.value]
  | .none | .data _ _ | .ack _ => []

/-- The transfer mode, which only requests have. -/
def mode? : Payload → Option Mode
  | .request asked => some asked.mode
  | _ => Option.none

/-- What follows the opcode on the wire. -/
def wireForm : Payload → Octets
  | .none => []
  | .request asked => asked.filename ++ 0 :: (asked.mode.name ++ 0 :: optionOctets asked.options)
  | .data block octets => wordOctets block ++ octets
  | .ack block => wordOctets block
  | .error code text => wordOctets code.value ++ (text ++ [0])
  | .oack options => optionOctets options

end Payload

namespace Message

/-- A message that can be sent. -/
@[mk_iff]
structure Sendable (message : Message) : Prop where
  coherent : message.Coherent
  texts : ∀ text ∈ message.payload.texts, 0 ∉ text
  mode : message.payload.mode? ≠ some .absent
  data : ∀ block octets, message.payload = .data block octets → octets.length ≤ 65464

def wireForm (message : Message) : Octets :=
  wordOctets message.opcode.code ++ message.payload.wireForm

end Message

/-! ## Drafts -/

namespace Draft

theorem toExcept_eq_ok_iff {draft : Draft} {octets : Octets} :
    draft.toExcept = .ok octets ↔ draft = write octets := by
  obtain ⟨written, refusal⟩ := draft
  cases refusal <;> simp [toExcept, write]

theorem andThen_eq_write_iff {first second : Draft} {octets : Octets} :
    first.andThen second = write octets ↔
      ∃ before after, first = write before ∧ second = write after ∧ before ++ after = octets := by
  obtain ⟨written, refusal⟩ := first
  obtain ⟨others, reason⟩ := second
  cases refusal with
  | none =>
      simp only [andThen, write, mk.injEq, and_true]
      constructor
      · rintro ⟨rfl, hreason⟩
        exact ⟨written, others, rfl, ⟨rfl, hreason⟩, rfl⟩
      · rintro ⟨_, _, rfl, ⟨rfl, hreason⟩, happend⟩
        exact ⟨happend, hreason⟩
  | some error => simp [andThen, write]

theorem text_eq_write_iff {value octets : Octets} :
    text value = write octets ↔ 0 ∉ value ∧ octets = value ++ [0] := by
  unfold text
  split
  next hnul => simp [hnul, refuse, write]
  next hnul => simp [hnul, write, eq_comm]

theorem options_eq_write_iff {fields : List OptionField} {octets : Octets} :
    options fields = write octets ↔
      (∀ field ∈ fields, 0 ∉ field.name ∧ 0 ∉ field.value) ∧ octets = optionOctets fields := by
  constructor
  · intro hwrite
    have hfields := nul_notMem_of_options (congrArg Draft.refusal hwrite)
    rw [options_of_nul_notMem hfields] at hwrite
    exact ⟨hfields, (congrArg Draft.octets hwrite).symm⟩
  · rintro ⟨hfields, rfl⟩
    exact options_of_nul_notMem hfields

theorem u16_eq_write_iff {value : UInt16} {octets : Octets} :
    u16 value = write octets ↔ octets = wordOctets value :=
  ⟨fun hwrite => (congrArg Draft.octets hwrite).symm, fun heq => heq ▸ rfl⟩

theorem u16_andThen_eq_write_iff {value : UInt16} {draft : Draft} {octets : Octets} :
    (u16 value).andThen draft = write octets ↔
      ∃ rest, draft = write rest ∧ octets = wordOctets value ++ rest := by
  rw [andThen_eq_write_iff]
  constructor
  · rintro ⟨_, rest, hword, hrest, rfl⟩
    cases hword
    exact ⟨rest, hrest, rfl⟩
  · rintro ⟨rest, hrest, rfl⟩
    exact ⟨_, rest, rfl, hrest, rfl⟩

theorem text_andThen_eq_write_iff {value octets : Octets} {draft : Draft} :
    (text value).andThen draft = write octets ↔
      0 ∉ value ∧ ∃ rest, draft = write rest ∧ octets = value ++ 0 :: rest := by
  rw [andThen_eq_write_iff]
  simp only [text_eq_write_iff]
  constructor
  · rintro ⟨_, rest, ⟨hvalue, rfl⟩, hrest, rfl⟩
    exact ⟨hvalue, rest, hrest, by simp⟩
  · rintro ⟨hvalue, rest, hrest, rfl⟩
    exact ⟨_, rest, ⟨hvalue, rfl⟩, hrest, by simp⟩

end Draft

/-! ## Wire forms -/

theorem draftRequest_eq_write_iff {opcode : Opcode} {request : Request} {octets : Octets} :
    draftRequest opcode request = .write octets ↔
      ((∀ text ∈ (Payload.request request).texts, 0 ∉ text) ∧ request.mode ≠ .absent) ∧
        octets = wordOctets opcode.code ++ (Payload.request request).wireForm := by
  have hname : 0 ∉ request.mode.name := by
    cases request.mode <;> decide
  unfold draftRequest
  split
  next habsent => simp [habsent, Draft.refuse, Draft.write]
  next hmode =>
    simp only [Draft.u16_andThen_eq_write_iff, Draft.text_andThen_eq_write_iff,
      Draft.options_eq_write_iff, Payload.texts, List.forall_mem_cons, forall_mem_fieldTexts,
      Payload.wireForm]
    constructor
    · rintro ⟨_, ⟨hfilename, _, ⟨_, _, ⟨hfields, rfl⟩, rfl⟩, rfl⟩, rfl⟩
      exact ⟨⟨⟨hfilename, hfields⟩, hmode⟩, rfl⟩
    · rintro ⟨⟨⟨hfilename, hfields⟩, _⟩, rfl⟩
      exact ⟨_, ⟨hfilename, _, ⟨hname, _, ⟨hfields, rfl⟩, rfl⟩, rfl⟩, rfl⟩

theorem encodeData_eq_ok_iff {block : UInt16} {octets datagram : Octets} :
    encodeData block octets maxBlockSize = .ok datagram ↔
      octets.length ≤ 65464 ∧ datagram = (Message.data block octets).wireForm := by
  have hmax : maxBlockSize.toNat = 65464 := rfl
  by_cases hlength : octets.length ≤ 65464
  · rw [encodeData_eq_ok hlength hlength]
    simp [hlength, dataDatagram, Message.data, Message.wireForm, Payload.wireForm, eq_comm]
  · rw [encodeData, if_pos (Or.inl (by omega))]
    simp [hlength]

theorem coherent_of_encode {message : Message} {datagram : Octets}
    (hencode : encode message = .ok datagram) : message.Coherent := by
  obtain ⟨opcode, payload⟩ := message
  unfold encode at hencode
  split at hencode
  next hopcode hpayload => cases hopcode; cases hpayload; constructor
  next hopcode hpayload => cases hopcode; cases hpayload; constructor
  next hopcode hpayload => cases hopcode; cases hpayload; constructor
  next hopcode hpayload => cases hopcode; cases hpayload; constructor
  next hopcode hpayload => cases hopcode; cases hpayload; constructor
  next hopcode hpayload => cases hopcode; cases hpayload; constructor
  next => cases hencode
  next => cases hencode

/-- A message that is what its opcode announces can be sent exactly if it has a
wire form. -/
theorem Message.Coherent.encode_eq_ok_iff {message : Message} (hcoherent : message.Coherent)
    {datagram : Octets} :
    encode message = .ok datagram ↔ message.Sendable ∧ datagram = message.wireForm := by
  rw [Message.sendable_iff]
  simp only [hcoherent, true_and]
  cases hcoherent with
  | rrq request | wrq request =>
      simp only [encode, Draft.toExcept_eq_ok_iff, draftRequest_eq_write_iff]
      simp [Payload.mode?, Message.wireForm]
  | data block octets =>
      simp only [encode, encodeData_eq_ok_iff]
      simp [Payload.mode?, Message.wireForm, Payload.texts, Message.data]
  | ack block =>
      simp only [encode, Draft.toExcept_eq_ok_iff, Draft.u16_andThen_eq_write_iff,
        Draft.u16_eq_write_iff]
      simp [Payload.mode?, Message.wireForm, Payload.wireForm, Payload.texts]
  | error code text =>
      simp only [encode, Draft.toExcept_eq_ok_iff, Draft.u16_andThen_eq_write_iff,
        Draft.text_eq_write_iff]
      simp [Payload.mode?, Message.wireForm, Payload.wireForm, Payload.texts]
  | oack options =>
      simp only [encode, Draft.toExcept_eq_ok_iff, Draft.u16_andThen_eq_write_iff,
        Draft.options_eq_write_iff, Payload.texts, forall_mem_fieldTexts]
      simp [Payload.mode?, Message.wireForm, Payload.wireForm]

/-- The wire form is spelled from the fields of the message, as long as its mode
has a name. -/
theorem Message.Sendable.spelledBy_wireForm {message : Message} (hsendable : message.Sendable)
    (hmode : message.payload.mode? ≠ some .unlisted) : message.SpelledBy message.wireForm := by
  obtain ⟨hcoherent, htexts, habsent, _⟩ := hsendable
  have hnamed (mode : Mode) (hlisted : mode ≠ .unlisted) (hpresent : mode ≠ .absent) :
      mode.NamedBy mode.name := by
    refine ⟨?_, mode.lowercase_name⟩
    cases mode <;> simp_all
  cases hcoherent with
  | rrq request | wrq request =>
      obtain ⟨hfilename, hfields⟩ := List.forall_mem_cons.mp htexts
      refine .request _ (by simp) request _ hfilename (hnamed _ ?_ ?_)
        (forall_mem_fieldTexts.mp hfields)
      · exact fun heq => hmode (congrArg some heq)
      · exact fun heq => habsent (congrArg some heq)
  | data block octets => exact .data block octets
  | ack block =>
      have hack := SpelledBy.ack block []
      rwa [List.append_nil] at hack
  | error code text => exact .error code text [] (htexts text (List.mem_singleton.mpr rfl))
  | oack options => exact .oack options (forall_mem_fieldTexts.mp htexts)

/-- A message whose mode, if it has one, is a listed one has a wire form exactly
if it can be sent, and reads back from its wire form as it was. -/
theorem encode_iff_sendable_and_decodes {message : Message}
    (hmode : message.payload.mode? ≠ some .unlisted) :
    ((∃ datagram, encode message = .ok datagram) ↔ message.Sendable) ∧
      ∀ datagram, encode message = .ok datagram →
        Decoded.ofDatagram datagram = ⟨.ok, message⟩ := by
  refine ⟨⟨?_, fun hsendable => ?_⟩, fun datagram hencode => ?_⟩
  · rintro ⟨datagram, hencode⟩
    exact ((coherent_of_encode hencode).encode_eq_ok_iff.mp hencode).1
  · exact ⟨_, hsendable.coherent.encode_eq_ok_iff.mpr ⟨hsendable, rfl⟩⟩
  · obtain ⟨hsendable, rfl⟩ := (coherent_of_encode hencode).encode_eq_ok_iff.mp hencode
    rw [Decoded.ofDatagram, decode_eq_ok_iff.mpr (hsendable.spelledBy_wireForm hmode)]

/-- A request with an option that has neither a name nor a value. -/
theorem empty_option_encodes_and_decodes :
    let message : Message := ⟨.rrq, .request ⟨ascii "a", .netascii, [⟨[], []⟩]⟩⟩
    message.payload.mode? ≠ some .unlisted ∧ message.Sendable ∧
      ∃ datagram, encode message = .ok datagram ∧ Decoded.ofDatagram datagram = ⟨.ok, message⟩ := by
  intro message
  have hmode : message.payload.mode? ≠ some .unlisted := by decide
  obtain ⟨hsendable, hback⟩ := encode_iff_sendable_and_decodes hmode
  have hencode : encode message =
      .ok ([0, 1] ++ ascii "a" ++ [0] ++ ascii "netascii" ++ [0, 0, 0]) := by
    decide
  exact ⟨hmode, hsendable.mp ⟨_, hencode⟩, _, hencode, hback _ hencode⟩

end TftpServer
