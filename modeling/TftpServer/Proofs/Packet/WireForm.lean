import TftpServer.Packet.Decode
import TftpServer.Packet.Encode

/-! # Wire forms

The messages that a server sends, as octets: what makes each of them encodable,
what it looks like, and what a receiver reads from it. In the other direction, a
decoded message always carries the payload that its opcode announces.
-/

namespace TftpServer

/-- The octets of a 16-bit number, in wire order. -/
def wordOctets (value : UInt16) : Octets :=
  [UInt8.ofNat (value.toNat / 256), UInt8.ofNat (value.toNat % 256)]

theorem word_wordOctets (value : UInt16) :
    word (UInt8.ofNat (value.toNat / 256)) (UInt8.ofNat (value.toNat % 256)) = value := by
  have hvalue := value.toNat_lt
  apply UInt16.toNat_inj.mp
  rw [word, UInt16.toNat_ofNat', UInt8.toNat_ofNat', UInt8.toNat_ofNat']
  omega

@[simp] theorem readU16_wordOctets (value : UInt16) (rest : Octets) :
    readU16 (wordOctets value ++ rest) = some (value, rest) := by
  simp only [wordOctets, List.cons_append, List.nil_append, readU16, word_wordOctets]

theorem decode_of_readU16 {datagram body : Octets} {code : UInt16}
    (hread : readU16 datagram = some (code, body)) :
    decode datagram =
      (decodeBody (Opcode.ofCode code) body).map (Message.mk (Opcode.ofCode code)) := by
  simp only [decode, Reader.require, hread, bind, Except.bind]
  cases decodeBody (Opcode.ofCode code) body <;> rfl

theorem decode_wordOctets (code : UInt16) (body : Octets) :
    decode (wordOctets code ++ body) =
      (decodeBody (Opcode.ofCode code) body).map (Message.mk (Opcode.ofCode code)) :=
  decode_of_readU16 (readU16_wordOctets code body)

theorem exists_body_of_decode {datagram : Octets} {message : Message}
    (hdecode : decode datagram = .ok message) :
    ∃ body, decodeBody message.opcode body = .ok message.payload := by
  cases hread : readU16 datagram with
  | none =>
      simp only [decode, Reader.require, hread, bind, Except.bind] at hdecode
      cases hdecode
  | some found =>
      rw [decode_of_readU16 hread] at hdecode
      cases hbody : decodeBody (Opcode.ofCode found.1) found.2 with
      | error defect =>
          rw [hbody] at hdecode
          cases hdecode
      | ok payload =>
          rw [hbody] at hdecode
          cases hdecode
          exact ⟨found.2, hbody⟩

/-! ## Coherent messages -/

/-- The payload is of the kind that the opcode announces. -/
inductive Message.Coherent : Message → Prop where
  | rrq (request : Request) : Coherent ⟨.rrq, .request request⟩
  | wrq (request : Request) : Coherent ⟨.wrq, .request request⟩
  | data (block : UInt16) (octets : Octets) : Coherent ⟨.data, .data block octets⟩
  | ack (block : UInt16) : Coherent ⟨.ack, .ack block⟩
  | error (code : ErrorCode) (text : Octets) : Coherent ⟨.error, .error code text⟩
  | oack (options : List OptionField) : Coherent ⟨.oack, .oack options⟩

theorem coherent_of_decodeBody {opcode : Opcode} {body : Octets} {payload : Payload}
    (hbody : decodeBody opcode body = .ok payload) : Message.Coherent ⟨opcode, payload⟩ := by
  cases opcode with
  | none => cases hbody
  | rrq | wrq =>
      simp only [decodeBody, Functor.map, Except.map] at hbody
      split at hbody
      · cases hbody
      · cases hbody
        constructor
  | data | ack =>
      simp only [decodeBody, bind, Except.bind] at hbody
      split at hbody
      · cases hbody
      · cases hbody
        constructor
  | error =>
      simp only [decodeBody, bind, Except.bind] at hbody
      split at hbody
      · cases hbody
      · split at hbody
        · cases hbody
        · cases hbody
          constructor
  | oack =>
      simp only [decodeBody, Functor.map, Except.map] at hbody
      split at hbody
      · cases hbody
      · cases hbody
        constructor

/-- Decoding ties the payload to the opcode. -/
theorem coherent_of_decode {datagram : Octets} {message : Message}
    (hdecode : decode datagram = .ok message) : message.Coherent := by
  obtain ⟨body, hbody⟩ := exists_body_of_decode hdecode
  exact coherent_of_decodeBody hbody

/-! ## DATA -/

def dataDatagram (block : UInt16) (octets : Octets) : Octets :=
  wordOctets Opcode.data.code ++ (wordOctets block ++ octets)

theorem dataDatagram_ne_nil (block : UInt16) (octets : Octets) : dataDatagram block octets ≠ [] := by
  simp [dataDatagram, wordOctets]

theorem encodeData_eq_ok {block : UInt16} {octets : Octets} {blockSize : UInt64}
    (hblock : octets.length ≤ blockSize.toNat) (hmax : octets.length ≤ maxBlockSize.toNat) :
    encodeData block octets blockSize = .ok (dataDatagram block octets) := by
  have hfits : ¬ (blockSize.toNat < octets.length ∨ maxBlockSize.toNat < octets.length) := by
    omega
  rw [encodeData, if_neg hfits]
  rfl

theorem decode_dataDatagram (block : UInt16) (octets : Octets) :
    decode (dataDatagram block octets) = .ok (.data block octets) := by
  rw [dataDatagram, decode_wordOctets, Opcode.ofCode_code]
  simp only [decodeBody, Reader.require, readU16_wordOctets]
  rfl

/-- Whether a receiver takes a datagram for a DATA block. -/
def isData (datagram : Octets) : Bool :=
  match decode datagram with
  | .ok message => message.opcode = .data
  | .error _ => false

@[simp] theorem isData_dataDatagram (block : UInt16) (octets : Octets) :
    isData (dataDatagram block octets) = true := by
  rw [isData, decode_dataDatagram]
  rfl

theorem isData_wordOctets {code : UInt16} (hcode : Opcode.ofCode code ≠ .data) (body : Octets) :
    isData (wordOctets code ++ body) = false := by
  rw [isData, decode_wordOctets]
  cases decodeBody (Opcode.ofCode code) body with
  | error defect => rfl
  | ok payload => simpa [Except.map] using hcode

/-! ## ERROR and OACK -/

namespace Draft

theorem text_of_nul_notMem {value : Octets} (hvalue : 0 ∉ value) :
    text value = write (value ++ [0]) := by
  rw [text, if_neg hvalue]

theorem options_of_nul_notMem {fields : List OptionField}
    (hfields : ∀ field ∈ fields, 0 ∉ field.name ∧ 0 ∉ field.value) :
    options fields = write (fields.flatMap fun field => field.name ++ [0] ++ (field.value ++ [0])) := by
  induction fields with
  | nil => rfl
  | cons field rest ih =>
      have hfield := hfields field List.mem_cons_self
      have hrest := ih fun other hother => hfields other (List.mem_cons_of_mem _ hother)
      rw [options, text_of_nul_notMem hfield.1, text_of_nul_notMem hfield.2, hrest]
      rfl

end Draft

/-- A text that an ERROR can carry: one without a NUL, and short enough for the
largest datagram. -/
structure Tellable (text : Octets) : Prop where
  nul_notMem : 0 ∉ text
  length_le : text.length + 5 ≤ maxDatagramSize

instance (text : Octets) : Decidable (Tellable text) :=
  decidable_of_iff (0 ∉ text ∧ text.length + 5 ≤ maxDatagramSize)
    ⟨fun ⟨hnul, hlength⟩ => ⟨hnul, hlength⟩, fun ⟨hnul, hlength⟩ => ⟨hnul, hlength⟩⟩

theorem ErrorCode.tellable_text (code : ErrorCode) : Tellable code.text := by
  unfold ErrorCode.text
  split <;> decide

/-- An ERROR has a wire form as soon as its text can be terminated. -/
theorem encode_error {code : ErrorCode} {text : Octets} (htext : 0 ∉ text) :
    encode (.error code text) =
      .ok (wordOctets Opcode.error.code ++ (wordOctets code.value ++ (text ++ [0]))) := by
  simp only [encode, Message.error, Draft.text_of_nul_notMem htext]
  rfl

theorem encode_error_of_nul_mem {code : ErrorCode} {text : Octets} (htext : 0 ∈ text) :
    encode (.error code text) = .error .nulInText := by
  simp [encode, Message.error, Draft.text, htext, Draft.andThen, Draft.refuse, Draft.u16,
    Draft.write, Draft.toExcept]

/-- Only a text that can be terminated has been sent. -/
theorem nul_notMem_of_encode_error {code : ErrorCode} {text datagram : Octets}
    (hencode : encode (.error code text) = .ok datagram) : 0 ∉ text := by
  intro htext
  rw [encode_error_of_nul_mem htext] at hencode
  cases hencode

theorem length_of_encode_error {code : ErrorCode} {text datagram : Octets}
    (hencode : encode (.error code text) = .ok datagram) : datagram.length = text.length + 5 := by
  rw [encode_error (nul_notMem_of_encode_error hencode)] at hencode
  cases hencode
  simp [wordOctets]

theorem encode_oack {fields : List OptionField}
    (hfields : ∀ field ∈ fields, 0 ∉ field.name ∧ 0 ∉ field.value) :
    encode (.oack fields) = .ok (wordOctets Opcode.oack.code ++
      fields.flatMap fun field => field.name ++ [0] ++ (field.value ++ [0])) := by
  simp only [encode, Message.oack, Draft.options_of_nul_notMem hfields]
  rfl

theorem isData_of_encode_error {code : ErrorCode} {text datagram : Octets}
    (hencode : encode (.error code text) = .ok datagram) : isData datagram = false := by
  rw [encode_error (nul_notMem_of_encode_error hencode)] at hencode
  cases hencode
  exact isData_wordOctets (by decide) _

end TftpServer
