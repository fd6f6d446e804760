import TftpServer.Proofs.Packet.RoundTrip

/-! # Normal forms

Several datagrams can spell one message, since the case of a mode does not matter and
nor does what follows an acknowledgement or an error text. Encoding gives one of them.
It can be read off any of the others without knowing what they spell: apart from the
mode of a request, it is as much of them as counts.
-/

namespace TftpServer

/-- Where the mode of a request starts, behind the opcode and the file name. -/
def modeStart (datagram : Octets) : Nat :=
  2 + (datagram.drop 2).idxOf 0 + 1

/-- The same request with its mode in lowercase. -/
def lowerMode (datagram : Octets) : Octets :=
  let start := modeStart datagram
  let name := untilNul (datagram.drop start)
  datagram.take start ++ Text.lowercase name ++ datagram.drop (start + name.length)

/-- What becomes of a datagram with an opcode when it is decoded and encoded again. An
acknowledgement is cut off behind its block number, and an error behind the NUL that
ends its text. -/
def normalForm (opcode : Opcode) (datagram : Octets) : Octets :=
  match opcode with
  | .rrq | .wrq => lowerMode datagram
  | .ack => datagram.take 4
  | .error => datagram.take (4 + (datagram.drop 4).idxOf 0 + 1)
  | .data | .oack | .none => datagram

theorem lowerMode_append {filename modeName : Octets} (hfilename : 0 ∉ filename)
    (hmodeName : 0 ∉ modeName) (code : UInt16) (rest : Octets) :
    lowerMode (wordOctets code ++ (filename ++ 0 :: (modeName ++ 0 :: rest))) =
      wordOctets code ++ (filename ++ 0 :: (Text.lowercase modeName ++ 0 :: rest)) := by
  let front := wordOctets code ++ (filename ++ [0])
  have hfront (behind : Octets) :
      wordOctets code ++ (filename ++ 0 :: behind) = front ++ behind := by
    simp [front]
  have hstart : modeStart (wordOctets code ++ (filename ++ 0 :: (modeName ++ 0 :: rest))) =
      front.length := by
    have hbody : (wordOctets code ++ (filename ++ 0 :: (modeName ++ 0 :: rest))).drop 2 =
        filename ++ 0 :: (modeName ++ 0 :: rest) := rfl
    rw [modeStart, hbody, idxOf_append_nul hfilename]
    simp only [front, List.length_append, wordOctets, List.length_cons, List.length_nil]
    omega
  simp only [lowerMode, hstart]
  rw [hfront, hfront, List.take_left, List.drop_left, untilNul_append_nul hmodeName,
    ← List.drop_drop, List.drop_left, List.drop_left, List.append_assoc]

namespace Message.SpelledBy

variable {message : Message} {datagram : Octets} (hspelled : message.SpelledBy datagram)

include hspelled

/-- Every spelling of a message has the wire form of the message as its normal form. -/
theorem normalForm_eq : normalForm message.opcode datagram = message.wireForm := by
  cases hspelled with
  | request opcode hopcode request modeName hfilename hmode hoptions =>
      have hlower := lowerMode_append hfilename hmode.nul_notMem opcode.code
        (optionOctets request.options)
      rw [hmode.name] at hlower
      rcases hopcode with rfl | rfl
      · exact hlower
      · exact hlower
  | data block octets => rfl
  | ack block rest => rfl
  | error code text rest htext =>
      have hbody : (wordOctets Opcode.error.code ++
          (wordOctets code.value ++ (text ++ 0 :: rest))).drop 4 = text ++ 0 :: rest := rfl
      have hcut : wordOctets Opcode.error.code ++ (wordOctets code.value ++ (text ++ 0 :: rest)) =
          (wordOctets Opcode.error.code ++ (wordOctets code.value ++ (text ++ [0]))) ++ rest := by
        simp
      have hlength : 4 + text.length + 1 = (wordOctets Opcode.error.code ++
          (wordOctets code.value ++ (text ++ [0]))).length := by
        simp only [wordOctets, List.length_append, List.length_cons, List.length_nil]
        omega
      simp only [normalForm, hbody, idxOf_append_nul htext]
      rw [hcut, hlength, List.take_left]
      rfl
  | oack options hoptions => rfl

/-- The wire form is a spelling itself. -/
theorem spelledBy_wireForm : message.SpelledBy message.wireForm := by
  cases hspelled with
  | request opcode hopcode request modeName hfilename hmode hoptions =>
      exact .request opcode hopcode request _ hfilename ⟨hmode.listed, request.mode.lowercase_name⟩
        hoptions
  | data block octets => exact .data block octets
  | ack block rest =>
      have hack := SpelledBy.ack block []
      rwa [List.append_nil] at hack
  | error code text rest htext => exact .error code text [] htext
  | oack options hoptions => exact .oack options hoptions

theorem coherent : message.Coherent := by
  cases hspelled with
  | request opcode hopcode request modeName hfilename hmode hoptions =>
      rcases hopcode with rfl | rfl <;> constructor
  | data block octets => constructor
  | ack block rest => constructor
  | error code text rest htext => constructor
  | oack options hoptions => constructor

/-- What is spelled can be sent, except for a block that is too long. -/
theorem sendable (hlength : message.opcode = .data → datagram.length ≤ 65468) :
    message.Sendable := by
  refine ⟨hspelled.coherent, ?_, ?_, ?_⟩
  · cases hspelled with
    | request opcode hopcode request modeName hfilename hmode hoptions =>
        exact List.forall_mem_cons.mpr ⟨hfilename, forall_mem_fieldTexts.mpr hoptions⟩
    | data block octets => exact List.forall_mem_nil _
    | ack block rest => exact List.forall_mem_nil _
    | error code text rest htext => exact fun other hother => List.mem_singleton.mp hother ▸ htext
    | oack options hoptions => exact forall_mem_fieldTexts.mpr hoptions
  · cases hspelled with
    | request opcode hopcode request modeName hfilename hmode hoptions =>
        exact fun habsent => hmode.ne_absent (Option.some.inj habsent)
    | _ => exact fun habsent => nomatch habsent
  · intro block octets hpayload
    cases hspelled with
    | data _ _ =>
        cases hpayload
        have hwhole := hlength rfl
        simp only [wordOctets, List.length_append, List.length_cons, List.length_nil] at hwhole
        omega
    | _ => cases hpayload

theorem encode_eq_oversizedData (hopcode : message.opcode = .data)
    (hlength : 65468 < datagram.length) : encode message = .error .oversizedData := by
  cases hspelled with
  | data block octets =>
      have hmax : maxBlockSize.toNat = 65464 := rfl
      simp only [wordOctets, List.length_append, List.length_cons, List.length_nil] at hlength
      have hover : maxBlockSize.toNat < octets.length := by omega
      exact if_pos (Or.inl hover)
  | request opcode hrequest =>
      rcases hrequest with rfl | rfl <;> cases hopcode
  | _ => cases hopcode

end Message.SpelledBy

theorem Decoded.ofDatagram_eq_ok_iff {datagram : Octets} {message : Message} :
    Decoded.ofDatagram datagram = ⟨.ok, message⟩ ↔ message.SpelledBy datagram := by
  rw [← decode_eq_ok_iff, Decoded.ofDatagram]
  cases decode datagram with
  | ok other => simp
  | error reason => simp

/-- Encoding a message that was read from a datagram gives the normal form of the
datagram, which reads as the same message. Only a block that is too long for any
transfer is not written again. -/
theorem encode_decoded_eq_normalForm {datagram : Octets} {message : Message}
    (hdecoded : Decoded.ofDatagram datagram = ⟨.ok, message⟩) :
    (encode message =
      if message.opcode = .data ∧ 65468 < datagram.length then .error .oversizedData
      else .ok (normalForm message.opcode datagram)) ∧
    Decoded.ofDatagram (normalForm message.opcode datagram) = ⟨.ok, message⟩ := by
  have hspelled := Decoded.ofDatagram_eq_ok_iff.mp hdecoded
  rw [hspelled.normalForm_eq]
  constructor
  · split
    next hover => exact hspelled.encode_eq_oversizedData hover.1 hover.2
    next hfits =>
      have hsendable := hspelled.sendable fun hopcode => Nat.le_of_not_lt fun hover =>
        hfits ⟨hopcode, hover⟩
      exact hspelled.coherent.encode_eq_ok_iff.mpr ⟨hsendable, rfl⟩
  · exact Decoded.ofDatagram_eq_ok_iff.mpr hspelled.spelledBy_wireForm

/-- A request with capitals everywhere. Only those of the mode are given up. -/
theorem encode_decoded_request_in_capitals :
    let datagram := [0, 1] ++ ascii "A" ++ [0] ++ ascii "OCTET" ++ [0] ++ ascii "TSIZE" ++ [0] ++
      ascii "X" ++ [0]
    let message : Message := ⟨.rrq, .request ⟨ascii "A", .octet, [⟨ascii "TSIZE", ascii "X"⟩]⟩⟩
    Decoded.ofDatagram datagram = ⟨.ok, message⟩ ∧
      normalForm .rrq datagram = [0, 1] ++ ascii "A" ++ [0] ++ ascii "octet" ++ [0] ++
        ascii "TSIZE" ++ [0] ++ ascii "X" ++ [0] ∧
      encode message = .ok (normalForm .rrq datagram) ∧
      Decoded.ofDatagram (normalForm .rrq datagram) = ⟨.ok, message⟩ := by
  intro datagram message
  have hdecoded : Decoded.ofDatagram datagram = ⟨.ok, message⟩ := by decide +kernel
  obtain ⟨hencode, hback⟩ := encode_decoded_eq_normalForm hdecoded
  exact ⟨hdecoded, by decide +kernel, hencode, hback⟩

end TftpServer
