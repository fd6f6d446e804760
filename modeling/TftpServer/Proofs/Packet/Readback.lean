import Mathlib.Data.List.TakeWhile
import TftpServer.Proofs.Packet.WireForm

/-! # What a receiver reads

A text that was written with its NUL is read back as it was, and no text that is
read holds a NUL. So option fields are read back in the order in which they were
written, and an OACK or an ERROR says to its receiver what it was made to say.
-/

namespace TftpServer

/-! ## Texts -/

theorem nul_notMem_of_readText {source text rest : Octets}
    (hread : readText source = some (text, rest)) : 0 ∉ text := by
  unfold readText at hread
  split at hread
  · cases hread
  · cases hread
    exact fun hmem => absurd (List.mem_takeWhile_imp hmem) (by decide)

theorem readText_append_nul {text : Octets} (htext : 0 ∉ text) (rest : Octets) :
    readText (text ++ 0 :: rest) = some (text, rest) := by
  have hkept : ∀ octet ∈ text, (octet != 0) = true := fun octet hoctet =>
    bne_iff_ne.mpr fun heq => htext (heq ▸ hoctet)
  rw [readText, List.dropWhile_append_of_pos hkept, List.takeWhile_append_of_pos hkept]
  simp

/-- A name that was asked for holds no NUL. -/
theorem nul_notMem_of_decode_request {datagram : Octets} {opcode : Opcode} {request : Request}
    (hdecode : decode datagram = .ok ⟨opcode, .request request⟩) : 0 ∉ request.filename := by
  obtain ⟨body, hbody⟩ := exists_body_of_decode hdecode
  have hrequest : decodeRequest body = .ok request := by
    cases coherent_of_decode hdecode with
    | rrq | wrq =>
        simp only [decodeBody, Functor.map, Except.map] at hbody
        split at hbody
        · cases hbody
        next heq => cases hbody; exact heq
  cases hname : readText body with
  | none =>
      simp only [decodeRequest, Reader.require, hname, bind, Except.bind] at hrequest
      cases hrequest
  | some found =>
      simp only [decodeRequest, Reader.require, hname, bind, Except.bind] at hrequest
      have hfilename : request.filename = found.1 := by
        split at hrequest
        · cases hrequest
        · split at hrequest
          · cases hrequest
          · split at hrequest
            · cases hrequest
            · cases hrequest
              rfl
      rw [hfilename]
      exact nul_notMem_of_readText hname

/-! ## Option fields -/

theorem splitFields_append_nul {text : Octets} (htext : 0 ∉ text) (rest : Octets) :
    splitFields (text ++ 0 :: rest) = (text :: (splitFields rest).1, (splitFields rest).2) := by
  induction text with
  | nil => simp [splitFields]
  | cons octet tail ih =>
      have hoctet : (octet == 0) = false := beq_eq_false_iff_ne.mpr fun heq =>
        htext (heq ▸ List.mem_cons_self)
      have htail := ih fun hmem => htext (List.mem_cons_of_mem _ hmem)
      rw [List.cons_append, splitFields, hoctet, htail]

/-- The octets of an option are its name and its value, each ended by a NUL. -/
theorem splitFields_flatMap {fields : List OptionField}
    (hfields : ∀ field ∈ fields, 0 ∉ field.name ∧ 0 ∉ field.value) :
    splitFields (fields.flatMap fun field => field.name ++ [0] ++ (field.value ++ [0])) =
      (fields.flatMap fun field => [field.name, field.value], []) := by
  induction fields with
  | nil => rfl
  | cons field rest ih =>
      have hfield := hfields field List.mem_cons_self
      have hrest := ih fun other hother => hfields other (List.mem_cons_of_mem _ hother)
      simp only [List.flatMap_cons, List.append_assoc, List.cons_append, List.nil_append]
        at hrest ⊢
      rw [splitFields_append_nul hfield.1, splitFields_append_nul hfield.2, hrest]

theorem pairFields_flatMap (fields : List OptionField) :
    pairFields (fields.flatMap fun field => [field.name, field.value]) = fields := by
  induction fields with
  | nil => rfl
  | cons field rest ih =>
      rw [List.flatMap_cons, List.cons_append, List.cons_append, List.nil_append, pairFields, ih]

theorem readOptions_flatMap {fields : List OptionField}
    (hfields : ∀ field ∈ fields, 0 ∉ field.name ∧ 0 ∉ field.value) :
    readOptions (fields.flatMap fun field => field.name ++ [0] ++ (field.value ++ [0])) =
      (fields, none) := by
  have heven : (fields.flatMap fun field => [field.name, field.value]).length % 2 = 0 := by
    simp [List.map_const']
  simp only [readOptions, splitFields_flatMap hfields, pairFields_flatMap, heven]
  rfl

/-! ## Messages -/

theorem Draft.nul_notMem_of_options {fields : List OptionField}
    (hwritten : (Draft.options fields).refusal = none) :
    ∀ field ∈ fields, 0 ∉ field.name ∧ 0 ∉ field.value := by
  induction fields with
  | nil => exact fun field hfield => nomatch hfield
  | cons field rest ih =>
      by_cases hname : 0 ∈ field.name
      · simp [Draft.options, Draft.text, hname, Draft.refuse, Draft.andThen] at hwritten
      · by_cases hvalue : 0 ∈ field.value
        · simp [Draft.options, Draft.text, hname, hvalue, Draft.refuse, Draft.write, Draft.andThen]
            at hwritten
        · have hrest : (Draft.options rest).refusal = none := by
            simpa [Draft.options, Draft.text, hname, hvalue, Draft.write, Draft.andThen]
              using hwritten
          exact List.forall_mem_cons.mpr ⟨⟨hname, hvalue⟩, ih hrest⟩

/-- Options that have a wire form hold no NUL. -/
theorem nul_notMem_of_encode_oack {fields : List OptionField} {datagram : Octets}
    (hencode : encode (.oack fields) = .ok datagram) :
    ∀ field ∈ fields, 0 ∉ field.name ∧ 0 ∉ field.value := by
  refine Draft.nul_notMem_of_options ?_
  cases hrefusal : (Draft.options fields).refusal with
  | none => rfl
  | some reason =>
      simp [encode, Message.oack, Draft.u16, Draft.write, Draft.andThen, hrefusal,
        Draft.toExcept] at hencode

/-- An OACK reads as the options that it was made of. -/
theorem decode_of_encode_oack {fields : List OptionField} {datagram : Octets}
    (hencode : encode (.oack fields) = .ok datagram) : decode datagram = .ok (.oack fields) := by
  have hfields := nul_notMem_of_encode_oack hencode
  rw [encode_oack hfields] at hencode
  cases hencode
  rw [decode_wordOctets, Opcode.ofCode_code]
  simp only [decodeBody, requireOptions, readOptions_flatMap hfields]
  rfl

/-- An ERROR reads as the code and the text that it was made of. -/
theorem decode_of_encode_error {code : ErrorCode} {text datagram : Octets}
    (hencode : encode (.error code text) = .ok datagram) :
    decode datagram = .ok (.error code text) := by
  have htext := nul_notMem_of_encode_error hencode
  rw [encode_error htext] at hencode
  cases hencode
  rw [decode_wordOctets, Opcode.ofCode_code]
  simp only [decodeBody, Reader.require, readU16_wordOctets, bind, Except.bind,
    readText_append_nul htext]
  rfl

end TftpServer
