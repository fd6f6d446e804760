import TftpServer.Proofs.Packet.Fields

/-! # The grammar of datagrams

A datagram spells a message when it is put together from the fields of the
message, in order. Decoding finds the message of every datagram that spells one.
Why any other datagram spells none follows from its length, its first octets and
the places of its NULs.
-/

namespace TftpServer

/-! ## What spells a message -/

/-- The text is a name of the mode, in any ASCII case. -/
structure Mode.NamedBy (mode : Mode) (text : Octets) : Prop where
  listed : mode = .netascii ∨ mode = .octet ∨ mode = .mail
  name : Text.lowercase text = mode.name

/-- The datagram is put together from the fields of the message. Behind an ACK or
an ERROR anything may follow. -/
inductive Message.SpelledBy : Message → Octets → Prop where
  | request (opcode : Opcode) (hopcode : opcode = .rrq ∨ opcode = .wrq) (request : Request)
      (modeName : Octets) (hfilename : 0 ∉ request.filename)
      (hmode : request.mode.NamedBy modeName)
      (hoptions : ∀ field ∈ request.options, 0 ∉ field.name ∧ 0 ∉ field.value) :
      SpelledBy ⟨opcode, .request request⟩
        (wordOctets opcode.code ++
          (request.filename ++ 0 :: (modeName ++ 0 :: optionOctets request.options)))
  | data (block : UInt16) (octets : Octets) :
      SpelledBy (.data block octets) (wordOctets Opcode.data.code ++ (wordOctets block ++ octets))
  | ack (block : UInt16) (rest : Octets) :
      SpelledBy (.ack block) (wordOctets Opcode.ack.code ++ (wordOctets block ++ rest))
  | error (code : ErrorCode) (text rest : Octets) (htext : 0 ∉ text) :
      SpelledBy (.error code text)
        (wordOctets Opcode.error.code ++ (wordOctets code.value ++ (text ++ 0 :: rest)))
  | oack (options : List OptionField)
      (hoptions : ∀ field ∈ options, 0 ∉ field.name ∧ 0 ∉ field.value) :
      SpelledBy (.oack options) (wordOctets Opcode.oack.code ++ optionOctets options)

/-! ## Verdicts -/

/-- The verdict on options: they are pairs of texts, each of them ended by a
NUL. -/
def optionsVerdict (octets : Octets) : DecodeStatus :=
  if octets = [] then .ok
  else if octets.getLast? ≠ some 0 then .defect .truncated
  else if octets.count 0 % 2 = 1 then .defect .malformedOptions
  else .ok

/-- The verdict on what follows the opcode of a request: a file name, a mode and
options. -/
def requestVerdict (octets : Octets) : DecodeStatus :=
  if octets.count 0 < 2 then .defect .truncated
  else if Text.lowercase (untilNul (pastNul octets)) ∈
      [ascii "netascii", ascii "octet", ascii "mail"] then
    optionsVerdict (pastNul (pastNul octets))
  else .defect .badMode

/-- The verdict on a datagram. -/
def verdict (datagram : Octets) : DecodeStatus :=
  if datagram.length < 2 then .defect .truncated
  else
    match 256 * (datagram.getD 0 0).toNat + (datagram.getD 1 0).toNat with
    | 1 | 2 => requestVerdict (datagram.drop 2)
    | 3 | 4 => if 4 ≤ datagram.length then .ok else .defect .truncated
    | 5 => if 0 ∈ datagram.drop 4 then .ok else .defect .truncated
    | 6 => optionsVerdict (datagram.drop 2)
    | _ => .defect .unknownOpcode

/-- The status of a result. -/
def DecodeStatus.ofResult {α : Type} : Except Defect α → DecodeStatus
  | .ok _ => .ok
  | .error reason => .defect reason

theorem DecodeStatus.ofResult_map {α β : Type} (f : α → β) (result : Except Defect α) :
    ofResult (result.map f) = ofResult result := by
  cases result <;> rfl

theorem map_eq_ok_iff {α β : Type} {f : α → β} {result : Except Defect α} {value : β} :
    result.map f = .ok value ↔ ∃ inner, result = .ok inner ∧ f inner = value := by
  cases result <;> simp [Except.map]

/-! ## Modes -/

theorem Mode.lowercase_name (mode : Mode) : Text.lowercase mode.name = mode.name := by
  cases mode <;> decide

/-- A text names a mode, or else it is none of the three names. -/
theorem Mode.ofName_cases (text : Octets) :
    (Mode.ofName text).NamedBy text ∨
      Mode.ofName text = .absent ∧
        Text.lowercase text ∉ [ascii "netascii", ascii "octet", ascii "mail"] := by
  simp only [Mode.ofName, Text.sameIgnoringCase, Mode.lowercase_name, beq_iff_eq]
  split
  next hname => exact Or.inl ⟨Or.inl rfl, hname⟩
  next hnetascii =>
    split
    next hname => exact Or.inl ⟨Or.inr (Or.inl rfl), hname⟩
    next hoctet =>
      split
      next hname => exact Or.inl ⟨Or.inr (Or.inr rfl), hname⟩
      next hmail => exact Or.inr ⟨rfl, by simpa using ⟨hnetascii, hoctet, hmail⟩⟩

namespace Mode.NamedBy

variable {mode : Mode} {text : Octets} (hname : mode.NamedBy text)

include hname

theorem ofName_eq : Mode.ofName text = mode := by
  simp only [Mode.ofName, Text.sameIgnoringCase, Mode.lowercase_name, hname.name]
  rcases hname.listed with rfl | rfl | rfl <;> decide

theorem lowercase_mem :
    Text.lowercase text ∈ [ascii "netascii", ascii "octet", ascii "mail"] := by
  rw [hname.name]
  rcases hname.listed with rfl | rfl | rfl <;> decide

theorem ne_absent : mode ≠ .absent := by
  rcases hname.listed with rfl | rfl | rfl <;> decide

theorem nul_notMem : 0 ∉ text := by
  intro hmem
  have hlower : (0 : UInt8) ∈ Text.lowercase text := List.mem_map.mpr ⟨0, hmem, rfl⟩
  rw [hname.name] at hlower
  rcases hname.listed with rfl | rfl | rfl <;> revert hlower <;> decide

end Mode.NamedBy

/-! ## Options -/

theorem readOptions_verdict (source : Octets) :
    DecodeStatus.ofDefect (readOptions source).2 = optionsVerdict source := by
  have hcount := length_splitFields source
  have htail := splitFields_tail_eq_nil_iff source
  simp only [readOptions, optionsVerdict, hcount]
  by_cases hnone : source = []
  · subst hnone
    rfl
  · rw [if_neg hnone]
    by_cases hlast : source.getLast? = some 0
    · rw [if_neg (not_not_intro (htail.mpr (Or.inr hlast))), if_neg (not_not_intro hlast)]
      split <;> rfl
    · rw [if_pos fun hnil => (htail.mp hnil).elim hnone hlast, if_pos hlast]
      rfl

theorem requireOptions_verdict (source : Octets) :
    DecodeStatus.ofResult (requireOptions source) = optionsVerdict source := by
  rw [← readOptions_verdict, requireOptions]
  split
  next hread => rw [hread]; rfl
  next hread => rw [hread]; rfl

theorem requireOptions_eq_ok_iff {source : Octets} {fields : List OptionField} :
    requireOptions source = .ok fields ↔
      source = optionOctets fields ∧ ∀ field ∈ fields, 0 ∉ field.name ∧ 0 ∉ field.value := by
  rw [← readOptions_eq_iff, requireOptions]
  split
  next hread => simp [hread]
  next hread => simp [hread]

/-! ## Requests -/

/-- There are two texts at the front, or fewer than two NULs. -/
theorem two_texts_or_count_lt (octets : Octets) :
    octets.count 0 < 2 ∨ ∃ filename modeName rest,
      octets = filename ++ 0 :: (modeName ++ 0 :: rest) ∧ 0 ∉ filename ∧ 0 ∉ modeName := by
  by_cases hfirst : 0 ∈ octets
  · obtain ⟨filename, afterName, rfl, hfilename⟩ := List.eq_append_cons_of_mem hfirst
    by_cases hsecond : 0 ∈ afterName
    · obtain ⟨modeName, rest, rfl, hmodeName⟩ := List.eq_append_cons_of_mem hsecond
      exact Or.inr ⟨filename, modeName, rest, rfl, hfilename, hmodeName⟩
    · left
      rw [count_append_nul hfilename, List.count_eq_zero.mpr hsecond]
      decide
  · left
    rw [List.count_eq_zero.mpr hfirst]
    decide

theorem decodeRequest_of_count_lt {octets : Octets} (hcount : octets.count 0 < 2) :
    decodeRequest octets = .error .truncated := by
  cases hname : readText octets with
  | none => simp only [decodeRequest, Reader.require, hname, bind, Except.bind]
  | some found =>
      obtain ⟨rfl, hfilename⟩ := readText_eq_some_iff.mp hname
      have hrest : 0 ∉ found.2 := by
        rw [count_append_nul hfilename] at hcount
        exact List.count_eq_zero.mp (by omega)
      simp only [decodeRequest, Reader.require, hname, readText_eq_none_iff.mpr hrest, bind,
        Except.bind]

theorem decodeRequest_append {filename modeName : Octets} (hfilename : 0 ∉ filename)
    (hmodeName : 0 ∉ modeName) (rest : Octets) :
    decodeRequest (filename ++ 0 :: (modeName ++ 0 :: rest)) =
      if Mode.ofName modeName = .absent then .error .badMode
      else (requireOptions rest).map (Request.mk filename (Mode.ofName modeName)) := by
  simp only [decodeRequest, Reader.require, readText_append_nul hfilename,
    readText_append_nul hmodeName, bind, Except.bind]
  split
  next habsent => rw [if_pos habsent]
  next hlisted =>
    rw [if_neg hlisted]
    cases requireOptions rest <;> rfl

theorem decodeRequest_verdict (octets : Octets) :
    DecodeStatus.ofResult (decodeRequest octets) = requestVerdict octets := by
  rcases two_texts_or_count_lt octets with
    hcount | ⟨filename, modeName, rest, rfl, hfilename, hmodeName⟩
  · rw [decodeRequest_of_count_lt hcount, requestVerdict, if_pos hcount]
    rfl
  · have htwo : ¬ (filename ++ 0 :: (modeName ++ 0 :: rest)).count 0 < 2 := by
      rw [count_append_nul hfilename, count_append_nul hmodeName]
      omega
    rw [decodeRequest_append hfilename hmodeName, requestVerdict, if_neg htwo,
      pastNul_append_nul hfilename, pastNul_append_nul hmodeName, untilNul_append_nul hmodeName]
    rcases Mode.ofName_cases modeName with hname | ⟨habsent, hnone⟩
    · rw [if_neg hname.ne_absent, if_pos hname.lowercase_mem, DecodeStatus.ofResult_map,
        requireOptions_verdict]
    · rw [if_pos habsent, if_neg hnone]
      rfl

theorem decodeRequest_eq_ok_iff {octets : Octets} {request : Request} :
    decodeRequest octets = .ok request ↔ ∃ modeName,
      octets = request.filename ++ 0 :: (modeName ++ 0 :: optionOctets request.options) ∧
        0 ∉ request.filename ∧ request.mode.NamedBy modeName ∧
        ∀ field ∈ request.options, 0 ∉ field.name ∧ 0 ∉ field.value := by
  constructor
  · intro hdecode
    rcases two_texts_or_count_lt octets with
      hcount | ⟨filename, modeName, rest, rfl, hfilename, hmodeName⟩
    · rw [decodeRequest_of_count_lt hcount] at hdecode
      cases hdecode
    · rw [decodeRequest_append hfilename hmodeName] at hdecode
      rcases Mode.ofName_cases modeName with hname | ⟨habsent, _⟩
      · rw [if_neg hname.ne_absent] at hdecode
        obtain ⟨options, hoptions, rfl⟩ := map_eq_ok_iff.mp hdecode
        obtain ⟨rfl, hfields⟩ := requireOptions_eq_ok_iff.mp hoptions
        exact ⟨modeName, rfl, hfilename, hname, hfields⟩
      · rw [if_pos habsent] at hdecode
        cases hdecode
  · rintro ⟨modeName, rfl, hfilename, hname, hfields⟩
    rw [decodeRequest_append hfilename hname.nul_notMem, hname.ofName_eq, if_neg hname.ne_absent,
      requireOptions_eq_ok_iff.mpr ⟨rfl, hfields⟩]
    rfl

/-! ## Datagrams -/

theorem Opcode.code_ofCode {code : UInt16} (hcode : Opcode.ofCode code ≠ .none) :
    (Opcode.ofCode code).code = code := by
  unfold Opcode.ofCode at hcode ⊢
  split_ifs at hcode ⊢ <;> simp_all [Opcode.code]

/-- There is an opcode at the front, or there are fewer than two octets. -/
theorem word_or_length_lt (datagram : Octets) :
    datagram.length < 2 ∨ ∃ code body, datagram = wordOctets code ++ body := by
  cases hread : readU16 datagram with
  | none => exact Or.inl (readU16_eq_none_iff.mp hread)
  | some found => exact Or.inr ⟨found.1, found.2, readU16_eq_some_iff.mp hread⟩

theorem decode_of_length_lt {datagram : Octets} (hlength : datagram.length < 2) :
    decode datagram = .error .truncated := by
  simp only [decode, Reader.require, readU16_eq_none_iff.mpr hlength, bind, Except.bind]

/-- The verdict on what follows an opcode. -/
def bodyVerdict (opcode : Opcode) (body : Octets) : DecodeStatus :=
  match opcode with
  | .none => .defect .unknownOpcode
  | .rrq | .wrq => requestVerdict body
  | .data | .ack => if 2 ≤ body.length then .ok else .defect .truncated
  | .error => if 0 ∈ body.drop 2 then .ok else .defect .truncated
  | .oack => optionsVerdict body

theorem verdict_append (code : UInt16) (body : Octets) :
    verdict (wordOctets code ++ body) = bodyVerdict (Opcode.ofCode code) body := by
  have hcode := code.toNat_lt
  have hword : 256 * (UInt8.ofNat (code.toNat / 256)).toNat +
      (UInt8.ofNat (code.toNat % 256)).toNat = code.toNat := by
    rw [UInt8.toNat_ofNat', UInt8.toNat_ofNat']
    omega
  have hlength : ¬ (wordOctets code ++ body).length < 2 := by simp [wordOctets]
  rw [verdict, if_neg hlength]
  simp only [wordOctets, List.cons_append, List.nil_append, List.getD_cons_zero,
    List.getD_cons_succ, hword, List.drop_succ_cons, List.drop_zero, List.length_cons]
  have hfour : 4 ≤ body.length + 1 + 1 ↔ 2 ≤ body.length := by omega
  simp only [hfour]
  by_cases hrrq : code = 1
  · subst hrrq
    rfl
  by_cases hwrq : code = 2
  · subst hwrq
    rfl
  by_cases hdata : code = 3
  · subst hdata
    rfl
  by_cases hack : code = 4
  · subst hack
    rfl
  by_cases herror : code = 5
  · subst herror
    rfl
  by_cases hoack : code = 6
  · subst hoack
    rfl
  have hnone : Opcode.ofCode code = .none := by
    simp only [Opcode.ofCode, hrrq, hwrq, hdata, hack, herror, hoack, if_false]
  rw [hnone]
  split
  next heq => exact absurd (UInt16.toNat_inj.mp heq) hrrq
  next heq => exact absurd (UInt16.toNat_inj.mp heq) hwrq
  next heq => exact absurd (UInt16.toNat_inj.mp heq) hdata
  next heq => exact absurd (UInt16.toNat_inj.mp heq) hack
  next heq => exact absurd (UInt16.toNat_inj.mp heq) herror
  next heq => exact absurd (UInt16.toNat_inj.mp heq) hoack
  next => rfl

theorem decodeBody_verdict (opcode : Opcode) (body : Octets) :
    DecodeStatus.ofResult (decodeBody opcode body) = bodyVerdict opcode body := by
  cases opcode with
  | none => rfl
  | rrq | wrq =>
      rw [bodyVerdict, ← decodeRequest_verdict]
      exact DecodeStatus.ofResult_map _ _
  | data | ack =>
      rw [bodyVerdict, decodeBody, Reader.require]
      cases hread : readU16 body with
      | none => rw [if_neg (Nat.not_le_of_lt (readU16_eq_none_iff.mp hread))]; rfl
      | some found =>
          rw [readU16_eq_some_iff.mp hread, if_pos (by simp [wordOctets])]
          rfl
  | error =>
      rw [bodyVerdict, decodeBody, Reader.require]
      cases hread : readU16 body with
      | none =>
          have hshort := readU16_eq_none_iff.mp hread
          rw [List.drop_of_length_le (Nat.le_of_lt hshort)]
          rfl
      | some found =>
          rw [readU16_eq_some_iff.mp hread, wordOctets, List.cons_append, List.cons_append,
            List.drop_succ_cons, List.drop_succ_cons, List.nil_append, List.drop_zero]
          cases htext : readText found.2 with
          | none =>
              rw [if_neg (readText_eq_none_iff.mp htext)]
              simp only [bind, Except.bind, Reader.require, htext]
              rfl
          | some text =>
              rw [if_pos ?_]
              · simp only [bind, Except.bind, Reader.require, htext]
                rfl
              · rw [(readText_eq_some_iff.mp htext).1]
                simp
  | oack =>
      rw [bodyVerdict, ← requireOptions_verdict]
      exact DecodeStatus.ofResult_map _ _

theorem decode_verdict (datagram : Octets) :
    DecodeStatus.ofResult (decode datagram) = verdict datagram := by
  rcases word_or_length_lt datagram with hshort | ⟨code, body, rfl⟩
  · rw [decode_of_length_lt hshort, verdict, if_pos hshort]
    rfl
  · rw [decode_wordOctets, DecodeStatus.ofResult_map, decodeBody_verdict, verdict_append]

theorem spelledBy_of_decodeBody {opcode : Opcode} {body : Octets} {payload : Payload}
    (hbody : decodeBody opcode body = .ok payload) :
    Message.SpelledBy ⟨opcode, payload⟩ (wordOctets opcode.code ++ body) := by
  cases opcode with
  | none => cases hbody
  | rrq | wrq =>
      obtain ⟨request, hrequest, rfl⟩ := map_eq_ok_iff.mp hbody
      obtain ⟨modeName, rfl, hfilename, hmode, hoptions⟩ := decodeRequest_eq_ok_iff.mp hrequest
      exact .request _ (by simp) request modeName hfilename hmode hoptions
  | data | ack =>
      cases hread : readU16 body with
      | none => simp [decodeBody, Reader.require, hread, bind, Except.bind] at hbody
      | some found =>
          simp only [decodeBody, Reader.require, hread, bind, Except.bind] at hbody
          cases hbody
          rw [readU16_eq_some_iff.mp hread]
          constructor
  | error =>
      cases hread : readU16 body with
      | none => simp [decodeBody, Reader.require, hread, bind, Except.bind] at hbody
      | some found =>
          cases htext : readText found.2 with
          | none => simp [decodeBody, Reader.require, hread, htext, bind, Except.bind] at hbody
          | some text =>
              simp only [decodeBody, Reader.require, hread, htext, bind, Except.bind] at hbody
              cases hbody
              obtain ⟨hrest, hnul⟩ := readText_eq_some_iff.mp htext
              rw [readU16_eq_some_iff.mp hread, hrest]
              exact .error ⟨found.1⟩ _ _ hnul
  | oack =>
      obtain ⟨options, hoptions, rfl⟩ := map_eq_ok_iff.mp hbody
      obtain ⟨rfl, hfields⟩ := requireOptions_eq_ok_iff.mp hoptions
      exact .oack options hfields

/-- Decoding finds the message that a datagram spells, if there is one. -/
theorem decode_eq_ok_iff {datagram : Octets} {message : Message} :
    decode datagram = .ok message ↔ message.SpelledBy datagram := by
  constructor
  · intro hdecode
    rcases word_or_length_lt datagram with hshort | ⟨code, body, rfl⟩
    · rw [decode_of_length_lt hshort] at hdecode
      cases hdecode
    · rw [decode_wordOctets] at hdecode
      obtain ⟨payload, hbody, rfl⟩ := map_eq_ok_iff.mp hdecode
      have hcode : Opcode.ofCode code ≠ .none := by
        intro hnone
        rw [hnone] at hbody
        cases hbody
      conv in wordOctets code => rw [← Opcode.code_ofCode hcode]
      exact spelledBy_of_decodeBody hbody
  · intro hspelled
    cases hspelled with
    | request opcode hopcode request modeName hfilename hmode hoptions =>
        have hrequest := decodeRequest_eq_ok_iff.mpr ⟨modeName, rfl, hfilename, hmode, hoptions⟩
        rw [decode_wordOctets, Opcode.ofCode_code]
        rcases hopcode with rfl | rfl <;> simp only [decodeBody, hrequest] <;> rfl
    | data block octets => exact decode_dataDatagram block octets
    | ack block rest =>
        rw [decode_wordOctets, Opcode.ofCode_code]
        simp only [decodeBody, Reader.require, readU16_wordOctets]
        rfl
    | error code text rest htext =>
        rw [decode_wordOctets, Opcode.ofCode_code]
        simp only [decodeBody, Reader.require, readU16_wordOctets, bind, Except.bind,
          readText_append_nul htext]
        rfl
    | oack options hoptions =>
        rw [decode_wordOctets, Opcode.ofCode_code]
        simp only [decodeBody, requireOptions_eq_ok_iff.mpr ⟨rfl, hoptions⟩]
        rfl

/-- A receiver is handed the message that a datagram spells, and told in every
other case why there is none. -/
theorem decoded_verdict_and_spelling (datagram : Octets) :
    (Decoded.ofDatagram datagram).status = verdict datagram ∧
      (∀ message, Decoded.ofDatagram datagram = ⟨.ok, message⟩ ↔ message.SpelledBy datagram) ∧
      ((Decoded.ofDatagram datagram).status = .ok ∨
        (Decoded.ofDatagram datagram).message = ⟨.none, .none⟩) := by
  rw [← decode_verdict, Decoded.ofDatagram]
  simp only [← decode_eq_ok_iff]
  cases decode datagram with
  | ok message => exact ⟨rfl, fun other => by simp, Or.inl rfl⟩
  | error reason => exact ⟨rfl, fun other => by simp, Or.inr rfl⟩

end TftpServer
