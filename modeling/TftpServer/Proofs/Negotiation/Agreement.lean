import TftpServer.Proofs.Negotiation.Occurrence
import TftpServer.Proofs.Negotiation.Resolution

/-! # What is agreed on

An option is accepted when its first value leads to a number. That number is in
the typed values, its decimal text is in the announcement, and nothing else is.
-/

namespace TftpServer

open Text

theorem mem_firstOccurrences_iff {options : List (KnownOption × Octets)} {option : KnownOption}
    {value : Octets} :
    (option, value) ∈ firstOccurrences options ↔ options.lookup option = some value := by
  induction options with
  | nil => simp [firstOccurrences]
  | cons first rest ih =>
      rw [firstOccurrences, List.mem_cons, List.mem_filter, ih, List.lookup_cons]
      by_cases hfirst : option = first.1
      · rw [beq_iff_eq.mpr hfirst]
        simp [hfirst, Prod.ext_iff, eq_comm]
      · rw [beq_false_of_ne hfirst]
        simp [hfirst, Prod.ext_iff]

section Negotiate

variable (limits : Limits) (length : Option UInt64) (requested : List OptionField)

theorem negotiate_blockSize :
    (negotiate limits length requested).blockSize =
      (firstValue requested .blockSize).bind limits.resolveBlockSize := by
  rw [← lookup_settled]
  rfl

theorem negotiate_timeout :
    (negotiate limits length requested).timeout =
      (firstValue requested .timeout).bind limits.resolveTimeout := by
  rw [← lookup_settled]
  rfl

theorem negotiate_transferSize :
    (negotiate limits length requested).transferSize =
      (firstValue requested .transferSize).map fun _ => length.getD 0 := by
  rw [← lookup_settled]
  rfl

/-- What is settled for an option depends on its first value alone. -/
theorem number_negotiate (option : KnownOption) :
    (negotiate limits length requested).number option =
      (firstValue requested option).bind (agreedNumber limits length option) := by
  rw [number_negotiate_eq_lookup, lookup_settled]

variable {limits length requested}

/-- The announcement lists the settled numbers, and nothing else. -/
theorem mem_negotiate_entries_iff {field : OptionField} :
    field ∈ (negotiate limits length requested).entries ↔
      ∃ option number, (negotiate limits length requested).number option = some number ∧
        field = ⟨option.name, decimal number⟩ := by
  constructor
  · intro hfield
    obtain ⟨⟨option, value⟩, hsettled, hannounced⟩ := List.mem_filterMap.mp hfield
    obtain ⟨text, htext, rfl⟩ := Option.map_eq_some_iff.mp hannounced
    rw [announcedValue_eq] at htext
    obtain ⟨number, hnumber, rfl⟩ := Option.map_eq_some_iff.mp htext
    refine ⟨option, number, ?_, rfl⟩
    rw [number_negotiate, ← lookup_knownOptions, mem_firstOccurrences_iff.mp hsettled]
    exact hnumber
  · rintro ⟨option, number, hnumber, rfl⟩
    rw [number_negotiate] at hnumber
    obtain ⟨value, hvalue, hagreed⟩ := Option.bind_eq_some_iff.mp hnumber
    refine List.mem_filterMap.mpr ⟨(option, value), ?_, ?_⟩
    · rw [mem_firstOccurrences_iff, lookup_knownOptions, hvalue]
    · dsimp only
      rw [announcedValue_eq, hagreed]
      rfl

/-- An option is announced exactly when a number was settled for it. -/
theorem exists_entry_iff (option : KnownOption) :
    (∃ field ∈ (negotiate limits length requested).entries, field.name = option.name) ↔
      ∃ number, (negotiate limits length requested).number option = some number := by
  constructor
  · rintro ⟨field, hfield, hname⟩
    obtain ⟨other, number, hnumber, rfl⟩ := mem_negotiate_entries_iff.mp hfield
    obtain rfl := KnownOption.name_inj.mp hname
    exact ⟨number, hnumber⟩
  · rintro ⟨number, hnumber⟩
    exact ⟨_, mem_negotiate_entries_iff.mpr ⟨option, number, hnumber, rfl⟩, rfl⟩

end Negotiate

/-! ## Block sizes -/

/-- The first block size of a request is accepted if it is a number, however long,
and it is then moved between the limits. A text that starts with more than 64 bits
can hold is taken for a number too, whatever follows. -/
theorem blockSize_accepted_iff (limits : Limits) (length : Option UInt64)
    (requested : List OptionField) {value : Octets}
    (hvalue : firstValue requested .blockSize = some value) :
    let accepted := negotiate limits length requested
    let ceiling := max 8 (min limits.maxBlockSize.toNat 65464)
    let floor := max 8 (min limits.minBlockSize.toNat ceiling)
    let overflows := 2 ^ 64 ≤ digitsValue (value.takeWhile isDigit)
    ((∃ field ∈ accepted.entries, field.name = ascii "blksize") ↔ IsNumber value ∨ overflows) ∧
      (IsNumber value →
        accepted.blockSize.map UInt64.toNat =
          some (max floor (min (digitsValue value) ceiling))) ∧
      (overflows → accepted.blockSize.map UInt64.toNat = some ceiling) := by
  intro accepted ceiling floor overflows
  have hceiling : limits.blockSizeCeiling.toNat = ceiling := limits.toNat_blockSizeCeiling
  have hfloor : limits.blockSizeFloor.toNat = floor := by
    rw [limits.toNat_blockSizeFloor, hceiling]
  have hsettled : accepted.blockSize.map UInt64.toNat =
      if IsNumber value ∨ overflows then
        some (max floor (min (digitsValue (value.takeWhile isDigit)) ceiling))
      else none := by
    have hagreed := number_negotiate limits length requested .blockSize
    rw [hvalue, Option.bind_some, agreedNumber, limits.map_toNat_resolveBlockSize, hceiling,
      hfloor] at hagreed
    exact hagreed
  have hentry : (∃ field ∈ accepted.entries, field.name = ascii "blksize") ↔
      ∃ number, accepted.blockSize.map UInt64.toNat = some number :=
    exists_entry_iff .blockSize
  refine ⟨?_, fun hnumber => ?_, fun hoverflows => ?_⟩
  · rw [hentry, hsettled]
    split
    next haccepted => exact ⟨fun _ => haccepted, fun _ => ⟨_, rfl⟩⟩
    next hdropped =>
      refine ⟨fun hsome => ?_, fun haccepted => absurd haccepted hdropped⟩
      obtain ⟨_, hnone⟩ := hsome
      cases hnone
  · rw [hsettled, if_pos (Or.inl hnumber), hnumber.takeWhile_eq]
  · have hbounds : floor ≤ ceiling ∧ ceiling ≤ digitsValue (value.takeWhile isDigit) := by
      omega
    rw [hsettled, if_pos (Or.inr hoverflows), Nat.min_eq_right hbounds.2, Nat.max_eq_right hbounds.1]

/-- Thirty digits, most of them leading zeros, are a number like any other. The
second block size is not looked at. -/
theorem blockSize_accepted_with_leading_zeros :
    let requested : List OptionField :=
      [⟨ascii "tsize", ascii "0"⟩, ⟨ascii "BlkSize", ascii "000000000000000000000000008192"⟩,
        ⟨ascii "blksize", ascii "512"⟩]
    firstValue requested .blockSize = some (ascii "000000000000000000000000008192") ∧
      (negotiate { maxBlockSize := 1428 } none requested).blockSize.map UInt64.toNat =
        some 1428 := by
  intro requested
  have hvalue : firstValue requested .blockSize = some (ascii "000000000000000000000000008192") := by
    decide +kernel
  have hnumber : IsNumber (ascii "000000000000000000000000008192") := by
    decide +kernel
  refine ⟨hvalue, ?_⟩
  rw [(blockSize_accepted_iff { maxBlockSize := 1428 } none requested hvalue).2.1 hnumber]
  decide +kernel

/-- The stray octet is not noticed, as the number in front of it is too large. -/
theorem blockSize_accepted_before_stray_octet :
    let requested : List OptionField := [⟨ascii "blksize", ascii "18446744073709551616x"⟩]
    firstValue requested .blockSize = some (ascii "18446744073709551616x") ∧
      ¬ IsNumber (ascii "18446744073709551616x") ∧
      (negotiate {} none requested).entries = [⟨ascii "blksize", ascii "65464"⟩] := by
  decide +kernel

end TftpServer
