import Mathlib.Data.List.Perm.Subperm
import TftpServer.Negotiation
import TftpServer.Proofs.Text.Decimal

/-! # What the announced options say

The values of a transfer are settled as numbers and announced as texts. Read back
from the announcement, each option is the number that the transfer runs with, and
an option that is not announced is left at its default.
-/

namespace TftpServer

/-- The number that was settled for an option. -/
def Acceptance.number (accepted : Acceptance) : KnownOption → Option Nat
  | .blockSize => accepted.blockSize.map UInt64.toNat
  | .timeout => accepted.timeout.map UInt32.toNat
  | .transferSize => accepted.transferSize.map UInt64.toNat

/-- The number that is agreed on for an option that was asked for with `value`. -/
def agreedNumber (limits : Limits) (length : Option UInt64) (option : KnownOption)
    (value : Octets) : Option Nat :=
  match option with
  | .blockSize => (limits.resolveBlockSize value).map UInt64.toNat
  | .timeout => (limits.resolveTimeout value).map UInt32.toNat
  | .transferSize => some (length.getD 0).toNat

/-- What a receiver learns of an option: the number in the first field of its
name, if there is one. -/
def announced (entries : List OptionField) (option : KnownOption) : Option Nat :=
  (entries.find? (·.name = option.name)).bind fun field =>
    (Text.parseDecimal (UInt64.size - 1) field.value).toOption

theorem KnownOption.name_inj {option other : KnownOption} :
    option.name = other.name ↔ option = other := by
  cases option <;> cases other <;> decide

theorem nodup_firstOccurrences (options : List (KnownOption × Octets)) :
    ((firstOccurrences options).map Prod.fst).Nodup := by
  induction options with
  | nil => exact List.nodup_nil
  | cons first rest ih =>
      rw [firstOccurrences, List.map_cons, List.nodup_cons]
      refine ⟨fun hmem => ?_, ih.sublist (List.filter_sublist.map Prod.fst)⟩
      obtain ⟨entry, hentry, hsame⟩ := List.mem_map.mp hmem
      exact of_decide_eq_true (List.mem_filter.mp hentry).2 hsame

section Announced

variable {limits : Limits} {length : Option UInt64} {option : KnownOption}

theorem announcedValue_eq (value : Octets) :
    announcedValue limits length option value =
      (agreedNumber limits length option value).map Text.decimal := by
  cases option with
  | blockSize | timeout => exact (Option.map_map ..).symm
  | transferSize => rfl

theorem agreedNumber_lt {value : Octets} {number : Nat}
    (hagreed : agreedNumber limits length option value = some number) : number < UInt64.size := by
  cases option with
  | blockSize =>
      obtain ⟨size, _, rfl⟩ := Option.map_eq_some_iff.mp hagreed
      exact size.toNat_lt
  | timeout =>
      obtain ⟨seconds, _, rfl⟩ := Option.map_eq_some_iff.mp hagreed
      exact seconds.toNat_lt.trans (by decide)
  | transferSize =>
      cases hagreed
      exact (length.getD 0).toNat_lt

/-- The field of an option among the announced ones comes from its settled
occurrence. -/
theorem find?_announced {settled : List (KnownOption × Octets)}
    (hnodup : (settled.map Prod.fst).Nodup) :
    (settled.filterMap fun (option, value) =>
        (announcedValue limits length option value).map (OptionField.mk option.name ·)).find?
          (·.name = option.name) =
      (settled.lookup option).bind fun value =>
        (announcedValue limits length option value).map (OptionField.mk option.name ·) := by
  induction settled with
  | nil => rfl
  | cons first rest ih =>
      obtain ⟨other, value⟩ := first
      rw [List.map_cons, List.nodup_cons] at hnodup
      have hrest := ih hnodup.2
      by_cases hother : other = option
      · subst hother
        have habsent : rest.lookup other = none := by
          rw [List.lookup_eq_none_iff]
          intro entry hentry
          exact bne_iff_ne.mpr fun heq => hnodup.1 (List.mem_map.mpr ⟨entry, hentry, heq.symm⟩)
        rw [List.lookup_cons_self, Option.bind_some]
        cases hannounced : announcedValue limits length other value with
        | none => simp [hannounced, hrest, habsent]
        | some text => simp [hannounced]
      · have hname : other.name ≠ option.name := fun heq => hother (KnownOption.name_inj.mp heq)
        have hskip : ((other, value) :: rest).lookup option = rest.lookup option := by
          rw [List.lookup_cons, beq_false_of_ne (Ne.symm hother)]
        rw [hskip, ← hrest]
        cases hannounced : announcedValue limits length other value with
        | none => simp [hannounced]
        | some text => simp [hannounced, hname]

variable (limits length) (requested : List OptionField)

/-- What is settled for an option comes from its first occurrence. -/
theorem number_negotiate_eq_lookup :
    (negotiate limits length requested).number option =
      ((firstOccurrences (knownOptions requested)).lookup option).bind
        (agreedNumber limits length option) := by
  cases option with
  | blockSize | timeout => exact Option.map_bind ..
  | transferSize =>
      rw [Acceptance.number, negotiate, Option.map_map]
      cases (firstOccurrences (knownOptions requested)).lookup .transferSize <;> rfl

/-- What is announced for an option is what was settled for it. -/
theorem announced_negotiate :
    announced (negotiate limits length requested).entries option =
      (negotiate limits length requested).number option := by
  rw [number_negotiate_eq_lookup, announced, negotiate, find?_announced (nodup_firstOccurrences _)]
  cases (firstOccurrences (knownOptions requested)).lookup option with
  | none => rfl
  | some value =>
      rw [Option.bind_some, Option.bind_some, announcedValue_eq]
      cases hnumber : agreedNumber limits length option value with
      | none => rfl
      | some number =>
          have hbound : number ≤ UInt64.size - 1 := Nat.le_pred_of_lt (agreedNumber_lt hnumber)
          simp only [Option.map_some, Option.bind_some, Except.toOption,
            Text.parseDecimal_decimal hbound]

end Announced

/-! ## What a transfer runs with -/

section Settings

variable (limits : Limits) (length : Option UInt64) (requested : List OptionField)
  (defaultTimeout : Int64) (retryLimit : UInt32)

/-- The block size and the timeout are the announced ones, or else 512 and the default. -/
theorem resolveSettings_announced :
    let entries := (negotiate limits length requested).entries
    let settings :=
      resolveSettings (negotiate limits length requested) defaultTimeout retryLimit
    settings.blockSize.toNat = (announced entries .blockSize).getD 512 ∧
      settings.timeout.toInt =
        ((announced entries .timeout).map Int.ofNat).getD defaultTimeout.toInt := by
  intro entries settings
  rw [announced_negotiate, announced_negotiate]
  simp only [settings, resolveSettings, Acceptance.number]
  constructor
  · cases (negotiate limits length requested).blockSize <;> rfl
  · cases (negotiate limits length requested).timeout with
    | none => rfl
    | some seconds => exact Int64.toInt_ofNat_of_lt (seconds.toNat_lt.trans (by decide))

/-- An announced transfer size is the length of the stream, or 0 for an unknown
one. -/
theorem eq_of_announced_transferSize {size : Nat}
    (hsize : announced (negotiate limits length requested).entries .transferSize = some size) :
    size = (length.getD 0).toNat := by
  rw [announced_negotiate, number_negotiate_eq_lookup] at hsize
  obtain ⟨_, _, hagreed⟩ := Option.bind_eq_some_iff.mp hsize
  exact (Option.some.inj hagreed).symm

end Settings

/-! ## How long the announcement is -/

section Length

variable (limits : Limits) (length : Option UInt64) (requested : List OptionField)

/-- Every option is announced once at most. -/
theorem length_negotiate_entries_le :
    (negotiate limits length requested).entries.length ≤ 3 := by
  have hkeys := nodup_firstOccurrences (knownOptions requested)
  have hknown : ((firstOccurrences (knownOptions requested)).map Prod.fst).length ≤
      [KnownOption.blockSize, .timeout, .transferSize].length := by
    refine (List.Nodup.subperm hkeys fun option _ => ?_).length_le
    cases option <;> decide
  rw [List.length_map] at hknown
  exact (List.length_filterMap_le ..).trans hknown

/-- Names are short, and values are numbers of 64 bits. -/
theorem length_of_mem_negotiate_entries {field : OptionField}
    (hfield : field ∈ (negotiate limits length requested).entries) :
    field.name.length ≤ 7 ∧ field.value.length ≤ 20 := by
  obtain ⟨⟨option, value⟩, _, hannounced⟩ := List.mem_filterMap.mp hfield
  obtain ⟨text, htext, rfl⟩ := Option.map_eq_some_iff.mp hannounced
  have hname : option.name.length ≤ 7 := by
    cases option <;> decide
  refine ⟨hname, ?_⟩
  rw [announcedValue_eq] at htext
  obtain ⟨number, hagreed, rfl⟩ := Option.map_eq_some_iff.mp htext
  exact Text.length_decimal_le (by decide) ((agreedNumber_lt hagreed).trans (by decide))

end Length

end TftpServer
