import TftpServer.Proofs.Text.Printable

/-! # Bounds of negotiated values

Whatever is requested and however the limits are set, a transfer runs with a
block size that a DATA datagram can carry, and every announced option is
printable text.
-/

namespace TftpServer

open Text

theorem le_clamp {value floor ceiling : UInt64} (hle : floor ≤ ceiling) :
    floor ≤ clamp value floor ceiling := by
  unfold clamp
  split
  · exact UInt64.le_refl floor
  next hfloor =>
    split
    · exact hle
    · exact UInt64.not_lt.mp hfloor

theorem clamp_le {value floor ceiling : UInt64} (hle : floor ≤ ceiling) :
    clamp value floor ceiling ≤ ceiling := by
  unfold clamp
  split
  · exact hle
  · split
    · exact UInt64.le_refl ceiling
    next hceiling => exact UInt64.not_lt.mp hceiling

/-- Counted as numbers, moving a value between two bounds is taking a minimum and
a maximum. -/
theorem toNat_clamp {value floor ceiling : UInt64} (hle : floor ≤ ceiling) :
    (clamp value floor ceiling).toNat =
      max floor.toNat (min value.toNat ceiling.toNat) := by
  have hle := UInt64.le_iff_toNat_le.mp hle
  unfold clamp
  split
  next hfloor =>
    have hfloor := UInt64.lt_iff_toNat_lt.mp hfloor
    omega
  next hfloor =>
    have hfloor := UInt64.le_iff_toNat_le.mp (UInt64.not_lt.mp hfloor)
    split
    next hceiling =>
      have hceiling := UInt64.lt_iff_toNat_lt.mp hceiling
      omega
    next hceiling =>
      have hceiling := UInt64.le_iff_toNat_le.mp (UInt64.not_lt.mp hceiling)
      omega

namespace Limits

variable (limits : Limits)

theorem le_blockSizeCeiling : 8 ≤ limits.blockSizeCeiling :=
  le_clamp (by decide)

theorem blockSizeCeiling_le : limits.blockSizeCeiling ≤ TftpServer.maxBlockSize :=
  clamp_le (by decide)

theorem le_blockSizeFloor : 8 ≤ limits.blockSizeFloor :=
  le_clamp limits.le_blockSizeCeiling

theorem blockSizeFloor_le : limits.blockSizeFloor ≤ limits.blockSizeCeiling :=
  clamp_le limits.le_blockSizeCeiling

theorem toNat_blockSizeCeiling :
    limits.blockSizeCeiling.toNat = max 8 (min limits.maxBlockSize.toNat 65464) :=
  toNat_clamp (by decide)

theorem toNat_blockSizeFloor :
    limits.blockSizeFloor.toNat =
      max 8 (min limits.minBlockSize.toNat limits.blockSizeCeiling.toNat) :=
  toNat_clamp limits.le_blockSizeCeiling

theorem resolveBlockSize_bounds {value : Octets} {size : UInt64}
    (hsize : limits.resolveBlockSize value = some size) :
    8 ≤ size ∧ size ≤ TftpServer.maxBlockSize := by
  unfold resolveBlockSize at hsize
  split at hsize
  · cases hsize
  · cases hsize
    exact ⟨limits.le_blockSizeCeiling, limits.blockSizeCeiling_le⟩
  · cases hsize
    exact ⟨UInt64.le_trans limits.le_blockSizeFloor (le_clamp limits.blockSizeFloor_le),
      UInt64.le_trans (clamp_le limits.blockSizeFloor_le) limits.blockSizeCeiling_le⟩

end Limits

theorem printable_announcedValue {limits : Limits} {sourceLength : Option UInt64}
    {option : KnownOption} {value text : Octets}
    (htext : announcedValue limits sourceLength option value = some text) : Printable text := by
  cases option with
  | blockSize | timeout =>
      obtain ⟨number, _, rfl⟩ := Option.map_eq_some_iff.mp htext
      exact printable_decimal _
  | transferSize =>
      cases htext
      exact printable_decimal _

section Negotiate

variable (limits : Limits) (sourceLength : Option UInt64) (requested : List OptionField)

theorem negotiate_blockSize_bounds {size : UInt64}
    (hsize : (negotiate limits sourceLength requested).blockSize = some size) :
    8 ≤ size ∧ size ≤ maxBlockSize := by
  obtain ⟨value, _, hresolve⟩ := Option.bind_eq_some_iff.mp hsize
  exact limits.resolveBlockSize_bounds hresolve

/-- Announced options are printable, so they always have a wire form. -/
theorem printable_negotiate_entries :
    ∀ field ∈ (negotiate limits sourceLength requested).entries,
      Printable field.name ∧ Printable field.value := by
  intro field hfield
  obtain ⟨⟨option, value⟩, _, hannounced⟩ := List.mem_filterMap.mp hfield
  obtain ⟨text, htext, rfl⟩ := Option.map_eq_some_iff.mp hannounced
  exact ⟨option.printable_name, printable_announcedValue htext⟩

/-- Negotiated or not, the block size of a transfer is one that a DATA datagram
can carry. -/
theorem resolveSettings_blockSize_bounds (defaultTimeout : Int64) (retryLimit : UInt32) :
    let settings :=
      resolveSettings (negotiate limits sourceLength requested) defaultTimeout retryLimit
    8 ≤ settings.blockSize ∧ settings.blockSize ≤ maxBlockSize := by
  dsimp only [resolveSettings]
  cases hsize : (negotiate limits sourceLength requested).blockSize with
  | none => decide
  | some size => exact negotiate_blockSize_bounds limits sourceLength requested hsize

end Negotiate

end TftpServer
