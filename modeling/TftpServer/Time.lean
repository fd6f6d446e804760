/-! # Time

Points in time are whole nanoseconds from an arbitrary origin. The clock gives
them, and what is computed from them is kept, in words of 64 bits: a sum that no
such word can hold comes out reduced to one. Timeouts are whole seconds; waits and
shown times are whole milliseconds.
-/

namespace TftpServer

/-- A point in time, in nanoseconds from an arbitrary origin. -/
abbrev Time := Int

/-- A span of whole seconds. -/
def seconds (count : Int) : Time := count * 1000000000

theorem seconds_pos {count : Int} (hcount : 1 ≤ count) : 0 < seconds count :=
  Int.mul_pos hcount (by decide)

theorem seconds_le_seconds {count most : Int} (hcount : count ≤ most) :
    seconds count ≤ seconds most :=
  Int.mul_le_mul_of_nonneg_right hcount (by decide)

/-- A span of whole milliseconds. -/
def milliseconds (count : Int) : Time := count * 1000000

/-- The last whole millisecond that is not later. -/
def wholeMilliseconds (time : Time) : Int := time.fdiv 1000000

namespace Time

/-- A word of 64 bits can hold the time. -/
def Fits (time : Time) : Prop := -9223372036854775808 ≤ time ∧ time ≤ 9223372036854775807

instance : DecidablePred Fits := fun _ => inferInstanceAs (Decidable (_ ∧ _))

/-- What lies between two times that fit does so too. -/
theorem Fits.add_of_le {time span most : Time} (hfits : Fits time) (hspan : 0 ≤ span)
    (hmost : span ≤ most) (hlatest : Fits (time + most)) : Fits (time + span) :=
  ⟨Int.le_trans hfits.1 (Int.le_add_of_nonneg_right hspan),
    Int.le_trans (Int.add_le_add_left hmost time) hlatest.2⟩

/-- The time a span later, as 64 bits keep it. -/
def later (time span : Time) : Time := (time + span).bmod Int64.size

theorem later_eq_add {time span : Time} (hfits : Fits (time + span)) :
    time.later span = time + span :=
  Int.bmod_eq_of_le hfits.1 (Int.lt_add_one_iff.mpr hfits.2)

end Time

end TftpServer
