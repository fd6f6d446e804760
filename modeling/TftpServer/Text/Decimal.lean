import TftpServer.Octets

/-! # Unsigned decimal text

Numbers are printed without leading zeros and read from plain digits only: no
sign, no blank, no prefix. Reading is bounded by the largest value that the
field can hold. A run of digits beyond that bound is an overflow, which is
reported even when other octets follow the run.
-/

namespace TftpServer.Text

/-- Why a text is not a number of the wanted size. -/
inductive NumberError where
  | notNumeric
  | overflow
  deriving DecidableEq, Repr

/-- Whether an octet is one of the digits `0`..`9`. -/
def isDigit (octet : UInt8) : Bool :=
  48 ≤ octet && octet ≤ 57

/-- The value of a run of decimal digits, most significant first. -/
def digitsValue (digits : Octets) : Nat :=
  digits.foldl (fun value digit => 10 * value + (digit.toNat - 48)) 0

def decimal (value : Nat) : Octets :=
  if value < 10 then [UInt8.ofNat (48 + value)]
  else decimal (value / 10) ++ [UInt8.ofNat (48 + value % 10)]

/-- The decimal text of an integer, with a minus sign in front of a negative
one. -/
def signedDecimal : Int → Octets
  | .ofNat value => decimal value
  | .negSucc value => 45 :: decimal (value + 1)

/-- Reads the number that a whole text spells, up to `largest`. -/
def parseDecimal (largest : Nat) (text : Octets) : Except NumberError Nat :=
  let digits := text.takeWhile isDigit
  let value := digitsValue digits
  if digits = [] then .error .notNumeric
  else if largest < value then .error .overflow
  else if text.dropWhile isDigit = [] then .ok value
  else .error .notNumeric

end TftpServer.Text
