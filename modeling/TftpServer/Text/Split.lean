import TftpServer.Octets

/-! # Splitting text

`splitOn` cuts a text at every occurrence of a separator. There is always one
more piece than there are separators, so empty pieces show where separators
stand next to each other or at an end.
-/

namespace TftpServer.Text

/-- The pieces of a text between the occurrences of a separator. -/
def splitOn (separator : UInt8) : Octets → List Octets
  | [] => [[]]
  | octet :: rest =>
    if octet = separator then [] :: splitOn separator rest
    else match splitOn separator rest with
      | [] => [[octet]]
      | piece :: pieces => (octet :: piece) :: pieces

/-- The texts with a separator between neighbours. -/
def joinWith (separator : UInt8) : List Octets → Octets
  | [] => []
  | [text] => text
  | text :: rest => text ++ separator :: joinWith separator rest

theorem splitOn_ne_nil (separator : UInt8) (text : Octets) : splitOn separator text ≠ [] := by
  cases text with
  | nil => simp [splitOn]
  | cons octet rest =>
    unfold splitOn
    split
    · simp
    · split <;> simp

/-- Joining undoes splitting. -/
@[simp] theorem joinWith_splitOn (separator : UInt8) (text : Octets) :
    joinWith separator (splitOn separator text) = text := by
  induction text with
  | nil => rfl
  | cons octet rest ih =>
    unfold splitOn
    split
    next heq =>
      subst heq
      cases hsplit : splitOn octet rest with
      | nil => exact absurd hsplit (splitOn_ne_nil _ _)
      | cons piece pieces => rw [hsplit] at ih; simp [joinWith, ih]
    next hne =>
      cases hsplit : splitOn separator rest with
      | nil => exact absurd hsplit (splitOn_ne_nil _ _)
      | cons piece pieces =>
        rw [hsplit] at ih
        cases pieces <;> simp_all [joinWith]

end TftpServer.Text
