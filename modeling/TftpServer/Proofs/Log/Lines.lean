import TftpServer.Log
import TftpServer.Proofs.Text.Printable
import TftpServer.Proofs.Text.Split

/-! # Lines of a log

A log that is made of whole lines is read back line by line, as long as no line
holds a newline of its own.
-/

namespace TftpServer.Logger

/-- Whole lines are read back as they were written. -/
theorem linesOf_flatMap {lines : List Octets} (hlines : ∀ line ∈ lines, 10 ∉ line) :
    linesOf (lines.flatMap (· ++ [10])) = lines := by
  have hsplit : Text.splitOn 10 (lines.flatMap (· ++ [10])) = lines ++ [[]] := by
    induction lines with
    | nil => rfl
    | cons line rest ih =>
        have hrest := ih fun other hother => hlines other (List.mem_cons_of_mem _ hother)
        rw [List.flatMap_cons, List.append_assoc, List.singleton_append,
          Text.splitOn_append_separator, Text.splitOn_of_notMem (hlines line List.mem_cons_self),
          hrest]
        rfl
  rw [linesOf, hsplit, List.dropLast_concat]

theorem newline_notMem_of_mem_linesOf {log line : Octets} (hline : line ∈ linesOf log) :
    10 ∉ line :=
  Text.notMem_of_mem_splitOn ((List.dropLast_sublist _).subset hline)

end TftpServer.Logger
