import Mathlib.Data.List.Basic
import TftpServer.Text.Split

/-! # Splitting and joining

The pieces of a text hold no separator and nothing that the text does not hold,
splitting undoes joining, and at a separator a text splits into the pieces of both
sides.
-/

namespace TftpServer.Text

variable {separator octet : UInt8} {piece text : Octets}

theorem splitOn_eq (separator : UInt8) (text : Octets) :
    splitOn separator text = List.splitOn separator text := by
  induction text with
  | nil => rfl
  | cons octet rest ih =>
      rw [splitOn, List.splitOn_cons_eq_if_modifyHead, ih]
      by_cases hoctet : octet = separator
      · simp [hoctet]
      · simp only [hoctet, beq_iff_eq, if_false]
        cases hsplit : List.splitOn separator rest with
        | nil => exact absurd hsplit (List.splitOn_ne_nil separator rest)
        | cons first pieces => rfl

theorem joinWith_eq (separator : UInt8) (texts : List Octets) :
    joinWith separator texts = [separator].intercalate texts := by
  induction texts with
  | nil => rfl
  | cons first rest ih =>
      cases rest with
      | nil => simp [joinWith]
      | cons second rest =>
          rw [joinWith, ih, List.intercalate_cons_cons, List.append_assoc, List.singleton_append]
          simp

theorem splitOn_append_separator (separator : UInt8) (first rest : Octets) :
    splitOn separator (first ++ separator :: rest) =
      splitOn separator first ++ splitOn separator rest := by
  simp only [splitOn_eq, List.splitOn_append_cons_self]

theorem splitOn_of_notMem (htext : separator ∉ text) : splitOn separator text = [text] := by
  rw [splitOn_eq, List.splitOn_eq_singleton htext]

theorem splitOn_joinWith {texts : List Octets} (hne : texts ≠ [])
    (htexts : ∀ text ∈ texts, separator ∉ text) :
    splitOn separator (joinWith separator texts) = texts := by
  rw [splitOn_eq, joinWith_eq, List.splitOn_intercalate separator htexts hne]

theorem notMem_of_mem_splitOn (hpiece : piece ∈ splitOn separator text) : separator ∉ piece := by
  induction text generalizing piece with
  | nil =>
      rw [splitOn, List.mem_singleton] at hpiece
      simp [hpiece]
  | cons octet rest ih =>
      unfold splitOn at hpiece
      split at hpiece
      next =>
        rcases List.mem_cons.mp hpiece with rfl | hpiece
        · exact List.not_mem_nil
        · exact ih hpiece
      next hoctet =>
        rcases hsplit : splitOn separator rest with _ | ⟨first, others⟩
        · exact absurd hsplit (splitOn_ne_nil separator rest)
        · rw [hsplit] at hpiece ih
          rcases List.mem_cons.mp hpiece with rfl | hpiece
          · have hfirst := ih List.mem_cons_self
            intro hmem
            rcases List.mem_cons.mp hmem with heq | hmem
            · exact hoctet heq.symm
            · exact hfirst hmem
          · exact ih (List.mem_cons_of_mem _ hpiece)

theorem mem_joinWith {texts : List Octets} :
    octet ∈ joinWith separator texts → octet = separator ∨ ∃ text ∈ texts, octet ∈ text := by
  induction texts with
  | nil => exact fun hmem => nomatch hmem
  | cons first rest ih =>
      cases rest with
      | nil => exact fun hmem => Or.inr ⟨first, List.mem_cons_self, hmem⟩
      | cons second rest =>
          rw [joinWith, List.mem_append, List.mem_cons]
          rintro (hmem | rfl | hmem)
          · exact Or.inr ⟨first, List.mem_cons_self, hmem⟩
          · exact Or.inl rfl
          · rcases ih hmem with heq | ⟨text, htext, hmem⟩
            · exact Or.inl heq
            · exact Or.inr ⟨text, List.mem_cons_of_mem _ htext, hmem⟩
          · simp

theorem mem_joinWith_of_mem {texts : List Octets} (hpiece : piece ∈ texts)
    (hoctet : octet ∈ piece) :
    octet ∈ joinWith separator texts := by
  induction texts with
  | nil => cases hpiece
  | cons first rest ih =>
      cases rest with
      | nil =>
          rw [List.mem_singleton] at hpiece
          exact hpiece ▸ hoctet
      | cons second rest =>
          rw [joinWith, List.mem_append, List.mem_cons]
          rcases List.mem_cons.mp hpiece with rfl | hpiece
          · exact Or.inl hoctet
          · exact Or.inr (Or.inr (ih hpiece))
          · simp

theorem mem_of_mem_splitOn (hpiece : piece ∈ splitOn separator text) (hoctet : octet ∈ piece) :
    octet ∈ text := by
  rw [← joinWith_splitOn separator text]
  exact mem_joinWith_of_mem hpiece hoctet

end TftpServer.Text
