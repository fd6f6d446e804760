import TftpServer.Store.Memory

/-! # The table of a memory store

A table is its look-up function: an added entry is found under its name, and all
others are found as before.
-/

namespace TftpServer

namespace MemoryTable

theorem lookup_insert (name other : Octets) (content : Content) (table : MemoryTable) :
    (insert name content table).lookup other =
      if other = name then some content else table.lookup other := by
  induction table with
  | nil =>
      by_cases heq : other = name
      · simp [insert, heq]
      · simp [insert, List.lookup_cons, beq_false_of_ne heq, heq]
  | cons entry rest ih =>
      obtain ⟨key, old⟩ := entry
      by_cases hkey : key = name
      · subst hkey
        rw [insert, if_pos rfl, List.lookup_cons, List.lookup_cons]
        by_cases heq : other = key
        · simp [heq]
        · simp [beq_false_of_ne heq, heq]
      · rw [insert, if_neg hkey, List.lookup_cons, List.lookup_cons, ih]
        by_cases heq : other = key
        · subst heq
          simp [hkey]
        · simp [beq_false_of_ne heq]

end MemoryTable

/-- A content is served exactly if it is there and wanted in a mode that there is. -/
theorem memoryStore_opens {name : Octets} {mode : Mode} {table : MemoryTable} {content : Content}
    (hmode : mode = .octet ∨ mode = .netascii) (hcontent : table.lookup name = some content) :
    memoryStore.openStream name mode table =
      ({ stream := some (Delivery.ofMode mode content) }, table) := by
  rcases hmode with rfl | rfl <;> simp [memoryStore, hcontent]

theorem served_of_memoryStore_opens {name : Octets} {mode : Mode} {table after : MemoryTable}
    {opened : Opened (Delivery Content)}
    (hopen : memoryStore.openStream name mode table = (opened, after))
    (herror : opened.error = none) :
    (mode = .octet ∨ mode = .netascii) ∧ ∃ content, table.lookup name = some content := by
  simp only [memoryStore] at hopen
  split at hopen
  · cases hopen
    cases herror
  next hmode =>
    cases hcontent : table.lookup name with
    | none =>
        rw [hcontent] at hopen
        cases hopen
        cases herror
    | some content => exact ⟨Decidable.or_iff_not_not_and_not.mpr hmode, content, rfl⟩

end TftpServer
