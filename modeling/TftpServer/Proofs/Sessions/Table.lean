import Mathlib.Order.Bounds.Basic
import TftpServer.Sessions.Table

/-! # The session table by peer

What updating, erasing and expiring do to the transfer of one peer. A table in
which every peer occurs once is its look-up function. The next deadline is the
earliest at which some transfer is due.
-/

namespace TftpServer.SessionTable

variable {σ : Type} {table : SessionTable σ} {peer other : Endpoint} {transfer : Transfer σ}

/-- Every peer occurs at most once. -/
def UniquePeers (table : SessionTable σ) : Prop :=
  (table.map Prod.fst).Nodup

theorem find?_cons (entry : Endpoint × Transfer σ) (table : SessionTable σ) (peer : Endpoint) :
    find? (entry :: table) peer = if peer = entry.1 then some entry.2 else find? table peer := by
  obtain ⟨key, transfer⟩ := entry
  by_cases heq : peer = key
  · simp [find?, heq]
  · simp [find?, List.lookup_cons, beq_false_of_ne heq, heq]

@[simp] theorem find?_cons_self (peer : Endpoint) (transfer : Transfer σ) (table : SessionTable σ) :
    find? ((peer, transfer) :: table) peer = some transfer := by
  rw [find?_cons, if_pos rfl]

theorem mem_of_find? (hfind : table.find? peer = some transfer) : (peer, transfer) ∈ table := by
  induction table with
  | nil => simp [find?] at hfind
  | cons entry rest ih =>
      rw [find?_cons] at hfind
      split at hfind
      next heq =>
        cases hfind
        exact heq ▸ List.mem_cons_self
      next => exact List.mem_cons_of_mem _ (ih hfind)

theorem find?_eq_some_of_mem (hunique : table.UniquePeers) (hmem : (peer, transfer) ∈ table) :
    table.find? peer = some transfer := by
  induction table with
  | nil => simp at hmem
  | cons entry rest ih =>
      obtain ⟨hfresh, hrest⟩ := List.nodup_cons.mp hunique
      rw [find?_cons]
      rcases List.mem_cons.mp hmem with rfl | hmem
      · exact if_pos rfl
      · have hne : peer ≠ entry.1 := fun heq => hfresh (heq ▸ List.mem_map_of_mem hmem)
        rw [if_neg hne]
        exact ih hrest hmem

theorem UniquePeers.cons (hunique : table.UniquePeers) (hfind : table.find? peer = none)
    (transfer : Transfer σ) : UniquePeers ((peer, transfer) :: table) := by
  refine List.nodup_cons.mpr ⟨fun hmem => ?_, hunique⟩
  obtain ⟨⟨origin, current⟩, hentry, rfl⟩ := List.mem_map.mp hmem
  rw [find?_eq_some_of_mem hunique hentry] at hfind
  cases hfind

/-! ## Updating -/

theorem update_cons (entry : Endpoint × Transfer σ) (table : SessionTable σ) (peer : Endpoint)
    (transfer : Transfer σ) :
    update (entry :: table) peer transfer =
      (entry.1, if entry.1 = peer then transfer else entry.2) :: update table peer transfer := by
  obtain ⟨key, current⟩ := entry
  rw [update, List.map_cons]
  by_cases heq : key = peer
  · simp [update, heq]
  · simp [update, heq]

@[simp] theorem map_fst_update (table : SessionTable σ) (peer : Endpoint) (transfer : Transfer σ) :
    (table.update peer transfer).map Prod.fst = table.map Prod.fst := by
  induction table with
  | nil => rfl
  | cons entry rest ih => rw [update_cons, List.map_cons, ih, List.map_cons]

theorem find?_update (table : SessionTable σ) (peer other : Endpoint) (transfer : Transfer σ) :
    (table.update peer transfer).find? other =
      if other = peer then (table.find? peer).map fun _ => transfer else table.find? other := by
  induction table with
  | nil => simp [update, find?]
  | cons entry rest ih =>
      rw [update_cons, find?_cons, find?_cons, find?_cons, ih]
      by_cases hother : other = entry.1
      · by_cases hpeer : entry.1 = peer
        · simp [hother, hpeer]
        · simp [hother, hpeer]
      · by_cases hpeer : other = peer
        · subst hpeer
          simp [hother]
        · simp [hother, hpeer]

theorem mem_update {entry : Endpoint × Transfer σ} (hmem : entry ∈ table.update peer transfer) :
    entry.1 = peer ∧ entry.2 = transfer ∨ entry.1 ≠ peer ∧ entry ∈ table := by
  obtain ⟨old, hold, rfl⟩ := List.mem_map.mp hmem
  dsimp only
  split
  next heq => exact Or.inl ⟨heq, rfl⟩
  next hne => exact Or.inr ⟨hne, hold⟩

/-! ## Erasing -/

theorem find?_erase (table : SessionTable σ) (peer other : Endpoint) :
    (table.erase peer).find? other = if other = peer then none else table.find? other := by
  induction table with
  | nil => simp [erase, find?]
  | cons entry rest ih =>
      rw [erase] at ih ⊢
      by_cases hpeer : entry.1 = peer
      · have hdropped : decide (entry.1 ≠ peer) = false := by
          simp [hpeer]
        rw [List.filter_cons_of_neg (by simp [hdropped]), ih, find?_cons]
        by_cases hother : other = peer
        · simp [hother]
        · simp [hother, hpeer]
      · rw [List.filter_cons_of_pos (by simp [hpeer]), find?_cons, find?_cons, ih]
        by_cases hother : other = entry.1
        · simp [hother, hpeer]
        · simp [hother]

theorem UniquePeers.erase (hunique : table.UniquePeers) (peer : Endpoint) :
    (table.erase peer).UniquePeers :=
  List.Nodup.sublist (List.filter_sublist.map Prod.fst) hunique

/-! ## Deadlines -/

/-- A time at which some transfer is due. -/
def Due (table : SessionTable σ) (deadline : Time) : Prop :=
  ∃ entry ∈ table, entry.2.deadline = some deadline

theorem mem_deadlines {deadline : Time} :
    deadline ∈ table.filterMap (·.2.deadline) ↔ table.Due deadline :=
  List.mem_filterMap

theorem nextDeadline_eq_some {deadline : Time} :
    table.nextDeadline = some deadline ↔ IsLeast {due | table.Due due} deadline := by
  rw [nextDeadline, List.min?_eq_some_iff, IsLeast, mem_deadlines]
  simp only [mem_deadlines]
  rfl

/-- The peers whose deadline has passed are peers of the table, in its order. -/
theorem expired_sublist (table : SessionTable σ) (now : Time) :
    (table.expired now).Sublist (table.map Prod.fst) := by
  induction table with
  | nil => exact List.Sublist.refl []
  | cons entry rest ih =>
      obtain ⟨peer, transfer⟩ := entry
      cases hdeadline : transfer.deadline with
      | none => simpa [expired, hdeadline] using ih.cons peer
      | some deadline =>
          by_cases hle : deadline ≤ now
          · simpa [expired, hdeadline, hle] using ih
          · simpa [expired, hdeadline, hle] using ih.cons peer

theorem mem_expired (hunique : table.UniquePeers) (now : Time) :
    peer ∈ table.expired now ↔
      ∃ transfer deadline, table.find? peer = some transfer ∧ transfer.deadline = some deadline ∧
        deadline ≤ now := by
  rw [expired, List.mem_filterMap]
  constructor
  · rintro ⟨⟨other, transfer⟩, hmem, hexpired⟩
    dsimp only at hexpired
    split at hexpired
    next deadline hdeadline =>
      split at hexpired
      next hle =>
        cases hexpired
        exact ⟨transfer, deadline, find?_eq_some_of_mem hunique hmem, hdeadline, hle⟩
      next => cases hexpired
    next => cases hexpired
  · rintro ⟨transfer, deadline, hfind, hdeadline, hle⟩
    exact ⟨(peer, transfer), mem_of_find? hfind, by simp [hdeadline, hle]⟩

end TftpServer.SessionTable
