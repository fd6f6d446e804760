import Mathlib.Logic.Relation
import TftpServer.Path
import TftpServer.Proofs.Text.Split

/-! # Where requested names lead

A requested name is a walk along its components. It is refused exactly if the walk
leaves the root at some point. Else every double dot has a component before it that
it can be cancelled with, and what is left when all of them are gone lies below the
root, component by component.
-/

namespace TftpServer.Path

/-! ## Walks -/

/-- The components of a path that lead somewhere, up or down. -/
def steps (path : Octets) : List Octets :=
  (components path).filter fun component => !isHere component

/-- How far below its start a walk ends. -/
def depth : List Octets → Int
  | [] => 0
  | step :: rest => (if isUp step then -1 else 1) + depth rest

/-- A double dot goes away together with the component before it. -/
inductive Cancels : List Octets → List Octets → Prop where
  | intro (before : List Octets) (name : Octets) (after : List Octets) (hname : isUp name = false) :
      Cancels (before ++ name :: ascii ".." :: after) (before ++ after)

/-- What is left of a walk when nothing more can be cancelled. -/
structure Residue (walk rest : List Octets) : Prop where
  cancelled : Relation.ReflTransGen Cancels walk rest
  final : ∀ next, ¬ Cancels rest next

theorem isUp_iff {name : Octets} : isUp name = true ↔ name = ascii ".." :=
  beq_iff_eq

theorem isUp_eq_false_of_isHere {name : Octets} (hhere : isHere name = true) :
    isUp name = false := by
  rcases Bool.or_eq_true_iff.mp hhere with hempty | hdot
  · rw [beq_iff_eq.mp hempty]
    decide
  · rw [beq_iff_eq.mp hdot]
    decide

theorem isHere_eq_false_of_mem_steps {path name : Octets} (hname : name ∈ steps path) :
    isHere name = false := by
  simpa using (List.mem_filter.mp hname).2

theorem slash_notMem_of_mem_steps {path name : Octets} (hname : name ∈ steps path) :
    slash ∉ name :=
  Text.notMem_of_mem_splitOn (List.mem_filter.mp hname).1

/-! ## Cancelling -/

section Residues

variable {walk rest next : List Octets}

theorem Cancels.sublist (hcancels : Cancels walk next) : next.Sublist walk := by
  obtain ⟨before, name, after, _⟩ := hcancels
  exact (List.Sublist.refl before).append (((List.Sublist.refl after).cons _).cons name)

theorem Cancels.up_mem (hcancels : Cancels walk next) : ascii ".." ∈ walk := by
  obtain ⟨before, name, after, _⟩ := hcancels
  simp

theorem Cancels.length_lt (hcancels : Cancels walk next) : next.length < walk.length := by
  obtain ⟨before, name, after, _⟩ := hcancels
  simp only [List.length_append, List.length_cons]
  omega

theorem Residue.sublist (hrest : Residue walk rest) : rest.Sublist walk := by
  have hcancelled := hrest.cancelled
  clear hrest
  induction hcancelled with
  | refl => exact List.Sublist.refl walk
  | tail _ hstep ih => exact hstep.sublist.trans ih

/-- Cancelling comes to an end, since each time the walk gets shorter. -/
theorem exists_residue (walk : List Octets) : ∃ rest, Residue walk rest := by
  induction hlength : walk.length using Nat.strongRecOn generalizing walk with
  | ind length ih =>
    by_cases hstep : ∃ next, Cancels walk next
    · obtain ⟨next, hnext⟩ := hstep
      obtain ⟨rest, hcancelled, hfinal⟩ := ih next.length (hlength ▸ hnext.length_lt) next rfl
      exact ⟨rest, .head hnext hcancelled, hfinal⟩
    · exact ⟨walk, .refl, not_exists.mp hstep⟩

/-- A double dot that is left has nothing before it but others. So there is none
behind a component that leads down. -/
theorem Residue.isUp_eq_false (hrest : Residue walk rest)
    (hfirst : rest.head? ≠ some (ascii "..")) : ∀ name ∈ rest, isUp name = false := by
  have hfinal := hrest.final
  clear hrest
  induction rest with
  | nil => exact fun _ hname => nomatch hname
  | cons first others ih =>
      have hdown : isUp first = false := by
        rw [← Bool.not_eq_true, isUp_iff]
        rintro rfl
        exact hfirst rfl
      have hothers : ∀ name ∈ others, isUp name = false := by
        apply ih
        · intro hsecond
          obtain ⟨after, rfl⟩ := List.head?_eq_some_iff.mp hsecond
          exact hfinal _ (.intro [] first after hdown)
        · rintro _ ⟨before, name, after, hname⟩
          exact hfinal _ (.intro (first :: before) name after hname)
      intro name hname
      rcases List.mem_cons.mp hname with rfl | hname
      · exact hdown
      · exact hothers name hname

end Residues

/-! ## Settling a walk -/

section Settle

variable {kept walk next rest : List Octets}

/-- Components that stay where they are make no difference. -/
theorem settle_filter (kept names : List Octets) :
    settle kept (names.filter fun name => !isHere name) = settle kept names := by
  induction names generalizing kept with
  | nil => rfl
  | cons name others ih =>
      rw [List.filter_cons]
      by_cases hhere : isHere name = true
      · simp only [hhere, Bool.not_true, Bool.false_eq_true, if_false, settle, if_true, ih]
      · simp only [hhere, Bool.not_false, if_true, settle, Bool.false_eq_true, if_false, ih]

theorem settle_up (kept others : List Octets) :
    settle kept (ascii ".." :: others) =
      match kept with
      | [] => none
      | _ :: outer => settle outer others := by
  have hhere : isHere (ascii "..") = false := by decide
  have hup : isUp (ascii "..") = true := by decide
  cases kept <;> simp only [settle, hhere, hup, Bool.false_eq_true, if_false, if_true]

theorem settle_down {name : Octets} (hhere : isHere name = false) (hup : isUp name = false)
    (kept others : List Octets) : settle kept (name :: others) = settle (name :: kept) others := by
  simp only [settle, hhere, hup, Bool.false_eq_true, if_false]

theorem settle_append (kept before after : List Octets) :
    settle kept (before ++ after) =
      (settle kept before).bind fun reached => settle reached.reverse after := by
  induction before generalizing kept with
  | nil => simp [settle]
  | cons name others ih =>
      simp only [List.cons_append, settle]
      split
      · exact ih kept
      · split
        · cases kept with
          | nil => rfl
          | cons inner outer => exact ih outer
        · exact ih (name :: kept)

/-- Cancelling makes no difference to where a walk ends. -/
theorem settle_cancels (hwalk : ∀ step ∈ walk, isHere step = false) (hcancels : Cancels walk next) :
    settle kept walk = settle kept next := by
  obtain ⟨before, name, after, hname⟩ := hcancels
  have hhere : isHere name = false := hwalk name (by simp)
  rw [settle_append, settle_append]
  congr 1
  funext reached
  rw [settle_down hhere hname, settle_up]

theorem Residue.settle_eq (hwalk : ∀ step ∈ walk, isHere step = false) (hrest : Residue walk rest) :
    settle kept walk = settle kept rest := by
  have hcancelled := hrest.cancelled
  clear hrest
  induction hcancelled using Relation.ReflTransGen.head_induction_on with
  | refl => rfl
  | head hstep _ ih =>
      rw [settle_cancels hwalk hstep]
      exact ih fun step hmem => hwalk step (hstep.sublist.subset hmem)

/-- A walk that only leads down is kept as it is. -/
theorem settle_of_downward (hhere : ∀ step ∈ walk, isHere step = false)
    (hup : ∀ step ∈ walk, isUp step = false) : settle kept walk = some (kept.reverse ++ walk) := by
  induction walk generalizing kept with
  | nil => simp [settle]
  | cons first others ih =>
      rw [settle_down (hhere first List.mem_cons_self) (hup first List.mem_cons_self),
        ih (fun step hmem => hhere step (List.mem_cons_of_mem _ hmem))
          (fun step hmem => hup step (List.mem_cons_of_mem _ hmem))]
      simp

/-- A walk ends at what is left of it, unless that starts by going up. -/
theorem settle_residue (hwalk : ∀ step ∈ walk, isHere step = false) (hrest : Residue walk rest) :
    settle [] walk = if ascii ".." ∈ rest then none else some rest := by
  rw [hrest.settle_eq hwalk]
  by_cases hfirst : rest.head? = some (ascii "..")
  · obtain ⟨others, rfl⟩ := List.head?_eq_some_iff.mp hfirst
    rw [settle_up, if_pos List.mem_cons_self]
  · have hdown := hrest.isUp_eq_false hfirst
    have hnone : ascii ".." ∉ rest := fun hmem => absurd (hdown _ hmem) (by decide)
    rw [if_neg hnone,
      settle_of_downward (fun step hmem => hwalk step (hrest.sublist.subset hmem)) hdown]
    rfl

/-- A walk is lost exactly if at some point it is above its start, as far below that
as it may begin. -/
theorem settle_eq_none_iff (hwalk : ∀ step ∈ walk, isHere step = false) :
    settle kept walk = none ↔ ∃ start, start <+: walk ∧ kept.length + depth start < 0 := by
  have hnever (kept : List Octets) : ¬ (kept.length + depth [] < 0) := by
    simp only [depth]
    omega
  induction walk generalizing kept with
  | nil => simp [settle, hnever]
  | cons first others ih =>
      have hothers : ∀ step ∈ others, isHere step = false := fun step hmem =>
        hwalk step (List.mem_cons_of_mem _ hmem)
      have hfirst : (∃ start, start <+: first :: others ∧ kept.length + depth start < 0) ↔
          ∃ start, start <+: others ∧ kept.length + depth (first :: start) < 0 := by
        simp only [List.prefix_cons_iff, or_and_right, exists_or, exists_eq_left, hnever, false_or]
        constructor
        · rintro ⟨_, ⟨start, rfl, hstart⟩, hdepth⟩
          exact ⟨start, hstart, hdepth⟩
        · rintro ⟨start, hstart, hdepth⟩
          exact ⟨_, ⟨start, rfl, hstart⟩, hdepth⟩
      rw [hfirst]
      by_cases hup : isUp first = true
      · obtain rfl := isUp_iff.mp hup
        rw [settle_up]
        cases kept with
        | nil =>
            simp only [true_iff]
            exact ⟨[], List.nil_prefix, by simp [depth, hup]⟩
        | cons inner outer =>
            refine (ih hothers).trans (exists_congr fun start => and_congr_right fun _ => ?_)
            simp only [depth, hup, if_true, List.length_cons]
            omega
      · rw [settle_down (hwalk first List.mem_cons_self) (Bool.eq_false_iff.mpr hup)]
        refine (ih hothers).trans (exists_congr fun start => and_congr_right fun _ => ?_)
        simp only [depth, hup, Bool.false_eq_true, if_false, List.length_cons]
        omega

end Settle

/-! ## Paths as text -/

theorem components_append_slash (before after : Octets) :
    components (before ++ slash :: after) = components before ++ components after :=
  Text.splitOn_append_separator slash before after

/-- The normal form of components without slashes has these components again, up
to one at the end that stays where it is. -/
theorem components_normalText {kept : List Octets} (directory : Bool)
    (hkept : ∀ name ∈ kept, slash ∉ name) :
    ∃ stay, components (normalText kept directory) = kept ++ stay ∧
      ∀ name ∈ stay, isHere name = true := by
  cases kept with
  | nil =>
      refine ⟨[ascii "."], by cases directory <;> decide, fun name hname => ?_⟩
      rw [List.mem_singleton.mp hname]
      decide
  | cons first others =>
      have hjoined : components (Text.joinWith slash (first :: others)) = first :: others :=
        Text.splitOn_joinWith (List.cons_ne_nil first others) hkept
      cases directory with
      | false =>
          refine ⟨[], ?_, fun _ hname => nomatch hname⟩
          simp only [normalText, Bool.false_eq_true, if_false, List.append_nil, hjoined]
      | true =>
          refine ⟨[[]], ?_, fun name hname => ?_⟩
          · simp only [normalText, if_true, components_append_slash, hjoined]
            rfl
          · rw [List.mem_singleton.mp hname]
            decide

theorem steps_normalText {kept : List Octets} (directory : Bool)
    (hkept : ∀ name ∈ kept, slash ∉ name) (hsteps : ∀ name ∈ kept, isHere name = false) :
    steps (normalText kept directory) = kept := by
  obtain ⟨stay, hcomponents, hstay⟩ := components_normalText directory hkept
  rw [steps, hcomponents, List.filter_append, List.filter_eq_self.mpr, List.filter_eq_nil_iff.mpr,
    List.append_nil]
  · simpa using hstay
  · simpa using hsteps

/-- A relative path does not start at the top. -/
theorem normalText_head? {kept : List Octets} (directory : Bool)
    (hkept : ∀ name ∈ kept, slash ∉ name) (hsteps : ∀ name ∈ kept, isHere name = false) :
    (normalText kept directory).head? ≠ some slash := by
  cases kept with
  | nil => exact fun hdot => absurd hdot (by decide : (ascii ".").head? ≠ some slash)
  | cons first others =>
      obtain ⟨octet, rest, rfl⟩ : ∃ octet rest, first = octet :: rest := by
        refine List.exists_cons_of_ne_nil ?_
        rintro rfl
        exact absurd (hsteps [] List.mem_cons_self) (by decide)
      have hoctet : octet ≠ slash := by
        rintro rfl
        exact hkept _ List.mem_cons_self List.mem_cons_self
      cases others <;> simpa [normalText, Text.joinWith] using hoctet

theorem steps_append (root relative : Octets) :
    steps (append root relative) = steps root ++ steps relative := by
  unfold append steps
  split
  next hroot =>
    rcases hroot with rfl | hlast
    · rfl
    · obtain ⟨start, rfl⟩ := List.getLast?_eq_some_iff.mp hlast
      have hempty : (components []).filter (fun component => !isHere component) = [] := by decide
      rw [List.append_assoc, List.singleton_append, components_append_slash,
        components_append_slash, List.filter_append, List.filter_append, hempty, List.append_nil]
  next => rw [components_append_slash, List.filter_append]

theorem prefix_append (root relative : Octets) : root <+: append root relative := by
  unfold append
  split <;> exact List.prefix_append _ _

/-! ## Requested names -/

variable {root requested path : Octets} {rest : List Octets}

/-- Any residue of the walk decides. -/
theorem resolveBelow_eq (root requested : Octets)
    (hrest : Residue (steps (requested.dropWhile (· == slash))) rest) :
    resolveBelow root requested =
      if requested.dropWhile (· == slash) = [] ∨ ascii ".." ∈ rest then none
      else some (append root
        (normalText rest (endsInDirectory (requested.dropWhile (· == slash))))) := by
  have hsettle : settle [] (components (requested.dropWhile (· == slash))) =
      if ascii ".." ∈ rest then none else some rest := by
    rw [← settle_filter]
    exact settle_residue (fun _ hmem => isHere_eq_false_of_mem_steps hmem) hrest
  unfold resolveBelow
  split
  next hempty => rw [if_pos (Or.inl hempty)]
  next hname =>
    rw [hsettle]
    by_cases hup : ascii ".." ∈ rest
    · rw [if_pos hup, if_pos (Or.inr hup)]
      rfl
    · rw [if_neg hup, if_neg (not_or.mpr ⟨hname, hup⟩)]
      rfl

theorem resolveBelow_eq_none_iff :
    resolveBelow root requested = none ↔
      requested.dropWhile (· == slash) = [] ∨
        ∃ start, start <+: steps (requested.dropWhile (· == slash)) ∧ depth start < 0 := by
  unfold resolveBelow
  split
  next hempty => simp [hempty]
  next hname =>
    rw [Option.map_eq_none_iff, ← settle_filter, ← steps,
      settle_eq_none_iff fun _ hmem => isHere_eq_false_of_mem_steps hmem, or_iff_right hname]
    simp

theorem filter_isUp_steps (path : Octets) :
    (steps path).filter isUp = (components path).filter isUp := by
  rw [steps, List.filter_filter]
  refine List.filter_congr fun name _ => ?_
  cases hhere : isHere name with
  | false => simp
  | true => simp [isUp_eq_false_of_isHere hhere]

/-- A requested name is refused exactly if it is empty or its walk leaves the root at
some point. Else its path is that of the root, followed by what is left of the walk,
and up to components that stay where they are it has nothing else. -/
theorem resolveBelow_exact (root requested : Octets) :
    let name := requested.dropWhile (· == slash)
    (resolveBelow root requested = none ↔
        name = [] ∨ ∃ start, start <+: steps name ∧ depth start < 0) ∧
      (∃ rest, Residue (steps name) rest) ∧
      ∀ path rest, resolveBelow root requested = some path → Residue (steps name) rest →
        let relative := normalText rest (endsInDirectory name)
        path = append root relative ∧ relative.head? ≠ some slash ∧ root <+: path ∧
          steps path = steps root ++ rest ∧
          (components path).filter isUp = (components root).filter isUp := by
  intro name
  refine ⟨resolveBelow_eq_none_iff, exists_residue _, fun path rest hpath hrest => ?_⟩
  rw [resolveBelow_eq root requested hrest] at hpath
  split at hpath
  next => cases hpath
  next hkept =>
    obtain rfl := Option.some.inj hpath
    have hdown : rest.filter isUp = [] := by
      rw [List.filter_eq_nil_iff]
      intro step hmem hup
      exact hkept (Or.inr (isUp_iff.mp hup ▸ hmem))
    have hmem : ∀ step ∈ rest, step ∈ steps name := fun step hstep =>
      hrest.sublist.subset hstep
    have hwhole : ∀ step ∈ rest, slash ∉ step := fun step hstep =>
      slash_notMem_of_mem_steps (hmem step hstep)
    have hhere : ∀ step ∈ rest, isHere step = false := fun step hstep =>
      isHere_eq_false_of_mem_steps (hmem step hstep)
    have hsteps : steps (append root (normalText rest (endsInDirectory name))) =
        steps root ++ rest := by
      rw [steps_append, steps_normalText _ hwhole hhere]
    refine ⟨rfl, normalText_head? _ hwhole hhere, prefix_append root _, hsteps, ?_⟩
    rw [← filter_isUp_steps, ← filter_isUp_steps, hsteps, List.filter_append, hdown,
      List.append_nil]

/-- Leading slashes, single dots and empty components make no difference, the double
dot takes back the component before it, and the slash at the end is kept. -/
theorem resolveBelow_exact_past_every_form :
    let path := ascii "/srv/a/c/"
    resolveBelow (ascii "/srv") (ascii "//a/./b/..//c/") = some path ∧
      ascii "/srv" <+: path ∧ steps path = [ascii "srv", ascii "a", ascii "c"] := by
  have hpath : resolveBelow (ascii "/srv") (ascii "//a/./b/..//c/") =
      some (ascii "/srv/a/c/") := by decide
  have hcancels : Cancels (steps (ascii "a/./b/..//c/")) [ascii "a", ascii "c"] :=
    .intro [ascii "a"] (ascii "b") [ascii "c"] (by decide)
  have hrest : Residue (steps (ascii "a/./b/..//c/")) [ascii "a", ascii "c"] := by
    exact ⟨.single hcancels, fun _ hnext => absurd hnext.up_mem (by decide)⟩
  obtain ⟨-, -, hexact⟩ := resolveBelow_exact (ascii "/srv") (ascii "//a/./b/..//c/")
  obtain ⟨-, -, hprefix, hsteps, -⟩ := hexact _ _ hpath hrest
  exact ⟨hpath, hprefix, hsteps⟩

end TftpServer.Path
