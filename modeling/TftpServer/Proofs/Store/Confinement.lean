import Mathlib.Data.List.TakeWhile
import TftpServer.Proofs.Path.Resolution
import TftpServer.Proofs.Store.Alike
import TftpServer.Store.File

/-! # Confinement to the serving root

The path of a requested name leads down from the serving root and never up
again. So a store of files answers alike in two trees that look alike from the
root on, and so does every stream that it opened there: whatever lies elsewhere
is neither read nor missed.
-/

namespace TftpServer

/-! ## Paths that lead down -/

namespace Path

/-- Components none of which leads up. -/
def Downward (names : List Octets) : Prop :=
  ∀ name ∈ names, isUp name = false

/-- A path that leads down from the root. It does not end before the root is
passed, as it would at a NUL. -/
def Below (root path : Octets) : Prop :=
  ∃ relative, path = append root relative ∧ Downward (components relative) ∧ 0 ∉ relative

theorem mem_normalText {kept : List Octets} {directory : Bool} {octet : UInt8}
    (hoctet : octet ∈ normalText kept directory) :
    octet ∈ ascii "." ∨ octet = slash ∨ ∃ name ∈ kept, octet ∈ name := by
  cases kept with
  | nil => exact Or.inl hoctet
  | cons first rest =>
      refine Or.inr ?_
      rcases List.mem_append.mp hoctet with hoctet | hoctet
      · exact Text.mem_joinWith hoctet
      · cases directory with
        | false => cases hoctet
        | true => exact Or.inl (List.mem_singleton.mp hoctet)

/-- Whatever is asked for, its path leads down from the root. -/
theorem below_of_resolveBelow {root requested path : Octets} (hrequested : 0 ∉ requested)
    (hpath : resolveBelow root requested = some path) : Below root path := by
  have hsublist := List.dropWhile_sublist (· == slash) (l := requested)
  obtain ⟨rest, hrest⟩ := exists_residue (steps (requested.dropWhile (· == slash)))
  rw [resolveBelow_eq root requested hrest] at hpath
  generalize requested.dropWhile (· == slash) = name at hsublist hpath hrest
  split at hpath
  next => cases hpath
  next hkept =>
    cases hpath
    have hcomponent : ∀ component ∈ rest, component ∈ components name := fun component hmem =>
      (List.mem_filter.mp (hrest.sublist.subset hmem)).1
    have hwhole : ∀ component ∈ rest, slash ∉ component := fun component hmem =>
      Text.notMem_of_mem_splitOn (hcomponent component hmem)
    obtain ⟨stay, hcomponents, hstay⟩ := components_normalText (endsInDirectory name) hwhole
    refine ⟨_, rfl, fun component hmem => ?_, fun hnul => ?_⟩
    · rw [hcomponents] at hmem
      rcases List.mem_append.mp hmem with hmem | hmem
      · rw [← Bool.not_eq_true, isUp_iff]
        rintro rfl
        exact hkept (Or.inr hmem)
      · exact isUp_eq_false_of_isHere (hstay component hmem)
    · rcases mem_normalText hnul with hdot | hslash | ⟨other, hother, hnul⟩
      · exact absurd hdot (by decide)
      · exact absurd hslash (by decide)
      · exact hrequested (hsublist.subset (Text.mem_of_mem_splitOn (hcomponent other hother) hnul))

end Path

/-! ## Trees seen from the root -/

namespace FileTree

/-- The entry at the serving root. Other than the path of a file, that of the root
may be empty or long. -/
def entryAt (tree : FileTree) (root : Octets) : Option FileTree :=
  walk [] tree (Path.components (root.takeWhile (· != 0)))

/-- What there is to read at an entry: nothing if it is a directory. -/
def content? : FileTree → Option Content
  | .file content => some content
  | .directory _ => none

/-- Two entries, or places without one, that cannot be told apart by walking down
from them: the same names are there, and lead to directories or to files of the
same content. -/
def LookAlike (first second : Option FileTree) : Prop :=
  ∀ names, Path.Downward names →
    (first.bind (walk [] · names)).map content? = (second.bind (walk [] · names)).map content?

variable {names : List Octets}

/-- On the way down it does not matter what lies above. -/
theorem walk_downward (hnames : Path.Downward names) (above : List FileTree) (here : FileTree) :
    walk above here names = walk [] here names := by
  induction names generalizing above here with
  | nil => rfl
  | cons name rest ih =>
      have hrest := ih fun other hother => hnames other (List.mem_cons_of_mem _ hother)
      have hname := hnames name List.mem_cons_self
      cases here with
      | file content => rfl
      | directory children =>
          simp only [walk, hname, Bool.false_eq_true, if_false, hrest]

theorem walk_append (above : List FileTree) (here : FileTree) (before : List Octets)
    (hnames : Path.Downward names) :
    walk above here (before ++ names) = (walk above here before).bind (walk [] · names) := by
  induction before generalizing above here with
  | nil => exact walk_downward hnames above here
  | cons name rest ih =>
      cases here with
      | file content => rfl
      | directory children =>
          simp only [List.cons_append, walk]
          split
          · exact ih _ _
          · split
            · cases above with
              | nil => exact ih _ _
              | cons parent outer => exact ih _ _
            · cases children.lookup name with
              | none => rfl
              | some child => exact ih _ _

/-- An empty component stays where it is, unless that is a file; and from a file
nothing leads on. -/
theorem walk_stay (hnames : names ≠ []) (here : FileTree) :
    (walk [] here [[]]).bind (walk [] · names) = walk [] here names := by
  obtain ⟨name, rest, rfl⟩ := List.exists_cons_of_ne_nil hnames
  cases here with
  | file content => rfl
  | directory children => rfl

theorem walk_components_append (tree : FileTree) (root : Octets) {relative : Octets}
    (hrelative : Path.Downward (Path.components relative)) :
    walk [] tree (Path.components (Path.append root relative)) =
      (walk [] tree (Path.components root)).bind (walk [] · (Path.components relative)) := by
  have hne : Path.components relative ≠ [] := Text.splitOn_ne_nil _ _
  unfold Path.append
  split
  next hroot =>
    rcases hroot with rfl | hlast
    · exact (walk_stay hne tree).symm
    · obtain ⟨start, rfl⟩ := List.getLast?_eq_some_iff.mp hlast
      have hstart (rest : Octets) : Path.components (start ++ Path.slash :: rest) =
          Path.components start ++ Path.components rest :=
        Text.splitOn_append_separator _ _ _
      have hempty : Path.Downward (Path.components []) := fun name hname => by
        rw [List.mem_singleton.mp hname]
        decide
      rw [List.append_assoc, List.singleton_append, hstart, hstart, walk_append [] tree _ hrelative,
        walk_append [] tree _ hempty, Option.bind_assoc]
      exact congrArg _ (funext fun here => (walk_stay hne here).symm)
  next =>
    rw [Path.components, Text.splitOn_append_separator]
    exact walk_append [] tree _ hrelative

/-- Below roots that look alike, every path leads to the same. -/
theorem LookAlike.find? {first second : FileTree} {root path : Octets}
    (halike : LookAlike (first.entryAt root) (second.entryAt root)) (hpath : Path.Below root path) :
    (first.find? path).map content? = (second.find? path).map content? := by
  obtain ⟨relative, rfl, hdown, hnul⟩ := hpath
  unfold FileTree.find? route
  dsimp only
  split
  · rfl
  · by_cases hroot : 0 ∈ root
    · -- The path ends within the root, so it leads to the root itself.
      have htext : (Path.append root relative).takeWhile (· != 0) = root.takeWhile (· != 0) := by
        obtain ⟨rest, hrest⟩ := Path.prefix_append root relative
        rw [← hrest, List.takeWhile_append, if_neg]
        intro hlength
        have hwhole := (List.takeWhile_prefix (· != (0 : UInt8))).eq_of_length hlength
        exact absurd (List.takeWhile_eq_self_iff.mp hwhole 0 hroot) (by decide)
      have hentry := halike [] fun name hname => nomatch hname
      simp only [htext, Option.bind_some]
      simpa only [walk, Option.bind_fun_some, entryAt] using hentry
    · have hwhole {text : Octets} (htext : 0 ∉ text) : text.takeWhile (· != 0) = text :=
        List.takeWhile_eq_self_iff.mpr fun octet hoctet =>
          bne_iff_ne.mpr fun heq => htext (heq ▸ hoctet)
      have hjoined : 0 ∉ Path.append root relative := by
        unfold Path.append
        split <;> simp [hroot, hnul, Path.slash]
      have hentry := halike _ hdown
      rw [entryAt, entryAt, hwhole hroot] at hentry
      rw [hwhole hjoined, Option.bind_some, Option.bind_some,
        walk_components_append first root hdown, walk_components_append second root hdown]
      exact hentry

end FileTree

/-! ## Files below the root -/

variable {first second : FileTree} {root : Octets}

/-- What is found at a path: nothing, a directory, or a file of some content. -/
theorem FileTree.find?_cases {path : Octets}
    (hfound : (first.find? path).map content? = (second.find? path).map content?) :
    (first.find? path = none ∧ second.find? path = none) ∨
      (∃ children others, first.find? path = some (.directory children) ∧
        second.find? path = some (.directory others)) ∨
      ∃ content, first.find? path = some (.file content) ∧
        second.find? path = some (.file content) := by
  rcases hfirst : first.find? path with _ | ⟨content⟩ | ⟨children⟩ <;>
    rcases hsecond : second.find? path with _ | ⟨other⟩ | ⟨others⟩ <;>
      simp_all [content?]

theorem FileSource.answer_path (source : FileSource) (offset count : UInt64) (tree : FileTree) :
    (source.answer offset count tree).2.path = source.path := by
  unfold answer
  split
  · rfl
  · dsimp only
    split <;> rfl

theorem FileSource.reading_alike
    (halike : FileTree.LookAlike (first.entryAt root) (second.entryAt root)) :
    FileSource.reading.Alike (fun source => Path.Below root source.path) first second where
  read source offset count hbelow := by
    have hcontent : source.content first = source.content second := by
      unfold FileSource.content
      rcases FileTree.find?_cases (halike.find? hbelow) with
        ⟨hfirst, hsecond⟩ | ⟨children, others, hfirst, hsecond⟩ | ⟨content, hfirst, hsecond⟩ <;>
      rw [hfirst, hsecond]
    have hanswer : source.answer offset count first = source.answer offset count second := by
      simp only [FileSource.answer, FileSource.content_seek, hcontent]
    refine ⟨(source.answer offset count first).1, (source.answer offset count first).2, ?_, rfl,
      by rw [hanswer]; rfl⟩
    rw [FileSource.answer_path]
    exact hbelow
  length _ _ := rfl

/-- In trees that look alike from the root on, the files below it are served
alike. -/
theorem fileStore_alike (halike : FileTree.LookAlike (first.entryAt root) (second.entryAt root)) :
    (fileStore root).Alike (Delivery.Trusted fun source => Path.Below root source.path)
      first second where
  reading := Delivery.reading_alike (FileSource.reading_alike halike)
  opening name mode hname := by
    suffices hopen : openFile root name mode first = openFile root name mode second ∧
        ∀ source, (openFile root name mode first).stream = some source →
          source.Trusted fun source => Path.Below root source.path from
      ⟨_, hopen.2, rfl, by simp only [fileStore, hopen.1]⟩
    unfold openFile
    split
    · exact ⟨rfl, fun source hsource => nomatch hsource⟩
    · split
      · exact ⟨rfl, fun source hsource => nomatch hsource⟩
      next path hpath =>
        have hbelow := Path.below_of_resolveBelow hname hpath
        rcases FileTree.find?_cases (halike.find? hbelow) with
          ⟨hfirst, hsecond⟩ | ⟨children, others, hfirst, hsecond⟩ | ⟨content, hfirst, hsecond⟩
        · rw [hfirst, hsecond]
          exact ⟨rfl, fun source hsource => nomatch hsource⟩
        · rw [hfirst, hsecond]
          exact ⟨rfl, fun source hsource => nomatch hsource⟩
        · rw [hfirst, hsecond]
          refine ⟨rfl, fun source hsource => ?_⟩
          cases hsource
          exact Delivery.trusted_ofMode mode hbelow

end TftpServer
