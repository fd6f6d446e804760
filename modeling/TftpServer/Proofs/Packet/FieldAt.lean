import TftpServer.Packet.FieldAt
import TftpServer.Proofs.Network.View
import TftpServer.Proofs.Packet.Fields

/-! # Readers stay within the view

From any position, behind the end and the mark of a missing field included, a
reader looks at octets of its view only, and no sum or difference of positions
wraps. It finds what there is to be read. The position behind a field lies further
on and within the view, so it is never mistaken for the mark, and a round of reading
options that does not end them passes over two octets at least.
-/

namespace TftpServer

/-! ## Reading off the front -/

section ReadAt

variable {α : Type} {reader : Reader α} {source : Octets} {start next : Nat} {field : α}

theorem Reader.readAt_of_length_lt (hstart : source.length < start) :
    reader.readAt source start = none :=
  if_neg (Nat.not_le.mpr hstart)

theorem Reader.readAt_of_eq_none (hread : reader (source.drop start) = none) :
    reader.readAt source start = none := by
  rw [Reader.readAt, hread]
  split <;> rfl

theorem Reader.readAt_of_eq_some (hstart : start ≤ source.length) (hnext : next ≤ source.length)
    (hread : reader (source.drop start) = some (field, source.drop next)) :
    reader.readAt source start = some (field, next) := by
  rw [Reader.readAt, if_pos hstart, hread, Option.map_some]
  simp only [List.length_drop, Nat.sub_sub_self hnext]

end ReadAt

/-! ## Answers -/

theorem toNat_noPosition : noPosition.toNat = UInt64.size - 1 := rfl

/-- What a reader may answer beside what there is to be read: the field, with the
number of the position behind it where it should land, and not at the mark of a
missing field; or that mark, if there is no field. -/
inductive Answers {α : Type} (lands : UInt64 → Prop) (empty : α) :
    Option (α × Nat) → FieldAt α → Prop
  | missing : Answers lands empty none (.missing empty)
  | found {field : α} {position : UInt64} (hlands : lands position)
      (hmark : position ≠ noPosition) :
      Answers lands empty (some (field, position.toNat)) ⟨field, position⟩

namespace OctetView

/-- Whether a position lies behind another one and within the view. -/
def Ahead (view : OctetView) (start position : UInt64) : Prop :=
  start < position ∧ position ≤ view.length

variable {view : OctetView}

/-- The mark of a missing field is no position of a view. -/
theorem ne_noPosition {position : UInt64} (hposition : position ≤ view.length) :
    position ≠ noPosition := by
  rintro rfl
  have hlength := view.length_lt
  rw [UInt64.le_iff_toNat_le, toNat_noPosition] at hposition
  omega

section Answers

variable {α : Type} {reader : Reader α} {lands : UInt64 → Prop} {start position : UInt64}
  {empty field : α}

theorem answers_beyond (hstart : view.length < start) :
    Answers lands empty (reader.readAt view.octets start.toNat) (.missing empty) := by
  rw [Reader.readAt_of_length_lt]
  · exact .missing
  · rw [length_octets]
    exact UInt64.lt_iff_toNat_lt.mp hstart

theorem answers_missing (hread : reader (view.octets.drop start.toNat) = none) :
    Answers lands empty (reader.readAt view.octets start.toNat) (.missing empty) := by
  rw [Reader.readAt_of_eq_none hread]
  exact .missing

theorem answers_found (hstart : start ≤ view.length) (hposition : position ≤ view.length)
    (hread : reader (view.octets.drop start.toNat) =
      some (field, view.octets.drop position.toNat))
    (hlands : lands position) :
    Answers lands empty (reader.readAt view.octets start.toNat) ⟨field, position⟩ := by
  rw [UInt64.le_iff_toNat_le, ← length_octets] at hstart hposition
  rw [Reader.readAt_of_eq_some hstart hposition hread]
  rw [length_octets, ← UInt64.le_iff_toNat_le] at hposition
  exact .found hlands (ne_noPosition hposition)

end Answers

/-! ## Numbers -/

/-- A step over octets that the view has is exact and stays within the view. -/
theorem step_within (start step : UInt64)
    (hstep : start.toNat + step.toNat ≤ view.length.toNat) :
    Checked.add start step = .ok (start + step) ∧
      (start + step).toNat = start.toNat + step.toNat ∧ start + step ≤ view.length := by
  have hlength := view.length_lt
  have hword : start.toNat + step.toNat < UInt64.size := by omega
  have hnext := Checked.toNat_add hword
  refine ⟨Checked.add_eq_ok hword, hnext, ?_⟩
  rw [UInt64.le_iff_toNat_le, hnext]
  exact hstep

theorem u16At_of_room {start : UInt64} (hroom : start.toNat + 2 ≤ view.length.toNat) :
    ∃ high low, view.u16At start = .ok ⟨word high low, start + 2⟩ ∧
      view.octets.drop start.toNat = high :: low :: view.octets.drop (start.toNat + 2) := by
  obtain ⟨hadd, hsecond, _⟩ := step_within start 1 (Nat.le_of_succ_le hroom)
  obtain ⟨hskip, _, _⟩ := step_within start 2 hroom
  obtain ⟨high, hhigh, hfirst⟩ := exists_fetch (Nat.lt_of_succ_lt hroom)
  obtain ⟨low, hlow, hother⟩ := exists_fetch (hsecond.trans_lt hroom)
  rw [hsecond, UInt64.toNat_one] at hother
  have hstart : start ≤ view.length := UInt64.le_iff_toNat_le.mpr (by omega)
  have hrest : 2 ≤ view.length - start := by
    rw [UInt64.le_iff_toNat_le, UInt64.toNat_sub_of_le _ _ hstart]
    exact Nat.le_sub_of_add_le' hroom
  refine ⟨high, low, ?_, ?_⟩
  · rw [u16At, if_neg (UInt64.not_lt.mpr hstart), Checked.sub_eq_ok hstart, Checked.ok_bind,
      if_neg (UInt64.not_lt.mpr hrest), hhigh, Checked.ok_bind, hadd, Checked.ok_bind, hlow,
      Checked.ok_bind, hskip, Checked.ok_bind, Checked.pure_eq_ok]
  · rw [hfirst, hother]

theorem exists_u16At (view : OctetView) (start : UInt64) :
    ∃ found, view.u16At start = .ok found ∧
      Answers (view.Ahead start) 0 (Reader.readAt readU16 view.octets start.toNat) found := by
  by_cases hroom : start.toNat + 2 ≤ view.length.toNat
  · obtain ⟨high, low, hread, hdrop⟩ := u16At_of_room hroom
    obtain ⟨_, hnext, hwithin⟩ := step_within start 2 hroom
    have hstart : start ≤ view.length := UInt64.le_iff_toNat_le.mpr (by omega)
    have hahead : start < start + 2 := by
      rw [UInt64.lt_iff_toNat_lt, hnext]
      exact Nat.lt_add_of_pos_right (by decide)
    refine ⟨_, hread, answers_found hstart hwithin ?_ ⟨hahead, hwithin⟩⟩
    rw [hdrop, hnext]
    rfl
  · rw [u16At]
    split
    next hbeyond => exact ⟨_, rfl, answers_beyond hbeyond⟩
    next hstart =>
      have hstart := UInt64.not_lt.mp hstart
      have hshort : view.length - start < 2 := by
        rw [UInt64.lt_iff_toNat_lt, UInt64.toNat_sub_of_le _ _ hstart]
        exact Nat.sub_lt_left_of_lt_add (UInt64.le_iff_toNat_le.mp hstart) (Nat.not_le.mp hroom)
      rw [Checked.sub_eq_ok hstart, Checked.ok_bind, if_pos hshort]
      refine ⟨_, rfl, answers_missing ?_⟩
      rw [readU16_eq_none_iff, List.length_drop, length_octets]
      omega

/-! ## Texts -/

/-- An octet that is no NUL is collected, and the scan goes on behind it. -/
theorem scanText_step {position : UInt64} {octet : UInt8} (text : Array UInt8)
    (hinside : position.toNat < view.length.toNat) (hfetch : view.fetch position = .ok octet)
    (hoctet : octet ≠ 0) :
    view.scanText position text = view.scanText (position + 1) (text.push octet) := by
  have hbefore : ¬view.length ≤ position :=
    UInt64.not_le.mpr (UInt64.lt_iff_toNat_lt.mpr hinside)
  obtain ⟨hstep, _, _⟩ := step_within position 1 hinside
  rw [scanText, if_neg hbefore, hfetch]
  dsimp only
  rw [if_neg hoctet]
  split
  next trespass hadd =>
    rw [hstep] at hadd
    cases hadd
  next following hadd =>
    rw [hstep] at hadd
    cases hadd
    rfl

theorem exists_scanText (position : UInt64) (text : Array UInt8)
    (hposition : position ≤ view.length) :
    ∃ more stop, view.scanText position text = .ok ⟨text.toList ++ more, stop⟩ ∧
      position ≤ stop ∧ 0 ∉ more ∧
      (stop = view.length ∧ view.octets.drop position.toNat = more ∨
        stop < view.length ∧
          view.octets.drop position.toNat = more ++ 0 :: view.octets.drop (stop.toNat + 1)) := by
  induction position, text using scanText.induct view with
  | case1 position text hend =>
      have hwhole : position = view.length := UInt64.le_antisymm hposition hend
      refine ⟨[], position, ?_, UInt64.le_refl _, List.not_mem_nil,
        Or.inl ⟨hwhole, drop_eq_nil hend⟩⟩
      rw [scanText, if_pos hend, List.append_nil]
  | case2 position text hinside trespass hfetch =>
      -- An index below the length has an octet, so the access does not fail.
      have hbelow := UInt64.lt_iff_toNat_lt.mp (UInt64.not_le.mp hinside)
      obtain ⟨octet, hoctet, _⟩ := exists_fetch hbelow
      rw [hoctet] at hfetch
      cases hfetch
  | case3 position text hinside hfetch =>
      have hbefore := UInt64.not_le.mp hinside
      obtain ⟨octet, hoctet, hdrop⟩ := exists_fetch (UInt64.lt_iff_toNat_lt.mp hbefore)
      rw [hfetch] at hoctet
      cases hoctet
      refine ⟨[], position, ?_, UInt64.le_refl _, List.not_mem_nil, Or.inr ⟨hbefore, hdrop⟩⟩
      rw [scanText, if_neg hinside, hfetch, List.append_nil]
      rfl
  | case4 position text hinside octet hfetch hoctet trespass hadd =>
      -- The step past it does not fail either, since the length is a word.
      have hbelow := UInt64.lt_iff_toNat_lt.mp (UInt64.not_le.mp hinside)
      rw [(step_within position 1 hbelow).1] at hadd
      cases hadd
  | case5 position text hinside octet hfetch hoctet next hadd ih =>
      have hbelow := UInt64.lt_iff_toNat_lt.mp (UInt64.not_le.mp hinside)
      obtain ⟨hstep, hnext, hwithin⟩ := step_within position 1 hbelow
      rw [hstep] at hadd
      cases hadd
      obtain ⟨other, hother, hdrop⟩ := exists_fetch hbelow
      rw [hfetch] at hother
      cases hother
      obtain ⟨more, stop, hscan, hle, hnul, hstop⟩ := ih hwithin
      rw [hnext, UInt64.toNat_one] at hstop
      have hahead : position ≤ position + 1 := by
        rw [UInt64.le_iff_toNat_le, hnext]
        exact Nat.le_add_right _ _
      refine ⟨octet :: more, stop, ?_, UInt64.le_trans hahead hle, ?_, ?_⟩
      · rw [scanText_step text hbelow hfetch hoctet, hscan, Array.toList_push, List.append_assoc,
          List.singleton_append]
      · exact List.not_mem_cons_of_ne_of_not_mem (Ne.symm hoctet) hnul
      · rw [hdrop]
        rcases hstop with ⟨hend, hmore⟩ | ⟨hbefore, hmore⟩
        · exact Or.inl ⟨hend, congrArg _ hmore⟩
        · exact Or.inr ⟨hbefore, congrArg _ hmore⟩

/-- Either no NUL lies ahead, or the text up to the first one is found, and the
position behind that NUL. -/
theorem textAt_cases (view : OctetView) (start : UInt64) :
    (view.textAt start = .ok (.missing []) ∧ 0 ∉ view.octets.drop start.toNat) ∨
      ∃ text position, view.textAt start = .ok ⟨text, position⟩ ∧ view.Ahead start position ∧
        0 ∉ text ∧
        view.octets.drop start.toNat = text ++ 0 :: view.octets.drop position.toNat := by
  rw [textAt]
  split
  next hend =>
    rw [drop_eq_nil hend]
    exact Or.inl ⟨rfl, List.not_mem_nil⟩
  next hinside =>
    have hstart := UInt64.le_of_lt (UInt64.not_le.mp hinside)
    obtain ⟨text, stop, hscan, hle, hnul, hstop⟩ := exists_scanText start #[] hstart
    rw [hscan, Checked.ok_bind, List.nil_append]
    rcases hstop with ⟨hend, hdrop⟩ | ⟨hbefore, hdrop⟩
    · rw [if_pos hend]
      exact Or.inl ⟨rfl, hdrop ▸ hnul⟩
    · have hne : stop ≠ view.length := UInt64.ne_of_lt hbefore
      obtain ⟨hadd, hnext, hwithin⟩ :=
        step_within stop 1 (UInt64.lt_iff_toNat_lt.mp hbefore)
      have hahead : start < stop + 1 := by
        rw [UInt64.lt_iff_toNat_lt, hnext]
        exact Nat.lt_succ_of_le (UInt64.le_iff_toNat_le.mp hle)
      rw [if_neg hne, hadd, Checked.ok_bind]
      refine Or.inr ⟨text, stop + 1, rfl, ⟨hahead, hwithin⟩, hnul, ?_⟩
      rw [hdrop, hnext]
      rfl

theorem exists_textAt (view : OctetView) (start : UInt64) :
    ∃ found, view.textAt start = .ok found ∧
      Answers (view.Ahead start) [] (Reader.readAt readText view.octets start.toNat) found := by
  rcases textAt_cases view start with ⟨hread, hnul⟩ | ⟨text, position, hread, hahead, hnul, hdrop⟩
  · exact ⟨_, hread, answers_missing (readText_eq_none_iff.mpr hnul)⟩
  · have hstart := UInt64.le_trans (UInt64.le_of_lt hahead.1) hahead.2
    have htext := readText_eq_some_iff.mpr ⟨hdrop, hnul⟩
    exact ⟨_, hread, answers_found hstart hahead.2 htext hahead⟩

/-! ## Everything that is left -/

theorem exists_blobAt (view : OctetView) (start : UInt64) :
    ∃ found, view.blobAt start = .ok found ∧
      Answers (· = view.length) [] (Reader.readAt readBlob view.octets start.toNat) found := by
  rw [blobAt]
  split
  next hbeyond => exact ⟨.missing [], rfl, answers_beyond hbeyond⟩
  next hstart =>
    have hstart := UInt64.not_lt.mp hstart
    have hrest := UInt64.toNat_sub_of_le _ _ hstart
    have hfits : start.toNat + (view.length - start).toNat ≤ view.length.toNat := by
      rw [hrest, Nat.add_sub_of_le (UInt64.le_iff_toNat_le.mp hstart)]
    obtain ⟨part, hpart, _, hoctets⟩ := exists_part_of_le hfits
    have hwhole : part.octets = view.octets.drop start.toNat := by
      rw [hoctets, hrest, ← length_octets, ← List.length_drop, List.take_length]
    rw [Checked.sub_eq_ok hstart, Checked.ok_bind, hpart, Checked.ok_bind, copy_eq,
      Checked.ok_bind, hwhole]
    refine ⟨_, rfl, answers_found hstart (UInt64.le_refl _) ?_ rfl⟩
    rw [readBlob, ← length_octets, List.drop_length]

/-! ## Options -/

/-- What a round from a position comes to, by what there is to be read: a pair that
takes at least two octets, or the defect of what is left. -/
inductive RoundFrom (view : OctetView) (start : UInt64) : OptionRound → Prop
  | pair {option : OptionField} {next : UInt64} (hahead : start.toNat + 2 ≤ next.toNat)
      (hwithin : next ≤ view.length)
      (hread : readOptions (view.octets.drop start.toNat) =
        (option :: (readOptions (view.octets.drop next.toNat)).1,
          (readOptions (view.octets.drop next.toNat)).2)) :
      RoundFrom view start (.pair option next)
  | stop {defect : Defect}
      (hread : readOptions (view.octets.drop start.toNat) = ([], some defect)) :
      RoundFrom view start (.stop defect)

theorem exists_optionRound {start : UInt64} (hstart : start < view.length) :
    ∃ round, view.optionRound start = .ok round ∧ view.RoundFrom start round := by
  rw [optionRound]
  rcases textAt_cases view start with ⟨hread, hnul⟩ | ⟨name, middle, hread, hmiddle, hname, hdrop⟩
  · rw [hread, Checked.ok_bind, if_pos (FieldAt.position_missing _)]
    exact ⟨_, rfl, .stop (readOptions_of_nul_notMem hnul (drop_ne_nil hstart))⟩
  · rw [hread, Checked.ok_bind, if_neg (ne_noPosition hmiddle.2)]
    split
    next hend =>
      refine ⟨_, rfl, .stop ?_⟩
      rw [hdrop, drop_eq_nil hend, readOptions_name hname]
    next hbefore =>
      have hbefore := UInt64.not_le.mp hbefore
      rcases textAt_cases view middle with
        ⟨hagain, hnul⟩ | ⟨value, next, hagain, hnext, hvalue, hrest⟩
      · rw [hagain, Checked.ok_bind, if_pos (FieldAt.position_missing _)]
        refine ⟨_, rfl, .stop ?_⟩
        rw [hdrop, readOptions_name_of_nul_notMem hname hnul (drop_ne_nil hbefore)]
      · rw [hagain, Checked.ok_bind, if_neg (ne_noPosition hnext.2)]
        have hahead : start.toNat + 2 ≤ next.toNat :=
          Nat.lt_of_le_of_lt (UInt64.lt_iff_toNat_lt.mp hmiddle.1)
            (UInt64.lt_iff_toNat_lt.mp hnext.1)
        refine ⟨_, rfl, .pair hahead hnext.2 ?_⟩
        rw [hdrop, hrest, readOptions_pair hname hvalue]

theorem readOptionsAt_end {start : UInt64} (hend : view.length ≤ start)
    (known : List OptionField) :
    readOptionsAt view.octets start.toNat known = (known, none) := by
  rw [readOptionsAt, drop_eq_nil hend]
  exact Prod.ext (List.append_nil known) rfl

/-- One round for two octets that remain is enough to read all options there are, of
which there is at most one for two octets. -/
theorem optionsWithin_eq (view : OctetView) (rounds : Nat) (start : UInt64)
    (known : List OptionField) (hrounds : view.length.toNat - start.toNat ≤ 2 * rounds) :
    view.optionsWithin rounds start known =
        .ok (some (readOptionsAt view.octets start.toNat known)) ∧
      2 * (readOptions (view.octets.drop start.toNat)).1.length ≤
        view.length.toNat - start.toNat := by
  -- Each round that is used up takes two octets off what remains.
  induction rounds generalizing start known with
  | zero =>
      have hend : view.length ≤ start := by
        rw [UInt64.le_iff_toNat_le]
        omega
      rw [readOptionsAt_end hend, optionsWithin, if_pos hend, drop_eq_nil hend]
      exact ⟨rfl, Nat.zero_le _⟩
  | succ rounds ih =>
      rw [optionsWithin]
      split
      next hend =>
        rw [readOptionsAt_end hend, drop_eq_nil hend]
        exact ⟨rfl, Nat.zero_le _⟩
      next hinside =>
        obtain ⟨round, hround, hfrom⟩ := exists_optionRound (UInt64.not_le.mp hinside)
        rw [hround, Checked.ok_bind]
        cases hfrom with
        | @pair option next hahead hwithin hread =>
            have hnext := UInt64.le_iff_toNat_le.mp hwithin
            obtain ⟨hrun, hcount⟩ := ih next (known ++ [option]) (by omega)
            have hlonger : readOptionsAt view.octets next.toNat (known ++ [option]) =
                readOptionsAt view.octets start.toNat known := by
              rw [readOptionsAt, readOptionsAt, hread]
              exact Prod.ext (List.append_assoc _ _ _) rfl
            rw [hread, List.length_cons]
            exact ⟨hlonger ▸ hrun, by omega⟩
        | @stop defect hread =>
            have hstopped : readOptionsAt view.octets start.toNat known = (known, some defect) := by
              rw [readOptionsAt, hread]
              exact Prod.ext (List.append_nil known) rfl
            rw [hstopped, hread]
            exact ⟨rfl, Nat.zero_le _⟩

/-- From any position, the mark of a missing field included, every reader comes to an
answer: it looks at no octet that the view does not show, and none of its sums and
differences wraps. A number or a text is found with a position further on and within
the view, everything that is left with the length of the view, and what is not there
is told by the mark, with which nothing is ever found. A part has indices of the view
only. Reading options comes to its end within one round for two octets that remain,
where a single octet at the end counts like two, and adds at most one pair for two
octets. -/
theorem readers_stay_in_view (view : OctetView) (start : UInt64) :
    (∃ found, view.u16At start = .ok found ∧
      Answers (view.Ahead start) 0 (Reader.readAt readU16 view.octets start.toNat) found) ∧
    (∃ found, view.textAt start = .ok found ∧
      Answers (view.Ahead start) [] (Reader.readAt readText view.octets start.toNat) found) ∧
    (∃ found, view.blobAt start = .ok found ∧
      Answers (· = view.length) [] (Reader.readAt readBlob view.octets start.toNat) found) ∧
    (∀ length, ∃ part, view.part start length = .ok part ∧ part.LiesIn view start ∧
      part.octets = subView view.octets start.toNat length.toNat) ∧
    ∀ known, ∃ options defect,
      readOptionsAt view.octets start.toNat known = (known ++ options, defect) ∧
      view.optionsWithin ((view.length.toNat - start.toNat + 1) / 2) start known =
        .ok (some (known ++ options, defect)) ∧
      2 * options.length ≤ view.length.toNat - start.toNat := by
  refine ⟨exists_u16At view start, exists_textAt view start, exists_blobAt view start,
    exists_part view start, fun known => ?_⟩
  have hrounds : view.length.toNat - start.toNat ≤
      2 * ((view.length.toNat - start.toNat + 1) / 2) := by omega
  obtain ⟨hrun, hcount⟩ := optionsWithin_eq view _ start known hrounds
  exact ⟨_, _, rfl, hrun, hcount⟩

end OctetView

end TftpServer
