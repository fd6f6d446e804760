import Mathlib.Data.List.Basic
import TftpServer.Proofs.Packet.Readback

/-! # What the field readers accept

A number is two octets, a text reaches up to the first NUL, and options are pairs
of texts up to the end. The octets that a reader takes are the wire form of the
field that it gives. Whether there is such a field shows in how many octets there
are, how many of them are NUL, and whether the last one is.
-/

namespace TftpServer

/-- The wire form of options: each name and each value, ended by a NUL. -/
def optionOctets (fields : List OptionField) : Octets :=
  fields.flatMap fun field => field.name ++ [0] ++ (field.value ++ [0])

/-- The octets before the first NUL. -/
def untilNul (octets : Octets) : Octets :=
  octets.take (octets.idxOf 0)

/-- The octets behind the first NUL. -/
def pastNul (octets : Octets) : Octets :=
  octets.drop (octets.idxOf 0 + 1)

section Until

variable {text : Octets} (htext : 0 ∉ text) (rest : Octets)

include htext

theorem idxOf_append_nul : (text ++ 0 :: rest).idxOf 0 = text.length := by
  rw [List.idxOf_append_of_notMem htext, List.idxOf_cons_self, Nat.add_zero]

theorem untilNul_append_nul : untilNul (text ++ 0 :: rest) = text := by
  rw [untilNul, idxOf_append_nul htext, List.take_left]

theorem pastNul_append_nul : pastNul (text ++ 0 :: rest) = rest := by
  rw [pastNul, idxOf_append_nul htext, ← List.drop_drop, List.drop_left]
  rfl

theorem count_append_nul : (text ++ 0 :: rest).count 0 = rest.count 0 + 1 := by
  rw [List.count_append, List.count_eq_zero.mpr htext, Nat.zero_add, List.count_cons_self]

end Until

/-! ## Numbers -/

theorem toNat_word (high low : UInt8) : (word high low).toNat = high.toNat * 256 + low.toNat := by
  have hhigh := high.toNat_lt
  have hlow := low.toNat_lt
  rw [word, UInt16.toNat_ofNat_of_lt']
  simp only [UInt16.size]
  omega

theorem wordOctets_word (high low : UInt8) : wordOctets (word high low) = [high, low] := by
  have hlow := low.toNat_lt
  have hfirst : (high.toNat * 256 + low.toNat) / 256 = high.toNat := by omega
  have hsecond : (high.toNat * 256 + low.toNat) % 256 = low.toNat := by omega
  rw [wordOctets, toNat_word, hfirst, hsecond, UInt8.ofNat_toNat, UInt8.ofNat_toNat]

theorem word_inj {high low otherHigh otherLow : UInt8} :
    word high low = word otherHigh otherLow ↔ high = otherHigh ∧ low = otherLow := by
  constructor
  · intro hword
    have hoctets := congrArg wordOctets hword
    simpa only [wordOctets_word, List.cons.injEq, and_true] using hoctets
  · rintro ⟨rfl, rfl⟩
    rfl

theorem readU16_eq_some_iff {source rest : Octets} {value : UInt16} :
    readU16 source = some (value, rest) ↔ source = wordOctets value ++ rest := by
  constructor
  · intro hread
    unfold readU16 at hread
    split at hread
    next high low tail =>
      cases hread
      rw [wordOctets_word]
      rfl
    next => cases hread
  · rintro rfl
    exact readU16_wordOctets value rest

theorem readU16_eq_none_iff {source : Octets} : readU16 source = none ↔ source.length < 2 := by
  match source with
  | [] | [_] => simp [readU16]
  | _ :: _ :: _ => simp [readU16]

/-! ## Texts -/

theorem readText_eq_none_iff {source : Octets} : readText source = none ↔ 0 ∉ source := by
  constructor
  · intro hread hmem
    obtain ⟨text, rest, rfl, htext⟩ := List.eq_append_cons_of_mem hmem
    rw [readText_append_nul htext] at hread
    cases hread
  · intro hnone
    have hkept : ∀ octet ∈ source, (octet != 0) = true := fun octet hoctet =>
      bne_iff_ne.mpr fun heq => hnone (heq ▸ hoctet)
    rw [readText, List.dropWhile_eq_nil_iff.mpr hkept]

theorem readText_eq_some_iff {source text rest : Octets} :
    readText source = some (text, rest) ↔ source = text ++ 0 :: rest ∧ 0 ∉ text := by
  constructor
  · intro hread
    have hmem : 0 ∈ source := by
      by_contra hnone
      rw [readText_eq_none_iff.mpr hnone] at hread
      cases hread
    obtain ⟨before, after, rfl, hbefore⟩ := List.eq_append_cons_of_mem hmem
    rw [readText_append_nul hbefore] at hread
    cases hread
    exact ⟨rfl, hbefore⟩
  · rintro ⟨rfl, htext⟩
    exact readText_append_nul htext rest

/-! ## Options -/

section SplitFields

variable (source : Octets)

/-- Splitting loses nothing. -/
theorem flatMap_splitFields :
    (splitFields source).1.flatMap (· ++ [0]) ++ (splitFields source).2 = source := by
  induction source with
  | nil => rfl
  | cons octet rest ih =>
      rw [splitFields]
      split
      next heq hsplit =>
        rw [hsplit] at ih
        simpa [beq_iff_eq.mp heq] using ih
      next hsplit =>
        rw [hsplit] at ih
        simpa using ih
      next hsplit =>
        rw [hsplit] at ih
        simpa using ih

theorem nul_notMem_of_mem_splitFields : ∀ field ∈ (splitFields source).1, 0 ∉ field := by
  induction source with
  | nil => exact List.forall_mem_nil _
  | cons octet rest ih =>
      rw [splitFields]
      split
      next hsplit =>
        rw [hsplit] at ih
        exact List.forall_mem_cons.mpr ⟨List.not_mem_nil, ih⟩
      next => exact List.forall_mem_nil _
      next hne hsplit =>
        rw [hsplit] at ih
        obtain ⟨hfirst, hothers⟩ := List.forall_mem_cons.mp ih
        refine List.forall_mem_cons.mpr ⟨fun hmem => ?_, hothers⟩
        rcases List.mem_cons.mp hmem with heq | hmem
        · exact beq_eq_false_iff_ne.mp hne heq.symm
        · exact hfirst hmem

/-- There are as many fields as there are NULs. -/
theorem length_splitFields : (splitFields source).1.length = source.count 0 := by
  induction source with
  | nil => rfl
  | cons octet rest ih =>
      rw [splitFields]
      split
      next heq hsplit =>
        rw [hsplit] at ih
        rw [beq_iff_eq.mp heq, List.count_cons_self, List.length_cons, ih]
      next hne hsplit =>
        rw [hsplit] at ih
        rw [List.count_cons_of_ne (beq_eq_false_iff_ne.mp hne), ← ih]
      next hne hsplit =>
        rw [hsplit] at ih
        rw [List.count_cons_of_ne (beq_eq_false_iff_ne.mp hne), ← ih]
        rfl

theorem nul_notMem_splitFields_tail : 0 ∉ (splitFields source).2 := by
  induction source with
  | nil => exact List.not_mem_nil
  | cons octet rest ih =>
      rw [splitFields]
      split
      next hsplit =>
        rw [hsplit] at ih
        exact ih
      next hne hsplit =>
        rw [hsplit] at ih
        exact List.not_mem_cons_of_ne_of_not_mem (beq_eq_false_iff_ne.mp hne).symm ih
      next hsplit =>
        rw [hsplit] at ih
        exact ih

theorem splitFields_of_nul_notMem (hsource : 0 ∉ source) : splitFields source = ([], source) := by
  have hcount := length_splitFields source
  have hwhole := flatMap_splitFields source
  rw [List.count_eq_zero.mpr hsource] at hcount
  rw [List.eq_nil_of_length_eq_zero hcount] at hwhole
  exact Prod.ext (List.eq_nil_of_length_eq_zero hcount) hwhole

/-- Nothing follows the last field exactly if there is nothing, or a NUL at the
end. -/
theorem splitFields_tail_eq_nil_iff :
    (splitFields source).2 = [] ↔ source = [] ∨ source.getLast? = some 0 := by
  have hwhole := flatMap_splitFields source
  have htail := nul_notMem_splitFields_tail source
  generalize splitFields source = split at hwhole htail
  obtain ⟨fields, tail⟩ := split
  dsimp only at hwhole htail ⊢
  subst hwhole
  constructor
  · rintro rfl
    rcases List.eq_nil_or_concat fields with rfl | ⟨before, last, rfl⟩
    · exact Or.inl rfl
    · right
      simp [List.flatMap_append]
  · intro hend
    rcases List.eq_nil_or_concat tail with rfl | ⟨before, last, rfl⟩
    · rfl
    · have hlast : last = 0 := by simpa using hend
      exact absurd (by simp [hlast]) htail

end SplitFields

theorem forall_mem_fieldTexts {fields : List OptionField} :
    (∀ text ∈ fields.flatMap fun field => [field.name, field.value], 0 ∉ text) ↔
      ∀ field ∈ fields, 0 ∉ field.name ∧ 0 ∉ field.value := by
  constructor
  · intro htexts field hfield
    have hmem (text : Octets) (htext : text ∈ [field.name, field.value]) : 0 ∉ text :=
      htexts text (List.mem_flatMap.mpr ⟨field, hfield, htext⟩)
    exact ⟨hmem _ (by simp), hmem _ (by simp)⟩
  · intro hfields text htext
    obtain ⟨field, hfield, htext⟩ := List.mem_flatMap.mp htext
    rcases List.mem_pair.mp htext with rfl | rfl
    · exact (hfields field hfield).1
    · exact (hfields field hfield).2

/-- An even number of fields is all pairs. -/
theorem flatMap_pairFields {fields : List Octets} (heven : fields.length % 2 = 0) :
    (pairFields fields).flatMap (fun field => [field.name, field.value]) = fields := by
  induction fields using pairFields.induct with
  | case1 name value rest ih =>
      have hrest : rest.length % 2 = 0 := by
        simp only [List.length_cons] at heven
        omega
      rw [pairFields, List.flatMap_cons, ih hrest]
      rfl
  | case2 fields hshort =>
      cases fields with
      | nil => rfl
      | cons name rest =>
          cases rest with
          | nil => simp at heven
          | cons value rest => exact absurd rfl (hshort name value rest)

/-- Options are read without a defect exactly if they are all there is. -/
theorem readOptions_eq_iff {source : Octets} {fields : List OptionField} :
    readOptions source = (fields, none) ↔
      source = optionOctets fields ∧ ∀ field ∈ fields, 0 ∉ field.name ∧ 0 ∉ field.value := by
  constructor
  · intro hread
    have hwhole := flatMap_splitFields source
    have htexts := nul_notMem_of_mem_splitFields source
    unfold readOptions at hread
    generalize splitFields source = split at hread hwhole htexts
    obtain ⟨texts, tail⟩ := split
    dsimp only at hread hwhole htexts
    obtain ⟨hfields, hdefect⟩ := Prod.mk.inj hread
    have htail : tail = [] := by
      by_contra hsome
      rw [if_pos hsome] at hdefect
      cases hdefect
    have heven : texts.length % 2 = 0 := by
      by_contra hodd
      rw [if_neg (not_not_intro htail), if_pos (by omega)] at hdefect
      cases hdefect
    subst htail hfields
    have hpairs := flatMap_pairFields heven
    constructor
    · rw [← hwhole, List.append_nil]
      conv_lhs => rw [← hpairs]
      rw [List.flatMap_assoc, optionOctets]
      simp
    · rw [← hpairs] at htexts
      exact forall_mem_fieldTexts.mp htexts
  · rintro ⟨rfl, hfields⟩
    exact readOptions_flatMap hfields

section ReadOptions

variable {source name value rest : Octets}

theorem readOptions_of_nul_notMem (hsource : 0 ∉ source) (hne : source ≠ []) :
    readOptions source = ([], some .truncated) := by
  rw [readOptions, splitFields_of_nul_notMem source hsource]
  simp only [pairFields, if_pos hne]

theorem readOptions_name (hname : 0 ∉ name) :
    readOptions (name ++ 0 :: []) = ([], some .malformedOptions) := by
  rw [readOptions, splitFields_append_nul hname]
  rfl

theorem readOptions_name_of_nul_notMem (hname : 0 ∉ name) (hrest : 0 ∉ rest) (hne : rest ≠ []) :
    readOptions (name ++ 0 :: rest) = ([], some .truncated) := by
  rw [readOptions, splitFields_append_nul hname, splitFields_of_nul_notMem rest hrest]
  simp only [pairFields, if_pos hne]

/-- A pair at the front is read first, and does not change what is read behind it. -/
theorem readOptions_pair (hname : 0 ∉ name) (hvalue : 0 ∉ value) :
    readOptions (name ++ 0 :: (value ++ 0 :: rest)) =
      (⟨name, value⟩ :: (readOptions rest).1, (readOptions rest).2) := by
  rw [readOptions, splitFields_append_nul hname, splitFields_append_nul hvalue]
  simp only [pairFields, List.length_cons, Nat.add_assoc, Nat.add_mod_right]
  rfl

end ReadOptions

end TftpServer
