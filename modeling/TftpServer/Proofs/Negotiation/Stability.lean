import Mathlib.Logic.Relation
import TftpServer.Proofs.Negotiation.Legality

/-! # The same request in other words

A request may be worded differently and still ask for the same: names may be
spelled in another case, options that the server does not know may stand anywhere,
and an option may be repeated. What is agreed on stays the same, and asking for
just that is agreed to.
-/

namespace TftpServer

open Text

/-- The same name up to ASCII case, and the same value. -/
def OptionField.SameButForCase (field other : OptionField) : Prop :=
  sameIgnoringCase field.name other.name = true ∧ field.value = other.value

/-- One change to the wording of a request. -/
inductive Rewording : List OptionField → List OptionField → Prop where
  | recased (before after : List OptionField)
      (hsame : List.Forall₂ OptionField.SameButForCase before after) : Rewording before after
  -- An option that the server does not know is put in.
  | unknown (front back : List OptionField) (field : OptionField)
      (hunknown : ∀ option : KnownOption, sameIgnoringCase field.name option.name = false) :
      Rewording (front ++ back) (front ++ field :: back)
  -- An option is asked for again, later on, with any value.
  | repeated (front back : List OptionField) (first again : OptionField) (hfirst : first ∈ front)
      (hsame : sameIgnoringCase again.name first.name = true) :
      Rewording (front ++ back) (front ++ again :: back)

theorem KnownOption.ofName_congr {text other : Octets} (hsame : sameIgnoringCase text other = true) :
    ofName text = ofName other := by
  rw [ofName, ofName, beq_iff_eq.mp hsame]

/-! ## First occurrences in a longer request -/

theorem filter_firstOccurrences (option : KnownOption) (options : List (KnownOption × Octets)) :
    (firstOccurrences options).filter (·.1 ≠ option) =
      firstOccurrences (options.filter (·.1 ≠ option)) := by
  induction options with
  | nil => rfl
  | cons first rest ih =>
      rw [firstOccurrences]
      by_cases hfirst : first.1 = option
      · rw [List.filter_cons_of_neg (by simpa using hfirst),
          List.filter_cons_of_neg (by simpa using hfirst), hfirst, List.filter_filter, ← ih]
        simp
      · rw [List.filter_cons_of_pos (by simpa using hfirst),
          List.filter_cons_of_pos (by simpa using hfirst), firstOccurrences, ← ih,
          List.filter_filter, List.filter_filter]
        simp only [Bool.and_comm]

/-- Only what comes later is left out. -/
theorem firstOccurrences_append_cons {front back : List (KnownOption × Octets)}
    {option : KnownOption} (hmem : option ∈ front.map Prod.fst) (value : Octets) :
    firstOccurrences (front ++ (option, value) :: back) = firstOccurrences (front ++ back) := by
  induction front with
  | nil => cases hmem
  | cons first rest ih =>
      rw [List.cons_append, List.cons_append, firstOccurrences, firstOccurrences]
      by_cases hfirst : first.1 = option
      · rw [filter_firstOccurrences, filter_firstOccurrences, List.filter_append, List.filter_append,
          List.filter_cons_of_neg (by simpa using hfirst.symm)]
      · have hrest : option ∈ rest.map Prod.fst :=
          (List.mem_cons.mp hmem).resolve_left (Ne.symm hfirst)
        rw [ih hrest]

theorem firstOccurrences_of_nodup {options : List (KnownOption × Octets)}
    (hnodup : (options.map Prod.fst).Nodup) : firstOccurrences options = options := by
  induction options with
  | nil => rfl
  | cons first rest ih =>
      rw [List.map_cons, List.nodup_cons] at hnodup
      rw [firstOccurrences, ih hnodup.2, List.filter_eq_self.mpr]
      intro other hother
      exact decide_eq_true fun hsame => hnodup.1 (List.mem_map.mpr ⟨other, hother, hsame⟩)

theorem knownOptions_append (front back : List OptionField) :
    knownOptions (front ++ back) = knownOptions front ++ knownOptions back :=
  List.filterMap_append

theorem knownOptions_of_sameButForCase {before after : List OptionField}
    (hsame : List.Forall₂ OptionField.SameButForCase before after) :
    knownOptions after = knownOptions before := by
  induction hsame with
  | nil => rfl
  | @cons field other _ _ hfield _ ih =>
      have hname := KnownOption.ofName_congr hfield.1
      cases hknown : KnownOption.ofName field.name with
      | none => rw [knownOptions_cons_of_none hknown, knownOptions_cons_of_none (hname ▸ hknown), ih]
      | some option =>
          rw [knownOptions_cons_of_some hknown, knownOptions_cons_of_some (hname ▸ hknown), ih,
            hfield.2]

/-- One change to the wording does not change what a request comes down to. -/
theorem Rewording.settled {requested reworded : List OptionField}
    (hreworded : Rewording requested reworded) :
    firstOccurrences (knownOptions reworded) = firstOccurrences (knownOptions requested) := by
  cases hreworded with
  | recased _ _ hsame => rw [knownOptions_of_sameButForCase hsame]
  | unknown front back field hunknown =>
      have hnone : KnownOption.ofName field.name = none :=
        KnownOption.ofName_eq_none_iff.mpr hunknown
      rw [knownOptions_append, knownOptions_cons_of_none hnone, ← knownOptions_append]
  | repeated front back first again hfirst hsame =>
      rw [knownOptions_append, knownOptions_append]
      cases hknown : KnownOption.ofName again.name with
      | none => rw [knownOptions_cons_of_none hknown]
      | some option =>
          have hmem : (option, first.value) ∈ knownOptions front := by
            refine List.mem_filterMap.mpr ⟨first, hfirst, ?_⟩
            rw [← KnownOption.ofName_congr hsame, hknown]
            rfl
          rw [knownOptions_cons_of_some hknown,
            firstOccurrences_append_cons (List.mem_map.mpr ⟨_, hmem, rfl⟩)]

theorem negotiate_congr {requested other : List OptionField}
    (hsettled : firstOccurrences (knownOptions other) = firstOccurrences (knownOptions requested))
    (limits : Limits) (length : Option UInt64) :
    negotiate limits length other = negotiate limits length requested := by
  simp only [negotiate, hsettled]

/-! ## Asking for what was accepted -/

theorem Acceptance.eq_of_number {accepted other : Acceptance}
    (hentries : accepted.entries = other.entries)
    (hnumber : ∀ option, accepted.number option = other.number option) : accepted = other := by
  have hblockSize : accepted.blockSize = other.blockSize :=
    Option.map_injective (fun _ _ => UInt64.toNat_inj.mp) (hnumber .blockSize)
  have htimeout : accepted.timeout = other.timeout :=
    Option.map_injective (fun _ _ => UInt32.toNat_inj.mp) (hnumber .timeout)
  have htransferSize : accepted.transferSize = other.transferSize :=
    Option.map_injective (fun _ _ => UInt64.toNat_inj.mp) (hnumber .transferSize)
  cases accepted
  cases other
  exact (Acceptance.mk.injEq ..).mpr ⟨hentries, hblockSize, htimeout, htransferSize⟩

section Again

variable (limits : Limits) (length : Option UInt64) (requested : List OptionField)

theorem nodup_knownOptions_entries :
    ((knownOptions (negotiate limits length requested).entries).map Prod.fst).Nodup := by
  refine List.pairwise_map.mpr
    ((pairwise_negotiate_entries limits length requested).filterMap _ ?_)
  rintro earlier later hlt first hfirst second hsecond hsame
  obtain ⟨option, hearlier, rfl⟩ := Option.map_eq_some_iff.mp hfirst
  obtain ⟨other, hlater, rfl⟩ := Option.map_eq_some_iff.mp hsecond
  obtain rfl : option = other := hsame
  rw [firstPlace_of_ofName hearlier, firstPlace_of_ofName hlater] at hlt
  exact Nat.lt_irrefl _ hlt

theorem settled_entries :
    firstOccurrences (knownOptions (negotiate limits length requested).entries) =
      knownOptions (negotiate limits length requested).entries :=
  firstOccurrences_of_nodup (nodup_knownOptions_entries limits length requested)

theorem firstValue_negotiate_entries (option : KnownOption) :
    firstValue (negotiate limits length requested).entries option =
      ((negotiate limits length requested).number option).map decimal := by
  ext text
  rw [← lookup_knownOptions, ← mem_firstOccurrences_iff, settled_entries, knownOptions,
    List.mem_filterMap]
  constructor
  · rintro ⟨field, hfield, hvalue⟩
    obtain ⟨other, number, hnumber, rfl⟩ := mem_negotiate_entries_iff.mp hfield
    rw [KnownOption.ofName_name] at hvalue
    cases hvalue
    rw [hnumber]
    rfl
  · intro htext
    obtain ⟨number, hnumber, rfl⟩ := Option.map_eq_some_iff.mp htext
    refine ⟨_, mem_negotiate_entries_iff.mpr ⟨option, number, hnumber, rfl⟩, ?_⟩
    rw [KnownOption.ofName_name]
    rfl

variable {limits length requested}

theorem agreedNumber_of_number {option : KnownOption} {number : Nat}
    (hnumber : (negotiate limits length requested).number option = some number) :
    agreedNumber limits length option (decimal number) = some number := by
  rw [number_negotiate] at hnumber
  obtain ⟨value, _, hagreed⟩ := Option.bind_eq_some_iff.mp hnumber
  exact agreedNumber_decimal hagreed

variable (limits length requested)

theorem entries_negotiate_entries :
    (negotiate limits length (negotiate limits length requested).entries).entries =
      (negotiate limits length requested).entries := by
  calc (negotiate limits length (negotiate limits length requested).entries).entries
      = (knownOptions (negotiate limits length requested).entries).filterMap
          fun entry =>
            (announcedValue limits length entry.1 entry.2).map (OptionField.mk entry.1.name ·) := by
        conv_lhs => rw [negotiate, settled_entries]
    _ = (negotiate limits length requested).entries.filterMap some := by
        rw [knownOptions, List.filterMap_filterMap]
        refine List.filterMap_congr fun field hfield => ?_
        obtain ⟨option, number, hnumber, rfl⟩ := mem_negotiate_entries_iff.mp hfield
        rw [KnownOption.ofName_name, Option.map_some, Option.bind_some]
        dsimp only
        rw [announcedValue_eq, agreedNumber_of_number hnumber]
        rfl
    _ = (negotiate limits length requested).entries := List.filterMap_some

/-- Asking for exactly what was accepted comes to the same again. -/
theorem negotiate_negotiate_entries :
    negotiate limits length (negotiate limits length requested).entries =
      negotiate limits length requested := by
  refine Acceptance.eq_of_number (entries_negotiate_entries limits length requested)
    fun option => ?_
  rw [number_negotiate, firstValue_negotiate_entries]
  cases hnumber : (negotiate limits length requested).number option with
  | none => rfl
  | some number => exact agreedNumber_of_number hnumber

end Again

/-- However often a request is reworded, the same is agreed on, and agreeing on it
once more changes nothing. -/
theorem negotiate_stable (limits : Limits) (length : Option UInt64)
    {requested reworded : List OptionField}
    (hreworded : Relation.ReflTransGen Rewording requested reworded) :
    let accepted := negotiate limits length requested
    negotiate limits length reworded = accepted ∧
      negotiate limits length accepted.entries = accepted := by
  refine ⟨?_, negotiate_negotiate_entries limits length requested⟩
  induction hreworded with
  | refl => rfl
  | tail _ hchange ih => exact (negotiate_congr hchange.settled limits length).trans ih

/-- Names in capitals, an option that the server does not know, and a second block
size. -/
theorem negotiate_stable_under_three_changes :
    let requested : List OptionField :=
      [⟨ascii "blksize", ascii "1024"⟩, ⟨ascii "tsize", ascii "0"⟩]
    let reworded : List OptionField :=
      [⟨ascii "BLKSIZE", ascii "1024"⟩, ⟨ascii "windowsize", ascii "16"⟩,
        ⟨ascii "TSize", ascii "0"⟩, ⟨ascii "BlkSize", ascii "8"⟩]
    Relation.ReflTransGen Rewording requested reworded ∧
      (negotiate {} (some 77) reworded).entries =
        [⟨ascii "blksize", ascii "1024"⟩, ⟨ascii "tsize", ascii "77"⟩] := by
  intro requested reworded
  let inCapitals : List OptionField :=
    [⟨ascii "BLKSIZE", ascii "1024"⟩, ⟨ascii "TSize", ascii "0"⟩]
  let withUnknown : List OptionField :=
    [⟨ascii "BLKSIZE", ascii "1024"⟩, ⟨ascii "windowsize", ascii "16"⟩,
      ⟨ascii "TSize", ascii "0"⟩]
  have hrecased : Rewording requested inCapitals :=
    .recased _ _ (.cons ⟨by decide, rfl⟩ (.cons ⟨by decide, rfl⟩ .nil))
  have hunknown : Rewording inCapitals withUnknown := by
    refine .unknown [⟨ascii "BLKSIZE", ascii "1024"⟩] [⟨ascii "TSize", ascii "0"⟩]
      ⟨ascii "windowsize", ascii "16"⟩ fun option => ?_
    cases option <;> decide
  have hrepeated : Rewording withUnknown reworded :=
    .repeated withUnknown [] ⟨ascii "BLKSIZE", ascii "1024"⟩ ⟨ascii "BlkSize", ascii "8"⟩
      List.mem_cons_self (by decide)
  have hreworded : Relation.ReflTransGen Rewording requested reworded :=
    ((Relation.ReflTransGen.single hrecased).tail hunknown).tail hrepeated
  refine ⟨hreworded, ?_⟩
  rw [(negotiate_stable {} (some 77) hreworded).1]
  decide +kernel

end TftpServer
