import TftpServer.Proofs.Negotiation.Announcement

/-! # First occurrences

Of all the fields of a request that bear the name of an option, the first one
decides, and the order of these first ones is that of the announcement. Names are
compared up to ASCII case.
-/

namespace TftpServer

namespace KnownOption

/-- Whether a field bears the name of an option, in whatever case. -/
def names (option : KnownOption) (field : OptionField) : Bool :=
  Text.sameIgnoringCase field.name option.name

theorem lowercase_name (option : KnownOption) : Text.lowercase option.name = option.name := by
  cases option <;> decide

theorem ofName_eq_some_iff {field : OptionField} {option : KnownOption} :
    ofName field.name = some option ↔ option.names field = true := by
  rw [names, Text.sameIgnoringCase, lowercase_name, beq_iff_eq]
  refine ⟨fun hknown => ?_, fun hname => ?_⟩
  · unfold ofName at hknown
    split at hknown
    next hname => exact Option.some.inj hknown ▸ hname
    next =>
      split at hknown
      next hname => exact Option.some.inj hknown ▸ hname
      next =>
        split at hknown
        next hname => exact Option.some.inj hknown ▸ hname
        next => cases hknown
  · rw [ofName, hname]
    cases option <;> decide

theorem ofName_eq_none_iff {field : OptionField} :
    ofName field.name = none ↔ ∀ option : KnownOption, option.names field = false := by
  simp only [Option.eq_none_iff_forall_ne_some, ne_eq, ofName_eq_some_iff, Bool.not_eq_true]

theorem ofName_name (option : KnownOption) : ofName option.name = some option := by
  cases option <;> decide

theorem names_eq_false_of_ne {field : OptionField} {option other : KnownOption}
    (hknown : ofName field.name = some option) (hother : other ≠ option) :
    other.names field = false := by
  rw [← Bool.not_eq_true, ← ofName_eq_some_iff, hknown]
  exact fun hsame => hother (Option.some.inj hsame).symm

end KnownOption

/-- The value of the first field that bears the name of an option. -/
def firstValue (requested : List OptionField) (option : KnownOption) : Option Octets :=
  (requested.find? option.names).map (·.value)

/-- The place of the first field that bears a name, in whatever case. -/
def firstPlace (requested : List OptionField) (name : Octets) : Nat :=
  requested.findIdx fun field => Text.sameIgnoringCase field.name name

/-! ## What a request comes down to -/

theorem knownOptions_cons_of_none {field : OptionField} (hunknown : KnownOption.ofName field.name = none)
    (requested : List OptionField) : knownOptions (field :: requested) = knownOptions requested := by
  rw [knownOptions, List.filterMap_cons, hunknown]
  rfl

theorem knownOptions_cons_of_some {field : OptionField} {option : KnownOption}
    (hknown : KnownOption.ofName field.name = some option) (requested : List OptionField) :
    knownOptions (field :: requested) = (option, field.value) :: knownOptions requested := by
  rw [knownOptions, List.filterMap_cons, hknown]
  rfl

theorem lookup_filter_ne {option other : KnownOption} (hother : option ≠ other)
    (options : List (KnownOption × Octets)) :
    (options.filter (·.1 ≠ other)).lookup option = options.lookup option := by
  induction options with
  | nil => rfl
  | cons first rest ih =>
      by_cases hfirst : first.1 = other
      · rw [List.filter_cons_of_neg (by simpa using hfirst), ih, List.lookup_cons, hfirst,
          beq_false_of_ne hother]
      · rw [List.filter_cons_of_pos (by simpa using hfirst), List.lookup_cons, List.lookup_cons, ih]

theorem lookup_firstOccurrences (options : List (KnownOption × Octets)) (option : KnownOption) :
    (firstOccurrences options).lookup option = options.lookup option := by
  induction options with
  | nil => rfl
  | cons first rest ih =>
      rw [firstOccurrences, List.lookup_cons, List.lookup_cons]
      by_cases hfirst : option = first.1
      · rw [beq_iff_eq.mpr hfirst]
      · rw [beq_false_of_ne hfirst, lookup_filter_ne hfirst, ih]

theorem lookup_knownOptions (requested : List OptionField) (option : KnownOption) :
    (knownOptions requested).lookup option = firstValue requested option := by
  induction requested with
  | nil => rfl
  | cons field rest ih =>
      rw [firstValue] at ih ⊢
      cases hknown : KnownOption.ofName field.name with
      | none =>
          rw [knownOptions_cons_of_none hknown, ih,
            List.find?_cons_of_neg (by simp [KnownOption.ofName_eq_none_iff.mp hknown])]
      | some other =>
          rw [knownOptions_cons_of_some hknown, List.lookup_cons]
          by_cases hother : option = other
          · subst hother
            rw [beq_self_eq_true, List.find?_cons_of_pos (KnownOption.ofName_eq_some_iff.mp hknown)]
            rfl
          · have hnames := KnownOption.names_eq_false_of_ne hknown hother
            rw [beq_false_of_ne hother, ih, List.find?_cons_of_neg (Bool.eq_false_iff.mp hnames)]

theorem lookup_settled (requested : List OptionField) (option : KnownOption) :
    (firstOccurrences (knownOptions requested)).lookup option = firstValue requested option := by
  rw [lookup_firstOccurrences, lookup_knownOptions]

theorem firstPlace_cons_of_names {field : OptionField} {option : KnownOption}
    (hnames : option.names field = true) (requested : List OptionField) :
    firstPlace (field :: requested) option.name = 0 := by
  rw [firstPlace, List.findIdx_cons]
  exact congrArg (cond · 0 _) hnames

theorem firstPlace_cons_of_not_names {field : OptionField} {option : KnownOption}
    (hnames : option.names field = false) (requested : List OptionField) :
    firstPlace (field :: requested) option.name = firstPlace requested option.name + 1 := by
  rw [firstPlace, List.findIdx_cons]
  exact congrArg (cond · 0 _) hnames

/-- Names that denote one option have one place. -/
theorem firstPlace_of_ofName {field : OptionField} {option : KnownOption}
    (hknown : KnownOption.ofName field.name = some option) (requested : List OptionField) :
    firstPlace requested field.name = firstPlace requested option.name := by
  have hsame := beq_iff_eq.mp (KnownOption.ofName_eq_some_iff.mp hknown)
  simp only [firstPlace, Text.sameIgnoringCase, hsame]

/-- First occurrences come in the order of their places. -/
theorem pairwise_firstPlace (requested : List OptionField) :
    (firstOccurrences (knownOptions requested)).Pairwise fun earlier later =>
      firstPlace requested earlier.1.name < firstPlace requested later.1.name := by
  induction requested with
  | nil => exact List.Pairwise.nil
  | cons field rest ih =>
      cases hknown : KnownOption.ofName field.name with
      | none =>
          rw [knownOptions_cons_of_none hknown]
          refine ih.imp fun {earlier later} hlt => ?_
          have hnames := KnownOption.ofName_eq_none_iff.mp hknown
          rw [firstPlace_cons_of_not_names (hnames earlier.1),
            firstPlace_cons_of_not_names (hnames later.1)]
          exact Nat.add_lt_add_right hlt 1
      | some option =>
          have hplace (other : KnownOption) (hother : other ≠ option) :
              firstPlace (field :: rest) other.name = firstPlace rest other.name + 1 :=
            firstPlace_cons_of_not_names (KnownOption.names_eq_false_of_ne hknown hother) rest
          rw [knownOptions_cons_of_some hknown, firstOccurrences, List.pairwise_cons]
          refine ⟨fun later hlater => ?_, ?_⟩
          · have hother : later.1 ≠ option := of_decide_eq_true (List.mem_filter.mp hlater).2
            rw [firstPlace_cons_of_names (KnownOption.ofName_eq_some_iff.mp hknown), hplace _ hother]
            exact Nat.succ_pos _
          · refine (ih.filter _).imp_of_mem fun {earlier later} hearlier hlater hlt => ?_
            have hfirst : earlier.1 ≠ option := of_decide_eq_true (List.mem_filter.mp hearlier).2
            have hsecond : later.1 ≠ option := of_decide_eq_true (List.mem_filter.mp hlater).2
            rw [hplace _ hfirst, hplace _ hsecond]
            exact Nat.add_lt_add_right hlt 1

end TftpServer
