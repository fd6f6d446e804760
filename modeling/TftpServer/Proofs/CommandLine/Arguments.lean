import TftpServer.CommandLine.Config
import TftpServer.Proofs.Text.Decimal

/-! # What server arguments mean

Behind the port and the root stand groups: a flag, and the value of a flag that takes
one. A value is taken as it stands, also when it looks like a flag, so there is one way to
split arguments into groups, from left to right. For every setting the last group counts
that sets it. Arguments that cannot be split are refused for the first of them that is
wrong.
-/

namespace TftpServer

/-- The text is a number that lies between two bounds. -/
def NumberWithin (lowest highest : Nat) (text : Octets) : Prop :=
  Text.IsNumber text ∧ lowest ≤ Text.digitsValue text ∧ Text.digitsValue text ≤ highest

instance (lowest highest : Nat) (text : Octets) : Decidable (NumberWithin lowest highest text) :=
  inferInstanceAs (Decidable (_ ∧ _))

theorem parseBounded_eq_some_iff {largest lowest highest value : Nat} {text : Octets}
    (hhighest : highest ≤ largest) :
    parseBounded largest lowest highest text = some value ↔
      NumberWithin lowest highest text ∧ Text.digitsValue text = value := by
  unfold parseBounded
  constructor
  · intro hparse
    cases hnumber : Text.parseDecimal largest text with
    | error _ => simp [hnumber] at hparse
    | ok number =>
        obtain ⟨htext, rfl, _⟩ := Text.parseDecimal_eq_ok_iff.mp hnumber
        rw [hnumber] at hparse
        dsimp only at hparse
        split at hparse
        next hbounds => exact ⟨⟨htext, hbounds⟩, Option.some.inj hparse⟩
        next => cases hparse
  · rintro ⟨⟨htext, hbounds⟩, rfl⟩
    have hnumber : Text.parseDecimal largest text = .ok (Text.digitsValue text) :=
      Text.parseDecimal_eq_ok_iff.mpr ⟨htext, rfl, hbounds.2.trans hhighest⟩
    rw [hnumber]
    exact if_pos hbounds

theorem parseBounded_of_numberWithin {largest lowest highest : Nat} {text : Octets}
    (hhighest : highest ≤ largest) (htext : NumberWithin lowest highest text) :
    parseBounded largest lowest highest text = some (Text.digitsValue text) :=
  (parseBounded_eq_some_iff hhighest).mpr ⟨htext, rfl⟩

theorem parseBounded_of_not_numberWithin {largest lowest highest : Nat} {text : Octets}
    (hhighest : highest ≤ largest) (htext : ¬ NumberWithin lowest highest text) :
    parseBounded largest lowest highest text = none :=
  Option.eq_none_iff_forall_ne_some.mpr fun _ hparse =>
    htext ((parseBounded_eq_some_iff hhighest).mp hparse).1

/-- The text that a reason quotes, if it quotes one. -/
def ConfigError.subject : ConfigError → Octets
  | .missingPositionals => []
  | .invalidPort text | .unknownArgument text | .missingValue text | .invalidTimeout text
  | .invalidRetryLimit text | .invalidBlockSize text => text

theorem ConfigError.subject_suffix_message (error : ConfigError) :
    error.subject <:+ error.message := by
  cases error with
  | missingPositionals => exact List.nil_suffix
  | invalidPort | unknownArgument | missingValue | invalidTimeout | invalidRetryLimit
  | invalidBlockSize => exact List.suffix_append _ _

theorem ConfigError.message_ne_nil (error : ConfigError) : error.message ≠ [] := by
  cases error <;> simp [message, ascii]

namespace ServerConfig

/-! ## Groups -/

/-- How a flag that takes a value is written. -/
def ValueFlag.spelling : ValueFlag → Octets
  | .address => ascii "-a"
  | .timeout => ascii "-t"
  | .retryLimit => ascii "-r"
  | .blockSize => ascii "-b"

/-- The values that a flag takes. -/
def ValueFlag.Takes : ValueFlag → Octets → Prop
  | .address, _ => True
  | .timeout, value => NumberWithin 1 255 value
  | .retryLimit, value => NumberWithin 0 255 value
  | .blockSize, value => NumberWithin 8 65464 value

instance : (flag : ValueFlag) → (value : Octets) → Decidable (flag.Takes value)
  | .address, _ => inferInstanceAs (Decidable True)
  | .timeout, value => inferInstanceAs (Decidable (NumberWithin 1 255 value))
  | .retryLimit, value => inferInstanceAs (Decidable (NumberWithin 0 255 value))
  | .blockSize, value => inferInstanceAs (Decidable (NumberWithin 8 65464 value))

/-- A flag, and its value if it takes one. -/
inductive FlagGroup where
  | verbose
  | quiet
  | valued (flag : ValueFlag) (value : Octets)
  deriving DecidableEq, Repr

namespace FlagGroup

def arguments : FlagGroup → List Octets
  | .verbose => [ascii "-v"]
  | .quiet => [ascii "-q"]
  | .valued flag value => [flag.spelling, value]

def Valid : FlagGroup → Prop
  | .verbose | .quiet => True
  | .valued flag value => flag.Takes value

/-- What a group sets: the setting of its value, or the log level. -/
def setting : FlagGroup → Option ValueFlag
  | .verbose | .quiet => none
  | .valued flag _ => some flag

def value? (flag : ValueFlag) : FlagGroup → Option Octets
  | .verbose | .quiet => none
  | .valued other value => if other = flag then some value else none

def level? : FlagGroup → Option LogLevel
  | .verbose => some .debug
  | .quiet => some .warning
  | .valued _ _ => none

end FlagGroup

/-- What the last of the groups gives that give anything. -/
def latest {α : Type} (given : FlagGroup → Option α) (groups : List FlagGroup) : Option α :=
  (groups.filterMap given).getLast?

/-- The number that is last given for a setting, or the default if none is given. -/
def latestNumber (flag : ValueFlag) (groups : List FlagGroup) (default : Nat) : Nat :=
  ((latest (FlagGroup.value? flag) groups).map Text.digitsValue).getD default

/-- Every field has the last value that is given for it, or its default. -/
structure Reflects (config : ServerConfig) (port root : Octets) (groups : List FlagGroup) : Prop where
  port : config.port = port
  root : config.root = root
  address : config.address = (latest (FlagGroup.value? .address) groups).getD (ascii "0.0.0.0")
  timeout : config.engine.defaultTimeout.toInt = latestNumber .timeout groups 3
  retryLimit : config.engine.retryLimit.toNat = latestNumber .retryLimit groups 5
  blockSize : config.engine.limits.maxBlockSize.toNat = latestNumber .blockSize groups 65464
  logLevel : config.logLevel = (latest FlagGroup.level? groups).getD .info
  minBlockSize : config.engine.limits.minBlockSize = 8
  minTimeout : config.engine.limits.minTimeout = 1
  maxTimeout : config.engine.limits.maxTimeout = 255

/-- The groups of every setting stand in the same order in both lists. -/
def SameOrder (groups others : List FlagGroup) : Prop :=
  ∀ setting : Option ValueFlag,
    others.filter (·.setting = setting) = groups.filter (·.setting = setting)

/-! ## Failures -/

/-- What is wrong with the first of some arguments: it is no flag, its value is missing,
or its value is not one that it takes. -/
inductive Flaw : List Octets → ConfigError → Prop where
  | unknown (argument : Octets) (rest : List Octets)
      (hargument : argument ∉ ["-v", "-q", "-a", "-t", "-r", "-b"].map ascii) :
      Flaw (argument :: rest) (.unknownArgument argument)
  | missingValue (flag : ValueFlag) : Flaw [flag.spelling] (.missingValue flag.spelling)
  | timeout (value : Octets) (rest : List Octets) (hvalue : ¬ NumberWithin 1 255 value) :
      Flaw (ascii "-t" :: value :: rest) (.invalidTimeout value)
  | retryLimit (value : Octets) (rest : List Octets) (hvalue : ¬ NumberWithin 0 255 value) :
      Flaw (ascii "-r" :: value :: rest) (.invalidRetryLimit value)
  | blockSize (value : Octets) (rest : List Octets) (hvalue : ¬ NumberWithin 8 65464 value) :
      Flaw (ascii "-b" :: value :: rest) (.invalidBlockSize value)

/-- The first thing that is wrong with all arguments of the program, its name included. -/
inductive FirstFailure : List Octets → ConfigError → Prop where
  | missingPositionals (arguments : List Octets) (hlength : arguments.length < 3) :
      FirstFailure arguments .missingPositionals
  | invalidPort (program port root : Octets) (flags : List Octets)
      (hport : ¬ NumberWithin 1 65535 port) :
      FirstFailure (program :: port :: root :: flags) (.invalidPort port)
  | flawed (program port root : Octets) (groups : List FlagGroup) (rest : List Octets)
      (error : ConfigError) (hport : NumberWithin 1 65535 port)
      (hgroups : ∀ group ∈ groups, group.Valid) (hflaw : Flaw rest error) :
      FirstFailure (program :: port :: root :: (groups.flatMap FlagGroup.arguments ++ rest)) error

/-! ## Reading a group -/

namespace ValueFlag

theorem ofArgument_spelling (flag : ValueFlag) : ofArgument flag.spelling = some flag := by
  cases flag <;> decide

theorem spelling_of_ofArgument {argument : Octets} {flag : ValueFlag}
    (hflag : ofArgument argument = some flag) : argument = flag.spelling := by
  unfold ofArgument at hflag
  grind [spelling]

theorem spelling_ne_verbose (flag : ValueFlag) : flag.spelling ≠ ascii "-v" := by
  cases flag <;> decide

theorem spelling_ne_quiet (flag : ValueFlag) : flag.spelling ≠ ascii "-q" := by
  cases flag <;> decide

end ValueFlag

/-- The configuration after a valid group. -/
def adopt (config : ServerConfig) : FlagGroup → ServerConfig
  | .verbose => { config with logLevel := .debug }
  | .quiet => { config with logLevel := .warning }
  | .valued .address value => { config with address := value }
  | .valued .timeout value =>
    { config with engine :=
      { config.engine with defaultTimeout := Int64.ofNat (Text.digitsValue value) } }
  | .valued .retryLimit value =>
    { config with engine :=
      { config.engine with retryLimit := UInt32.ofNat (Text.digitsValue value) } }
  | .valued .blockSize value =>
    { config with engine := { config.engine with limits :=
      { config.engine.limits with maxBlockSize := UInt64.ofNat (Text.digitsValue value) } } }

theorem setValue_of_takes (config : ServerConfig) {flag : ValueFlag} {value : Octets}
    (htakes : flag.Takes value) :
    config.setValue flag value = .ok (config.adopt (.valued flag value)) := by
  cases flag with
  | address => rfl
  | timeout | retryLimit | blockSize =>
      simp only [setValue]
      rw [parseBounded_of_numberWithin (by decide) htakes]
      rfl

theorem applyFlags_value (config : ServerConfig) (flag : ValueFlag) (value : Octets)
    (rest : List Octets) :
    config.applyFlags (flag.spelling :: value :: rest) =
      (config.setValue flag value >>= fun config => config.applyFlags rest) := by
  rw [applyFlags, if_neg flag.spelling_ne_verbose, if_neg flag.spelling_ne_quiet,
    flag.ofArgument_spelling]

/-- A valid group is taken over, and reading goes on behind it. -/
theorem applyFlags_group (config : ServerConfig) {group : FlagGroup} (hvalid : group.Valid)
    (rest : List Octets) :
    config.applyFlags (group.arguments ++ rest) = (config.adopt group).applyFlags rest := by
  cases group with
  | verbose => exact if_pos rfl
  | quiet => exact (if_neg (by decide)).trans (if_pos rfl)
  | valued flag value =>
      refine (config.applyFlags_value flag value rest).trans ?_
      rw [setValue_of_takes config hvalid]
      rfl

theorem applyFlags_groups (config : ServerConfig) {groups : List FlagGroup}
    (hvalid : ∀ group ∈ groups, group.Valid) (rest : List Octets) :
    config.applyFlags (groups.flatMap FlagGroup.arguments ++ rest) =
      (groups.foldl adopt config).applyFlags rest := by
  induction groups generalizing config with
  | nil => rfl
  | cons group groups ih =>
      obtain ⟨hgroup, hgroups⟩ := List.forall_mem_cons.mp hvalid
      rw [List.flatMap_cons, List.append_assoc, applyFlags_group config hgroup, ih _ hgroups]
      rfl

theorem applyFlags_of_flaw (config : ServerConfig) {arguments : List Octets} {error : ConfigError}
    (hflaw : Flaw arguments error) : config.applyFlags arguments = .error error := by
  cases hflaw with
  | unknown argument rest hargument =>
      simp only [List.map_cons, List.map_nil, List.mem_cons, List.not_mem_nil, or_false,
        not_or] at hargument
      obtain ⟨hverbose, hquiet, haddress, htimeout, hretry, hsize⟩ := hargument
      rw [applyFlags, if_neg hverbose, if_neg hquiet, ValueFlag.ofArgument, if_neg haddress,
        if_neg htimeout, if_neg hretry, if_neg hsize]
  | missingValue flag =>
      rw [applyFlags, if_neg flag.spelling_ne_verbose, if_neg flag.spelling_ne_quiet,
        flag.ofArgument_spelling]
  | timeout value rest hvalue =>
      refine (config.applyFlags_value .timeout value rest).trans ?_
      rw [setValue, parseBounded_of_not_numberWithin (by decide) hvalue]
      rfl
  | retryLimit value rest hvalue =>
      refine (config.applyFlags_value .retryLimit value rest).trans ?_
      rw [setValue, parseBounded_of_not_numberWithin (by decide) hvalue]
      rfl
  | blockSize value rest hvalue =>
      refine (config.applyFlags_value .blockSize value rest).trans ?_
      rw [setValue, parseBounded_of_not_numberWithin (by decide) hvalue]
      rfl

/-! ## Splitting -/

theorem exists_flaw_of_not_takes {flag : ValueFlag} {value : Octets} (hvalue : ¬ flag.Takes value)
    (rest : List Octets) : ∃ error, Flaw (flag.spelling :: value :: rest) error := by
  cases flag with
  | address => exact absurd trivial hvalue
  | timeout => exact ⟨_, .timeout value rest hvalue⟩
  | retryLimit => exact ⟨_, .retryLimit value rest hvalue⟩
  | blockSize => exact ⟨_, .blockSize value rest hvalue⟩

/-- Arguments that are left begin with a valid group or are flawed. -/
theorem exists_group_or_flaw (argument : Octets) (rest : List Octets) :
    (∃ group : FlagGroup, group.Valid ∧ ∃ later, later.length ≤ rest.length ∧
        argument :: rest = group.arguments ++ later) ∨
      ∃ error, Flaw (argument :: rest) error := by
  by_cases hverbose : argument = ascii "-v"
  · exact .inl ⟨.verbose, trivial, rest, Nat.le_refl _, hverbose ▸ rfl⟩
  by_cases hquiet : argument = ascii "-q"
  · exact .inl ⟨.quiet, trivial, rest, Nat.le_refl _, hquiet ▸ rfl⟩
  cases hflag : ValueFlag.ofArgument argument with
  | none =>
      refine .inr ⟨_, .unknown argument rest ?_⟩
      unfold ValueFlag.ofArgument at hflag
      simp only [List.map_cons, List.map_nil, List.mem_cons, List.not_mem_nil, or_false]
      grind
  | some flag =>
      obtain rfl := ValueFlag.spelling_of_ofArgument hflag
      cases rest with
      | nil => exact .inr ⟨_, .missingValue flag⟩
      | cons value later =>
          by_cases hvalue : flag.Takes value
          · exact .inl ⟨.valued flag value, hvalue, later, Nat.le_succ _, rfl⟩
          · exact .inr (exists_flaw_of_not_takes hvalue later)

/-- Arguments are valid groups up to their end or up to the first flaw. -/
theorem exists_groups (arguments : List Octets) :
    ∃ (groups : List FlagGroup) (rest : List Octets),
      arguments = groups.flatMap FlagGroup.arguments ++ rest ∧ (∀ group ∈ groups, group.Valid) ∧
        (rest = [] ∨ ∃ error, Flaw rest error) := by
  induction hlength : arguments.length using Nat.strong_induction_on generalizing arguments with
  | _ length ih =>
    cases arguments with
    | nil => exact ⟨[], [], rfl, by simp, .inl rfl⟩
    | cons argument rest =>
        rcases exists_group_or_flaw argument rest with ⟨group, hgroup, later, hlater, hsplit⟩ | hflaw
        · have hshorter : later.length < length := by
            rw [← hlength, List.length_cons]
            exact Nat.lt_succ_of_le hlater
          obtain ⟨groups, final, hgroups, hvalid, hfinal⟩ := ih _ hshorter later rfl
          refine ⟨group :: groups, final, ?_, List.forall_mem_cons.mpr ⟨hgroup, hvalid⟩, hfinal⟩
          rw [hsplit, hgroups, List.flatMap_cons, List.append_assoc]
        · exact ⟨[], argument :: rest, rfl, by simp, .inr hflaw⟩

/-! ## One way to split -/

theorem FlagGroup.eq_of_arguments_append {first second : FlagGroup} {left right : List Octets}
    (hsame : first.arguments ++ left = second.arguments ++ right) : first = second ∧ left = right := by
  cases first with
  | verbose =>
      cases second with
      | verbose => exact ⟨rfl, (List.cons.inj hsame).2⟩
      | quiet => exact absurd (List.cons.inj hsame).1 (by decide)
      | valued flag _ => exact absurd (List.cons.inj hsame).1.symm flag.spelling_ne_verbose
  | quiet =>
      cases second with
      | verbose => exact absurd (List.cons.inj hsame).1 (by decide)
      | quiet => exact ⟨rfl, (List.cons.inj hsame).2⟩
      | valued flag _ => exact absurd (List.cons.inj hsame).1.symm flag.spelling_ne_quiet
  | valued flag value =>
      cases second with
      | verbose => exact absurd (List.cons.inj hsame).1 flag.spelling_ne_verbose
      | quiet => exact absurd (List.cons.inj hsame).1 flag.spelling_ne_quiet
      | valued other =>
          obtain ⟨hspelling, hrest⟩ := List.cons.inj hsame
          obtain ⟨rfl, rfl⟩ := List.cons.inj hrest
          have hflag := congrArg ValueFlag.ofArgument hspelling
          rw [ValueFlag.ofArgument_spelling, ValueFlag.ofArgument_spelling] at hflag
          exact ⟨by rw [Option.some.inj hflag], rfl⟩

theorem FlagGroup.arguments_ne_nil (group : FlagGroup) : group.arguments ≠ [] := by
  cases group <;> simp [arguments]

theorem groups_unique {groups others : List FlagGroup}
    (hsame : groups.flatMap FlagGroup.arguments = others.flatMap FlagGroup.arguments) :
    groups = others := by
  induction groups generalizing others with
  | nil =>
      cases others with
      | nil => rfl
      | cons other others =>
          rw [List.flatMap_nil, List.flatMap_cons, eq_comm, List.append_eq_nil_iff] at hsame
          exact absurd hsame.1 other.arguments_ne_nil
  | cons group groups ih =>
      cases others with
      | nil =>
          rw [List.flatMap_nil, List.flatMap_cons, List.append_eq_nil_iff] at hsame
          exact absurd hsame.1 group.arguments_ne_nil
      | cons other others =>
          rw [List.flatMap_cons, List.flatMap_cons] at hsame
          obtain ⟨rfl, hrest⟩ := FlagGroup.eq_of_arguments_append hsame
          rw [ih hrest]

/-! ## The configuration -/

@[simp] theorem latest_concat {α : Type} (given : FlagGroup → Option α) (groups : List FlagGroup)
    (group : FlagGroup) : latest given (groups ++ [group]) = (given group).or (latest given groups) := by
  rw [latest, latest, List.filterMap_append]
  cases hgiven : given group with
  | none => simp [hgiven]
  | some value => simp [hgiven]

@[simp] theorem latestNumber_concat (flag : ValueFlag) (groups : List FlagGroup) (group : FlagGroup)
    (default : Nat) :
    latestNumber flag (groups ++ [group]) default =
      ((group.value? flag).map Text.digitsValue).getD (latestNumber flag groups default) := by
  rw [latestNumber, latestNumber, latest_concat]
  cases group.value? flag <;> rfl

theorem latest_filter {α : Type} {given : FlagGroup → Option α} {setting : Option ValueFlag}
    (hgiven : ∀ group value, given group = some value → group.setting = setting)
    (groups : List FlagGroup) : latest given (groups.filter (·.setting = setting)) = latest given groups := by
  have hsame : (fun group => if decide (group.setting = setting) then given group else none) = given := by
    funext group
    cases hvalue : given group with
    | none => simp
    | some value => simp [hgiven group value hvalue]
  rw [latest, latest, List.filterMap_filter, hsame]

theorem SameOrder.latest_eq {α : Type} {groups others : List FlagGroup}
    (hsame : SameOrder groups others) {given : FlagGroup → Option α} (setting : Option ValueFlag)
    (hgiven : ∀ group value, given group = some value → group.setting = setting) :
    latest given others = latest given groups := by
  rw [← latest_filter hgiven, hsame setting, latest_filter hgiven]

section Reflects

variable {config : ServerConfig} {port root : Octets} {groups : List FlagGroup}

theorem reflects_initial (port root : Octets) : Reflects { port, root } port root [] :=
  ⟨rfl, rfl, rfl, rfl, rfl, rfl, rfl, rfl, rfl, rfl⟩

/-- A further group sets its own setting and leaves the others. -/
theorem Reflects.adopt (hreflects : config.Reflects port root groups) {group : FlagGroup}
    (hvalid : group.Valid) : (config.adopt group).Reflects port root (groups ++ [group]) := by
  obtain ⟨hport, hroot, haddress, htimeout, hretry, hsize, hlevel, hmin, hshort, hlong⟩ := hreflects
  cases group with
  | verbose | quiet =>
      constructor <;> simp [ServerConfig.adopt, FlagGroup.value?, FlagGroup.level?, *]
  | valued flag value =>
      cases flag with
      | address =>
          constructor <;> simp [ServerConfig.adopt, FlagGroup.value?, FlagGroup.level?, *]
      | timeout =>
          have hvalue : (Int64.ofNat (Text.digitsValue value)).toInt = Text.digitsValue value :=
            Int64.toInt_ofNat_of_lt (Nat.lt_of_le_of_lt hvalid.2.2 (by decide))
          constructor <;> simp [ServerConfig.adopt, FlagGroup.value?, FlagGroup.level?,
            -Int64.toInt_ofNat', *]
      | retryLimit =>
          have hvalue : (UInt32.ofNat (Text.digitsValue value)).toNat = Text.digitsValue value :=
            UInt32.toNat_ofNat_of_lt' (Nat.lt_of_le_of_lt hvalid.2.2 (by decide))
          constructor <;> simp [ServerConfig.adopt, FlagGroup.value?, FlagGroup.level?,
            -UInt32.toNat_ofNat', *]
      | blockSize =>
          have hvalue : (UInt64.ofNat (Text.digitsValue value)).toNat = Text.digitsValue value :=
            UInt64.toNat_ofNat_of_lt' (Nat.lt_of_le_of_lt hvalid.2.2 (by decide))
          constructor <;> simp [ServerConfig.adopt, FlagGroup.value?, FlagGroup.level?,
            -UInt64.toNat_ofNat', *]

theorem Reflects.foldl_adopt (hreflects : config.Reflects port root groups)
    {later : List FlagGroup} (hvalid : ∀ group ∈ later, group.Valid) :
    (later.foldl ServerConfig.adopt config).Reflects port root (groups ++ later) := by
  induction later generalizing config groups with
  | nil => rwa [List.append_nil]
  | cons group later ih =>
      obtain ⟨hgroup, hlater⟩ := List.forall_mem_cons.mp hvalid
      rw [List.append_cons]
      exact ih (hreflects.adopt hgroup) hlater

/-- Nothing else is in a configuration. -/
theorem Reflects.unique {other : ServerConfig} (hconfig : config.Reflects port root groups)
    (hother : other.Reflects port root groups) : config = other := by
  have htime := Int64.toInt.inj (hconfig.timeout.trans hother.timeout.symm)
  have hretry := UInt32.toNat.inj (hconfig.retryLimit.trans hother.retryLimit.symm)
  have hsize := UInt64.toNat.inj (hconfig.blockSize.trans hother.blockSize.symm)
  obtain ⟨hport, hroot, haddress, -, -, -, hlevel, hmin, hshort, hlong⟩ := hconfig
  obtain ⟨hport', hroot', haddress', -, -, -, hlevel', hmin', hshort', hlong'⟩ := hother
  obtain ⟨_, _, _, ⟨⟨_, _, _, _⟩, _, _⟩, _⟩ := config
  obtain ⟨_, _, _, ⟨⟨_, _, _, _⟩, _, _⟩, _⟩ := other
  simp_all

/-- Groups that set different settings may change places. -/
theorem Reflects.of_sameOrder (hreflects : config.Reflects port root groups)
    {others : List FlagGroup} (hsame : SameOrder groups others) :
    config.Reflects port root others := by
  have hvalue (flag : ValueFlag) :
      latest (FlagGroup.value? flag) others = latest (FlagGroup.value? flag) groups :=
    hsame.latest_eq (some flag) fun group value hvalue => by
      cases group <;> grind [FlagGroup.value?, FlagGroup.setting]
  have hlevel : latest FlagGroup.level? others = latest FlagGroup.level? groups :=
    hsame.latest_eq none fun group level hlevel => by
      cases group <;> grind [FlagGroup.level?, FlagGroup.setting]
  have hnumber (flag : ValueFlag) (default : Nat) :
      latestNumber flag others default = latestNumber flag groups default := by
    rw [latestNumber, latestNumber, hvalue]
  exact { hreflects with
    address := hvalue .address ▸ hreflects.address
    timeout := hnumber .timeout 3 ▸ hreflects.timeout
    retryLimit := hnumber .retryLimit 5 ▸ hreflects.retryLimit
    blockSize := hnumber .blockSize 65464 ▸ hreflects.blockSize
    logLevel := hlevel ▸ hreflects.logLevel }

end Reflects

/-! ## All arguments -/

/-- What the arguments behind the program name come to, if the port is a port. -/
theorem ofArguments_groups {port : Octets} (hport : NumberWithin 1 65535 port) (root : Octets)
    {groups : List FlagGroup} (hvalid : ∀ group ∈ groups, group.Valid) (rest : List Octets) :
    ofArguments (port :: root :: (groups.flatMap FlagGroup.arguments ++ rest)) =
      (groups.foldl adopt { port, root }).applyFlags rest := by
  rw [ofArguments, parseBounded_of_numberWithin (by decide) hport]
  exact applyFlags_groups _ hvalid rest

theorem ofArguments_of_groups {port : Octets} (hport : NumberWithin 1 65535 port) (root : Octets)
    {groups : List FlagGroup} (hvalid : ∀ group ∈ groups, group.Valid) :
    ∃ config, ofArguments (port :: root :: groups.flatMap FlagGroup.arguments) = .ok config ∧
      config.Reflects port root groups := by
  refine ⟨groups.foldl adopt { port, root }, ?_, (reflects_initial port root).foldl_adopt hvalid⟩
  rw [← List.append_nil (groups.flatMap FlagGroup.arguments), ofArguments_groups hport root hvalid]
  rfl

theorem ofArguments_of_firstFailure {arguments : List Octets} {error : ConfigError}
    (hfailure : FirstFailure arguments error) : ofArguments arguments.tail = .error error := by
  cases hfailure with
  | missingPositionals _ hlength =>
      match arguments, hlength with
      | [], _ | [_], _ | [_, _], _ => rfl
  | invalidPort program port root flags hport =>
      rw [List.tail_cons, ofArguments, parseBounded_of_not_numberWithin (by decide) hport]
  | flawed program port root groups rest error hport hgroups hflaw =>
      rw [List.tail_cons, ofArguments_groups hport root hgroups, applyFlags_of_flaw _ hflaw]

/-- Arguments are in order, or something in them is wrong first. -/
theorem inOrder_or_firstFailure (arguments : List Octets) :
    (∃ (program port root : Octets) (groups : List FlagGroup),
        arguments = program :: port :: root :: groups.flatMap FlagGroup.arguments ∧
          NumberWithin 1 65535 port ∧ ∀ group ∈ groups, group.Valid) ∨
      ∃ error, FirstFailure arguments error := by
  match arguments with
  | [] | [_] | [_, _] => exact .inr ⟨_, .missingPositionals _ (by simp)⟩
  | program :: port :: root :: flags =>
      by_cases hport : NumberWithin 1 65535 port
      · obtain ⟨groups, rest, rfl, hvalid, hrest⟩ := exists_groups flags
        rcases hrest with rfl | ⟨error, hflaw⟩
        · exact .inl ⟨program, port, root, groups, by rw [List.append_nil], hport, hvalid⟩
        · exact .inr ⟨error, .flawed program port root groups rest error hport hvalid hflaw⟩
      · exact .inr ⟨_, .invalidPort program port root flags hport⟩

theorem ofArguments_eq_ok_iff {arguments : List Octets} {config : ServerConfig} :
    ofArguments arguments.tail = .ok config ↔
      ∃ (program port root : Octets) (groups : List FlagGroup),
        arguments = program :: port :: root :: groups.flatMap FlagGroup.arguments ∧
          NumberWithin 1 65535 port ∧ (∀ group ∈ groups, group.Valid) ∧
          config.Reflects port root groups := by
  constructor
  · intro hconfig
    rcases inOrder_or_firstFailure arguments with
      ⟨program, port, root, groups, rfl, hport, hvalid⟩ | ⟨error, hfailure⟩
    · obtain ⟨settled, hsettled, hreflects⟩ := ofArguments_of_groups hport root hvalid
      rw [List.tail_cons, hsettled] at hconfig
      cases hconfig
      exact ⟨program, port, root, groups, rfl, hport, hvalid, hreflects⟩
    · rw [ofArguments_of_firstFailure hfailure] at hconfig
      cases hconfig
  · rintro ⟨program, port, root, groups, rfl, hport, hvalid, hreflects⟩
    obtain ⟨settled, hsettled, hother⟩ := ofArguments_of_groups hport root hvalid
    rw [List.tail_cons, hsettled, hother.unique hreflects]

theorem ofArguments_eq_error_iff {arguments : List Octets} {error : ConfigError} :
    ofArguments arguments.tail = .error error ↔ FirstFailure arguments error := by
  refine ⟨fun herror => ?_, ofArguments_of_firstFailure⟩
  rcases inOrder_or_firstFailure arguments with
    ⟨program, port, root, groups, rfl, hport, hvalid⟩ | ⟨first, hfailure⟩
  · obtain ⟨settled, hsettled, _⟩ := ofArguments_of_groups hport root hvalid
    rw [List.tail_cons, hsettled] at herror
    cases herror
  · rw [ofArguments_of_firstFailure hfailure] at herror
    cases herror
    exact hfailure

/-- Accepted arguments stay accepted, with the same outcome, when groups that set
different settings change places. -/
theorem ofArguments_of_sameOrder {port root : Octets} {groups others : List FlagGroup}
    {config : ServerConfig} (hsame : SameOrder groups others)
    (hconfig : ofArguments (port :: root :: groups.flatMap FlagGroup.arguments) = .ok config) :
    ofArguments (port :: root :: others.flatMap FlagGroup.arguments) = .ok config := by
  have haccepted : ofArguments
      (List.tail ([] :: port :: root :: groups.flatMap FlagGroup.arguments)) = .ok config := hconfig
  obtain ⟨_, _, _, split, hsplit, hport, hvalid, hreflects⟩ := ofArguments_eq_ok_iff.mp haccepted
  obtain ⟨-, rfl, rfl, hgroups⟩ : _ ∧ _ ∧ _ ∧ _ := by simpa using hsplit
  obtain rfl := groups_unique hgroups
  have hothers : ∀ group ∈ others, group.Valid := by
    intro group hgroup
    have hfound : group ∈ others.filter (·.setting = group.setting) := by simp [hgroup]
    rw [hsame group.setting] at hfound
    exact hvalid group (List.mem_filter.mp hfound).1
  have hmoved : ofArguments
      (List.tail ([] :: port :: root :: others.flatMap FlagGroup.arguments)) = .ok config :=
    ofArguments_eq_ok_iff.mpr
      ⟨[], port, root, others, rfl, hport, hothers, hreflects.of_sameOrder hsame⟩
  exact hmoved

/-- The reason that goes with the outcome; empty if there is a configuration. -/
def reason : Except ConfigError ServerConfig → Octets
  | .ok _ => []
  | .error error => error.message

/-- Reading the arguments of the program, its name included, is exact. There is a
configuration if and only if there are a port and a root, the port is a port, and the
arguments behind them split into valid groups; and then every field has the value of the
last group that sets it, or its default. Otherwise it is the first thing wrong, from left
to right, that is reported. There is a reason if and only if there is no configuration,
and it quotes the text that is wrong. Groups that set different settings may stand in any
order. -/
theorem ofArguments_exact (arguments : List Octets) :
    (∀ config, ofArguments arguments.tail = .ok config ↔
      ∃ (program port root : Octets) (groups : List FlagGroup),
        arguments = program :: port :: root :: groups.flatMap FlagGroup.arguments ∧
          NumberWithin 1 65535 port ∧ (∀ group ∈ groups, group.Valid) ∧
          config.Reflects port root groups) ∧
      (∀ error, ofArguments arguments.tail = .error error ↔ FirstFailure arguments error) ∧
      (reason (ofArguments arguments.tail) = [] ↔ ∃ config, ofArguments arguments.tail = .ok config) ∧
      (∀ error, FirstFailure arguments error →
        error.subject <:+ reason (ofArguments arguments.tail)) ∧
      ∀ (program port root : Octets) (groups others : List FlagGroup) (config : ServerConfig),
        arguments = program :: port :: root :: groups.flatMap FlagGroup.arguments →
        ofArguments arguments.tail = .ok config → SameOrder groups others →
        ofArguments (port :: root :: others.flatMap FlagGroup.arguments) = .ok config := by
  refine ⟨fun config => ofArguments_eq_ok_iff, fun error => ofArguments_eq_error_iff, ?_,
    fun error hfailure => ?_, ?_⟩
  · cases ofArguments arguments.tail with
    | ok config => simp [reason]
    | error error => simp [reason, error.message_ne_nil]
  · rw [ofArguments_of_firstFailure hfailure]
    exact error.subject_suffix_message
  · rintro program port root groups others config rfl hconfig hsame
    exact ofArguments_of_sameOrder hsame hconfig

/-- A flag as a value, a repeated flag, and both log levels: the last of each counts,
also when they are moved past one another. -/
theorem ofArguments_exact_for_repeated_flags :
    let groups : List FlagGroup := [.valued .address (ascii "-v"), .verbose,
      .valued .timeout (ascii "10"), .quiet, .valued .timeout (ascii "007")]
    let others : List FlagGroup := [.verbose, .quiet, .valued .timeout (ascii "10"),
      .valued .timeout (ascii "007"), .valued .address (ascii "-v")]
    let arguments := [ascii "-v", ascii "-q", ascii "-t", ascii "10", ascii "-t", ascii "007",
      ascii "-a", ascii "-v"]
    let config : ServerConfig :=
      { address := ascii "-v", port := ascii "69", root := ascii "srv"
        engine := { defaultTimeout := 7 }
        logLevel := .warning }
    SameOrder groups others ∧
      ofArguments (ascii "69" :: ascii "srv" :: groups.flatMap FlagGroup.arguments) = .ok config ∧
      ofArguments (ascii "69" :: ascii "srv" :: arguments) = .ok config := by
  intro groups others arguments config
  have hsame : SameOrder groups others := by
    intro setting
    rcases setting with - | - | - | - | - <;> rfl
  have hconfig : ofArguments
      (ascii "69" :: ascii "srv" :: groups.flatMap FlagGroup.arguments) = .ok config := by
    decide +kernel
  exact ⟨hsame, hconfig, (ofArguments_exact
    (ascii "rolltftpd" :: ascii "69" :: ascii "srv" :: groups.flatMap FlagGroup.arguments)).2.2.2.2
      _ _ _ groups others config rfl hconfig hsame⟩

end ServerConfig

end TftpServer
