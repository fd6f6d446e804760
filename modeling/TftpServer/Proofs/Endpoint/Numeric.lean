import TftpServer.Proofs.Packet.Fields
import TftpServer.Proofs.Text.Decimal
import TftpServer.Proofs.Text.Hexadecimal
import TftpServer.Proofs.Text.Split

/-! # Reading printed addresses

The text of an IPv6 address is read back as the address, however its zero groups are
shortened and whether or not its end is dotted. It is made of hexadecimal digits, colons
and dots.
-/

namespace TftpServer.Address

open Text

theorem mapM_map_of_forall {α β γ : Type} {print : α → β} {read : β → Option γ} {value : α → γ}
    {items : List α} (hread : ∀ item ∈ items, read (print item) = some (value item)) :
    (items.map print).mapM read = some (items.map value) := by
  induction items with
  | nil => rfl
  | cons first rest ih =>
      obtain ⟨hfirst, hrest⟩ := List.forall_mem_cons.mp hread
      rw [List.map_cons, List.mapM_cons, hfirst, ih hrest]
      rfl

/-! ## Dotted addresses -/

theorem parseDottedOctet_decimal (octet : UInt8) :
    parseDottedOctet (decimal octet.toNat) = some octet := by
  have hvalue := octet.toNat_lt
  have hlength : (decimal octet.toNat).length ≤ 3 :=
    length_decimal_le (by decide) (by omega)
  rw [parseDottedOctet, parseDecimal_decimal (by omega)]
  simp only [hlength, and_self, if_true, UInt8.ofNat_toNat]

/-- Four octets in dotted form are read back. -/
theorem parseDotted_dotted {octets : Octets} (hlength : octets.length = 4) :
    parseDotted (dotted octets) = some octets := by
  have hne : octets.map (fun octet => decimal octet.toNat) ≠ [] := by
    rw [ne_eq, List.map_eq_nil_iff]
    rintro rfl
    cases hlength
  have hparts : splitOn 46 (dotted octets) = octets.map fun octet => decimal octet.toNat := by
    apply splitOn_joinWith hne
    intro text htext
    obtain ⟨octet, _, rfl⟩ := List.mem_map.mp htext
    exact notMem_decimal (by decide) _
  have hread : (octets.map fun octet => decimal octet.toNat).mapM parseDottedOctet = some octets := by
    rw [mapM_map_of_forall fun octet _ => parseDottedOctet_decimal octet, List.map_id']
  rw [parseDotted, hparts, List.length_map, if_pos hlength, hread]

theorem dotted_inj {first second : Octets} (hfirst : first.length = 4) (hsecond : second.length = 4)
    (htext : dotted first = dotted second) : first = second := by
  have hread := parseDotted_dotted hfirst
  rw [htext, parseDotted_dotted hsecond] at hread
  exact (Option.some.inj hread).symm

theorem mapM_of_mem {α β : Type} {read : α → Option β} {items : List α} {item : α}
    (hitem : item ∈ items) (hread : read item = none) : items.mapM read = none := by
  induction items with
  | nil => cases hitem
  | cons first rest ih =>
      rw [List.mapM_cons]
      rcases List.mem_cons.mp hitem with rfl | hrest
      · rw [hread]
        rfl
      · rw [ih hrest]
        cases read first <;> rfl

/-- A dotted address is not taken for a group. -/
theorem parseGroup_dotted {octets : Octets} (hlength : octets.length = 4) :
    parseGroup (dotted octets) = none := by
  have hdot : 46 ∈ dotted octets := by
    obtain ⟨first, second, rest, rfl⟩ : ∃ first second rest, octets = first :: second :: rest := by
      match octets, hlength with
      | first :: second :: rest, _ => exact ⟨first, second, rest, rfl⟩
    rw [dotted, List.map_cons, List.map_cons, joinWith]
    · exact List.mem_append_cons_self
    · exact List.cons_ne_nil _ _
  rw [parseGroup, mapM_of_mem hdot (by decide)]
  rfl

/-! ## Groups -/

/-- The octets of a group. -/
def groupOctets (group : Nat) : Octets :=
  [UInt8.ofNat (group / 256), UInt8.ofNat (group % 256)]

theorem parseGroup_hexadecimal {group : Nat} (hgroup : group < 65536) :
    parseGroup (hexadecimal group) = some (groupOctets group) := by
  obtain ⟨digits, hread, hlength, hvalue⟩ := mapM_hexadecimal group
  have hmost : (hexadecimal group).length ≤ 3 + 1 := length_hexadecimal_le hgroup
  have hleast : 0 < (hexadecimal group).length := List.length_pos_iff.mpr (hexadecimal_ne_nil group)
  rw [hexValue] at hvalue
  have hdigits : 1 ≤ digits.length ∧ digits.length ≤ 4 := by omega
  simp only [parseGroup, hread, bind, Option.bind_some, hdigits, and_self, if_true, hvalue,
    groupOctets]

theorem parseGroups_map {groups : List Nat} (hgroups : ∀ group ∈ groups, group < 65536) :
    parseGroups (groups.map hexadecimal) = some (groups.flatMap groupOctets) := by
  induction groups with
  | nil => rfl
  | cons group rest ih =>
      obtain ⟨hgroup, hrest⟩ := List.forall_mem_cons.mp hgroups
      cases rest with
      | nil => simp [parseGroups, parseGroup_hexadecimal hgroup]
      | cons next others =>
          rw [List.map_cons, List.map_cons, parseGroups, parseGroup_hexadecimal hgroup,
            ← List.map_cons, ih hrest]
          · rfl
          · exact List.cons_ne_nil _ _

theorem colon_notMem_hexadecimal (group : Nat) : 58 ∉ hexadecimal group :=
  fun hcolon => absurd (mem_hexDigits_of_mem_hexadecimal hcolon) (by decide)

theorem splitOn_groupsText {groups : List Nat} (hne : groups ≠ []) :
    splitOn 58 (groupsText groups) = groups.map hexadecimal := by
  apply splitOn_joinWith (by rwa [ne_eq, List.map_eq_nil_iff])
  intro text htext
  obtain ⟨group, _, rfl⟩ := List.mem_map.mp htext
  exact colon_notMem_hexadecimal group

theorem groupsText_cons_cons (group next : Nat) (others : List Nat) :
    groupsText (group :: next :: others) =
      hexadecimal group ++ 58 :: groupsText (next :: others) := by
  rw [groupsText, List.map_cons, List.map_cons, joinWith, groupsText, List.map_cons]
  exact List.cons_ne_nil _ _

theorem groupsText_singleton (group : Nat) : groupsText [group] = hexadecimal group := rfl

theorem head?_groupsText (group : Nat) (others : List Nat) :
    ∃ octet ∈ hexadecimal group, (groupsText (group :: others)).head? = some octet := by
  obtain ⟨octet, digits, htext⟩ := List.exists_cons_of_ne_nil (hexadecimal_ne_nil group)
  refine ⟨octet, htext ▸ List.mem_cons_self, ?_⟩
  cases others with
  | nil => rw [groupsText_singleton, htext, List.head?_cons]
  | cons next others => rw [groupsText_cons_cons, htext, List.cons_append, List.head?_cons]

theorem groupsText_cons_ne_nil (group : Nat) (others : List Nat) :
    groupsText (group :: others) ≠ [] := by
  obtain ⟨octet, _, hhead⟩ := head?_groupsText group others
  rintro hnil
  rw [hnil] at hhead
  cases hhead

theorem sideGroups_groupsText (groups : List Nat) :
    sideGroups (groupsText groups) = groups.map hexadecimal := by
  cases groups with
  | nil => rfl
  | cons group rest =>
      rw [sideGroups, if_neg (groupsText_cons_ne_nil group rest),
        splitOn_groupsText (List.cons_ne_nil _ _)]

/-! ## The double colon -/

theorem cutAtDoubleColon_cons {octet : UInt8} (hoctet : octet ≠ 58) (rest : Octets) :
    cutAtDoubleColon (octet :: rest) =
      (cutAtDoubleColon rest).map fun (before, after) => (octet :: before, after) := by
  rw [cutAtDoubleColon]
  rintro others rfl
  exact absurd rfl hoctet

theorem cutAtDoubleColon_append {text : Octets} (htext : 58 ∉ text) (rest : Octets) :
    cutAtDoubleColon (text ++ rest) =
      (cutAtDoubleColon rest).map fun (before, after) => (text ++ before, after) := by
  induction text with
  | nil => simp
  | cons octet others ih =>
      rw [List.mem_cons, not_or] at htext
      rw [List.cons_append, cutAtDoubleColon_cons (Ne.symm htext.1), ih htext.2, Option.map_map]
      rfl

/-- A single colon is passed over. -/
theorem cutAtDoubleColon_colon {rest : Octets} (hrest : rest.head? ≠ some 58) :
    cutAtDoubleColon (58 :: rest) =
      (cutAtDoubleColon rest).map fun (before, after) => (58 :: before, after) := by
  rw [cutAtDoubleColon]
  rintro others _ rfl
  exact absurd rfl hrest

/-- The first double colon is not among the groups in front of it. -/
theorem cutAtDoubleColon_groupsText (groups : List Nat) (behind : Octets) :
    cutAtDoubleColon (groupsText groups ++ behind) =
      (cutAtDoubleColon behind).map fun (before, after) => (groupsText groups ++ before, after) := by
  induction groups with
  | nil => simp [groupsText, joinWith]
  | cons group rest ih =>
      cases rest with
      | nil => exact cutAtDoubleColon_append (colon_notMem_hexadecimal group) behind
      | cons next others =>
          have hnext : (groupsText (next :: others) ++ behind).head? ≠ some 58 := by
            obtain ⟨octet, hoctet, hhead⟩ := head?_groupsText next others
            rw [List.head?_append, hhead, Option.some_or, ne_eq, Option.some_inj]
            rintro rfl
            exact colon_notMem_hexadecimal next hoctet
          rw [groupsText_cons_cons, List.append_assoc, List.cons_append,
            cutAtDoubleColon_append (colon_notMem_hexadecimal group), cutAtDoubleColon_colon hnext,
            ih, Option.map_map, Option.map_map]
          congr 1
          ext pair <;> simp

/-! ## Runs of zero groups -/

theorem take_of_le_leadingZeros {groups : List Nat} {length : Nat}
    (hlength : length ≤ leadingZeros groups) : groups.take length = List.replicate length 0 := by
  have hzeros : groups.takeWhile (· == 0) = List.replicate (leadingZeros groups) 0 := by
    refine List.eq_replicate_iff.mpr ⟨rfl, fun group hgroup => ?_⟩
    have hzero := List.mem_takeWhile_imp hgroup
    exact eq_of_beq hzero
  have hfront : groups.take (leadingZeros groups) = groups.takeWhile (· == 0) :=
    (List.prefix_iff_eq_take.mp (List.takeWhile_prefix _)).symm
  rw [← Nat.min_eq_left hlength, ← List.take_take, hfront, hzeros, List.take_replicate]

/-- What is shortened is a run of at least two zero groups. -/
theorem zeroRun_eq_some {groups : List Nat} {start length : Nat}
    (hrun : zeroRun groups = some (start, length)) :
    2 ≤ length ∧
      groups = groups.take start ++ (List.replicate length 0 ++ groups.drop (start + length)) := by
  -- The best run so far is a run of zeros, at any point of the search.
  have hlongest := List.foldlRecOn (motive := fun best : Nat × Nat =>
      best.2 ≤ leadingZeros (groups.drop best.1)) (List.range groups.length)
    (fun best start =>
      if best.2 < leadingZeros (groups.drop start) then (start, leadingZeros (groups.drop start))
      else best)
    (show (0, 0).2 ≤ leadingZeros (groups.drop (0, 0).1) from Nat.zero_le _)
    (fun best hbest start _ => by
      split
      · exact Nat.le_refl _
      · exact hbest)
  rw [zeroRun] at hrun
  dsimp only at hrun hlongest
  split at hrun
  next => cases hrun
  next hworth =>
    rw [Option.some_inj] at hrun
    rw [hrun] at hlongest hworth
    refine ⟨Nat.le_of_not_lt hworth, ?_⟩
    rw [← take_of_le_leadingZeros hlongest, ← List.drop_drop, List.take_append_drop,
      List.take_append_drop]

/-! ## Addresses as groups -/

theorem groupOctets_pair (high low : UInt8) :
    groupOctets (high.toNat * 256 + low.toNat) = [high, low] := by
  rw [← toNat_word]
  exact wordOctets_word high low

theorem length_groups (address : Address) : address.groups.length = 8 := by
  simp [groups]

theorem lt_of_mem_groups {address : Address} {group : Nat} (hgroup : group ∈ address.groups) :
    group < 65536 := by
  obtain ⟨place, _, rfl⟩ := List.mem_map.mp hgroup
  have hhigh := (address.toList.getD (2 * place) 0).toNat_lt
  have hlow := (address.toList.getD (2 * place + 1) 0).toNat_lt
  omega

theorem flatMap_pairs {count : Nat} {octets : Octets} (hlength : octets.length = 2 * count) :
    ((List.range count).map fun place => (octets.getD (2 * place) 0).toNat * 256 +
      (octets.getD (2 * place + 1) 0).toNat).flatMap groupOctets = octets := by
  induction count generalizing octets with
  | zero =>
      rw [Nat.mul_zero, List.length_eq_zero_iff] at hlength
      rw [hlength]
      rfl
  | succ count ih =>
      match octets, hlength with
      | high :: low :: rest, hlength =>
          have hrest : rest.length = 2 * count := by
            simp only [List.length_cons] at hlength
            omega
          rw [List.range_succ_eq_map, List.map_cons, List.map_map, List.flatMap_cons]
          exact congrArg₂ (· ++ ·) (groupOctets_pair high low) (ih hrest)

/-- The groups of an address hold all its octets. -/
theorem flatMap_groups (address : Address) : address.groups.flatMap groupOctets = address.toList :=
  flatMap_pairs address.length_toList

theorem length_flatMap_groupOctets (groups : List Nat) :
    (groups.flatMap groupOctets).length = 2 * groups.length := by
  simp [List.length_flatMap, groupOctets, Nat.mul_comm]

theorem flatMap_replicate_zero (count : Nat) :
    (List.replicate count 0).flatMap groupOctets = List.replicate (2 * count) 0 := by
  induction count with
  | zero => rfl
  | succ count ih =>
      rw [List.replicate_succ, List.flatMap_cons, ih, Nat.mul_succ, List.replicate_succ,
        List.replicate_succ]
      rfl

/-! ## The round trip -/

/-- Groups in front of a double colon are read from the front, what is behind it from the end,
and there are zeros in between. -/
theorem parseIpv6_shortened {front : List Nat} {behind octets : Octets}
    (hfront : ∀ group ∈ front, group < 65536)
    (hbehind : parseGroups (sideGroups behind) = some octets)
    (hroom : 2 * front.length + octets.length < 16) :
    parseIpv6 (groupsText front ++ ascii "::" ++ behind) =
      some (front.flatMap groupOctets ++
        List.replicate (16 - (2 * front.length + octets.length)) 0 ++ octets) := by
  have hcut : cutAtDoubleColon (groupsText front ++ ascii "::" ++ behind) =
      some (groupsText front, behind) := by
    rw [List.append_assoc, cutAtDoubleColon_groupsText]
    show some (groupsText front ++ [], behind) = _
    rw [List.append_nil]
  have hread : (sideGroups (groupsText front)).mapM parseGroup = some (front.map groupOctets) := by
    rw [sideGroups_groupsText]
    exact mapM_map_of_forall fun group hgroup => parseGroup_hexadecimal (hfront group hgroup)
  have hlength : (front.map groupOctets).flatten.length = 2 * front.length := by
    rw [← List.flatMap_def, length_flatMap_groupOctets]
  rw [parseIpv6, hcut]
  simp only [hread, hbehind, bind, Option.bind_some, hlength, hroom, if_true, List.flatMap_def]

theorem parseIpv6_groupsText {groups : List Nat} (hgroups : ∀ group ∈ groups, group < 65536)
    (hlength : groups.length = 8) :
    parseIpv6 (groupsText groups) = some (groups.flatMap groupOctets) := by
  have hcut : cutAtDoubleColon (groupsText groups) = none := by
    have hend := cutAtDoubleColon_groupsText groups []
    rwa [List.append_nil] at hend
  have hne : groups ≠ [] := by
    rintro rfl
    cases hlength
  have hroom : (groups.flatMap groupOctets).length = 16 := by
    rw [length_flatMap_groupOctets, hlength]
  rw [parseIpv6, hcut]
  simp only [splitOn_groupsText hne, parseGroups_map hgroups, bind, Option.bind_some, hroom, if_true]

theorem colon_notMem_dotted (octets : Octets) : 58 ∉ dotted octets := by
  intro hcolon
  rcases mem_joinWith hcolon with hdot | ⟨text, htext, hcolon⟩
  · exact absurd hdot (by decide)
  · obtain ⟨octet, _, rfl⟩ := List.mem_map.mp htext
    exact notMem_decimal (by decide) _ hcolon

theorem dotted_ne_nil {octets : Octets} (hlength : octets.length = 4) : dotted octets ≠ [] := by
  intro hnil
  have hread := parseDotted_dotted hlength
  rw [hnil] at hread
  cases hread

theorem parseGroups_dotted {octets : Octets} (hlength : octets.length = 4) :
    parseGroups [dotted octets] = some octets := by
  rw [parseGroups, parseGroup_dotted hlength, parseDotted_dotted hlength]
  rfl

theorem sideGroups_dotted {octets : Octets} (hlength : octets.length = 4) :
    sideGroups (dotted octets) = [dotted octets] := by
  rw [sideGroups, if_neg (dotted_ne_nil hlength), splitOn_of_notMem (colon_notMem_dotted octets)]

theorem parseGroups_mapped {octets : Octets} (hlength : octets.length = 4) :
    parseGroups (sideGroups (ascii "ffff:" ++ dotted octets)) = some (255 :: 255 :: octets) := by
  have hcolon : ascii "ffff:" ++ dotted octets = ascii "ffff" ++ 58 :: dotted octets := rfl
  have hfirst : splitOn 58 (ascii "ffff") = [ascii "ffff"] := splitOn_of_notMem (by decide)
  have hread : parseGroup (ascii "ffff") = some [255, 255] := by decide
  rw [hcolon, sideGroups, if_neg (by simp), splitOn_append_separator, hfirst,
    splitOn_of_notMem (colon_notMem_dotted octets), List.singleton_append, parseGroups, hread,
    parseGroups_dotted hlength]
  · rfl
  · exact List.cons_ne_nil _ _

section ZeroRun

variable {address : Address} {start length : Nat}

/-- An address is a run of zero groups and what is around it. -/
theorem toList_eq_of_zeroRun (hrun : zeroRun address.groups = some (start, length)) :
    address.toList = (address.groups.take start).flatMap groupOctets ++
      (List.replicate (2 * length) 0 ++
        (address.groups.drop (start + length)).flatMap groupOctets) := by
  conv_lhs => rw [← flatMap_groups, (zeroRun_eq_some hrun).2]
  rw [List.flatMap_append, List.flatMap_append, flatMap_replicate_zero]

theorem length_around_zeroRun (hrun : zeroRun address.groups = some (start, length)) :
    (address.groups.take start).length + (length + (address.groups.drop (start + length)).length) =
      8 := by
  have hlengths := congrArg List.length (zeroRun_eq_some hrun).2
  rw [length_groups, List.length_append, List.length_append, List.length_replicate] at hlengths
  exact hlengths.symm

theorem drop_toList_of_zeroRun (hrun : zeroRun address.groups = some (0, length)) :
    address.toList.drop (2 * length) = (address.groups.drop length).flatMap groupOctets := by
  rw [toList_eq_of_zeroRun hrun, List.take_zero, List.flatMap_nil, List.nil_append, Nat.zero_add,
    List.drop_left' List.length_replicate]

/-- An address that starts with a run of zero groups is that run and the rest. -/
theorem toList_eq_replicate_append (hrun : zeroRun address.groups = some (0, length)) :
    address.toList = List.replicate (2 * length) 0 ++ address.toList.drop (2 * length) := by
  conv_lhs => rw [toList_eq_of_zeroRun hrun]
  rw [drop_toList_of_zeroRun hrun, List.take_zero, List.flatMap_nil, List.nil_append, Nat.zero_add]

theorem parseIpv6_of_zeroRun (hrun : zeroRun address.groups = some (start, length)) :
    parseIpv6 (groupsText (address.groups.take start) ++ ascii "::" ++
      groupsText (address.groups.drop (start + length))) = some address.toList := by
  have hgroups : ∀ group ∈ address.groups, group < 65536 := fun _ => lt_of_mem_groups
  have hbehind : parseGroups (sideGroups (groupsText (address.groups.drop (start + length)))) =
      some ((address.groups.drop (start + length)).flatMap groupOctets) := by
    rw [sideGroups_groupsText]
    exact parseGroups_map fun group hgroup => hgroups group (List.mem_of_mem_drop hgroup)
  have htwo := (zeroRun_eq_some hrun).1
  have hlengths := length_around_zeroRun hrun
  have hzeros : 16 - (2 * (address.groups.take start).length +
      2 * (address.groups.drop (start + length)).length) = 2 * length := by omega
  rw [parseIpv6_shortened (fun group hgroup => hgroups group (List.mem_of_mem_take hgroup)) hbehind
    (by rw [length_flatMap_groupOctets]; omega), length_flatMap_groupOctets, hzeros,
    toList_eq_of_zeroRun hrun, List.append_assoc]

/-- Behind five zero groups a mapped address holds its prefix and the last four octets. -/
theorem drop_toList_of_mapped (hrun : zeroRun address.groups = some (0, 5))
    (hgroup : address.groups[5]? = some 0xffff) :
    address.toList.drop 10 = 255 :: 255 :: address.toList.drop 12 := by
  have hgroups : address.groups.drop 5 = 0xffff :: address.groups.drop 6 := by
    obtain ⟨hplace, hvalue⟩ := List.getElem?_eq_some_iff.mp hgroup
    rw [List.drop_eq_getElem_cons hplace, hvalue]
  have hoctets : address.toList.drop 10 =
      255 :: 255 :: (address.groups.drop 6).flatMap groupOctets := by
    refine (drop_toList_of_zeroRun hrun).trans ?_
    rw [hgroups, List.flatMap_cons]
    rfl
  have hlast : address.toList.drop 12 = (address.toList.drop 10).drop 2 := by
    rw [List.drop_drop]
  rw [hlast, hoctets]
  rfl

end ZeroRun

/-- The text of an address is read back as the address. -/
theorem parseIpv6_ipv6Text (address : Address) : parseIpv6 address.ipv6Text = some address.toList := by
  have hgroups : ∀ group ∈ address.groups, group < 65536 := fun _ => lt_of_mem_groups
  have hlength : (address.toList.drop 12).length = 4 := by
    rw [List.length_drop, Vector.length_toList]
  have hnone : ∀ group ∈ ([] : List Nat), group < 65536 := fun _ hgroup => nomatch hgroup
  unfold ipv6Text
  dsimp only
  split
  next => rw [parseIpv6_groupsText hgroups (length_groups address), flatMap_groups]
  next start length hrun =>
    split
    next hcompatible =>
      obtain ⟨rfl, rfl⟩ := hcompatible
      have hbehind : parseGroups (sideGroups (dotted (address.toList.drop 12))) =
          some (address.toList.drop 12) := by
        rw [sideGroups_dotted hlength, parseGroups_dotted hlength]
      have hread := parseIpv6_shortened hnone hbehind (by rw [hlength]; decide)
      rw [hlength] at hread
      exact hread.trans (congrArg some (toList_eq_replicate_append hrun).symm)
    next =>
      split
      next hmapped =>
        obtain ⟨rfl, rfl, hgroup⟩ := hmapped
        have hread := parseIpv6_shortened hnone (parseGroups_mapped hlength)
          (by rw [List.length_cons, List.length_cons, hlength]; decide)
        rw [List.length_cons, List.length_cons, hlength, ← drop_toList_of_mapped hrun hgroup] at hread
        exact hread.trans (congrArg some (toList_eq_replicate_append hrun).symm)
      next => exact parseIpv6_of_zeroRun hrun

/-! ## Spellings -/

/-- The octets that addresses are written with. -/
def alphabet : Octets := ascii "0123456789abcdefABCDEF:."

/-- What is relied on when an address is written: the text tells which address it is, and is
made of hexadecimal digits, colons and dots. -/
structure IsSpelling (write : Address → Octets) : Prop where
  injective : Function.Injective write
  plain : ∀ address, ∀ octet ∈ write address, octet ∈ alphabet

theorem mem_alphabet_of_mem_hexDigits {octet : UInt8} (hoctet : octet ∈ hexDigits) :
    octet ∈ alphabet := by
  have hdigits : ∀ digit ∈ hexDigits, digit ∈ alphabet := by decide +kernel
  exact hdigits octet hoctet

theorem mem_alphabet_of_mem_groupsText {groups : List Nat} {octet : UInt8}
    (hoctet : octet ∈ groupsText groups) : octet ∈ alphabet := by
  rcases mem_joinWith hoctet with rfl | ⟨text, htext, hoctet⟩
  · decide
  · obtain ⟨group, _, rfl⟩ := List.mem_map.mp htext
    exact mem_alphabet_of_mem_hexDigits (mem_hexDigits_of_mem_hexadecimal hoctet)

theorem mem_alphabet_of_mem_dotted {octets : Octets} {octet : UInt8} (hoctet : octet ∈ dotted octets) :
    octet ∈ alphabet := by
  rcases mem_joinWith hoctet with rfl | ⟨text, htext, hoctet⟩
  · decide
  · obtain ⟨value, _, rfl⟩ := List.mem_map.mp htext
    exact mem_alphabet_of_mem_hexDigits (mem_hexDigits_of_isDigit (isDigit_of_mem_decimal hoctet))

theorem mem_alphabet_of_mem_ipv6Text {address : Address} {octet : UInt8}
    (hoctet : octet ∈ address.ipv6Text) : octet ∈ alphabet := by
  have hcolons : ∀ colon ∈ ascii "::", colon ∈ alphabet := by decide +kernel
  have hmapped : ∀ digit ∈ ascii "::ffff:", digit ∈ alphabet := by decide +kernel
  unfold ipv6Text at hoctet
  dsimp only at hoctet
  split at hoctet
  next => exact mem_alphabet_of_mem_groupsText hoctet
  next =>
    split at hoctet
    next => exact (List.mem_append.mp hoctet).elim (hcolons octet) mem_alphabet_of_mem_dotted
    next =>
      split at hoctet
      next => exact (List.mem_append.mp hoctet).elim (hmapped octet) mem_alphabet_of_mem_dotted
      next =>
        rw [List.mem_append, List.mem_append] at hoctet
        rcases hoctet with (hfront | hbetween) | hbehind
        · exact mem_alphabet_of_mem_groupsText hfront
        · exact hcolons octet hbetween
        · exact mem_alphabet_of_mem_groupsText hbehind

/-- The shortened text is a spelling. -/
theorem isSpelling_ipv6Text : IsSpelling ipv6Text where
  injective first second htext := by
    have hread := parseIpv6_ipv6Text first
    rw [htext, parseIpv6_ipv6Text, Option.some_inj] at hread
    exact (Vector.toList_inj.mp hread).symm
  plain _ _ := mem_alphabet_of_mem_ipv6Text

end TftpServer.Address
