import TftpServer.Proofs.Negotiation.Agreement

/-! # Legal answers

Whatever is requested, and however the limits are set, the answer is one that a
client can rely on.
-/

namespace TftpServer

open Text

/-- An acceptance that a request can be answered with under some limits, for a
stream of some length. -/
structure Acceptance.Legal (accepted : Acceptance) (limits : Limits) (length : Option UInt64)
    (requested : List OptionField) : Prop where
  nodup : (accepted.entries.map (·.name)).Nodup
  -- The order of the request, as far as first occurrences go.
  inOrder : accepted.entries.Pairwise fun earlier later =>
    firstPlace requested earlier.name < firstPlace requested later.name
  entries : ∀ field, field ∈ accepted.entries ↔
    ∃ option number, accepted.number option = some number ∧
      field = ⟨option.name, decimal number⟩
  blockSize : ∀ size, accepted.blockSize = some size →
    8 ≤ size.toNat ∧ size.toNat ≤ 65464 ∧ size.toNat ≤ max 8 limits.maxBlockSize.toNat
  -- A timeout is never changed, only accepted or not.
  timeout : ∀ seconds, accepted.timeout = some seconds ↔
    ∃ value, firstValue requested .timeout = some value ∧ IsNumber value ∧
      digitsValue value = seconds.toNat ∧
      max 1 limits.minTimeout.toNat ≤ seconds.toNat ∧
      seconds.toNat ≤ min 255 limits.maxTimeout.toNat
  transferSize : ∀ size, accepted.transferSize = some size ↔
    (∃ field ∈ requested, sameIgnoringCase field.name (ascii "tsize") = true) ∧
      size = length.getD 0

section Legal

variable (limits : Limits) (length : Option UInt64) (requested : List OptionField)

theorem pairwise_negotiate_entries :
    (negotiate limits length requested).entries.Pairwise fun earlier later =>
      firstPlace requested earlier.name < firstPlace requested later.name := by
  refine (pairwise_firstPlace requested).filterMap _ ?_
  rintro ⟨earlier, value⟩ ⟨later, other⟩ hlt first hfirst second hsecond
  obtain ⟨_, _, rfl⟩ := Option.map_eq_some_iff.mp hfirst
  obtain ⟨_, _, rfl⟩ := Option.map_eq_some_iff.mp hsecond
  exact hlt

variable {limits length requested}

theorem negotiate_blockSize_limits {size : UInt64}
    (hsize : (negotiate limits length requested).blockSize = some size) :
    8 ≤ size.toNat ∧ size.toNat ≤ 65464 ∧ size.toNat ≤ max 8 limits.maxBlockSize.toNat := by
  rw [negotiate_blockSize] at hsize
  obtain ⟨value, _, hresolve⟩ := Option.bind_eq_some_iff.mp hsize
  have hnumber := limits.map_toNat_resolveBlockSize value
  rw [hresolve, limits.toNat_blockSizeFloor, limits.toNat_blockSizeCeiling] at hnumber
  split at hnumber
  next =>
    have hvalue := Option.some.inj hnumber
    omega
  next => cases hnumber

theorem negotiate_timeout_eq_some_iff {seconds : UInt32} :
    (negotiate limits length requested).timeout = some seconds ↔
      ∃ value, firstValue requested .timeout = some value ∧ IsNumber value ∧
        digitsValue value = seconds.toNat ∧
        max 1 limits.minTimeout.toNat ≤ seconds.toNat ∧
        seconds.toNat ≤ min 255 limits.maxTimeout.toNat := by
  rw [negotiate_timeout, Option.bind_eq_some_iff]
  exact exists_congr fun value => and_congr_right fun _ => limits.resolveTimeout_eq_some_iff

theorem negotiate_transferSize_eq_some_iff {size : UInt64} :
    (negotiate limits length requested).transferSize = some size ↔
      (∃ field ∈ requested, sameIgnoringCase field.name (ascii "tsize") = true) ∧
        size = length.getD 0 := by
  rw [negotiate_transferSize, firstValue, Option.map_map, Option.map_eq_some_iff]
  constructor
  · rintro ⟨field, hfirst, rfl⟩
    have hnames : KnownOption.transferSize.names field = true := List.find?_some hfirst
    exact ⟨⟨field, List.mem_of_find?_eq_some hfirst, hnames⟩, rfl⟩
  · rintro ⟨hrequested, rfl⟩
    obtain ⟨field, hfirst⟩ := Option.isSome_iff_exists.mp (List.find?_isSome.mpr hrequested)
    exact ⟨field, hfirst, rfl⟩

variable (limits length requested)

/-- Whatever is requested, and however the limits are set, the answer is a legal
one, and of each option the first value alone decides. -/
theorem negotiate_legal :
    (negotiate limits length requested).Legal limits length requested ∧
      ∀ other option, firstValue other option = firstValue requested option →
        (negotiate limits length other).number option =
          (negotiate limits length requested).number option := by
  have hordered := pairwise_negotiate_entries limits length requested
  refine ⟨⟨?_, hordered, fun field => mem_negotiate_entries_iff,
    fun size => negotiate_blockSize_limits, fun seconds => negotiate_timeout_eq_some_iff,
    fun size => negotiate_transferSize_eq_some_iff⟩, fun other option hfirst => ?_⟩
  · refine List.pairwise_map.mpr (hordered.imp fun {earlier later} hlt hsame => ?_)
    rw [hsame] at hlt
    exact Nat.lt_irrefl _ hlt
  · rw [number_negotiate, number_negotiate, hfirst]

end Legal

end TftpServer
