import TftpServer.Proofs.Transfer.Portions

/-! # Line ends of a translated content

In what a netascii stream gives, carriage returns and line feeds only occur in pairs:
each carriage return is followed by a line feed or a NUL, and no line feed stands
without its carriage return. So the pairs can be taken apart again, and no two contents
come out alike, whatever the portions are in which they are read.
-/

namespace TftpServer

variable {ω σ ω' σ' : Type}

namespace Progress

/-- Reads in a row, of some counts, up to the first that falls short. All of them are
answered. Together with what was given before, they give the octets. -/
inductive ReadsOut (reading : BufferedReading ω σ) :
    Progress ω σ → List UInt64 → Octets → Prop where
  | last (progress : Progress ω σ) (count : UInt64) (reply : ReadReply)
      (hreply : (progress.next reading count).1 = .ok reply) (herror : reply.error = none)
      (hshort : reply.octets.length < count.toNat) :
      ReadsOut reading progress [count] (progress.next reading count).2.given
  | onward (progress : Progress ω σ) (count : UInt64) (counts : List UInt64) (reply : ReadReply)
      (octets : Octets) (hreply : (progress.next reading count).1 = .ok reply)
      (herror : reply.error = none) (hfull : reply.octets.length = count.toNat)
      (hrest : ReadsOut reading (progress.next reading count).2 counts octets) :
      ReadsOut reading progress (count :: counts) octets

end Progress

namespace Netascii

/-! ## Pairs -/

/-- The text that a translated one was made of. -/
def restore : Octets → Octets
  | [] => []
  | [octet] => [octet]
  | first :: second :: rest =>
    if first = 13 then (if second = 10 then 10 else 13) :: restore rest
    else first :: restore (second :: rest)

theorem restore_cons {octet : UInt8} (hoctet : octet ≠ 13) (rest : Octets) :
    restore (octet :: rest) = octet :: restore rest := by
  cases rest with
  | nil => rfl
  | cons second rest => rw [restore, if_neg hoctet]

theorem restore_translate (octets : Octets) : restore (translate octets) = octets := by
  induction octets with
  | nil => rfl
  | cons octet rest ih =>
      rw [translate, List.flatMap_cons]
      rw [translate] at ih
      split
      next hfeed =>
        rw [hfeed, List.cons_append, List.cons_append, List.nil_append, restore, if_pos rfl,
          if_pos rfl, ih]
      next =>
        split
        next hreturn =>
          rw [hreturn, List.cons_append, List.cons_append, List.nil_append, restore, if_pos rfl,
            if_neg (by decide), ih]
        next hother => rw [List.singleton_append, restore_cons hother, ih]

/-- Behind each carriage return there is a line feed or a NUL, and before each line feed
there is a carriage return. -/
structure LineEndsPaired (text : Octets) : Prop where
  behind_return : ∀ before after, text = before ++ 13 :: after →
    after.head? = some 10 ∨ after.head? = some 0
  before_feed : ∀ before after, text = before ++ 10 :: after → before.getLast? = some 13

namespace LineEndsPaired

theorem nil : LineEndsPaired [] where
  behind_return before after heq := by simp at heq
  before_feed before after heq := by simp at heq

variable {text : Octets} (hpaired : LineEndsPaired text)

include hpaired

theorem cons_pair {second : UInt8} (hsecond : second = 10 ∨ second = 0) :
    LineEndsPaired (13 :: second :: text) where
  behind_return before after heq := by
    match before with
    | [] =>
        cases heq
        simpa using hsecond
    | [first] =>
        cases heq
        simp at hsecond
    | first :: other :: rest =>
        cases heq
        exact hpaired.behind_return rest after rfl
  before_feed before after heq := by
    match before with
    | [] => cases heq
    | [first] =>
        cases heq
        rfl
    | first :: other :: rest =>
        cases heq
        rw [List.getLast?_cons, List.getLast?_cons, hpaired.before_feed rest after rfl]
        rfl

theorem cons {octet : UInt8} (hfeed : octet ≠ 10) (hreturn : octet ≠ 13) :
    LineEndsPaired (octet :: text) where
  behind_return before after heq := by
    cases before with
    | nil =>
        cases heq
        exact absurd rfl hreturn
    | cons first rest =>
        cases heq
        exact hpaired.behind_return rest after rfl
  before_feed before after heq := by
    cases before with
    | nil =>
        cases heq
        exact absurd rfl hfeed
    | cons first rest =>
        cases heq
        rw [List.getLast?_cons, hpaired.before_feed rest after rfl]
        rfl

end LineEndsPaired

theorem translate_paired (octets : Octets) : LineEndsPaired (translate octets) := by
  induction octets with
  | nil => exact .nil
  | cons octet rest ih =>
      rw [translate, List.flatMap_cons]
      split
      · exact ih.cons_pair (Or.inl rfl)
      · split
        · exact ih.cons_pair (Or.inr rfl)
        next hfeed hreturn => exact ih.cons hfeed hreturn

/-! ## Reading to the end -/

/-- A stream gives a content in the chunks that a netascii stream asks for. The content is
not too long for its offsets. -/
structure Chunked (feed : Feed ω σ) (content : Content) : Prop where
  serves : feed.Serves content
  chunk : feed.blockSize = netasciiChunkSize
  size : content.size < UInt64.size

/-- The netascii stream over a stream, before the first read. -/
def opened (feed : Feed ω σ) : Progress ω (Netascii σ) :=
  ⟨{ inner := feed.source }, feed.world, []⟩

namespace Chunked

variable {feed : Feed ω σ} {content : Content} (hchunked : Chunked feed content)
  {progress : Progress ω (Netascii σ)} (hreached : Reached feed content progress)

include hchunked hreached

theorem le_of_answered {count : UInt64} {reply : ReadReply}
    (hreply : (progress.next (bufferedReading feed.reading) count).1 = .ok reply) :
    count ≤ maxBufferSize := by
  refine UInt64.not_lt.mp fun hcount => ?_
  have hgives := hreached.gives hchunked.serves hchunked.chunk hchunked.size
  rw [Progress.next, hgives.broken_off count hcount] at hreply
  cases hreply

theorem eq_of_readsOut {counts : List UInt64} {octets : Octets}
    (hread : progress.ReadsOut (bufferedReading feed.reading) counts octets) :
    octets = translate content.toList := by
  induction hread with
  | last progress count reply hreply herror hshort =>
      have hcount := hchunked.le_of_answered hreached hreply
      refine (hreached.gives hchunked.serves hchunked.chunk hchunked.size).short count hcount ?_
      rw [← Progress.next, hreply]
      exact hshort
  | onward progress count counts reply octets hreply herror hfull hrest ih =>
      have hcount := hchunked.le_of_answered hreached hreply
      exact ih (hreached.read hchunked.serves hchunked.chunk hchunked.size hcount).2

/-- Whatever the sizes of the portions are, as long as none is empty and buffers can hold
them, the end comes. -/
theorem exists_readsOut (sizes : Nat → UInt64)
    (hsizes : ∀ i, 0 < sizes i ∧ sizes i ≤ maxBufferSize) :
    ∃ number, progress.ReadsOut (bufferedReading feed.reading) ((List.range number).map sizes)
      (translate content.toList) := by
  -- Each full portion leaves less of the translation to be given.
  induction hleft : (translate content.toList).length - progress.given.length
    using Nat.strong_induction_on generalizing progress sizes with
  | _ left ih =>
      obtain ⟨hsome, hcount⟩ := hsizes 0
      have hgives := hreached.gives hchunked.serves hchunked.chunk hchunked.size
      obtain ⟨hreply, hafter⟩ :=
        hreached.read hchunked.serves hchunked.chunk hchunked.size hcount
      have hlength := hgives.length (sizes 0) hcount
      have hdone := hgives.short (sizes 0) hcount
      have hgrown := progress.given_read (bufferedReading feed.reading) progress.offset (sizes 0)
      rw [hreply] at hlength hdone hgrown
      generalize ((translate content.toList).drop progress.given.length).take (sizes 0).toNat =
        portion at hreply hlength hdone hgrown
      dsimp only [octetsGiven] at hlength hdone hgrown
      by_cases hshort : portion.length < (sizes 0).toNat
      · have hlast := Progress.ReadsOut.last progress (sizes 0) _ hreply rfl hshort
        rw [Progress.next, hdone hshort] at hlast
        exact ⟨1, hlast⟩
      · have hpositive : 0 < (sizes 0).toNat := UInt64.lt_iff_toNat_lt.mp hsome
        have hfull : portion.length = (sizes 0).toNat := by omega
        have hless : (translate content.toList).length -
            (progress.next (bufferedReading feed.reading) (sizes 0)).2.given.length < left := by
          rw [Progress.next, hgrown, List.length_append]
          omega
        obtain ⟨number, hrest⟩ := ih _ hless hafter (fun i => sizes (i + 1))
          (fun i => hsizes (i + 1)) rfl
        refine ⟨number + 1, ?_⟩
        rw [List.range_succ_eq_map, List.map_cons, List.map_map]
        exact .onward progress (sizes 0) _ _ _ hreply rfl hfull hrest

end Chunked

/-- What a netascii stream gives in all shows the content, and shows its line ends in
pairs. If the streams over two contents, read to their ends in whatever portions, give
the same octets, the contents are the same. In the octets, each carriage return is
followed by a line feed or a NUL, and each line feed has its carriage return before it.
Portions that are not empty and not too long for a buffer always come to the end. -/
theorem readsOut_lossless_and_paired {feed : Feed ω σ} {other : Feed ω' σ'}
    {content otherContent : Content} (hfeed : Chunked feed content)
    (hother : Chunked other otherContent) :
    (∀ counts otherCounts octets,
      (opened feed).ReadsOut (bufferedReading feed.reading) counts octets →
      (opened other).ReadsOut (bufferedReading other.reading) otherCounts octets →
      content = otherContent) ∧
    (∀ counts octets, (opened feed).ReadsOut (bufferedReading feed.reading) counts octets →
      LineEndsPaired octets) ∧
    ∀ sizes : Nat → UInt64, (∀ i, 0 < sizes i ∧ sizes i ≤ maxBufferSize) → ∃ number octets,
      (opened feed).ReadsOut (bufferedReading feed.reading) ((List.range number).map sizes)
        octets := by
  have hreached := reached_opened feed content
  refine ⟨fun counts otherCounts octets hread hagain => ?_, fun counts octets hread => ?_,
    fun sizes hsizes => ?_⟩
  · have heq : translate content.toList = translate otherContent.toList :=
      (hfeed.eq_of_readsOut hreached hread).symm.trans
        (hother.eq_of_readsOut (reached_opened other otherContent) hagain)
    have hback := congrArg restore heq
    rw [restore_translate, restore_translate] at hback
    exact Array.toList_inj.mp hback
  · rw [hfeed.eq_of_readsOut hreached hread]
    exact translate_paired content.toList
  · obtain ⟨number, hread⟩ := hfeed.exists_readsOut hreached sizes hsizes
    exact ⟨number, _, hread⟩

/-- A carriage return, a line feed and a NUL, read to the end once in portions that cut
through the pairs and once in portions that do not. -/
theorem readsOut_of_return_feed_nul :
    let content : Content := #[13, 10, 0]
    let feed : Feed Unit Content := ⟨Content.reading Unit, content, (), netasciiChunkSize⟩
    let octets : Octets := [13, 0, 13, 10, 0]
    Chunked feed content ∧
      (opened feed).ReadsOut (bufferedReading feed.reading) [1, 2, 7] octets ∧
      (opened feed).ReadsOut (bufferedReading feed.reading) [2, 4] octets ∧
      LineEndsPaired octets := by
  intro content feed octets
  have hchunked : Chunked feed content :=
    ⟨Content.feed_serves (by decide) (by decide) (), rfl, by decide⟩
  have hcut : (opened feed).ReadsOut (bufferedReading feed.reading) [1, 2, 7] octets :=
    .onward _ 1 _ { octets := [13] } _ rfl rfl rfl
      (.onward _ 2 _ { octets := [0, 13] } _ rfl rfl rfl
        (.last _ 7 { octets := [10, 0] } rfl rfl (by decide)))
  have hwhole : (opened feed).ReadsOut (bufferedReading feed.reading) [2, 4] octets :=
    .onward _ 2 _ { octets := [13, 0] } _ rfl rfl rfl
      (.last _ 4 { octets := [13, 10, 0] } rfl rfl (by decide))
  exact ⟨hchunked, hcut, hwhole, (readsOut_lossless_and_paired hchunked hchunked).2.1 _ _ hcut⟩

end Netascii

end TftpServer
