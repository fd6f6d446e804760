import TftpServer.Proofs.Store.Buffers
import TftpServer.Proofs.Transfer.OfContent
import TftpServer.Proofs.Transfer.Translation

/-! # Netascii streams in any portions

A netascii stream gives the translation of its content in whatever portions it is
read, as long as each read starts where the last one ended. Any other read is refused,
and a read of more octets than a buffer can hold is broken off; the stream stays where
it is then. So the portions make no difference to what is given.
-/

namespace TftpServer

variable {ω σ : Type}

/-- What a read gives. A read that is broken off gives nothing. -/
def octetsGiven : Except LengthError ReadReply → Octets
  | .ok reply => reply.octets
  | .error _ => []

/-- A stream between two reads, and the octets that it has given so far. -/
structure Progress (ω σ : Type) where
  stream : σ
  world : ω
  given : Octets := []

namespace Progress

def read (reading : BufferedReading ω σ) (progress : Progress ω σ) (offset count : UInt64) :
    Except LengthError ReadReply × Progress ω σ :=
  let (result, stream, world) := reading.read progress.stream offset count progress.world
  (result, ⟨stream, world, progress.given ++ octetsGiven result⟩)

/-- Reads at some offsets, of at most so many octets. -/
def readAll (reading : BufferedReading ω σ) (progress : Progress ω σ)
    (requests : List (UInt64 × UInt64)) : Progress ω σ :=
  requests.foldl (fun progress request => (progress.read reading request.1 request.2).2) progress

theorem given_read (reading : BufferedReading ω σ) (progress : Progress ω σ)
    (offset count : UInt64) :
    (progress.read reading offset count).2.given =
      progress.given ++ octetsGiven (progress.read reading offset count).1 :=
  rfl

theorem given_prefix_readAll (reading : BufferedReading ω σ) (progress : Progress ω σ)
    (requests : List (UInt64 × UInt64)) :
    progress.given <+: (progress.readAll reading requests).given := by
  induction requests generalizing progress with
  | nil => exact List.prefix_refl _
  | cons request rest ih =>
      have hread := List.prefix_append progress.given
        (octetsGiven (progress.read reading request.1 request.2).1)
      rw [← given_read] at hread
      exact hread.trans (ih _)

/-- Where the next read has to start. -/
def offset (progress : Progress ω σ) : UInt64 := UInt64.ofNat progress.given.length

/-- The read that starts where the last one ended. -/
def next (reading : BufferedReading ω σ) (progress : Progress ω σ) (count : UInt64) :
    Except LengthError ReadReply × Progress ω σ :=
  progress.read reading progress.offset count

/-- A stream that gives a text in order. The next read at the offset reached gives what
is next of the text, and falls short of its count only at the end, where nothing more
is given. It is broken off if no buffer can hold as much as it asks for. Any other read is
refused. Neither a read that is broken off nor one that is refused changes anything. -/
structure Gives (reading : BufferedReading ω σ) (text : Octets) (progress : Progress ω σ) :
    Prop where
  given : progress.given <+: text
  next : ∀ count, count ≤ maxBufferSize → (progress.read reading progress.offset count).1 =
    .ok { octets := (text.drop progress.given.length).take count.toNat }
  length : ∀ count, count ≤ maxBufferSize →
    (octetsGiven (progress.read reading progress.offset count).1).length =
      min count.toNat (text.length - progress.given.length)
  short : ∀ count, count ≤ maxBufferSize →
    (octetsGiven (progress.read reading progress.offset count).1).length < count.toNat →
      (progress.read reading progress.offset count).2.given = text
  ended : progress.given = text → ∀ later offset count,
    octetsGiven ((progress.readAll reading later).read reading offset count).1 = []
  broken_off : ∀ count, maxBufferSize < count →
    progress.read reading progress.offset count = (.error .reservation, progress)
  refused : ∀ offset count, offset ≠ progress.offset →
    progress.read reading offset count =
      (.ok { error := some .ioFailure
             detail := ascii "netascii source only supports sequential reads" }, progress)

end Progress

namespace Netascii

/-- A stream in the middle of its translation. What it has given and what it still has
to give make up the whole, and it has counted the octets. -/
structure Reached (feed : Feed ω σ) (content : Content) (progress : Progress ω (Netascii σ)) :
    Prop where
  standing : ∃ rest, translate content.toList = progress.given ++ rest ∧
    Standing feed content progress.stream progress.world rest
  position : progress.stream.position = progress.offset

theorem reached_opened (feed : Feed ω σ) (content : Content) :
    Reached feed content ⟨{ inner := feed.source }, feed.world, []⟩ :=
  ⟨⟨_, rfl, standing_opened feed content⟩, rfl⟩

section Reached

variable {feed : Feed ω σ} {content : Content} {progress : Progress ω (Netascii σ)}

theorem Reached.refused (hreached : Reached feed content progress) {offset : UInt64}
    (hoffset : offset ≠ progress.offset) (count : UInt64) :
    progress.read (bufferedReading feed.reading) offset count =
      (.ok { error := some .ioFailure
             detail := ascii "netascii source only supports sequential reads" }, progress) := by
  have hposition : offset ≠ progress.stream.position := by
    rw [hreached.position]
    exact hoffset
  simp only [Progress.read, bufferedReading, read_of_ne _ _ _ hposition, octetsGiven,
    List.append_nil]

theorem Reached.broken_off (hreached : Reached feed content progress) {count : UInt64}
    (hcount : maxBufferSize < count) :
    progress.read (bufferedReading feed.reading) progress.offset count =
      (.error .reservation, progress) := by
  simp only [Progress.read, bufferedReading, ← hreached.position, read_of_lt _ _ _ hcount,
    octetsGiven, List.append_nil]

variable (hserves : feed.Serves content) (hchunk : feed.blockSize = netasciiChunkSize)
  (hcontent : content.size < UInt64.size)

include hserves hchunk hcontent

theorem Reached.read (hreached : Reached feed content progress) {count : UInt64}
    (hcount : count ≤ maxBufferSize) :
    (progress.read (bufferedReading feed.reading) progress.offset count).1 =
        .ok { octets :=
          ((translate content.toList).drop progress.given.length).take count.toNat } ∧
      Reached feed content (progress.read (bufferedReading feed.reading) progress.offset count).2 := by
  obtain ⟨⟨rest, hrest, hstanding⟩, hposition⟩ := hreached
  obtain ⟨next, after, hread, hnext, hmoved⟩ := answer_eq hserves hchunk hcontent count hstanding
  have hanswer : progress.read (bufferedReading feed.reading) progress.offset count =
      (.ok { octets := rest.take count.toNat },
        ⟨next, after, progress.given ++ rest.take count.toNat⟩) := by
    simp only [Progress.read, bufferedReading, ← hposition, read_of_le _ _ _ hcount,
      Reading.unbroken, reading, hread, octetsGiven]
  rw [hanswer, hrest, List.drop_left]
  refine ⟨rfl, ⟨_, ?_, hnext⟩, ?_⟩
  · rw [hrest, List.append_assoc, List.take_append_drop]
  · rw [hmoved, hposition, Progress.offset, Progress.offset, List.length_append, UInt64.ofNat_add]

/-- Answered, broken off or refused, a read does not lead astray. -/
theorem Reached.readAll (hreached : Reached feed content progress)
    (requests : List (UInt64 × UInt64)) :
    Reached feed content (progress.readAll (bufferedReading feed.reading) requests) := by
  induction requests generalizing progress with
  | nil => exact hreached
  | cons request rest ih =>
      obtain ⟨offset, count⟩ := request
      apply ih
      dsimp only
      by_cases hoffset : offset = progress.offset
      · rw [hoffset]
        by_cases hcount : count ≤ maxBufferSize
        · exact (hreached.read hserves hchunk hcontent hcount).2
        · rw [hreached.broken_off (UInt64.not_le.mp hcount)]
          exact hreached
      · rw [hreached.refused hoffset count]
        exact hreached

theorem Reached.gives (hreached : Reached feed content progress) :
    Progress.Gives (bufferedReading feed.reading) (translate content.toList) progress := by
  have hgiven (progress : Progress ω (Netascii σ)) (hreached : Reached feed content progress) :
      progress.given <+: translate content.toList := by
    obtain ⟨⟨rest, hrest, _⟩, _⟩ := hreached
    exact ⟨rest, hrest.symm⟩
  have hnext (count : UInt64) (hcount : count ≤ maxBufferSize) :=
    (hreached.read hserves hchunk hcontent hcount).1
  have hlength (count : UInt64) (hcount : count ≤ maxBufferSize) :
      (octetsGiven (progress.read (bufferedReading feed.reading) progress.offset count).1).length =
        min count.toNat ((translate content.toList).length - progress.given.length) := by
    rw [hnext count hcount, octetsGiven, List.length_take, List.length_drop]
  refine ⟨hgiven progress hreached, hnext, hlength, fun count hcount hshort => ?_,
    fun hended later offset count => ?_, fun count hcount => hreached.broken_off hcount,
    fun offset count hoffset => hreached.refused hoffset count⟩
  · -- Whatever is missing in the reply is missing in the text.
    have hafter := hgiven _ (hreached.read hserves hchunk hcontent hcount).2
    refine hafter.eq_of_length ?_
    have hbefore := (hgiven progress hreached).length_le
    have hreply := hlength count hcount
    rw [Progress.given_read, List.length_append]
    omega
  · -- After any later reads, the same octets have been given, and there are no more.
    have hlater := hreached.readAll hserves hchunk hcontent later
    have hafter :
        ((progress.readAll (bufferedReading feed.reading) later).read
          (bufferedReading feed.reading) offset count).2.given <+: translate content.toList :=
      hgiven _ (hlater.readAll hserves hchunk hcontent [(offset, count)])
    have hgrown := progress.given_prefix_readAll (bufferedReading feed.reading) later
    rw [hended] at hgrown
    have hlength := hgrown.length_le
    have hlast := hafter.length_le
    rw [Progress.given_read, List.length_append] at hlast
    exact List.eq_nil_of_length_eq_zero (by omega)

end Reached

/-- A netascii stream gives the translation of its content, in whatever portions it is
read. Over any stream that serves a content in chunks, one whose offsets 64 bits can
hold, it has given a prefix of the translation after any reads at any offsets. The next
read at the offset reached gives as much of the rest as it asks for, so that it falls
short only at the end, after which nothing is given any more. If it asks for more than a
buffer can hold, it is broken off instead. A read at another offset is refused. A read that
is broken off or refused changes nothing. -/
theorem readAll_gives_translation (inner : Reading ω σ) (source : σ) (world : ω) (content : Content)
    (hserves : Feed.Serves ⟨inner, source, world, netasciiChunkSize⟩ content)
    (hcontent : content.size < UInt64.size) (requests : List (UInt64 × UInt64)) :
    let opened : Progress ω (Netascii σ) := ⟨{ inner := source }, world, []⟩
    Progress.Gives (bufferedReading inner) (translate content.toList)
      (opened.readAll (bufferedReading inner) requests) := by
  intro opened
  have hopened : Reached ⟨inner, source, world, netasciiChunkSize⟩ content opened :=
    reached_opened ⟨inner, source, world, netasciiChunkSize⟩ content
  exact (hopened.readAll hserves rfl hcontent requests).gives hserves rfl hcontent

/-- A line feed and a carriage return, read in three portions. The first two of them end
between the halves of a pair, and in between one read is refused and one is broken off. -/
theorem readAll_gives_translation_of_line_ends :
    let content : Content := #[65, 10, 13]
    let opened : Progress Unit (Netascii Content) := ⟨{ inner := content }, (), []⟩
    let requests := [(0, 2), (1, 5), (2, 18446744073709551615), (2, 2)]
    let halfway := opened.readAll (bufferedReading (Content.reading Unit)) requests
    Feed.Serves ⟨Content.reading Unit, content, (), netasciiChunkSize⟩ content ∧
      content.size < UInt64.size ∧ halfway.given = [65, 13, 10, 13] ∧
      Progress.Gives (bufferedReading (Content.reading Unit)) [65, 13, 10, 13, 0] halfway ∧
      (halfway.read (bufferedReading (Content.reading Unit)) 4 9).1 = .ok { octets := [0] } := by
  intro content opened requests halfway
  have hserves : Feed.Serves ⟨Content.reading Unit, content, (), netasciiChunkSize⟩ content :=
    Content.feed_serves (by decide) (by decide) ()
  have hcontent : content.size < UInt64.size := by decide
  have hgiven : halfway.given = [65, 13, 10, 13] := by decide +kernel
  have hgives := readAll_gives_translation (Content.reading Unit) content () content hserves
    hcontent requests
  have hlast := hgives.next 9 (by decide)
  rw [Progress.offset, hgiven] at hlast
  exact ⟨hserves, hcontent, hgiven, hgives, hlast⟩

/-- A letter is read with the greatest count that there is, which no buffer can hold. The
read gives nothing, although the letter is there. -/
theorem not_given_beyond_buffer :
    let content : Content := #[65]
    let opened : Progress Unit (Netascii Content) := ⟨{ inner := content }, (), []⟩
    let count : UInt64 := 18446744073709551615
    Feed.Serves ⟨Content.reading Unit, content, (), netasciiChunkSize⟩ content ∧
      content.size < UInt64.size ∧
      (opened.read (bufferedReading (Content.reading Unit)) 0 count).1 = .error .reservation ∧
      (translate content.toList).take count.toNat = [65] := by
  intro content opened count
  have hserves : Feed.Serves ⟨Content.reading Unit, content, (), netasciiChunkSize⟩ content :=
    Content.feed_serves (by decide) (by decide) ()
  have hcount : maxBufferSize < count := by decide
  have hbroken := (reached_opened ⟨Content.reading Unit, content, (), netasciiChunkSize⟩
    content).broken_off hcount
  exact ⟨hserves, by decide, congrArg Prod.fst hbroken, rfl⟩

end Netascii

end TftpServer
