import TftpServer.Proofs.Transfer.Portions

/-! # Octets lost by failed reads

A netascii stream that comes to the end of a chunk in the middle of a read asks its inner
stream for the next one. If that fails, so does the read, and the octets that it had
taken by then are gone: they are not handed out, and the stream stands behind them. Its
position says nothing of this. So the reads that follow go on in the translation with a
gap, which is as wide as what was lost.
-/

namespace TftpServer

variable {ω σ : Type}

/-! ## Streams that may fail in between -/

/-- What becomes of a stream and its world by reads, whether they fail or not. -/
inductive Reading.Visits (reading : Reading ω σ) (source : σ) (world : ω) : σ → ω → Prop where
  | start : Visits reading source world source world
  | read {next : σ} {after : ω} (hbefore : Visits reading source world next after)
      (offset count : UInt64) :
      Visits reading source world (reading.read next offset count after).2.1
        (reading.read next offset count after).2.2

/-- A stream of a content whose reads may fail at any time. However it was read before,
each read that does not fail gives the octets of the content behind its offset. -/
def Reading.Falters (reading : Reading ω σ) (source : σ) (world : ω) (content : Content) : Prop :=
  ∀ next after, reading.Visits source world next after → ∀ offset count,
    (reading.read next offset count after).1.error = none →
      (reading.read next offset count after).1.octets = content.slice offset.toNat count.toNat

namespace Content

/-- A content whose reads fail at some numbers. The world counts the reads. -/
def interrupted (fails : Nat → Bool) : Reading Nat Content where
  read content offset count number :=
    (if fails number then { error := some .ioFailure, detail := ascii "read failed" }
      else content.readAt offset count, content, number + 1)
  length content _ := some (UInt64.ofNat content.size)

theorem interrupted_falters (content : Content) (fails : Nat → Bool) (number : Nat) :
    (interrupted fails).Falters content number content := by
  intro next after hvisits
  have hnext : next = content := by
    induction hvisits with
    | start => rfl
    | read _ offset count ih => exact ih
  intro offset count herror
  subst hnext
  simp only [interrupted] at herror ⊢
  split at herror
  · cases herror
  next hgood => rw [if_neg hgood, readAt_eq]

end Content

namespace Netascii

/-! ## What a stream has still to give -/

/-- The octets that a stream holds in hand: the second half of a pair, and what is left of
the chunk. -/
def inHand (stream : Netascii σ) : Octets :=
  stream.pending.toList ++ translate stream.chunk

/-- The octets of the content that the inner stream was not asked for yet. -/
def unread (content : Content) (stream : Netascii σ) : Octets :=
  if stream.innerDone then [] else content.toList.drop stream.innerOffset.toNat

def toGive (content : Content) (stream : Netascii σ) : Octets :=
  stream.inHand ++ translate (unread content stream)

theorem translate_append (first second : Octets) :
    translate (first ++ second) = translate first ++ translate second :=
  List.flatMap_append

theorem inHand_eq_nil_iff {stream : Netascii σ} :
    stream.inHand = [] ↔ stream.pending = none ∧ stream.chunk = [] := by
  have hchunk : translate stream.chunk = [] ↔ stream.chunk = [] := by
    constructor
    · intro hnil
      have hlength := length_le_length_translate stream.chunk
      rw [hnil] at hlength
      exact List.eq_nil_of_length_eq_zero (Nat.le_zero.mp hlength)
    · intro hnil
      rw [hnil]
      rfl
  rw [inHand, List.append_eq_nil_iff, Option.toList_eq_nil_iff, hchunk]

/-- Taking what is in hand concerns nothing else. -/
theorem takeOctet_of_inHand (inner : Reading ω σ) {stream : Netascii σ} (world : ω) {octet : UInt8}
    {rest : Octets} (hhand : stream.inHand = octet :: rest) :
    ∃ chunk pending, takeOctet inner stream world =
        .octet octet { stream with chunk, pending } world ∧
      inHand { stream with chunk, pending } = rest := by
  obtain ⟨source, chunk, pending, offset, position, ended⟩ := stream
  cases pending with
  | some half =>
      cases hhand
      exact ⟨chunk, none, rfl, rfl⟩
  | none =>
      cases chunk with
      | nil => cases hhand
      | cons first tail =>
          rw [inHand, Option.toList_none, List.nil_append, translate_cons] at hhand
          cases hhand
          exact ⟨tail, _, rfl, rfl⟩

/-- With empty hands a stream is at its end, or else it asks for a chunk. -/
theorem takeOctet_of_inHand_nil (inner : Reading ω σ) {stream : Netascii σ} (world : ω)
    (hhand : stream.inHand = []) :
    takeOctet inner stream world =
      if stream.innerDone then .ended stream world
      else
        let (reply, source, after) :=
          inner.read stream.inner stream.innerOffset netasciiChunkSize world
        match reply.error with
        | some error => .failed error reply.detail { stream with inner := source } after
        | none =>
          takeFrom
            { stream with
              inner := source
              innerDone := reply.octets.length < netasciiChunkSize.toNat
              innerOffset := stream.innerOffset + UInt64.ofNat reply.octets.length }
            after reply.octets := by
  obtain ⟨source, chunk, pending, offset, position, ended⟩ := stream
  obtain ⟨rfl, rfl⟩ := inHand_eq_nil_iff.mp hhand
  rfl

/-! ## What a read takes and what it hands out -/

/-- Taking an octet moves on by it and leaves the rest to be given. A stream fails only
with empty hands, and then nothing changes but its inner stream. -/
inductive Draws (inner : Reading ω σ) (source : σ) (world : ω) (content : Content)
    (stream : Netascii σ) : Taken ω σ → Prop where
  | octet (octet : UInt8) (next : Netascii σ) (after : ω)
      (hvisits : inner.Visits source world next.inner after)
      (hgives : toGive content stream = octet :: toGive content next)
      (hposition : next.position = stream.position) :
      Draws inner source world content stream (.octet octet next after)
  | ended (next : Netascii σ) (after : ω) (hvisits : inner.Visits source world next.inner after)
      (hgives : toGive content stream = []) (hnext : toGive content next = [])
      (hposition : next.position = stream.position) :
      Draws inner source world content stream (.ended next after)
  | failed (error : Failure) (detail : Octets) (next : σ) (after : ω)
      (hvisits : inner.Visits source world next after) :
      Draws inner source world content stream
        (.failed error detail { stream with inner := next } after)

/-- The octets that a read takes and does not hand out, because a refill fails before
there are enough of them. -/
def lostIn (inner : Reading ω σ) : Nat → Octets → Netascii σ → ω → Octets
  | 0, _, _, _ => []
  | count + 1, taken, stream, world =>
    match takeOctet inner stream world with
    | .octet octet next after => lostIn inner count (octet :: taken) next after
    | .ended _ _ => []
    | .failed _ _ _ _ => taken.reverse

/-- What a read of `count` more octets comes to, when `taken` are taken already: the
reply, the stream that is left, and what is lost. -/
inductive Passage (content : Content) (stream : Netascii σ) (count : Nat) (taken : Octets) :
    ReadReply → Netascii σ → Octets → Prop where
  | given (next : Netascii σ)
      (hnext : toGive content next = (toGive content stream).drop count)
      (hposition : next.position = stream.position +
        UInt64.ofNat (taken.length + ((toGive content stream).take count).length)) :
      Passage content stream count taken
        { octets := taken.reverse ++ (toGive content stream).take count } next []
  | lost (error : Failure) (detail lost : Octets) (next : Netascii σ)
      (hgives : toGive content stream = lost ++ toGive content next) (hcount : lost.length < count)
      (hposition : next.position = stream.position)
      (hsame : lost = [] → next = { stream with inner := next.inner }) :
      Passage content stream count taken { error := some error, detail } next
        (taken.reverse ++ lost)

/-- An octet that is taken first is handed out with the others, or lost with them. -/
theorem Passage.of_octet {content : Content} {stream next last : Netascii σ} {octet : UInt8}
    {count : Nat} {taken dropped : Octets} {reply : ReadReply}
    (hgives : toGive content stream = octet :: toGive content next)
    (hposition : next.position = stream.position)
    (hpassage : Passage content next count (octet :: taken) reply last dropped) :
    Passage content stream (count + 1) taken reply last dropped := by
  cases hpassage with
  | given last hlast hmoved =>
      have hgiven : Passage content stream (count + 1) taken _ last [] :=
        .given last (by rw [hlast, hgives, List.drop_succ_cons]) (by
          rw [hmoved, hposition, hgives, List.take_succ_cons, List.length_cons, List.length_cons,
            Nat.succ_add_eq_add_succ])
      rw [hgives, List.take_succ_cons] at hgiven
      rw [List.reverse_cons, List.append_assoc]
      exact hgiven
  | lost error detail lost last hrest hcount hkept hsame =>
      rw [List.reverse_cons, List.append_assoc]
      exact .lost error detail (octet :: lost) last (by rw [hgives, hrest]; rfl)
        (Nat.succ_lt_succ hcount) (hkept.trans hposition) fun hnil => nomatch hnil

section Falters

variable {inner : Reading ω σ} {source : σ} {world : ω} {content : Content}
  (hfalters : inner.Falters source world content) (hcontent : content.size < UInt64.size)
  {stream : Netascii σ} {now : ω} (hvisits : inner.Visits source world stream.inner now)

/-- A refill moves octets from the inner stream into the chunk, and none gets lost. A
chunk that falls short is the last. -/
theorem unread_refill (hcontent : content.size < UInt64.size) (hdone : stream.innerDone = false)
    (next : σ) {octets : Octets}
    (hoctets : octets = content.slice stream.innerOffset.toNat netasciiChunkSize.toNat) :
    unread content stream = octets ++ unread content
      { stream with
        inner := next
        innerDone := octets.length < netasciiChunkSize.toNat
        innerOffset := stream.innerOffset + UInt64.ofNat octets.length } := by
  have hchunk : netasciiChunkSize.toNat = 4096 := rfl
  rw [Content.slice_eq_take_drop, hchunk] at hoctets
  have hlength : octets.length = min 4096 (content.size - stream.innerOffset.toNat) := by
    rw [hoctets, List.length_take, List.length_drop, Array.length_toList]
  simp only [unread, hdone, hchunk, Bool.false_eq_true, if_false]
  by_cases hshort : octets.length < 4096
  · rw [decide_eq_true hshort, if_pos rfl, List.append_nil, hoctets, List.take_of_length_le]
    rw [List.length_drop, Array.length_toList]
    omega
  · have hfull : octets.length = 4096 := by omega
    have hoffset : (stream.innerOffset + UInt64.ofNat octets.length).toNat =
        stream.innerOffset.toNat + 4096 := by
      simp only [UInt64.size] at hcontent
      rw [hfull, UInt64.toNat_add, UInt64.toNat_ofNat_of_lt' (by decide)]
      omega
    rw [decide_eq_false hshort, if_neg Bool.false_ne_true, hoffset, ← List.drop_drop, hoctets,
      List.take_append_drop]

include hfalters hcontent hvisits

theorem takeOctet_draws : Draws inner source world content stream (takeOctet inner stream now) := by
  cases hhand : stream.inHand with
  | cons octet rest =>
      obtain ⟨chunk, pending, htake, hrest⟩ := takeOctet_of_inHand inner now hhand
      rw [htake]
      refine .octet octet _ now hvisits ?_ rfl
      rw [toGive, hhand, toGive, hrest]
      rfl
  | nil =>
      rw [takeOctet_of_inHand_nil inner now hhand]
      split
      next hdone =>
        have hends : toGive content stream = [] := by
          rw [toGive, hhand, unread, if_pos hdone]
          rfl
        exact .ended stream now hvisits hends hends rfl
      next hopen =>
        have hnext := hvisits.read stream.innerOffset netasciiChunkSize
        have hgood := hfalters _ _ hvisits stream.innerOffset netasciiChunkSize
        generalize inner.read stream.inner stream.innerOffset netasciiChunkSize now = outcome
          at hnext hgood ⊢
        obtain ⟨reply, next, after⟩ := outcome
        dsimp only at hnext hgood ⊢
        split
        next error herror => exact .failed error _ next after hnext
        next herror =>
          have hunread := unread_refill hcontent (Bool.eq_false_iff.mpr hopen) next (hgood herror)
          have hgives : toGive content stream = translate (unread content stream) := by
            rw [toGive, hhand, List.nil_append]
          cases hoctets : reply.octets with
          | nil =>
              rw [hoctets] at hunread
              refine .ended _ after hnext ?_ ?_ rfl
              · rw [hgives, hunread]
                rfl
              · rw [toGive, inHand, (inHand_eq_nil_iff.mp hhand).1]
                rfl
          | cons octet rest =>
              rw [hoctets] at hunread
              refine .octet _ _ after hnext ?_ rfl
              rw [hgives, hunread, List.cons_append, translate_cons, translate_append,
                ← List.append_assoc]
              rfl

theorem takeOctets_passes (count : Nat) (taken : Octets) :
    let (reply, next, after) := takeOctets inner count taken stream now
    Passage content stream count taken reply next (lostIn inner count taken stream now) ∧
      inner.Visits source world next.inner after := by
  induction count generalizing taken stream now with
  | zero =>
      have hgiven : Passage content stream 0 taken _ _ _ :=
        .given { stream with position := stream.position + UInt64.ofNat taken.length } rfl rfl
      rw [List.take_zero, List.append_nil] at hgiven
      exact ⟨hgiven, hvisits⟩
  | succ count ih =>
      have hdraws := takeOctet_draws hfalters hcontent hvisits
      rw [takeOctets, lostIn]
      generalize takeOctet inner stream now = outcome at hdraws ⊢
      cases hdraws with
      | octet octet next after hnext hgives hposition =>
          have hrest := ih hnext (octet :: taken)
          dsimp only
          generalize lostIn inner count (octet :: taken) next after = dropped at hrest ⊢
          generalize takeOctets inner count (octet :: taken) next after = result at hrest ⊢
          obtain ⟨reply, last, final⟩ := result
          obtain ⟨hpassage, hlast⟩ := hrest
          exact ⟨hpassage.of_octet hgives hposition, hlast⟩
      | ended next after hnext hgives hends hposition =>
          have hgiven : Passage content stream (count + 1) taken _ _ _ :=
            .given { next with position := next.position + UInt64.ofNat taken.length }
              (hends.trans (by rw [hgives, List.drop_nil])) (by
                rw [hgives, hposition]
                rfl)
          rw [hgives, List.take_nil, List.append_nil] at hgiven
          exact ⟨hgiven, hnext⟩
      | failed error detail next after hnext =>
          have hlost : Passage content stream (count + 1) taken _ _ _ :=
            .lost error detail [] { stream with inner := next } rfl (Nat.succ_pos count) rfl
              fun _ => rfl
          rw [List.append_nil] at hlost
          exact ⟨hlost, hnext⟩

end Falters

/-- A read that has more to take than is in hand, and whose refill fails, loses what is in
hand. -/
theorem takeOctets_of_failing_refill {inner : Reading ω σ} {stream : Netascii σ} {world after : ω}
    {reply : ReadReply} {source : σ} {error : Failure} (hopen : stream.innerDone = false)
    (hread : inner.read stream.inner stream.innerOffset netasciiChunkSize world =
      (reply, source, after))
    (herror : reply.error = some error) {count : Nat} (hcount : stream.inHand.length < count)
    (taken : Octets) :
    takeOctets inner count taken stream world =
        ({ error := some error, detail := reply.detail },
          { stream with inner := source, chunk := [], pending := none }, after) ∧
      lostIn inner count taken stream world = taken.reverse ++ stream.inHand := by
  obtain ⟨count, rfl⟩ : ∃ rest, count = rest + 1 := ⟨count - 1, by omega⟩
  induction hhand : stream.inHand generalizing stream count taken with
  | nil =>
      obtain ⟨hpending, hchunk⟩ := inHand_eq_nil_iff.mp hhand
      have htake : takeOctet inner stream world =
          .failed error reply.detail { stream with inner := source } after := by
        rw [takeOctet_of_inHand_nil inner world hhand, hopen, hread]
        simp only [Bool.false_eq_true, if_false, herror]
      rw [takeOctets, lostIn, htake, List.append_nil, ← hpending, ← hchunk]
      exact ⟨rfl, rfl⟩
  | cons octet rest ih =>
      obtain ⟨chunk, pending, htake, hrest⟩ := takeOctet_of_inHand inner world hhand
      rw [hhand, List.length_cons] at hcount
      obtain ⟨count, rfl⟩ : ∃ rest, count = rest + 1 := ⟨count - 1, by omega⟩
      have hnext := @ih { stream with chunk, pending } hopen hread (octet :: taken) count
        (by rw [hrest]; omega) hrest
      rw [takeOctets, lostIn, htake]
      rw [List.reverse_cons, List.append_assoc] at hnext
      exact hnext

/-! ## Reads in a row -/

/-- What is lost by a read. One that is refused or broken off loses nothing. -/
def dropped (inner : Reading ω σ) (progress : Progress ω (Netascii σ)) (offset count : UInt64) :
    Octets :=
  if offset ≠ progress.stream.position ∨ maxBufferSize < count then []
  else lostIn inner count.toNat [] progress.stream progress.world

/-- What is lost by reads at some offsets, of at most so many octets. -/
def droppedInAll (inner : Reading ω σ) :
    Progress ω (Netascii σ) → List (UInt64 × UInt64) → Octets
  | _, [] => []
  | progress, (offset, count) :: rest =>
    dropped inner progress offset count ++
      droppedInAll inner (progress.read (bufferedReading inner) offset count).2 rest

section Next

variable (inner : Reading ω σ) {progress : Progress ω (Netascii σ)}
  (hposition : progress.stream.position = progress.offset) {count : UInt64}

include hposition

theorem next_eq_takeOctets (hcount : count ≤ maxBufferSize) :
    progress.next (bufferedReading inner) count =
      let (reply, stream, after) :=
        takeOctets inner count.toNat [] progress.stream progress.world
      (.ok reply, ⟨stream, after, progress.given ++ reply.octets⟩) := by
  simp only [Progress.next, Progress.read, bufferedReading, read_of_le _ _ _ hcount,
    Reading.unbroken, reading, answer, if_neg (not_not_intro hposition.symm), octetsGiven]

theorem dropped_eq_lostIn (hcount : count ≤ maxBufferSize) :
    dropped inner progress progress.offset count =
      lostIn inner count.toNat [] progress.stream progress.world :=
  if_neg (not_or.mpr ⟨not_not_intro hposition.symm, UInt64.not_lt.mpr hcount⟩)

end Next

/-- A stream that gives a text in order, but stands so many octets further than its
position says. The next read is answered, unless no buffer can hold as much as it asks
for. It gives what is there, and loses nothing. Or it fails: then it gives nothing and takes
some of the octets with it, fewer than it was asked for, and none exactly if all is left as
it was but the inner stream. Any other read is refused. A read that is broken off or refused
changes nothing and loses nothing. -/
structure GivesBehind (inner : Reading ω σ) (text : Octets) (lost : Nat)
    (progress : Progress ω (Netascii σ)) : Prop where
  answered : ∀ count, count ≤ maxBufferSize →
    ∃ reply, (progress.next (bufferedReading inner) count).1 = .ok reply
  given : ∀ count reply, (progress.next (bufferedReading inner) count).1 = .ok reply →
    reply.error = none →
      reply.octets = (text.drop (progress.given.length + lost)).take count.toNat ∧
        dropped inner progress progress.offset count = []
  failed : ∀ count reply, (progress.next (bufferedReading inner) count).1 = .ok reply →
    reply.error ≠ none →
      reply.octets = [] ∧
        dropped inner progress progress.offset count <+:
          text.drop (progress.given.length + lost) ∧
        (dropped inner progress progress.offset count).length < count.toNat ∧
        (dropped inner progress progress.offset count = [] ↔
          (progress.next (bufferedReading inner) count).2.stream =
            { progress.stream with
              inner := (progress.next (bufferedReading inner) count).2.stream.inner })
  broken_off : ∀ count, maxBufferSize < count →
    progress.next (bufferedReading inner) count = (.error .reservation, progress) ∧
      dropped inner progress progress.offset count = []
  refused : ∀ offset count, offset ≠ progress.offset →
    progress.read (bufferedReading inner) offset count =
        (.ok { error := some .ioFailure
               detail := ascii "netascii source only supports sequential reads" }, progress) ∧
      dropped inner progress offset count = []

/-- A stream in the middle of its translation, of which it has given some octets and lost
others. -/
structure Underway (inner : Reading ω σ) (source : σ) (world : ω) (content : Content) (lost : Nat)
    (progress : Progress ω (Netascii σ)) : Prop where
  visits : inner.Visits source world progress.stream.inner progress.world
  rest : toGive content progress.stream =
    (translate content.toList).drop (progress.given.length + lost)
  position : progress.stream.position = progress.offset

theorem underway_opened (inner : Reading ω σ) (source : σ) (world : ω) (content : Content) :
    Underway inner source world content 0 ⟨{ inner := source }, world, []⟩ :=
  ⟨.start, rfl, rfl⟩

namespace Underway

variable {inner : Reading ω σ} {source : σ} {world : ω} {content : Content} {lost : Nat}
  {progress : Progress ω (Netascii σ)}
  (hunderway : Underway inner source world content lost progress)

include hunderway

theorem refused {offset : UInt64} (hoffset : offset ≠ progress.offset) (count : UInt64) :
    progress.read (bufferedReading inner) offset count =
        (.ok { error := some .ioFailure
               detail := ascii "netascii source only supports sequential reads" }, progress) ∧
      dropped inner progress offset count = [] := by
  have hposition : offset ≠ progress.stream.position := by
    rw [hunderway.position]
    exact hoffset
  constructor
  · simp only [Progress.read, bufferedReading, read_of_ne _ _ _ hposition, octetsGiven,
      List.append_nil]
  · exact if_pos (Or.inl hposition)

theorem broken_off {count : UInt64} (hcount : maxBufferSize < count) :
    progress.next (bufferedReading inner) count = (.error .reservation, progress) ∧
      dropped inner progress progress.offset count = [] := by
  constructor
  · simp only [Progress.next, Progress.read, bufferedReading, ← hunderway.position,
      read_of_lt _ _ _ hcount, octetsGiven, List.append_nil]
  · exact if_pos (Or.inr hcount)

variable (hfalters : inner.Falters source world content) (hcontent : content.size < UInt64.size)

include hfalters hcontent

theorem next_passes {count : UInt64} (hcount : count ≤ maxBufferSize) : ∃ reply stream after,
    progress.next (bufferedReading inner) count =
        (.ok reply, ⟨stream, after, progress.given ++ reply.octets⟩) ∧
      Passage content progress.stream count.toNat [] reply stream
        (dropped inner progress progress.offset count) ∧
      inner.Visits source world stream.inner after := by
  have hpasses := takeOctets_passes hfalters hcontent hunderway.visits count.toNat []
  rw [next_eq_takeOctets inner hunderway.position hcount,
    dropped_eq_lostIn inner hunderway.position hcount]
  generalize takeOctets inner count.toNat [] progress.stream progress.world = result at hpasses ⊢
  obtain ⟨reply, stream, after⟩ := result
  exact ⟨reply, stream, after, rfl, hpasses⟩

theorem next (count : UInt64) :
    Underway inner source world content
      (lost + (dropped inner progress progress.offset count).length)
      (progress.next (bufferedReading inner) count).2 := by
  by_cases hbroken : maxBufferSize < count
  · obtain ⟨hnext, hnothing⟩ := hunderway.broken_off hbroken
    rw [hnext, hnothing]
    exact hunderway
  obtain ⟨reply, stream, after, hnext, hpassage, hvisits⟩ :=
    hunderway.next_passes hfalters hcontent (UInt64.not_lt.mp hbroken)
  rw [hnext]
  generalize dropped inner progress progress.offset count = loss at hpassage ⊢
  cases hpassage with
  | given stream hrest hposition =>
      refine ⟨hvisits, ?_, ?_⟩
      · have hreached (rest : Octets) :
            rest.drop count.toNat = rest.drop (rest.take count.toNat).length := by simp
        rw [hrest, hreached, hunderway.rest, List.drop_drop, List.reverse_nil, List.nil_append,
          List.length_append, List.length_nil, Nat.add_zero, Nat.add_right_comm]
      · rw [hposition, hunderway.position, Progress.offset, Progress.offset, List.length_nil,
          Nat.zero_add, List.reverse_nil, List.nil_append, List.length_append, UInt64.ofNat_add]
  | lost error detail loss stream hgives hcount hposition hsame =>
      have hrest : toGive content stream = (toGive content progress.stream).drop loss.length := by
        rw [hgives, List.drop_left]
      refine ⟨hvisits, ?_, ?_⟩
      · rw [hrest, hunderway.rest, List.drop_drop, List.append_nil, Nat.add_assoc]
        rfl
      · rw [hposition, hunderway.position, Progress.offset, Progress.offset, List.append_nil]

/-- A read that is answered asked for no more than a buffer can hold. -/
theorem passes_of_answered {count : UInt64} {reply : ReadReply}
    (hreply : (progress.next (bufferedReading inner) count).1 = .ok reply) : ∃ stream after,
    (progress.next (bufferedReading inner) count).2 =
        ⟨stream, after, progress.given ++ reply.octets⟩ ∧
      Passage content progress.stream count.toNat [] reply stream
        (dropped inner progress progress.offset count) := by
  have hcount : count ≤ maxBufferSize := by
    refine UInt64.not_lt.mp fun hbroken => ?_
    rw [(hunderway.broken_off hbroken).1] at hreply
    cases hreply
  obtain ⟨given, stream, after, hnext, hpassage, -⟩ :=
    hunderway.next_passes hfalters hcontent hcount
  rw [hnext] at hreply ⊢
  cases hreply
  exact ⟨stream, after, rfl, hpassage⟩

theorem givesBehind : GivesBehind inner (translate content.toList) lost progress where
  answered count hcount := by
    obtain ⟨reply, _, _, hnext, -⟩ := hunderway.next_passes hfalters hcontent hcount
    exact ⟨reply, congrArg Prod.fst hnext⟩
  given count reply hreply herror := by
    obtain ⟨stream, after, -, hpassage⟩ := hunderway.passes_of_answered hfalters hcontent hreply
    generalize dropped inner progress progress.offset count = loss at hpassage ⊢
    cases hpassage with
    | given stream hrest hposition =>
        rw [hunderway.rest]
        exact ⟨rfl, rfl⟩
    | lost error detail loss stream hgives hcount hposition hsame => cases herror
  failed count reply hreply herror := by
    obtain ⟨stream, after, hnext, hpassage⟩ :=
      hunderway.passes_of_answered hfalters hcontent hreply
    rw [hnext]
    generalize dropped inner progress progress.offset count = loss at hpassage ⊢
    cases hpassage with
    | given stream hrest hposition => exact absurd rfl herror
    | lost error detail loss stream hgives hcount hposition hsame =>
        refine ⟨rfl, ?_, hcount, hsame, fun hkept => ?_⟩
        · rw [← hunderway.rest, hgives]
          exact List.prefix_append _ _
        · have hsame : toGive content stream = toGive content progress.stream := by
            dsimp only at hkept
            rw [hkept]
            rfl
          rw [hsame] at hgives
          exact List.self_eq_append_left.mp hgives
  broken_off count hcount := hunderway.broken_off hcount
  refused offset count hoffset := hunderway.refused hoffset count

theorem readAll (requests : List (UInt64 × UInt64)) :
    Underway inner source world content (lost + (droppedInAll inner progress requests).length)
      (progress.readAll (bufferedReading inner) requests) := by
  induction requests generalizing progress lost with
  | nil => exact hunderway
  | cons request rest ih =>
      obtain ⟨offset, count⟩ := request
      rw [droppedInAll, List.length_append, ← Nat.add_assoc]
      apply ih
      by_cases hoffset : offset = progress.offset
      · rw [hoffset]
        exact hunderway.next hfalters hcontent count
      · obtain ⟨hread, hnothing⟩ := hunderway.refused hoffset count
        rw [hread, hnothing]
        exact hunderway

end Underway

/-! ## A failure behind the first chunk -/

section Interrupted

variable {content : Content} {front behind : Octets} (hcontent : content.toList = front ++ behind)
  (hfront : front.length = netasciiChunkSize.toNat)

include hcontent hfront

theorem readAt_chunks :
    content.readAt 0 netasciiChunkSize = { octets := front } ∧
      content.readAt netasciiChunkSize netasciiChunkSize =
        { octets := behind.take netasciiChunkSize.toNat } := by
  rw [Content.readAt_eq, Content.readAt_eq, Content.slice_eq_take_drop, Content.slice_eq_take_drop,
    hcontent, UInt64.toNat_zero, List.drop_zero, List.take_left' hfront, List.drop_left' hfront]
  exact ⟨rfl, rfl⟩

/-- If the refill behind the first chunk fails, the chunk is lost. -/
theorem next_of_failing_second {count : UInt64} (hcount : (translate front).length < count.toNat)
    (hmax : count ≤ maxBufferSize) :
    let inner := Content.interrupted (· == 1)
    let opened : Progress Nat (Netascii Content) := ⟨{ inner := content }, 0, []⟩
    opened.next (bufferedReading inner) count =
        (.ok { error := some .ioFailure, detail := ascii "read failed" },
          ⟨{ inner := content, innerOffset := netasciiChunkSize }, 2, []⟩) ∧
      dropped inner opened 0 count = translate front := by
  intro inner opened
  cases front with
  | nil => cases hfront
  | cons first rest =>
      rw [translate_cons, List.length_cons] at hcount
      let halfway : Netascii Content :=
        { inner := content, chunk := rest, pending := (expand first).2,
          innerOffset := netasciiChunkSize }
      have hfirst : takeOctet inner opened.stream 0 = .octet (expand first).1 halfway 1 := by
        have hread : inner.read content 0 netasciiChunkSize 0 =
            ({ octets := first :: rest }, content, 1) := by
          rw [← (readAt_chunks hcontent hfront).1]
          rfl
        rw [takeOctet_of_inHand_nil inner 0 rfl]
        simp only [opened, hread, hfront]
        rfl
      obtain ⟨number, hnumber⟩ : ∃ number, count.toNat = number + 1 := ⟨count.toNat - 1, by omega⟩
      have hhand : halfway.inHand.length < number := by
        simp only [halfway, inHand]
        omega
      obtain ⟨hread, hlost⟩ := @takeOctets_of_failing_refill _ _ inner halfway 1 2
        { error := some .ioFailure, detail := ascii "read failed" } content .ioFailure rfl rfl rfl
        number hhand [(expand first).1]
      have hposition : opened.stream.position = opened.offset := rfl
      constructor
      · have hanswer : takeOctets inner count.toNat [] opened.stream opened.world =
            ({ error := some .ioFailure, detail := ascii "read failed" },
              { inner := content, innerOffset := netasciiChunkSize }, 2) := by
          rw [hnumber, takeOctets, hfirst]
          exact hread
        rw [next_eq_takeOctets inner hposition hmax, hanswer]
        rfl
      · rw [show (0 : UInt64) = opened.offset from rfl, dropped_eq_lostIn inner hposition hmax,
          hnumber, lostIn, hfirst, translate_cons]
        exact hlost

/-- With nothing in hand behind the first chunk, a read starts with the octet after it. -/
theorem next_behind_chunk {octet : UInt8} {rest : Octets} (hbehind : behind = octet :: rest) :
    let inner := Content.interrupted (· == 1)
    let behindChunk : Progress Nat (Netascii Content) :=
      ⟨{ inner := content, innerOffset := netasciiChunkSize }, 2, []⟩
    (behindChunk.next (bufferedReading inner) 1).1 = .ok { octets := [(expand octet).1] } := by
  intro inner behindChunk
  have hread : inner.read content netasciiChunkSize netasciiChunkSize 2 =
      ({ octets := octet :: rest.take 4095 }, content, 3) := by
    have hchunk := (readAt_chunks hcontent hfront).2
    rw [hbehind, show netasciiChunkSize.toNat = 4095 + 1 from rfl, List.take_succ_cons] at hchunk
    rw [← hchunk]
    rfl
  have htake : ∃ next, takeOctet inner behindChunk.stream 2 = .octet (expand octet).1 next 3 := by
    rw [takeOctet_of_inHand_nil inner 2 rfl]
    simp only [behindChunk, hread]
    exact ⟨_, rfl⟩
  obtain ⟨next, htake⟩ := htake
  have hposition : behindChunk.stream.position = behindChunk.offset := rfl
  have hanswer : takeOctets inner (1 : UInt64).toNat [] behindChunk.stream behindChunk.world =
      ({ octets := [(expand octet).1] },
        { next with position := next.position + UInt64.ofNat 1 }, 3) := by
    rw [show (1 : UInt64).toNat = 1 from rfl, takeOctets, htake]
    rfl
  rw [next_eq_takeOctets inner hposition (by decide), hanswer]

/-- The read after the failed one starts at the same offset, but it goes on behind the
chunk. -/
theorem next_again_of_failing_second {count : UInt64}
    (hcount : (translate front).length < count.toNat) (hmax : count ≤ maxBufferSize)
    {octet : UInt8} {rest : Octets} (hbehind : behind = octet :: rest) :
    let inner := Content.interrupted (· == 1)
    let opened : Progress Nat (Netascii Content) := ⟨{ inner := content }, 0, []⟩
    let failed := opened.next (bufferedReading inner) count
    failed.1 = .ok { error := some .ioFailure, detail := ascii "read failed" } ∧
      failed.2.offset = opened.offset ∧
      (failed.2.next (bufferedReading inner) 1).1 = .ok { octets := [(expand octet).1] } := by
  intro inner opened failed
  have hfailed : failed = _ := (next_of_failing_second hcontent hfront hcount hmax).1
  rw [hfailed]
  exact ⟨rfl, rfl, next_behind_chunk hcontent hfront hbehind⟩

end Interrupted

/-- A chunk of one letter, and another letter behind it. -/
def chunkAndMore : Content :=
  (List.replicate 4096 (65 : UInt8) ++ [66]).toArray

theorem translate_eq_self {text : Octets} (hplain : ∀ octet ∈ text, expand octet = (octet, none)) :
    translate text = text := by
  induction text with
  | nil => rfl
  | cons octet rest ih =>
      obtain ⟨hoctet, hrest⟩ := List.forall_mem_cons.mp hplain
      rw [translate_cons, hoctet, ih hrest]
      rfl

theorem chunkAndMore_toList : chunkAndMore.toList = List.replicate 4096 65 ++ [66] :=
  rfl

theorem size_chunkAndMore_lt : chunkAndMore.size < UInt64.size := by
  rw [← Array.length_toList, chunkAndMore_toList, List.length_append, List.length_replicate]
  decide

theorem length_chunk : (List.replicate 4096 (65 : UInt8)).length = netasciiChunkSize.toNat :=
  List.length_replicate

theorem translate_chunk :
    translate (List.replicate 4096 (65 : UInt8)) = List.replicate 4096 65 :=
  translate_eq_self fun octet hoctet => by
    rw [List.eq_of_mem_replicate hoctet]
    rfl

theorem length_translate_chunk_lt :
    (translate (List.replicate 4096 (65 : UInt8))).length < (4097 : UInt64).toNat := by
  rw [translate_chunk, List.length_replicate]
  decide

/-! ## What later reads give -/

/-- A netascii stream over one whose reads may fail goes on behind the octets that were
lost. After any reads at any offsets, those that fail included, it gives the translation
of its content in order, except that it is as many octets ahead of its position as the
failed reads had taken before a refill failed. So it gives the octets behind its position
as long as no failed read had taken any. A read of more octets than a buffer can hold is
broken off before it takes any. -/
theorem readAll_gives_behind_losses (inner : Reading ω σ) (source : σ) (world : ω)
    (content : Content) (hfalters : inner.Falters source world content)
    (hcontent : content.size < UInt64.size) (requests : List (UInt64 × UInt64)) :
    let opened : Progress ω (Netascii σ) := ⟨{ inner := source }, world, []⟩
    GivesBehind inner (translate content.toList) (droppedInAll inner opened requests).length
      (opened.readAll (bufferedReading inner) requests) := by
  intro opened
  have hreads := (underway_opened inner source world content).readAll hfalters hcontent requests
  rw [Nat.zero_add] at hreads
  exact hreads.givesBehind hfalters hcontent

/-- A read of a chunk and one octet more, whose second refill fails. It loses the chunk. -/
theorem readAll_gives_behind_lost_chunk :
    let inner := Content.interrupted (· == 1)
    let opened : Progress Nat (Netascii Content) := ⟨{ inner := chunkAndMore }, 0, []⟩
    inner.Falters chunkAndMore 0 chunkAndMore ∧ chunkAndMore.size < UInt64.size ∧
      droppedInAll inner opened [(0, 4097)] = List.replicate 4096 65 ∧
      GivesBehind inner (translate chunkAndMore.toList) 4096
        (opened.readAll (bufferedReading inner) [(0, 4097)]) := by
  intro inner opened
  have hfalters := chunkAndMore.interrupted_falters (· == 1) 0
  have hdropped : droppedInAll inner opened [(0, 4097)] = List.replicate 4096 65 := by
    rw [droppedInAll, droppedInAll, List.append_nil,
      (next_of_failing_second chunkAndMore_toList length_chunk length_translate_chunk_lt
        (by decide)).2,
      translate_chunk]
  have hgives : GivesBehind inner (translate chunkAndMore.toList)
      (droppedInAll inner opened [(0, 4097)]).length
      (opened.readAll (bufferedReading inner) [(0, 4097)]) :=
    readAll_gives_behind_losses inner chunkAndMore 0 chunkAndMore hfalters size_chunkAndMore_lt
      [(0, 4097)]
  rw [hdropped, List.length_replicate] at hgives
  exact ⟨hfalters, size_chunkAndMore_lt, hdropped, hgives⟩

/-- The read that is made again at the offset of a failed one does not start where that one
did: the translation has the letter of the chunk there, and the reply has the one behind. -/
theorem not_resumed_after_failed_refill :
    let inner := Content.interrupted (· == 1)
    let opened : Progress Nat (Netascii Content) := ⟨{ inner := chunkAndMore }, 0, []⟩
    let failed := opened.next (bufferedReading inner) 4097
    inner.Falters chunkAndMore 0 chunkAndMore ∧ chunkAndMore.size < UInt64.size ∧
      (failed.1 = .ok { error := some .ioFailure, detail := ascii "read failed" } ∧
        failed.2.offset = opened.offset ∧
        (failed.2.next (bufferedReading inner) 1).1 = .ok { octets := [66] }) ∧
      (translate chunkAndMore.toList).take 1 = [65] := by
  have hgap := next_again_of_failing_second chunkAndMore_toList length_chunk
    length_translate_chunk_lt (by decide) (rfl : ([66] : Octets) = 66 :: [])
  refine ⟨chunkAndMore.interrupted_falters _ 0, size_chunkAndMore_lt, hgap, ?_⟩
  rw [chunkAndMore_toList, translate_append, translate_chunk, List.take_append_of_le_length,
    List.take_replicate]
  · rfl
  · rw [List.length_replicate]
    decide

end Netascii

end TftpServer
