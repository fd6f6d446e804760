import TftpServer.Proofs.Transfer.Delivery
import TftpServer.Store.Netascii

/-! # Netascii streams serve the translated content

A netascii stream expands its inner stream while it is read, with a chunk of it
and half of an expanded octet in hand between reads. What it still has to give is
the translation of what lies before it, so whatever the sizes of blocks and chunks
are, a pass over it gives the blocks of the translated content.
-/

namespace TftpServer

variable {ω σ : Type}

namespace Netascii

/-- A text with its line feeds and carriage returns as they travel. -/
def translate (octets : Octets) : Octets :=
  octets.flatMap fun octet =>
    if octet = 10 then [13, 10] else if octet = 13 then [13, 0] else [octet]

theorem translate_cons (octet : UInt8) (rest : Octets) :
    translate (octet :: rest) =
      (expand octet).1 :: ((expand octet).2.toList ++ translate rest) := by
  rw [translate, List.flatMap_cons, expand]
  split
  · rfl
  · split <;> rfl

theorem length_le_length_translate (octets : Octets) :
    octets.length ≤ (translate octets).length := by
  induction octets with
  | nil => exact Nat.le_refl 0
  | cons octet rest ih =>
      rw [translate_cons, List.length_cons, List.length_cons, List.length_append]
      omega

def translated (content : Content) : Content :=
  (translate content.toList).toArray

/-- What the inner stream has not given yet: nothing once it has ended, and else
the content behind the chunks that were read. -/
inductive Unread (feed : Feed ω σ) (content : Content) (inner : σ) (offset : UInt64) (world : ω) :
    Bool → Octets → Prop where
  | nothing : Unread feed content inner offset world true []
  | behind (done : Nat) (hreached : done * feed.blockSize.toNat ≤ content.size)
      (hstate : feed.state done = (inner, world)) (hoffset : offset = feed.offset done) :
      Unread feed content inner offset world false
        (content.toList.drop (done * feed.blockSize.toNat))

/-- What a stream still has to give: the second half of an octet, if there is one
left, and the translation of what is left of the chunk and of the inner stream. -/
def Standing (feed : Feed ω σ) (content : Content) (stream : Netascii σ) (world : ω)
    (rest : Octets) : Prop :=
  ∃ unread, Unread feed content stream.inner stream.innerOffset world stream.innerDone unread ∧
    rest = stream.pending.toList ++ translate (stream.chunk ++ unread)

/-- The octet that is next, or the end. The position stays, since it only moves
with a whole read. -/
inductive Takes (feed : Feed ω σ) (content : Content) (position : UInt64) :
    Octets → Taken ω σ → Prop where
  | octet (octet : UInt8) (rest : Octets) (next : Netascii σ) (after : ω)
      (hstanding : Standing feed content next after rest) (hposition : next.position = position) :
      Takes feed content position (octet :: rest) (.octet octet next after)
  | ended (next : Netascii σ) (after : ω) (hstanding : Standing feed content next after [])
      (hposition : next.position = position) :
      Takes feed content position [] (.ended next after)

section Inner

variable {feed : Feed ω σ} {content : Content} {stream : Netascii σ} {world : ω}

theorem takeFrom_takes (stream : Netascii σ) {unread octets : Octets}
    (hunread : Unread feed content stream.inner stream.innerOffset world stream.innerDone unread)
    (hpending : stream.pending = none) (hempty : octets = [] → unread = []) :
    Takes feed content stream.position (translate (octets ++ unread))
      (takeFrom stream world octets) := by
  cases octets with
  | nil =>
      obtain rfl := hempty rfl
      exact .ended _ _ ⟨[], hunread, by rw [hpending]; rfl⟩ rfl
  | cons octet rest =>
      rw [List.cons_append, translate_cons]
      exact .octet _ _ _ _ ⟨unread, hunread, rfl⟩ rfl

variable (hserves : feed.Serves content) (hchunk : feed.blockSize = netasciiChunkSize)
  (hcontent : content.size < UInt64.size)

include hserves hchunk hcontent

/-- What a refill leaves unread, behind the chunk that it brings. -/
theorem unread_succ {done : Nat} (hreached : done * feed.blockSize.toNat ≤ content.size) :
    Unread feed content (feed.state (done + 1)).1
      (feed.offset done + UInt64.ofNat (feed.reply done).octets.length) (feed.state (done + 1)).2
      (decide ((feed.reply done).octets.length < netasciiChunkSize.toNat))
      (content.toList.drop ((done + 1) * feed.blockSize.toNat)) := by
  have hlower : 8 ≤ feed.blockSize.toNat := by
    rw [hchunk]
    decide
  have hnext : (done + 1) * feed.blockSize.toNat =
      done * feed.blockSize.toNat + feed.blockSize.toNat := Nat.succ_mul _ _
  have hlength := hserves.length_octets hreached
  rw [← hchunk]
  by_cases hshort : (feed.reply done).octets.length < feed.blockSize.toNat
  · have hnothing : content.toList.drop ((done + 1) * feed.blockSize.toNat) = [] := by
      rw [List.drop_eq_nil_iff, Array.length_toList]
      omega
    rw [decide_eq_true hshort, hnothing]
    exact .nothing
  · have hwhole : (feed.reply done).octets.length = feed.blockSize.toNat := by
      omega
    rw [decide_eq_false hshort]
    refine .behind (done + 1) (by omega) rfl ?_
    rw [hwhole, feed.offset_eq hlower (by omega), feed.offset_eq hlower (by omega),
      ← UInt64.ofNat_add, hnext]

theorem takeOctet_takes {rest : Octets} (hstanding : Standing feed content stream world rest) :
    Takes feed content stream.position rest (takeOctet feed.reading stream world) := by
  obtain ⟨inner, chunk, pending, offset, position, ended⟩ := stream
  obtain ⟨unread, hunread, rfl⟩ := hstanding
  unfold takeOctet
  cases pending with
  | some octet => exact .octet _ _ _ _ ⟨unread, hunread, rfl⟩ rfl
  | none =>
      cases chunk with
      | cons octet tail => exact takeFrom_takes _ hunread rfl fun hnil => nomatch hnil
      | nil =>
          cases hunread with
          | nothing => exact .ended _ _ ⟨[], .nothing, rfl⟩ rfl
          | behind done hreached hstate hoffset =>
              dsimp only at hstate hoffset
              have hread : feed.reading.read inner offset netasciiChunkSize world =
                  (feed.reply done, feed.state (done + 1)) := by
                rw [Feed.reply, Feed.state, hstate, hoffset, hchunk]
              have hsplit : content.toList.drop (done * feed.blockSize.toNat) =
                  (feed.reply done).octets ++
                    content.toList.drop ((done + 1) * feed.blockSize.toNat) := by
                rw [hserves.octets done hreached, Content.block, Content.slice_eq_take_drop,
                  Nat.add_sub_cancel, Nat.succ_mul, ← List.drop_drop, List.take_append_drop]
              have hafter := unread_succ hserves hchunk hcontent hreached
              have hempty : (feed.reply done).octets = [] →
                  content.toList.drop ((done + 1) * feed.blockSize.toNat) = [] := by
                intro hnil
                have hlength := hserves.length_octets hreached
                have hpositive : 0 < feed.blockSize.toNat := by
                  rw [hchunk]
                  decide
                rw [hnil, List.length_nil] at hlength
                rw [List.drop_eq_nil_iff, Array.length_toList, Nat.succ_mul]
                omega
              subst hoffset
              simp only [Bool.false_eq_true, if_false, hread, hserves.error done hreached]
              have htakes := takeFrom_takes ⟨(feed.state (done + 1)).1, [], none, _, position, _⟩
                hafter rfl hempty
              rw [← hsplit] at htakes
              exact htakes

theorem takeOctets_eq (count : Nat) (taken : Octets) {rest : Octets}
    (hstanding : Standing feed content stream world rest) :
    ∃ next after, takeOctets feed.reading count taken stream world =
        ({ octets := taken.reverse ++ rest.take count }, next, after) ∧
      Standing feed content next after (rest.drop count) ∧
      next.position = stream.position + UInt64.ofNat (taken.length + (rest.take count).length) := by
  induction count generalizing taken stream world rest with
  | zero =>
      refine ⟨{ stream with position := stream.position + UInt64.ofNat taken.length }, world, ?_,
        hstanding, rfl⟩
      rw [List.take_zero, List.append_nil, takeOctets]
      rfl
  | succ count ih =>
      have htakes := takeOctet_takes hserves hchunk hcontent hstanding
      rw [takeOctets]
      generalize takeOctet feed.reading stream world = outcome at htakes ⊢
      cases htakes with
      | ended next after hnext hposition =>
          refine ⟨{ next with position := next.position + UInt64.ofNat taken.length }, after, ?_,
            hnext, ?_⟩
          · rw [List.take_nil, List.append_nil]
            rfl
          · rw [← hposition]
            rfl
      | octet octet rest next after hnext hposition =>
          obtain ⟨last, final, hread, hlast, hmoved⟩ := ih (octet :: taken) hnext
          refine ⟨last, final, ?_, hlast, ?_⟩
          · rw [List.reverse_cons, List.append_assoc] at hread
            exact hread
          · rw [hmoved, hposition, List.take_succ_cons, List.length_cons, List.length_cons,
              Nat.succ_add_eq_add_succ]

/-- A read at the position reached so far gives what is next, as far as it goes. -/
theorem answer_eq (count : UInt64) {rest : Octets} (hstanding : Standing feed content stream world rest) :
    ∃ next after, answer feed.reading stream stream.position count world =
        ({ octets := rest.take count.toNat }, next, after) ∧
      Standing feed content next after (rest.drop count.toNat) ∧
      next.position = stream.position + UInt64.ofNat (rest.take count.toNat).length := by
  obtain ⟨next, after, hread, hnext, hmoved⟩ :=
    takeOctets_eq hserves hchunk hcontent count.toNat [] hstanding
  rw [List.length_nil, Nat.zero_add] at hmoved
  exact ⟨next, after, (if_neg (not_not_intro rfl)).trans hread, hnext, hmoved⟩

end Inner

/-- A stream that has not been read yet has all of its content to give. -/
theorem standing_opened (feed : Feed ω σ) (content : Content) :
    Standing feed content { inner := feed.source } feed.world (translate content.toList) := by
  have hoffset : feed.offset 0 = 0 := by
    rw [Feed.offset, BlockPosition.offset_ofNumber (by decide), Nat.zero_mul]
    rfl
  exact ⟨_, .behind 0 (by simp) rfl hoffset.symm, by simp⟩

/-! ## The pass over a netascii stream -/

section Pass

variable {feed : Feed ω σ} {content : Content} (hserves : feed.Serves content)
  (hchunk : feed.blockSize = netasciiChunkSize) {blockSize : UInt64} (hlower : 8 ≤ blockSize.toNat)
  (hlength : (translate content.toList).length < UInt64.size)

/-- The pass over a netascii stream that starts with its inner one. -/
def passOver (feed : Feed ω σ) (blockSize : UInt64) : Feed ω (Netascii σ) :=
  ⟨reading feed.reading, { inner := feed.source }, feed.world, blockSize⟩

include hserves hchunk hlower hlength

/-- Between its reads, the stream stands behind the blocks that it gave, and has
counted their octets. So the next read is one that it accepts. -/
theorem passOver_step {done : Nat} {rest : Octets}
    (hreached : done * blockSize.toNat ≤ (translate content.toList).length)
    (hstanding : Standing feed content ((passOver feed blockSize).state done).1
      ((passOver feed blockSize).state done).2 rest)
    (hposition : ((passOver feed blockSize).state done).1.position =
      UInt64.ofNat (done * blockSize.toNat)) :
    (passOver feed blockSize).reply done = { octets := rest.take blockSize.toNat } ∧
      Standing feed content ((passOver feed blockSize).state (done + 1)).1
        ((passOver feed blockSize).state (done + 1)).2 (rest.drop blockSize.toNat) ∧
      ((passOver feed blockSize).state (done + 1)).1.position =
        UInt64.ofNat (done * blockSize.toNat + (rest.take blockSize.toNat).length) := by
  have hcontent : content.size < UInt64.size :=
    Nat.lt_of_le_of_lt (length_le_length_translate content.toList) hlength
  have hoffset : (passOver feed blockSize).offset done = UInt64.ofNat (done * blockSize.toNat) :=
    Feed.offset_eq _ hlower (Nat.lt_of_le_of_lt hreached hlength)
  rw [Feed.reply, Feed.state, hoffset]
  generalize (passOver feed blockSize).state done = before at hstanding hposition ⊢
  obtain ⟨next, after, hread, hnext, hmoved⟩ := answer_eq hserves hchunk hcontent blockSize hstanding
  have hanswer : (passOver feed blockSize).reading.read before.1
      (UInt64.ofNat (done * blockSize.toNat)) blockSize before.2 =
        ({ octets := rest.take blockSize.toNat }, next, after) :=
    hposition ▸ hread
  have hsize : (passOver feed blockSize).blockSize = blockSize := rfl
  rw [hsize, hanswer]
  refine ⟨rfl, hnext, ?_⟩
  rw [hmoved, hposition, ← UInt64.ofNat_add]

theorem passOver_standing (done : Nat)
    (hreached : done * blockSize.toNat ≤ (translate content.toList).length) :
    Standing feed content ((passOver feed blockSize).state done).1
        ((passOver feed blockSize).state done).2
        ((translate content.toList).drop (done * blockSize.toNat)) ∧
      ((passOver feed blockSize).state done).1.position =
        UInt64.ofNat (done * blockSize.toNat) := by
  induction done with
  | zero =>
      rw [Nat.zero_mul]
      exact ⟨standing_opened feed content, rfl⟩
  | succ done ih =>
      rw [Nat.succ_mul] at hreached
      have hbefore : done * blockSize.toNat ≤ (translate content.toList).length := by
        omega
      obtain ⟨hstanding, hposition⟩ := ih hbefore
      obtain ⟨_, hnext, hmoved⟩ :=
        passOver_step hserves hchunk hlower hlength hbefore hstanding hposition
      rw [List.drop_drop] at hnext
      rw [List.length_take, List.length_drop, Nat.min_eq_left (by omega)] at hmoved
      rw [Nat.succ_mul]
      exact ⟨hnext, hmoved⟩

/-- A netascii stream serves the translation of what its inner stream serves. -/
theorem passOver_serves : (passOver feed blockSize).Serves (translated content) := by
  suffices hreply : ∀ done, done * blockSize.toNat ≤ (translate content.toList).length →
      (passOver feed blockSize).reply done =
        { octets := (translated content).block blockSize.toNat (done + 1) } from
    ⟨fun done hreached => by rw [hreply done hreached],
      fun done hreached => by rw [hreply done hreached]; rfl⟩
  intro done hreached
  obtain ⟨hstanding, hposition⟩ := passOver_standing hserves hchunk hlower hlength done hreached
  rw [(passOver_step hserves hchunk hlower hlength hreached hstanding hposition).1, Content.block,
    Content.slice_eq_take_drop, Nat.add_sub_cancel]
  rfl

end Pass

end Netascii

end TftpServer
