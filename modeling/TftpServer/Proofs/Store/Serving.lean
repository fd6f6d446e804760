import TftpServer.Proofs.Transfer.Blocks

/-! # Streams that serve a content

A stream serves a content when each read that does not fail gives the octets of
the content behind its offset, as far as the content and the request reach. Any
read may fail, as long as the failure is explained in a text that can be sent, and
nothing is asked of the stream after that.
-/

namespace TftpServer

variable {ω σ : Type}

/-- What becomes of a stream and its world by reads that do not fail. -/
inductive Reading.Reaches (reading : Reading ω σ) (source : σ) (world : ω) : σ → ω → Prop where
  | refl : Reaches reading source world source world
  | read {next : σ} {after : ω} {offset count : UInt64} {reply : ReadReply} {last : σ} {final : ω}
      (hbefore : Reaches reading source world next after)
      (hread : reading.read next offset count after = (reply, last, final))
      (herror : reply.error = none) : Reaches reading source world last final

/-- However it has been read so far, the stream gives what is asked of the
content, or fails and can say so. -/
def Reading.Serves (reading : Reading ω σ) (source : σ) (world : ω) (content : Content) : Prop :=
  ∀ next after, reading.Reaches source world next after → ∀ offset count,
    let reply := (reading.read next offset count after).1
    reply.error = none ∧ reply.octets = content.slice offset.toNat count.toNat ∨
      reply.error ≠ none ∧ 0 ∉ reply.detail

namespace Reading.Serves

variable {reading : Reading ω σ} {source next : σ} {world after : ω} {content : Content}
  (hserves : reading.Serves source world content) (hnext : reading.Reaches source world next after)
  {offset count : UInt64} {reply : ReadReply} {last : σ} {final : ω}
  (hread : reading.read next offset count after = (reply, last, final))

include hserves hnext hread

theorem octets (herror : reply.error = none) :
    reply.octets = content.slice offset.toNat count.toNat := by
  have hreply := hserves next after hnext offset count
  rw [hread] at hreply
  rcases hreply with ⟨_, hoctets⟩ | ⟨hfailed, _⟩
  · exact hoctets
  · exact absurd herror hfailed

theorem nul_notMem_detail (herror : reply.error ≠ none) : 0 ∉ reply.detail := by
  have hreply := hserves next after hnext offset count
  rw [hread] at hreply
  rcases hreply with ⟨hgiven, _⟩ | ⟨_, hdetail⟩
  · exact absurd hgiven herror
  · exact hdetail

end Reading.Serves

/-! ## Contents in memory -/

namespace Content

variable (content : Content)

theorem eq_of_reaches {world after : ω} {next : Content}
    (hnext : (Content.reading ω).Reaches content world next after) :
    next = content ∧ after = world := by
  induction hnext with
  | refl => exact ⟨rfl, rfl⟩
  | read _ hread _ ih =>
      cases hread
      exact ih

theorem reading_serves (world : ω) : (Content.reading ω).Serves content world content := by
  intro next after hnext offset count
  obtain ⟨rfl, rfl⟩ := content.eq_of_reaches hnext
  refine Or.inl ?_
  simp only [reading, readAt_eq, and_self]

end Content

end TftpServer
