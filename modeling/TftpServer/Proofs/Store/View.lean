import TftpServer.Proofs.Store.Recorded
import TftpServer.Store.Memory

/-! # Views of a larger world

A store may live in a part of a larger world, next to a record or a host. What
it answers, and what becomes of its part, is then the same as if there were
nothing else.
-/

namespace TftpServer

variable {ω τ σ : Type}

/-- Reading in a larger world, of which the view shows the part that matters. -/
structure Reading.Carries (outer : Reading τ σ) (view : τ → ω) (inner : Reading ω σ) : Prop where
  read : ∀ source offset count world,
    let (reply, next, after) := outer.read source offset count world
    inner.read source offset count (view world) = (reply, next, view after)
  length : ∀ source world, inner.length source (view world) = outer.length source world

/-- A store in a larger world, of which the view shows the part that matters. -/
structure Store.Carries (outer : Store τ σ) (view : τ → ω) (inner : Store ω σ) : Prop where
  reading : outer.toReading.Carries view inner.toReading
  openStream : ∀ name mode world,
    let (opened, after) := outer.openStream name mode world
    inner.openStream name mode (view world) = (opened, view after)

/-! ## Records -/

theorem Reading.recorded_carries (reading : Reading ω σ) :
    reading.recorded.Carries Prod.fst reading where
  read _ _ _ _ := rfl
  length _ _ := rfl

theorem Store.recorded_carries (store : Store ω σ) : store.recorded.Carries Prod.fst store where
  reading := store.toReading.recorded_carries
  openStream _ _ _ := rfl

/-- The record grows by what was asked and answered. -/
theorem Reading.recorded_read (reading : Reading ω σ) {source next : σ} {offset count : UInt64}
    {world after : ω × List ReadCall} {reply : ReadReply}
    (hread : reading.recorded.read source offset count world = (reply, next, after)) :
    after.2 = world.2 ++ [⟨offset, count, reply⟩] := by
  cases hread
  rfl

/-! ## Deliveries -/

namespace Netascii

variable {view : τ → ω} {outer : Reading τ σ} {inner : Reading ω σ}

/-- The same outcome with another view of the world. -/
def Taken.map (view : τ → ω) : Taken τ σ → Taken ω σ
  | .octet value stream world => .octet value stream (view world)
  | .ended stream world => .ended stream (view world)
  | .failed error detail stream world => .failed error detail stream (view world)

theorem takeFrom_map (view : τ → ω) (stream : Netascii σ) (world : τ) (octets : Octets) :
    (takeFrom stream world octets).map view = takeFrom stream (view world) octets := by
  cases octets <;> rfl

theorem takeOctet_map (hinner : outer.Carries view inner) (stream : Netascii σ) (world : τ) :
    (takeOctet outer stream world).map view = takeOctet inner stream (view world) := by
  unfold takeOctet
  split
  · rfl
  · split
    · exact takeFrom_map view _ _ _
    · split
      · rfl
      · have hread := hinner.read stream.inner stream.innerOffset netasciiChunkSize world
        rcases houter : outer.read stream.inner stream.innerOffset netasciiChunkSize world with
          ⟨reply, next, after⟩
        rw [houter] at hread
        simp only [hread]
        split
        · rfl
        · exact takeFrom_map view _ _ _

theorem takeOctets_carries (hinner : outer.Carries view inner) (count : Nat) (taken : Octets)
    (stream : Netascii σ) (world : τ) :
    let (reply, next, after) := takeOctets outer count taken stream world
    takeOctets inner count taken stream (view world) = (reply, next, view after) := by
  induction count generalizing taken stream world with
  | zero => rfl
  | succ count ih =>
      have htake := takeOctet_map hinner stream world
      simp only [takeOctets, ← htake]
      cases takeOctet outer stream world with
      | octet octet next after => exact ih (octet :: taken) next after
      | ended next after => rfl
      | failed error detail next after => rfl

theorem reading_carries (hinner : outer.Carries view inner) :
    (Netascii.reading outer).Carries view (Netascii.reading inner) where
  read stream offset count world := by
    simp only [Netascii.reading, Netascii.answer]
    split
    · rfl
    · exact takeOctets_carries hinner _ _ _ _
  length _ _ := rfl

end Netascii

theorem Delivery.reading_carries {view : τ → ω} {outer : Reading τ σ} {inner : Reading ω σ}
    (hinner : outer.Carries view inner) :
    (Delivery.reading outer).Carries view (Delivery.reading inner) where
  read delivery offset count world := by
    cases delivery with
    | octet source =>
        have hread := hinner.read source offset count world
        rcases houter : outer.read source offset count world with ⟨reply, next, after⟩
        rw [houter] at hread
        simp only [Delivery.reading, houter, hread]
    | netascii stream =>
        have hread := (Netascii.reading_carries hinner).read stream offset count world
        rcases houter : (Netascii.reading outer).read stream offset count world with
          ⟨reply, next, after⟩
        rw [houter] at hread
        simp only [Delivery.reading, houter, hread]
  length delivery world := by
    cases delivery with
    | octet source => exact hinner.length source world
    | netascii stream => rfl

/-- A content is read the same in all worlds. -/
theorem Content.reading_carries (view : τ → ω) :
    (Content.reading τ).Carries view (Content.reading ω) where
  read _ _ _ _ := rfl
  length _ _ := rfl

end TftpServer
