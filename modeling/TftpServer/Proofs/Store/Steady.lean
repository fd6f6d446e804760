import TftpServer.Store.File

/-! # Steady stores

A store is steady when what it answers depends only on a part of its world that
it never changes. Which streams are open, and which names were asked for before,
then makes no difference to anyone. A store that leaves its whole world alone is
steady in particular, as the memory store and the file store are.
-/

namespace TftpServer

variable {ω σ τ : Type}

/-- The answers of all streams depend on the essence of the world, which reading
keeps. -/
structure Reading.Steady (reading : Reading ω σ) (essence : ω → τ) : Prop where
  read_essence : ∀ source offset count world,
    essence (reading.read source offset count world).2.2 = essence world
  read_agrees : ∀ source offset count {world other}, essence world = essence other →
    (reading.read source offset count world).1 = (reading.read source offset count other).1 ∧
      (reading.read source offset count world).2.1 = (reading.read source offset count other).2.1
  length_agrees : ∀ source {world other}, essence world = essence other →
    reading.length source world = reading.length source other

/-- So do the answers to requests for a name. -/
structure Store.Steady (store : Store ω σ) (essence : ω → τ) : Prop where
  reading : store.toReading.Steady essence
  open_essence : ∀ name mode world, essence (store.openStream name mode world).2 = essence world
  open_agrees : ∀ name mode {world other}, essence world = essence other →
    (store.openStream name mode world).1 = (store.openStream name mode other).1

/-! ## Stores that leave the world alone -/

/-- Streams that never change the world. -/
def Reading.Pure (reading : Reading ω σ) : Prop :=
  ∀ source offset count world, (reading.read source offset count world).2.2 = world

theorem Reading.Pure.steady {reading : Reading ω σ} (hpure : reading.Pure) : reading.Steady id where
  read_essence := hpure
  read_agrees source offset count world other hworld := by
    cases hworld
    exact ⟨rfl, rfl⟩
  length_agrees source world other hworld := by
    cases hworld
    rfl

theorem Store.steady_of_pure {store : Store ω σ} (hreading : store.toReading.Pure)
    (hopen : ∀ name mode world, (store.openStream name mode world).2 = world) : store.Steady id where
  reading := hreading.steady
  open_essence := hopen
  open_agrees name mode world other hworld := by
    cases hworld
    rfl

namespace Netascii

variable {inner : Reading ω σ}

def Taken.world : Taken ω σ → ω
  | .octet _ _ world => world
  | .ended _ world => world
  | .failed _ _ _ world => world

theorem takeFrom_world (stream : Netascii σ) (world : ω) (octets : Octets) :
    (takeFrom stream world octets).world = world := by
  cases octets <;> rfl

theorem takeOctet_world (hinner : inner.Pure) (stream : Netascii σ) (world : ω) :
    (takeOctet inner stream world).world = world := by
  unfold takeOctet
  split
  · rfl
  · split
    · exact takeFrom_world _ _ _
    · split
      · rfl
      · have hworld := hinner stream.inner stream.innerOffset netasciiChunkSize world
        dsimp only
        split
        · exact hworld
        · exact (takeFrom_world _ _ _).trans hworld

theorem takeOctets_world (hinner : inner.Pure) (count : Nat) (taken : Octets) (stream : Netascii σ)
    (world : ω) : (takeOctets inner count taken stream world).2.2 = world := by
  induction count generalizing taken stream world with
  | zero => rfl
  | succ count ih =>
      have htaken := takeOctet_world hinner stream world
      rw [takeOctets]
      cases htake : takeOctet inner stream world with
      | octet octet next after =>
          rw [htake] at htaken
          exact (ih _ next after).trans htaken
      | ended next after =>
          rw [htake] at htaken
          exact htaken
      | failed error detail next after =>
          rw [htake] at htaken
          exact htaken

theorem reading_pure (hinner : inner.Pure) : (Netascii.reading inner).Pure := by
  intro stream offset count world
  simp only [Netascii.reading, Netascii.answer]
  split
  · rfl
  · exact takeOctets_world hinner _ _ _ _

end Netascii

theorem Delivery.reading_pure {inner : Reading ω σ} (hinner : inner.Pure) :
    (Delivery.reading inner).Pure := by
  intro delivery offset count world
  cases delivery with
  | octet source => exact hinner source offset count world
  | netascii source => exact Netascii.reading_pure hinner source offset count world

theorem Content.reading_pure : (Content.reading ω).Pure :=
  fun _ _ _ _ => rfl

theorem FileSource.reading_pure : FileSource.reading.Pure :=
  fun _ _ _ _ => rfl

theorem memoryStore_steady : memoryStore.Steady id := by
  refine Store.steady_of_pure (Delivery.reading_pure Content.reading_pure) fun name mode table => ?_
  simp only [memoryStore]
  split
  · rfl
  · split <;> rfl

theorem fileStore_steady (root : Octets) : (fileStore root).Steady id :=
  Store.steady_of_pure (Delivery.reading_pure FileSource.reading_pure) fun _ _ _ => rfl

end TftpServer
