import TftpServer.Store.Netascii

/-! # Worlds that answer alike

Two worlds answer alike when there is no telling from a store in which of them it
is. This need not hold of all streams that can be thought of, but of those that
the store opens, and of what they become as they are read.
-/

namespace TftpServer

variable {ω σ : Type}

/-- Trusted streams are answered alike in both worlds and stay trusted, and both
worlds stay as they are. -/
structure Reading.Alike (reading : Reading ω σ) (trusted : σ → Prop) (first second : ω) : Prop where
  read : ∀ source offset count, trusted source → ∃ reply next, trusted next ∧
    reading.read source offset count first = (reply, next, first) ∧
      reading.read source offset count second = (reply, next, second)
  length : ∀ source, trusted source → reading.length source first = reading.length source second

/-- So are requests for a name, as it can stand in a datagram, and the streams
that they open are trusted. -/
structure Store.Alike (store : Store ω σ) (trusted : σ → Prop) (first second : ω) : Prop where
  reading : store.toReading.Alike trusted first second
  opening : ∀ name mode, 0 ∉ name → ∃ opened,
    (∀ source, opened.stream = some source → trusted source) ∧
      store.openStream name mode first = (opened, first) ∧
        store.openStream name mode second = (opened, second)

variable {trusted : σ → Prop} {first second : ω}

namespace Netascii

/-- The same octet, end or failure in both worlds. -/
inductive Taken.Alike (trusted : σ → Prop) (first second : ω) : Taken ω σ → Taken ω σ → Prop where
  | octet (octet : UInt8) (stream : Netascii σ) (htrusted : trusted stream.inner) :
      Alike trusted first second (.octet octet stream first) (.octet octet stream second)
  | ended (stream : Netascii σ) (htrusted : trusted stream.inner) :
      Alike trusted first second (.ended stream first) (.ended stream second)
  | failed (error : Failure) (detail : Octets) (stream : Netascii σ)
      (htrusted : trusted stream.inner) :
      Alike trusted first second (.failed error detail stream first)
        (.failed error detail stream second)

variable {inner : Reading ω σ} {stream : Netascii σ}

theorem takeFrom_alike (htrusted : trusted stream.inner) (octets : Octets) :
    Taken.Alike trusted first second (takeFrom stream first octets)
      (takeFrom stream second octets) := by
  cases octets with
  | nil => exact .ended _ htrusted
  | cons octet rest => exact .octet _ _ htrusted

theorem takeOctet_alike (hinner : inner.Alike trusted first second)
    (htrusted : trusted stream.inner) :
    Taken.Alike trusted first second (takeOctet inner stream first)
      (takeOctet inner stream second) := by
  unfold takeOctet
  split
  · exact .octet _ _ htrusted
  · split
    · exact takeFrom_alike htrusted _
    · split
      · exact .ended _ htrusted
      · obtain ⟨reply, next, hnext, hfirst, hsecond⟩ :=
          hinner.read stream.inner stream.innerOffset netasciiChunkSize htrusted
        simp only [hfirst, hsecond]
        cases reply.error with
        | some failure => exact .failed _ _ _ hnext
        | none => exact takeFrom_alike (by exact hnext) _

theorem takeOctets_alike (hinner : inner.Alike trusted first second) (count : Nat) (taken : Octets)
    (htrusted : trusted stream.inner) : ∃ reply next, trusted next.inner ∧
      takeOctets inner count taken stream first = (reply, next, first) ∧
        takeOctets inner count taken stream second = (reply, next, second) := by
  induction count generalizing taken stream with
  | zero => exact ⟨_, _, by exact htrusted, rfl, rfl⟩
  | succ count ih =>
      rw [takeOctets, takeOctets]
      have htaken := takeOctet_alike hinner htrusted
      generalize takeOctet inner stream first = one at htaken ⊢
      generalize takeOctet inner stream second = other at htaken ⊢
      cases htaken with
      | octet octet next hnext => exact ih _ hnext
      | ended next hnext => exact ⟨_, _, by exact hnext, rfl, rfl⟩
      | failed error detail next hnext => exact ⟨_, _, hnext, rfl, rfl⟩

theorem reading_alike (hinner : inner.Alike trusted first second) :
    (Netascii.reading inner).Alike (fun stream => trusted stream.inner) first second where
  read stream offset count htrusted := by
    simp only [Netascii.reading, Netascii.answer]
    split
    · exact ⟨_, _, htrusted, rfl, rfl⟩
    · exact takeOctets_alike hinner count.toNat [] htrusted
  length _ _ := rfl

end Netascii

namespace Delivery

/-- A delivery of a trusted source. -/
def Trusted (trusted : σ → Prop) : Delivery σ → Prop
  | .octet source => trusted source
  | .netascii source => trusted source.inner

theorem trusted_ofMode (mode : Mode) {source : σ} (htrusted : trusted source) :
    (ofMode mode source).Trusted trusted := by
  unfold ofMode
  split <;> exact htrusted

theorem reading_alike {inner : Reading ω σ} (hinner : inner.Alike trusted first second) :
    (Delivery.reading inner).Alike (Trusted trusted) first second where
  read delivery offset count htrusted := by
    cases delivery with
    | octet source =>
        obtain ⟨reply, next, hnext, hfirst, hsecond⟩ := hinner.read source offset count htrusted
        refine ⟨reply, .octet next, hnext, ?_, ?_⟩
        · simp only [reading, hfirst]
        · simp only [reading, hsecond]
    | netascii source =>
        obtain ⟨reply, next, hnext, hfirst, hsecond⟩ :=
          (Netascii.reading_alike hinner).read source offset count htrusted
        refine ⟨reply, .netascii next, hnext, ?_, ?_⟩
        · simp only [reading, hfirst]
        · simp only [reading, hsecond]
  length delivery htrusted := by
    cases delivery with
    | octet source => exact hinner.length source htrusted
    | netascii source => rfl

end Delivery

end TftpServer
