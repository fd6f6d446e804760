import TftpServer.Proofs.Packet.WireForm
import TftpServer.Proofs.Text.Printable
import TftpServer.Store.File

/-! # Explanations of failures

A store may explain why it opens nothing and why a read failed, and these
explanations reach the peer and the log. What all of them have in common is
stated once, for any property of texts. The memory store and the file store only
explain in printable text.
-/

namespace TftpServer

open Text

variable {ω σ : Type}

/-- Every explanation of a failed read has a property. -/
def Reading.Explains (reading : Reading ω σ) (good : Octets → Prop) : Prop :=
  ∀ source offset count world,
    (reading.read source offset count world).1.error ≠ none →
      good (reading.read source offset count world).1.detail

/-- The same for streams that may break reads off, which explains nothing. -/
def BufferedReading.Explains (reading : BufferedReading ω σ) (good : Octets → Prop) : Prop :=
  ∀ source offset count world reply, (reading.read source offset count world).1 = .ok reply →
    reply.error ≠ none → good reply.detail

theorem Reading.Explains.unbroken {reading : Reading ω σ} {good : Octets → Prop}
    (hreading : reading.Explains good) : reading.unbroken.Explains good := by
  intro source offset count world reply hreply
  cases hreply
  exact hreading source offset count world

/-- Every explanation of a refusal or of a failed read has a property, whatever
state the store and its streams are in. -/
structure Store.Explains (store : Store ω σ) (good : Octets → Prop) : Prop where
  opening : ∀ name mode world,
    (store.openStream name mode world).1.error ≠ none ∨
        (store.openStream name mode world).1.stream = none →
      good (store.openStream name mode world).1.detail
  reading : store.toReading.Explains good

theorem Store.Explains.mono {store : Store ω σ} {good better : Octets → Prop}
    (hstore : store.Explains better) (himp : ∀ text, better text → good text) :
    store.Explains good where
  opening name mode world hfailed := himp _ (hstore.opening name mode world hfailed)
  reading source offset count world herror := himp _ (hstore.reading source offset count world herror)

/-- Printable explanations have a wire form. -/
theorem Store.Explains.nul_notMem {store : Store ω σ} (hstore : store.Explains Printable) :
    store.Explains (0 ∉ ·) :=
  hstore.mono fun _ hprintable => hprintable.nul_notMem

theorem Store.Explains.tellable_nul_notMem {store : Store ω σ} (hstore : store.Explains Tellable) :
    store.Explains (0 ∉ ·) :=
  hstore.mono fun _ htellable => htellable.nul_notMem

/-! ## Netascii streams -/

namespace Netascii

variable {good : Octets → Prop} {inner : Reading ω σ}

theorem takeOctet_explains (hinner : inner.Explains good) {stream next : Netascii σ}
    {world after : ω} {error : Failure} {detail : Octets}
    (htake : takeOctet inner stream world = .failed error detail next after) : good detail := by
  unfold takeOctet at htake
  split at htake
  · cases htake
  · split at htake
    · cases htake
    · split at htake
      · cases htake
      · dsimp only at htake
        split at htake
        next hread =>
          cases htake
          exact hinner _ _ _ _ (by rw [hread]; exact Option.some_ne_none _)
        next reply _ =>
          cases hoctets : (inner.read stream.inner stream.innerOffset netasciiChunkSize world).1.octets <;>
            rw [hoctets] at htake <;> cases htake

theorem takeOctets_explains (hinner : inner.Explains good) (count : Nat) (taken : Octets)
    (stream : Netascii σ) (world : ω)
    (herror : (takeOctets inner count taken stream world).1.error ≠ none) :
    good (takeOctets inner count taken stream world).1.detail := by
  -- Octets already taken do not matter: a failed refill drops them.
  induction count generalizing taken stream world with
  | zero => exact absurd rfl herror
  | succ count ih =>
      rw [takeOctets] at herror ⊢
      cases htake : takeOctet inner stream world with
      | octet octet next after =>
          rw [htake] at herror
          exact ih _ _ _ herror
      | ended next after =>
          rw [htake] at herror
          exact absurd rfl herror
      | failed error detail next after => exact takeOctet_explains hinner htake

theorem reading_explains (hinner : inner.Explains good)
    (hsequential : good (ascii "netascii source only supports sequential reads")) :
    (Netascii.reading inner).Explains good := by
  intro stream offset count world herror
  simp only [Netascii.reading, Netascii.answer] at herror ⊢
  split
  · exact hsequential
  next hposition =>
    rw [if_neg hposition] at herror
    exact takeOctets_explains hinner _ _ _ _ herror

end Netascii

theorem Delivery.reading_explains {good : Octets → Prop} {inner : Reading ω σ}
    (hinner : inner.Explains good)
    (hsequential : good (ascii "netascii source only supports sequential reads")) :
    (Delivery.reading inner).Explains good := by
  intro delivery offset count world herror
  cases delivery with
  | octet source => exact hinner source offset count world herror
  | netascii source =>
      exact Netascii.reading_explains hinner hsequential source offset count world herror

/-! ## The built-in stores -/

theorem Content.reading_explains (good : Octets → Prop) : (Content.reading ω).Explains good := by
  intro content offset count world herror
  refine absurd ?_ herror
  simp only [Content.reading, Content.readAt]
  split <;> rfl

theorem FileSource.reading_explains {good : Octets → Prop} (hseek : good (ascii "seek failed")) :
    FileSource.reading.Explains good := by
  intro source offset count tree herror
  simp only [FileSource.reading, FileSource.answer] at herror ⊢
  split
  next hend =>
    rw [if_pos hend] at herror
    exact absurd rfl herror
  next hend =>
    split
    · exact hseek
    next hmarked =>
      rw [if_neg hend, if_neg hmarked] at herror
      exact absurd rfl herror

/-- Everything that the built-in stores explain failures with. -/
def builtInDetails : List Octets :=
  [[], ascii "unsupported transfer mode", ascii "netascii source only supports sequential reads",
    ascii "path escapes the serving directory", ascii "not a regular file", ascii "seek failed"]

theorem memoryStore_explains_builtIn : memoryStore.Explains (· ∈ builtInDetails) where
  opening name mode table _ := by
    simp only [memoryStore]
    split
    · simp [unsupportedMode, Opened.refused, builtInDetails]
    · split <;> simp [Opened.refused, builtInDetails]
  reading := Delivery.reading_explains (Content.reading_explains _) (by simp [builtInDetails])

theorem fileStore_explains_builtIn (root : Octets) :
    (fileStore root).Explains (· ∈ builtInDetails) where
  opening name mode tree _ := by
    simp only [fileStore, openFile]
    split
    · simp [unsupportedMode, Opened.refused, builtInDetails]
    · split
      · simp [Opened.refused, builtInDetails]
      · split <;> simp [Opened.refused, builtInDetails]
  reading :=
    Delivery.reading_explains (FileSource.reading_explains (by simp [builtInDetails]))
      (by simp [builtInDetails])

theorem printable_of_mem_builtInDetails : ∀ text ∈ builtInDetails, Printable text := by
  decide +kernel

theorem tellable_of_mem_builtInDetails : ∀ text ∈ builtInDetails, Tellable text := by
  decide +kernel

theorem memoryStore_explains : memoryStore.Explains Printable :=
  memoryStore_explains_builtIn.mono printable_of_mem_builtInDetails

theorem fileStore_explains (root : Octets) : (fileStore root).Explains Printable :=
  (fileStore_explains_builtIn root).mono printable_of_mem_builtInDetails

end TftpServer
