import Mathlib.Data.List.Induction
import TftpServer.Proofs.Transfer.Demand
import TftpServer.Store.Mixed

/-! # Reads that are broken off

A read is only broken off if it asks for more octets than a buffer can hold. A transfer
that was requested asks for a block at a time, and its blocks are never that long. So it
runs as if its stream answered every read.
-/

namespace TftpServer

variable {ω σ : Type}

/-- As long as a read asks for no more than a buffer can hold, it is answered. -/
def BufferedReading.Answers (buffered : BufferedReading ω σ) (reading : Reading ω σ) : Prop :=
  ∀ stream offset count world, count ≤ maxBufferSize →
    buffered.read stream offset count world = reading.unbroken.read stream offset count world

theorem Reading.unbroken_answers (reading : Reading ω σ) : reading.unbroken.Answers reading :=
  fun _ _ _ _ _ => rfl

namespace Netascii

variable (inner : Reading ω σ) (stream : Netascii σ) {count : UInt64} (world : ω)

theorem read_of_le (hcount : count ≤ maxBufferSize) (offset : UInt64) :
    read inner stream offset count world = (reading inner).unbroken.read stream offset count world :=
  if_neg fun hbroken => UInt64.not_lt.mpr hcount hbroken.2

/-- Room for the octets is asked for first, so the stream stays as it is. -/
theorem read_of_lt (hcount : maxBufferSize < count) :
    read inner stream stream.position count world = (.error .reservation, stream, world) :=
  if_pos ⟨rfl, hcount⟩

/-- The offset is looked at before the count. -/
theorem read_of_ne {offset : UInt64} (hoffset : offset ≠ stream.position) (count : UInt64) :
    read inner stream offset count world =
      (.ok { error := some .ioFailure
             detail := ascii "netascii source only supports sequential reads" }, stream, world) := by
  rw [read, if_neg fun hbroken => hoffset hbroken.1, answer, if_pos hoffset]

theorem bufferedReading_answers : (bufferedReading inner).Answers (reading inner) :=
  fun stream offset _ world hcount => read_of_le inner stream world hcount offset

end Netascii

theorem FileSource.bufferedReading_answers :
    FileSource.bufferedReading.Answers FileSource.reading := by
  intro source offset count tree hcount
  have hmade : ¬ (offset < source.size ∧ maxBufferSize < count) := fun hbroken =>
    UInt64.not_lt.mpr hcount hbroken.2
  simp only [bufferedReading, FileSource.read, if_neg hmade]
  rfl

theorem Delivery.bufferedReading_answers {inner : Reading ω σ} {bufferedInner : BufferedReading ω σ}
    (hinner : bufferedInner.Answers inner) :
    (Delivery.bufferedReading inner bufferedInner).Answers (Delivery.reading inner) := by
  intro delivery offset count world hcount
  cases delivery with
  | octet source =>
      simp only [bufferedReading, hinner source offset count world hcount]
      rfl
  | netascii source =>
      simp only [bufferedReading, Netascii.read_of_le inner source world hcount]
      rfl

/-! ## Streams of every kind -/

theorem StoreStream.bufferedReading_answers :
    StoreStream.bufferedReading.Answers StoreStream.reading := by
  intro stream offset count world hcount
  cases stream with
  | memory delivery =>
      have hdelivery := Delivery.bufferedReading_answers
        (Content.reading MemoryTable).unbroken_answers delivery offset count world.table hcount
      simp only [bufferedReading, hdelivery]
      rfl
  | file delivery =>
      have hdelivery := Delivery.bufferedReading_answers FileSource.bufferedReading_answers
        delivery offset count world.tree hcount
      simp only [bufferedReading, hdelivery]
      rfl
  | scripted stream => rfl

theorem StoreStream.layeredBufferedReading_answers (layers : Nat) :
    (StoreStream.layeredBufferedReading layers).Answers (StoreStream.layeredReading layers) := by
  cases layers with
  | zero => exact StoreStream.bufferedReading_answers
  | succ layers => exact Netascii.bufferedReading_answers (StoreStream.layeredReading layers)

theorem MixedStream.bufferedReading_answers :
    MixedStream.bufferedReading.Answers MixedStream.reading := by
  rintro ⟨layers, stream⟩ offset count world hcount
  have hlayers :=
    StoreStream.layeredBufferedReading_answers layers stream offset count world hcount
  simp only [bufferedReading, hlayers]
  rfl

/-! ## Transfers -/

namespace Transfer

section Answers

variable {buffered : BufferedReading ω σ} {reading : Reading ω σ}
  (hanswers : buffered.Answers reading) {transfer : Transfer σ}
  (hsize : transfer.settings.blockSize ≤ maxBufferSize) (world : ω)

include hanswers hsize

theorem sendData_of_answers (now : Time) :
    transfer.sendData buffered world now = transfer.sendData reading world now := by
  cases hsource : transfer.source with
  | none =>
      rw [sendData_of_none world now buffered hsource, sendData_of_none world now reading hsource]
  | some source =>
      rw [sendData_of_source world now reading hsource]
      exact sendData_of_ok world now hsource (hanswers source _ _ world hsize)

theorem acknowledge_of_answers (block : UInt16) (now : Time) :
    transfer.acknowledge buffered world block now =
      transfer.acknowledge reading world block now := by
  have hmoved : { transfer with position := transfer.position.next }.settings.blockSize ≤
      maxBufferSize := hsize
  simp only [acknowledge, sendData_of_answers hanswers hsize world now,
    sendData_of_answers hanswers hmoved world now]

theorem start_of_answers (now : Time) :
    transfer.start buffered world now = transfer.start reading world now := by
  simp only [start, sendData_of_answers hanswers hsize world now]

theorem handle_of_answers (event : Event) :
    transfer.handle buffered world event = transfer.handle reading world event := by
  cases event with
  | packet message now =>
      simp only [handle, receive, acknowledge_of_answers hanswers hsize world _ now]
  | malformed status => rfl
  | timeout now => rfl

end Answers

/-- Whatever was requested and whatever happens to it, a transfer runs as if its stream
answered every read. -/
theorem run_of_answers {buffered : BufferedReading ω σ} {reading : Reading ω σ}
    (hanswers : buffered.Answers reading) (config : EngineConfig) (peer : Endpoint) (source : σ)
    (length : Option UInt64) (requested : List OptionField) (world : ω) (now : Time)
    (events : List Event) :
    let opened := ofRequest config peer source length requested
    opened.run buffered world now events = opened.run reading world now events := by
  intro opened
  have hsize : opened.settings.blockSize ≤ maxBufferSize :=
    UInt64.le_trans (ofRequest_blockSize_bounds config peer source length requested).2 (by decide)
  induction events using List.reverseRecOn with
  | nil => exact congrArg _ (start_of_answers hanswers hsize world now)
  | append_singleton events event ih =>
      have hterms := run_terms reading opened world now events
      have hsettings : (opened.run reading world now events).transfer.settings = opened.settings :=
        congrArg (fun terms => terms.2.2) hterms
      rw [run_concat, run_concat, ih]
      exact congrArg _ (handle_of_answers hanswers (hsettings ▸ hsize) _ event)

end Transfer

end TftpServer
