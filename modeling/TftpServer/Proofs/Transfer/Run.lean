import TftpServer.Proofs.Negotiation.Bounds
import TftpServer.Proofs.Transfer.Reaction

/-! # Runs of a transfer

A run starts a transfer and then hands it events, in any order and at any times.
It keeps the state, the world of the stream, and every datagram handed to the
sink. What holds after the start and is kept by each event holds after every
run.
-/

namespace TftpServer.Transfer

variable {ω σ : Type}

/-- The transfer that is set up for a request: the negotiated options, and the
settings that follow from them. -/
def ofRequest (config : EngineConfig) (peer : Endpoint) (source : σ) (length : Option UInt64)
    (requested : List OptionField) : Transfer σ :=
  let accepted := negotiate config.limits length requested
  create peer source accepted (resolveSettings accepted config.defaultTimeout config.retryLimit)

/-- Starting announces the options, if there are any, and else reads the first
block. -/
theorem start_cases (reading : BufferedReading ω σ) (transfer : Transfer σ)
    (hphase : transfer.phase = .sendingData) (hinFlight : transfer.inFlight = [])
    (hoptions : ∀ field ∈ transfer.options, 0 ∉ field.name ∧ 0 ∉ field.value) (world : ω)
    (now : Time) :
    transfer.options = [] ∧ transfer.start reading world now = transfer.sendData reading world now ∨
      transfer.options ≠ [] ∧ ∃ body,
        encode (.oack transfer.options) = .ok (wordOctets Opcode.oack.code ++ body) ∧
        transfer.start reading world now =
          sendInFlight
            { transfer with
              inFlight := wordOctets Opcode.oack.code ++ body
              retries := 0
              phase := .awaitingOptionAck }
            world now := by
  have hstart : ¬ (transfer.phase ≠ .sendingData ∨ transfer.inFlight ≠ []) := by
    simp [hphase, hinFlight]
  rw [start, if_neg hstart]
  by_cases hnone : transfer.options = []
  · exact Or.inl ⟨hnone, if_neg (not_not_intro hnone)⟩
  · refine Or.inr ⟨hnone, _, encode_oack hoptions, ?_⟩
    rw [if_pos hnone]
    simp only [encode_oack hoptions]

section OfRequest

variable (config : EngineConfig) (peer : Endpoint) (source : σ) (length : Option UInt64)
  (requested : List OptionField)

theorem ofRequest_blockSize_bounds :
    8 ≤ (ofRequest config peer source length requested).settings.blockSize ∧
      (ofRequest config peer source length requested).settings.blockSize ≤ maxBlockSize :=
  resolveSettings_blockSize_bounds config.limits length requested config.defaultTimeout
    config.retryLimit

theorem nul_notMem_ofRequest_options :
    ∀ field ∈ (ofRequest config peer source length requested).options,
      0 ∉ field.name ∧ 0 ∉ field.value := by
  intro field hfield
  have hprintable := printable_negotiate_entries config.limits length requested field hfield
  exact ⟨hprintable.1.nul_notMem, hprintable.2.nul_notMem⟩

theorem start_ofRequest (reading : Reading ω σ) (world : ω) (now : Time) :
    let opened := ofRequest config peer source length requested
    opened.options = [] ∧ opened.start reading world now = opened.sendData reading world now ∨
      ∃ body, encode (.oack opened.options) = .ok (wordOctets Opcode.oack.code ++ body) ∧
        opened.start reading world now =
          sendInFlight
            { opened with
              inFlight := wordOctets Opcode.oack.code ++ body
              retries := 0
              phase := .awaitingOptionAck }
            world now := by
  intro opened
  have hnul := nul_notMem_ofRequest_options config peer source length requested
  rcases start_cases reading opened rfl rfl hnul world now with
    hdata | ⟨_, body, hencode, hstart⟩
  · exact Or.inl hdata
  · exact Or.inr ⟨body, hencode, hstart⟩

end OfRequest

/-- A transfer under way: its state, the world of its stream, and what it has
handed to the sink so far. -/
structure Run (ω σ : Type) where
  transfer : Transfer σ
  world : ω
  sent : List Octets := []

namespace Run

def extend (run : Run ω σ) (step : Step ω σ) : Run ω σ :=
  ⟨step.transfer, step.world, run.sent ++ step.sent⟩

def handle (reading : BufferedReading ω σ) (run : Run ω σ) (event : Event) : Run ω σ :=
  run.extend (run.transfer.handle reading run.world event)

end Run

def run (reading : BufferedReading ω σ) (transfer : Transfer σ) (world : ω) (now : Time)
    (events : List Event) : Run ω σ :=
  events.foldl (Run.handle reading)
    (Run.extend { transfer, world } (transfer.start reading world now))

theorem run_concat (reading : BufferedReading ω σ) (transfer : Transfer σ) (world : ω) (now : Time)
    (events : List Event) (event : Event) :
    transfer.run reading world now (events ++ [event]) =
      (transfer.run reading world now events).handle reading event := by
  rw [run, List.foldl_append]
  rfl

theorem run_induction (invariant : Run ω σ → Prop) {reading : BufferedReading ω σ}
    {transfer : Transfer σ} {world : ω} {now : Time}
    (hstart : invariant (Run.extend { transfer, world } (transfer.start reading world now)))
    (hhandle : ∀ run event, invariant run → invariant (run.handle reading event))
    (events : List Event) : invariant (transfer.run reading world now events) := by
  unfold run
  generalize Run.extend { transfer, world } (transfer.start reading world now) = first at hstart ⊢
  induction events generalizing first with
  | nil => exact hstart
  | cons event rest ih => exact ih _ (hhandle first event hstart)

end TftpServer.Transfer
