import TftpServer.Proofs.Sessions.Membership

/-! # Histories

Between two calls the world of the store may change on its own: a file is written,
an entry is replaced. A history is made of calls and of such changes, in any order.
No change touches the table or has anything to be done.
-/

namespace TftpServer

variable {ω σ χ : Type}

/-- What happens to a server: a call, or a change of the world of its store. -/
inductive Occurrence (χ : Type) where
  | call (call : Call)
  | change (change : χ)

def Occurrence.change? : Occurrence χ → Option χ
  | .call _ => none
  | .change made => some made

namespace Sessions

variable (store : Store ω σ) (config : EngineConfig) (apply : χ → ω → ω)

def undergo (sessions : Sessions ω σ) : Occurrence χ → Outcome ω σ
  | .call call => sessions.call store config call
  | .change change => { sessions := { sessions with world := apply change sessions.world } }

def history (sessions : Sessions ω σ) (occurrences : List (Occurrence χ)) : Sessions ω σ :=
  occurrences.foldl
    (fun sessions occurrence => (sessions.undergo store config apply occurrence).sessions) sessions

/-- What a history hands to the sink. -/
def handed (sessions : Sessions ω σ) : List (Occurrence χ) → SendRecord
  | [] => []
  | occurrence :: rest =>
    let outcome := sessions.undergo store config apply occurrence
    Action.datagrams outcome.actions ++ handed outcome.sessions rest

/-- A peer has a transfer all along, up to the last of the occurrences. -/
def Lasts (peer : Endpoint) (sessions : Sessions ω σ) : List (Occurrence χ) → Prop
  | [] => True
  | occurrence :: rest =>
    (sessions.table.find? peer).isSome ∧
      Lasts peer (sessions.undergo store config apply occurrence).sessions rest

theorem history_append (sessions : Sessions ω σ) (earlier later : List (Occurrence χ)) :
    sessions.history store config apply (earlier ++ later) =
      (sessions.history store config apply earlier).history store config apply later :=
  List.foldl_append

theorem history_concat (sessions : Sessions ω σ) (occurrences : List (Occurrence χ))
    (occurrence : Occurrence χ) :
    sessions.history store config apply (occurrences ++ [occurrence]) =
      ((sessions.history store config apply occurrences).undergo store config apply
        occurrence).sessions :=
  history_append store config apply sessions occurrences [occurrence]

variable {store config apply}

theorem history_induction (invariant : Sessions ω σ → Prop)
    (hcall : ∀ sessions call, invariant sessions →
      invariant (sessions.call store config call).sessions)
    (hchange : ∀ (sessions : Sessions ω σ) world, invariant sessions →
      invariant { sessions with world })
    {sessions : Sessions ω σ} (hstart : invariant sessions) (occurrences : List (Occurrence χ)) :
    invariant (sessions.history store config apply occurrences) := by
  unfold history
  induction occurrences generalizing sessions with
  | nil => exact hstart
  | cons occurrence rest ih =>
      cases occurrence with
      | call call => exact ih (hcall sessions call hstart)
      | change change => exact ih (hchange sessions _ hstart)

/-- A table is kept through changes of the world as it is through calls. -/
theorem history_kept (hstore : store.Explains (0 ∉ ·)) (world : ω)
    (occurrences : List (Occurrence χ)) :
    (history store config apply { world } occurrences).Kept := by
  apply history_induction Kept
  · exact fun sessions call hkept => hkept.call hstore config call
  · rintro sessions world ⟨hlive, hunique, hown⟩
    exact ⟨hlive, hunique, hown⟩
  · exact kept_empty world

end Sessions

end TftpServer
