import TftpServer.Proofs.Transfer.Live

/-! # Details of failed transfers

The reason for which a transfer failed goes into the log as it stands. Over a
store that explains itself in printable text it is printable, with one exception:
the text of an ERROR from the peer is taken over unchanged.
-/

namespace TftpServer.Transfer

open Text

variable {ω σ : Type}

/-- Unless the transfer failed for a reason that cannot be shown. -/
def Presentable (transfer : Transfer σ) : Prop :=
  transfer.phase = .failed → Printable transfer.detail

theorem Live.presentable {transfer : Transfer σ} (hlive : transfer.Live) : transfer.Presentable := by
  intro hfailed
  rcases hlive.waiting with hphase | hphase <;> rw [hphase] at hfailed <;> cases hfailed

theorem fail_error_presentable (transfer : Transfer σ) (world : ω) {detail : Octets}
    (hdetail : Printable detail) {code : ErrorCode} {text : Octets} (htext : 0 ∉ text) :
    (transfer.fail world detail (some (.error code text))).transfer.Presentable := by
  obtain ⟨datagram, _, hfail⟩ := fail_error transfer world detail htext
  rw [hfail]
  exact fun _ => hdetail

section Reading

variable {reading : Reading ω σ} (hreading : reading.Explains Printable)

include hreading

theorem sendData_presentable {transfer : Transfer σ} (world : ω) (now : Time)
    (hsource : ∃ source, transfer.source = some source)
    (hsize : transfer.settings.blockSize ≤ maxBlockSize) :
    (transfer.sendData reading world now).transfer.Presentable := by
  obtain ⟨source, hsource⟩ := hsource
  have hfetch := sendData_fetch reading world now hsource hsize
  generalize transfer.sendData reading world now = step at hfetch
  cases hfetch with
  | failed reply next after failure hread herror =>
      have hexplained := hreading source (transfer.position.offset transfer.settings.blockSize)
        transfer.settings.blockSize world
      rw [hread] at hexplained
      have hdetail : Printable reply.detail := hexplained (by simp [herror])
      have htext : Printable
          (if reply.detail = [] then failure.errorCode.text else reply.detail) := by
        split
        · exact failure.errorCode.printable_text
        · exact hdetail
      refine fail_error_presentable _ _ ?_ htext.nul_notMem
      rw [printable_append]
      exact ⟨by decide, htext⟩
  | oversized reply next after hread herror hlength =>
      exact fail_error_presentable _ _ (by decide +kernel) (by decide +kernel)
  | sent reply next after hread herror hlength => exact fun hfailed => nomatch hfailed

theorem handle_presentable {transfer : Transfer σ} (hlive : transfer.Live) (world : ω) {event : Event}
    (hevent : ∀ code text now, event ≠ .packet (.error code text) now) :
    (transfer.handle reading world event).transfer.Presentable := by
  have hreaction := handle_reaction reading world event hlive.isTerminal_eq_false
  generalize transfer.handle reading world event = step at hreaction
  cases hreaction with
  | ignored => exact hlive.presentable
  | mismatched => exact hlive.presentable
  | abandoned code text now => exact absurd rfl (hevent code text now)
  | rejected _ detail hdetail _ =>
      exact fail_error_presentable _ _ hdetail
        (ErrorCode.printable_text .illegalOperation).nul_notMem
  | exhausted now detail hdetail _ => exact fun _ => hdetail
  | repeated now _ _ => exact hlive.presentable
  | confirmed now _ => exact sendData_presentable hreading world now hlive.source hlive.blockSize
  | advanced now _ _ => exact sendData_presentable hreading world now hlive.source hlive.blockSize
  | finished now _ _ => exact fun hfailed => nomatch hfailed

theorem start_presentable (config : EngineConfig) (peer : Endpoint) (source : σ)
    (length : Option UInt64) (requested : List OptionField) (world : ω) (now : Time) :
    ((ofRequest config peer source length requested).start reading world now).transfer.Presentable := by
  have hsize := (ofRequest_blockSize_bounds config peer source length requested).2
  rcases start_ofRequest config peer source length requested reading world now with
    ⟨_, hstart⟩ | ⟨body, _, hstart⟩
  · rw [hstart]
    exact sendData_presentable hreading world now ⟨source, rfl⟩ hsize
  · rw [hstart]
    exact fun hfailed => nomatch hfailed

end Reading

end TftpServer.Transfer
