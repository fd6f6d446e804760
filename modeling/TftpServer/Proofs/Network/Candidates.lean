import TftpServer.Network.Candidates

/-! # Binding the first usable candidate

Whatever a host makes of the candidates, they are tried in order and each at most once,
up to the first for which a socket can be created and bound. Every descriptor that was
opened on the way is closed again, once, but for the one that is used.
-/

namespace TftpServer

variable {ω : Type}

/-- What is done to the sockets of a host, and what comes of it. -/
inductive SocketCall where
  | create (family : Family) (result : Except Octets Descriptor)
  | bind (descriptor : Descriptor) (address : Endpoint) (result : Except Octets Unit)
  | close (descriptor : Descriptor)

namespace SocketCall

def opened? : SocketCall → Option Descriptor
  | .create _ (.ok descriptor) => some descriptor
  | _ => none

def closed? : SocketCall → Option Descriptor
  | .close descriptor => some descriptor
  | _ => none

end SocketCall

/-- The same host, with an account of the sockets that are created, bound and closed. -/
def Host.accounted (host : Host ω) : Host (ω × List SocketCall) :=
  { host.onFirst with
    create := fun family (world, account) =>
      let (result, world) := host.create family world
      (result, (world, account ++ [.create family result]))
    bind := fun descriptor address (world, account) =>
      let (result, world) := host.bind descriptor address world
      (result, (world, account ++ [.bind descriptor address result]))
    close := fun descriptor (world, account) =>
      (host.close descriptor world, account ++ [.close descriptor]) }

/-- What came of trying a candidate: no socket of its family could be created, the socket
could not be bound, or it is bound. -/
inductive Trial where
  | uncreated (address : Endpoint) (reason : Octets)
  | unbound (address : Endpoint) (descriptor : Descriptor) (reason : Octets)
  | bound (address : Endpoint) (descriptor : Descriptor)

namespace Trial

def address : Trial → Endpoint
  | .uncreated address _ | .unbound address _ _ | .bound address _ => address

/-- What a trial does to the sockets of the host. -/
def calls : Trial → List SocketCall
  | .uncreated address reason => [.create address.family (.error reason)]
  | .unbound address descriptor reason =>
    [.create address.family (.ok descriptor), .bind descriptor address (.error reason),
      .close descriptor]
  | .bound address descriptor =>
    [.create address.family (.ok descriptor), .bind descriptor address (.ok ())]

/-- The descriptor that is bound in the end. -/
def descriptor? : Trial → Option Descriptor
  | .uncreated _ _ | .unbound _ _ _ => none
  | .bound _ descriptor => some descriptor

def failure? : Trial → Option Octets
  | .uncreated _ reason | .unbound _ _ reason => some reason
  | .bound _ _ => none

/-- The descriptor that could not be bound. -/
def refused? : Trial → Option Descriptor
  | .uncreated _ _ | .bound _ _ => none
  | .unbound _ descriptor _ => some descriptor

theorem filterMap_closed (trial : Trial) :
    trial.calls.filterMap SocketCall.closed? = trial.refused?.toList := by
  cases trial <;> rfl

theorem filterMap_opened (trial : Trial) :
    trial.calls.filterMap SocketCall.opened? =
      trial.refused?.toList ++ trial.descriptor?.toList := by
  cases trial <;> rfl

theorem failure?_isSome {trial : Trial} (hfailed : trial.descriptor? = none) :
    trial.failure?.isSome = true := by
  cases trial with
  | uncreated | unbound => rfl
  | bound => cases hfailed

theorem filterMap_closed_flatMap (trials : List Trial) :
    (trials.flatMap calls).filterMap SocketCall.closed? = trials.filterMap refused? := by
  induction trials with
  | nil => rfl
  | cons trial trials ih =>
      rw [List.flatMap_cons, List.filterMap_append, filterMap_closed, ih]
      cases hrefused : trial.refused? <;> simp [hrefused]

/-- Trials that fail leave nothing open. -/
theorem filterMap_opened_flatMap {trials : List Trial}
    (hfailed : ∀ trial ∈ trials, trial.descriptor? = none) :
    (trials.flatMap calls).filterMap SocketCall.opened? = trials.filterMap refused? := by
  induction trials with
  | nil => rfl
  | cons trial trials ih =>
      obtain ⟨htrial, htrials⟩ := List.forall_mem_cons.mp hfailed
      rw [List.flatMap_cons, List.filterMap_append, filterMap_opened, htrial, ih htrials]
      cases hrefused : trial.refused? <;> simp [hrefused]

end Trial

namespace Candidates

variable (host : Host ω)

theorem tryNext_accounted (address : Endpoint) (later : List Endpoint) (lastError : Option Octets)
    (world : ω) (account : List SocketCall) :
    ∃ (trial : Trial) (after : ω), trial.address = address ∧
      tryNext host ⟨address :: later, lastError⟩ world =
        (trial.descriptor?, ⟨later, trial.failure?⟩, after) ∧
      tryNext host.accounted ⟨address :: later, lastError⟩ (world, account) =
        (trial.descriptor?, ⟨later, trial.failure?⟩, (after, account ++ trial.calls)) := by
  rcases hcreate : host.create address.family world with ⟨created, between⟩
  cases created with
  | error reason =>
      refine ⟨.uncreated address reason, between, rfl, ?_, ?_⟩
      · simp only [tryNext, hcreate]
        rfl
      · simp only [tryNext, Host.accounted, hcreate]
        rfl
  | ok descriptor =>
      rcases hbind : host.bind descriptor address between with ⟨bound, after⟩
      cases bound with
      | error reason =>
          refine ⟨.unbound address descriptor reason, host.close descriptor after, rfl, ?_, ?_⟩
          · simp only [tryNext, hcreate, hbind]
            rfl
          · simp only [tryNext, Host.accounted, hcreate, hbind, Trial.calls]
            simp [Trial.descriptor?, Trial.failure?]
      | ok _ =>
          refine ⟨.bound address descriptor, after, rfl, ?_, ?_⟩
          · simp only [tryNext, hcreate, hbind]
            rfl
          · simp only [tryNext, Host.accounted, hcreate, hbind, Trial.calls]
            simp [Trial.descriptor?, Trial.failure?]

/-- How a search ends: behind the last candidate, with the failure of that one as its
error, or with the first that can be bound, and then the candidates behind it are left. The
fallback is the error if there were no candidates. -/
inductive Search (fallback : Octets) :
    List Endpoint → List Trial → Option Descriptor → Candidates → Prop where
  | exhausted (trials : List Trial) (left : Candidates)
      (hfailed : ∀ trial ∈ trials, trial.descriptor? = none) (hleft : left.remaining = [])
      (herror : left.errorText = (trials.getLast?.bind Trial.failure?).getD fallback) :
      Search fallback (trials.map Trial.address) trials none left
  | found (earlier : List Trial) (address : Endpoint) (descriptor : Descriptor) (left : Candidates)
      (hfailed : ∀ trial ∈ earlier, trial.descriptor? = none) :
      Search fallback (earlier.map Trial.address ++ address :: left.remaining)
        (earlier ++ [.bound address descriptor]) (some descriptor) left

/-- A failed trial before a search makes it a longer search. -/
theorem Search.cons {trial : Trial} {reason : Octets} (hfailure : trial.failure? = some reason)
    (hfailed : trial.descriptor? = none) {addresses : List Endpoint} {trials : List Trial}
    {found : Option Descriptor} {left : Candidates} (hsearch : Search reason addresses trials found left)
    (fallback : Octets) :
    Search fallback (trial.address :: addresses) (trial :: trials) found left := by
  cases hsearch with
  | exhausted _ _ hothers hleft herror =>
      refine .exhausted (trial :: trials) left (List.forall_mem_cons.mpr ⟨hfailed, hothers⟩) hleft ?_
      rw [herror]
      cases hlast : trials.getLast? with
      | none =>
          obtain rfl := List.getLast?_eq_none_iff.mp hlast
          simp [hfailure]
      | some last =>
          have hsome := Trial.failure?_isSome (hothers last (List.mem_of_getLast? hlast))
          obtain ⟨text, htext⟩ := Option.isSome_iff_exists.mp hsome
          simp [List.getLast?_cons, hlast, htext]
  | found earlier address descriptor _ hothers =>
      exact .found (trial :: earlier) address descriptor left
        (List.forall_mem_cons.mpr ⟨hfailed, hothers⟩)

/-- The loop is a search, watched or not, and does what its trials do. -/
theorem firstBound_search (addresses : List Endpoint) (lastError : Option Octets) (world : ω)
    (account : List SocketCall) :
    ∃ (trials : List Trial) (found : Option Descriptor) (left : Candidates) (after : ω),
      Search (errorText ⟨addresses, lastError⟩) addresses trials found left ∧
      firstBound host addresses.length ⟨addresses, lastError⟩ world = (found, left, after) ∧
      firstBound host.accounted addresses.length ⟨addresses, lastError⟩ (world, account) =
        (found, left, (after, account ++ trials.flatMap Trial.calls)) := by
  induction addresses generalizing lastError world account with
  | nil =>
      refine ⟨[], none, ⟨[], lastError⟩, world, ?_, rfl, ?_⟩
      · exact .exhausted [] _ (by simp) rfl rfl
      · simp [firstBound]
  | cons address later ih =>
      obtain ⟨trial, between, rfl, hplain, hwatched⟩ :=
        tryNext_accounted host address later lastError world account
      rw [List.length_cons, firstBound, firstBound, hplain, hwatched]
      cases hfound : trial.descriptor? with
      | some descriptor =>
          cases trial with
          | uncreated | unbound => cases hfound
          | bound address bound =>
              obtain rfl : bound = descriptor := Option.some.inj hfound
              refine ⟨[.bound address bound], some bound, ⟨later, none⟩, between,
                .found [] address bound ⟨later, none⟩ (by simp), rfl, ?_⟩
              simp [hasMore, Trial.failure?]
      | none =>
          obtain ⟨reason, hreason⟩ := Option.isSome_iff_exists.mp (Trial.failure?_isSome hfound)
          obtain ⟨trials, found, left, after, hsearch, hrest, hrestWatched⟩ :=
            ih (some reason) between (account ++ trial.calls)
          refine ⟨trial :: trials, found, left, after, hsearch.cons hreason hfound _, ?_, ?_⟩
          · simpa [hasMore, hreason] using hrest
          · simpa [hasMore, hreason] using hrestWatched

/-- What is opened in a search is closed again, but for what it finds. -/
theorem Search.filterMap_opened {fallback : Octets} {addresses : List Endpoint} {trials : List Trial}
    {found : Option Descriptor} {left : Candidates} (hsearch : Search fallback addresses trials found left) :
    (trials.flatMap Trial.calls).filterMap SocketCall.opened? =
      trials.filterMap Trial.refused? ++ found.toList := by
  cases hsearch with
  | exhausted _ _ hfailed _ _ =>
      rw [Trial.filterMap_opened_flatMap hfailed, Option.toList_none, List.append_nil]
  | found earlier address descriptor _ hfailed =>
      rw [List.flatMap_append, List.filterMap_append, Trial.filterMap_opened_flatMap hfailed,
        List.filterMap_append, List.append_assoc]
      rfl

/-- Whatever the host does, the first usable candidate is bound and nothing leaks. The
candidates are tried in order, each at most once, up to the first for which a socket can
be created and bound; its descriptor is the result, and the candidates behind it are left
alone. The descriptors of those that could not be bound are closed, each once, and no
others, so that of all that was opened only the result is still open. If there is none,
no candidate is left, and the error is that of the last one tried, or that there was no
usable address. -/
theorem firstBound_exact (host : Host ω) (addresses : List Endpoint) (world : ω) :
    let candidates : Candidates := { remaining := addresses }
    let search := candidates.firstBound host.accounted addresses.length (world, [])
    let account := search.2.2.2
    candidates.firstBound host addresses.length world = (search.1, search.2.1, search.2.2.1) ∧
      ∃ trials : List Trial,
        Search (ascii "no usable local address") addresses trials search.1 search.2.1 ∧
        account = trials.flatMap Trial.calls ∧
        account.filterMap SocketCall.closed? = trials.filterMap Trial.refused? ∧
        account.filterMap SocketCall.opened? =
          account.filterMap SocketCall.closed? ++ search.1.toList := by
  obtain ⟨trials, found, left, after, hsearch, hplain, hwatched⟩ :=
    firstBound_search host addresses none world []
  intro candidates search account
  have hfinal : search = (found, left, (after, trials.flatMap Trial.calls)) := hwatched
  have haccount : account = trials.flatMap Trial.calls := by
    simp only [account, hfinal]
  rw [haccount, hfinal, Trial.filterMap_closed_flatMap]
  exact ⟨hplain, trials, hsearch, rfl, rfl, hsearch.filterMap_opened⟩

end Candidates

end TftpServer
