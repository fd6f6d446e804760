import Mathlib.Data.List.Nodup
import Mathlib.Logic.Equiv.Basic
import TftpServer.Network.SocketPool
import TftpServer.Proofs.Network.Candidates

/-! # Who owns a descriptor

However sockets are created, moved, assigned and destroyed, every open descriptor belongs
to one of them, and it is closed when that one is destroyed or takes over another. The
proof looks at the descriptors that the sockets hold, as a function of their names. Every
step is made of three things that can be done to it: a socket lets go of its descriptor, is
given a new one, or gets that of another socket.
-/

namespace TftpServer

variable {κ : Type} [DecidableEq κ]

/-! ## Sockets -/

namespace Socket

/-- The descriptor that a socket holds. -/
def held? (socket : Socket) : Option Descriptor :=
  if socket.descriptor = noDescriptor then none else some socket.descriptor

/-- The marks of a socket fit its descriptor. -/
def Sound (socket : Socket) : Prop := socket = ofDescriptor socket.descriptor

theorem sound_unbound : unbound.Sound := rfl

theorem sound_ofDescriptor (descriptor : Descriptor) : (ofDescriptor descriptor).Sound := rfl

@[simp] theorem held?_unbound : unbound.held? = none := rfl

variable {socket : Socket}

theorem Sound.isUsable_eq (hsound : socket.Sound) : socket.isUsable = socket.held?.isSome := by
  rw [hsound]
  by_cases hnone : socket.descriptor = noDescriptor
  · simp [isUsable, held?, ofDescriptor, hnone]
  · simp [isUsable, held?, ofDescriptor, hnone]

theorem Sound.destroy_released (hsound : socket.Sound) : socket.destroy.2 = socket.held? := by
  rw [hsound]
  by_cases hnone : socket.descriptor = noDescriptor
  · simp [destroy, held?, ofDescriptor, hnone]
  · simp [destroy, held?, ofDescriptor, hnone]

theorem Sound.takeOver_released (hsound : socket.Sound) (source : Socket) :
    (socket.takeOver source).2.2 = socket.held? := by
  rw [hsound]
  by_cases hnone : socket.descriptor = noDescriptor
  · simp [takeOver, held?, ofDescriptor, hnone]
  · simp [takeOver, held?, ofDescriptor, hnone]

end Socket

/-! ## Holdings -/

/-- The descriptors that were given to sockets and are not closed are held, each by one
socket, and no others are. None is closed twice. -/
structure Balanced (holdings : κ → Option Descriptor) (given closed : List Descriptor) : Prop where
  held : ∀ descriptor ∈ given, descriptor ∉ closed → ∃ name, holdings name = some descriptor
  unique : ∀ {name other descriptor}, holdings name = some descriptor →
    holdings other = some descriptor → name = other
  unclosed : ∀ {name descriptor}, holdings name = some descriptor →
    descriptor ∈ given ∧ descriptor ∉ closed
  closed_nodup : closed.Nodup
  closed_given : closed ⊆ given

namespace Balanced

omit [DecidableEq κ] in
theorem nothing : Balanced (fun _ : κ => none) [] [] :=
  ⟨by simp, by simp, by simp, .nil, List.Subset.refl []⟩

variable {holdings : κ → Option Descriptor} {given closed : List Descriptor}
  (hbalanced : Balanced holdings given closed)

include hbalanced

/-- A socket lets go of its descriptor, which is closed. -/
theorem release (name : κ) :
    Balanced (Function.update holdings name none) given (closed ++ (holdings name).toList) := by
  cases hname : holdings name with
  | none =>
      rw [Option.toList_none, List.append_nil, ← hname, Function.update_eq_self]
      exact hbalanced
  | some released =>
      obtain ⟨hgiven, hopen⟩ := hbalanced.unclosed hname
      have hother {other descriptor}
          (hheld : Function.update holdings name none other = some descriptor) :
          other ≠ name ∧ holdings other = some descriptor := by
        by_cases hsame : other = name
        · simp [hsame] at hheld
        · exact ⟨hsame, by simpa [hsame] using hheld⟩
      refine ⟨fun descriptor hin hout => ?_, fun hfirst hsecond => ?_, fun hheld => ?_, ?_, ?_⟩
      · simp only [Option.toList_some, List.mem_append, List.mem_singleton, not_or] at hout
        obtain ⟨owner, howner⟩ := hbalanced.held descriptor hin hout.1
        refine ⟨owner, ?_⟩
        rw [Function.update_of_ne, howner]
        rintro rfl
        exact hout.2 (Option.some.inj (howner.symm.trans hname))
      · exact hbalanced.unique (hother hfirst).2 (hother hsecond).2
      · obtain ⟨hne, hheld⟩ := hother hheld
        obtain ⟨hin, hout⟩ := hbalanced.unclosed hheld
        refine ⟨hin, ?_⟩
        simp only [Option.toList_some, List.mem_append, List.mem_singleton, not_or]
        refine ⟨hout, ?_⟩
        rintro rfl
        exact hne (hbalanced.unique hheld hname)
      · rw [Option.toList_some, List.nodup_append_comm, List.singleton_append, List.nodup_cons]
        exact ⟨hopen, hbalanced.closed_nodup⟩
      · rw [Option.toList_some]
        exact List.append_subset.mpr ⟨hbalanced.closed_given, by simpa using hgiven⟩

/-- A socket without a descriptor is given a new one, or none. -/
theorem give {name : κ} (hname : holdings name = none) {fresh : Option Descriptor}
    (hfresh : ∀ descriptor ∈ fresh, descriptor ∉ given) :
    Balanced (Function.update holdings name fresh) (given ++ fresh.toList) closed := by
  cases fresh with
  | none =>
      rw [Option.toList_none, List.append_nil, ← hname, Function.update_eq_self]
      exact hbalanced
  | some fresh =>
      have hnew : fresh ∉ given := hfresh fresh rfl
      have hheld_cases {other descriptor}
          (hheld : Function.update holdings name (some fresh) other = some descriptor) :
          other = name ∧ descriptor = fresh ∨ holdings other = some descriptor := by
        by_cases hsame : other = name
        · subst hsame
          rw [Function.update_self] at hheld
          exact .inl ⟨rfl, (Option.some.inj hheld).symm⟩
        · exact .inr (by simpa [hsame] using hheld)
      refine ⟨fun descriptor hin hout => ?_, fun hfirst hsecond => ?_, fun hheld => ?_,
        hbalanced.closed_nodup, List.Subset.trans hbalanced.closed_given (List.subset_append_left _ _)⟩
      · rcases List.mem_append.mp hin with hin | hin
        · obtain ⟨owner, howner⟩ := hbalanced.held descriptor hin hout
          refine ⟨owner, ?_⟩
          rw [Function.update_of_ne, howner]
          rintro rfl
          rw [hname] at howner
          cases howner
        · obtain rfl : descriptor = fresh := by simpa using hin
          exact ⟨name, Function.update_self ..⟩
      · rcases hheld_cases hfirst with ⟨rfl, rfl⟩ | hbefore
        · rcases hheld_cases hsecond with ⟨rfl, -⟩ | hlater
          · rfl
          · exact absurd (hbalanced.unclosed hlater).1 hnew
        · rcases hheld_cases hsecond with ⟨rfl, rfl⟩ | hlater
          · exact absurd (hbalanced.unclosed hbefore).1 hnew
          · exact hbalanced.unique hbefore hlater
      · rcases hheld_cases hheld with ⟨rfl, rfl⟩ | hbefore
        · exact ⟨by simp, fun hclosed => hnew (hbalanced.closed_given hclosed)⟩
        · obtain ⟨hin, hout⟩ := hbalanced.unclosed hbefore
          exact ⟨List.mem_append_left _ hin, hout⟩

/-- A socket without a descriptor gets that of another one. -/
theorem move {source target : κ} (hne : target ≠ source) (htarget : holdings target = none) :
    Balanced (Function.update (Function.update holdings source none) target (holdings source))
      given closed := by
  -- The new holdings are the old ones with the two names exchanged.
  have hswap : Function.update (Function.update holdings source none) target (holdings source) =
      holdings ∘ Equiv.swap source target := by
    funext name
    by_cases hsource : name = source
    · subst hsource
      simp [Function.update_of_ne hne.symm, htarget]
    · by_cases hsame : name = target
      · subst hsame
        simp
      · simp [hsource, hsame, Equiv.swap_apply_of_ne_of_ne hsource hsame]
  rw [hswap]
  refine ⟨fun descriptor hin hout => ?_, fun hfirst hsecond => ?_, fun hheld => hbalanced.unclosed hheld,
    hbalanced.closed_nodup, hbalanced.closed_given⟩
  · obtain ⟨owner, howner⟩ := hbalanced.held descriptor hin hout
    exact ⟨Equiv.swap source target owner, by simpa using howner⟩
  · exact (Equiv.swap source target).injective (hbalanced.unique hfirst hsecond)

end Balanced

/-! ## Steps -/

namespace SocketStep

/-- The descriptor that a step brings in. -/
def given? : SocketStep κ → Option Descriptor
  | .create _ descriptor => if descriptor = noDescriptor then none else some descriptor
  | .createFrom _ _ | .assign _ _ | .destroy _ => none

/-- The socket that is destroyed, or overwritten by another one. -/
def ended? : SocketStep κ → Option κ
  | .create name _ | .createFrom name _ | .destroy name => some name
  | .assign target source => if target = source then none else some target

/-- The socket that is moved from. -/
def source? : SocketStep κ → Option κ
  | .create _ _ | .destroy _ => none
  | .createFrom _ source => some source
  | .assign target source => if target = source then none else some source

/-- Who holds what after a step. -/
def holdings : SocketStep κ → (κ → Option Descriptor) → κ → Option Descriptor
  | .create name descriptor, before =>
    Function.update before name (if descriptor = noDescriptor then none else some descriptor)
  | .createFrom name source, before =>
    let between := Function.update before name none
    Function.update (Function.update between source none) name (between source)
  | .assign target source, before =>
    if target = source then before
    else Function.update (Function.update before source none) target (before source)
  | .destroy name, before => Function.update before name none

theorem holdings_source {step : SocketStep κ} {source : κ} (hsource : step.source? = some source)
    (before : κ → Option Descriptor) : step.holdings before source = none := by
  cases step with
  | create | destroy => cases hsource
  | createFrom name _ =>
      cases hsource
      by_cases hsame : source = name
      · simp [holdings, hsame]
      · simp [holdings, Function.update_of_ne hsame]
  | assign target other =>
      by_cases hsame : target = other
      · simp [source?, hsame] at hsource
      · obtain rfl : other = source := by simpa [source?, hsame] using hsource
        simp [holdings, hsame, Function.update_of_ne (Ne.symm hsame)]

end SocketStep

/-- A step keeps the balance if the descriptor that it brings in is a new one. -/
theorem Balanced.step {holdings : κ → Option Descriptor} {given closed : List Descriptor}
    (hbalanced : Balanced holdings given closed) (step : SocketStep κ)
    (hfresh : ∀ descriptor ∈ step.given?, descriptor ∉ given) :
    Balanced (step.holdings holdings) (given ++ step.given?.toList)
      (closed ++ (step.ended?.bind holdings).toList) := by
  cases step with
  | create name descriptor =>
      have hgiven := (hbalanced.release name).give (Function.update_self name none holdings) hfresh
      rw [Function.update_idem] at hgiven
      exact hgiven
  | createFrom name source =>
      have hreleased := hbalanced.release name
      rw [SocketStep.given?, Option.toList_none, List.append_nil]
      by_cases hsame : name = source
      · -- The socket was destroyed before, so there is nothing left to be moved.
        subst hsame
        simpa [SocketStep.holdings, SocketStep.ended?] using hreleased
      · exact hreleased.move hsame (Function.update_self name none holdings)
  | assign target source =>
      rw [SocketStep.given?, Option.toList_none, List.append_nil]
      by_cases hsame : target = source
      · simpa [SocketStep.holdings, SocketStep.ended?, hsame] using hbalanced
      · have hmoved := (hbalanced.release target).move hsame (Function.update_self ..)
        rw [Function.update_comm hsame, Function.update_of_ne (Ne.symm hsame)] at hmoved
        simpa [SocketStep.holdings, SocketStep.ended?, hsame] using hmoved
  | destroy name =>
      rw [SocketStep.given?, Option.toList_none, List.append_nil]
      exact hbalanced.release name

/-! ## Pools -/

namespace SocketPool

variable (pool : SocketPool κ)

/-- Who holds what. -/
def holdings (name : κ) : Option Descriptor := (pool.get name).held?

def AllSound : Prop := ∀ name, (pool.get name).Sound

theorem lookup_erase (name other : κ) :
    (pool.erase name).lookup other = if other = name then none else pool.lookup other := by
  induction pool with
  | nil => simp [erase]
  | cons entry pool ih =>
      obtain ⟨key, socket⟩ := entry
      rw [erase] at ih ⊢
      by_cases hkey : key = name
      · rw [List.filter_cons_of_neg (by simpa using hkey), ih]
        split
        · rfl
        next hother =>
          rw [List.lookup_cons, beq_false_of_ne (hkey ▸ hother)]
      · rw [List.filter_cons_of_pos (by simpa using hkey), List.lookup_cons, List.lookup_cons, ih]
        by_cases hother : other = key
        · simp [hother, hkey]
        · rw [beq_false_of_ne hother]

theorem get_erase (name other : κ) :
    (pool.erase name).get other = if other = name then .unbound else pool.get other := by
  rw [get, lookup_erase]
  split <;> rfl

theorem get_insert (name : κ) (socket : Socket) (other : κ) :
    (pool.insert name socket).get other = if other = name then socket else pool.get other := by
  by_cases hsame : other = name
  · simp [get, insert, hsame]
  · rw [if_neg hsame, get, insert, List.lookup_cons, beq_false_of_ne hsame, lookup_erase,
      if_neg hsame]
    rfl

@[simp] theorem holdings_erase (name : κ) :
    (pool.erase name).holdings = Function.update pool.holdings name none := by
  funext other
  by_cases hsame : other = name <;> simp [holdings, get_erase, hsame]

@[simp] theorem holdings_insert (name : κ) (socket : Socket) :
    (pool.insert name socket).holdings = Function.update pool.holdings name socket.held? := by
  funext other
  by_cases hsame : other = name <;> simp [holdings, get_insert, hsame]

variable {pool}

theorem AllSound.erase (hsound : pool.AllSound) (name : κ) : (pool.erase name).AllSound := by
  intro other
  rw [get_erase]
  split
  · exact Socket.sound_unbound
  · exact hsound other

theorem AllSound.insert (hsound : pool.AllSound) (name : κ) {socket : Socket} (hsocket : socket.Sound) :
    (pool.insert name socket).AllSound := by
  intro other
  rw [get_insert]
  split
  · exact hsocket
  · exact hsound other

theorem AllSound.step (hsound : pool.AllSound) (step : SocketStep κ) :
    (pool.step step).1.AllSound := by
  cases step with
  | create name descriptor =>
      exact (hsound.erase name).insert name (Socket.sound_ofDescriptor descriptor)
  | createFrom name source =>
      exact ((hsound.erase name).insert source Socket.sound_unbound).insert name
        (hsound.erase name source)
  | assign target source =>
      rw [SocketPool.step]
      split
      · exact hsound
      · exact (hsound.insert target (hsound source)).insert source Socket.sound_unbound
  | destroy name => exact hsound.erase name

/-- A step closes what the socket held that is destroyed or overwritten. -/
theorem AllSound.step_closed (hsound : pool.AllSound) (step : SocketStep κ) :
    (pool.step step).2 = (step.ended?.bind pool.holdings).toList := by
  cases step with
  | create name _ | createFrom name _ | destroy name =>
      exact congrArg Option.toList (hsound name).destroy_released
  | assign target source =>
      rw [SocketPool.step, SocketStep.ended?]
      split
      · rfl
      · exact congrArg Option.toList ((hsound target).takeOver_released (pool.get source))

theorem holdings_step (pool : SocketPool κ) (step : SocketStep κ) :
    (pool.step step).1.holdings = step.holdings pool.holdings := by
  cases step with
  | create name descriptor =>
      simp only [step, destroy, holdings_insert, holdings_erase, Function.update_idem]
      rfl
  | createFrom name source =>
      simp only [step, destroy, Socket.moveOut, holdings_insert, holdings_erase, SocketStep.holdings,
        Socket.held?_unbound]
      rw [← holdings_erase]
      rfl
  | assign target source =>
      rw [step, SocketStep.holdings]
      split
      · rfl
      next hne =>
        simp only [Socket.takeOver, holdings_insert, Socket.held?_unbound]
        exact Function.update_comm hne _ _ _
  | destroy name => exact holdings_erase pool name

/-! ## Runs -/

theorem AllSound.steps (hsound : pool.AllSound) (steps : List (SocketStep κ)) :
    (pool.steps steps).1.AllSound := by
  induction steps generalizing pool with
  | nil => exact hsound
  | cons step steps ih => exact ih (hsound.step step)

theorem AllSound.steps_balanced (hsound : pool.AllSound) {given closed : List Descriptor}
    (hbalanced : Balanced pool.holdings given closed) {steps : List (SocketStep κ)}
    (hdistinct : (given ++ steps.filterMap SocketStep.given?).Nodup) :
    Balanced (pool.steps steps).1.holdings (given ++ steps.filterMap SocketStep.given?)
      (closed ++ (pool.steps steps).2) := by
  induction steps generalizing pool given closed with
  | nil => simpa [SocketPool.steps] using hbalanced
  | cons step steps ih =>
      have hsplit : given ++ (step :: steps).filterMap SocketStep.given? =
          (given ++ step.given?.toList) ++ steps.filterMap SocketStep.given? := by
        cases hgiven : step.given? <;> simp [hgiven]
      rw [hsplit] at hdistinct ⊢
      have hfresh : ∀ descriptor ∈ step.given?, descriptor ∉ given := fun descriptor hdescriptor hin =>
        List.disjoint_of_nodup_append (List.Nodup.of_append_left hdistinct) hin
          (Option.mem_toList.mpr hdescriptor)
      have hstep := hbalanced.step step hfresh
      rw [← holdings_step, ← hsound.step_closed] at hstep
      have hrest := ih (hsound.step step) hstep hdistinct
      rw [List.append_assoc closed] at hrest
      exact hrest

theorem allSound_nil : AllSound ([] : SocketPool κ) := fun _ => Socket.sound_unbound

theorem foldl_close {ω : Type} (host : Host ω) (descriptors : List Descriptor) (world : ω)
    (account : List SocketCall) :
    (descriptors.foldl (fun world descriptor => host.accounted.close descriptor world)
      (world, account)).2 = account ++ descriptors.map SocketCall.close := by
  induction descriptors generalizing world account with
  | nil => exact (List.append_nil account).symm
  | cons descriptor descriptors ih =>
      rw [List.foldl_cons, List.map_cons, List.append_cons]
      exact ih (host.close descriptor world) (account ++ [.close descriptor])

/-- What a step does with descriptors. It closes exactly the one of the socket that is
destroyed or overwritten by another; no other socket holds that one, and afterwards none
does. A socket that was moved from holds nothing. -/
structure Handover (step : SocketStep κ) (before after : SocketPool κ) (closed : List Descriptor) :
    Prop where
  moves : after.holdings = step.holdings before.holdings
  closes : closed = (step.ended?.bind before.holdings).toList
  alone : ∀ descriptor ∈ closed, ∀ name, step.ended? ≠ some name →
    before.holdings name ≠ some descriptor
  gone : ∀ descriptor ∈ closed, ∀ name, after.holdings name ≠ some descriptor
  source : ∀ source, step.source? = some source → after.holdings source = none

theorem handover_of_balanced {given closed : List Descriptor} (hsound : pool.AllSound)
    (hbalanced : Balanced pool.holdings given closed) {step : SocketStep κ}
    (hfresh : ∀ descriptor ∈ step.given?, descriptor ∉ given) :
    Handover step pool (pool.step step).1 (pool.step step).2 := by
  have hstep := hbalanced.step step hfresh
  rw [← holdings_step, ← hsound.step_closed] at hstep
  refine ⟨holdings_step pool step, hsound.step_closed step, ?_, ?_, ?_⟩
  · intro descriptor hclosed name hother hheld
    rw [hsound.step_closed, Option.mem_toList, Option.bind_eq_some_iff] at hclosed
    obtain ⟨ended, hended, howner⟩ := hclosed
    exact hother (hended.trans (congrArg some (hbalanced.unique howner hheld)))
  · intro descriptor hclosed name hheld
    exact (hstep.unclosed hheld).2 (List.mem_append_right closed hclosed)
  · intro source hsource
    rw [holdings_step]
    exact step.holdings_source hsource pool.holdings

/-- However sockets are created from distinct descriptors, or from none, moved, assigned,
to themselves included, and destroyed: the descriptors that are open are held, each by
exactly one socket, and none is closed twice. A socket is usable if and only if it holds a
descriptor. Every step on the way is a handover, and the host is asked to close what the
steps close, in that order. -/
theorem steps_owned (steps : List (SocketStep κ))
    (hdistinct : (steps.filterMap SocketStep.given?).Nodup) :
    let run := SocketPool.steps [] steps
    Balanced run.1.holdings (steps.filterMap SocketStep.given?) run.2 ∧
      (∀ name, (run.1.get name).isUsable = true ↔ (run.1.get name).descriptor ≠ noDescriptor) ∧
      (∀ earlier step later, steps = earlier ++ step :: later →
        let before := (SocketPool.steps [] earlier).1
        Handover step before (before.step step).1 (before.step step).2) ∧
      ∀ {ω : Type} (host : Host ω) (world : ω),
        (SocketPool.stepsOn [] host.accounted steps (world, [])).2.2 = run.2.map .close := by
  intro run
  have hbegun : Balanced (holdings ([] : SocketPool κ)) [] [] := Balanced.nothing
  refine ⟨allSound_nil.steps_balanced hbegun hdistinct, fun name => ?_, ?_, ?_⟩
  · rw [(allSound_nil.steps steps name).isUsable_eq]
    by_cases hnone : (run.1.get name).descriptor = noDescriptor <;> simp [run, Socket.held?, hnone]
  · rintro earlier step later rfl
    rw [List.filterMap_append] at hdistinct
    have hearlier := List.Nodup.of_append_left hdistinct
    refine handover_of_balanced (allSound_nil.steps earlier)
      (allSound_nil.steps_balanced hbegun hearlier) fun descriptor hgiven hin => ?_
    refine List.disjoint_of_nodup_append hdistinct hin ?_
    rw [List.filterMap_cons, Option.mem_def.mp hgiven]
    exact List.mem_cons_self
  · intro ω host world
    exact foldl_close host run.2 world []

/-- Two descriptors: one is moved twice, the second time over the other one, and then its
socket is assigned to itself and destroyed. -/
theorem steps_owned_across_two_moves :
    let steps : List (SocketStep Nat) := [.create 0 3, .create 1 4, .createFrom 2 0, .assign 1 2,
      .create 3 noDescriptor, .assign 1 1, .destroy 1]
    (steps.filterMap SocketStep.given?).Nodup ∧ (SocketPool.steps [] steps).2 = [4, 3] ∧
      Balanced (SocketPool.steps [] steps).1.holdings [3, 4] [4, 3] := by
  intro steps
  have hdistinct : (steps.filterMap SocketStep.given?).Nodup := by decide
  have hclosed : (SocketPool.steps [] steps).2 = [4, 3] := by decide
  have hbalanced := (steps_owned steps hdistinct).1
  rw [hclosed] at hbalanced
  exact ⟨hdistinct, hclosed, hbalanced⟩

end SocketPool

end TftpServer
