import Mathlib.Algebra.Order.BigOperators.Group.Finset
import Mathlib.Order.Interval.Finset.Nat
import TftpServer.Proofs.Transfer.Conduct
import TftpServer.Proofs.Transfer.Faithful

/-! # Accounts of what was said

A transfer speaks of its options, of one block after the other, and at last of an
error. The account of a run lists every datagram that was handed to the sink, with
what it is about, the event that caused it, and the reads that were made for it.
Datagrams alone would not do, since blocks whose numbers differ by 65536 can be
equal.
-/

namespace TftpServer

variable {ω σ : Type}

/-- What a datagram to the peer is about: the options, the block with a number
counted over all wraps, or an error. -/
inductive Subject where
  | options
  | block (number : Nat)
  | error
  deriving DecidableEq

namespace Subject

/-- What is in flight behind `number - 1` blocks, or before any of them. -/
def ofNumber : Nat → Subject
  | 0 => .options
  | number + 1 => .block (number + 1)

theorem ofNumber_injective : Function.Injective ofNumber := by
  intro first second heq
  cases first <;> cases second <;> simp_all [ofNumber]

theorem ofNumber_ne_error (number : Nat) : ofNumber number ≠ .error := by
  cases number <;> simp [ofNumber]

/-- How a transfer of a content puts what it has to say. -/
inductive Spelled (entries : List OptionField) (content : Content) (blockSize : Nat) :
    Subject → Octets → Prop where
  | options {datagram : Octets} (hsome : entries ≠ [])
      (hencode : encode (.oack entries) = .ok datagram) :
      Spelled entries content blockSize .options datagram
  | block (done : Nat) (hreached : done * blockSize ≤ content.size) :
      Spelled entries content blockSize (.block (done + 1))
        (content.blockDatagram blockSize (done + 1))
  | error {datagram : Octets} (hopcode : wireOpcode datagram = some .error) :
      Spelled entries content blockSize .error datagram

section Spelled

variable {entries : List OptionField} {content : Content} {blockSize : Nat}

/-- There is one way to put anything but an error. -/
theorem Spelled.unique {subject : Subject} {first second : Octets}
    (hfirst : Spelled entries content blockSize subject first)
    (hsecond : Spelled entries content blockSize subject second) (hsubject : subject ≠ .error) :
    first = second := by
  cases hfirst with
  | options _ hencode =>
      cases hsecond with
      | options _ hother => exact Except.ok.inj (hencode.symm.trans hother)
  | block done _ =>
      cases hsecond with
      | block _ _ => rfl
  | error _ => exact absurd rfl hsubject

theorem Spelled.eq_blockDatagram {done : Nat} {datagram : Octets}
    (hspelled : Spelled entries content blockSize (ofNumber (done + 1)) datagram) :
    datagram = content.blockDatagram blockSize (done + 1) ∧ done * blockSize ≤ content.size := by
  cases hspelled with
  | block _ hreached => exact ⟨rfl, hreached⟩

theorem Spelled.wireOpcode {number : Nat} {datagram : Octets}
    (hspelled : Spelled entries content blockSize (ofNumber number) datagram) :
    wireOpcode datagram = some (if number = 0 then .oack else .data) := by
  cases number with
  | zero =>
      cases hspelled with
      | options _ hencode => exact wireOpcode_of_decode (decode_of_encode_oack hencode)
  | succ number =>
      rw [hspelled.eq_blockDatagram.1]
      exact wireOpcode_of_decode (decode_dataDatagram _ _)

/-- All that there is to say about a content. -/
def all (content : Content) (blockSize : Nat) : Finset Subject :=
  insert .options
    ((Finset.range (content.size / blockSize + 1)).image fun done => .block (done + 1))

theorem card_all (content : Content) (blockSize : Nat) :
    (all content blockSize).card ≤ content.size / blockSize + 2 := by
  refine (Finset.card_insert_le _ _).trans (Nat.succ_le_succ ?_)
  exact Finset.card_image_le.trans (Finset.card_range _).le

theorem Spelled.mem_all {subject : Subject} {datagram : Octets} (hsize : 0 < blockSize)
    (hspelled : Spelled entries content blockSize subject datagram) :
    subject = .error ∨ subject ∈ all content blockSize := by
  cases hspelled with
  | options _ _ => exact Or.inr (Finset.mem_insert_self _ _)
  | block done hreached =>
      have hdone : done < content.size / blockSize + 1 :=
        Nat.lt_succ_of_le ((Nat.le_div_iff_mul_le hsize).mpr hreached)
      exact Or.inr (Finset.mem_insert_of_mem
        (Finset.mem_image.mpr ⟨done, Finset.mem_range.mpr hdone, rfl⟩))
  | error _ => exact Or.inl rfl

end Spelled

end Subject

namespace Transfer

/-- What a datagram is about that a transfer has just handed to the sink. -/
def subject (transfer : Transfer σ) (datagram : Octets) : Subject :=
  match wireOpcode datagram with
  | some .oack => .options
  | some .data => .block transfer.position.logical.toNat
  | _ => .error

/-- A datagram handed to the sink, with the event that caused it, or none for the
start, and the reads that its step has made. -/
structure Sending where
  subject : Subject
  datagram : Octets
  cause : Option Event
  reads : List ReadCall

/-- Said again word for word, for want of an answer, and without a look at the
stream. -/
structure Sending.Repeats (later first : Sending) : Prop where
  datagram : later.datagram = first.datagram
  cause : ∃ now, later.cause = some (.timeout now)
  reads : later.reads = []

/-- The account of a step with a cause and reads. -/
def accountOf (cause : Option Event) (reads : List ReadCall) (step : Step ω σ) : List Sending :=
  step.sent.map fun datagram =>
    { subject := step.transfer.subject datagram, datagram, cause, reads }

/-- The account of a step. The reads are found by taking the same step on
record. -/
def sendings (reading : Reading ω σ) (world : ω) (cause : Option Event)
    (step : ∀ ω : Type, Reading ω σ → ω → Step ω σ) : List Sending :=
  let recorded := step (ω × List ReadCall) reading.recorded (world, [])
  accountOf cause recorded.world.2 (step ω reading world)

def Run.sendings (reading : Reading ω σ) (run : Run ω σ) (event : Event) : List Sending :=
  Transfer.sendings reading run.world (some event) fun _ reading world =>
    run.transfer.handle reading world event

def Run.account (reading : Reading ω σ) (run : Run ω σ) : List Event → List Sending
  | [] => []
  | event :: rest => run.sendings reading event ++ (run.handle reading event).account reading rest

/-- The account of a whole run. -/
def account (reading : Reading ω σ) (transfer : Transfer σ) (world : ω) (now : Time)
    (events : List Event) : List Sending :=
  sendings reading world none (fun _ reading world => transfer.start reading world now) ++
    (Run.extend { transfer, world } (transfer.start reading world now)).account reading events

theorem account_induction (invariant : Run ω σ → List Sending → Prop) {reading : Reading ω σ}
    {transfer : Transfer σ} {world : ω} {now : Time}
    (hstart : invariant (Run.extend { transfer, world } (transfer.start reading world now))
      (sendings reading world none fun _ reading world => transfer.start reading world now))
    (hhandle : ∀ run said event, invariant run said →
      invariant (run.handle reading event) (said ++ run.sendings reading event))
    (events : List Event) :
    invariant (transfer.run reading world now events)
      (transfer.account reading world now events) := by
  unfold run account
  generalize Run.extend { transfer, world } (transfer.start reading world now) = first at hstart ⊢
  generalize (sendings reading world none fun _ reading world =>
    transfer.start reading world now) = said at hstart ⊢
  induction events generalizing first said with
  | nil => simpa [Run.account] using hstart
  | cons event rest ih =>
      rw [Run.account, ← List.append_assoc]
      exact ih _ _ (hhandle first said event hstart)

theorem map_datagram_sendings (reading : Reading ω σ) (world : ω) (cause : Option Event)
    (step : ∀ ω : Type, Reading ω σ → ω → Step ω σ) :
    (sendings reading world cause step).map (·.datagram) = (step ω reading world).sent := by
  simp [sendings, accountOf, Function.comp_def]

/-- The account is about what was handed to the sink, in this order. -/
theorem map_datagram_account (reading : Reading ω σ) (transfer : Transfer σ) (world : ω)
    (now : Time) (events : List Event) :
    (transfer.account reading world now events).map (·.datagram) =
      (transfer.run reading world now events).sent := by
  refine account_induction (fun run said => said.map (·.datagram) = run.sent) ?_ ?_ events
  · rw [map_datagram_sendings]
    rfl
  · intro run said event hrun
    rw [List.map_append, hrun, Run.sendings, map_datagram_sendings]
    rfl

/-- An account in which nothing is said more than `limit + 1` times, and an error
no more than once. What is said again is repeated. -/
structure Sparing (entries : List OptionField) (content : Content) (blockSize limit : Nat)
    (said : List Sending) : Prop where
  spelled : ∀ sending ∈ said,
    sending.subject.Spelled entries content blockSize sending.datagram
  seldom : ∀ subject, (said.map (·.subject)).count subject ≤ limit + 1
  once : (said.map (·.subject)).count .error ≤ 1
  repeats : said.Pairwise fun first later => later.subject = first.subject → later.Repeats first

namespace Sparing

variable {entries : List OptionField} {content : Content} {blockSize limit : Nat}
  {said : List Sending}

theorem nil : Sparing entries content blockSize limit [] where
  spelled _ hmem := nomatch hmem
  seldom _ := Nat.zero_le _
  once := Nat.zero_le _
  repeats := List.Pairwise.nil

theorem concat (hsaid : Sparing entries content blockSize limit said) {sending : Sending}
    (hspelled : sending.subject.Spelled entries content blockSize sending.datagram)
    (hseldom : (said.map (·.subject)).count sending.subject ≤ limit)
    (herror : sending.subject = .error → (said.map (·.subject)).count .error = 0)
    (hrepeats : ∀ first ∈ said, sending.subject = first.subject → sending.Repeats first) :
    Sparing entries content blockSize limit (said ++ [sending]) where
  spelled other hmem := by
    rcases List.mem_append.mp hmem with hmem | hmem
    · exact hsaid.spelled other hmem
    · exact List.mem_singleton.mp hmem ▸ hspelled
  seldom subject := by
    rw [List.map_append, List.count_append, List.map_singleton, List.count_singleton]
    split
    next heq =>
      have hsame : sending.subject = subject := by simpa using heq
      exact Nat.succ_le_succ (hsame ▸ hseldom)
    next => exact hsaid.seldom subject
  once := by
    rw [List.map_append, List.count_append, List.map_singleton, List.count_singleton]
    split
    next heq =>
      have hsame : sending.subject = .error := by simpa using heq
      rw [herror hsame]
    next => exact hsaid.once
  repeats := by
    refine List.pairwise_append.mpr ⟨hsaid.repeats, List.pairwise_singleton _ _, ?_⟩
    intro first hfirst later hlater
    exact List.mem_singleton.mp hlater ▸ hrepeats first hfirst

/-- What has not been spoken of yet can be said. -/
theorem concat_fresh (hsaid : Sparing entries content blockSize limit said) {sending : Sending}
    (hspelled : sending.subject.Spelled entries content blockSize sending.datagram)
    (hfresh : sending.subject ∉ said.map (·.subject)) :
    Sparing entries content blockSize limit (said ++ [sending]) := by
  have hnone := List.count_eq_zero_of_not_mem hfresh
  refine hsaid.concat hspelled (hnone.trans_le (Nat.zero_le _)) (fun herror => herror ▸ hnone) ?_
  exact fun first hfirst heq => absurd (heq ▸ List.mem_map_of_mem hfirst) hfresh

/-- There are so many things to say, and each of them is said so often. -/
theorem length_le (hsaid : Sparing entries content blockSize limit said) (hsize : 0 < blockSize) :
    said.length ≤ (content.size / blockSize + 2) * (limit + 1) + 1 := by
  let subjects := said.map (·.subject)
  have hmem : ∀ subject ∈ subjects, subject ∈ insert .error (Subject.all content blockSize) := by
    intro subject hsubject
    obtain ⟨sending, hsending, rfl⟩ := List.mem_map.mp hsubject
    exact Finset.mem_insert.mpr ((hsaid.spelled sending hsending).mem_all hsize)
  have hnot : Subject.error ∉ Subject.all content blockSize := by simp [Subject.all]
  calc said.length
      = ∑ subject ∈ insert .error (Subject.all content blockSize), subjects.count subject := by
        have hcard := Multiset.sum_count_eq_card (m := (subjects : Multiset Subject)) hmem
        simpa [subjects] using hcard.symm
    _ = subjects.count .error + ∑ subject ∈ Subject.all content blockSize, subjects.count subject :=
        Finset.sum_insert hnot
    _ ≤ 1 + (Subject.all content blockSize).card * (limit + 1) := by
        refine Nat.add_le_add hsaid.once ?_
        exact Finset.sum_le_card_nsmul _ _ _ fun subject _ => hsaid.seldom subject
    _ ≤ (content.size / blockSize + 2) * (limit + 1) + 1 := by
        rw [Nat.add_comm]
        exact Nat.add_le_add_right (Nat.mul_le_mul_right _ (Subject.card_all content blockSize)) 1

end Sparing

end Transfer

end TftpServer
