import Defragmenter.Finishing

/-! The library as a client gets it. `tox_new` and `tox_kill` are to note the
instance for the thread that makes the periodic passes, but they call themselves
and not what they stand for. So there is never an instance, the thread never
makes a pass, and what is lost once is never sent again. -/
namespace Defragmenter.LifeCycle
open Decimal Database Split Receipts Sender Moves Provenance Tracking Accounting ClientView Completion FullWindow
open Confirmations Receiver Reassembly Runs TwoPeers Delivery Finishing

/-- The sending process and its receiver, with the instance the thread looks at. -/
structure Library where
  toxInstance : Option Nat := none
  peers : Peers

/-- `tox_new` of the overloaded interface, as far down as `depth` calls of itself. -/
def toxNew : Nat → Library → Except Fault (Option Nat × Library)
  | 0, _ => .error .diverges
  | depth + 1, l =>
    if l.toxInstance.isSome then .error .abort
    else do
      let (tox, l) ← toxNew depth l
      pure (tox, { l with toxInstance := tox })

/-- `tox_kill` of the overloaded interface, as far down as `depth` calls of itself. -/
def toxKill (tox : Option Nat) : Nat → Library → Except Fault Library
  | 0, _ => .error .diverges
  | depth + 1, l =>
    if l.toxInstance ≠ tox then .error .abort
    else do
      let l ← toxKill tox depth l
      pure { l with toxInstance := none }

inductive Event where
  | new (depth : Nat)
  | kill (tox : Option Nat) (depth : Nat)
  /-- One round of the thread. -/
  | wake
  /-- A call of the client or the base library, or an arrival at the receiver. -/
  | call (a : Act)

def threadRoutine (n : Link) (l : Library) : Except Fault Library :=
  match l.toxInstance with
  | none => .ok l
  | some _ => (act n .periodic l.peers).map fun peers => { l with peers }

def libraryStep (n : Link) : Event → Library → Except Fault Library
  | .new depth, l => (toxNew depth l).map Prod.snd
  | .kill tox depth, l => toxKill tox depth l
  | .wake, l => threadRoutine n l
  | .call a, l => (act n a l.peers).map fun peers => { l with peers }

/-- The thread alone makes passes; long messages can be sent, and what comes in is told apart. -/
def Usable (n : Link) (l : Library) : Event → Prop
  | .call a => a ≠ .periodic ∧ Possible n l.peers a ∧ Careful n l.peers a
  | _ => True

def Loaded (n : Link) (l : Library) : Prop := l.toxInstance = none ∧ Begun n l.peers

variable {n : Link} {l l' : Library} {events : List Event} {depth : Nat}

/-! ## The instance -/

/-- However far down it is followed, `tox_new` does not return. -/
theorem toxNew_never : ∀ {l' : Library} {tox : Option Nat}, toxNew depth l ≠ .ok (tox, l') := by
  induction depth with
  | zero => exact nofun
  | succ depth ih =>
    intro l' tox returned
    rw [toxNew] at returned
    split at returned
    · cases returned
    · obtain ⟨⟨tox', l₁⟩, inner, _⟩ := bind_ok.mp returned
      exact ih inner

/-- And neither does `tox_kill`. -/
theorem toxKill_never {tox : Option Nat} : ∀ {l' : Library}, toxKill tox depth l ≠ .ok l' := by
  induction depth with
  | zero => exact nofun
  | succ depth ih =>
    intro l' returned
    rw [toxKill] at returned
    split at returned
    · cases returned
    · obtain ⟨l₁, inner, _⟩ := bind_ok.mp returned
      exact ih inner

/-- What returns leaves no instance, and is a call of its own or nothing. -/
theorem library_step {e : Event} (none : l.toxInstance = none) (ran : libraryStep n e l = .ok l') :
    l'.toxInstance = Option.none ∧ (l'.peers = l.peers ∨ ∃ a, e = .call a ∧ act n a l.peers = .ok l'.peers) := by
  cases e with
  | new depth =>
    obtain ⟨⟨tox, l₁⟩, returned, _⟩ := map_ok.mp ran
    exact absurd returned toxNew_never
  | kill tox depth => exact absurd ran toxKill_never
  | wake =>
    rw [libraryStep, threadRoutine, none] at ran
    cases ran
    exact ⟨none, .inl rfl⟩
  | call a =>
    obtain ⟨peers, called, same⟩ := map_ok.mp ran
    subst same
    exact ⟨none, .inr ⟨a, rfl, called⟩⟩

theorem prompt_of_run (obliging : Obliging n.world) (range : ProperRange n.world.params)
    (maxLength : n.world.params.maxMessageLength < 2 ^ 32)
    (run : Run (libraryStep n) (Usable n) (Loaded n) events l) : Prompt n l.peers := by
  have kept : l.toxInstance = none ∧ Prompt n l.peers := by
    apply run.invariant (I := fun l => l.toxInstance = none ∧ Prompt n l.peers)
    · rintro l ⟨none, begun⟩
      exact ⟨none, prompt_begun range begun⟩
    · rintro l e l' ⟨none, prompt⟩ usable ran
      obtain ⟨none', same | ⟨a, rfl, called⟩⟩ := library_step none ran
      · exact ⟨none', same ▸ prompt⟩
      · obtain ⟨other, possible, careful⟩ := usable
        have timely : Timely n l.peers a := by
          cases a with
          | periodic => exact absurd rfl other
          | send | receipt | deliver => trivial
        exact ⟨none', prompt.step obliging range maxLength ⟨possible, careful, timely⟩ called⟩
  exact kept.2

/-- In every run of the library, whoever calls what and whenever the thread
wakes, a part of a message is sent once. If that fragment does not reach the
receiver, the message is neither handed over nor reported, however long the run
goes on: nothing that is lost is made up for. -/
theorem lost_for_ever {i a partNo : Nat} {call : BaseCall} (obliging : Obliging n.world)
    (range : ProperRange n.world.params) (maxLength : n.world.params.maxMessageLength < 2 ^ 32)
    (run : Run (libraryStep n) (Usable n) (Loaded n) events l)
    (at_i : l.peers.state.base[i]? = some call) (part : call.part = some (a, partNo))
    (friend : call.friendNumber = n.receiver) (lost : ∀ d ∈ l.peers.landings, d.call ≠ i) :
    (∀ j, CallFor l.peers.state j a partNo → j = i) ∧ handedOver l.peers.landings a = [] ∧
      completions l.peers.state a = [] := by
  have prompt := prompt_of_run obliging range maxLength run
  obtain ⟨originals, progress⟩ := prompt.underway.progress
  have called : CallFor l.peers.state i a partNo := ⟨call, at_i, part⟩
  have unlanded := prompt.unlanded called lost
  obtain ⟨p, given, rfl, addressee⟩ :=
    progress.traced.posted.addressed.base i call at_i (obliging.taken i) a partNo part
  have receiver : p.friendNumber = n.receiver := addressee.trans friend
  obtain ⟨r, describes⟩ := exists_letter maxLength (progress.traced.posted.known p given)
  have arrived := progress.arrived p r given receiver describes
  have issued : Issued n.world l.peers.state := progress.traced.settled.orderly.issued
  -- the part is one of those that are to come
  obtain ⟨message, data⟩ := passes_of_part maxLength progress (obliging.taken i) at_i part
  obtain ⟨q, r', given', _, same, describes', carried⟩ := @Progress.fragment n l.peers originals p.msg i call message
    (fun _ => 0) partNo maxLength progress (obliging.taken i) at_i data part
  obtain rfl := progress.traced.posted.distinct q p given' given (.inl same)
  obtain rfl := describes.unique describes'
  have inside := (carries_iff.mp carried).2.1
  have some : (landed l.peers.landings q.msg).card ≠ r'.parts := by
    intro all
    have whole : landed l.peers.landings q.msg = Finset.range r'.parts :=
      Finset.eq_of_subset_of_card_le arrived.within (by rw [Finset.card_range, all])
    have member : partNo - 1 ∈ landed l.peers.landings q.msg := whole ▸ Finset.mem_range.mpr inside
    obtain ⟨d, here, partNo', mine, number⟩ := mem_landed.mp member
    obtain ⟨call', at_d, part'⟩ := progress.called d here
    have positive := (issued.called at_i part).2
    have positive' := (issued.called at_d (part'.trans mine)).2
    obtain rfl : partNo' = partNo := by omega
    exact unlanded d here mine
  have unhanded : handedOver l.peers.landings q.msg = [] := by rw [arrived.handed, if_neg some]
  refine ⟨fun j other => ?_, unhanded, ?_⟩
  · rcases Nat.lt_trichotomy i j with before | same | before
    · exact absurd other (prompt.once i j q.msg partNo before called)
    · exact same.symm
    · exact absurd called (prompt.once j i q.msg partNo before other)
  · have closing := progress.traced.reported.closing
    rcases closing.returned q.msg q.friendNumber q.id q.message q.receipt given with ⟨m, found, _⟩ | complete
    · exact closing.silent q.msg (.inl ⟨m, found⟩)
    · have handed := (progress.sound maxLength).handed q.msg q.id q.message q.receipt (receiver ▸ given)
        (callbacks_of_completions complete)
      rw [unhanded] at handed
      cases handed

/-- What the peers do without a pass is something the library does. -/
theorem run_of_calls {acts : List Act} {c : Peers} (run : Run (act n) (fun c a => Possible n c a ∧ Careful n c a)
    (Begun n) acts c) (passless : ∀ a ∈ acts, a ≠ .periodic) :
    Run (libraryStep n) (Usable n) (Loaded n) (acts.map .call) ⟨none, c⟩ := by
  induction run with
  | nil begun => exact .nil ⟨rfl, begun⟩
  | cons _ guarded ran ih =>
    have before := ih fun a member => passless a (List.mem_cons_of_mem _ member)
    exact .cons before ⟨passless _ List.mem_cons_self, guarded⟩ (map_ok.mpr ⟨_, ran, rfl⟩)

/-- The first part is lost, the second one comes in and is confirmed, and the thread wakes. -/
theorem lost_for_ever_of_first_part : ∃ l call, Run (libraryStep peers) (Usable peers) (Loaded peers)
      [.wake, .call (.receipt 1), .call (.deliver 1 (fun _ => 0) 3),
        .call (.send 1 0 (List.replicate 65 1) fun _ => 0)] l ∧
    l.peers.state.base[0]? = some call ∧ call.part = some (0, 1) ∧ handedOver l.peers.landings 0 = [] ∧
    completions l.peers.state 0 = [] := by
  obtain ⟨c, run, checked⟩ := exists_run (actRead peers bothMarkers)
    (fun c a => Possible peers c a ∧ Careful peers c a)
    [.send 1 0 (List.replicate 65 1) fun _ => 0, .deliver 1 (fun _ => 0) 3, .receipt 1]
    (fun c => (∃ call ∈ c.state.base[0]?, call.part = some (0, 1) ∧ call.friendNumber = 1) ∧
      ∀ d ∈ c.landings, d.call ≠ 0) begun_peers (by decide +kernel)
  obtain ⟨⟨call, at_0, part, friend⟩, lost⟩ := of_decide_eq_true checked
  have calls := run_of_calls (run.steps fun _ _ _ => act_of_read) (by simp)
  have woken : Run (libraryStep peers) (Usable peers) (Loaded peers) (.wake :: _) ⟨none, c⟩ :=
    .cons calls trivial rfl
  obtain ⟨_, unhanded, unreported⟩ := lost_for_ever obliging_behindRange ⟨by decide, by decide⟩ (by decide)
    woken at_0 part friend lost
  exact ⟨_, call, woken, at_0, part, unhanded, unreported⟩

end Defragmenter.LifeCycle
