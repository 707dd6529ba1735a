import Defragmenter.TwoPeers

/-! What a sender and a receiver achieve together. While the base library takes
everything, a message is only ever waiting: for a fragment that is on its way,
lost or not, or for the receipt of one that came. When nobody waits any more,
each message was handed over once, and its sender was told so once. -/
namespace Defragmenter.Delivery
open Database InboundStore OutboundStore Split Receipts Sender Moves Provenance Tracking Accounting Window
open Bookkeeping Anchoring Stranding ClientView Completion Confirmations Receiver Reassembly Runs TwoPeers

/-- Long messages can be sent, and what comes in is told apart. -/
def Careful (n : Link) (c : Peers) : Act → Prop
  | .send friendNumber type message beyond =>
      Sendable n.world c.state (.send friendNumber type message beyond)
  | .deliver i beyond _ => ∀ call ∈ c.state.base[i]?, ∀ message ∈ call.data,
      ToldApart c call (incoming n call message beyond)
  | _ => True

instance {n : Link} {c : Peers} : DecidablePred (Careful n c) := fun a =>
  match a with
  | .send friendNumber type message beyond =>
    inferInstanceAs (Decidable (Sendable n.world c.state (.send friendNumber type message beyond)))
  | .periodic => .isTrue trivial
  | .receipt _ => .isTrue trivial
  | .deliver i beyond _ => inferInstanceAs (Decidable (∀ call ∈ c.state.base[i]?, ∀ message ∈ call.data,
      ToldApart c call (incoming n call message beyond)))

/-- Nobody waits for a receipt. -/
def Quiet (s : State) : Prop := ∀ k, s.receipts.key k = 0

variable {n : Link} {c c' : Peers} {originals : Nat → Option MsgOutbound} {acts : List Act} {a : Act}

/-- How far the messages have come, with a base library that takes everything. -/
structure Underway (n : Link) (c : Peers) : Prop where
  progress : ∃ originals, Progress n originals c
  steady : Steady n.world c.state

theorem underway_begun (range : ProperRange n.world.params) (begun : Begun n c) : Underway n c where
  progress := ⟨_, progress_begun range begun⟩
  steady := by
    rw [started_iff.mp begun.1]
    exact steady_initial

/-- The base library takes everything, so every cursor leads. -/
theorem Underway.safeguarded (obliging : Obliging n.world) (underway : Underway n c)
    (careful : Careful n c a) : Safeguarded n c a := by
  cases a with
  | send | deliver => exact careful
  | periodic =>
    have proper : Proper .periodic := trivial
    exact underway.steady.leading proper
  | receipt i => exact fun call _ => underway.steady.leading (obliging.taken i)

/-- The sender's part of an act is a call of its own, or nothing. -/
theorem act_state (ran : act n a c = .ok c') : c'.state = c.state ∨
    ∃ op, step n.world op c.state = .ok c'.state ∧ (Obliging n.world → Proper op) ∧
      (op = .periodic → a = .periodic) := by
  have own : ∀ op, senderStep n op c = .ok c' → step n.world op c.state = .ok c'.state := by
    intro op ran
    obtain ⟨s', stepped, same⟩ := bind_ok.mp ran
    cases same
    exact stepped
  cases a with
  | send friendNumber type message beyond => exact .inr ⟨_, own _ ran, fun _ => trivial, by simp⟩
  | periodic => exact .inr ⟨_, own _ ran, fun _ => trivial, fun _ => rfl⟩
  | receipt i =>
    simp only [act] at ran
    cases at_i : c.state.base[i]? with
    | none =>
      rw [at_i] at ran
      cases ran
      exact .inl rfl
    | some call =>
      rw [at_i] at ran
      exact .inr ⟨_, own _ ran, fun obliging => obliging.taken i, by simp⟩
  | deliver i beyond tm =>
    simp only [act] at ran
    cases at_i : c.state.base[i]? with
    | none =>
      rw [at_i] at ran
      cases ran
      exact .inl rfl
    | some call =>
      rw [at_i] at ran
      cases data : call.data with
      | none =>
        simp only [data] at ran
        cases ran
        exact .inl rfl
      | some message =>
        simp only [data] at ran
        obtain ⟨⟨db, handed⟩, _, same⟩ := bind_ok.mp ran
        cases same
        exact .inl rfl

theorem Underway.step (obliging : Obliging n.world) (range : ProperRange n.world.params)
    (maxLength : n.world.params.maxMessageLength < 2 ^ 32) (underway : Underway n c)
    (possible : Possible n c a) (careful : Careful n c a) (ran : act n a c = .ok c') : Underway n c' where
  progress := by
    obtain ⟨originals, progress⟩ := underway.progress
    exact progress.step obliging.increasing range obliging.small maxLength possible
      (underway.safeguarded obliging careful) ran
  steady := by
    rcases act_state ran with same | ⟨op, stepped, proper, _⟩
    · rw [same]
      exact underway.steady
    · exact underway.steady.step obliging (proper obliging) stepped

/-- A message that was completed is one the client heard of. -/
theorem callbacks_of_completions {s : State} {b friendNumber r : Nat}
    (complete : completions s b = [(friendNumber, r)]) : r ∈ callbacks s := by
  have member : (friendNumber, r) ∈ completions s b := by
    rw [complete]
    exact List.mem_singleton_self _
  obtain ⟨e, here, is⟩ := List.mem_filterMap.mp member
  refine List.mem_filterMap.mpr ⟨e, here, ?_⟩
  cases e with
  | completed b' f' r' =>
    simp only [completionOf, Option.ite_none_right_eq_some, Option.some.injEq, Prod.mk.injEq] at is
    exact congrArg some is.2.2
  | returned | passed | confirmed => cases is

/-- Two parts under numbers behind the client's range. -/
def peers : Link := ⟨behindRange, 1, 7, defaultLimit⟩

theorem begun_peers : Begun peers ⟨initialState peers.world, {}, []⟩ :=
  ⟨started_initialState peers.world, fun _ => rfl, rfl⟩

end Defragmenter.Delivery
