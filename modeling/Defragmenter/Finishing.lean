import Mathlib.Algebra.Order.BigOperators.Group.Finset
import Defragmenter.Delivery
import Defragmenter.FullWindow

/-! Whatever has happened, the peers can finish. While no record expires, the
first slot of the table is never a hole, so the receipt of its record is found
as soon as it comes; and with every receipt that is found one part less is
missing. -/
namespace Defragmenter.Finishing
open Database InboundStore Split Receipts Sender Moves Provenance Tracking Accounting SparseSearch
open Tiling Anchoring ClientView Completion FullWindow Confirmations FragmentBytes Receiver Reassembly Runs TwoPeers Delivery

/-- No record expires. -/
def Timely (n : Link) (c : Peers) : Act → Prop
  | .periodic => ∀ k < c.state.receipts.hi,
      expired n.world (n.world.clock c.state.ticks) (c.state.receipts.receipts k) = false
  | _ => True

instance {n : Link} {c : Peers} : DecidablePred (Timely n c) := fun a =>
  match a with
  | .send .. => .isTrue trivial
  | .periodic => inferInstanceAs (Decidable (∀ k < c.state.receipts.hi, _))
  | .receipt _ => .isTrue trivial
  | .deliver .. => .isTrue trivial

/-- What both sides can do while no record expires. -/
def Usual (n : Link) (c : Peers) (a : Act) : Prop := Possible n c a ∧ Careful n c a ∧ Timely n c a

instance {n : Link} {c : Peers} : DecidablePred (Usual n c) := fun _ =>
  inferInstanceAs (Decidable (_ ∧ _ ∧ _))

/-- A table that is not empty begins with a record. -/
def Fronted (t : ReceiptTable) : Prop := t.lo < t.hi → t.key t.lo ≠ 0

/-- No part has been called for twice. -/
def CalledOnce (s : State) : Prop := ∀ i j a p, i < j → CallFor s i a p → ¬ CallFor s j a p

variable {n : Link} {c c' : Peers} {acts : List Act} {w : World} {s s' : State} {t : ReceiptTable}
  {r : ReceiptRecord} {v v' : View} {label : Label} {j k msg : Nat} {m : MsgOutbound}

/-! ## The front of the table -/

theorem Fronted.append (fronted : Fronted t) (ends : t.lo ≤ t.hi) (some : r.receipt ≠ 0)
    (above : ∀ j, t.key j < r.receipt) : Fronted (t.addReceipt r) := by
  have appended := ReceiptTable.addReceipt_append above
  intro inside
  have lo : (t.addReceipt r).lo = t.lo := by rw [appended]
  rw [lo, ReceiptTable.key_addReceipt above]
  split
  · exact some
  · apply fronted
    omega

/-- The ends move in up to a record, or to nothing. -/
theorem Fronted.cleared (fronted : Fronted t) : Fronted ((t.clear j).trim j) := by
  have others : ∀ k ≠ j, (t.clear j).key k = t.key k := fun k different => by
    rw [ReceiptTable.key_clear, if_neg different]
  intro inside
  rw [ReceiptTable.key_trim]
  simp only [ReceiptTable.trim, ReceiptTable.clear_lo, ReceiptTable.clear_hi] at inside ⊢
  by_cases first : j = t.lo
  · simp only [first, ↓reduceIte] at inside ⊢
    split at inside
    · exact absurd inside (Nat.lt_irrefl _)
    · rename_i apart
      simp only [apart, ↓reduceIte] at inside ⊢
      apply nextHeld_held
      omega
  · simp only [first, ↓reduceIte] at inside ⊢
    by_cases last : j + 1 = t.hi
    · simp only [last, ↓reduceIte] at inside ⊢
      split at inside
      · exact absurd inside (Nat.lt_irrefl _)
      · rename_i apart
        simp only [apart, ↓reduceIte] at inside ⊢
        rw [others _ (Ne.symm first)]
        apply fronted
        have le := (@ReceiptTable.lastHeld_le (t.clear j) (t.hi - 1 - t.lo) (t.hi - 1)).1
        omega
    · simp only [last, ↓reduceIte] at inside ⊢
      split at inside
      · exact absurd inside (Nat.lt_irrefl _)
      · rename_i apart
        simp only [apart, ↓reduceIte] at inside ⊢
        change (t.clear j).key t.lo ≠ 0
        rw [others _ (Ne.symm first)]
        exact fronted inside

theorem fronted_move (fronted : Fronted v.s.receipts) (orderly : Orderly w v) (increasing : Increasing w)
    (noExpiry : NoExpiry label) (move : Move w label v v') : Fronted v'.s.receipts := by
  cases move with
  | firstSent _ _ _ _ _ accepted | nextSent _ _ _ _ accepted | failedSent _ _ _ _ accepted =>
    exact fronted.append orderly.tabled.ordered.ends accepted (orderly.above increasing accepted)
  | lost | resent => exact absurd rfl (noExpiry _)
  | cleared => exact fronted.cleared
  | _ => exact fronted

/-! ## Runs in which no record expires -/

structure Prompt (n : Link) (c : Peers) : Prop where
  underway : Underway n c
  recent : Recent n.world ⟨c.state, none, none⟩
  once : CalledOnce c.state
  fronted : Fronted c.state.receipts

/-- With no record expired, a pass does nothing. -/
theorem expires_nothing (ordered : s.receipts.Ordered) (expires : Expires w s s')
    (none : ∀ k < s.receipts.hi, expired w (w.clock s.ticks) (s.receipts.receipts k) = false) :
    ∃ ticks, s' = { s with ticks } := by
  rcases expires with rfl | chain
  · exact ⟨s'.ticks, rfl⟩
  · rcases Relation.ReflTransGen.cases_head chain with same | ⟨v, ⟨label, rfl, move⟩, _⟩
    · cases same
      exact ⟨_, rfl⟩
    · cases move with
      | lost held late | resent held late =>
        have inside := (ordered.inside _ held).2
        rw [none _ inside] at late
        cases late

theorem once_of_march (recent : Recent w ⟨s, none, none⟩) (once : CalledOnce s) (obliging : Obliging w)
    (orderly : Orderly w ⟨s, none, none⟩) (chain : Chain w Marching ⟨s, none, none⟩ ⟨s', none, none⟩) :
    CalledOnce s' := by
  obtain ⟨_, new⟩ := recent.march obliging orderly chain
  intro i j a p before first second
  by_cases old : j < s.base.length
  · have known : ∀ i < s.base.length, CallFor s' i a p → CallFor s i a p := by
      rintro i inside ⟨call, at_i, part⟩
      have here := List.getElem?_eq_getElem inside
      cases at_i.symm.trans (base_grows chain here)
      exact ⟨_, here, part⟩
    exact once i j a p before (known i (by omega) first) (known j old second)
  · exact new j a p (Nat.le_of_not_lt old) second i before first

theorem Prompt.step {a : Act} (obliging : Obliging n.world) (range : ProperRange n.world.params)
    (maxLength : n.world.params.maxMessageLength < 2 ^ 32) (prompt : Prompt n c)
    (usual : Usual n c a) (ran : act n a c = .ok c') : Prompt n c' := by
  obtain ⟨possible, careful, timely⟩ := usual
  have after := prompt.underway.step obliging range maxLength possible careful ran
  obtain ⟨underway, recent, once, fronted⟩ := prompt
  have steady := underway.steady
  -- what marches on, and what a pass with nothing to do leaves
  have marched : Chain n.world Marching ⟨c.state, none, none⟩ ⟨c'.state, none, none⟩ → Prompt n c' := by
    intro chain
    refine ⟨after, (recent.march obliging steady.orderly chain).1,
      once_of_march recent once obliging steady.orderly chain, ?_⟩
    refine (chain.invariant (I := fun v => Orderly n.world v ∧ Fronted v.s.receipts) ?_
      ⟨steady.orderly, fronted⟩).2
    rintro label v v' marching move ⟨orderly, fronted⟩
    exact ⟨orderly.move obliging.increasing move,
      fronted_move fronted orderly obliging.increasing marching.1 move⟩
  rcases act_state ran with same | ⟨op, stepped, proper, passed⟩
  · refine ⟨after, ?_, ?_, ?_⟩
    · rw [same]
      exact recent
    · rw [same]
      exact once
    · rw [same]
      exact fronted
  · by_cases pass : op = .periodic
    · obtain rfl := passed pass
      subst pass
      obtain ⟨s₁, polls, expires, _, same⟩ := periodic_expires obliging steady.orderly steady.owned
        steady.windowed steady.paced stepped
      obtain ⟨ticks, rfl⟩ := expires_nothing steady.orderly.tabled.ordered expires timely
      refine ⟨after, ?_, ?_, ?_⟩
      · rw [same]
        exact recent.idle
      · rw [same]
        exact once
      · rw [same]
        exact fronted
    · exact marched ((steady.paced_step obliging (proper obliging) stepped).2 pass)

/-! ## What is missing -/

/-- The parts of a message that are not confirmed. -/
def missing (s : State) (a : Nat) : Nat := (s.heap a).elim 0 fun m => m.numParts - m.numConfirmed

def missingParts (s : State) : Nat := (Finset.range s.fresh).sum (missing s)

theorem missing_update {m' : MsgOutbound} (found : s.heap msg = some m) (numParts : m'.numParts = m.numParts)
    (numConfirmed : m'.numConfirmed = m.numConfirmed)
    (heap : s'.heap = Function.update s.heap msg (some m')) (a : Nat) : missing s' a = missing s a := by
  by_cases own : a = msg
  · subst own
    simp only [missing, heap, Function.update_self, found, Option.elim_some, numParts, numConfirmed]
  · simp only [missing, heap, Function.update_of_ne own]

/-- Sending more of a message confirms nothing. -/
theorem missing_serves {taken : Option Nat} (serves : Serves w taken msg s s') :
    s'.fresh = s.fresh ∧ ∀ a, missing s' a = missing s a := by
  refine serves.chain.invariant
    (I := fun v => v.s.fresh = s.fresh ∧ ∀ a, missing v.s a = missing s a) ?_ ⟨rfl, fun _ => rfl⟩
  rintro label v v' admitted move ⟨fresh, before⟩
  have sent : ∀ {t : State} {i : Nat} {m m' : MsgOutbound}, t.heap msg = some m → m'.numParts = m.numParts →
      m'.numConfirmed = m.numConfirmed → (∀ a, missing t a = missing s a) →
        ∀ a, missing (sentState w t msg m i m') a = missing s a :=
    fun found parts count before a => (missing_update found parts count rfl a).trans (before a)
  rcases admitted with rfl | rfl | rfl
  · cases move <;> exact ⟨fresh, before⟩
  · cases move with
    | nextRefused => exact ⟨fresh, before⟩
    | nextSent found => exact ⟨fresh, sent found rfl rfl before⟩
  · cases move with
    | failedRefused => exact ⟨fresh, before⟩
    | failedSent found => exact ⟨fresh, sent found rfl rfl before⟩

/-- A receipt that is found makes one part less be missing. -/
theorem missing_processed {messageId : Nat} (steady : Steady w s) (processed : Processed w messageId s s') :
    missingParts s' < missingParts s := by
  obtain ⟨j, m, lookup, held, found, _⟩ := processed.events
  have going := (steady.paced.going _ m found).unfinished
  have small := (steady.orderly.issued.shaped found).2
  have below := steady.orderly.issued.below found
  have count : (partConfirmed m (s.receipts.receipts j).partNo).numConfirmed = m.numConfirmed + 1 :=
    Nat.mod_eq_of_lt (by omega)
  have here : missing s (s.receipts.receipts j).msg = m.numParts - m.numConfirmed := by
    simp only [missing, found, Option.elim_some]
  have others : ∀ (t : State), t.fresh = s.fresh →
      (∀ a ≠ (s.receipts.receipts j).msg, missing t a = missing s a) →
      missing t (s.receipts.receipts j).msg < m.numParts - m.numConfirmed →
      missingParts t < missingParts s := by
    intro t fresh same less
    rw [← here] at less
    rw [missingParts, missingParts, fresh]
    apply Finset.sum_lt_sum
    · intro a _
      by_cases own : a = (s.receipts.receipts j).msg
      · exact own ▸ less.le
      · exact (same a own).le
    · exact ⟨_, Finset.mem_range.mpr below, less⟩
  cases processed with
  | @completed j' m₁ _ db lookup' _ found' _ same _ result =>
    cases lookup.symm.trans lookup'
    cases found.symm.trans found'
    subst same result
    apply others
    · rfl
    · intro a other
      simp only [missing, clearedState, completedState, confirmedState, Function.update_of_ne other]
    · simp only [missing, clearedState, completedState, Function.update_self, Option.elim_none]
      omega
  | @continued j' m₁ _ db s₁ lookup' _ found' _ same _ serves result =>
    cases lookup.symm.trans lookup'
    cases found.symm.trans found'
    subst same result
    obtain ⟨fresh, kept⟩ := missing_serves serves
    apply others _ fresh
    · intro a other
      refine (kept a).trans ?_
      simp only [missing, confirmedState, Function.update_of_ne other]
    · refine (kept _).trans_lt ?_
      simp only [missing, confirmedState, Function.update_self, Option.elim_some, count]
      change m.numParts - (m.numConfirmed + 1) < _
      omega

/-! ## One part less -/

/-- A fragment from the network, or a receipt. -/
def FromOutside : Act → Prop
  | .send .. => False
  | .periodic => False
  | .receipt _ => True
  | .deliver .. => True

/-- Only calls that bring a part of a message have brought it. -/
theorem Prompt.unlanded {i partNo : Nat} (prompt : Prompt n c) (called : CallFor c.state i msg partNo)
    (first : ∀ d ∈ c.landings, d.call ≠ i) : ∀ d ∈ c.landings, d.part ≠ some (msg, partNo) := by
  intro d member part
  obtain ⟨originals, progress⟩ := prompt.underway.progress
  obtain ⟨call, at_d, mine⟩ := progress.called d member
  have other : CallFor c.state d.call msg partNo := ⟨call, at_d, mine.trans part⟩
  rcases Nat.lt_trichotomy d.call i with before | same | before
  · exact prompt.once _ _ _ _ before other called
  · exact first d member same
  · exact prompt.once _ _ _ _ before called other

/-- Of a message that was taken, a call for a part passes the bytes of the part. -/
theorem passes_of_part {originals : Nat → Option MsgOutbound} {i partNo : Nat} {call : BaseCall}
    (maxLength : n.world.params.maxMessageLength < 2 ^ 32) (progress : Progress n originals c)
    (taken : n.world.answer i ≠ 0) (at_i : c.state.base[i]? = some call)
    (mine : call.part = some (msg, partNo)) : ∃ message, call.data = some message := by
  obtain ⟨p, given, rfl, _⟩ := progress.traced.posted.addressed.base i call at_i taken msg partNo mine
  have known := progress.traced.posted.known p given
  obtain ⟨l, describes⟩ := exists_letter maxLength known
  obtain ⟨built, split, here⟩ := known.split
  cases split.symm.trans describes.split
  obtain ⟨built', here', positive, inside, same, _⟩ :=
    progress.traced.faithful.unspoiled call (List.mem_of_getElem? at_i) _ partNo mine
  cases here.symm.trans here'
  have at_part : (splitInto l.id l.size l.bytes).fragments[partNo - 1]? =
      some (fragmentAt l.id l.size l.bytes (partNo - 1)) := by
    have small : partNo - 1 < pieceCount l.size l.bytes.length :=
      Nat.lt_of_lt_of_le (Nat.sub_lt positive Nat.one_pos) inside
    rw [splitInto, List.getElem?_map, List.getElem?_range small]
    rfl
  refine ⟨fragmentBytes l.id l.size l.bytes (partNo - 1), same.trans ?_⟩
  rw [Moves.part, List.getD_eq_getElem?_getD, at_part]
  rfl

/-- A fragment that has not come can come. -/
theorem Prompt.deliver {i partNo : Nat} {call : BaseCall} (obliging : Obliging n.world)
    (maxLength : n.world.params.maxMessageLength < 2 ^ 32) (limits : n.world.limit.val ≤ n.limit.val)
    (prompt : Prompt n c) (at_i : c.state.base[i]? = some call) (part : call.part = some (msg, partNo))
    (friend : call.friendNumber = n.receiver) (first : ∀ d ∈ c.landings, d.call ≠ i) :
    ∃ c', Usual n c (.deliver i (fun _ => 0) 0) ∧ act n (.deliver i (fun _ => 0) 0) c = .ok c' ∧
      c'.state = c.state ∧ ∃ d ∈ c'.landings, d.call = i := by
  obtain ⟨originals, progress⟩ := prompt.underway.progress
  have taken := obliging.taken i
  have unlanded := prompt.unlanded ⟨call, at_i, part⟩ first
  obtain ⟨message, data⟩ := passes_of_part maxLength progress taken at_i part
  obtain ⟨p, l, given, addressee, rfl, describes, carried⟩ :=
    @Progress.fragment n c originals msg i call message (fun _ => 0) partNo maxLength progress taken at_i data part
  have arrived := progress.arrived p l given (addressee.trans friend) describes
  have issued : Issued n.world c.state := progress.traced.settled.orderly.issued
  have positive := (issued.called at_i part).2
  have missing : partNo - 1 ∉ landed c.landings p.msg := by
    intro member
    obtain ⟨d, here, partNo', mine, same⟩ := mem_landed.mp member
    obtain ⟨call', at_d, part'⟩ := progress.called d here
    have positive' := (issued.called at_d (part'.trans mine)).2
    obtain rfl : partNo' = partNo := by omega
    exact unlanded d here mine
  have fits : l.bytes.length ≤ n.limit.val := by
    rw [describes.bytes]
    exact (progress.traced.posted.known p given).fits.trans limits
  have inside := (carries_iff.mp carried).2.1
  obtain ⟨r', ready, received, _⟩ := receive_missing call.type 0 fits inside arrived.within missing arrived.holds
  obtain ⟨db', inserted, _⟩ := insert_of_receive (f := l.inbound (partNo - 1) call.type 0) received
  let d : Landing := ⟨i, call.part, ready.map messageReady⟩
  have landing : land n i call (incoming n call message fun _ => 0) 0 c =
      .ok { c with db := db', landings := d :: c.landings } := by
    have handed : friendMessageCb n.limit c.db (incoming n call message fun _ => 0) 0 =
        .ok (db', ready.map messageReady) := by
      rw [friendMessageCb_carried carried]
      exact bind_ok.mpr ⟨_, inserted, rfl⟩
    exact bind_ok.mpr ⟨_, handed, rfl⟩
  have ran : act n (.deliver i (fun _ => 0) 0) c = .ok { c with db := db', landings := d :: c.landings } := by
    simp only [act, at_i, data]
    exact landing
  refine ⟨_, ⟨⟨taken, call, at_i, friend⟩, ?_, trivial⟩, ran, rfl, d, List.mem_cons_self, rfl⟩
  intro call' at_i' message' data'
  cases at_i.symm.trans at_i'
  refine ⟨fun none => ?_, fun _ again => ?_⟩
  · rw [part] at none
    cases none
  · obtain ⟨d, here, same⟩ := again
    exact absurd (same.trans part) (unlanded d here)

/-- While somebody waits for a receipt, there is one more part that can be confirmed. -/
theorem Prompt.round (obliging : Obliging n.world) (maxLength : n.world.params.maxMessageLength < 2 ^ 32)
    (limits : n.world.limit.val ≤ n.limit.val) (prompt : Prompt n c) (waits : ¬ Quiet c.state) :
    ∃ more c', Run (act n) (Usual n) (· = c) more c' ∧ (∀ a ∈ more, FromOutside a) ∧
      c.state.events ⊆ c'.state.events ∧ missingParts c'.state < missingParts c.state := by
  have steady := prompt.underway.steady
  have ordered := steady.orderly.tabled.ordered
  -- the first record is the one to be answered
  obtain ⟨k, live⟩ : ∃ k, c.state.receipts.key k ≠ 0 := by
    by_contra none
    exact waits fun k => not_not.mp fun held => none ⟨k, held⟩
  have inside := ordered.inside k live
  have room : c.state.receipts.lo < c.state.receipts.hi := inside.1.trans_lt inside.2
  have front := prompt.fronted room
  obtain ⟨i, call, at_i, part, answered⟩ := steady.orderly.issued.recorded _ front
  have lookup := (ReceiptTable.findReceipt_iff ordered front).mpr (not_hidden_first room)
  -- its fragment comes first, if the friend is the receiver
  obtain ⟨more, c₁, run, outside, same, possible⟩ : ∃ more c₁, Run (act n) (Usual n) (· = c) more c₁ ∧
      (∀ a ∈ more, FromOutside a) ∧ c₁.state = c.state ∧
      (call.friendNumber = n.receiver → ∃ d ∈ c₁.landings, d.call = i) := by
    by_cases here : call.friendNumber = n.receiver → ∃ d ∈ c.landings, d.call = i
    · exact ⟨[], c, .nil rfl, by simp, rfl, here⟩
    · push Not at here
      obtain ⟨friend, first⟩ := here
      obtain ⟨c₁, usual, ran, same, came⟩ := prompt.deliver obliging maxLength limits at_i part friend first
      exact ⟨[_], c₁, .cons (.nil rfl) usual ran, by simp [FromOutside], same, fun _ => came⟩
  obtain ⟨s', stepped⟩ := receipt_returns (obliging.taken i) call.friendNumber steady.orderly steady.owned
    steady.stored steady.anchored
  have processed : Processed n.world (n.world.answer i) c.state s' := by
    rw [← answered] at lookup
    rcases receipt_cases stepped with ⟨missing, _⟩ | ⟨missing, _⟩ | processed
    · exact absurd answered.symm (missing _ lookup)
    · exact absurd answered.symm (missing _ lookup)
    · exact processed
  have at_i₁ : c₁.state.base[i]? = some call := by rw [same, at_i]
  have usual : Usual n c₁ (.receipt i) := ⟨⟨obliging.taken i, call, at_i₁, possible⟩, trivial, trivial⟩
  have ran : act n (.receipt i) c₁ = .ok { c₁ with state := s' } := by
    simp only [act, at_i₁]
    exact bind_ok.mpr ⟨s', same ▸ stepped, rfl⟩
  refine ⟨.receipt i :: more, _, .cons run usual ran, ?_, ?_, missing_processed steady processed⟩
  · intro a member
    rcases List.mem_cons.mp member with rfl | member
    · exact trivial
    · exact outside a member
  · obtain ⟨_, _, _, _, _, done, events, _⟩ := processed.events
    change c.state.events ⊆ s'.events
    rw [events]
    exact List.subset_append_right ..

/-! ## All of them -/

theorem Prompt.run {more : List Act} (obliging : Obliging n.world) (range : ProperRange n.world.params)
    (maxLength : n.world.params.maxMessageLength < 2 ^ 32) (prompt : Prompt n c)
    (run : Run (act n) (Usual n) (· = c) more c') : Prompt n c' := by
  apply run.invariant
  · rintro _ rfl
    exact prompt
  · intro c a c' prompt usual ran
    exact prompt.step obliging range maxLength usual ran

theorem prompt_begun (range : ProperRange n.world.params) (begun : Begun n c) : Prompt n c := by
  have initial := started_iff.mp begun.1
  refine ⟨underway_begun range begun, ?_, ?_, ?_⟩
  · rw [initial]
    exact Recent.initial
  · rw [initial]
    rintro i j a p _ ⟨call, at_i, _⟩
    cases at_i
  · rw [initial]
    intro inside
    exact absurd inside (Nat.lt_irrefl _)

theorem Prompt.finish (obliging : Obliging n.world) (range : ProperRange n.world.params)
    (maxLength : n.world.params.maxMessageLength < 2 ^ 32) (limits : n.world.limit.val ≤ n.limit.val)
    (prompt : Prompt n c) : ∃ more c', Run (act n) (Usual n) (· = c) more c' ∧ (∀ a ∈ more, FromOutside a) ∧
      c.state.events ⊆ c'.state.events ∧ Quiet c'.state := by
  generalize counted : missingParts c.state = count
  induction count using Nat.strong_induction_on generalizing c with
  | _ count ih =>
    by_cases quiet : Quiet c.state
    · exact ⟨[], c, .nil rfl, by simp, List.Subset.refl _, quiet⟩
    · obtain ⟨more, c₁, run, outside, events, less⟩ := prompt.round obliging maxLength limits quiet
      obtain ⟨rest, c', run', outside', events', quiet'⟩ := ih _ (counted ▸ less)
        (prompt.run obliging range maxLength run) rfl
      refine ⟨rest ++ more, c', run.append run', fun a member => ?_, List.Subset.trans events events', quiet'⟩
      rcases List.mem_append.mp member with member | member
      · exact outside' a member
      · exact outside a member

end Defragmenter.Finishing
